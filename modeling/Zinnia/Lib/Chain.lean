import Mathlib.Data.List.Range

/-!
# Singly linked lists in memory

`next` has the successor of every address, and `nil` ends a list.
-/

namespace Zinnia

open Function List

variable {α β : Type*} {next next' : α → α} {nil p : α} {l : List α} {f : ℕ → α}

/-- The list that starts at `p` goes through the addresses `l`. -/
def Chain (next : α → α) (nil : α) : α → List α → Prop
  | p, [] => p = nil
  | p, a :: l => p = a ∧ a ≠ nil ∧ Chain next nil (next a) l

namespace Chain

lemma eq_nil_iff (h : Chain next nil p l) : p = nil ↔ l = [] := by
  cases l with
  | nil => exact iff_of_true h rfl
  | cons a l =>
    obtain ⟨rfl, hne, -⟩ := h
    exact iff_of_false hne (cons_ne_nil _ _)

/-- The successors of other addresses do not matter. -/
lemma congr (h : Chain next nil p l) (hnext : ∀ a ∈ l, next' a = next a) :
    Chain next' nil p l := by
  induction l generalizing p with
  | nil => exact h
  | cons a l ih =>
    obtain ⟨rfl, hne, h⟩ := h
    refine ⟨rfl, hne, ?_⟩
    rw [hnext p mem_cons_self]
    exact ih h fun b hb => hnext b (mem_cons_of_mem p hb)

lemma push [DecidableEq α] (h : Chain next nil p l) {a : α} (hne : a ≠ nil) (ha : a ∉ l) :
    Chain (update next a p) nil a (a :: l) := by
  refine ⟨rfl, hne, ?_⟩
  rw [update_self]
  refine h.congr fun b hb => update_of_ne ?_ _ _
  rintro rfl
  exact ha hb

/-- A list that goes through consecutive cells. -/
lemma map_range' {f : ℕ → α} {n : ℕ} (hne : ∀ i < n, f i ≠ nil)
    (hstep : ∀ i, i + 1 < n → next (f i) = f (i + 1)) (hlast : 0 < n → next (f (n - 1)) = nil)
    {i m : ℕ} (hm : i + m = n) :
    Chain next nil (if m = 0 then nil else f i) ((List.range' i m).map f) := by
  induction m generalizing i with
  | zero => rfl
  | succ m ih =>
    refine ⟨rfl, hne i (by omega), ?_⟩
    have hrest := ih (i := i + 1) (by omega)
    split_ifs at hrest with hzero
    · obtain rfl : i = n - 1 := by omega
      rwa [hlast (by omega)]
    · rwa [hstep i (by omega)]

end Chain

/-! ### Linking cells -/

/-- Assignments to cells, one after the other. -/
lemma foldl_update_apply [DecidableEq α] (hf : Injective f) (v : ℕ → β) (g : α → β) (n i : ℕ) :
    (List.range n).foldl (fun g i => update g (f i) (v i)) g (f i) =
      if i < n then v i else g (f i) := by
  induction n with
  | zero => rfl
  | succ n ih =>
    rw [range_succ, foldl_append, foldl_cons, foldl_nil, update_apply]
    split_ifs with heq hlt hlt
    · rw [hf heq]
    · exact absurd (hf heq ▸ Nat.lt_succ_self n) hlt
    · have hne : i ≠ n := fun h => heq (congrArg f h)
      rw [ih, if_pos (by omega)]
    · rw [ih, if_neg (by omega)]

lemma foldl_update_of_notMem [DecidableEq α] (v : ℕ → β) (g : α → β) {n : ℕ} {a : α}
    (ha : ∀ i < n, f i ≠ a) : (List.range n).foldl (fun g i => update g (f i) (v i)) g a = g a := by
  induction n with
  | zero => rfl
  | succ n ih =>
    rw [range_succ, foldl_append, foldl_cons, foldl_nil,
      update_of_ne (ha n (Nat.lt_succ_self n)).symm]
    exact ih fun i hi => ha i (Nat.lt_succ_of_lt hi)

end Zinnia
