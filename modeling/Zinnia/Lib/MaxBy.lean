import Mathlib.Data.List.Induction

/-!
# The last of the largest elements

`Iterator::max_by` compares from left to right and keeps the later one of two equal elements.
-/

namespace Zinnia

open List

variable {α : Type*}

/-- The last element of a list with the largest key. -/
def maxBy (key : α → ℕ) (l : List α) : Option α :=
  l.foldl (fun best y => best.elim (some y) fun x => some (if key y < key x then x else y)) none

namespace maxBy

variable {key : α → ℕ} {x : α} {l : List α}

lemma concat (key : α → ℕ) (l : List α) (y : α) : maxBy key (l ++ [y]) =
    (maxBy key l).elim (some y) fun x => some (if key y < key x then x else y) := by
  rw [maxBy, foldl_append]
  rfl

lemma eq_nil (h : maxBy key l = none) : l = [] := by
  cases l using reverseRecOn with
  | nil => rfl
  | append_singleton l y =>
    rw [concat] at h
    cases hbest : maxBy key l <;> rw [hbest] at h <;> cases h

/-- No element is larger, and the elements behind it are smaller. -/
lemma exists_of_eq_some (h : maxBy key l = some x) : ∃ l₁ l₂, l = l₁ ++ x :: l₂ ∧
    (∀ y ∈ l₁, key y ≤ key x) ∧ ∀ y ∈ l₂, key y < key x := by
  induction l using reverseRecOn generalizing x with
  | nil => cases h
  | append_singleton l y ih =>
    rw [concat] at h
    cases hl : maxBy key l with
    | none =>
      rw [hl] at h
      cases h
      rw [eq_nil hl]
      exact ⟨[], [], rfl, nofun, nofun⟩
    | some best =>
      obtain ⟨l₁, l₂, rfl, hle, hlt⟩ := ih hl
      rw [hl, Option.elim_some] at h
      split_ifs at h with hyx
      · cases h
        exact ⟨l₁, l₂ ++ [y], by simp, hle, forall_mem_append.mpr
          ⟨hlt, forall_mem_singleton.mpr hyx⟩⟩
      · cases h
        have hbest : key best ≤ key y := Nat.le_of_not_lt hyx
        refine ⟨l₁ ++ best :: l₂, [], rfl, forall_mem_append.mpr ⟨fun z hz => ?_,
          forall_mem_cons.mpr ⟨hbest, fun z hz => ?_⟩⟩, nofun⟩
        · exact Nat.le_trans (hle z hz) hbest
        · exact Nat.le_trans (Nat.le_of_lt (hlt z hz)) hbest

lemma mem (h : maxBy key l = some x) : x ∈ l := by
  obtain ⟨l₁, l₂, rfl, -⟩ := exists_of_eq_some h
  simp

lemma append_cons {l₁ l₂ : List α} (hle : ∀ y ∈ l₁, key y ≤ key x)
    (hlt : ∀ y ∈ l₂, key y < key x) : maxBy key (l₁ ++ x :: l₂) = some x := by
  induction l₂ using reverseRecOn with
  | nil =>
    rw [concat]
    cases hbest : maxBy key l₁ with
    | none => rfl
    | some best =>
      rw [Option.elim_some, if_neg (Nat.not_lt.mpr (hle best (mem hbest)))]
  | append_singleton l₂ y ih =>
    rw [← cons_append, ← append_assoc, concat,
      ih fun z hz => hlt z (mem_append_left _ hz), Option.elim_some,
      if_pos (hlt y (mem_append_right _ (mem_singleton_self y)))]

lemma exists_of_mem (key : α → ℕ) {y : α} (hy : y ∈ l) :
    ∃ x ∈ l, maxBy key l = some x ∧ key y ≤ key x := by
  cases hl : maxBy key l with
  | none =>
    rw [eq_nil hl] at hy
    cases hy
  | some x =>
    refine ⟨x, mem hl, rfl, ?_⟩
    obtain ⟨l₁, l₂, rfl, hle, hlt⟩ := exists_of_eq_some hl
    rcases mem_append.mp hy with hy | hy
    · exact hle y hy
    · rcases mem_cons.mp hy with rfl | hy
      · exact Nat.le_refl _
      · exact Nat.le_of_lt (hlt y hy)

/-- If the largest element is among those that are looked at, no other one is found. -/
lemma filter (h : maxBy key l = some x) {p : α → Bool} (hp : p x) :
    maxBy key (l.filter p) = some x := by
  obtain ⟨l₁, l₂, rfl, hle, hlt⟩ := exists_of_eq_some h
  rw [filter_append, filter_cons_of_pos hp]
  apply append_cons
  · exact fun y hy => hle y (mem_filter.mp hy).1
  · exact fun y hy => hlt y (mem_filter.mp hy).1

end maxBy

end Zinnia
