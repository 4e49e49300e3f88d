import Mathlib.Data.List.Range

/-!
# Loops

`Loop.run step n s` repeats a partial step until it no longer applies, and gives up after `n`
rounds. `Loop.run_spec` is the rule of total correctness: an invariant, and a measure that every
round makes smaller. `Loop.forRange` is the counting loop.
-/

namespace Loop

open List

variable {σ α : Type*} {s : σ} {f : σ → ℕ → σ} {P : σ → Prop}

/-- Repeat `step` until it does not apply, for less than `n` rounds. -/
def run (step : σ → Option σ) : ℕ → σ → Option σ
  | 0, _ => none
  | n + 1, s =>
    match step s with
    | none => some s
    | some s' => run step n s'

/-- A loop whose rounds keep `I` and decrease `μ` ends, with `I` and where `step` does not
apply. -/
theorem run_spec {step : σ → Option σ} {I : σ → Prop} {μ : σ → ℕ}
    (hstep : ∀ s s', I s → step s = some s' → I s' ∧ μ s' < μ s) (hs : I s) {n : ℕ} (hn : μ s < n) :
    ∃ s', run step n s = some s' ∧ I s' ∧ step s' = none := by
  induction n generalizing s with
  | zero => omega
  | succ n ih =>
    cases h : step s with
    | none => exact ⟨s, by simp [run, h], hs, h⟩
    | some t =>
      obtain ⟨ht, hlt⟩ := hstep s t hs h
      obtain ⟨s', hrun, hs'⟩ := ih ht (by omega)
      exact ⟨s', by simp [run, h, hrun], hs'⟩

/-- `for i in a..b`. -/
def forRange (a b : ℕ) (s : σ) (f : σ → ℕ → σ) : σ := (List.range' a (b - a)).foldl f s

/-- A counting loop whose round `i` changes a function at the point `i` only. -/
lemma forRange_pointwise (a b : ℕ) (g : ℕ → α) {body : (ℕ → α) → ℕ → ℕ → α} {f : ℕ → α → α}
    (hbody : ∀ g i j, body g i j = if j = i then f i (g i) else g j) (i : ℕ) :
    forRange a b g body i = if a ≤ i ∧ i < b then f i (g i) else g i := by
  unfold forRange
  obtain ⟨n, hn⟩ : ∃ n, n = b - a := ⟨_, rfl⟩
  rw [← hn]
  induction n generalizing a g with
  | zero => simp [show ¬ (a ≤ i ∧ i < b) by omega]
  | succ n ih =>
    rw [range'_succ, foldl_cons, ih (a + 1) _ (by omega), hbody]
    by_cases hia : i = a
    · simp [hia, show a < b by omega]
    · simp [hia, show a + 1 ≤ i ↔ a ≤ i by omega]

/-- A counting loop keeps what each of its rounds keeps. -/
lemma forRange_induction_mem {a b : ℕ} (hs : P s) (hf : ∀ s i, a ≤ i → i < b → P s → P (f s i)) :
    P (forRange a b s f) := by
  refine foldlRecOn _ f hs fun s hs i hi => ?_
  rw [mem_range'_1] at hi
  exact hf s i hi.1 (by omega) hs

lemma forRange_induction {a b : ℕ} (hs : P s) (hf : ∀ s i, P s → P (f s i)) :
    P (forRange a b s f) :=
  forRange_induction_mem hs fun s i _ _ => hf s i

/-- A counting loop whose rounds each settle their own index, and unsettle none. -/
lemma forRange_forall {Q : ℕ → σ → Prop} {a b : ℕ} (hset : ∀ s i, Q i (f s i))
    (hkeep : ∀ s i j, Q j s → Q j (f s i)) {i : ℕ} (ha : a ≤ i) (hb : i < b) :
    Q i (forRange a b s f) := by
  have hmem : i ∈ range' a (b - a) := by
    rw [mem_range'_1]
    omega
  obtain ⟨l₁, l₂, hsplit⟩ := append_of_mem hmem
  rw [forRange, hsplit, foldl_append, foldl_cons]
  exact foldlRecOn l₂ f (hset _ i) fun s hs j _ => hkeep s j i hs

end Loop
