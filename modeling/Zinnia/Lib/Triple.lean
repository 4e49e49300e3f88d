import Zinnia.Lib.Comp

/-!
# Pre- and postconditions

`Triple P c Q E` says that from a state with `P` the computation `c` ends with a result and a state
that satisfy `Q`, or aborts in a state that satisfies `E`.
-/

namespace Comp

variable {ε σ α β : Type}

def Triple (P : σ → Prop) (c : EStateM ε σ α) (Q : α → σ → Prop) (E : σ → Prop) : Prop :=
  ∀ s, P s → match c.run s with
    | .ok a s' => Q a s'
    | .error _ s' => E s'

namespace Triple

variable {P P' E : σ → Prop} {Q R : α → σ → Prop} {S : β → σ → Prop} {c : EStateM ε σ α}
  {f : α → EStateM ε σ β}

lemma pure {a : α} (h : ∀ s, P s → Q a s) : Triple P (pure a : EStateM ε σ α) Q E := h

lemma throw {e : ε} (h : ∀ s, P s → E s) : Triple P (throw e : EStateM ε σ α) Q E := h

lemma modify {g : σ → σ} {Q : PUnit → σ → Prop} (h : ∀ s, P s → Q ⟨⟩ (g s)) :
    Triple P (modify g : EStateM ε σ PUnit) Q E := h

lemma set {s' : σ} {Q : PUnit → σ → Prop} (h : ∀ s, P s → Q ⟨⟩ s') :
    Triple P (set s' : EStateM ε σ PUnit) Q E := h

lemma bind (hc : Triple P c R E) (hf : ∀ a, Triple (R a) (f a) S E) :
    Triple P (c >>= f) S E := by
  intro s hs
  have hfirst := hc s hs
  rw [EStateM.run_bind]
  cases hrun : c.run s with
  | ok a s' =>
    rw [hrun] at hfirst
    exact hf a s' hfirst
  | error e s' =>
    rw [hrun] at hfirst
    exact hfirst

/-- The state that is read is the one of the rest. -/
lemma get_bind {f : σ → EStateM ε σ β} (h : ∀ s, P s → Triple (· = s) (f s) S E) :
    Triple P (get >>= f) S E := fun s hs => h s hs s rfl

lemma conseq (hc : Triple P c Q E) (hP : ∀ s, P' s → P s) {Q' : α → σ → Prop}
    (hQ : ∀ a s, Q a s → Q' a s) {E' : σ → Prop} (hE : ∀ s, E s → E' s) :
    Triple P' c Q' E' := by
  intro s hs
  have hrun := hc s (hP s hs)
  cases h : c.run s with
  | ok a s' =>
    rw [h] at hrun
    exact hQ a s' hrun
  | error e s' =>
    rw [h] at hrun
    exact hE s' hrun

lemma ite {φ : Prop} [Decidable φ] {c' : EStateM ε σ α} (ht : φ → Triple P c Q E)
    (hf : ¬ φ → Triple P c' Q E) : Triple P (if φ then c else c') Q E := by
  split_ifs with h
  · exact ht h
  · exact hf h

/-- A condition that does not depend on the outcome. -/
lemma iff_final {Q : σ → Prop} :
    Triple P c (fun _ => Q) Q ↔ ∀ s, P s → Q (Comp.final (c.run s)) := by
  refine forall₂_congr fun s _ => ?_
  cases c.run s <;> rfl

lemma final {Q : σ → Prop} (h : Triple P c (fun _ => Q) Q) {s : σ} (hs : P s) :
    Q (Comp.final (c.run s)) := iff_final.mp h s hs

/-- A loop over a list keeps what each round keeps. -/
lemma forM {l : List α} {g : α → EStateM ε σ PUnit} (h : ∀ a ∈ l, Triple P (g a) (fun _ => P) P) :
    Triple P (l.forM g) (fun _ => P) P := by
  induction l with
  | nil => exact pure fun _ => id
  | cons a l ih =>
    exact bind (h a List.mem_cons_self) fun _ => ih fun b hb => h b (List.mem_cons_of_mem _ hb)

end Triple

end Comp
