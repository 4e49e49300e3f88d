import Mathlib.Tactic.Common

/-!
# Computations that may abort

`EStateM ε σ` has a state that is kept when a computation aborts. `Spec R Q c` says that `c` leads
from each state to one that is related to it by `R`, whether it aborts or not, and that its result
satisfies `Q` if it does not abort. For a preorder `R` the rules follow the constructions of the
monad.
-/

namespace Comp

open List

variable {ε σ α β : Type} {R : σ → σ → Prop} {P : α → Prop} {Q : β → Prop} {c : EStateM ε σ α}
  {f : α → EStateM ε σ β} {s s' : σ} {e : ε} {x : Except ε α} {l : List α} {b : β} {g : α → β}

/-- The state at the end. -/
def final : EStateM.Result ε σ α → σ
  | .ok _ s => s
  | .error _ s => s

/-- The computation leads from each state to a related one, and its results satisfy `P`. -/
def Spec (R : σ → σ → Prop) (P : α → Prop) (c : EStateM ε σ α) : Prop :=
  ∀ s, R s (final (c.run s)) ∧ ∀ a s', c.run s = .ok a s' → P a

lemma run_bind_ok {a : α} (h : c.run s = .ok a s') : (c >>= f).run s = (f a).run s' := by
  rw [EStateM.run_bind, h]

lemma run_get_bind {f : σ → EStateM ε σ β} : (get >>= f).run s = (f s).run s := rfl

lemma run_set_bind {f : PUnit → EStateM ε σ β} :
    (set s' >>= f).run s = (f ⟨⟩).run s' := rfl

lemma run_modify_bind {f : PUnit → EStateM ε σ β} {g : σ → σ} :
    (modify g >>= f).run s = (f ⟨⟩).run (g s) := rfl

lemma run_bind_error (h : c.run s = .error e s') : (c >>= f).run s = .error e s' := by
  rw [EStateM.run_bind, h]

/-- A sequence ends with a result if both of its parts do. -/
lemma run_bind_eq_ok :
    (c >>= f).run s = .ok b s' ↔ ∃ a s₁, c.run s = .ok a s₁ ∧ (f a).run s₁ = .ok b s' := by
  rw [EStateM.run_bind]
  cases c.run s with
  | ok a s₁ =>
    constructor
    · exact fun h => ⟨a, s₁, rfl, h⟩
    · rintro ⟨_, _, ⟨⟩, h⟩
      exact h
  | error e s₁ => exact ⟨nofun, fun ⟨_, _, h, _⟩ => nomatch h⟩

lemma run_bind_eq_error :
    (c >>= f).run s = .error e s' ↔
      c.run s = .error e s' ∨ ∃ a s₁, c.run s = .ok a s₁ ∧ (f a).run s₁ = .error e s' := by
  rw [EStateM.run_bind]
  cases c.run s with
  | ok a s₁ =>
    constructor
    · exact fun h => Or.inr ⟨a, s₁, rfl, h⟩
    · rintro (h | ⟨_, _, ⟨⟩, h⟩)
      · cases h
      · exact h
  | error e' s₁ =>
    constructor
    · rintro ⟨⟩
      exact Or.inl rfl
    · rintro (h | ⟨_, _, h, _⟩)
      · cases h
        rfl
      · cases h

lemma run_bind_pure_eq_ok :
    (c >>= fun a => pure (g a)).run s = .ok b s' ↔ ∃ a, c.run s = .ok a s' ∧ g a = b := by
  rw [run_bind_eq_ok]
  constructor
  · rintro ⟨a, _, ha, ⟨⟩⟩
    exact ⟨a, ha, rfl⟩
  · rintro ⟨a, ha, rfl⟩
    exact ⟨a, s', ha, rfl⟩

lemma run_bind_pure_eq_error :
    (c >>= fun a => pure (g a)).run s = .error e s' ↔ c.run s = .error e s' := by
  rw [run_bind_eq_error]
  refine or_iff_left ?_
  rintro ⟨_, _, -, ⟨⟩⟩

/-! ### Computations without a state -/

lemma ok_bind (a : α) (f : α → Except ε β) : (Except.ok a >>= f) = f a := rfl

lemma bind_eq_ok {f : α → Except ε β} : (x >>= f) = .ok b ↔ ∃ a, x = .ok a ∧ f a = .ok b := by
  cases x with
  | error e => exact ⟨nofun, fun ⟨_, h, _⟩ => nomatch h⟩
  | ok a => exact ⟨fun h => ⟨a, rfl, h⟩, fun ⟨_, h, hf⟩ => Except.ok.inj h ▸ hf⟩

lemma bind_congr_ok {f g : α → Except ε β} (h : ∀ a, x = .ok a → f a = g a) :
    (x >>= f) = (x >>= g) := by
  cases x with
  | error e => rfl
  | ok a => exact h a rfl

lemma bind_ne_error {f : α → Except ε β} (hx : x ≠ .error e)
    (hf : ∀ a, x = .ok a → f a ≠ .error e) : (x >>= f) ≠ .error e := by
  cases x with
  | error e' => exact fun h => hx (congrArg Except.error (Except.error.inj h))
  | ok a => exact hf a rfl

/-! ### Loops -/

/-- An invariant of a loop over a list. -/
lemma foldlM_induct {I : List α → β → σ → Prop} {f : β → α → EStateM ε σ β} {b' : β}
    (hnil : I [] b s)
    (hstep : ∀ done x rest b s b' s', done ++ x :: rest = l → I done b s →
      (f b x).run s = .ok b' s' → I (done ++ [x]) b' s') (hrun : (l.foldlM f b).run s = .ok b' s') :
    I l b' s' := by
  suffices h : ∀ rest done b s, done ++ rest = l → I done b s →
      (rest.foldlM f b).run s = .ok b' s' → I l b' s' from h l [] b s rfl hnil hrun
  intro rest
  induction rest with
  | nil =>
    intro done b s hl hinv hrun
    cases hrun
    rwa [← hl, append_nil]
  | cons x rest ih =>
    intro done b s hl hinv hrun
    rw [foldlM_cons] at hrun
    obtain ⟨b₁, s₁, hfirst, hrest⟩ := run_bind_eq_ok.mp hrun
    refine ih (done ++ [x]) b₁ s₁ ?_ (hstep done x rest b s b₁ s₁ hl hinv hfirst) hrest
    rw [append_assoc, singleton_append, hl]

/-- An invariant of a loop over a list that only reads. -/
lemma foldlM_induct_except {I : List α → β → Prop} {f : β → α → Except ε β} {b' : β} (hnil : I [] b)
    (hstep : ∀ done x rest b b', done ++ x :: rest = l → I done b → f b x = .ok b' →
      I (done ++ [x]) b') (hrun : l.foldlM f b = .ok b') : I l b' := by
  suffices h : ∀ rest done b, done ++ rest = l → I done b →
      rest.foldlM f b = .ok b' → I l b' from h l [] b rfl hnil hrun
  intro rest
  induction rest with
  | nil =>
    intro done b hl hinv hrun
    cases hrun
    rwa [← hl, append_nil]
  | cons x rest ih =>
    intro done b hl hinv hrun
    rw [foldlM_cons] at hrun
    obtain ⟨b₁, hfirst, hrest⟩ := bind_eq_ok.mp hrun
    refine ih (done ++ [x]) b₁ ?_ (hstep done x rest b b₁ hl hinv hfirst) hrest
    rw [append_assoc, singleton_append, hl]

/-- The results of a call for every element of a list. -/
lemma mapM_eq_ok {f : α → Except ε β} {r : List β} (h : l.mapM f = .ok r) :
    Forall₂ (fun a b => f a = .ok b) l r := by
  induction l generalizing r with
  | nil =>
    cases h
    exact .nil
  | cons a l ih =>
    rw [mapM_cons] at h
    obtain ⟨b, hfirst, h⟩ := bind_eq_ok.mp h
    obtain ⟨r', hrest, h⟩ := bind_eq_ok.mp h
    cases h
    exact .cons hfirst (ih hrest)

lemma final_map (c : EStateM ε σ α) (f : α → β) (s : σ) :
    final ((f <$> c).run s) = final (c.run s) := by
  rw [← bind_pure_comp, EStateM.run_bind]
  cases c.run s <;> rfl

lemma spec_pure [Std.Refl R] {a : α} (h : P a) : Spec R P (pure a : EStateM ε σ α) := by
  refine fun s => ⟨refl_of R s, fun b s' hrun => ?_⟩
  cases hrun
  exact h

lemma spec_throw [Std.Refl R] (e : ε) : Spec R P (throw e : EStateM ε σ α) :=
  fun s => ⟨refl_of R s, nofun⟩

lemma Spec.mono {P' : α → Prop} {R' : σ → σ → Prop} (h : Spec R P c) (hR : ∀ s s', R s s' → R' s s')
    (hP : ∀ a, P a → P' a) : Spec R' P' c :=
  fun s => ⟨hR _ _ (h s).1, fun a s' hrun => hP a ((h s).2 a s' hrun)⟩

lemma Spec.bind [IsTrans σ R] (hc : Spec R P c) (hf : ∀ a, P a → Spec R Q (f a)) :
    Spec R Q (c >>= f) := by
  intro s
  obtain ⟨hs, hP⟩ := hc s
  cases hrun : c.run s with
  | ok a s' =>
    rw [run_bind_ok hrun]
    rw [hrun] at hs
    obtain ⟨hs', hQ⟩ := hf a (hP a s' hrun) s'
    exact ⟨trans_of R hs hs', hQ⟩
  | error e s' =>
    rw [run_bind_error hrun]
    rw [hrun] at hs
    exact ⟨hs, nofun⟩

lemma Spec.map [Std.Refl R] [IsTrans σ R] {f : α → β} (hc : Spec R P c) (hf : ∀ a, P a → Q (f a)) :
    Spec R Q (f <$> c) := by
  rw [← bind_pure_comp]
  exact hc.bind fun a ha => spec_pure (hf a ha)

end Comp
