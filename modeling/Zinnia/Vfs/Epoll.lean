import Mathlib.Data.List.Chain
import Zinnia.Util

/-!
# Epoll files in epoll files

A new item is checked downwards from its file. This keeps the graph of epoll files acyclic, but
bounds only the chains that begin at the epoll file.
-/

namespace Zinnia.Epoll

open List Function Relation

/-- `MAX_NEST`. -/
def maxNest : ℕ := 4

inductive File where
  | epoll (id : ℕ)
  | other
deriving DecidableEq

/-- The files that the epoll files watch, by descriptor. -/
abbrev Items := ℕ → List (BitVec 32 × File)

/-- Whether `EpollFile::check_no_loop` succeeds. -/
def checkNoLoop (s : Items) (self : ℕ) : ℕ → File → Bool
  | _, .other => true
  | 0, .epoll _ => false
  | depth + 1, .epoll child =>
    child ≠ self && (s child).all fun item => checkNoLoop s self depth item.2

/-- `EpollFile::add`. -/
def add (s : Items) (self : ℕ) (fd : BitVec 32) (file : File) : EResult Items :=
  if !checkNoLoop s self maxNest file then .error .eloop
  else if (s self).any (·.1 = fd) then .error .eexist
  else .ok (update s self ((fd, file) :: s self))

/-- `EpollFile::delete`. -/
def delete (s : Items) (self : ℕ) (fd : BitVec 32) : EResult Items :=
  if (s self).any (·.1 = fd) then .ok (update s self ((s self).filter (·.1 ≠ fd)))
  else .error .enoent

/-- An epoll file watches another one. -/
def Watches (s : Items) (x y : ℕ) : Prop := ∃ fd, (fd, .epoll y) ∈ s x

/-- At most `n` calls of `EpollFile::poll` are nested when an epoll file is polled, whatever the
other files answer. -/
def pollsWithin (s : Items) : ℕ → File → Bool
  | _, .other => true
  | 0, .epoll _ => false
  | n + 1, .epoll self => (s self).all fun item => pollsWithin s n item.2

/-- The runs of additions that are allowed, and of deletions. -/
inductive Reaches (Allowed : Items → ℕ → File → Prop) : Items → Prop
  | new : Reaches Allowed fun _ => []
  | add {s s' : Items} {self : ℕ} {fd : BitVec 32} {file : File} :
    Reaches Allowed s → Allowed s self file → add s self fd file = .ok s' → Reaches Allowed s'
  | delete {s s' : Items} {self : ℕ} {fd : BitVec 32} :
    Reaches Allowed s → delete s self fd = .ok s' → Reaches Allowed s'

/-- If the file is an epoll file, no other one watches the one that it is added to. -/
def Topmost (s : Items) (self : ℕ) : File → Prop
  | .other => True
  | .epoll _ => ∀ x, ¬ Watches s x self

variable {s s' : Items} {self child depth x y : ℕ} {fd : BitVec 32} {file : File} {l : List ℕ}

/-- A check that succeeds has seen all chains below the file. -/
lemma isChain_of_checkNoLoop (h : checkNoLoop s self depth (.epoll child))
    (hl : (child :: l).IsChain (Watches s)) : l.length < depth ∧ self ∉ child :: l := by
  induction depth generalizing child l with
  | zero => cases h
  | succ depth ih =>
    rw [checkNoLoop, Bool.and_eq_true, decide_eq_true_eq, all_eq_true] at h
    cases l with
    | nil => exact ⟨Nat.succ_pos _, by simpa using h.1.symm⟩
    | cons y l =>
      obtain ⟨⟨fd, hfd⟩, hl⟩ := isChain_cons_cons.mp hl
      obtain ⟨hlt, hself⟩ := ih (h.2 _ hfd) hl
      exact ⟨Nat.succ_lt_succ hlt, not_mem_cons_of_ne_of_not_mem h.1.symm hself⟩

lemma not_path_of_checkNoLoop (h : checkNoLoop s self depth (.epoll child)) :
    ¬ ReflTransGen (Watches s) child self := by
  intro hpath
  obtain ⟨l, hl, rfl⟩ := exists_isChain_cons_of_relationReflTransGen hpath
  exact (isChain_of_checkNoLoop h hl).2 (getLast_mem _)

lemma watches_of_add (h : add s self fd file = .ok s') (hw : Watches s' x y) :
    Watches s x y ∨ x = self ∧ file = .epoll y ∧ checkNoLoop s self maxNest (.epoll y) := by
  unfold add at h
  split_ifs at h with hcheck
  cases h
  obtain ⟨fd', hmem⟩ := hw
  rcases eq_or_ne x self with rfl | hne
  · rw [update_self] at hmem
    rcases mem_cons.mp hmem with heq | hmem
    · cases heq
      exact .inr ⟨rfl, rfl, by simpa using hcheck⟩
    · exact .inl ⟨fd', hmem⟩
  · rw [update_of_ne hne] at hmem
    exact .inl ⟨fd', hmem⟩

lemma watches_of_delete (h : delete s self fd = .ok s') (hw : Watches s' x y) : Watches s x y := by
  unfold delete at h
  split_ifs at h
  cases h
  obtain ⟨fd', hmem⟩ := hw
  rw [update_apply] at hmem
  split_ifs at hmem with hx
  · exact ⟨fd', hx ▸ mem_of_mem_filter hmem⟩
  · exact ⟨fd', hmem⟩

/-- A path after an addition was there before, or goes through the new edge. -/
lemma path_of_add (hadd : add s self fd file = .ok s') (h : TransGen (Watches s') x y) :
    TransGen (Watches s) x y ∨ ∃ child, checkNoLoop s self maxNest (.epoll child) ∧
      ReflTransGen (Watches s) x self ∧ ReflTransGen (Watches s) child y := by
  induction h with
  | single hxy =>
    obtain hold | ⟨rfl, -, hcheck⟩ := watches_of_add hadd hxy
    · exact .inl (.single hold)
    · exact .inr ⟨_, hcheck, .refl, .refl⟩
  | tail _ hyz ih =>
    obtain hold | ⟨rfl, -, hcheck⟩ := watches_of_add hadd hyz
    · obtain hpath | ⟨child, hcheck, hself, hchild⟩ := ih
      · exact .inl (hpath.tail hold)
      · exact .inr ⟨child, hcheck, hself, hchild.tail hold⟩
    · obtain hpath | ⟨-, -, hself, -⟩ := ih
      · exact .inr ⟨_, hcheck, hpath.to_reflTransGen, .refl⟩
      · exact .inr ⟨_, hcheck, hself, .refl⟩

/-- A chain after an addition was there before, or it begins with the new edge, if nothing watches
the epoll file. -/
lemma isChain_of_add (hadd : add s self fd file = .ok s') (htop : Topmost s self file)
    (h : l.IsChain (Watches s')) : l.IsChain (Watches s) ∨ ∃ child rest, l = self :: child :: rest ∧
      file = .epoll child ∧ checkNoLoop s self maxNest (.epoll child) ∧
      (child :: rest).IsChain (Watches s) := by
  induction l with
  | nil => exact .inl .nil
  | cons x l ih =>
    cases l with
    | nil => exact .inl (.singleton x)
    | cons y l =>
      obtain ⟨hxy, hl⟩ := isChain_cons_cons.mp h
      obtain hold | ⟨child, rest, ⟨⟩, rfl, -⟩ := ih hl
      · obtain hxy | ⟨rfl, hfile, hcheck⟩ := watches_of_add hadd hxy
        · exact .inl (.cons_cons hxy hold)
        · exact .inr ⟨y, l, rfl, hfile, hcheck, hold⟩
      · obtain hxy | ⟨-, -, hcheck⟩ := watches_of_add hadd hxy
        · exact absurd hxy (htop x)
        · exact absurd .refl (not_path_of_checkNoLoop hcheck)

/-- The calls of `poll` follow a chain. -/
lemma pollsWithin_of_isChain {n : ℕ}
    (h : ∀ l : List ℕ, (self :: l).IsChain (Watches s) → l.length < n) :
    pollsWithin s n (.epoll self) := by
  induction n generalizing self with
  | zero => exact absurd (h [] (.singleton _)) (Nat.not_lt_zero _)
  | succ n ih =>
    rw [pollsWithin, all_eq_true]
    rintro ⟨fd, child | _⟩ hitem
    · refine ih fun l hl => Nat.lt_of_succ_lt_succ (h (child :: l) ?_)
      exact .cons_cons ⟨fd, hitem⟩ hl
    · cases n <;> rfl

/-- The epoll files never watch each other in a cycle. If items are only added to epoll files that
no other one watches, no chain is longer than one more than `MAX_NEST`, and `poll` is not nested
more deeply. -/
theorem Reaches.nested {Allowed : Items → ℕ → File → Prop} (h : Reaches Allowed s) :
    (∀ x, ¬ TransGen (Watches s) x x) ∧
      ((∀ s self file, Allowed s self file → Topmost s self file) →
        (∀ l : List ℕ, l.IsChain (Watches s) → l.length ≤ maxNest + 1) ∧
        ∀ file, pollsWithin s (maxNest + 1) file) := by
  suffices hchains : (∀ x, ¬ TransGen (Watches s) x x) ∧
      ((∀ s self file, Allowed s self file → Topmost s self file) →
        ∀ l : List ℕ, l.IsChain (Watches s) → l.length ≤ maxNest + 1) by
    refine ⟨hchains.1, fun hall => ⟨hchains.2 hall, fun file => ?_⟩⟩
    cases file with
    | epoll self => exact pollsWithin_of_isChain fun l hl => hchains.2 hall (self :: l) hl
    | other => rfl
  induction h with
  | new =>
    refine ⟨fun x h => ?_, fun _ l hl => ?_⟩
    · obtain ⟨y, ⟨fd, hmem⟩, -⟩ := TransGen.head'_iff.mp h
      cases hmem
    · rcases l with _ | ⟨x, _ | ⟨y, l⟩⟩
      · exact Nat.zero_le _
      · exact Nat.succ_le_succ (Nat.zero_le _)
      · obtain ⟨fd, hmem⟩ := (isChain_cons_cons.mp hl).1
        cases hmem
  | add _ hallowed hadd ih =>
    refine ⟨fun x h => ?_, fun hall l hl => ?_⟩
    · obtain hold | ⟨child, hcheck, hself, hchild⟩ := path_of_add hadd h
      · exact ih.1 x hold
      · exact not_path_of_checkNoLoop hcheck (hchild.trans hself)
    · obtain hold | ⟨child, rest, rfl, -, hcheck, hrest⟩ :=
        isChain_of_add hadd (hall _ _ _ hallowed) hl
      · exact ih.2 hall l hold
      · exact Nat.succ_le_succ (isChain_of_checkNoLoop hcheck hrest).1
  | delete _ hdelete ih =>
    have hold : ∀ x y, Watches _ x y → Watches _ x y := fun _ _ => watches_of_delete hdelete
    exact ⟨fun x h => ih.1 x (TransGen.mono hold x x h), fun hall l hl => ih.2 hall l (hl.imp hold)⟩

theorem nested_one : ∃ s, Reaches Topmost s ∧ Watches s 0 1 ∧
    (∀ l : List ℕ, l.IsChain (Watches s) → l.length ≤ maxNest + 1) ∧
    ∀ file, pollsWithin s (maxNest + 1) file := by
  have hrun : Reaches Topmost (update (fun _ => []) 0 [(3, .epoll 1)]) := by
    refine .add .new ?_ (rfl : add _ 0 3 (.epoll 1) = _)
    rintro x ⟨_, ⟨⟩⟩
  exact ⟨_, hrun, ⟨3, by simp⟩, hrun.nested.2 fun _ _ _ => id⟩

/-- A chain that grows at its end becomes too long. -/
theorem not_nested_grown : ∃ s, Reaches (fun _ _ _ => True) s ∧
    [0, 1, 2, 3, 4, 5, 6].IsChain (Watches s) ∧ ¬ pollsWithin s (maxNest + 1) (.epoll 0) := by
  have h₁ : Reaches (fun _ _ _ => True) _ := .add .new trivial (rfl : add _ 0 3 (.epoll 1) = _)
  have h₂ := h₁.add trivial (rfl : add _ 1 3 (.epoll 2) = _)
  have h₃ := h₂.add trivial (rfl : add _ 2 3 (.epoll 3) = _)
  have h₄ := h₃.add trivial (rfl : add _ 3 3 (.epoll 4) = _)
  have h₅ := h₄.add trivial (rfl : add _ 4 3 (.epoll 5) = _)
  have h₆ := h₅.add trivial (rfl : add _ 5 3 (.epoll 6) = _)
  refine ⟨_, h₆, ?_, by decide⟩
  simp only [isChain_cons_cons]
  refine ⟨?_, ?_, ?_, ?_, ?_, ?_, .singleton _⟩ <;> exact ⟨3, by decide⟩

end Zinnia.Epoll
