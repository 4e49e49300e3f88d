import Zinnia.Util

/-!
# Futexes

The calls of `futex_wait` and `futex_wake` on one word. A step is what is done under the lock of the
queue or by one thread alone, and the steps of different calls alternate in any way.
-/

namespace Zinnia.Futex

open List

/-- Where a call of `futex_wait` is. One that is `leaving` drops its guard next. -/
inductive Place where
  | registered (expected : BitVec 32)
  | sleeping
  | leaving (result : EResult Usize)

/-- A call of `futex_wait`. Its waiter is in the queue until it is woken. -/
structure Call where
  place : Place
  woken : Bool

/-- The calls in progress, in the order of the queue. The calls of `futex_wake` have `reported` so
many waiters, and so many calls that were woken have `succeeded`. -/
structure Word where
  calls : List Call
  reported : ℕ
  succeeded : ℕ

/-- The tests before the call sleeps, with what is read from the word. -/
def test (expected : BitVec 32) (value : Option (BitVec 32)) (expired : Bool) : Place :=
  match value with
  | none => .leaving (.error .efault)
  | some v =>
    if v ≠ expected then .leaving (.error .eagain)
    else if expired then .leaving (.error .etimedout)
    else .sleeping

/-- The tests after the sleep. -/
def resume (signals expired : Bool) : EResult Usize :=
  if signals then .error .eintr else if expired then .error .etimedout else .ok 0

/-- `Event::wake_n`, with the number of the waiters that it takes from the queue. -/
def wakeN : ℕ → List Call → List Call × ℕ
  | 0, calls => (calls, 0)
  | _ + 1, [] => ([], 0)
  | n + 1, c :: calls =>
    if c.woken then (c :: (wakeN (n + 1) calls).1, (wakeN (n + 1) calls).2)
    else (⟨c.place, true⟩ :: (wakeN n calls).1, (wakeN n calls).2 + 1)

/-- The number of waiters that `futex_wake` takes at most. The greatest count is that of
`wake_all`. -/
def limit (count : BitVec 32) (calls : List Call) : ℕ :=
  if count = BitVec.allOnes 32 then calls.length else count.toNat

/-- `futex_wake`. -/
def wake (count : BitVec 32) (calls : List Call) : List Call × ℕ := wakeN (limit count calls) calls

/-- The calls at the front of the queue. -/
def front (n : ℕ) (calls : List Call) : List Call := (calls.filter (!·.woken)).take n

def Call.Failed (c : Call) : Prop := ∃ e, c.place = .leaving (.error e)

/-- A step of a call, which may also be made to run by a signal or its timeout. In a `careful` run a
call that was woken finds the value that it expects, no signal and time left. -/
inductive Call.Step (careful : Prop) : Call → Call → Prop
  | test {expected : BitVec 32} {woken : Bool} (value : Option (BitVec 32)) (expired : Bool) :
    (careful → woken → value = some expected ∧ expired = false) →
    Step careful ⟨.registered expected, woken⟩ ⟨test expected value expired, woken⟩
  | resume {woken : Bool} (signals expired : Bool) :
    (careful → woken → signals = false ∧ expired = false) →
    Step careful ⟨.sleeping, woken⟩ ⟨.leaving (resume signals expired), woken⟩

/-- The states that are reached. In a `careful` run no call is woken that has failed. -/
inductive Reaches (careful : Prop) : Word → Prop
  | start : Reaches careful ⟨[], 0, 0⟩
  | wait {calls : List Call} {m n : ℕ} (expected : BitVec 32) : Reaches careful ⟨calls, m, n⟩ →
    Reaches careful ⟨calls ++ [⟨.registered expected, false⟩], m, n⟩
  | step (l₁ : List Call) {l₂ : List Call} {c c' : Call} {m n : ℕ} :
    Reaches careful ⟨l₁ ++ c :: l₂, m, n⟩ → c.Step careful c' →
    Reaches careful ⟨l₁ ++ c' :: l₂, m, n⟩
  | leave (l₁ : List Call) {l₂ : List Call} {result : EResult Usize} {woken : Bool} {m n : ℕ} :
    Reaches careful ⟨l₁ ++ ⟨.leaving result, woken⟩ :: l₂, m, n⟩ →
    Reaches careful ⟨l₁ ++ l₂, m, n + if woken ∧ result.isOk then 1 else 0⟩
  | wake {calls : List Call} {m n : ℕ} (count : BitVec 32) : Reaches careful ⟨calls, m, n⟩ →
    (careful → ∀ c ∈ front (limit count calls) calls, ¬ c.Failed) →
    Reaches careful ⟨(wake count calls).1, m + (wake count calls).2, n⟩

lemma Call.Step.not_failed {c c' : Call} (h : c.Step True c') :
    c'.woken = c.woken ∧ (c'.woken → ¬ c'.Failed) := by
  cases h with
  | test value expired hcareful =>
    refine ⟨rfl, fun hwoken => ?_⟩
    obtain ⟨rfl, rfl⟩ := hcareful trivial hwoken
    simp [Futex.test, Failed]
  | resume signals expired hcareful =>
    refine ⟨rfl, fun hwoken => ?_⟩
    obtain ⟨rfl, rfl⟩ := hcareful trivial hwoken
    simp [Futex.resume, Failed]

lemma countP_wakeN (n : ℕ) (calls : List Call) :
    (wakeN n calls).1.countP Call.woken = calls.countP Call.woken + (wakeN n calls).2 := by
  induction n, calls using wakeN.induct with
  | case1 => simp [wakeN]
  | case2 => rfl
  | case3 n c calls hwoken ih =>
    rw [wakeN, if_pos hwoken, countP_cons_of_pos hwoken, countP_cons_of_pos hwoken, ih,
      Nat.add_right_comm]
  | case4 n c calls hwoken ih =>
    rw [wakeN, if_neg hwoken, countP_cons_of_pos rfl, countP_cons_of_neg hwoken, ih, Nat.add_assoc]

lemma mem_wakeN {n : ℕ} {calls : List Call} {c : Call} (h : c ∈ (wakeN n calls).1) :
    c ∈ calls ∨ ∃ c' ∈ front n calls, c'.place = c.place := by
  induction n, calls using wakeN.induct with
  | case1 calls =>
    rw [wakeN] at h
    exact .inl h
  | case2 => cases h
  | case3 n c' calls hwoken ih =>
    rw [wakeN, if_pos hwoken, mem_cons] at h
    rw [front, filter_cons_of_neg (by simp [hwoken]), mem_cons, or_assoc]
    exact h.imp_right ih
  | case4 n c' calls hwoken ih =>
    rw [wakeN, if_neg hwoken, mem_cons] at h
    rw [front, filter_cons_of_pos (by simp [hwoken]), take_succ_cons]
    rcases h with rfl | h
    · exact .inr ⟨c', mem_cons_self, rfl⟩
    · rcases ih h with hmem | ⟨c₁, hc₁, hplace⟩
      · exact .inl (mem_cons_of_mem c' hmem)
      · exact .inr ⟨c₁, mem_cons_of_mem c' hc₁, hplace⟩

/-- In a careful run the waiters that were reported are the calls that succeeded and the ones that
were woken and have not returned, none of which has failed. -/
theorem Reaches.reported_eq {w : Word} (h : Reaches True w) :
    w.reported = w.succeeded + w.calls.countP Call.woken ∧
      ∀ c ∈ w.calls, c.woken → ¬ c.Failed := by
  induction h with
  | start => simp
  | wait expected _ ih => simpa [or_imp, forall_and, Call.Failed] using ih
  | step l₁ _ hstep ih =>
    obtain ⟨hwoken, hfailed⟩ := hstep.not_failed
    simp only [countP_append, countP_cons, hwoken, forall_mem_append, forall_mem_cons] at ih ⊢
    exact ⟨ih.1, ih.2.1, hwoken ▸ hfailed, ih.2.2.2⟩
  | @leave l₁ l₂ result woken m n _ ih =>
    simp only [countP_append, countP_cons, forall_mem_append, forall_mem_cons] at ih ⊢
    refine ⟨?_, ih.2.1, ih.2.2.2⟩
    cases result with
    | ok v =>
      cases woken <;> simp [Except.isOk, Except.toBool, ih.1]
      omega
    | error e =>
      -- a call that was woken has not failed
      have hwoken : woken = false := by
        by_contra hwoken
        exact ih.2.2.1 (by simpa using hwoken) ⟨e, rfl⟩
      simp [hwoken, ih.1]
  | @wake calls m n count _ hcareful ih =>
    obtain ⟨hcount, hfailed⟩ := ih
    refine ⟨?_, fun c hc hwoken => ?_⟩
    · dsimp only [Futex.wake] at hcount ⊢
      rw [countP_wakeN, hcount, Nat.add_assoc]
    · rcases mem_wakeN hc with hmem | ⟨c', hc', hplace⟩
      · exact hfailed c hmem hwoken
      · rw [Call.Failed, ← hplace]
        exact hcareful trivial c' hc'

theorem reported_eq_one : ∃ w : Word, Reaches True w ∧ w.reported = 1 ∧ w.succeeded = 1 := by
  have hwait : Reaches True ⟨[⟨.registered 5, false⟩], 0, 0⟩ := .wait 5 .start
  have htest : Reaches True ⟨[⟨.sleeping, false⟩], 0, 0⟩ :=
    .step [] hwait (.test (some 5) false fun _ h => by cases h)
  have hwake : Reaches True ⟨[⟨.sleeping, true⟩], 1, 0⟩ :=
    .wake 1 htest (by simp [front, limit, Call.Failed])
  have hleave : Reaches True ⟨[], 1, 1⟩ :=
    .leave [] (.step [] hwake (.resume false false fun _ _ => ⟨rfl, rfl⟩))
  exact ⟨_, hleave, rfl, hleave.reported_eq.1.symm⟩

/-- The value changes before the first call tests it. The wake goes to this call, which fails with
`EAGAIN`, and the second one goes on sleeping. -/
theorem reported_ne : Reaches False ⟨[⟨.sleeping, false⟩], 1, 0⟩ := by
  have hwait : Reaches False ⟨[⟨.registered 5, false⟩, ⟨.registered 5, false⟩], 0, 0⟩ :=
    .wait 5 (.wait 5 .start)
  have htest : Reaches False ⟨[⟨.registered 5, false⟩, ⟨.sleeping, false⟩], 0, 0⟩ :=
    .step [_] hwait (.test (some 5) false False.elim)
  have hwake : Reaches False ⟨[⟨.registered 5, true⟩, ⟨.sleeping, false⟩], 1, 0⟩ :=
    .wake 1 htest False.elim
  exact .leave [] (.step [] hwake (.test (some 6) false False.elim))

/-- In any run each call that was woken was reported, also if it has succeeded. -/
theorem Reaches.woken_le {careful : Prop} {w : Word} (h : Reaches careful w) :
    w.succeeded + w.calls.countP Call.woken ≤ w.reported := by
  induction h with
  | start => simp
  | wait _ _ ih => simpa using ih
  | step _ _ hstep ih => cases hstep <;> simpa [countP_cons] using ih
  | leave _ _ ih =>
    simp only [countP_append, countP_cons] at ih ⊢
    grind
  | wake _ _ _ ih =>
    dsimp only [Futex.wake] at ih ⊢
    rw [countP_wakeN]
    omega

theorem woken_le_one : ∃ w : Word, Reaches False w ∧ w.reported = 1 ∧
    w.succeeded + w.calls.countP Call.woken ≤ 1 :=
  have hwake := .wake 1 (.wait 5 .start) False.elim
  ⟨_, hwake, rfl, hwake.woken_le⟩

end Zinnia.Futex
