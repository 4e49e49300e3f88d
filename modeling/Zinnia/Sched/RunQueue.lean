import Mathlib.Algebra.BigOperators.Fin
import Mathlib.Tactic.Abel
import Zinnia.Util

/-!
# Run queues

A run queue of a processor has three classes of tasks with 64 queues each, and a bit for each queue
that is not empty. The queues of the time-share class are a circle: tasks are removed at the index
`ridx` and inserted at distances from the index `idx`.
-/

namespace Zinnia.Sched

open Option Function Multiset List Finset

/-- `RQ_NQS`. -/
abbrev rqNqs : ℕ := 64

/-- `Runq`. The bits are in one word. -/
structure Runq (Task : Type) where
  status : BitVec 64
  queues : Fin rqNqs → List Task

/-- `RunqClass`. -/
inductive RunqClass where
  | realtime (idx : ℕ)
  | timeshare (base : ℕ)
  | idle

variable {Task : Type}

namespace Runq

/-- `Runq::new`. -/
def new : Runq Task := ⟨0, fun _ => []⟩

variable (rq : Runq Task)

/-- `Runq::set_bit`. -/
def setBit (idx : Fin rqNqs) : Runq Task := { rq with status := rq.status ||| (1#64 <<< idx.val) }

/-- `Runq::clear_bit`. -/
def clearBit (idx : Fin rqNqs) : Runq Task :=
  { rq with status := rq.status &&& ~~~(1#64 <<< idx.val) }

/-- `Runq::is_set`. -/
def isSet (idx : Fin rqNqs) : Bool := rq.status &&& (1#64 <<< idx.val) ≠ 0

/-- `Runq::add`. -/
def add (idx : Fin rqNqs) (task : Task) : Runq Task :=
  let rq := rq.setBit idx
  { rq with queues := Function.update rq.queues idx (rq.queues idx ++ [task]) }

/-- `usize::trailing_zeros` of a word that is not zero. -/
def trailingZeros (bits : BitVec 64) (h : bits ≠ 0) : Fin rqNqs :=
  ⟨bits.ctz.toNat, by
    have hlt := BitVec.ctz_lt_iff_ne_zero.mpr h
    rwa [BitVec.lt_def] at hlt⟩

/-- `Runq::find_bit`. -/
def findBit : Option (Fin rqNqs) :=
  if h : rq.status ≠ 0 then some (trailingZeros rq.status h) else none

/-- `Runq::find_bit_from`. -/
def findBitFrom (start : Fin rqNqs) : Option (Fin rqNqs) :=
  let masked := rq.status &&& (BitVec.allOnes 64 <<< start.val)
  if h : masked ≠ 0 then some (trailingZeros masked h) else rq.findBit

/-- A queue has got another content, and its bit is removed if it is empty now. -/
def store (idx : Fin rqNqs) (queue : List Task) : Runq Task :=
  let rq := { rq with queues := Function.update rq.queues idx queue }
  if queue.isEmpty then rq.clearBit idx else rq

/-- `Runq::pop_at`, which panics if the queue is empty. -/
def popAt (idx : Fin rqNqs) : Option (Task × Runq Task) :=
  match rq.queues idx with
  | [] => none
  | task :: queue => some (task, rq.store idx queue)

/-- `Runq::take_migratable`, with the tasks that may be migrated at the time. -/
def takeMigratable (migratable : Task → Bool) (idx : Fin rqNqs) : Option (Task × Runq Task) :=
  match (rq.queues idx).find? migratable with
  | none => none
  | some task => some (task, rq.store idx ((rq.queues idx).eraseP migratable))

/-- `Runq::steal_from`. -/
def stealFrom (migratable : Task → Bool) (start : ℕ) : Option (Task × Runq Task) :=
  (List.range rqNqs).findSome? fun offset =>
    let idx := Fin.ofNat rqNqs (start + offset)
    if rq.isSet idx then rq.takeMigratable migratable idx else none

end Runq

/-- `RunQueue`. -/
structure RunQueue (Task : Type) where
  realtime : Runq Task
  timeshare : Runq Task
  idle : Runq Task
  idx : ℕ
  ridx : ℕ

namespace RunQueue

/-- `RunQueue::new`. -/
def new : RunQueue Task := ⟨.new, .new, .new, 0, 0⟩

variable (q : RunQueue Task)

/-- `RunQueue::push`. -/
def push (task : Task) : RunqClass → RunQueue Task
  | .realtime idx =>
    { q with realtime := q.realtime.add ⟨min idx (rqNqs - 1), by simp only [rqNqs]; omega⟩ task }
  | .timeshare base =>
    let idx := Fin.ofNat rqNqs (min base (rqNqs - 1) + q.idx)
    let idx := if q.ridx ≠ q.idx ∧ idx.val = q.ridx then Fin.ofNat rqNqs (q.ridx + rqNqs - 1)
      else idx
    { q with timeshare := q.timeshare.add idx task }
  | .idle => { q with idle := q.idle.add 0 task }

/-- The index of removal after a task of a queue was taken. -/
def moveRidx (idx : ℕ) (timeshare : Runq Task) (h : q.ridx < rqNqs) : ℕ :=
  if idx = q.ridx ∧ !timeshare.isSet ⟨q.ridx, h⟩ then (q.ridx + 1) % rqNqs else q.ridx

/-- `RunQueue::pop_next`; there is no result if it panics. -/
def popNext : Option (Option Task × RunQueue Task) :=
  match q.realtime.findBit with
  | some idx => (q.realtime.popAt idx).map fun r => (some r.1, { q with realtime := r.2 })
  | none =>
    if h : q.ridx < rqNqs then
      match q.timeshare.findBitFrom ⟨q.ridx, h⟩ with
      | some idx => (q.timeshare.popAt idx).map fun r =>
        (some r.1, { q with timeshare := r.2, ridx := q.moveRidx idx r.2 h })
      | none =>
        match q.idle.findBit with
        | some idx => (q.idle.popAt idx).map fun r => (some r.1, { q with idle := r.2 })
        | none => some (none, q)
    else none

/-- `RunQueue::take_stealable`. -/
def takeStealable (migratable : Task → Bool) : Option Task × RunQueue Task :=
  match q.realtime.stealFrom migratable 0 with
  | some r => (some r.1, { q with realtime := r.2 })
  | none =>
    match q.timeshare.stealFrom migratable q.ridx with
    | some r => (some r.1, { q with timeshare := r.2 })
    | none =>
      match q.idle.stealFrom migratable 0 with
      | some r => (some r.1, { q with idle := r.2 })
      | none => (none, q)

/-- `RunQueue::advance_timeshare`; there is no result if it panics. -/
def advanceTimeshare : Option (RunQueue Task) :=
  if q.idx = q.ridx then
    let idx := (q.idx + 1) % rqNqs
    if h : q.ridx < rqNqs then
      some { q with idx := idx, ridx := if !q.timeshare.isSet ⟨q.ridx, h⟩ then idx else q.ridx }
    else none
  else some q

end RunQueue

/-! ### The bits and the queues -/

namespace Runq

variable {rq : Runq Task} {i j : Fin rqNqs} {task : Task} {queue : List Task}

/-- A bit is set exactly if its queue has tasks. -/
def Agrees (rq : Runq Task) : Prop := ∀ i, rq.isSet i = true ↔ rq.queues i ≠ []

/-- The tasks in the queues. -/
def tasks (rq : Runq Task) : Multiset Task := ∑ i, (rq.queues i : Multiset Task)

lemma isSet_eq (rq : Runq Task) (i : Fin rqNqs) : rq.isSet i = rq.status.getLsbD i :=
  decide_and_bit_ne_zero rq.status i

lemma isSet_setBit : (rq.setBit j).isSet i = (rq.isSet i || decide (i = j)) := by
  simp only [isSet_eq, setBit, ← BitVec.twoPow_eq, BitVec.getLsbD_or, BitVec.getLsbD_twoPow, j.isLt,
    decide_true, Bool.true_and, Fin.ext_iff, eq_comm]

lemma isSet_clearBit : (rq.clearBit j).isSet i = (rq.isSet i && decide (i ≠ j)) := by
  simp only [isSet_eq, clearBit, ← BitVec.twoPow_eq, BitVec.getLsbD_and, BitVec.getLsbD_not,
    BitVec.getLsbD_twoPow, i.isLt, j.isLt, decide_true, Bool.true_and, Fin.ext_iff, eq_comm,
    decide_not]

lemma agrees_new : (new : Runq Task).Agrees := by
  intro i
  simp [isSet_eq, new]

lemma Agrees.add (h : rq.Agrees) (j : Fin rqNqs) (task : Task) : (rq.add j task).Agrees := by
  intro i
  change (rq.setBit j).isSet i = true ↔ update rq.queues j (rq.queues j ++ [task]) i ≠ []
  rw [isSet_setBit, Bool.or_eq_true, h i]
  rcases eq_or_ne i j with rfl | hij
  · simp
  · simp [hij]

lemma Agrees.store (h : rq.Agrees) (hj : rq.queues j ≠ []) (queue : List Task) :
    (rq.store j queue).Agrees := by
  intro i
  have hij := h i
  cases queue with
  | nil =>
    change (clearBit { rq with queues := update rq.queues j [] } j).isSet i = true ↔
      update rq.queues j [] i ≠ []
    rw [isSet_clearBit, Bool.and_eq_true, decide_eq_true_eq]
    change rq.isSet i = true ∧ i ≠ j ↔ _
    rcases eq_or_ne i j with rfl | hne
    · simp
    · simp [hne, hij]
  | cons task queue =>
    change rq.isSet i = true ↔ update rq.queues j (task :: queue) i ≠ []
    rcases eq_or_ne i j with rfl | hne
    · simp [hij, hj]
    · simp [hne, hij]

/-! ### The queued tasks -/

lemma tasks_update (rq : Runq Task) (j : Fin rqNqs) (queue : List Task) :
    ∑ i, (update rq.queues j queue i : Multiset Task) + (rq.queues j : Multiset Task)
      = rq.tasks + (queue : Multiset Task) := by
  have hrest : ∀ i ∈ Finset.univ.erase j,
      (update rq.queues j queue i : Multiset Task) = rq.queues i := by
    intro i hi
    rw [update_of_ne (ne_of_mem_erase hi)]
  rw [tasks, ← add_sum_erase _ _ (mem_univ j), sum_congr rfl hrest,
    update_self, ← add_sum_erase _ (fun i => (rq.queues i : Multiset Task))
      (mem_univ j)]
  abel

lemma tasks_add (rq : Runq Task) (j : Fin rqNqs) (task : Task) :
    (rq.add j task).tasks = rq.tasks + {task} := by
  have hsum := rq.tasks_update j (rq.queues j ++ [task])
  rw [← coe_add, ← add_assoc, add_right_comm] at hsum
  exact add_right_cancel hsum

lemma tasks_store (rq : Runq Task) (j : Fin rqNqs) (queue : List Task) :
    (rq.store j queue).tasks + (rq.queues j : Multiset Task) = rq.tasks + queue := by
  have hqueues : (rq.store j queue).queues = update rq.queues j queue := by
    unfold store
    split_ifs <;> rfl
  rw [tasks, hqueues, tasks_update]

lemma mem_tasks : task ∈ rq.tasks ↔ ∃ i, task ∈ rq.queues i := by
  simp [tasks]

-- The sum over the queues is not to be computed in what follows.
attribute [irreducible] tasks

lemma Agrees.tasks_eq_zero_iff (h : rq.Agrees) : rq.tasks = 0 ↔ ∀ i, rq.isSet i = false := by
  have hempty : ∀ i, rq.isSet i = false ↔ rq.queues i = [] := fun i => by
    rw [← Bool.not_eq_true, h i, not_not]
  simp only [hempty, eq_zero_iff_forall_notMem, mem_tasks, not_exists,
    eq_nil_iff_forall_not_mem]
  exact forall_comm

/-- A task is taken from the queues. -/
structure Takes (rq : Runq Task) (task : Task) (rq' : Runq Task) : Prop where
  agrees : rq'.Agrees
  tasks : rq.tasks = task ::ₘ rq'.tasks

lemma Agrees.takes (h : rq.Agrees) (hperm : (rq.queues j).Perm (task :: queue)) :
    rq.Takes task (rq.store j queue) where
  agrees := h.store (by rintro hnil; rw [hnil] at hperm; exact absurd hperm.length_eq (by simp)) _
  tasks := by
    have hsum := rq.tasks_store j queue
    rw [coe_eq_coe.mpr hperm, ← cons_coe, add_cons, ← cons_add]
      at hsum
    exact (add_right_cancel hsum).symm

/-! ### Searching the bits -/

lemma isSet_trailingZeros {bits : BitVec 64} (h : bits ≠ 0) :
    bits.getLsbD (trailingZeros bits h) = true :=
  BitVec.getLsbD_true_ctz_of_ne_zero h

lemma isSet_of_findBit (h : rq.findBit = some i) : rq.isSet i = true := by
  unfold findBit at h
  split_ifs at h with hne
  cases h
  rw [isSet_eq]
  exact isSet_trailingZeros hne

lemma findBit_eq_none (h : rq.findBit = none) (i : Fin rqNqs) : rq.isSet i = false := by
  unfold findBit at h
  split_ifs at h with hzero
  rw [isSet_eq, not_not.mp hzero]
  simp

lemma isSet_of_findBitFrom (h : rq.findBitFrom j = some i) : rq.isSet i = true := by
  unfold findBitFrom at h
  dsimp only at h
  split_ifs at h with hne
  · cases h
    have hget := isSet_trailingZeros hne
    rw [BitVec.getLsbD_and, Bool.and_eq_true] at hget
    rw [isSet_eq]
    exact hget.1
  · exact isSet_of_findBit h

lemma findBitFrom_eq_none (h : rq.findBitFrom j = none) (i : Fin rqNqs) : rq.isSet i = false := by
  unfold findBitFrom at h
  dsimp only at h
  split_ifs at h
  exact findBit_eq_none h i

/-! ### Taking tasks -/

lemma Agrees.popAt (h : rq.Agrees) (hi : rq.isSet i = true) :
    ∃ task rq', rq.popAt i = some (task, rq') ∧ rq.Takes task rq' := by
  unfold Runq.popAt
  cases hqueue : rq.queues i with
  | nil => exact absurd hqueue ((h i).mp hi)
  | cons task queue =>
    exact ⟨task, rq.store i queue, rfl, h.takes (by rw [hqueue])⟩

variable {migratable : Task → Bool} {rq' : Runq Task} {start : ℕ}

lemma Agrees.takeMigratable (h : rq.Agrees)
    (ht : rq.takeMigratable migratable i = some (task, rq')) :
    rq.Takes task rq' ∧ migratable task = true := by
  unfold Runq.takeMigratable at ht
  cases hfind : (rq.queues i).find? migratable with
  | none => simp [hfind] at ht
  | some found =>
    simp only [hfind, some.injEq] at ht
    obtain ⟨rfl, rfl⟩ := ht
    obtain ⟨hmig, front, back, hqueue, hfront⟩ := List.find?_eq_some_iff_append.mp hfind
    have herase : (rq.queues i).eraseP migratable = front ++ back := by
      rw [hqueue, eraseP_append_right _ (by simpa using hfront),
        eraseP_cons_of_pos hmig]
    refine ⟨h.takes ?_, hmig⟩
    rw [herase, hqueue]
    exact perm_middle

lemma Agrees.stealFrom (h : rq.Agrees) (ht : rq.stealFrom migratable start = some (task, rq')) :
    rq.Takes task rq' ∧ migratable task = true := by
  unfold Runq.stealFrom at ht
  obtain ⟨offset, -, htake⟩ := exists_of_findSome?_eq_some ht
  dsimp only at htake
  split_ifs at htake
  exact h.takeMigratable htake

/-- The search goes around the circle of the queues, so that it meets each queue. -/
lemma exists_offset (start : ℕ) (i : Fin rqNqs) :
    ∃ offset < rqNqs, Fin.ofNat rqNqs (start + offset) = i := by
  refine ⟨(i + (rqNqs - start % rqNqs)) % rqNqs, Nat.mod_lt _ (by decide), Fin.ext ?_⟩
  have hi := i.isLt
  simp only [Fin.val_ofNat, rqNqs] at hi ⊢
  omega

lemma Agrees.stealFrom_eq_none (h : rq.Agrees) (ht : rq.stealFrom migratable start = none)
    (htask : task ∈ rq.tasks) : migratable task = false := by
  obtain ⟨i, hmem⟩ := mem_tasks.mp htask
  obtain ⟨offset, hlt, rfl⟩ := exists_offset start i
  unfold Runq.stealFrom at ht
  have hoff := List.findSome?_eq_none_iff.mp ht offset (List.mem_range.mpr hlt)
  have hset : rq.isSet (Fin.ofNat rqNqs (start + offset)) = true :=
    (h _).mpr (ne_nil_of_mem hmem)
  rw [if_pos hset, Runq.takeMigratable] at hoff
  split at hoff
  · next hfind => simpa using find?_eq_none.mp hfind task hmem
  · cases hoff

end Runq

/-! ### Runs of a run queue -/

/-- The operations of a run queue. When tasks are stolen some of them may be migrated. -/
inductive Op (Task : Type) where
  | push (task : Task) (runqClass : RunqClass)
  | popNext
  | takeStealable (migratable : Task → Bool)
  | advanceTimeshare

/-- The task that is pushed by an operation. -/
def Op.pushed : Op Task → Multiset Task
  | .push task _ => {task}
  | _ => 0

/-- The task that is returned by an operation. -/
def returned : Option Task → Multiset Task
  | none => 0
  | some task => {task}

namespace RunQueue

/-- What an operation returns and leaves; there is no result if it panics. -/
def does (q : RunQueue Task) : Op Task → Option (Option Task × RunQueue Task)
  | .push task runqClass => some (none, q.push task runqClass)
  | .popNext => q.popNext
  | .takeStealable migratable => some (q.takeStealable migratable)
  | .advanceTimeshare => q.advanceTimeshare.map (none, ·)

/-- The run queues that operations lead to. -/
inductive Reaches : RunQueue Task → Prop
  | new : Reaches new
  | step {q q' : RunQueue Task} {op : Op Task} {r : Option Task} :
    Reaches q → q.does op = some (r, q') → Reaches q'

/-- The tasks of the three classes. -/
def tasks (q : RunQueue Task) : Multiset Task :=
  q.realtime.tasks + q.timeshare.tasks + q.idle.tasks

/-- The bits agree with the queues, and the indices are those of queues. -/
structure Inv (q : RunQueue Task) : Prop where
  realtime : q.realtime.Agrees
  timeshare : q.timeshare.Agrees
  idle : q.idle.Agrees
  idx : q.idx < rqNqs
  ridx : q.ridx < rqNqs

/-- A realtime task is returned, and no other task is touched. -/
def TakesRealtime (q : RunQueue Task) (r : Option Task) (q' : RunQueue Task) : Prop :=
  ∃ task, r = some task ∧ q.realtime.tasks = task ::ₘ q'.realtime.tasks ∧
    q'.timeshare = q.timeshare ∧ q'.idle = q.idle

variable {q q' : RunQueue Task} {r : Option Task} {op : Op Task} {task : Task} {rq : Runq Task}

lemma inv_new : (new : RunQueue Task).Inv :=
  ⟨Runq.agrees_new, Runq.agrees_new, Runq.agrees_new, Nat.zero_lt_succ _, Nat.zero_lt_succ _⟩

lemma Inv.push (h : q.Inv) (task : Task) (runqClass : RunqClass) :
    (q.push task runqClass).Inv ∧ q.tasks + {task} = (q.push task runqClass).tasks := by
  constructor
  · cases runqClass with
    | realtime idx => exact { h with realtime := h.realtime.add _ _ }
    | timeshare base => exact { h with timeshare := h.timeshare.add _ _ }
    | idle => exact { h with idle := h.idle.add _ _ }
  · cases runqClass <;> simp only [RunQueue.push, tasks, Runq.tasks_add] <;> abel

lemma moveRidx_lt (h : q.ridx < rqNqs) (idx : ℕ) (timeshare : Runq Task) :
    q.moveRidx idx timeshare h < rqNqs := by
  unfold moveRidx
  split_ifs
  · exact Nat.mod_lt _ (by decide)
  · exact h

/-- What is to be shown of an operation that returns a task or nothing. -/
structure Accounts (q : RunQueue Task) (r : Option Task) (q' : RunQueue Task) : Prop where
  inv : q'.Inv
  tasks : q.tasks = q'.tasks + returned r

section

variable (h : q.Inv)

include h

lemma Inv.takes_realtime (ht : q.realtime.Takes task rq) :
    Accounts q (some task) { q with realtime := rq } ∧
      TakesRealtime q (some task) { q with realtime := rq } := by
  refine ⟨⟨{ h with realtime := ht.agrees }, ?_⟩, task, rfl, ht.tasks, rfl, rfl⟩
  simp only [tasks, returned, ht.tasks, ← singleton_add]
  abel

lemma Inv.takes_timeshare {ridx : ℕ} (ht : q.timeshare.Takes task rq) (hr : ridx < rqNqs) :
    Accounts q (some task) { q with timeshare := rq, ridx := ridx } := by
  refine ⟨{ h with timeshare := ht.agrees, ridx := hr }, ?_⟩
  simp only [tasks, returned, ht.tasks, ← singleton_add]
  abel

lemma Inv.takes_idle (ht : q.idle.Takes task rq) :
    Accounts q (some task) { q with idle := rq } := by
  refine ⟨{ h with idle := ht.agrees }, ?_⟩
  simp only [tasks, returned, ht.tasks, ← singleton_add]
  abel

lemma Inv.takes_nothing : Accounts q none q :=
  ⟨h, (add_zero _).symm⟩

lemma Inv.popNext :
    ∃ r q', q.popNext = some (r, q') ∧ Accounts q r q' ∧ (r = none ↔ q.tasks = 0) ∧
      (q.realtime.tasks ≠ 0 → TakesRealtime q r q') := by
  have hsome : ∀ {task : Task} {q' : RunQueue Task}, Accounts q (some task) q' →
      (some task = none ↔ q.tasks = 0) := by
    intro task q' hacc
    simp only [hacc.tasks, returned, reduceCtorEq, false_iff]
    exact fun hzero => singleton_ne_zero task (le_zero.mp
      (hzero ▸ le_add_left _ _))
  unfold RunQueue.popNext
  cases hreal : q.realtime.findBit with
  | some idx =>
    obtain ⟨task, rq, hpop, htakes⟩ := h.realtime.popAt (Runq.isSet_of_findBit hreal)
    obtain ⟨hacc, hfirst⟩ := h.takes_realtime htakes
    exact ⟨some task, _, by simp only [hpop, map_some], hacc, hsome hacc, fun _ => hfirst⟩
  | none =>
    have hzero := h.realtime.tasks_eq_zero_iff.mpr (Runq.findBit_eq_none hreal)
    simp only [dif_pos h.ridx]
    cases htime : q.timeshare.findBitFrom ⟨q.ridx, h.ridx⟩ with
    | some idx =>
      obtain ⟨task, rq, hpop, htakes⟩ := h.timeshare.popAt (Runq.isSet_of_findBitFrom htime)
      have hacc := h.takes_timeshare htakes (moveRidx_lt h.ridx idx rq)
      exact ⟨some task, _, by simp only [hpop, map_some], hacc, hsome hacc,
        fun hne => absurd hzero hne⟩
    | none =>
      have htzero := h.timeshare.tasks_eq_zero_iff.mpr (Runq.findBitFrom_eq_none htime)
      cases hidle : q.idle.findBit with
      | some idx =>
        obtain ⟨task, rq, hpop, htakes⟩ := h.idle.popAt (Runq.isSet_of_findBit hidle)
        have hacc := h.takes_idle htakes
        exact ⟨some task, _, by simp only [hpop, map_some], hacc, hsome hacc,
          fun hne => absurd hzero hne⟩
      | none =>
        have hizero := h.idle.tasks_eq_zero_iff.mpr (Runq.findBit_eq_none hidle)
        exact ⟨none, q, rfl, h.takes_nothing, by simp [tasks, hzero, htzero, hizero],
          fun hne => absurd hzero hne⟩

lemma Inv.takeStealable (migratable : Task → Bool) :
    Accounts q (q.takeStealable migratable).1 (q.takeStealable migratable).2 ∧
      ((∃ task ∈ q.realtime.tasks, migratable task = true) →
        TakesRealtime q (q.takeStealable migratable).1 (q.takeStealable migratable).2) := by
  unfold RunQueue.takeStealable
  cases hreal : q.realtime.stealFrom migratable 0 with
  | some r =>
    obtain ⟨hacc, hfirst⟩ := h.takes_realtime (h.realtime.stealFrom hreal).1
    exact ⟨hacc, fun _ => hfirst⟩
  | none =>
    have hnone : ¬ ∃ task ∈ q.realtime.tasks, migratable task = true := by
      rintro ⟨task, htask, hmig⟩
      rw [h.realtime.stealFrom_eq_none hreal htask] at hmig
      cases hmig
    refine ⟨?_, fun hex => absurd hex hnone⟩
    cases htime : q.timeshare.stealFrom migratable q.ridx with
    | some r => exact h.takes_timeshare (h.timeshare.stealFrom htime).1 h.ridx
    | none =>
      cases hidle : q.idle.stealFrom migratable 0 with
      | some r => exact h.takes_idle (h.idle.stealFrom hidle).1
      | none => exact h.takes_nothing

lemma Inv.advanceTimeshare : ∃ q', q.advanceTimeshare = some q' ∧ q'.Inv ∧ q'.tasks = q.tasks := by
  unfold RunQueue.advanceTimeshare
  have hidx : (q.idx + 1) % rqNqs < rqNqs := Nat.mod_lt _ (by decide)
  by_cases heq : q.idx = q.ridx
  · rw [if_pos heq, dif_pos h.ridx]
    refine ⟨_, rfl, { h with idx := hidx, ridx := ?_ }, rfl⟩
    split_ifs
    · exact hidx
    · exact h.ridx
  · rw [if_neg heq]
    exact ⟨q, rfl, h, rfl⟩

/-- No operation panics, and the queued tasks are changed by what is pushed and returned only. -/
lemma Inv.does (op : Op Task) :
    ∃ r q', q.does op = some (r, q') ∧ q'.Inv ∧ q.tasks + op.pushed = q'.tasks + returned r := by
  cases op with
  | push task runqClass =>
    obtain ⟨hinv, htasks⟩ := h.push task runqClass
    exact ⟨none, _, rfl, hinv, htasks.trans (add_zero _).symm⟩
  | popNext =>
    obtain ⟨r, q', hpop, hacc, -⟩ := h.popNext
    exact ⟨r, q', hpop, hacc.inv, (add_zero _).trans hacc.tasks⟩
  | takeStealable migratable =>
    obtain ⟨hacc, -⟩ := h.takeStealable migratable
    exact ⟨_, _, rfl, hacc.inv, (add_zero _).trans hacc.tasks⟩
  | advanceTimeshare =>
    obtain ⟨q', hadv, hinv, htasks⟩ := h.advanceTimeshare
    refine ⟨none, q', ?_, hinv, ?_⟩
    · simp only [RunQueue.does, hadv, map_some]
    · rw [htasks]
      rfl

end

lemma Reaches.inv (h : Reaches q) : q.Inv := by
  induction h with
  | new => exact inv_new
  | step _ hdoes ih =>
    rename_i op r _
    obtain ⟨r', q'', hdoes', hinv, -⟩ := ih.does op
    rw [hdoes] at hdoes'
    obtain ⟨-, rfl⟩ := Prod.mk.inj (some.inj hdoes')
    exact hinv

/-- In each run the bits agree with the queues, the indices stay in the circle, no operation panics,
the queued tasks change by what is pushed and returned only, `popNext` returns nothing exactly if
there is no task, and realtime tasks go first: all of them for `popNext`, and those that may be
migrated for `takeStealable`. -/
theorem Reaches.lawful (h : Reaches q) :
    q.Inv ∧
    (∀ op, ∃ r q', q.does op = some (r, q') ∧ q.tasks + op.pushed = q'.tasks + returned r) ∧
    (∀ r q', q.does .popNext = some (r, q') →
      (r = none ↔ q.tasks = 0) ∧ (q.realtime.tasks ≠ 0 → TakesRealtime q r q')) ∧
    (∀ migratable r q', q.does (.takeStealable migratable) = some (r, q') →
      (∃ task ∈ q.realtime.tasks, migratable task = true) → TakesRealtime q r q') := by
  have hinv := h.inv
  refine ⟨hinv, fun op => ?_, fun r q' hpop => ?_, fun migratable r q' htake hex => ?_⟩
  · obtain ⟨r, q', hdoes, -, htasks⟩ := hinv.does op
    exact ⟨r, q', hdoes, htasks⟩
  · obtain ⟨r', q'', hpop', -, hnone, hfirst⟩ := hinv.popNext
    obtain ⟨rfl, rfl⟩ := Prod.mk.inj (some.inj (hpop.symm.trans hpop'))
    exact ⟨hnone, hfirst⟩
  · obtain ⟨rfl, rfl⟩ := Prod.mk.inj (some.inj htake)
    exact (hinv.takeStealable migratable).2 hex

/-- The tasks `0` and `1` are queued, the former as a realtime and the latter as a time-share
task. -/
def realtimeAndTimeshare : RunQueue ℕ :=
  (new.push 0 (.realtime 0)).push 1 (.timeshare 0)

lemma reaches_realtimeAndTimeshare : Reaches realtimeAndTimeshare :=
  .step (.step .new (show new.does (.push 0 (.realtime 0)) = some (none, _) from rfl))
    (show (new.push 0 (.realtime 0)).does (.push 1 (.timeshare 0)) = some (none, _) from rfl)

theorem lawful_realtimeAndTimeshare :
    Reaches realtimeAndTimeshare ∧
      ∃ r q', realtimeAndTimeshare.does .popNext = some (r, q') ∧
        TakesRealtime realtimeAndTimeshare r q' := by
  obtain ⟨-, hdoes, hpop, -⟩ := reaches_realtimeAndTimeshare.lawful
  obtain ⟨r, q', hr, -⟩ := hdoes .popNext
  have hreal : realtimeAndTimeshare.realtime.tasks ≠ 0 := by decide +kernel
  exact ⟨reaches_realtimeAndTimeshare, r, q', hr, (hpop r q' hr).2 hreal⟩

/-- If the realtime task is bound to its processor, the time-share task is stolen before it. -/
theorem not_realtime_first :
    ∃ (q q' : RunQueue ℕ) (migratable : ℕ → Bool), Reaches q ∧
      q.realtime.tasks = {0} ∧ q.timeshare.tasks = {1} ∧
      q.does (.takeStealable migratable) = some (some 1, q') ∧
      q'.realtime.tasks = {0} ∧ q'.timeshare.tasks = 0 := by
  have hstolen : (realtimeAndTimeshare.takeStealable (· == 1)).1 = some 1 := by decide +kernel
  refine ⟨realtimeAndTimeshare, (realtimeAndTimeshare.takeStealable (· == 1)).2, (· == 1),
    reaches_realtimeAndTimeshare, ?_, ?_, congrArg some (Prod.ext hstolen rfl), ?_, ?_⟩ <;>
    decide +kernel

end RunQueue

end Zinnia.Sched
