import Zinnia.Process.Signal.Queue

/-!
# Masks and actions of unblockable signals

The signal state of all threads and processes. Whatever a process asks for, and whatever it writes
into the frames on its stacks, none of its threads blocks `SIGKILL` or `SIGSTOP`, and the actions of
these signals stay the default ones.
-/

namespace Zinnia

open Function ThreadSignalState Option

/-- The threads with their processes, the processes with their shared queues and actions, and the
user contexts that were written into signal frames. -/
structure SignalSystem where
  threads : ℕ → Option (ℕ × ThreadSignalState)
  procs : ℕ → Option (SigQueue × (Signal → SigAction))
  frames : List Ucontext

namespace SignalSystem

/-- The first thread of the first process. -/
def boot : SignalSystem where
  threads := update (fun _ => none) 0 (some (0, .default))
  procs := update (fun _ => none) 0 (some (.new, fun _ => .default))
  frames := []

/-- A thread with its process. -/
def task (w : SignalSystem) (tid : ℕ) : Option (ℕ × SignalTask) := do
  let (pid, thread) ← w.threads tid
  let (sharedPending, actions) ← w.procs pid
  some (pid, ⟨thread, sharedPending, actions⟩)

/-- What is left when a thread has changed its state and that of its process. -/
def setTask (w : SignalSystem) (tid pid : ℕ) (t : SignalTask) : SignalSystem :=
  { w with
    threads := update w.threads tid (some (pid, t.thread))
    procs := update w.procs pid (some (t.sharedPending, t.actions)) }

/-- What changes the signal state: calls of a thread, and faults and signals from elsewhere. Signals
come and go in the queues at any time. -/
inductive Event where
  | sigaction (sig : Option Signal) (act : Option (Option UserSigaction)) (oact : Bool)
  | sigprocmask (how : Usize) (set : Option (Option SignalSet)) (old : Bool)
  | sigsuspend (set : Option SignalSet)
  | ppoll (sigmask : Option SignalSet)
  | epollPwait (sigmask : Option SignalSet)
  | sigaltstack (altstack : AltStack)
  | deliver (context : Context)
  | sigreturn (readFrame : Usize → Option SignalFrame) (readUcontext : Usize → Option Ucontext)
    (context : Context)
  | threadCreate (newTid : ℕ)
  | fork (newTid newPid : ℕ)
  | execve (newTid : ℕ)
  | fault (sig : Signal) (info : SigInfoData)
  | queues (queue sharedPending : SigQueue)
  | threadExit

/-- What an event leaves of the thread `tid` of the process `pid` and of the others. -/
def does (w : SignalSystem) (tid pid : ℕ) (t : SignalTask) : Event → SignalSystem
  | .sigaction sig act oact => w.setTask tid pid (t.sigaction sig act oact).2
  | .sigprocmask how set old =>
    w.setTask tid pid { t with thread := (t.thread.sigprocmask how set old).2 }
  | .sigsuspend set | .ppoll set | .epollPwait set =>
    match t.thread.setTemporaryMask set with
    | .ok thread => w.setTask tid pid { t with thread }
    | .error _ => w
  | .sigaltstack altstack => w.setTask tid pid { t with thread := { t.thread with altstack } }
  | .deliver context =>
    match t.prepareNextSignal with
    | (.deliver d, t) =>
      let w := w.setTask tid pid t
      { w with frames := context.ucontext d :: w.frames }
    | (_, t) => w.setTask tid pid t
  | .sigreturn readFrame readUcontext context =>
    match restoreSignalFrame readFrame readUcontext context t with
    | some (_, t) => w.setTask tid pid t
    | none => w
  | .threadCreate newTid =>
    let thread := { ThreadSignalState.default with mask := t.thread.mask }
    { w with threads := update w.threads newTid (some (pid, thread)) }
  | .fork newTid newPid =>
    let thread :=
      { ThreadSignalState.default with mask := t.thread.mask, altstack := t.thread.altstack }
    { w with
      threads := update w.threads newTid (some (newPid, thread))
      procs := update w.procs newPid (some (.new, t.actions)) }
  | .execve newTid =>
    let thread := { ThreadSignalState.default with mask := t.thread.mask, queue := t.thread.queue }
    -- the threads of the old image end
    let threads := fun tid => (w.threads tid).filter fun th => th.1 ≠ pid
    { w with
      threads := update threads newTid (some (pid, thread))
      procs := update w.procs pid (some (t.sharedPending, resetOnExec t.actions)) }
  | .fault sig info => w.setTask tid pid (t.forceSignal sig info)
  | .queues queue sharedPending =>
    w.setTask tid pid { t with thread := { t.thread with queue }, sharedPending }
  | .threadExit => { w with threads := update w.threads tid none }

/-- The states that events lead to. -/
inductive Reaches : SignalSystem → Prop
  | boot : Reaches boot
  | step {w : SignalSystem} {tid pid : ℕ} {t : SignalTask} (event : Event) :
    Reaches w → w.task tid = some (pid, t) → Reaches (w.does tid pid t event)

end SignalSystem

/-! ### Masks -/

namespace SignalSet

variable {s s' : SignalSet}

/-- `SIGKILL` and `SIGSTOP` are not in the set. -/
def Allowed (s : SignalSet) : Prop := ∀ sig : Signal, sig.isUncatchable = true → s.isSet sig = false

instance (s : SignalSet) : Decidable s.Allowed :=
  decidable_of_iff (∀ sig ∈ Signal.all, sig.isUncatchable = true → s.isSet sig = false)
    ⟨fun h sig => h sig (by cases sig <;> decide), fun h sig _ => h sig⟩

lemma Allowed.of_le (h : s.Allowed) (hle : ∀ i, s'.getLsbD i = true → s.getLsbD i = true) :
    s'.Allowed := by
  intro sig hsig
  have hs := h sig hsig
  rw [isSet_eq] at hs ⊢
  rw [← Bool.not_eq_true] at hs ⊢
  exact fun hbit => hs (hle _ hbit)

lemma allowed_sanitizeMask (s : SignalSet) : s.sanitizeMask.Allowed := by
  have hall : (~~~unblockable).Allowed := by decide
  refine hall.of_le fun i hbit => ?_
  rw [sanitizeMask, BitVec.getLsbD_and, Bool.and_eq_true] at hbit
  exact hbit.2

lemma Allowed.set_false (h : s.Allowed) (sig : Signal) : (s.set sig false).Allowed := by
  refine h.of_le fun i hbit => ?_
  rw [getLsbD_set_false, Bool.and_eq_true] at hbit
  exact hbit.1

lemma allowed_zero : Allowed 0 := by decide

end SignalSet

/-! ### Threads and processes -/

/-- The masks of the thread are allowed. -/
structure ThreadSignalState.Allowed (t : ThreadSignalState) : Prop where
  mask : t.mask.Allowed
  restoreMask : ∀ mask ∈ t.restoreMask, mask.Allowed

/-- The actions of the signals that cannot be caught are the default ones. -/
def DefaultActions (actions : Signal → SigAction) : Prop :=
  ∀ sig : Signal, sig.isUncatchable = true → actions sig = .default

namespace ThreadSignalState

variable {t t' : ThreadSignalState}

lemma allowed_of_mask {queue : SigQueue} {altstack : AltStack} {mask : SignalSet}
    (h : mask.Allowed) : Allowed ⟨queue, mask, altstack, none⟩ :=
  ⟨h, fun _ hmask => by cases hmask⟩

lemma Allowed.sigprocmask (h : t.Allowed) (how : Usize) (set : Option (Option SignalSet))
    (old : Bool) : (t.sigprocmask how set old).2.Allowed := by
  unfold ThreadSignalState.sigprocmask
  dsimp only
  split
  · exact h
  · split
    · exact h
    · split_ifs <;> exact h
    · split_ifs
      · exact ⟨SignalSet.allowed_sanitizeMask _, h.restoreMask⟩
      · exact h

lemma Allowed.setTemporaryMask (h : t.Allowed) {set : Option SignalSet}
    (hset : t.setTemporaryMask set = .ok t') : t'.Allowed := by
  cases set with
  | none => cases hset
  | some newMask =>
    cases hset
    refine ⟨SignalSet.allowed_sanitizeMask _, fun mask hmask => ?_⟩
    cases hmask
    exact h.mask

end ThreadSignalState

lemma DefaultActions.resetOnExec {actions : Signal → SigAction} (h : DefaultActions actions) :
    DefaultActions (Zinnia.resetOnExec actions) := by
  intro sig hsig
  unfold Zinnia.resetOnExec
  split_ifs
  · exact h sig hsig
  · rfl

namespace SignalTask

variable {t t' : SignalTask} {sig : Signal} {info : SigInfoData}

/-- Neither the masks of the thread nor the actions of the process touch the unblockable
signals. -/
structure Allowed (t : SignalTask) : Prop where
  thread : t.thread.Allowed
  actions : DefaultActions t.actions

section

variable (h : t.Allowed)

include h

lemma Allowed.setAction {a : SigAction} (ha : sig.isUncatchable = true → a = .default) :
    (t.setAction sig a).Allowed := by
  refine ⟨h.thread, fun sig' hsig' => ?_⟩
  change update t.actions sig a sig' = .default
  rcases eq_or_ne sig' sig with rfl | hne
  · rw [update_self, ha hsig']
  · rw [update_of_ne hne, h.actions sig' hsig']

lemma Allowed.setAction_default (sig : Signal) : (t.setAction sig .default).Allowed :=
  h.setAction fun _ => rfl

lemma Allowed.flushIfIgnored (sig : Signal) (a : SigAction) : (t.flushIfIgnored sig a).Allowed := by
  unfold SignalTask.flushIfIgnored
  split_ifs
  · exact ⟨⟨h.thread.mask, h.thread.restoreMask⟩, h.actions⟩
  · exact h

lemma Allowed.sigaction (sig : Option Signal) (act : Option (Option UserSigaction)) (oact : Bool) :
    (t.sigaction sig act oact).2.Allowed := by
  unfold SignalTask.sigaction
  cases sig with
  | none => exact h
  | some sig =>
    dsimp only
    split
    · exact h
    · next huncatchable =>
      split
      · exact h
      · split_ifs <;> exact h
      · split_ifs
        · exact (h.setAction fun hsig => absurd hsig huncatchable).flushIfIgnored sig _
        · exact h

lemma Allowed.forceSignal (sig : Signal) (info : SigInfoData) :
    (t.forceSignal sig info).Allowed := by
  unfold SignalTask.forceSignal
  dsimp only
  split_ifs
  · exact ⟨⟨h.thread.mask.set_false sig, h.thread.restoreMask⟩, (h.setAction_default sig).actions⟩
  · exact ⟨⟨h.thread.mask.set_false sig, h.thread.restoreMask⟩, h.actions⟩

lemma Allowed.dequeueNext (ht : t.dequeueNext = some (sig, info, t')) : t'.Allowed := by
  obtain ⟨-, queue, sharedPending, rfl⟩ := dequeueNext_spec ht
  exact ⟨⟨h.thread.mask, h.thread.restoreMask⟩, h.actions⟩

lemma Allowed.enterHandler (sig : Signal) (a : SigAction) :
    (t.enterHandler sig a).1.Allowed ∧ (t.enterHandler sig a).2.Allowed := by
  refine ⟨?_, allowed_of_mask (SignalSet.allowed_sanitizeMask _), h.actions⟩
  change (t.thread.restoreMask.getD t.thread.mask).Allowed
  cases hrestore : t.thread.restoreMask with
  | none => exact h.thread.mask
  | some mask => exact h.thread.restoreMask mask hrestore

end

/-- The mask that a handler returns to is allowed. -/
def SignalDecision.Allowed : SignalDecision → Prop
  | .deliver d => d.oldMask.Allowed
  | _ => True

lemma Allowed.dispatch (h : t.Allowed) (sig : Signal) (info : SigInfoData) :
    (t.dispatch sig info).1.Allowed ∧ (t.dispatch sig info).2.Allowed := by
  unfold SignalTask.dispatch
  dsimp only
  split
  · exact ⟨trivial, h⟩
  · split <;> exact ⟨trivial, h⟩
  · split_ifs
    · exact (h.setAction_default sig).enterHandler sig _
    · exact h.enterHandler sig _

lemma Allowed.prepareNextSignal (h : t.Allowed) :
    t.prepareNextSignal.1.Allowed ∧ t.prepareNextSignal.2.Allowed := by
  unfold SignalTask.prepareNextSignal
  cases hnext : t.dequeueNext with
  | some taken =>
    obtain ⟨sig, info, t'⟩ := taken
    exact (h.dequeueNext hnext).dispatch sig info
  | none =>
    cases hrestore : t.thread.restoreMask with
    | none => exact ⟨trivial, h⟩
    | some mask =>
      exact ⟨trivial, allowed_of_mask (h.thread.restoreMask mask hrestore),
        h.actions⟩

end SignalTask

/-! ### Runs -/

namespace SignalSystem

variable {w : SignalSystem} {tid pid : ℕ} {t : SignalTask}

/-- No mask of a thread and no mask in a signal frame blocks `SIGKILL` or `SIGSTOP`, and their
actions are the default ones. -/
structure Allowed (w : SignalSystem) : Prop where
  threads : ∀ tid pid thread, w.threads tid = some (pid, thread) → thread.Allowed
  procs : ∀ pid queue actions, w.procs pid = some (queue, actions) → DefaultActions actions
  frames : ∀ uc ∈ w.frames, SignalSet.Allowed uc.ucSigmask ∧ SignalSet.Allowed uc.ucMcontext.oldmask

lemma allowed_boot : boot.Allowed := by
  refine ⟨fun tid pid thread h => ?_, fun pid queue actions h => ?_, fun uc h => by cases h⟩
  · simp only [boot] at h
    obtain ⟨-, h⟩ | ⟨-, h⟩ := update_eq_some_iff.mp h
    · cases h
      exact allowed_of_mask SignalSet.allowed_zero
    · cases h
  · simp only [boot] at h
    obtain ⟨-, h⟩ | ⟨-, h⟩ := update_eq_some_iff.mp h
    · cases h
      exact fun _ _ => rfl
    · cases h

section

variable (h : w.Allowed) {thread : ThreadSignalState}

include h

lemma Allowed.task (ht : w.task tid = some (pid, t)) : t.Allowed := by
  obtain ⟨⟨pid', thread⟩, hthread, ht⟩ := bind_eq_some_iff.mp ht
  obtain ⟨⟨queue, actions⟩, hproc, ht⟩ := bind_eq_some_iff.mp ht
  cases ht
  exact ⟨h.threads _ _ _ hthread, h.procs _ _ _ hproc⟩

lemma Allowed.setThread (ht : thread.Allowed) (tid pid : ℕ) :
    Allowed { w with threads := update w.threads tid (some (pid, thread)) } := by
  refine ⟨fun tid' pid' thread' h' => ?_, h.procs, h.frames⟩
  obtain ⟨-, h'⟩ | ⟨-, h'⟩ := update_eq_some_iff.mp h'
  · cases h'
    exact ht
  · exact h.threads _ _ _ h'

lemma Allowed.setProc {actions : Signal → SigAction} (ha : DefaultActions actions) (pid : ℕ)
    (queue : SigQueue) :
    Allowed { w with procs := update w.procs pid (some (queue, actions)) } := by
  refine ⟨h.threads, fun pid' queue' actions' h' => ?_, h.frames⟩
  obtain ⟨-, h'⟩ | ⟨-, h'⟩ := update_eq_some_iff.mp h'
  · cases h'
    exact ha
  · exact h.procs _ _ _ h'

lemma Allowed.setTask (ht : t.Allowed) (tid pid : ℕ) : (w.setTask tid pid t).Allowed :=
  (h.setThread ht.thread tid pid).setProc ht.actions pid t.sharedPending

/-- A thread has changed only its own state and the queues. -/
lemma Allowed.setThreadState (ht : t.Allowed) (hthread : thread.Allowed) (tid pid : ℕ)
    (sharedPending : SigQueue) :
    (w.setTask tid pid ⟨thread, sharedPending, t.actions⟩).Allowed := by
  have htask : SignalTask.Allowed ⟨thread, sharedPending, t.actions⟩ := ⟨hthread, ht.actions⟩
  exact h.setTask htask tid pid

/-- Threads may end. -/
lemma Allowed.of_threads {threads : ℕ → Option (ℕ × ThreadSignalState)}
    (hsub : ∀ tid th, threads tid = some th → w.threads tid = some th) :
    Allowed { w with threads } :=
  ⟨fun _ _ _ hth => h.threads _ _ _ (hsub _ _ hth), h.procs, h.frames⟩

lemma Allowed.does (hw : w.task tid = some (pid, t)) (event : Event) :
    (w.does tid pid t event).Allowed := by
  have ht := h.task hw
  have hmask : ∀ {set : Option SignalSet}, Allowed (match t.thread.setTemporaryMask set with
      | .ok thread => w.setTask tid pid { t with thread }
      | .error _ => w) := by
    intro set
    split
    · next hset => exact h.setThreadState ht (ht.thread.setTemporaryMask hset) tid pid _
    · exact h
  cases event with
  | sigaction sig act oact => exact h.setTask (ht.sigaction sig act oact) tid pid
  | sigprocmask how set old =>
    exact h.setThreadState ht (ht.thread.sigprocmask how set old) tid pid _
  | sigsuspend set => exact hmask
  | ppoll set => exact hmask
  | epollPwait set => exact hmask
  | sigaltstack altstack =>
    have hthread : ThreadSignalState.Allowed { t.thread with altstack } :=
      ⟨ht.thread.mask, ht.thread.restoreMask⟩
    exact h.setThreadState ht hthread tid pid _
  | deliver context =>
    obtain ⟨hdecision, htask⟩ := ht.prepareNextSignal
    unfold SignalSystem.does
    dsimp only
    split
    · next d t' heq =>
      rw [heq] at hdecision htask
      have hset := h.setTask htask tid pid
      refine ⟨hset.threads, hset.procs, fun uc huc => ?_⟩
      -- both places of the frame hold the mask that the handler returns to
      rcases List.mem_cons.mp huc with rfl | huc
      · exact ⟨hdecision, hdecision⟩
      · exact h.frames uc huc
    · next t' _ heq =>
      rw [heq] at htask
      exact h.setTask htask tid pid
  | sigreturn readFrame readUcontext context =>
    unfold SignalSystem.does
    dsimp only
    split
    · next t' heq =>
      obtain ⟨frame, -, heq⟩ := bind_eq_some_iff.mp heq
      obtain ⟨uc, -, heq⟩ := bind_eq_some_iff.mp heq
      cases heq
      exact h.setThreadState ht
        (allowed_of_mask (SignalSet.allowed_sanitizeMask _)) tid pid _
    · exact h
  | threadCreate newTid =>
    exact h.setThread (allowed_of_mask ht.thread.mask) newTid pid
  | fork newTid newPid =>
    exact (h.setThread (allowed_of_mask ht.thread.mask) newTid newPid).setProc
      ht.actions newPid .new
  | execve newTid =>
    have hrest : Allowed
        { w with threads := fun tid => (w.threads tid).filter fun th => th.1 ≠ pid } := by
      refine h.of_threads fun tid th hth => ?_
      exact (filter_eq_some_iff.mp hth).1
    exact (hrest.setThread (allowed_of_mask ht.thread.mask) newTid pid).setProc
      ht.actions.resetOnExec pid t.sharedPending
  | fault sig info => exact h.setTask (ht.forceSignal sig info) tid pid
  | queues queue sharedPending =>
    have hthread : ThreadSignalState.Allowed { t.thread with queue } :=
      ⟨ht.thread.mask, ht.thread.restoreMask⟩
    exact h.setThreadState ht hthread tid pid _
  | threadExit =>
    refine h.of_threads fun tid' th hth => ?_
    obtain ⟨-, h'⟩ | ⟨-, h'⟩ := update_eq_some_iff.mp hth
    · cases h'
    · exact h'

end

/-- In each state that is reached, no mask blocks `SIGKILL` or `SIGSTOP`, be it the mask of a
thread, the one that it is to restore or one in a signal frame, and their actions are the default
ones. -/
theorem Reaches.allowed (h : Reaches w) : w.Allowed := by
  induction h with
  | boot => exact allowed_boot
  | step event _ ht ih => exact ih.does ht event

/-- The first thread returns from a frame whose mask has all signals. -/
def returned : SignalSystem :=
  boot.does 0 0 ⟨.default, .new, fun _ => .default⟩
    (.sigreturn (fun _ => some ⟨0, userContext 0 0⟩)
      (fun _ => some ⟨0, ⟨0, 0, 0⟩, ⟨0, fun _ => 0, 0⟩, BitVec.allOnes 64⟩) (userContext 0 0))

theorem allowed_returned : Reaches returned ∧ returned.Allowed ∧
    returned.threads 0 =
      some (0, ⟨.new, SignalSet.sanitizeMask (BitVec.allOnes 64), .default, none⟩) := by
  have hreaches : Reaches returned := .step _ .boot rfl
  exact ⟨hreaches, hreaches.allowed, rfl⟩

end SignalSystem

end Zinnia
