import Mathlib.Data.Fintype.Card
import Zinnia.Arch.Sched

/-!
# Returning to user mode

The context with which a thread returns to user mode has the selectors and flags of user mode. Its
instruction pointer is that of the system call, of a handler or of a signal frame, and the latter
two come from the process without a check.
-/

namespace Zinnia

open Function Option BitVec Finset Bool SignalTask

/-! ### The loop of the delivery -/

section

variable {s : SignalSet} {sig : Signal} {q q' : SigQueue} {t t' : SignalTask} {info : SigInfoData}

lemma Signal.bit_of_ofBit {b : ℕ} (h : Signal.ofBit b = some sig) : sig.bit = b := by
  obtain ⟨hb, hget⟩ := List.getElem?_eq_some_iff.mp h
  have hnodup : Signal.all.Nodup := by decide
  rw [← hget, Signal.bit, hnodup.idxOf_getElem]

lemma SignalSet.getLsbD_of_firstSet (h : SignalSet.firstSet s = some sig) :
    s.getLsbD sig.bit = true := by
  obtain ⟨b, hfind, hsig⟩ := bind_eq_some_iff.mp h
  rw [Signal.bit_of_ofBit hsig]
  exact List.find?_some hfind

lemma SignalSet.getLsbD_bit (sig : Signal) (i : ℕ) :
    (SignalSet.bit sig).getLsbD i = (decide (i < 64) && decide (i = sig.bit)) := by
  have hone : (1 : BitVec 64) <<< sig.bit = twoPow 64 sig.bit :=
    (twoPow_eq 64 sig.bit).symm
  rw [SignalSet.bit, hone]
  by_cases h : i = sig.bit
  · simp [h]
  · simp [h, Ne.symm h]

lemma SignalSet.getLsbD_set_false (s : SignalSet) (sig : Signal) (i : ℕ) :
    (SignalSet.set s sig false).getLsbD i = (s.getLsbD i && !decide (i = sig.bit)) := by
  rw [SignalSet.set, if_neg Bool.false_ne_true, getLsbD_and, getLsbD_not, getLsbD_bit]
  by_cases hi : i < 64
  · rw [decide_eq_true hi, Bool.true_and, Bool.true_and]
  · rw [getLsbD_of_ge s i (not_lt.mp hi), Bool.false_and, Bool.false_and]

/-- The number of pending signals. -/
def SigQueue.count (q : SigQueue) : ℕ :=
  (Finset.univ.filter fun i : Fin 64 => q.pending.getLsbD i).card

lemma SigQueue.count_le (q : SigQueue) : q.count ≤ 64 := by
  exact (card_le_univ _).trans_eq (Fintype.card_fin 64)

lemma SigQueue.count_lt_of_dequeue {allowed : SignalSet}
    (h : q.dequeue allowed = some (sig, info, q')) : q'.count < q.count := by
  obtain ⟨sig', hfirst, heq⟩ := bind_eq_some_iff.mp h
  cases heq
  have hbit := SignalSet.getLsbD_of_firstSet hfirst
  rw [getLsbD_and, and_eq_true] at hbit
  have hlt : sig.bit < 64 := lt_of_getLsbD hbit.1
  refine card_lt_card (ssubset_iff_of_subset ?_ |>.mpr ⟨⟨sig.bit, hlt⟩, ?_, ?_⟩)
  · intro i hi
    rw [mem_filter, SignalSet.getLsbD_set_false, and_eq_true] at hi
    rw [mem_filter]
    exact ⟨hi.1, hi.2.1⟩
  · rw [mem_filter]
    exact ⟨mem_univ _, hbit.1⟩
  · rw [mem_filter, SignalSet.getLsbD_set_false]
    simp

/-- Every round of the loop but the last makes this smaller. -/
def SignalTask.rank (t : SignalTask) : ℕ :=
  t.thread.queue.count + t.sharedPending.count + t.thread.restoreMask.toList.length

lemma SignalTask.rank_lt (t : SignalTask) : t.rank < 130 := by
  have hthread := t.thread.queue.count_le
  have hshared := t.sharedPending.count_le
  have hmask : t.thread.restoreMask.toList.length ≤ 1 := by
    cases t.thread.restoreMask <;> simp
  rw [rank]
  omega

/-- The handlers of the process satisfy a predicate. -/
def SignalTask.Handlers (t : SignalTask) (P : Usize → Prop) : Prop :=
  ∀ sig handler, (t.actions sig).disposition = .handler handler → P handler

/-- Taking a signal from a queue changes the queues only. -/
lemma SignalTask.dequeueNext_spec (h : t.dequeueNext = some (sig, info, t')) :
    t'.rank < t.rank ∧ ∃ queue sharedPending,
      t' = ⟨{ t.thread with queue }, sharedPending, t.actions⟩ := by
  rw [dequeueNext] at h
  cases hq : t.thread.queue.dequeue (~~~t.thread.mask) with
  | some taken =>
    rw [hq] at h
    cases h
    have hlt := SigQueue.count_lt_of_dequeue hq
    exact ⟨by simp only [rank]; omega, _, _, rfl⟩
  | none =>
    rw [hq] at h
    obtain ⟨⟨sig', info', queue⟩, hshared, heq⟩ := map_eq_some_iff.mp h
    cases heq
    have hlt := SigQueue.count_lt_of_dequeue hshared
    exact ⟨by simp only [rank]; omega, _, _, rfl⟩

/-- What a decision says about the handlers. -/
def SignalTask.SignalDecision.Within (P : Usize → Prop) : SignalDecision → Prop
  | .deliver d => P d.handler
  | _ => True

variable {P : Usize → Prop}

section

variable (h : t.Handlers P)

include h

lemma SignalTask.Handlers.setAction_default : (t.setAction sig .default).Handlers P := by
  intro sig' handler haction
  rcases eq_or_ne sig' sig with rfl | hsig
  · simp only [setAction, update_self, SigAction.default] at haction
    cases haction
  · simp only [setAction, update_of_ne hsig] at haction
    exact h sig' handler haction

lemma SignalTask.Handlers.enterHandler (sig : Signal) (a : SigAction) :
    (t.enterHandler sig a).2.Handlers P := h

/-- A signal that is not delivered leaves the task as it is. -/
lemma SignalTask.Handlers.dispatch (sig : Signal) (info : SigInfoData) :
    (t.dispatch sig info).1.Within P ∧ (t.dispatch sig info).2.Handlers P ∧
      ((t.dispatch sig info).1 = .retry → (t.dispatch sig info).2 = t) := by
  rw [SignalTask.dispatch]
  cases haction : (t.actions sig).disposition with
  | ignore => exact ⟨trivial, h, fun _ => rfl⟩
  | default => cases hdefault : sig.defaultAction <;> exact ⟨trivial, h, fun _ => rfl⟩
  | handler handler =>
    have hreset : (if (t.actions sig).flags.contains SaFlags.resetHand then
        t.setAction sig .default else t).Handlers P := by
      split
      · exact h.setAction_default
      · exact h
    exact ⟨h sig handler haction, hreset.enterHandler sig (t.actions sig),
      fun hretry => by cases hretry⟩

lemma SignalTask.Handlers.prepareNextSignal :
    t.prepareNextSignal.1.Within P ∧ t.prepareNextSignal.2.Handlers P ∧
      (t.prepareNextSignal.1 = .retry → t.prepareNextSignal.2.rank < t.rank) := by
  rw [SignalTask.prepareNextSignal]
  cases hnext : t.dequeueNext with
  | some taken =>
    obtain ⟨sig, info, t'⟩ := taken
    obtain ⟨hrank, queue, sharedPending, rfl⟩ := dequeueNext_spec hnext
    have hhandlers : Handlers ⟨{ t.thread with queue }, sharedPending, t.actions⟩ P := h
    obtain ⟨hwithin, hdispatch, hsame⟩ := hhandlers.dispatch sig info
    exact ⟨hwithin, hdispatch, fun hretry => by rwa [hsame hretry]⟩
  | none =>
    cases hmask : t.thread.restoreMask with
    | none => exact ⟨trivial, h, fun hretry => by cases hretry⟩
    | some mask =>
      refine ⟨trivial, h, fun _ => ?_⟩
      simp only [rank, hmask, toList_some, toList_none, List.length_cons]
      omega

/-- The loop comes to a decision, and a handler that it decides on is one of the process. -/
lemma SignalTask.Handlers.decisionLoop {n : ℕ} (hrank : t.rank < n) :
    ∃ decision t', t.decisionLoop n = some (decision, t') ∧ decision ≠ .retry ∧
      decision.Within P ∧ t'.Handlers P := by
  induction n generalizing t with
  | zero => exact absurd hrank (Nat.not_lt_zero _)
  | succ n ih =>
    obtain ⟨hwithin, hhandlers, hretry⟩ := h.prepareNextSignal
    rw [decisionLoop]
    revert hwithin hhandlers hretry
    obtain ⟨decision, t'⟩ := t.prepareNextSignal
    intro hwithin hhandlers hretry
    cases decision with
    | retry => exact ih hhandlers ((hretry rfl).trans_le (Nat.le_of_lt_succ hrank))
    | _ => exact ⟨_, _, rfl, nofun, hwithin, hhandlers⟩

lemma SignalTask.Handlers.nextDecision :
    ∃ decision t', t.nextDecision = some (decision, t') ∧ decision ≠ .retry ∧
      decision.Within P ∧ t'.Handlers P :=
  h.decisionLoop t.rank_lt

end

/-! ### Contexts of user mode -/

/-- The selectors and the flags are those of user mode. -/
structure Context.UserMode (c : Context) : Prop where
  cs : c.cs = userCode64
  ss : c.ss = userData
  interrupt : c.rflags &&& RFlags.interrupt = RFlags.interrupt
  ioPrivilege : c.rflags &&& RFlags.ioPrivilege = 0

/-- The context with which the kernel may return to user mode. -/
structure Context.IsUser (c : Context) : Prop extends c.UserMode where
  rip : isUserAddr c.rip

variable {c c' frame : Context} {writes : Usize → StackItem → Bool}

lemma Context.UserMode.setReturn (h : c.UserMode) (val err : Usize) :
    (c.setReturn val err).UserMode :=
  ⟨h.cs, h.ss, h.interrupt, h.ioPrivilege⟩

lemma Context.UserMode.restartSyscall (h : c.UserMode) (restart : SyscallRestart) :
    (c.restartSyscall restart).UserMode :=
  ⟨h.cs, h.ss, h.interrupt, h.ioPrivilege⟩

/-- The direction flag is neither of the two flags. -/
lemma Context.UserMode.setupSignalFrame {d : SignalDelivery} (h : c.UserMode)
    (hsetup : Zinnia.setupSignalFrame writes c d = some c') : c'.UserMode ∧ c'.rip = d.handler := by
  obtain ⟨base, -, hrest⟩ := bind_eq_some_iff.mp hsetup
  obtain ⟨a, -, hrest⟩ := bind_eq_some_iff.mp hrest
  split at hrest
  · cases hrest
    have hinterrupt : ~~~RFlags.direction &&& RFlags.interrupt = RFlags.interrupt := by decide
    have hprivilege : ~~~RFlags.direction &&& RFlags.ioPrivilege = RFlags.ioPrivilege := by decide
    refine ⟨⟨h.cs, h.ss, ?_, ?_⟩, rfl⟩
    · rw [BitVec.and_assoc, hinterrupt, h.interrupt]
    · rw [BitVec.and_assoc, hprivilege, h.ioPrivilege]
  · cases hrest

/-- The flags are taken from the frame of the process, but not these. -/
lemma SignalFrame.userMode_restore (f : SignalFrame) (uc : Ucontext) : (f.restore uc).UserMode := by
  have hkeep : (0xDD5 : BitVec 64) &&& RFlags.interrupt = 0 := by decide
  have hset : (0x202 : BitVec 64) &&& RFlags.interrupt = RFlags.interrupt := by decide
  have hkeep' : (0xDD5 : BitVec 64) &&& RFlags.ioPrivilege = 0 := by decide
  have hset' : (0x202 : BitVec 64) &&& RFlags.ioPrivilege = 0 := by decide
  refine ⟨rfl, rfl, ?_, ?_⟩
  · simp only [restore]
    rw [BitVec.and_or_distrib_right, BitVec.and_assoc, hkeep, hset]
    simp
  · simp only [restore]
    rw [BitVec.and_or_distrib_right, BitVec.and_assoc, hkeep', hset']
    simp

/-- The delivery returns to the context it was given, to the instruction `syscall` or to a
handler. -/
lemma Context.UserMode.deliver {syscall : Option SyscallRestart} (hc : c.UserMode) (hrip : P c.rip)
    (hrestart : syscall.isSome → P (c.rip - 2)) (ht : t.Handlers P)
    (h : deliverPendingSignals writes c syscall t = some (c', t')) :
    c'.UserMode ∧ P c'.rip ∧ t'.Handlers P := by
  obtain ⟨decision, t₁, hnext, hretry, hwithin, hhandlers⟩ := ht.nextDecision
  simp only [deliverPendingSignals, hnext, bind_eq_bind] at h
  cases decision with
  | retry => exact absurd rfl hretry
  | fatal sig => cases h
  | none =>
    cases h
    cases hfilter : syscall.filter fun _ => c.syscallError = erestart with
    | none => exact ⟨hc, hrip, hhandlers⟩
    | some restart =>
      have hsome : syscall.isSome := isSome_of_eq_some (eq_some_of_filter_eq_some hfilter)
      exact ⟨hc.restartSyscall restart, hrestart hsome, hhandlers⟩
  | deliver d =>
    obtain ⟨c₁, hsetup, heq⟩ := map_eq_some_iff.mp h
    cases heq
    have hmode : (((syscall.filter fun _ => c.syscallError = erestart).elim c fun sc =>
        if d.flags.contains SaFlags.restart then c.restartSyscall sc
        else c.setReturn 0 eintr)).UserMode := by
      cases syscall.filter fun _ => c.syscallError = erestart with
      | none => exact hc
      | some restart =>
        split
        · exact hc.restartSyscall restart
        · exact hc.setReturn 0 eintr
    obtain ⟨hmode', hrip'⟩ := hmode.setupSignalFrame hsetup
    exact ⟨hmode', hrip' ▸ hwithin, hhandlers⟩

/-! ### Runs -/

/-- A thread that runs in user mode from `c` on enters the kernel with `frame`. User mode cannot
change the I/O privilege, nor the interrupt flag without it. The instruction `syscall` is in the
user half, and the saved instruction pointer is the one after it. -/
structure Context.Enters (c frame : Context) : Prop where
  cs : frame.cs = userCode64
  ss : frame.ss = userData
  ioPrivilege : frame.rflags &&& RFlags.ioPrivilege = c.rflags &&& RFlags.ioPrivilege
  interrupt : c.rflags &&& RFlags.ioPrivilege = 0 →
    frame.rflags &&& RFlags.interrupt = c.rflags &&& RFlags.interrupt
  syscall : isUserAddr (frame.rip - 2) ∧ isUserAddr (frame.rip - 1)

/-- The handlers that are installed and the instruction pointer of the frame are in the user
half, and so is the end of the instruction `syscall`. -/
def SignalCall.Admissible (frame : Context) (t : SignalTask) (call : SignalCall) : Prop :=
  isUserAddr frame.rip ∧
    match call with
    | .sigaction _ act _ => ∀ u, act = some (some u) → isUserAddr u.saHandler
    | .sigreturn readFrame readUcontext => ∀ f uc, readFrame frame.rsp = some f →
        readUcontext f.ucAddr = some uc → isUserAddr uc.ucMcontext.pc
    | .other _ _ task => ∀ sig, task.actions sig = t.actions sig ∨
        ∀ handler, (task.actions sig).disposition = .handler handler → isUserAddr handler

/-- A thread from its start on, from system call to system call. -/
inductive UserThread.Run (Guard : Context → SignalTask → SignalCall → Prop) : UserThread → Prop
  | start {c : Context} {t : SignalTask} (hc : c.IsUser) (ht : t.Handlers fun _ => False) :
    Run Guard ⟨c, t⟩
  | step {th th' : UserThread} (frame : Context) (call : SignalCall)
    (writes : Usize → StackItem → Bool) (hrun : Run Guard th) (henters : th.context.Enters frame)
    (hguard : Guard frame th.task call)
    (hcall : syscallHandler writes frame th.task call = some th') : Run Guard th'

lemma Context.Enters.userMode (h : c.Enters frame) (hc : c.UserMode) : frame.UserMode :=
  ⟨h.cs, h.ss, (h.interrupt hc.ioPrivilege).trans hc.interrupt, h.ioPrivilege.trans hc.ioPrivilege⟩

lemma Context.UserMode.setResult (h : c.UserMode) (res : EResult Usize) :
    (c.setResult res).UserMode ∧ (c.setResult res).rip = c.rip := by
  cases res with
  | ok val => exact ⟨h.setReturn val 0, rfl⟩
  | error e => exact ⟨h.setReturn 0 e.number, rfl⟩

lemma SignalTask.actions_flushIfIgnored (sig : Signal) (a : SigAction) :
    (t.flushIfIgnored sig a).actions = t.actions := by
  rw [flushIfIgnored]
  split <;> rfl

lemma SignalTask.Handlers.sigaction {sig : Option Signal} {act : Option (Option UserSigaction)}
    {oact : Bool} (ht : t.Handlers P) (hact : ∀ u, act = some (some u) → P u.saHandler) :
    (t.sigaction sig act oact).2.Handlers P := by
  rw [sigaction.eq_def]
  cases sig with
  | none => exact ht
  | some sig =>
    dsimp only
    split
    · exact ht
    split
    · exact ht
    · split <;> exact ht
    · rename_i u
      split
      · intro sig' handler haction
        rw [actions_flushIfIgnored] at haction
        rcases eq_or_ne sig' sig with rfl | hsig
        · simp only [setAction, update_self, SigAction.fromUser, Disposition.fromUser]
            at haction
          split at haction
          · cases haction
          split at haction
          · cases haction
          · cases haction
            exact hact u rfl
        · simp only [setAction, update_of_ne hsig] at haction
          exact ht sig' handler haction
      · exact ht

/-- The invariant of a thread in user mode. -/
def UserThread.Ok (th : UserThread) : Prop :=
  th.context.IsUser ∧ th.task.Handlers (isUserAddr ·)

lemma UserThread.Ok.step {th th' : UserThread} {call : SignalCall} (h : th.Ok)
    (henters : th.context.Enters frame) (hguard : call.Admissible frame th.task)
    (hcall : syscallHandler writes frame th.task call = some th') : th'.Ok := by
  have hframe := henters.userMode h.1.toUserMode
  obtain ⟨hrip, hguard⟩ := hguard
  cases call with
  | sigaction sig act oact =>
    obtain ⟨⟨c', t'⟩, hdeliver, rfl⟩ := map_eq_some_iff.mp hcall
    obtain ⟨hmode, hsame⟩ := hframe.setResult (th.task.sigaction sig act oact).1
    rw [← hsame] at hrip
    have hrestart := henters.syscall.1
    rw [← hsame] at hrestart
    obtain ⟨hmode', hrip', ht'⟩ := hmode.deliver hrip (fun _ => hrestart)
      (h.2.sigaction hguard) hdeliver
    exact ⟨⟨hmode', hrip'⟩, ht'⟩
  | sigreturn readFrame readUcontext =>
    obtain ⟨⟨c₁, t₁⟩, hrestore, hrest⟩ := bind_eq_some_iff.mp hcall
    obtain ⟨⟨c', t'⟩, hdeliver, heq⟩ := bind_eq_some_iff.mp hrest
    cases heq
    obtain ⟨f, hf, hrest⟩ := bind_eq_some_iff.mp hrestore
    obtain ⟨uc, huc, heq⟩ := bind_eq_some_iff.mp hrest
    have htask : t₁.Handlers (isUserAddr ·) := by
      cases heq
      exact h.2
    cases heq
    have hnone : (none : Option SyscallRestart).isSome → isUserAddr ((f.restore uc).rip - 2) :=
      fun hsome => absurd hsome false_ne_true
    obtain ⟨hmode', hrip', ht'⟩ := (f.userMode_restore uc).deliver
      (hguard f uc hf huc) hnone htask hdeliver
    exact ⟨⟨hmode', hrip'⟩, ht'⟩
  | other val err task =>
    obtain ⟨⟨c', t'⟩, hdeliver, rfl⟩ := map_eq_some_iff.mp hcall
    have htask : task.Handlers (isUserAddr ·) := by
      intro sig handler haction
      rcases hguard sig with hold | hnew
      · exact h.2 sig handler (hold ▸ haction)
      · exact hnew handler haction
    obtain ⟨hmode', hrip', ht'⟩ := (hframe.setReturn val err).deliver hrip
      (fun _ => henters.syscall.1) htask hdeliver
    exact ⟨⟨hmode', hrip'⟩, ht'⟩

/-- If the process only names addresses of the user half, the kernel only returns to contexts of
user mode. -/
theorem UserThread.Run.isUser {th : UserThread}
    (h : UserThread.Run (fun frame t call => call.Admissible frame t) th) : th.context.IsUser := by
  have hok : th.Ok := by
    induction h with
    | start hc ht => exact ⟨hc, fun sig handler haction => (ht sig handler haction).elim⟩
    | step frame call writes hrun henters hguard hcall ih => exact ih.step henters hguard hcall
  exact hok.1

end

/-- A context of user mode, with the instruction pointer and the stack pointer. -/
def userContext (rip rsp : BitVec 64) : Context :=
  ⟨0, 0, 0, 0, 0, 0, 0, 0, 0, 0, 0, 0, 0, 0, 0, 0, 0, rip, userCode64, 0x202, rsp, userData⟩

/-- A process without handlers, and without signals. -/
def freshTask : SignalTask where
  thread := ⟨⟨0, fun _ => ⟨0, 0, 0, 0, 0, 0, 0⟩⟩, 0, ⟨0, 0, true⟩, none⟩
  sharedPending := ⟨0, fun _ => ⟨0, 0, 0, 0, 0, 0, 0⟩⟩
  actions _ := .default

/-- The process asks to continue at an address of its choice. -/
def sigreturnTo (pc : BitVec 64) : SignalCall :=
  .sigreturn (fun _ => some ⟨0x7000, userContext 0 0⟩)
    (fun _ => some ⟨0, ⟨0, 0, 0⟩, ⟨0, fun _ => 0, pc⟩, 0⟩)

/-- Any thread may start so, and then enter the kernel at any place of the user half. -/
lemma UserThread.Run.fresh {Guard : Context → SignalTask → SignalCall → Prop} :
    UserThread.Run Guard ⟨userContext 0x400000 0x7000, freshTask⟩ :=
  .start ⟨⟨rfl, rfl, by decide, by decide⟩, by decide⟩ fun _ _ haction => by cases haction

lemma enters_userContext (rip rsp rip' rsp' : BitVec 64)
    (h : isUserAddr (rip' - 2) ∧ isUserAddr (rip' - 1)) :
    (userContext rip rsp).Enters (userContext rip' rsp') :=
  ⟨rfl, rfl, rfl, fun _ => rfl, h⟩

/-- A process returns from a signal handler to the user half. -/
theorem UserThread.isUser_sigreturn :
    ∃ th : UserThread, syscallHandler (fun _ _ => true) (userContext 0x400002 0x7000) freshTask
      (sigreturnTo 0x401000) = some th ∧ th.context.rip = 0x401000 ∧ th.context.IsUser := by
  refine ⟨_, rfl, rfl, ?_⟩
  apply UserThread.Run.isUser
  refine .step (userContext 0x400002 0x7000) (sigreturnTo 0x401000) (fun _ _ => true) .fresh
    (enters_userContext _ _ _ _ (by decide)) ⟨by decide, ?_⟩ rfl
  intro f uc hf huc
  cases huc
  decide

/-- A process names an address that is not canonical in the context of a signal frame, and the
kernel returns to it. -/
theorem UserThread.not_isUser_sigreturn :
    ∃ th : UserThread, UserThread.Run (fun _ _ _ => True) th ∧ ¬ th.context.IsUser := by
  refine ⟨_, .step (userContext 0x400002 0x7000) (sigreturnTo 0x800000000000) (fun _ _ => true)
    .fresh (enters_userContext _ _ _ _ (by decide)) trivial rfl, ?_⟩
  intro h
  exact absurd h.rip (by decide)

end Zinnia
