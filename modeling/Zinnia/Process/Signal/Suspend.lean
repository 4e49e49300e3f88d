import Zinnia.Process.Signal.Masks

/-!
# Temporary masks

A thread that waits with a temporary mask has its old mask back when it goes on in user mode. Until
then the old mask is kept in the thread or in the frame of the first handler.
-/

namespace Zinnia

lemma SignalSet.Allowed.sanitizeMask {s : SignalSet} (h : s.Allowed) : s.sanitizeMask = s := by
  have hbits : ∀ i : Fin 64, unblockable.getLsbD i = true →
      i.val = Signal.sigKill.bit ∨ i.val = Signal.sigStop.bit := by decide
  refine BitVec.eq_of_getLsbD_eq fun i hi => ?_
  rw [SignalSet.sanitizeMask, BitVec.getLsbD_and, BitVec.getLsbD_not, decide_eq_true hi,
    Bool.true_and]
  cases hbit : unblockable.getLsbD i with
  | false => exact Bool.and_true _
  | true =>
    have hclear : s.getLsbD i = false := by
      rcases hbits ⟨i, hi⟩ hbit with rfl | rfl
      · exact s.isSet_eq .sigKill ▸ h .sigKill rfl
      · exact s.isSet_eq .sigStop ▸ h .sigStop rfl
    rw [hclear]
    rfl

namespace SignalTask

variable {t t' : SignalTask}

/-- The mask that the thread goes on with if no handler is entered. -/
def resumeMask (t : SignalTask) : SignalSet := t.thread.restoreMask.getD t.thread.mask

/-- A decision that leaves `mask` to the thread or to the frame of the handler. -/
def Leaves (mask : SignalSet) : SignalDecision × SignalTask → Prop
  | (.deliver d, _) => d.oldMask = mask
  | (.none, t) => t.resumeMask = mask ∧ t.thread.restoreMask = none
  | (_, t) => t.resumeMask = mask

lemma resumeMask_of_dequeueNext {sig : Signal} {info : SigInfoData}
    (h : t.dequeueNext = some (sig, info, t')) : t'.resumeMask = t.resumeMask := by
  obtain ⟨-, queue, sharedPending, rfl⟩ := dequeueNext_spec h
  rfl

lemma leaves_dispatch (t : SignalTask) (sig : Signal) (info : SigInfoData) :
    Leaves t.resumeMask (t.dispatch sig info) := by
  unfold dispatch
  dsimp only
  split
  · rfl
  · split <;> rfl
  · split_ifs <;> rfl

lemma leaves_prepareNextSignal (t : SignalTask) : Leaves t.resumeMask t.prepareNextSignal := by
  unfold prepareNextSignal
  cases hnext : t.dequeueNext with
  | some taken =>
    obtain ⟨sig, info, t'⟩ := taken
    rw [← resumeMask_of_dequeueNext hnext]
    exact leaves_dispatch t' sig info
  | none =>
    cases hrestore : t.thread.restoreMask with
    | none => exact ⟨rfl, hrestore⟩
    | some mask =>
      change mask = t.resumeMask
      rw [resumeMask, hrestore]
      rfl

end SignalTask

/-- A thread since a call set a temporary mask: the frames of the handlers that have not returned,
and whether it is in user mode. -/
structure Suspended where
  task : SignalTask
  frames : List (SignalFrame × Ucontext)
  user : Bool

namespace Suspended

/-- What the thread does until the code behind the call goes on. -/
inductive Step : Suspended → Suspended → Prop where
  /-- Signals come and go, and other threads change actions. -/
  | others (s : Suspended) (queue sharedPending : SigQueue) (actions : Signal → SigAction) :
      Step s { s with task := ⟨{ s.task.thread with queue }, sharedPending, actions⟩ }
  | retry {s : Suspended} {t : SignalTask} (hkernel : s.user = false)
      (h : s.task.prepareNextSignal = (.retry, t)) : Step s { s with task := t }
  | none {s : Suspended} {t : SignalTask} (hkernel : s.user = false)
      (h : s.task.prepareNextSignal = (.none, t)) : Step s { s with task := t, user := true }
  | deliver {s : Suspended} {t : SignalTask} {d : SignalDelivery} (ucAddr : Usize) (c : Context)
      (hkernel : s.user = false) (h : s.task.prepareNextSignal = (.deliver d, t)) :
      Step s ⟨t, (⟨ucAddr, c⟩, c.ucontext d) :: s.frames, true⟩
  /-- A handler enters the kernel, with any effect on its signal state. -/
  | handler {s : Suspended} (t : SignalTask) (huser : s.user = true) (hframes : s.frames ≠ []) :
      Step s { s with task := t, user := false }
  | sigreturn {s : Suspended} {t : SignalTask} {frame : SignalFrame × Ucontext}
      {frames : List (SignalFrame × Ucontext)} {c c' : Context} (huser : s.user = true)
      (hframes : s.frames = frame :: frames)
      (h : restoreSignalFrame (fun _ => some frame.1) (fun _ => some frame.2) c s.task =
        some (c', t)) :
      Step s ⟨t, frames, false⟩

/-- The mask that the thread had is in the frame of the first handler or, if there is none, in the
thread. -/
structure Inv (mask : SignalSet) (s : Suspended) : Prop where
  first : ∀ frame ∈ s.frames.getLast?, frame.2.ucSigmask = mask
  thread : s.frames = [] → s.task.resumeMask = mask
  user : s.frames = [] → s.user → s.task.thread.restoreMask = none

variable {mask : SignalSet} {s s' : Suspended}

lemma Inv.step (h : s.Inv mask) (hmask : mask.Allowed) (hstep : Step s s') : s'.Inv mask := by
  cases hstep with
  | others queue sharedPending actions => exact ⟨h.first, h.thread, h.user⟩
  | @retry t hkernel ht =>
    have hleaves := s.task.leaves_prepareNextSignal
    rw [ht] at hleaves
    exact ⟨h.first, fun hnil => hleaves.trans (h.thread hnil), fun _ huser => by simp_all⟩
  | @none t hkernel ht =>
    have hleaves := s.task.leaves_prepareNextSignal
    rw [ht] at hleaves
    exact ⟨h.first, fun hnil => hleaves.1.trans (h.thread hnil), fun _ _ => hleaves.2⟩
  | @deliver t d ucAddr c hkernel ht =>
    have hleaves : d.oldMask = _ := ht ▸ s.task.leaves_prepareNextSignal
    refine ⟨fun frame hframe => ?_, by rintro ⟨⟩, by rintro ⟨⟩⟩
    cases hframes : s.frames with
    | nil =>
      rw [hframes] at hframe
      cases hframe
      exact hleaves.trans (h.thread hframes)
    | cons first frames =>
      rw [hframes] at hframe
      exact h.first frame (by rwa [hframes])
  | handler t huser hframes =>
    exact ⟨h.first, fun hnil => absurd hnil hframes, fun hnil => absurd hnil hframes⟩
  | @sigreturn t frame frames c c' huser hframes ht =>
    cases ht
    refine ⟨fun first hfirst => h.first first ?_, ?_, by rintro - ⟨⟩⟩
    · rw [hframes, List.getLast?_cons, hfirst]
      rfl
    · rintro rfl
      have hframe := h.first frame (by rw [hframes]; rfl)
      change SignalSet.sanitizeMask frame.2.ucSigmask = mask
      rw [hframe, hmask.sanitizeMask]

lemma Inv.run (h : s.Inv mask) (hmask : mask.Allowed) (hrun : Relation.ReflTransGen Step s s') :
    s'.Inv mask := by
  induction hrun with
  | refl => exact h
  | tail _ hstep ih => exact ih.step hmask hstep

/-- Whatever signals are caught or ignored in between, the code behind a call with a temporary mask
goes on with the mask that the thread had before the call. -/
theorem mask_resumed {t : SignalTask} {set : SignalSet} {thread : ThreadSignalState}
    (hmask : t.thread.mask.Allowed) (hcall : t.thread.setTemporaryMask (some set) = .ok thread)
    (hrun : Relation.ReflTransGen Step ⟨{ t with thread }, [], false⟩ s)
    (huser : s.user = true) (hframes : s.frames = []) :
    s.task.thread.mask = t.thread.mask := by
  cases hcall
  have hinv : s.Inv t.thread.mask := by
    refine Inv.run ⟨?_, fun _ => rfl, ?_⟩ hmask hrun
    · rintro _ ⟨⟩
    · rintro - ⟨⟩
  have hthread := hinv.thread hframes
  rw [SignalTask.resumeMask, hinv.user hframes huser] at hthread
  exact hthread

/-- A thread with a handler for all signals. -/
def handling (thread : ThreadSignalState) : SignalTask :=
  ⟨thread, .new, fun _ => ⟨.handler 0x1000, 0, 0, 0⟩⟩

/-- It blocks `SIGALRM`, which is not pending. -/
def caught : SignalTask := handling ⟨.new, 2, .default, none⟩

/-- `SIGALRM` is blocked and pending. The thread waits with an empty mask, enters the handler and
returns from it. -/
theorem mask_resumed_caught : ∃ s : Suspended, s.user = true ∧ s.frames = [] ∧
    s.task.thread.queue.pending = 0 ∧ s.task.thread.mask = 2 := by
  let c : Context := ⟨0, 0, 0, 0, 0, 0, 0, 0, 0, 0, 0, 0, 0, 0, 0, 0, 0, 0, 0, 0, 0, 0⟩
  let frame : SignalFrame × Ucontext :=
    (⟨0, c⟩, c.ucontext ⟨0x1000, .sigAlrm, .default, 2, 0, 0, .default⟩)
  have hdeliver : Step ⟨handling ⟨⟨2, fun _ => .default⟩, 0, .default, some 2⟩, [], false⟩
      ⟨caught, [frame], true⟩ := .deliver 0 c rfl rfl
  have hmask : SignalSet.sanitizeMask 2 = 2 := by decide
  have hreturn : Step ⟨caught, [frame], true⟩ ⟨caught, [], false⟩ :=
    .sigreturn (c := c) rfl rfl <| congrArg
      (fun mask => some (frame.1.restore frame.2, handling ⟨.new, mask, .default, none⟩)) hmask
  have hnone : caught.prepareNextSignal = (.none, caught) := by rfl
  have hrun := ((Relation.ReflTransGen.single hdeliver).tail hreturn).tail (.none rfl hnone)
  exact ⟨_, rfl, rfl, rfl, @mask_resumed _ (handling ⟨⟨2, fun _ => .default⟩, 2, .default, none⟩) 0
    _ (by decide) rfl hrun rfl rfl⟩

end Suspended

end Zinnia
