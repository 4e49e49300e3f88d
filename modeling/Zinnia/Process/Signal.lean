import Zinnia.Arch.Virt

/-!
# Signals

The signal state of a thread: its own queue and mask, and the queue and the actions that it shares
with the other threads of its process.
-/

namespace Zinnia

inductive Signal where
  | sigAbrt | sigAlrm | sigBus | sigChld | sigCont | sigFpe | sigHup | sigIll | sigInt | sigKill
  | sigPipe | sigQuit | sigSegv | sigStop | sigTerm | sigTstp | sigTtin | sigTtou | sigUsr1
  | sigUsr2 | sigWinch | sigSys | sigTrap | sigUrg | sigVtAlarm | sigXCpu | sigXFsz | sigIo
  | sigPoll | sigProf | sigPwr | sigIot | sigCancel
deriving DecidableEq

inductive DefaultAction where
  | terminate
  | coreDump
  | stop
  | cont
  | ignore
deriving DecidableEq

namespace Signal

/-- All signals, in the order of their numbers. -/
def all : List Signal :=
  [sigAbrt, sigAlrm, sigBus, sigChld, sigCont, sigFpe, sigHup, sigIll, sigInt, sigKill, sigPipe,
    sigQuit, sigSegv, sigStop, sigTerm, sigTstp, sigTtin, sigTtou, sigUsr1, sigUsr2, sigWinch,
    sigSys, sigTrap, sigUrg, sigVtAlarm, sigXCpu, sigXFsz, sigIo, sigPoll, sigProf, sigPwr,
    sigIot, sigCancel]

/-- The number of a signal less one, which is its place in a set. -/
def bit (sig : Signal) : ℕ := all.idxOf sig

/-- `Signal::try_from`, for the number that belongs to a bit. -/
def ofBit (bit : ℕ) : Option Signal := all[bit]?

def defaultAction : Signal → DefaultAction
  | sigHup | sigInt | sigPipe | sigAlrm | sigTerm | sigUsr1 | sigUsr2 | sigProf | sigVtAlarm
  | sigIo | sigPoll | sigPwr => .terminate
  | sigQuit | sigAbrt | sigBus | sigFpe | sigIll | sigSegv | sigSys | sigTrap | sigXCpu | sigXFsz
  | sigIot => .coreDump
  | sigStop | sigTstp | sigTtin | sigTtou => .stop
  | sigCont => .cont
  | sigChld | sigUrg | sigWinch => .ignore
  | sigKill | sigCancel => .terminate

def isUncatchable (sig : Signal) : Bool := sig = sigKill || sig = sigStop

end Signal

/-- A set of signals. -/
abbrev SignalSet := BitVec 64

namespace SignalSet

def bit (sig : Signal) : SignalSet := (1 : BitVec 64) <<< sig.bit

def set (s : SignalSet) (sig : Signal) (state : Bool) : SignalSet :=
  if state then s ||| bit sig else s &&& ~~~(bit sig)

def isSet (s : SignalSet) (sig : Signal) : Bool := s &&& bit sig ≠ 0

/-- The lowest signal of the set. -/
def firstSet (s : SignalSet) : Option Signal := do
  let bit ← (List.range 64).find? (s.getLsbD ·)
  Signal.ofBit bit

/-- Signals that can never be blocked. -/
def unblockable : SignalSet := set (set 0 .sigKill true) .sigStop true

def sanitizeMask (s : SignalSet) : SignalSet := s &&& ~~~unblockable

end SignalSet

inductive Disposition where
  | default
  | ignore
  | handler (addr : Usize)
deriving DecidableEq

def Disposition.fromUser (handler : Usize) : Disposition :=
  if handler = 0 then .default else if handler = 1 then .ignore else .handler handler

/-- `SaFlags`, with the bits that have no meaning. -/
abbrev SaFlags := BitVec 32

namespace SaFlags

def onStack : SaFlags := 1 <<< 1

def resetHand : SaFlags := 1 <<< 2

def restart : SaFlags := 1 <<< 3

def noDefer : SaFlags := 1 <<< 6

def contains (flags mask : SaFlags) : Bool := flags &&& mask = mask

end SaFlags

structure SigAction where
  disposition : Disposition
  mask : SignalSet
  flags : SaFlags
  restorer : Usize
deriving DecidableEq

/-- `uapi::signal::sigaction`. -/
structure UserSigaction where
  saHandler : Usize
  saFlags : BitVec 64
  saRestorer : Usize
  saMask : BitVec 64

namespace SigAction

def default : SigAction := ⟨.default, 0, 0, 0⟩

def ignores (a : SigAction) (sig : Signal) : Bool :=
  a.disposition = .ignore || a.disposition = .default && sig.defaultAction = .ignore

def fromUser (u : UserSigaction) : SigAction :=
  ⟨.fromUser u.saHandler, u.saMask, u.saFlags.setWidth 32, u.saRestorer⟩

end SigAction

structure SigInfoData where
  code : BitVec 32
  errno : BitVec 32
  pid : BitVec 32
  uid : BitVec 32
  addr : Usize
  status : BitVec 32
  value : Usize

/-- `SigInfoData::default`. -/
def SigInfoData.default : SigInfoData := ⟨0, 0, 0, 0, 0, 0, 0⟩

structure AltStack where
  sp : Usize
  size : Usize
  disabled : Bool

namespace AltStack

def default : AltStack := ⟨0, 0, true⟩

def isEnabled (a : AltStack) : Bool := !a.disabled && a.size ≠ 0

def contains (a : AltStack) (sp : Usize) : Bool :=
  a.isEnabled && a.sp < sp && sp - a.sp ≤ a.size

def ssFlags (a : AltStack) (sp : Usize) : BitVec 32 :=
  if a.contains sp then 1 else if !a.isEnabled then 2 else 0

end AltStack

structure SignalDelivery where
  handler : Usize
  signal : Signal
  info : SigInfoData
  oldMask : SignalSet
  flags : SaFlags
  restorer : Usize
  altstack : AltStack

structure SigQueue where
  pending : SignalSet
  info : Signal → SigInfoData

namespace SigQueue

def new : SigQueue := ⟨0, fun _ => .default⟩

def queue (q : SigQueue) (sig : Signal) (info : SigInfoData) : SigQueue :=
  if q.pending.isSet sig then q
  else ⟨q.pending.set sig true, Function.update q.info sig info⟩

def dequeue (q : SigQueue) (allowed : SignalSet) : Option (Signal × SigInfoData × SigQueue) := do
  let sig ← SignalSet.firstSet (q.pending &&& allowed)
  some (sig, q.info sig, { q with pending := q.pending.set sig false })

def discard (q : SigQueue) (sig : Signal) : SigQueue :=
  { q with pending := q.pending.set sig false }

end SigQueue

structure ThreadSignalState where
  queue : SigQueue
  mask : SignalSet
  altstack : AltStack
  /-- Mask to restore once the next signal is delivered. -/
  restoreMask : Option SignalSet

namespace ThreadSignalState

/-- `ThreadSignalState::default`. -/
def default : ThreadSignalState := ⟨.new, 0, .default, none⟩

/-- What `sigprocmask` makes of the mask, for the three values of `how`. -/
def changeMask (mask newSet : SignalSet) (how : BitVec 32) : SignalSet :=
  if how = 1 then mask ||| newSet else if how = 2 then mask &&& ~~~newSet else newSet

/-- The system call `sigprocmask`. The set is `some none` if it cannot be read; `old` tells whether
the old mask can be written. -/
def sigprocmask (t : ThreadSignalState) (how : Usize) (set : Option (Option SignalSet))
    (old : Bool) : EResult Usize × ThreadSignalState :=
  let how := how.setWidth 32
  if set.isSome ∧ ¬ (1 ≤ how ∧ how ≤ 3) then (.error .einval, t)
  else
    match set with
    | some none => (.error .efault, t)
    | none => if old then (.ok 0, t) else (.error .efault, t)
    | some (some newSet) =>
      let newSet := newSet.sanitizeMask
      if old then
        (.ok 0, { t with mask := SignalSet.sanitizeMask (changeMask t.mask newSet how) })
      else (.error .efault, t)

/-- The mask that `sigsuspend`, `ppoll` and `epoll_pwait` set for the time of the wait. It is `none`
if it cannot be read. -/
def setTemporaryMask (t : ThreadSignalState) : Option SignalSet → EResult ThreadSignalState
  | none => .error .efault
  | some newMask => .ok { t with mask := newMask.sanitizeMask, restoreMask := some t.mask }

end ThreadSignalState

/-- `SignalState::reset_on_exec`. -/
def resetOnExec (actions : Signal → SigAction) (sig : Signal) : SigAction :=
  if (actions sig).disposition = .ignore then actions sig else .default

/-- What a thread delivers signals from. -/
structure SignalTask where
  thread : ThreadSignalState
  sharedPending : SigQueue
  actions : Signal → SigAction

namespace SignalTask

def setAction (t : SignalTask) (sig : Signal) (a : SigAction) : SignalTask :=
  { t with actions := Function.update t.actions sig a }

/-- `flush_if_ignored`. -/
def flushIfIgnored (t : SignalTask) (sig : Signal) (a : SigAction) : SignalTask :=
  if a.ignores sig then
    { t with
      thread := { t.thread with queue := t.thread.queue.discard sig }
      sharedPending := t.sharedPending.discard sig }
  else t

/-- The system call `sigaction`. The new action is `some none` if it cannot be read; `oact` tells
whether the old one can be written. -/
def sigaction (t : SignalTask) (sig : Option Signal) (act : Option (Option UserSigaction))
    (oact : Bool) : EResult Usize × SignalTask :=
  match sig with
  | none => (.error .einval, t)
  | some sig =>
    if sig.isUncatchable then (.error .einval, t)
    else
      match act with
      | some none => (.error .efault, t)
      | none => if oact then (.ok 0, t) else (.error .efault, t)
      | some (some u) =>
        if oact then
          let action := SigAction.fromUser u
          (.ok 0, (t.setAction sig action).flushIfIgnored sig action)
        else (.error .efault, t)

/-- `force_signal_to_thread`. -/
def forceSignal (t : SignalTask) (sig : Signal) (info : SigInfoData) : SignalTask :=
  let blocked := t.thread.mask.isSet sig
  let t := if (t.actions sig).disposition = .ignore ∨ blocked then t.setAction sig .default else t
  { t with
    thread := { t.thread with
      mask := t.thread.mask.set sig false
      queue := t.thread.queue.queue sig info } }

/-! ### Delivery -/

inductive SignalDecision where
  | fatal (sig : Signal)
  | retry
  | none
  | deliver (delivery : SignalDelivery)

/-- Dequeue the lowest deliverable signal: thread queue first, then shared. -/
def dequeueNext (t : SignalTask) : Option (Signal × SigInfoData × SignalTask) :=
  let unblocked := ~~~t.thread.mask
  match t.thread.queue.dequeue unblocked with
  | some (sig, info, queue) => some (sig, info, { t with thread := { t.thread with queue } })
  | none =>
    (t.sharedPending.dequeue unblocked).map fun (sig, info, sharedPending) =>
      (sig, info, { t with sharedPending })

/-- The mask for the handler, and the one that is restored after it. -/
def enterHandler (t : SignalTask) (sig : Signal) (a : SigAction) : SignalSet × SignalTask :=
  let oldMask := t.thread.restoreMask.getD t.thread.mask
  let mask := if a.flags.contains SaFlags.noDefer then t.thread.mask else t.thread.mask.set sig true
  let mask := SignalSet.sanitizeMask (mask ||| a.mask)
  (oldMask, { t with thread := { t.thread with mask, restoreMask := .none } })

/-- What is done with a signal that has been taken from a queue. A process that is stopped waits
until it is continued, and then looks for the next signal. -/
def dispatch (t : SignalTask) (sig : Signal) (info : SigInfoData) : SignalDecision × SignalTask :=
  let a := t.actions sig
  match a.disposition with
  | .ignore => (.retry, t)
  | .default =>
    match sig.defaultAction with
    | .ignore | .cont => (.retry, t)
    | .terminate | .coreDump => (.fatal sig, t)
    | .stop => (.retry, t)
  | .handler handler =>
    let t := if a.flags.contains SaFlags.resetHand then t.setAction sig .default else t
    let (oldMask, t) := t.enterHandler sig a
    (.deliver ⟨handler, sig, info, oldMask, a.flags, a.restorer, t.thread.altstack⟩, t)

/-- `prepare_next_signal`. -/
def prepareNextSignal (t : SignalTask) : SignalDecision × SignalTask :=
  match t.dequeueNext with
  | some (sig, info, t) => t.dispatch sig info
  | none =>
    match t.thread.restoreMask with
    | some mask => (.retry, { t with thread := { t.thread with mask, restoreMask := .none } })
    | none => (.none, t)

/-- The loop of `deliver_pending_signals`, up to its decision. -/
def decisionLoop (t : SignalTask) : ℕ → Option (SignalDecision × SignalTask)
  | 0 => none
  | n + 1 =>
    match t.prepareNextSignal with
    | (.retry, t) => decisionLoop t n
    | (decision, t) => some (decision, t)

/-- Every round but the last takes a signal from one of the queues, or restores the mask. -/
def nextDecision (t : SignalTask) : Option (SignalDecision × SignalTask) := t.decisionLoop 130

end SignalTask

end Zinnia
