import Mathlib.Data.Fin.VecNotation
import Zinnia.Process.Signal

/-!
# User contexts and signal frames on x86_64
-/

namespace Zinnia

/-- The registers of a thread that has entered the kernel. -/
structure Context where
  r15 : BitVec 64
  r14 : BitVec 64
  r13 : BitVec 64
  r12 : BitVec 64
  r11 : BitVec 64
  r10 : BitVec 64
  r9 : BitVec 64
  r8 : BitVec 64
  rsi : BitVec 64
  rdi : BitVec 64
  rbp : BitVec 64
  rdx : BitVec 64
  rcx : BitVec 64
  rbx : BitVec 64
  rax : BitVec 64
  isr : BitVec 64
  error : BitVec 64
  rip : BitVec 64
  cs : BitVec 64
  rflags : BitVec 64
  rsp : BitVec 64
  ss : BitVec 64

/-- `offset_of!(Gdt, user_code64) | CPL_USER`. -/
def userCode64 : BitVec 64 := 0x38 ||| 3

/-- `offset_of!(Gdt, user_data) | CPL_USER`. -/
def userData : BitVec 64 := 0x30 ||| 3

namespace RFlags

def interrupt : BitVec 64 := 1 <<< 9

def direction : BitVec 64 := 1 <<< 10

def ioPrivilege : BitVec 64 := 3 <<< 12

end RFlags

structure SyscallRestart where
  nr : Usize
  arg2 : Usize

namespace Context

def syscallError (c : Context) : Usize := c.rdx

def setReturn (c : Context) (val err : Usize) : Context := { c with rax := val, rdx := err }

def snapshotSyscall (c : Context) : SyscallRestart := ⟨c.rax, c.rdx⟩

/-- The instruction `syscall` has two bytes. -/
def restartSyscall (c : Context) (restart : SyscallRestart) : Context :=
  { c with rip := c.rip - 2, rax := restart.nr, rdx := restart.arg2 }

end Context

/-- `uapi::errno::EINTR`. -/
def eintr : Usize := 4

/-- `uapi::errno::ERESTART`. -/
def erestart : Usize := 85

structure UserStack where
  ssSp : BitVec 64
  ssSize : BitVec 64
  ssFlags : BitVec 32

/-- The part of `Mcontext` that is not always zero. -/
structure Mcontext where
  oldmask : BitVec 64
  gregs : Fin 16 → BitVec 64
  pc : BitVec 64

structure Ucontext where
  ucLink : BitVec 64
  ucStack : UserStack
  ucMcontext : Mcontext
  ucSigmask : BitVec 64

/-- Saved state for `sigreturn`. -/
structure SignalFrame where
  ucAddr : BitVec 64
  savedContext : Context

/-- What is written to the stack of a thread when a signal is delivered. -/
inductive StackItem where
  | siginfo (info : SigInfoData) (signal : Signal)
  | ucontext (uc : Ucontext)
  | frame (frame : SignalFrame)
  | word (value : BitVec 64)

/-- The size in bytes. -/
def StackItem.size : StackItem → ℕ
  | siginfo _ _ => 48
  | ucontext _ => 496
  | frame _ => 184
  | word _ => 8

/-- `usize::checked_sub`. -/
def checkedSub (a b : Usize) : Option Usize := if b ≤ a then some (a - b) else none

/-- Align the stack to 16 bytes. -/
def alignStack (x : Usize) : Usize := x &&& ~~~0xF

/-- The addresses of the information on the signal, the user context, the signal frame and the
return address. -/
structure FrameAddresses where
  infoAddr : Usize
  ucAddr : Usize
  sfAddr : Usize
  retAddr : Usize

/-- The stack that the handler is to use. -/
def frameBase (c : Context) (d : SignalDelivery) : Option Usize :=
  let onAltstack := d.altstack.contains c.rsp
  let useAltstack := d.flags.contains SaFlags.onStack && d.altstack.isEnabled && !onAltstack
  if useAltstack then checkedAdd d.altstack.sp d.altstack.size else checkedSub c.rsp 128

def frameAddresses (base : Usize) : Option FrameAddresses := do
  let infoAddr := alignStack (← checkedSub base 48)
  let ucAddr := alignStack (← checkedSub infoAddr 496)
  let sfAddr := alignStack (← checkedSub ucAddr 184)
  let retAddr ← checkedSub sfAddr 8
  some ⟨infoAddr, ucAddr, sfAddr, retAddr⟩

/-- The user context that a handler can change. -/
def Context.ucontext (c : Context) (d : SignalDelivery) : Ucontext where
  ucLink := 0
  ucStack := ⟨d.altstack.sp, d.altstack.size, d.altstack.ssFlags c.rsp⟩
  ucMcontext :=
    { oldmask := d.oldMask
      gregs := ![c.rax, c.rbx, c.rcx, c.rdx, c.rsi, c.rdi, c.rbp, c.rsp, c.r8, c.r9, c.r10, c.r11,
        c.r12, c.r13, c.r14, c.r15]
      pc := c.rip }
  ucSigmask := d.oldMask

/-- What is written to the stack, and where. -/
def stackItems (c : Context) (d : SignalDelivery) (a : FrameAddresses) : List (Usize × StackItem) :=
  [(a.infoAddr, .siginfo d.info d.signal), (a.ucAddr, .ucontext (c.ucontext d)),
    (a.sfAddr, .frame ⟨a.ucAddr, c⟩), (a.retAddr, .word d.restorer)]

/-- `setup_signal_frame`, with what can be written to the stack. `none` stands for the end of the
process. -/
def setupSignalFrame (writes : Usize → StackItem → Bool) (c : Context) (d : SignalDelivery) :
    Option Context := do
  let base ← frameBase c d
  let a ← frameAddresses base
  if (stackItems c d a).all fun (addr, item) => writes addr item then
    some { c with
      rip := d.handler
      rdi := BitVec.ofNat 64 (d.signal.bit + 1)
      rsi := a.infoAddr
      rdx := a.ucAddr
      rsp := a.retAddr
      rflags := c.rflags &&& ~~~RFlags.direction }
  else none

/-- The context that `restore_signal_frame` returns to. -/
def SignalFrame.restore (frame : SignalFrame) (uc : Ucontext) : Context :=
  let gregs := uc.ucMcontext.gregs
  { frame.savedContext with
    rax := gregs 0, rbx := gregs 1, rcx := gregs 2, rdx := gregs 3, rsi := gregs 4,
    rdi := gregs 5, rbp := gregs 6, rsp := gregs 7, r8 := gregs 8, r9 := gregs 9,
    r10 := gregs 10, r11 := gregs 11, r12 := gregs 12, r13 := gregs 13, r14 := gregs 14,
    r15 := gregs 15
    rip := uc.ucMcontext.pc
    cs := userCode64
    ss := userData
    rflags := (frame.savedContext.rflags &&& 0xDD5) ||| 0x202 }

/-- `restore_signal_frame`, with what can be read from the stack. -/
def restoreSignalFrame (readFrame : Usize → Option SignalFrame)
    (readUcontext : Usize → Option Ucontext) (c : Context) (t : SignalTask) :
    Option (Context × SignalTask) := do
  let frame ← readFrame c.rsp
  let uc ← readUcontext frame.ucAddr
  let mask := SignalSet.sanitizeMask uc.ucSigmask
  some (frame.restore uc, { t with thread := { t.thread with mask, restoreMask := none } })

/-- `deliver_pending_signals`. `none` stands for the end of the process. -/
def deliverPendingSignals (writes : Usize → StackItem → Bool) (c : Context)
    (syscall : Option SyscallRestart) (t : SignalTask) : Option (Context × SignalTask) := do
  let restart := syscall.filter fun _ => c.syscallError = erestart
  match ← t.nextDecision with
  | (.none, t) => some (restart.elim c c.restartSyscall, t)
  | (.deliver d, t) =>
    let c := restart.elim c fun sc =>
      if d.flags.contains SaFlags.restart then c.restartSyscall sc else c.setReturn 0 eintr
    (setupSignalFrame writes c d).map (·, t)
  | _ => none

/-! ### System calls -/

/-- The return value of a system call. -/
def Context.setResult (c : Context) : EResult Usize → Context
  | .ok val => c.setReturn val 0
  | .error e => c.setReturn 0 e.number

/-- The system calls that matter for signals. Of the others it only matters what they return and
what signal state they leave. -/
inductive SignalCall where
  | sigaction (sig : Option Signal) (act : Option (Option UserSigaction)) (oact : Bool)
  | sigreturn (readFrame : Usize → Option SignalFrame) (readUcontext : Usize → Option Ucontext)
  | other (val err : Usize) (task : SignalTask)

/-- A thread in user mode. -/
structure UserThread where
  context : Context
  task : SignalTask

/-- `syscall_handler`, up to the return to user mode; and `sigreturn`, which does not return
there. -/
def syscallHandler (writes : Usize → StackItem → Bool) (frame : Context) (t : SignalTask) :
    SignalCall → Option UserThread
  | .sigaction sig act oact =>
    let (res, t) := t.sigaction sig act oact
    (deliverPendingSignals writes (frame.setResult res) (some frame.snapshotSyscall) t).map
      fun (c, t) => ⟨c, t⟩
  | .sigreturn readFrame readUcontext => do
    let (c, t) ← restoreSignalFrame readFrame readUcontext frame t
    let (c, t) ← deliverPendingSignals writes c none t
    some ⟨c, t⟩
  | .other val err t =>
    (deliverPendingSignals writes (frame.setReturn val err) (some frame.snapshotSyscall) t).map
      fun (c, t) => ⟨c, t⟩

end Zinnia
