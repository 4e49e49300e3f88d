import Zinnia.Lib.Comp
import Zinnia.Memory.System

/-!
# Access to user memory

A system call runs in kernel mode, in the address space of its process. The page table also has
the pages of the kernel, which all processes share; the processor makes no difference between the
two halves. A page fault in one of the copy routines is fixed up if the handler cannot resolve it:
the routine reports failure. Addresses of neither half raise a general protection fault, and those
of the kernel are fatal.
-/

namespace Zinnia

/-- The address is of one of the two halves of the address space. -/
def isCanonical (addr : VirtAddr) : Bool :=
  isUserAddr addr || 0xFFFF800000000000#64 ≤ addr

/-- What the processor lets the kernel do through an entry, with write protection enabled. -/
def PageTableEntry.permits (e : PageTableEntry) (write : Bool) : Bool :=
  e.isPresent && (!write || e.has PageFlags.readWrite)

/-- The processor during a system call. -/
structure Machine where
  sys : System
  /-- The process that has made the call. -/
  pid : ℕ
  /-- The page table of the kernel half. -/
  kernelTable : PageTable
  /-- The object that the next private copy of a page becomes. -/
  next : ℕ
  /-- The addresses that have been read or written. -/
  accessed : List VirtAddr

/-- What the kernel does during a system call. An error stands for a panic. -/
abbrev Cpu := EStateM Unit Machine

namespace Machine

/-- The page table entry of an address. -/
def entry (m : Machine) (addr : VirtAddr) : PageTableEntry :=
  if isUserAddr addr then
    (m.sys.spaces m.pid).elim .empty (·.table (addr.toNat / pageSize))
  else m.kernelTable (addr.toNat / pageSize)

def frame (m : Machine) (addr : VirtAddr) : ℕ := idxFromAddr (m.entry addr).address

/-- The offset of an address within its page. -/
def offset (addr : VirtAddr) : Fin pageSize := ⟨addr.toNat % pageSize, Nat.mod_lt _ (by decide)⟩

/-- The byte at an address. -/
def byteAt (m : Machine) (addr : VirtAddr) : BitVec 8 := m.sys.ram.mem (m.frame addr) (offset addr)

/-- Write the byte at an address. -/
def setByte (m : Machine) (addr : VirtAddr) (byte : BitVec 8) : Machine :=
  let ram := m.sys.ram.writeByte (m.frame addr) (offset addr) byte
  let sys := { m.sys with ram }
  match if isUserAddr addr then m.sys.spaces m.pid else none with
  | some s =>
    let page := addr.toNat / pageSize
    let table := Function.update s.table page ((s.table page).touch true)
    { m with sys := sys.setSpace m.pid { s with table } }
  | none => { m with sys }

def record (m : Machine) (addr : VirtAddr) : Machine := { m with accessed := addr :: m.accessed }

/-- What the page fault handler gets to know about an access. -/
def faultInfo (m : Machine) (addr : VirtAddr) (write : Bool) : PageFaultInfo where
  ip := 0
  addr
  causedByUser := false
  causedByWrite := write
  causedByFetch := false
  pageWasPresent := (m.entry addr).isPresent

end Machine

namespace Cpu

/-- Access one byte. The instruction is restarted if the page fault has been resolved. -/
def access (addr : VirtAddr) (write : Bool) : Cpu Bool := fun m =>
  if !isCanonical addr then .error () m
  else if (m.entry addr).permits write then .ok true (m.record addr)
  else
    match m.sys.handler m.pid m.next (m.faultInfo addr write) with
    | none => .error () m
    | some (handled, sys) =>
      let m := { m with sys, next := m.next + 1 }
      if !handled then .ok false m
      else if (m.entry addr).permits write then .ok true (m.record addr)
      else .error () m

/-- Read a byte, if it can be accessed. -/
def loadByte (addr : VirtAddr) : Cpu (Option (BitVec 8)) := do
  if ← access addr false then return some ((← get).byteAt addr) else return none

/-- Write a byte, if it can be accessed. -/
def storeByte (byte : BitVec 8) (addr : VirtAddr) : Cpu (Option Unit) := do
  if ← access addr true then
    modify (·.setByte addr byte)
    return some ()
  else return none

/-- `rep movsb`, with the transfer of a single byte. It stops at a byte that cannot be accessed. -/
def repMovsb {α β : Type} (transfer : α → VirtAddr → Cpu (Option β)) :
    List α → VirtAddr → Cpu (List β × Bool)
  | [], _ => return ([], true)
  | x :: xs, addr => do
    match ← transfer x addr with
    | none => return ([], false)
    | some y =>
      let (ys, done) ← repMovsb transfer xs (addr + 1)
      return (y :: ys, done)

/-- `arch::virt::copy_from_user`. It returns what is in the destination then. -/
def copyFromUser (dest : List (BitVec 8)) (src : VirtAddr) : Cpu (List (BitVec 8) × Bool) := do
  if dest.isEmpty then return (dest, true)
  let (bytes, done) ← repMovsb (fun _ => loadByte) dest src
  return (bytes ++ dest.drop bytes.length, done)

/-- `arch::virt::copy_to_user`. -/
def copyToUser (dest : VirtAddr) (src : List (BitVec 8)) : Cpu Bool := do
  if src.isEmpty then return true
  let (_, done) ← repMovsb storeByte src dest
  return done

/-- The loop of `cstr_len_user`, with the bytes that are left and the number of the next one. -/
def cstrLoop (src : VirtAddr) : ℕ → ℕ → Cpu (Option ℕ)
  | 0, count => return some count
  | n + 1, count => do
    match ← loadByte (src + BitVec.ofNat 64 count) with
    | none => return none
    | some byte => if byte = 0 then return some count else cstrLoop src n (count + 1)

/-- `arch::virt::cstr_len_user`. -/
def cstrLenUser (src : VirtAddr) (maxLen : Usize) : Cpu (Option ℕ) :=
  if maxLen = 0 then return some 0 else cstrLoop src maxLen.toNat 0

end Cpu

open Cpu

/-- A pointer to values of `size` bytes. -/
structure UserPtr where
  addr : VirtAddr
  size : Usize

namespace UserPtr

def offset (p : UserPtr) (offset : Usize) : UserPtr := ⟨p.addr + offset * p.size, p.size⟩

def read (p : UserPtr) : Cpu (Option (List (BitVec 8))) := do
  let (buf, done) ← copyFromUser (List.replicate p.size.toNat 0) p.addr
  return if done then some buf else none

def write (p : UserPtr) (value : List (BitVec 8)) : Cpu (Option Unit) := do
  return if ← copyToUser p.addr value then some () else none

/-- The slice is given by its bytes, and comes back with what has been read. -/
def readSlice (p : UserPtr) (value : List (BitVec 8)) : Cpu (Option Unit × List (BitVec 8)) := do
  let (value, done) ← copyFromUser value p.addr
  return (if done then some () else none, value)

def writeSlice (p : UserPtr) (value : List (BitVec 8)) : Cpu (Option Unit) := do
  return if ← copyToUser p.addr value then some () else none

end UserPtr

structure UserCStr where
  addr : VirtAddr

namespace UserCStr

def isNull (s : UserCStr) : Bool := s.addr = 0

def asVec (s : UserCStr) (maxLen : Usize) : Cpu (Option (List (BitVec 8))) := do
  if s.isNull then return some []
  match ← cstrLenUser s.addr maxLen with
  | none => return none
  | some len =>
    let (buf, done) ← copyFromUser (List.replicate len 0) s.addr
    return if done then some buf else none

/-- The string with its terminator. -/
def asCstring (s : UserCStr) (maxLen : Usize) : Cpu (Option (List (BitVec 8))) := do
  return (← s.asVec maxLen).map (· ++ [0])

end UserCStr

end Zinnia
