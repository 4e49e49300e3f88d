import Zinnia.Memory.User

/-!
# Lists of buffers

An iterator over the bytes of a list of buffers. The iterator copies from and to addresses of the
user half with the routines that can fail; all other addresses it takes for buffers of the kernel.
-/

namespace Zinnia

open Cpu

/-- `uapi::uio::iovec`. -/
structure Iovec where
  base : VirtAddr
  len : Usize

structure IovecIter where
  iovecs : List Iovec
  totalLen : Usize
  totalOffset : Usize
  currentIdx : ℕ
  currentOffset : Usize

namespace IovecIter

/-- The sum of the lengths, unless it overflows. -/
def sumLen (iovecs : List Iovec) : Option Usize :=
  iovecs.foldlM (fun totalLen i => checkedAdd totalLen i.len) 0

def new (iovecs : List Iovec) : EResult IovecIter :=
  if iovecs.any fun i => i.len ≠ 0 && !isUserAddr (i.base + i.len) then .error .efault
  else
    match sumLen iovecs with
    | none => .error .einval
    | some totalLen => .ok ⟨iovecs, totalLen, 0, 0, 0⟩

def isFinished (it : IovecIter) : Bool := it.totalLen = it.totalOffset

/-- Move on within the current buffer, and to the next one at its end. -/
def advance (it : IovecIter) (current : Iovec) (count : Usize) : IovecIter :=
  let it := { it with
    totalOffset := it.totalOffset + count
    currentOffset := it.currentOffset + count }
  if it.currentOffset = current.len && !it.isFinished then
    { it with currentIdx := it.currentIdx + 1, currentOffset := 0 }
  else it

/-- The loop of `skip`. `none` stands for a panic: there is no current buffer. -/
def skipLoop : ℕ → IovecIter → Usize → Option IovecIter
  | 0, _, _ => none
  | n + 1, it, count => do
    let current ← it.iovecs[it.currentIdx]?
    let remainingCurrent := current.len - it.currentOffset
    let skipCurrent := minUsize remainingCurrent count
    let count := count - skipCurrent
    let it := it.advance current skipCurrent
    if count = 0 || it.isFinished then some it else skipLoop n it count

/-- Every round but the last one takes the iterator to the next buffer. -/
def skip (it : IovecIter) (count : Usize) : Option (Usize × IovecIter) := do
  let it ← skipLoop (it.iovecs.length + 1) it count
  some (it.totalLen - it.totalOffset, it)

def setOffset (it : IovecIter) (offset : Usize) : Option (Usize × IovecIter) :=
  skip { it with currentIdx := 0, currentOffset := 0, totalOffset := 0 } offset

end IovecIter

namespace Cpu

/-- Continue with the value, if there is one. -/
def unwrap {α : Type} : Option α → Cpu α
  | some a => return a
  | none => throw ()

/-- A copy between two buffers of the kernel. There is no fixup for page faults. -/
def rawCopy {α β : Type} (transfer : α → VirtAddr → Cpu (Option β)) (xs : List α)
    (addr : VirtAddr) : Cpu (List β) := do
  let (ys, done) ← repMovsb transfer xs addr
  if done then return ys else throw ()

/-- `for b in 0..count` with a call of `copy_to_user` for each byte. -/
def fillUser (value : BitVec 8) : ℕ → VirtAddr → Cpu Bool
  | 0, _ => return true
  | n + 1, addr => do
    if ← copyToUser addr [value] then fillUser value n (addr + 1) else return false

/-- `slice[start..][..count]`. -/
def subslice (slice : List (BitVec 8)) (start count : ℕ) : Cpu (List (BitVec 8)) :=
  if start + count ≤ slice.length then return (slice.drop start).take count else throw ()

end Cpu

namespace IovecIter

/-- What `fill` does with a part of a buffer. -/
def fillPart (value : BitVec 8) (addr : VirtAddr) (_done count : ℕ) :
    Cpu (List (BitVec 8) × Bool) := do
  if isUserAddr addr then return ([], ← fillUser value count addr)
  else
    let _ ← rawCopy storeByte (List.replicate count value) addr
    return ([], true)

/-- What `copy_from_slice` does with a part of a buffer. -/
def copyFromPart (slice : List (BitVec 8)) (addr : VirtAddr) (done count : ℕ) :
    Cpu (List (BitVec 8) × Bool) := do
  let src ← subslice slice done count
  if isUserAddr addr then return ([], ← copyToUser addr src)
  else
    let _ ← rawCopy storeByte src addr
    return ([], true)

/-- What `copy_to_slice` does with a part of a buffer. It returns what has been read. -/
def copyToPart (slice : List (BitVec 8)) (addr : VirtAddr) (done count : ℕ) :
    Cpu (List (BitVec 8) × Bool) := do
  let dest ← subslice slice done count
  if isUserAddr addr then copyFromUser dest addr
  else return (← rawCopy (fun _ => loadByte) dest addr, true)

/-- The loop of `fill`, `copy_from_slice` and `copy_to_slice`, which differ in what they do with a
part of a buffer. The offset is restored if that fails. -/
def transferLoop (part : VirtAddr → ℕ → ℕ → Cpu (List (BitVec 8) × Bool)) (oldOffset : Usize) :
    ℕ → IovecIter → Usize → Usize → List (BitVec 8) →
      Cpu (EResult Usize × IovecIter × List (BitVec 8))
  | 0, _, _, _, _ => throw ()
  | n + 1, it, remainingTotal, totalDone, bytes => do
    let (_, it) ← unwrap (it.skip 0)
    let current ← unwrap it.iovecs[it.currentIdx]?
    let remainingCurrent := current.len - it.currentOffset
    let copyCurrent := minUsize remainingCurrent remainingTotal
    let addr := current.base + it.currentOffset
    let (more, ok) ← part addr totalDone.toNat copyCurrent.toNat
    if !ok then
      let (_, it) ← unwrap (it.setOffset oldOffset)
      return (.error .efault, it, bytes ++ more)
    let (_, it) ← unwrap (it.skip copyCurrent)
    let totalDone := totalDone + copyCurrent
    let remainingTotal := remainingTotal - copyCurrent
    if it.isFinished || remainingTotal = 0 then return (.ok totalDone, it, bytes ++ more)
    else transferLoop part oldOffset n it remainingTotal totalDone (bytes ++ more)

/-- Every round but the last one takes the iterator to the next buffer. -/
def transfer (it : IovecIter) (part : VirtAddr → ℕ → ℕ → Cpu (List (BitVec 8) × Bool))
    (remainingTotal : Usize) : Cpu (EResult Usize × IovecIter × List (BitVec 8)) :=
  transferLoop part it.totalOffset (it.iovecs.length + 1) it remainingTotal 0 []

def fill (it : IovecIter) (value : BitVec 8) : Cpu (EResult Unit × IovecIter) := do
  let (res, it, _) ← it.transfer (fillPart value) (it.totalLen - it.totalOffset)
  return (res.map fun _ => (), it)

/-- The length of a slice, as far as there are bytes left. -/
def remaining (it : IovecIter) (slice : List (BitVec 8)) : Usize :=
  minUsize (BitVec.ofNat 64 slice.length) (it.totalLen - it.totalOffset)

def copyFromSlice (it : IovecIter) (slice : List (BitVec 8)) :
    Cpu (EResult Usize × IovecIter) := do
  let (res, it, _) ← it.transfer (copyFromPart slice) (it.remaining slice)
  return (res, it)

/-- The slice comes back with what has been read. -/
def copyToSlice (it : IovecIter) (slice : List (BitVec 8)) :
    Cpu (EResult Usize × IovecIter × List (BitVec 8)) := do
  let (res, it, bytes) ← it.transfer (copyToPart slice) (it.remaining slice)
  return (res, it, bytes ++ slice.drop bytes.length)

end IovecIter

end Zinnia
