import Zinnia.Memory.Cache
import Zinnia.Syscall.Memory

/-!
# Physical memory, memory objects and address spaces

The memory of the whole kernel. Memory objects own frames; address spaces map pages of objects
and have page table entries for frames. The handler of page faults holds the lock on an address
space only at its beginning and at its end, so that a fault is handled in three steps, and any
other step can come in between.

A function returns `none` where the kernel would panic, or for a process, an object or a fault
that does not exist.
-/

namespace Zinnia

open Function

/-- A memory object: a page cache, or a buffer of a graphics card. -/
inductive MemObject where
  | paged (cache : PagedObject)
  | buffer (addr : PhysAddr) (size : Usize)

namespace MemObject

/-- The frame of a page that an object has. -/
def frame : MemObject → ℕ → Option PhysAddr
  | paged cache, pageIndex => cache.frame pageIndex
  | buffer addr size, pageIndex =>
    let offset := pageIndex * pageSize
    if offset < size.toNat then some (addr + BitVec.ofNat 64 offset) else none

/-- The bytes of a page that an object does not have yet. -/
def initial : MemObject → ℕ → PageData
  | paged cache, pageIndex => cache.source.data pageIndex
  | buffer _ _, _ => fun _ => 0

/-- `MemoryObject::try_get_page`. -/
def tryGetPage (m : MemObject) (pageIndex : ℕ) (r : Ram) :
    Option (EResult (Option PhysAddr) × MemObject × Ram) :=
  match m with
  | paged cache => (cache.tryGetPage pageIndex r).map fun res => (res.1, .paged res.2.1, res.2.2)
  | buffer _ _ => some (.ok (m.frame pageIndex), m, r)

/-- The number of pages of a buffer. -/
def bufferPages (size : Usize) : ℕ := (size.toNat + (pageSize - 1)) / pageSize

/-- `Drop::drop`. -/
def drop (m : MemObject) (r : Ram) : Option Ram :=
  match m with
  | paged cache => r.deallocAll cache.frames
  | buffer addr size => (r.pmm.deallocInner addr (bufferPages size)).map fun pmm => { r with pmm }

end MemObject

/-- A page fault that is being handled: the mapping has been resolved, and once the page is there,
the private copy that was made of it and the frame to install. -/
structure Fault where
  pid : ℕ
  info : PageFaultInfo
  resolved : ResolvedFault ObjectRef
  paged : Option (Option ObjectRef × PhysAddr)

structure System where
  ram : Ram
  objects : ℕ → Option MemObject
  /-- The address spaces of the processes. -/
  spaces : ℕ → Option (AddressSpace ObjectRef)
  faults : ℕ → Option Fault
  /-- The allocations of the rest of the kernel. -/
  kernel : ℕ → Option (PhysAddr × Usize)

namespace System

/-- The system after `pmm::init`. -/
def boot (pmm : Pmm) (mem : ℕ → PageData) : System :=
  ⟨⟨pmm, mem⟩, fun _ => none, fun _ => none, fun _ => none, fun _ => none⟩

def setSpace (sys : System) (pid : ℕ) (s : AddressSpace ObjectRef) : System :=
  { sys with spaces := update sys.spaces pid (some s) }

lemma spaces_setSpace (sys : System) (pid : ℕ) (s : AddressSpace ObjectRef) (pid' : ℕ) :
    (sys.setSpace pid s).spaces pid' = if pid' = pid then some s else sys.spaces pid' :=
  update_apply _ _ _ _

def setObject (sys : System) (o : ℕ) (m : MemObject) : System :=
  { sys with objects := update sys.objects o (some m) }

lemma objects_setObject (sys : System) (o : ℕ) (m : MemObject) (o' : ℕ) :
    (sys.setObject o m).objects o' = if o' = o then some m else sys.objects o' :=
  update_apply _ _ _ _

def removeObject (sys : System) (o : ℕ) : System :=
  { sys with objects := update sys.objects o none }

lemma objects_removeObject (sys : System) (o o' : ℕ) :
    (sys.removeObject o).objects o' = if o' = o then none else sys.objects o' :=
  update_apply _ _ _ _

def setKernel (sys : System) (n : ℕ) (e : Option (PhysAddr × Usize)) : System :=
  { sys with kernel := update sys.kernel n e }

def setFault (sys : System) (n : ℕ) (f : Option Fault) : System :=
  { sys with faults := update sys.faults n f }

lemma faults_setFault (sys : System) (n : ℕ) (f : Option Fault) (n' : ℕ) :
    (sys.setFault n f).faults n' = if n' = n then f else sys.faults n' :=
  update_apply _ _ _ _

/-- The frame of a page of an object. -/
def frame (sys : System) (o pageIndex : ℕ) : Option PhysAddr :=
  (sys.objects o).bind (·.frame pageIndex)

/-! ### Memory objects -/

def tryGetPage (sys : System) (o pageIndex : ℕ) :
    Option (EResult (Option PhysAddr) × System) := do
  let m ← sys.objects o
  let (res, m, ram) ← m.tryGetPage pageIndex sys.ram
  some (res, setObject { sys with ram } o m)

/-- The loop of `MemoryObject::copy`. -/
def copyFrom (target targetOffset src srcOffset len : ℕ) :
    ℕ → ℕ → System → Option (EResult ℕ × System)
  | 0, _, _ => none
  | fuel + 1, progress, sys =>
    if progress < len then do
      let targetPos := (progress + targetOffset) % 2 ^ 64
      let srcPos := (progress + srcOffset) % 2 ^ 64
      let copySize := min (min (pageSize - targetPos % pageSize) (pageSize - srcPos % pageSize))
        (len - progress)
      match ← sys.tryGetPage target (targetPos / pageSize) with
      | (.error e, sys) => some (.error e, sys)
      | (.ok none, sys) => some (.ok progress, sys)
      | (.ok (some targetPage), sys) =>
        match ← sys.tryGetPage src (srcPos / pageSize) with
        | (.error e, sys) => some (.error e, sys)
        | (.ok none, sys) => some (.ok progress, sys)
        | (.ok (some srcPage), sys) =>
          let ram := sys.ram.copyBytes targetPage (targetPos % pageSize) srcPage
            (srcPos % pageSize) copySize
          copyFrom target targetOffset src srcOffset len fuel (progress + copySize)
            { sys with ram }
    else some (.ok progress, sys)

/-- `MemoryObject::copy`. Every round copies at least one byte. -/
def copy (sys : System) (target targetOffset src srcOffset len : ℕ) :
    Option (EResult ℕ × System) :=
  copyFrom target targetOffset src srcOffset len (len + 1) 0 sys

/-- A new object without pages, for a file or for anonymous memory. -/
def newObject (sys : System) (o : ℕ) (source : Pager) : System :=
  sys.setObject o (.paged (.new source))

/-- A new buffer of a graphics card. -/
def newBuffer (sys : System) (o : ℕ) (size : Usize) : Option (EResult Unit × System) := do
  match ← sys.ram.allocPages (BitVec.ofNat 64 (MemObject.bufferPages size)) {} with
  | (.error _, ram) => some (.error .enomem, { sys with ram })
  | (.ok addr, ram) => some (.ok (), setObject { sys with ram } o (.buffer addr size))

/-- `PagedMemoryObject::truncate`. -/
def truncate (sys : System) (o length : ℕ) : Option System := do
  match ← sys.objects o with
  | .buffer _ _ => none
  | .paged cache =>
    let (cache, ram) ← cache.truncate length sys.ram
    some (setObject { sys with ram } o (.paged cache))

/-- The last reference to an object goes away. -/
def dropObject (sys : System) (o : ℕ) : Option System := do
  let m ← sys.objects o
  let ram ← m.drop sys.ram
  some (removeObject { sys with ram } o)

/-! ### The rest of the kernel -/

def kernelAlloc (sys : System) (n : ℕ) (pages : Usize) (flags : AllocFlags) : Option System := do
  match ← sys.ram.allocPages pages flags with
  | (.error _, ram) => some { sys with ram }
  | (.ok addr, ram) => some (setKernel { sys with ram } n (some (addr, pages)))

def kernelDealloc (sys : System) (n : ℕ) : Option System := do
  let (addr, pages) ← sys.kernel n
  let pmm ← sys.ram.pmm.deallocInner addr pages.toNat
  some (setKernel { sys with ram := ⟨pmm, sys.ram.mem⟩ } n none)

/-! ### Processes -/

/-- A system call of a process on its address space. -/
def call {α : Type} (sys : System) (pid : ℕ)
    (f : AddressSpace ObjectRef → Option (α × AddressSpace ObjectRef)) : Option (α × System) := do
  let s ← sys.spaces pid
  let (res, s) ← f s
  some (res, sys.setSpace pid s)

def mmap (sys : System) (pid new : ℕ) (openFiles : BitVec 32 → Option (OpenFile ObjectRef))
    (addr : VirtAddr) (length : Usize) (prot flags fd : BitVec 32) (offset : BitVec 64) :
    Option (EResult VirtAddr × System) := do
  let (res, sys) ← sys.call pid (·.mmap openFiles ⟨new, .normal⟩ addr length prot flags fd offset)
  -- an anonymous mapping has an object of its own
  some (res, if (MmapFlags.ofBits flags).anonymous then sys.newObject new physPager else sys)

def mprotect (sys : System) (pid : ℕ) (addr : VirtAddr) (size : Usize) (prot : BitVec 32) :
    Option (EResult Usize × System) :=
  sys.call pid (·.mprotect addr size prot)

def munmap (sys : System) (pid : ℕ) (addr : VirtAddr) (size : Usize) :
    Option (EResult Usize × System) :=
  sys.call pid (·.munmap addr size)

/-- `Process::fork`. -/
def fork (sys : System) (pid child : ℕ) : Option System := do
  let s ← sys.spaces pid
  some ((sys.setSpace pid s.fork.1).setSpace child s.fork.2)

/-- `Process::exit`. The faults that the other threads are handling are abandoned. -/
def exit (sys : System) (pid : ℕ) : System :=
  { sys with
    spaces := update sys.spaces pid none
    faults := fun n => (sys.faults n).filter (·.pid ≠ pid) }

/-! ### Page faults -/

/-- Make a private copy of the source page. -/
def privateCopy (sys : System) (new : ℕ) (resolved : ResolvedFault ObjectRef) :
    Option (Option (Option ObjectRef × PhysAddr) × System) := do
  match ← (sys.newObject new physPager).copy new 0 resolved.object.id
    (resolved.objectPage * pageSize % 2 ^ 64) pageSize with
  | (.error _, sys) => some (none, sys)
  | (.ok _, sys) =>
    match ← sys.tryGetPage new 0 with
    | (.ok (some phys), sys) => some (some (some ⟨new, .normal⟩, phys), sys)
    | (_, sys) => some (none, sys)

/-- The second part of the handler, between the two times that it holds the lock: the copy and the
frame to install. Without them the handler goes on with `signal_or_panic`. -/
def pageIn (sys : System) (new : ℕ) (resolved : ResolvedFault ObjectRef) :
    Option (Option (Option ObjectRef × PhysAddr) × System) := do
  match ← sys.tryGetPage resolved.object.id resolved.objectPage with
  | (.ok (some srcPhys), sys) =>
    -- for copy-on-write writes, materialise a private copy off the source page
    if resolved.cowWrite then sys.privateCopy new resolved else some (some (none, srcPhys), sys)
  | (_, sys) => some (none, sys)

/-- The last part of the handler. -/
def install (sys : System) (pid : ℕ) (info : PageFaultInfo) (resolved : ResolvedFault ObjectRef)
    (cowObject : Option ObjectRef) (phys : PhysAddr) : Option System := do
  let s ← sys.spaces pid
  let s ← s.install info resolved cowObject phys
  some (sys.setSpace pid s)

/-- The handler, when nothing comes in between. The result is false where it would go on with
`signal_or_panic`. -/
def handler (sys : System) (pid new : ℕ) (info : PageFaultInfo) : Option (Bool × System) := do
  let s ← sys.spaces pid
  match s.resolve info with
  | none => some (false, sys)
  | some resolved =>
    match ← sys.pageIn new resolved with
    | (none, sys) => some (false, sys)
    | (some (cowObject, phys), sys) =>
      (sys.install pid info resolved cowObject phys).map fun sys => (true, sys)

/-! ### Accesses of processes -/

/-- The byte that user mode reads through a page table entry. -/
def load (sys : System) (pid page : ℕ) (offset : Fin pageSize) : Option (BitVec 8) := do
  let s ← sys.spaces pid
  if (s.table page).allowsRead then some (sys.ram.mem (idxFromAddr (s.table page).address) offset)
  else none

/-- User mode writes a byte through a page table entry. -/
def store (sys : System) (pid page : ℕ) (offset : Fin pageSize) (byte : BitVec 8) :
    Option System := do
  let s ← sys.spaces pid
  if (s.table page).allowsWrite then
    let ram := sys.ram.writeByte (idxFromAddr (s.table page).address) offset byte
    let table := update s.table page ((s.table page).touch true)
    some (setSpace { sys with ram } pid { s with table })
  else none

end System

end Zinnia
