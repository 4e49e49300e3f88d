import Zinnia.Arch.Virt
import Zinnia.Lib.Loop
import Zinnia.Memory.Virt.Allocator

/-!
# Address spaces

An address space is a set of mapped objects, the allocator of its pages and a page table. The set
is ordered by the start pages of the mappings alone. Only the leaf entries of the page table are
modelled, one for every page; an entry whose directory is missing is not present.
-/

namespace Zinnia

open Segment Function

/-- What an address space asks of a memory object. -/
class MemoryObject (O : Type) where
  cacheType : O → VmCacheType

/-- A reference to a memory object: its identity, and the caching mode of its mappings. -/
structure ObjectRef where
  id : ℕ
  cache : VmCacheType := .normal
deriving DecidableEq

instance : MemoryObject ObjectRef := ⟨ObjectRef.cache⟩

/-- Represents a mapped object. -/
structure MappedObject (O : Type) where
  startPage : ℕ
  endPage : ℕ
  offsetPage : ℕ
  object : O
  flags : VmFlags
  cache : VmCacheType
deriving DecidableEq

variable {O : Type}

instance : Segment (MappedObject O) := ⟨MappedObject.startPage, MappedObject.endPage⟩

instance : Keyed (MappedObject.startPage : MappedObject O → ℕ) := ⟨fun _ _ => id⟩

/-- The mappings of an address space. -/
abbrev Mappings (O : Type) := BTreeSet (MappedObject O) MappedObject.startPage

/-! ### Page tables of processes -/

/-- The leaf entries of a page table. -/
abbrev PageTable := ℕ → PageTableEntry

namespace PageTable

def isMapped (t : PageTable) (page : ℕ) : Bool := (t page).isPresent

def mapSingle (t : PageTable) (page : ℕ) (phys : PhysAddr) (flags : VmFlags)
    (cache : VmCacheType) : PageTable :=
  update t page (.new phys (flags.asPte true) cache 0)

/-- The caching mode of the entry is preserved. -/
def remapSingle (t : PageTable) (page : ℕ) (flags : VmFlags) : PageTable :=
  update t page (.new (t page).address (flags.asPte true) (t page).cacheType 0)

def unmapSingle (t : PageTable) (page : ℕ) : PageTable := update t page .empty

/-- Clears the dirty bit of a page, and says whether it was set. -/
def takeDirty (t : PageTable) (page : ℕ) : Bool × PageTable :=
  if !(t page).isPresent || !(t page).isDirty then (false, t)
  else (true, update t page (t page).clearDirty)

/-- `unmap_single` for every page of a range. -/
def unmapPages (t : PageTable) (a b : ℕ) : PageTable := Loop.forRange a b t unmapSingle

/-- `remap_single` for every mapped page of a range. -/
def remapPages (t : PageTable) (a b : ℕ) (flags : VmFlags) : PageTable :=
  Loop.forRange a b t fun t p => if t.isMapped p then t.remapSingle p flags else t

end PageTable

structure AddressSpace (O : Type) where
  table : PageTable
  allocator : VirtualAllocator
  mappings : Mappings O

/-! ### Splitting mappings -/

namespace MappedObject

/-- The leftmost pages of a mapping, before `startPage`. -/
def leftmost (m : MappedObject O) (startPage : ℕ) : List (MappedObject O) :=
  let headPages := startPage - m.startPage
  if headPages > 0 then [{ m with endPage := m.startPage + headPages }] else []

/-- The rightmost pages of a mapping, from `endPage` on. -/
def rightmost (m : MappedObject O) (endPage : ℕ) : List (MappedObject O) :=
  let overlapEnd := min endPage m.endPage
  let tailPages := m.endPage - endPage
  if tailPages > 0 then
    [{ m with
        startPage := m.endPage - tailPages
        offsetPage := m.offsetPage + (overlapEnd - m.startPage) }]
  else []

end MappedObject

/-- The round of `map_object`'s loop: remove a mapping that the new one shadows, and insert its
parts that stick out. -/
def shadowStep (startPage endPage : ℕ) (s : Mappings O × PageTable) :
    Option (Mappings O × PageTable) :=
  (findOverlapping s.1 startPage endPage).map fun m =>
    if startPage ≤ m.startPage ∧ endPage ≥ m.endPage then
      (s.1.remove m, s.2.unmapPages m.startPage m.endPage)
    else
      ((s.1.remove m).insertAll (m.leftmost startPage ++ m.rightmost endPage),
        s.2.unmapPages (max startPage m.startPage) (min endPage m.endPage))

/-- The round of `unmap`'s loop. -/
def unmapStep (startPage endPage : ℕ) (s : Mappings O × PageTable) :
    Option (Mappings O × PageTable) :=
  (findOverlapping s.1 startPage endPage).map fun m =>
    let overlapStart := max startPage m.startPage
    let overlapEnd := min endPage m.endPage
    ((s.1.remove m).insertAll
      ((if m.startPage < overlapStart then [{ m with endPage := overlapStart }] else []) ++
        if overlapEnd < m.endPage then
          [{ m with
              startPage := overlapEnd
              offsetPage := m.offsetPage + (overlapEnd - m.startPage) }]
        else []),
      s.2.unmapPages overlapStart overlapEnd)

/-- The round of `protect`'s loop, with its cursor. -/
def protectStep (startPage endPage : ℕ) (prot : VmFlags) (s : (Mappings O × PageTable) × ℕ) :
    Option ((Mappings O × PageTable) × ℕ) :=
  (findOverlapping s.1.1 s.2 endPage).map fun m =>
    let newFlags := m.flags.reprotect prot
    -- a page that is still to be copied stays write-protected
    let pteFlags := if newFlags.copyOnWrite then newFlags.withoutWrite else newFlags
    if startPage ≤ m.startPage ∧ endPage ≥ m.endPage then
      (((s.1.1.remove m).insert { m with flags := newFlags },
        s.1.2.remapPages m.startPage m.endPage pteFlags), m.endPage)
    else
      let overlapStart := max startPage m.startPage
      let overlapEnd := min endPage m.endPage
      (((s.1.1.remove m).insertAll
          (m.leftmost startPage ++ m.rightmost endPage ++
            [{ m with
                startPage := overlapStart
                endPage := overlapEnd
                offsetPage := m.offsetPage + (overlapStart - m.startPage)
                flags := newFlags }]),
        s.1.2.remapPages overlapStart overlapEnd pteFlags), overlapEnd)

namespace AddressSpace

/-- `1usize << (get_highest_bit_shift() - 1)`, the end of the user half. -/
def userEnd : VirtAddr := 1 <<< (9 * 4 + pageBits - 1)

/-- `AddressSpace::new`, without the kernel half of the page table. -/
def new : EResult (AddressSpace O) := do
  let allocator ← VirtualAllocator.new (BitVec.ofNat 64 pageSize) userEnd
  .ok ⟨fun _ => .empty, allocator, BTreeSet.empty⟩

def userMmapBase : VirtAddr := 0x100000000

def findMmapAddr (s : AddressSpace O) (len : NonZeroUsize) : EResult VirtAddr :=
  s.allocator.findFreeFrom userMmapBase len

/-- Maps an object into the address space. The offset is a signed number of bytes. `none` means
that the loop does not end. -/
def mapObject [MemoryObject O] (s : AddressSpace O) (object : O) (addr : VirtAddr)
    (len : NonZeroUsize) (prot : VmFlags) (offset : BitVec 64) :
    Option (EResult Unit × AddressSpace O) :=
  if (checkedAdd addr len).isNone then some (.error .enomem, s)
  else if addr.toNat % pageSize ≠ offset.toNat % pageSize then some (.error .einval, s)
  else
    let startPage := addr.toNat / pageSize
    let endPage := startPage + pageCount len
    match s.allocator.release addr len with
    | .error e => some (.error e, s)
    | .ok released =>
      match released.reserve addr len with
      | .error e => some (.error e, { s with allocator := released })
      | .ok allocator => do
        let (mappings, table) ← Loop.run (shadowStep startPage endPage)
          (s.mappings.elems.length + 1) (s.mappings, s.table)
        let mapping : MappedObject O :=
          { startPage, endPage, offsetPage := offset.toNat / pageSize, object, flags := prot
            cache := MemoryObject.cacheType object }
        some (.ok (), ⟨table, allocator, mappings.insert mapping⟩)

def protect (s : AddressSpace O) (addr : VirtAddr) (len : NonZeroUsize) (prot : VmFlags) :
    Option (EResult Unit × AddressSpace O) :=
  if (checkedAdd addr len).isNone then some (.error .enomem, s)
  else if !isPageAligned addr then some (.error .einval, s)
  else do
    let startPage := addr.toNat / pageSize
    let endPage := startPage + pageCount len
    let ((mappings, table), _) ← Loop.run (protectStep startPage endPage prot)
      (s.mappings.elems.length + 1) ((s.mappings, s.table), startPage)
    some (.ok (), { s with table, mappings })

/-- Collect the dirty pages of a shared mapping in a range, and clear their dirty bits. -/
def harvestMapping (startPage endPage : ℕ) (s : PageTable × List (O × ℕ)) (m : MappedObject O) :
    PageTable × List (O × ℕ) :=
  if !m.flags.shared then s
  else
    Loop.forRange (max startPage m.startPage) (min endPage m.endPage) s fun s p =>
      match s.1.takeDirty p with
      | (true, table) => (table, s.2 ++ [(m.object, m.offsetPage + (p - m.startPage))])
      | (false, _) => s

/-- `harvest_dirty_range`: the page table afterwards, and the object pages that are marked
dirty. -/
def harvestDirtyRange (s : AddressSpace O) (addr : VirtAddr) (len : NonZeroUsize) :
    EResult (PageTable × List (O × ℕ)) :=
  match checkedAdd addr len with
  | none => .error .enomem
  | some endAddr =>
    let startPage := addr.toNat / pageSize
    let endPage := pageCount endAddr
    .ok ((s.mappings.elems.filter (Overlaps startPage endPage ·)).foldl
      (harvestMapping startPage endPage) (s.table, []))

/-- `harvest_dirty_object`, for one object. -/
def harvestDirtyObject [DecidableEq O] (s : AddressSpace O) (target : O) :
    PageTable × List (O × ℕ) :=
  (s.mappings.elems.filter fun m => m.flags.shared && m.object = target).foldl
    (fun t m => harvestMapping m.startPage m.endPage t m) (s.table, [])

/-- `unmap`, with the object pages that it marks dirty. -/
def unmap (s : AddressSpace O) (addr : VirtAddr) (len : NonZeroUsize) :
    Option (EResult Unit × AddressSpace O × List (O × ℕ)) :=
  if (checkedAdd addr len).isNone then some (.error .enomem, s, [])
  else if !isPageAligned addr then some (.error .einval, s, [])
  else
    match s.harvestDirtyRange addr len with
    | .error e => some (.error e, s, [])
    | .ok (table, dirtied) => do
      let startPage := addr.toNat / pageSize
      let endPage := startPage + pageCount len
      let (mappings, table) ← Loop.run (unmapStep startPage endPage)
        (s.mappings.elems.length + 1) (s.mappings, table)
      match s.allocator.release addr len with
      | .error e => some (.error e, { s with table, mappings }, dirtied)
      | .ok allocator => some (.ok (), ⟨table, allocator, mappings⟩, dirtied)

/-- What `fork` does to a mapping: a private one is copied on write from now on. -/
def forkMapping (m : MappedObject O) : MappedObject O :=
  if m.flags.shared then m else { m with flags := m.flags.withCopyOnWrite }

lemma startPage_forkMapping (m : MappedObject O) :
    (forkMapping m).startPage = m.startPage := by
  rw [forkMapping]
  split_ifs <;> rfl

/-- What `fork` does to the page table of the parent for one mapping. -/
def forkTable (t : PageTable) (m : MappedObject O) : PageTable :=
  if m.flags.shared then t
  else if m.flags.write then
    t.remapPages m.startPage m.endPage m.flags.withCopyOnWrite.withoutWrite
  else t

/-- Forks this address space: the parent's address space afterwards, and the child's. The range
of the shootdown is left out. -/
def fork (s : AddressSpace O) : AddressSpace O × AddressSpace O :=
  let mappings := s.mappings.map forkMapping startPage_forkMapping
  (⟨s.mappings.elems.foldl forkTable s.table, s.allocator, mappings⟩,
    ⟨fun _ => .empty, s.allocator, BTreeSet.empty.insertAll mappings.elems⟩)

end AddressSpace

end Zinnia
