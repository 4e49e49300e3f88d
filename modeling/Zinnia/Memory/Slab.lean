import Mathlib.Data.List.FinRange
import Zinnia.Lib.Chain
import Zinnia.Memory.Pmm.Properties

/-!
# The kernel heap

Small allocations come from slabs: a page of a slab starts with a header, and the rest of it is
cut into slots of one size. Larger allocations get whole pages, with one more page before them for
their size. A pointer that is to be freed belongs to whole pages if it is at the start of a page.

Pointers are natural numbers, and physical memory is seen through the direct map. `none` stands
for a panic of the physical page allocator.
-/

namespace Zinnia

open Function

/-- The start of the direct map of physical memory. -/
def hhdmBase : ℕ := 0xFFFF800000000000

/-- `PhysAddr::as_hhdm`. -/
def PhysAddr.asHhdm (addr : PhysAddr) : ℕ := hhdmBase + addr.toNat

/-- `VirtAddr::as_hhdm`. -/
def ofHhdm (ptr : ℕ) : PhysAddr := BitVec.ofNat 64 (ptr - hhdmBase)

/-- The size and the alignment of an allocation. -/
structure Layout where
  size : ℕ
  align : ℕ
  /-- The alignment is a power of two. -/
  align_eq : ∃ k, align = 2 ^ k
  /-- Rounded up to the alignment, the size does not exceed `isize::MAX`. -/
  size_le : size + (align - 1) ≤ 2 ^ 63 - 1

/-- The start of a page of a slab. -/
structure SlabHeader where
  slab : Fin 8
  /-- The first free slot. -/
  free : ℕ
  /-- The number of slots that are in use. -/
  used : ℕ

/-- The start of the page before an allocation of whole pages. -/
structure SlabInfo where
  /-- Amount of pages connected to this slab. -/
  numPages : ℕ
  /-- Size of this slab. -/
  size : ℕ

/-! ### Slabs -/

/-- The size of one entry of the slabs of `ALLOCATOR`. -/
def entSize (slab : Fin 8) : ℕ := 16 * 2 ^ slab.val

/-- `size_of::<SlabHeader>()`: two links, the slab, the first free slot and the counter. -/
def sizeOfSlabHeader : ℕ := 40

def sizeOfSlabInfo : ℕ := 16

def sizeOfFreeSlot : ℕ := 8

/-- Byte offset of the first slot in a page of the slab. -/
def slotOffset (slab : Fin 8) : ℕ :=
  (sizeOfSlabHeader + (entSize slab - 1)) / entSize slab * entSize slab

/-- The number of slots in a page of the slab. -/
def slots (slab : Fin 8) : ℕ := (pageSize - slotOffset slab) / entSize slab

/-- `find_size`. -/
def findSize (size : ℕ) : Option (Fin 8) := (List.finRange 8).find? fun slab => size ≤ entSize slab

/-- The allocators, and the memory that they use themselves: the headers of pages, the sizes of
allocations of whole pages, and the links of free slots. -/
structure SlabAllocator where
  pmm : Pmm
  /-- Pages with at least one free slot. -/
  partialPages : Fin 8 → List ℕ
  headers : ℕ → SlabHeader
  infos : ℕ → SlabInfo
  /-- `FreeSlot::next`, with 0 for the null pointer. -/
  next : ℕ → ℕ

namespace SlabAllocator

variable (a : SlabAllocator)

/-- The loop of `refill`. -/
def linkSlots (next : ℕ → ℕ) (first entSize slots : ℕ) : ℕ → ℕ :=
  update
    ((List.range (slots - 1)).foldl (fun next i =>
      update next (first + i * entSize) (first + (i + 1) * entSize)) next)
    (first + (slots - 1) * entSize) 0

/-- Allocates a fresh, unlinked page and chains its slots into the free list. -/
def refill (slab : Fin 8) : Option (Option ℕ × SlabAllocator) := do
  match ← a.pmm.alloc 1 {} with
  | (.error _, pmm) => some (none, { a with pmm })
  | (.ok mem, pmm) =>
    let page := mem.asHhdm
    let first := page + slotOffset slab
    some (some page,
      { a with
        pmm
        next := linkSlots a.next first (entSize slab) (slots slab)
        headers := update a.headers page ⟨slab, first, 0⟩ })

/-- Take the first free slot of the first page of the list. -/
def takeSlot (slab : Fin 8) (page : ℕ) (rest : List ℕ) : ℕ × SlabAllocator :=
  let slot := (a.headers page).free
  let free := a.next slot
  let header : SlabHeader := ⟨(a.headers page).slab, free, (a.headers page).used + 1⟩
  -- a page with no free slots left leaves the list
  let list := if free = 0 then rest else page :: rest
  (slot,
    { a with
      headers := update a.headers page header
      partialPages := update a.partialPages slab list })

/-- `Slab::alloc`. -/
def slabAlloc (slab : Fin 8) : Option (ℕ × SlabAllocator) :=
  match a.partialPages slab with
  | [] => do
    match ← a.refill slab with
    | (none, a) => some (0, a)
    | (some page, a) => some (a.takeSlot slab page [])
  | page :: rest => some (a.takeSlot slab page rest)

/-- Put a slot at the front of the free list of its page. -/
def putSlot (page addr : ℕ) : SlabAllocator :=
  let header : SlabHeader :=
    ⟨(a.headers page).slab, addr, (a.headers page).used - 1⟩
  { a with
    next := update a.next addr (a.headers page).free
    headers := update a.headers page header }

/-- `Slab::free`. A page is linked if it is in the list of its slab. -/
def slabFree (page addr : ℕ) : Option SlabAllocator :=
  if addr = 0 then some a
  else
    let slab := (a.headers page).slab
    let list := a.partialPages slab
    let wasLinked := list.contains page
    let a := a.putSlot page addr
    let setList list : SlabAllocator :=
      { a with partialPages := update a.partialPages slab list }
    if (a.headers page).used = 0 then
      -- hand the page back
      let a := if wasLinked then setList (list.erase page) else a
      (a.pmm.deallocInner (ofHhdm page) 1).map fun pmm => { a with pmm }
    else if !wasLinked then some (setList (page :: list))
    else some a

/-! ### The global allocator -/

/-- An allocation that is too large for the slabs. -/
def largeAlloc (layout : Layout) : Option (ℕ × SlabAllocator) := do
  let numPages := pageCount (BitVec.ofNat 64 layout.size)
  -- the pages plus an additional page for metadata
  match ← a.pmm.alloc (BitVec.ofNat 64 numPages + 1) {} with
  | (.error _, pmm) => some (0, { a with pmm })
  | (.ok mem, pmm) =>
    let ret := mem.asHhdm
    some (ret + pageSize,
      { a with pmm, infos := update a.infos ret ⟨numPages, layout.size⟩ })

/-- `GlobalAlloc::alloc`. -/
def alloc (layout : Layout) : Option (ℕ × SlabAllocator) :=
  if layout.size = 0 then some (0, a)
  else
    match findSize (max layout.size layout.align) with
    | some slab => a.slabAlloc slab
    | none => a.largeAlloc layout

/-- `GlobalAlloc::dealloc`. -/
def dealloc (ptr : ℕ) : Option SlabAllocator :=
  if ptr = 0 then some a
  else if ptr = ptr / pageSize * pageSize then
    let info := ptr - pageSize
    (a.pmm.deallocInner (ofHhdm info) ((a.infos info).numPages + 1)).map fun pmm => { a with pmm }
  else a.slabFree (ptr / pageSize * pageSize) ptr

end SlabAllocator

/-! ### Runs -/

/-- A state of the heap, with the allocations that are live, and the physical pages that the rest of
the kernel has allocated. -/
structure Heap where
  allocator : SlabAllocator
  live : ℕ → Option Layout
  others : Set ℕ

namespace Heap

/-- The bytes of a live allocation. -/
def Bytes (h : Heap) (i : ℕ) : Prop :=
  ∃ ptr layout, h.live ptr = some layout ∧ ptr ≤ i ∧ i < ptr + layout.size

/-- Some of the `n` bytes at an address belong to a live allocation. -/
def Overwritable (h : Heap) (p n : ℕ) : Prop := ∃ i, p ≤ i ∧ i < p + n ∧ h.Bytes i

/-- A call, a write of the kernel to its allocations, or what the rest of the kernel does with
physical pages. Only live allocations are freed. -/
inductive Step (Guard : Layout → Prop) (h : Heap) : Heap → Prop
  | alloc {ptr allocator'} (layout) : Guard layout → ptr ≠ 0 →
    h.allocator.alloc layout = some (ptr, allocator') →
    Step Guard h ⟨allocator', update h.live ptr (some layout), h.others⟩
  | allocNull {allocator'} (layout) : Guard layout →
    h.allocator.alloc layout = some (0, allocator') →
    Step Guard h ⟨allocator', h.live, h.others⟩
  | dealloc {ptr layout allocator'} : h.live ptr = some layout →
    h.allocator.dealloc ptr = some allocator' →
    Step Guard h ⟨allocator', update h.live ptr none, h.others⟩
  | write (headers infos next) :
    (∀ p, headers p ≠ h.allocator.headers p → h.Overwritable p sizeOfSlabHeader) →
    (∀ p, infos p ≠ h.allocator.infos p → h.Overwritable p sizeOfSlabInfo) →
    (∀ p, next p ≠ h.allocator.next p → h.Overwritable p sizeOfFreeSlot) →
    Step Guard h { h with allocator := { h.allocator with headers, infos, next } }
  | otherAlloc {addr pmm} (pages flags) : h.allocator.pmm.alloc pages flags = some (.ok addr, pmm) →
    Step Guard h { h with
      allocator := { h.allocator with pmm }, others := h.others ∪ pageRange addr pages.toNat }
  | otherDealloc {addr pmm} (pages : Usize) : pageRange addr pages.toNat ⊆ h.others →
    h.allocator.pmm.deallocInner addr pages.toNat = some pmm →
    Step Guard h { h with
      allocator := { h.allocator with pmm }, others := h.others \ pageRange addr pages.toNat }

/-- The states of runs in which the layouts of all allocations meet a condition. -/
inductive Reachable (Guard : Layout → Prop) (pmm : Pmm) : Heap → Prop
  | boot (headers infos next) :
    Reachable Guard pmm ⟨⟨pmm, fun _ => [], headers, infos, next⟩, fun _ => none, ∅⟩
  | step {h h' : Heap} : Reachable Guard pmm h → Step Guard h h' → Reachable Guard pmm h'

end Heap

end Zinnia
