import Mathlib.Algebra.BigOperators.Group.Finset.Basic
import Zinnia.Lib.MaxBy
import Zinnia.Memory.Pmm

/-!
# Bootstrapping the memory allocators

Before there is a physical page allocator, pages come from a bump allocator, which works through
the largest usable region of the memory map. When the kernel page table and the metadata of the
pages are set up, the pages that it has handed out are cut off the memory map, and the rest is
given to the physical page allocator.
-/

namespace Zinnia

/-- `util::align_down`. -/
def alignDown (value alignment : Usize) : Usize := value &&& ~~~(alignment - 1)

/-! ### The bump allocator -/

structure BumpAllocator where
  /-- Points to the current address for the next allocation. -/
  current : Usize
  /-- The amount of memory left to be handed out by the allocator. -/
  length : Usize

namespace BumpAllocator

def alloc (b : BumpAllocator) (pages : Usize) : Except AllocError PhysAddr × BumpAllocator :=
  let bytes := pages * BitVec.ofNat 64 pageSize
  if bytes ≤ b.length then (.ok b.current, ⟨b.current + bytes, b.length - bytes⟩)
  else (.error .allocError, b)

/-- Allocations of one page each. None of them may fail. -/
def allocPages : ℕ → BumpAllocator → Option (List PhysAddr × BumpAllocator)
  | 0, b => some ([], b)
  | n + 1, b =>
    match b.alloc 1 with
    | (.error _, _) => none
    | (.ok addr, b) => (allocPages n b).map fun (addrs, b) => (addr :: addrs, b)

end BumpAllocator

/-! ### The memory map -/

def PhysMemory.isUsable (e : PhysMemory) : Bool := e.usage = .usable

/-- The entries are compared by their lengths. An entry comes with its position in the map. -/
def largest (entries : List (PhysMemory × ℕ)) : Option (PhysMemory × ℕ) :=
  maxBy (fun x => x.1.length.toNat) entries

/-- The end of the highest region that is usable or can be reclaimed. -/
def highestUsable (memoryMap : List PhysMemory) : Usize :=
  let ends := (memoryMap.filter fun x => x.usage = .usable || x.usage = .reclaimable).map
    fun x => x.address + x.length
  (maxBy BitVec.toNat ends).getD 0

/-- Cut bytes off the start of a region. -/
def PhysMemory.shrink (e : PhysMemory) (bytes : Usize) : PhysMemory :=
  { e with address := e.address + bytes, length := e.length - bytes }

lemma pageCount_lt (len : Usize) : pageCount len < 2 ^ 52 := by
  rw [pageCount_eq]
  omega

/-- The pages of the array of metadata. A `Page` has 16 bytes. -/
def pageArrayPages (memoryMap : List PhysMemory) : ℕ :=
  pageCount (BitVec.ofNat 64 (pageCount (highestUsable memoryMap) * 16))

/-- The number of pages that are allocated: the root of the kernel page table, the directories for
the kernel and for the physical memory, and for each page of the array of metadata the page itself
and the directories that are missing for it. -/
def requests (memoryMap : List PhysMemory) (tables : ℕ) (directories : ℕ → ℕ) : ℕ :=
  1 + tables + ∑ i ∈ Finset.range (pageArrayPages memoryMap), (1 + directories i)

/-- What `MEMORY_STAGE` has done: the pages of the bump allocator, the memory map for the physical
page allocator, and this one. -/
structure MemoryStage where
  handed : List PhysAddr
  memoryMap : List PhysMemory
  pmm : Pmm

/-- `MEMORY_STAGE`, with the numbers of directories of the page table. `none` stands for a panic. -/
def memoryStage (memoryMap : List PhysMemory) (tables : ℕ) (directories : ℕ → ℕ) :
    Option MemoryStage := do
  -- find the largest region there is for the bump allocator
  let (bumpRegion, _) ← largest (memoryMap.zipIdx.filter (·.1.isUsable))
  let bump : BumpAllocator :=
    ⟨alignUp bumpRegion.address (BitVec.ofNat 64 pageSize),
      alignDown bumpRegion.length (BitVec.ofNat 64 pageSize)⟩
  let (handed, bump) ← bump.allocPages (requests memoryMap tables directories)
  let allocatedBytes := alignUp (bump.current - bumpRegion.address) (BitVec.ofNat 64 pageSize)
  -- the region is looked up again
  let (_, i) ← largest memoryMap.zipIdx
  let pageLength := pageCount (highestUsable memoryMap)
  let memoryMap := memoryMap.modify i (·.shrink allocatedBytes)
  let pmm ← Pmm.init memoryMap pageLength (pageCount_lt _)
  some ⟨handed, memoryMap, pmm⟩

end Zinnia
