import Zinnia.Util
import Zinnia.Lib.Regions

/-!
# The physical page allocator

The allocator keeps one `Page` of metadata for every physical page. The head page of every free
region carries the number of pages of the region and the index of the next region's head; the
regions form a singly linked list that starts at `head`.

Every function returns `none` where the code would stop: an index outside the metadata array, or
a walk through the list that does not end. `Zinnia.Memory.Pmm.FreeList` proves that neither
happens.
-/

namespace Zinnia

open Regions

/-- Metadata about a physical page. -/
structure Page where
  next : ℕ
  count : ℕ
deriving DecidableEq

/-- `NO_PAGE`, the end of the free list. -/
def noPage : ℕ := 2 ^ 64 - 1

/-- The metadata of a page that is not the head of a free region. -/
def Page.blank : Page := ⟨noPage, 0⟩

/-- The allocator state. The metadata array is sized from the highest usable address, rounded up
to pages, so that its length stays below `2 ^ 52`. -/
structure Pmm where
  head : ℕ
  len : ℕ
  pages : ℕ → Page
  len_lt : len < 2 ^ 52

/-- `AllocFlags`. -/
structure AllocFlags where
  /-- Only consider physical memory below 1MiB. -/
  kernel20 : Bool := false
  /-- Only consider physical memory below 4GiB. -/
  kernel32 : Bool := false
  /-- Do not initialize allocated memory to zero. -/
  noZero : Bool := false
deriving DecidableEq

/-- `AllocError`. -/
inductive AllocError where
  | allocError
deriving DecidableEq

/-- `Page::idx_from_addr`. -/
def idxFromAddr (addr : PhysAddr) : ℕ := addr.toNat / pageSize

/-- `Page::addr_from_idx`. -/
def addrFromIdx (idx : ℕ) : PhysAddr := BitVec.ofNat 64 idx <<< pageBits

namespace Pmm

/-- `self.pages[i]`. -/
def page? (p : Pmm) (i : ℕ) : Option Page := if i < p.len then some (p.pages i) else none

/-- Change the metadata of page `i`. -/
def modify (p : Pmm) (i : ℕ) (f : Page → Page) : Pmm :=
  { p with pages := Function.update p.pages i (f (p.pages i)) }

/-- An assignment to fields of `self.pages[i]`. -/
def modify? (p : Pmm) (i : ℕ) (f : Page → Page) : Option Pmm :=
  if i < p.len then some (p.modify i f) else none

/-! ### Freeing -/

/-- The walk of `free_region`: the last region head below `idx`, and the entry behind it. -/
def findGap (p : Pmm) (idx : ℕ) : ℕ → Option ℕ → ℕ → Option (Option ℕ × ℕ)
  | 0, _, _ => none
  | fuel + 1, prev, cur =>
    if cur ≠ noPage ∧ cur < idx then do
      let page ← p.page? cur
      findGap p idx fuel (some cur) page.next
    else some (prev, cur)

/-- Make `idx` the successor of `prev`, or the head of the list. -/
def link (p : Pmm) (prev : Option ℕ) (idx : ℕ) : Option Pmm :=
  match prev with
  | some q => p.modify? q fun page => { page with next := idx }
  | none => some { p with head := idx }

/-- The first branch of `free_region`: the previous region `q` ends exactly where the freed one
starts. -/
def growRegion (p : Pmm) (q idx pages : ℕ) (next : Option ℕ) : Option Pmm := do
  let p ← p.modify? q fun page => { page with count := page.count + pages }
  let p ← p.modify? idx fun page => { page with next := noPage }
  match next with
  | none => some p
  | some n =>
    let page ← p.page? q
    -- having grown `q`, it may now also be adjacent to `next`
    if q + page.count = n then do
      let nPage ← p.page? n
      let p ← p.modify? q fun page => ⟨nPage.next, page.count + nPage.count⟩
      p.modify? n fun _ => .blank
    else some p

/-- The other branches of `free_region`: a new head page, merged with the next region if the two
touch. -/
def insertRegion (p : Pmm) (idx pages : ℕ) (next : Option ℕ) : Option Pmm :=
  match next with
  | none => p.modify? idx fun _ => ⟨noPage, pages⟩
  | some n =>
    if idx + pages = n then do
      let nPage ← p.page? n
      let p ← p.modify? idx fun _ => ⟨nPage.next, pages + nPage.count⟩
      p.modify? n fun _ => .blank
    else p.modify? idx fun _ => ⟨n, pages⟩

/-- `Pmm::free_region`. -/
def freeRegion (p : Pmm) (idx pages : ℕ) : Option Pmm := do
  let (prev, cur) ← p.findGap idx (p.len + 1) none p.head
  let next := if cur = noPage then none else some cur
  match prev with
  | none =>
    let p ← p.insertRegion idx pages next
    p.link none idx
  | some q =>
    let page ← p.page? q
    if q + page.count = idx then p.growRegion q idx pages next
    else do
      let p ← p.insertRegion idx pages next
      p.link (some q) idx

/-- `KernelAlloc::dealloc_inner`. -/
def deallocInner (p : Pmm) (addr : PhysAddr) (pages : ℕ) : Option Pmm :=
  -- an empty allocation has nothing to free
  if pages = 0 then some p else p.freeRegion (idxFromAddr addr) pages

/-! ### Allocating -/

/-- The address limit of a request. -/
def limit (flags : AllocFlags) : PhysAddr :=
  if flags.kernel20 then 1 <<< 20
  else if flags.kernel32 then 1 <<< 32
  else BitVec.allOnes 64

/-- The test that `alloc` makes on a free region. -/
def fits (pages : Usize) (limit : PhysAddr) (idx count : ℕ) : Bool :=
  pages.toNat ≤ count && addrFromIdx idx + pages * BitVec.ofNat 64 pageSize < limit

/-- The walk of `alloc`: the chosen region with its predecessor. The first fitting region ends
the search when there is a limit, otherwise the last one is taken. -/
def choose (p : Pmm) (pages : Usize) (limit : PhysAddr) :
    ℕ → ℕ → Option ℕ → Option (ℕ × Option ℕ) → Option (Option (ℕ × Option ℕ))
  | 0, _, _, _ => none
  | fuel + 1, it, prevIt, chosen =>
    if it = noPage then some chosen
    else do
      let page ← p.page? it
      if fits pages limit it page.count then
        if limit ≠ BitVec.allOnes 64 then some (some (it, prevIt))
        else choose p pages limit fuel page.next (some it) (some (it, prevIt))
      else choose p pages limit fuel page.next (some it) chosen

/-- Cut `pages` pages from the end of the chosen region, or take all of it. -/
def takePages (p : Pmm) (pages : Usize) (idx : ℕ) (prev : Option ℕ) : Option (PhysAddr × Pmm) := do
  let page ← p.page? idx
  if page.count = pages.toNat then do
    let p ← p.link prev page.next
    let p ← p.modify? idx fun _ => .blank
    some (addrFromIdx idx, p)
  else do
    let count := page.count - pages.toNat
    let p ← p.modify? idx fun page => { page with count := count }
    some (addrFromIdx idx + BitVec.ofNat 64 (count * pageSize), p)

/-- `KernelAlloc::alloc`. The memory of the allocation is not part of this state; the caller
zeroes it unless `noZero` is set. -/
def alloc (p : Pmm) (pages : Usize) (flags : AllocFlags) :
    Option (Except AllocError PhysAddr × Pmm) := do
  match ← p.choose pages (limit flags) (p.len + 1) p.head none none with
  | none => some (.error .allocError, p)
  | some (idx, prev) =>
    let (addr, p) ← p.takePages pages idx prev
    some (.ok addr, p)

end Pmm

/-! ### Initialisation -/

/-- `PhysMemoryUsage`. -/
inductive PhysMemoryUsage where
  | reserved
  | reclaimable
  | usable
deriving DecidableEq

/-- A region of physical memory, as the bootloader describes it. -/
structure PhysMemory where
  /-- Start address of the memory region. -/
  address : PhysAddr
  /-- Length of the memory region in bytes. -/
  length : Usize
  /-- How this memory is used. -/
  usage : PhysMemoryUsage
deriving DecidableEq

/-- `init` passes over entries that are not usable or shorter than a page. -/
def PhysMemory.registered (e : PhysMemory) : Bool :=
  !(e.length.toNat < pageSize || e.usage ≠ .usable)

namespace Pmm

/-- The metadata array with every page cleared and no free region. -/
def empty (len : ℕ) (len_lt : len < 2 ^ 52) : Pmm := ⟨noPage, len, fun _ => .blank, len_lt⟩

/-- The body of the loop of `init`. -/
def register (p : Pmm) (e : PhysMemory) : Option Pmm :=
  if e.registered then p.freeRegion (idxFromAddr e.address) (e.length.toNat / pageSize)
  else some p

/-- `pmm::init`. -/
def init (memoryMap : List PhysMemory) (len : ℕ) (len_lt : len < 2 ^ 52) : Option Pmm :=
  memoryMap.foldlM register (empty len len_lt)

end Pmm

end Zinnia
