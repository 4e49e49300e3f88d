import Zinnia.Lib.BTreeSet
import Zinnia.Memory.Pmm

/-!
# Page caches

A `PagedObject` holds the frames of the pages of a file or of anonymous memory. Pages that it does
not have come from a pager, which takes frames from the physical allocator and fills them.

Every function returns `none` where the physical allocator would stop the kernel.
-/

namespace Zinnia

open Function

/-- The bytes of a page. -/
abbrev PageData := Fin pageSize → BitVec 8

/-- Physical memory: the allocator and the contents of the frames. -/
structure Ram where
  pmm : Pmm
  mem : ℕ → PageData

namespace Ram

/-- `KernelAlloc::alloc(1, AllocFlags::empty())`. -/
def alloc (r : Ram) : Option (Except AllocError PhysAddr × Ram) := do
  match ← r.pmm.alloc 1 {} with
  | (.ok addr, pmm) => some (.ok addr, ⟨pmm, update r.mem (idxFromAddr addr) fun _ => 0⟩)
  | (.error e, pmm) => some (.error e, { r with pmm })

/-- `KernelAlloc::alloc`. -/
def allocPages (r : Ram) (pages : Usize) (flags : AllocFlags) :
    Option (Except AllocError PhysAddr × Ram) := do
  match ← r.pmm.alloc pages flags with
  | (.error e, pmm) => some (.error e, { r with pmm })
  | (.ok addr, pmm) =>
    let inside (i : ℕ) := idxFromAddr addr ≤ i ∧ i < idxFromAddr addr + pages.toNat
    some (.ok addr, ⟨pmm, fun i => if !flags.noZero ∧ inside i then fun _ => 0 else r.mem i⟩)

/-- `KernelAlloc::dealloc` of one page. -/
def dealloc (r : Ram) (addr : PhysAddr) : Option Ram :=
  (r.pmm.deallocInner addr 1).map fun pmm => { r with pmm }

/-- Deallocate the pages of a list. -/
def deallocAll (r : Ram) (pages : List PhysAddr) : Option Ram := pages.foldlM dealloc r

/-- Copy bytes from one page to another. -/
def copyBytes (r : Ram) (target : PhysAddr) (targetMisalign : ℕ) (src : PhysAddr)
    (srcMisalign copySize : ℕ) : Ram :=
  { r with mem := update r.mem (idxFromAddr target) fun i =>
      if targetMisalign ≤ i ∧ i < targetMisalign + copySize then
        r.mem (idxFromAddr src) (Fin.ofNat pageSize (i - targetMisalign + srcMisalign))
      else r.mem (idxFromAddr target) i }

/-- `page[tail_offset..].fill(0)`. The elements of the slice are of the type `i32`: it covers the
frame and the three frames behind it. -/
def fillZero (r : Ram) (addr : PhysAddr) (tailOffset : ℕ) : Ram :=
  { r with mem := fun frame i =>
      let start := idxFromAddr addr * pageSize
      let pos := frame * pageSize + i
      if start + 4 * tailOffset ≤ pos ∧ pos < start + 4 * pageSize then 0 else r.mem frame i }

/-- Write a byte of a page. -/
def writeByte (r : Ram) (page : ℕ) (offset : Fin pageSize) (byte : BitVec 8) : Ram :=
  { r with mem := update r.mem page (update (r.mem page) offset byte) }

end Ram

/-! ### Pagers -/

/-- Errors that can occur when reading or writing a page. -/
inductive PagerError where
  | indexOutOfBounds
  | outOfMemory
  | ioError
deriving DecidableEq

def PagerError.toErrno : PagerError → Errno
  | .indexOutOfBounds => .einval
  | .outOfMemory => .enomem
  | .ioError => .eio

/-- Used to get new data for a memory object. What a device does is a parameter: how many frames
it takes for `count` pages from an index on, how many of them it can fill, and the bytes of its
pages. A pager that `leaks` takes the frames one after the other until a page cannot be read, and
does not give back the frame of that page: `Ext2FilePager` does so where `try_get_pages` has to call
`try_get_page`. -/
structure Pager where
  readahead : Bool
  leaks : Bool
  wanted : ℕ → ℕ → ℕ
  filled : ℕ → ℕ → Except PagerError ℕ
  data : ℕ → PageData

/-- A pager which uses kernel memory to get physical pages. -/
def physPager : Pager := ⟨false, false, fun _ count => count, fun _ count => .ok count, fun _ _ => 0⟩

namespace Pager

/-- Take frames one after the other; give all of them back if there are not enough. -/
def allocPages : ℕ → List PhysAddr → Ram → Option (Except PagerError (List PhysAddr) × Ram)
  | 0, pages, r => some (.ok pages, r)
  | count + 1, pages, r => do
    match ← r.alloc with
    | (.ok page, r) => allocPages count (pages ++ [page]) r
    | (.error _, r) =>
      let r ← r.deallocAll pages
      some (.error .outOfMemory, r)

/-- Write the pages of the device to their frames. -/
def fill (source : Pager) : ℕ → List PhysAddr → (ℕ → PageData) → ℕ → PageData
  | _, [], mem => mem
  | index, page :: pages, mem =>
    source.fill (index + 1) pages (update mem (idxFromAddr page) (source.data index))

/-- `Pager::try_get_pages`. -/
def tryGetPages (source : Pager) (pageIndex count : ℕ) (r : Ram) :
    Option (Except PagerError (List PhysAddr) × Ram) := do
  match ← allocPages (source.wanted pageIndex count) [] r with
  | (.error e, r) => some (.error e, r)
  | (.ok pages, r) =>
    match source.filled pageIndex count with
    | .error e =>
      let r ← r.deallocAll (if source.leaks ∧ e = .ioError then pages.dropLast else pages)
      some (.error e, r)
    | .ok full =>
      let r ← r.deallocAll (pages.drop full)
      some (.ok (pages.take full), { r with mem := source.fill pageIndex (pages.take full) r.mem })

end Pager

/-! ### Page caches -/

def raMinPages : ℕ := 8

def raMaxPages : ℕ := 64

structure ReadAhead where
  nextExpected : ℕ
  window : ℕ

structure PagedObject where
  /-- The frames of the pages. -/
  pages : BTreeSet (ℕ × PhysAddr) Prod.fst
  dirty : BTreeSet ℕ id
  ra : ReadAhead
  source : Pager

namespace PagedObject

/-- Creates a new object, without making allocations. -/
def new (source : Pager) : PagedObject :=
  ⟨BTreeSet.empty, BTreeSet.empty, ⟨2 ^ 64 - 1, raMinPages⟩, source⟩

/-- Creates a new object with the physical memory allocator as a pager. -/
def newPhys : PagedObject := new physPager

/-- `pages.get`. -/
def frame (o : PagedObject) (pageIndex : ℕ) : Option PhysAddr :=
  (o.pages.elems.find? (·.1 = pageIndex)).map Prod.snd

/-- The size of the next batch, with the state of the read-ahead. -/
def batchSize (o : PagedObject) (pageIndex : ℕ) : ℕ × ReadAhead :=
  if o.source.readahead then
    let window :=
      if pageIndex = o.ra.nextExpected then min (o.ra.window * 2) raMaxPages else raMinPages
    -- a batch ends before the next page that is present
    let count := (((List.range' 1 (window - 1)).find? fun i =>
      (o.frame (pageIndex + i)).isSome).getD window)
    (count, ⟨pageIndex + window, window⟩)
  else (1, o.ra)

/-- Ask the pager for a batch; without memory for a batch, for one page. -/
def fetch (o : PagedObject) (pageIndex count : ℕ) (r : Ram) :
    Option (EResult (List PhysAddr) × Ram) := do
  match ← o.source.tryGetPages pageIndex count r with
  | (.ok batch, r) => some (.ok batch, r)
  | (.error .indexOutOfBounds, r) => some (.ok [], r)
  | (.error .outOfMemory, r) =>
    if count > 1 then
      match ← o.source.tryGetPages pageIndex 1 r with
      | (.ok batch, r) => some (.ok batch, r)
      | (.error e, r) => some (.error e.toErrno, r)
    else some (.error PagerError.outOfMemory.toErrno, r)
  | (.error e, r) => some (.error e.toErrno, r)

/-- Enter a batch, from `pageIndex` on. A page that is present keeps its frame. -/
def enter (o : PagedObject) : ℕ → List PhysAddr → Ram → Option (PagedObject × Ram)
  | _, [], r => some (o, r)
  | pageIndex, page :: batch, r =>
    match o.frame pageIndex with
    | some _ => do
      let r ← r.dealloc page
      o.enter (pageIndex + 1) batch r
    | none => enter { o with pages := o.pages.insert (pageIndex, page) } (pageIndex + 1) batch r

/-- The second half of `try_get_page`: merge a batch and return the first page. -/
def finish (o : PagedObject) (pageIndex : ℕ) (batch : List PhysAddr) (r : Ram) :
    Option (Option PhysAddr × PagedObject × Ram) := do
  let (o', r) ← o.enter pageIndex batch r
  some (batch.head?.map fun page => (o.frame pageIndex).getD page, o', r)

/-- `PagedMemoryObject::try_get_page`. -/
def tryGetPage (o : PagedObject) (pageIndex : ℕ) (r : Ram) :
    Option (EResult (Option PhysAddr) × PagedObject × Ram) :=
  match o.frame pageIndex with
  | some page => some (.ok (some page), o, r)
  | none => do
    let (count, ra) := o.batchSize pageIndex
    let o := { o with ra }
    match ← o.fetch pageIndex count r with
    | (.error e, r) => some (.error e, o, r)
    | (.ok batch, r) => do
      let (page, o, r) ← o.finish pageIndex batch r
      some (.ok page, o, r)

/-- `PagedMemoryObject::truncate`. -/
def truncate (o : PagedObject) (length : ℕ) (r : Ram) : Option (PagedObject × Ram) := do
  let pageCount := (length + (pageSize - 1)) / pageSize
  let tailOffset := length % pageSize
  let tailPage := if tailOffset = 0 ∨ pageCount = 0 then none else o.frame (pageCount - 1)
  let removedPages := o.pages.elems.filter (pageCount ≤ ·.1)
  let r := tailPage.elim r (r.fillZero · tailOffset)
  let dirty := o.dirty.filter (· < pageCount)
  let dirty := if tailPage.isSome then dirty.insert (pageCount - 1) else dirty
  let r ← r.deallocAll (removedPages.map Prod.snd)
  some ({ o with pages := o.pages.filter (·.1 < pageCount), dirty }, r)

/-- The frames that an object gives back when it is dropped. -/
def frames (o : PagedObject) : List PhysAddr := o.pages.elems.map Prod.snd

end PagedObject

end Zinnia
