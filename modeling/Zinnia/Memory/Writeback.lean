import Mathlib.Data.Finset.SDiff
import Zinnia.Memory.System.Isolation
import Zinnia.Memory.Virt.Harvest

/-!
# Writing back shared pages

A write through a shared mapping first shows in the dirty bit of a page table entry. Harvesting
clears the bit and enters the page into the dirty set of its object, and `sync` writes the pages of
that set back. Here the system keeps track of the pages that have been modified since they were
last written back.

The TLB is left out: an access always sets the bits of the entry in the page table.
-/

namespace Zinnia

open AddressSpace

/-! ### Dirty sets -/

namespace PagedObject

/-- Marks a page as dirty. -/
def markDirty (o : PagedObject) (pageIndex : ℕ) : PagedObject :=
  { o with dirty := o.dirty.insert pageIndex }

/-- `PagedMemoryObject::writeback`, with the pages that are written. What the pager is able to
write is a parameter. -/
def writeback (put : ℕ → Bool) (o : PagedObject) : List ℕ → EResult Unit × PagedObject × List ℕ
  | [] => (.ok (), o, [])
  | idx :: rest =>
    match o.frame idx with
    | none => o.writeback put rest
    | some _ =>
      if put idx then
        let (res, o, written) := o.writeback put rest
        (res, o, idx :: written)
      else
        let (_, o, written) := (o.markDirty idx).writeback put rest
        (.error .eio, o, written)

/-- Writes all dirty pages back through the pager and clears the dirty set. -/
def sync (put : ℕ → Bool) (o : PagedObject) : EResult Unit × PagedObject × List ℕ :=
  writeback put { o with dirty := BTreeSet.empty } o.dirty.elems

end PagedObject

namespace MemObject

/-- `MemoryObject::mark_dirty_page`. -/
def markDirtyPage : MemObject → ℕ → MemObject
  | paged cache, pageIndex => .paged (cache.markDirty pageIndex)
  | buffer addr size, _ => .buffer addr size

/-- `MemoryObject::sync`. -/
def sync (put : ℕ → Bool) : MemObject → EResult Unit × MemObject × List ℕ
  | paged cache =>
    let (res, cache, written) := cache.sync put
    (res, .paged cache, written)
  | buffer addr size => (.ok (), .buffer addr size, [])

end MemObject

/-- The objects that `sync_dirty_range` syncs, each of them once. -/
def AddressSpace.syncObjects (s : AddressSpace ObjectRef) (startPage endPage : ℕ) :
    List ObjectRef :=
  (s.mappings.elems.filter (Segment.Overlaps startPage endPage ·)).foldl
    (fun objects m =>
      if !m.flags.shared || objects.contains m.object then objects else objects ++ [m.object]) []

namespace System

/-- A page that has been harvested is marked. -/
def markDirtyPage (sys : System) (d : ObjectRef × ℕ) : System :=
  (sys.objects d.1.id).elim sys fun m => sys.setObject d.1.id (m.markDirtyPage d.2)

def markDirty (sys : System) (dirtied : List (ObjectRef × ℕ)) : System :=
  dirtied.foldl markDirtyPage sys

/-- Sync one object. The result has the pages that were written back. -/
def syncObject (sys : System) (put : ℕ → ℕ → Bool) (o : ℕ) :
    Option (EResult Unit × System × List (ℕ × ℕ)) :=
  (sys.objects o).map fun m =>
    let (res, m, written) := m.sync (put o)
    (res, sys.setObject o m, written.map (o, ·))

/-- Sync objects, up to the first one that fails. -/
def syncAll (put : ℕ → ℕ → Bool) : List ObjectRef → System →
    Option (EResult Unit × System × List (ℕ × ℕ))
  | [], sys => some (.ok (), sys, [])
  | o :: rest, sys => do
    match ← sys.syncObject put o.id with
    | (.error e, sys, written) => some (.error e, sys, written)
    | (.ok (), sys, written) =>
      let (res, sys, more) ← syncAll put rest sys
      some (res, sys, written ++ more)

/-- The system call `munmap`, with the pages that `unmap` marks as dirty. -/
def unmap (sys : System) (pid : ℕ) (addr : VirtAddr) (size : Usize) :
    Option (EResult Usize × System) := do
  let s ← sys.spaces pid
  match NonZeroUsize.new size with
  | none => some (.error .einval, sys)
  | some len =>
    let (res, s, dirtied) ← s.unmap addr len
    some (res.map fun _ => 0, (sys.setSpace pid s).markDirty dirtied)

/-- `sync_dirty_range`. -/
def syncDirtyRange (sys : System) (pid : ℕ) (addr : VirtAddr) (len : NonZeroUsize)
    (put : ℕ → ℕ → Bool) : Option (EResult Unit × System × List (ℕ × ℕ)) := do
  let s ← sys.spaces pid
  match s.harvestDirtyRange addr len with
  | .error e => some (.error e, sys, [])
  | .ok (table, dirtied) =>
    let objects := s.syncObjects (addr.toNat / pageSize) (pageCount (addr + len))
    syncAll put objects ((sys.setSpace pid { s with table }).markDirty dirtied)

/-- The flags of `msync` are valid: `MS_ASYNC` and `MS_SYNC` exclude each other. -/
def msyncFlags (flags : BitVec 32) : Bool :=
  flags &&& ~~~7 == 0 && (flags &&& 1 == 0 || flags &&& 4 == 0)

/-- The system call `msync`, without the shootdown. -/
def msync (sys : System) (pid : ℕ) (addr : VirtAddr) (size : Usize) (flags : BitVec 32)
    (put : ℕ → ℕ → Bool) : Option (EResult Unit × System × List (ℕ × ℕ)) :=
  if !msyncFlags flags then some (.error .einval, sys, [])
  else
    match NonZeroUsize.new size with
    | none => some (.error .einval, sys, [])
    | some len => sys.syncDirtyRange pid addr len put

/-- `File::sync`, without the metadata. Only the files of ext2 have a `sync` operation of their
own. -/
def fsync (sys : System) (pid : ℕ) (put : ℕ → ℕ → Bool) :
    OpenFile ObjectRef → Option (EResult Unit × System × List (ℕ × ℕ))
  | .ext2 cache => do
    let s ← sys.spaces pid
    let (table, dirtied) := s.harvestDirtyObject cache
    ((sys.setSpace pid { s with table }).markDirty dirtied).syncObject put cache.id
  | _ => some (.ok (), sys, [])

/-! ### Modified pages -/

/-- The page of an object that a page of a process shares. A buffer has no dirty set, and is never
written back. -/
def sharedPage (sys : System) (pid page : ℕ) : Option (ℕ × ℕ) := do
  let p ← sys.mapping pid page
  match ← sys.objects p.object.id with
  | .paged _ => if p.flags.shared then some (p.object.id, p.objectPage) else none
  | .buffer _ _ => none

/-- The page of a process has a present entry with the dirty bit set. -/
def dirtyAt (sys : System) (pid page : ℕ) : Bool :=
  (sys.spaces pid).any (·.table.isDirtyAt page)

/-- The page is in the dirty set of its object. -/
def InDirtySet (sys : System) (o k : ℕ) : Prop :=
  ∃ cache, sys.objects o = some (.paged cache) ∧ k ∈ cache.dirty

/-- It is known that the page has to be written back: it is in the dirty set of its object, or a
process that shares it has a dirty entry. -/
def Recorded (sys : System) (o k : ℕ) : Prop :=
  sys.InDirtySet o k ∨ ∃ pid page, sys.sharedPage pid page = some (o, k) ∧ sys.dirtyAt pid page

end System

/-- A system with the pages of objects that have been modified through a shared mapping since they
were last written back. -/
structure Tracked where
  sys : System
  modified : Finset (ℕ × ℕ)

namespace Tracked

/-- A step, as far as it matters for the entries of page tables. -/
inductive Event where
  | mmap (pid : ℕ) (addr : VirtAddr) (length : Usize) (flags : BitVec 32)
  | mprotect (pid : ℕ) (addr : VirtAddr) (size : Usize)
  | munmap (pid : ℕ) (addr : VirtAddr) (size : Usize)
  | exit (pid : ℕ)
  | install (pid : ℕ) (info : PageFaultInfo)
  /-- Any other step. -/
  | other

/-- What processes do, and the page fault handler for them. -/
inductive Step (t : Tracked) : Event → Tracked → Prop
  | spawn {pid s} : t.sys.spaces pid = none → AddressSpace.new = .ok s →
    Step t .other ⟨t.sys.setSpace pid s, t.modified⟩
  | newObject {o} (source) : t.sys.objects o = none →
    Step t .other ⟨t.sys.newObject o source, t.modified⟩
  | mmap {pid new openFiles r sys'} (addr length prot flags fd offset) : t.sys.objects new = none →
    (∀ fd f, openFiles fd = some f → ∀ o, OpenFile.Maps f o → t.sys.Alive o.id) →
    t.sys.mmap pid new openFiles addr length prot flags fd offset = some (r, sys') →
    Step t (.mmap pid addr length flags) ⟨sys', t.modified⟩
  | mprotect {pid r sys'} (addr size prot) :
    t.sys.mprotect pid addr size prot = some (r, sys') →
    Step t (.mprotect pid addr size) ⟨sys', t.modified⟩
  | munmap {pid r sys'} (addr size) : t.sys.unmap pid addr size = some (r, sys') →
    Step t (.munmap pid addr size) ⟨sys', t.modified⟩
  | msync {pid r sys' written} (addr size flags put) :
    t.sys.msync pid addr size flags put = some (r, sys', written) →
    Step t .other ⟨sys', t.modified \ written.toFinset⟩
  | fsync {pid r sys' written} (put file) : t.sys.fsync pid put file = some (r, sys', written) →
    Step t .other ⟨sys', t.modified \ written.toFinset⟩
  | fork {pid child sys'} : t.sys.spaces child = none → t.sys.fork pid child = some sys' →
    Step t .other ⟨sys', t.modified⟩
  | exit (pid) : Step t (.exit pid) ⟨t.sys.exit pid, t.modified⟩
  | resolve {n pid s resolved} (info) : t.sys.faults n = none → t.sys.spaces pid = some s →
    s.resolve info = some resolved →
    Step t .other ⟨t.sys.setFault n (some ⟨pid, info, resolved, none⟩), t.modified⟩
  | pageIn {n f new res sys'} : t.sys.faults n = some f → f.paged = none →
    t.sys.objects new = none → t.sys.pageIn new f.resolved = some (res, sys') →
    Step t .other
      ⟨sys'.setFault n (res.map fun paged => { f with paged := some paged }), t.modified⟩
  | install {n f cowObject phys sys'} : t.sys.faults n = some f →
    f.paged = some (cowObject, phys) →
    t.sys.install f.pid f.info f.resolved cowObject phys = some sys' →
    Step t (.install f.pid f.info) ⟨sys'.setFault n none, t.modified⟩
  | store {pid sys'} (page offset byte) : t.sys.store pid page offset byte = some sys' →
    Step t .other ⟨sys', (t.sys.sharedPage pid page).elim t.modified (insert · t.modified)⟩

/-- The pages of processes whose entries a step overwrites or drops without a look at their dirty
bits. `munmap` harvests first, but not if the end of its range cannot be rounded up. -/
def Event.Overwrites (sys : System) : Event → ℕ → ℕ → Prop
  | mmap pid addr length flags, pid', page => pid' = pid ∧ ∃ s len start,
    sys.spaces pid = some s ∧ NonZeroUsize.new length = some len ∧
      s.mmapAddr addr len (MmapFlags.ofBits flags) = .ok start ∧ InRange start len page
  | mprotect pid addr size, pid', page =>
    pid' = pid ∧ ∃ len, NonZeroUsize.new size = some len ∧ InRange addr len page
  | munmap pid addr size, pid', page =>
    pid' = pid ∧ ∃ len, NonZeroUsize.new size = some len ∧ InRange addr len page ∧
      2 ^ 64 ≤ addr.toNat + len.1.toNat + (pageSize - 1)
  | exit pid, pid', _ => pid' = pid
  | install pid info, pid', page => pid' = pid ∧ page = info.faultyPage
  | other, _, _ => False

/-- A step overwrites no dirty entry of a shared page. -/
def Careful (t : Tracked) (e : Event) : Prop :=
  ∀ pid page, e.Overwrites t.sys pid page → (t.sys.sharedPage pid page).isSome →
    ¬ t.sys.dirtyAt pid page

/-- The systems that steps lead to that meet a condition. -/
inductive Reachable (Guard : Tracked → Event → Prop) (pmm : Pmm) : Tracked → Prop
  | boot (mem) : Reachable Guard pmm ⟨System.boot pmm mem, ∅⟩
  | step {t t' : Tracked} {e : Event} (h : Reachable Guard pmm t) (hguard : Guard t e)
    (hstep : Step t e t') : Reachable Guard pmm t'

end Tracked

end Zinnia
