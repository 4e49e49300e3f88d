import Zinnia.Memory.Virt.AddressSpace

/-!
# Page faults

The handler works in two parts. `resolve` looks up the mapping of the faulting page and checks the
access; the page of the object is then fetched, and copied if need be, without the lock on the
address space; `install` checks that nothing has changed in between and enters the page.
-/

namespace Zinnia

open Segment

variable {O : Type}

/-- Abstract information about a page fault. -/
structure PageFaultInfo where
  ip : VirtAddr
  /-- The address that was attempted to access. -/
  addr : VirtAddr
  causedByUser : Bool
  causedByWrite : Bool
  causedByFetch : Bool
  pageWasPresent : Bool

namespace PageFaultInfo

/-- The page of the address that was attempted to access. -/
def faultyPage (info : PageFaultInfo) : ℕ := info.addr.toNat / pageSize

/-- The mapping flags allow the access. -/
def accessAllowed (info : PageFaultInfo) (flags : VmFlags) : Bool :=
  if info.causedByWrite then flags.write
  else if info.causedByFetch then flags.exec
  else flags.read || flags.write

/-- The flags of the page that is to be installed. -/
def mapFlags (info : PageFaultInfo) (flags : VmFlags) : VmFlags :=
  if flags.copyOnWrite && info.causedByWrite then flags.withoutCopyOnWrite
  else if flags.copyOnWrite then flags.withoutWrite
  else flags

end PageFaultInfo

structure ResolvedFault (O : Type) where
  /-- The backing object whose page must be paged in. -/
  object : O
  objectPage : ℕ
  /-- The PTE flags to install. -/
  mapFlags : VmFlags
  cache : VmCacheType
  /-- Whether this is a copy-on-write *write* fault. -/
  cowWrite : Bool

namespace AddressSpace

/-- The first part of the handler. `none` stands for `signal_or_panic`. -/
def resolve (s : AddressSpace O) (info : PageFaultInfo) : Option (ResolvedFault O) := do
  let mapped ← at? s.mappings info.faultyPage
  if !info.accessAllowed mapped.flags then none
  else
    some
      { object := mapped.object
        objectPage := (info.faultyPage - mapped.startPage) + mapped.offsetPage
        mapFlags := info.mapFlags mapped.flags
        cache := mapped.cache
        cowWrite := mapped.flags.copyOnWrite && info.causedByWrite }

variable [DecidableEq O]

/-- The mapping of the faulting page is still the one that was resolved. -/
def stillValid (s : AddressSpace O) (info : PageFaultInfo) (resolved : ResolvedFault O) : Bool :=
  (at? s.mappings info.faultyPage).any fun m =>
    let sameOffset := (info.faultyPage - m.startPage) + m.offsetPage == resolved.objectPage
    let cowWriteNow := m.flags.copyOnWrite && info.causedByWrite
    let allowed :=
      if info.causedByWrite then m.flags.write || m.flags.copyOnWrite
      else if info.causedByFetch then m.flags.exec
      else m.flags.read || m.flags.write
    m.object = resolved.object && sameOffset && allowed && cowWriteNow == resolved.cowWrite &&
      info.mapFlags m.flags = resolved.mapFlags

/-- `Result::unwrap`. `none` stands for a panic. -/
def unwrap : Option (EResult Unit × AddressSpace O) → Option (AddressSpace O)
  | some (.ok (), s) => some s
  | some (.error _, _) => none
  | none => none

/-- Replace the shadowed page with the private copy, if there is one. -/
def replacePage [MemoryObject O] (s : AddressSpace O) (page : ℕ) (mapFlags : VmFlags) :
    Option O → Option (AddressSpace O)
  | none => some s
  | some newObj =>
    unwrap (s.mapObject newObj (BitVec.ofNat 64 (page * pageSize)) onePage mapFlags 0)

/-- The last part of the handler, with the private copy of a page that is copied on write and the
frame to install. -/
def install [MemoryObject O] (s : AddressSpace O) (info : PageFaultInfo)
    (resolved : ResolvedFault O) (cowObject : Option O) (phys : PhysAddr) :
    Option (AddressSpace O) :=
  -- the region was unmapped or remapped during the page-in
  if !s.stillValid info resolved then some s
  else
    (s.replacePage info.faultyPage resolved.mapFlags cowObject).map fun s =>
      { s with table :=
          s.table.mapSingle info.faultyPage phys resolved.mapFlags resolved.cache }

end AddressSpace

end Zinnia
