import Zinnia.Memory.System.Isolation
import Zinnia.Syscall.Memory.Requests

/-!
# Open files and the pages that are mapped through them

A process opens a file with an access mode and then maps it through the descriptor. Here the system
has the open files of the processes, and for every page of a process the open file that the page
was mapped through last.
-/

namespace Zinnia

open Function

/-- The flags of `openat` that matter for regular files. `O_CLOEXEC` belongs to the descriptor. -/
structure OpenFlags where
  read : Bool
  write : Bool
  create : Bool
  truncate : Bool
  directory : Bool
  temporary : Bool
  executable : Bool

/-- `OpenFlags::from_bits_truncate`. -/
def OpenFlags.ofBits (oflag : BitVec 32) : OpenFlags :=
  { read := oflag.getLsbD 0
    write := oflag.getLsbD 1
    create := oflag.getLsbD 6
    truncate := oflag.getLsbD 9
    directory := oflag.getLsbD 16
    temporary := oflag.getLsbD 22
    executable := oflag.getLsbD 21 }

/-- An open file. -/
structure File where
  ops : OpenFile ObjectRef
  flags : OpenFlags

/-- What the disk of an ext2 file answers while the file is truncated: to the accesses before the
page cache is truncated, and to the write of the inode after that. -/
structure Disk where
  before : EResult Unit
  after : EResult Unit

/-- What `do_open_inode` reads: the identity of the process, the mode of the inode, and the file
operations of its node. -/
structure INode where
  root : Bool
  executable : Bool
  ops : OpenFile ObjectRef
  disk : Disk

namespace INode

variable (inode : INode) (flags : OpenFlags)

/-- `try_access`. Only the super-user is checked, and only for execution. -/
def tryAccess : EResult Unit :=
  if inode.root && flags.executable && !inode.executable then .error .eacces else .ok ()

/-- The file is opened with `O_TRUNC`. Only regular files are truncated. -/
def truncate (sys : System) : Option (EResult Unit × System) :=
  match inode.ops with
  | .tmpfs cache =>
    if !flags.write then some (.error .einval, sys)
    else (sys.truncate cache.id 0).map fun sys => (.ok (), sys)
  | .ext2 cache =>
    if !flags.write then some (.error .einval, sys)
    else
      match inode.disk.before with
      | .error e => some (.error e, sys)
      | .ok () => (sys.truncate cache.id 0).map fun sys => (inode.disk.after, sys)
  | _ => some (.ok (), sys)

/-- `File::do_open_inode` for an inode that is not a directory. -/
def doOpenInode (sys : System) : Option (EResult File × System) :=
  if flags.directory then some (.error .enotdir, sys)
  else
    match inode.tryAccess flags with
    | .error e => some (.error e, sys)
    | .ok () =>
      if flags.truncate then
        (inode.truncate flags sys).map fun (res, sys) => (res.map fun _ => ⟨inode.ops, flags⟩, sys)
      else some (.ok ⟨inode.ops, flags⟩, sys)

/-- `File::open`, once the lookup of the path has led to the inode. -/
def «open» (sys : System) : Option (EResult File × System) :=
  if flags.directory && (flags.create || flags.temporary) then some (.error .einval, sys)
  else inode.doOpenInode flags sys

end INode

/-- The pages that an `mmap` call maps when it returns `start`: those of its range, which ends with
a full page. -/
def MmapPage (start : VirtAddr) (len : NonZeroUsize) (page : ℕ) : Prop :=
  start.toNat / pageSize ≤ page ∧ page < start.toNat / pageSize +
    (len.1.toNat + start.toNat % pageSize + (pageSize - 1)) % 2 ^ 64 / pageSize

instance (start : VirtAddr) (len : NonZeroUsize) (page : ℕ) : Decidable (MmapPage start len page) :=
  inferInstanceAs (Decidable (_ ∧ _))

/-- A system with the open files of the processes, and with the open file that each page of a
process was mapped through. -/
structure Provenance where
  sys : System
  openFiles : ℕ → BitVec 32 → Option File
  origin : ℕ → ℕ → Option File

namespace Provenance

/-- A step, as far as it matters for the permission to write. -/
inductive Event where
  | mmap (pid : ℕ) (prot flags fd : BitVec 32)
  | mprotect (pid : ℕ) (addr : VirtAddr) (size : Usize) (prot : BitVec 32)
  /-- Any other step. -/
  | other

/-- The files that a process can map. -/
def ops (t : Provenance) (pid : ℕ) (fd : BitVec 32) : Option (OpenFile ObjectRef) :=
  (t.openFiles pid fd).map File.ops

/-- The file that a call of `mmap` maps. -/
def mmapFile (t : Provenance) (pid : ℕ) (flags fd : BitVec 32) : Option File :=
  if (MmapFlags.ofBits flags).anonymous then none else t.openFiles pid fd

/-- The pages of the process that a call of `mmap` has mapped have a new origin. -/
def mapped (t : Provenance) (pid : ℕ) (length : Usize) (file : Option File) :
    EResult VirtAddr → ℕ → ℕ → Option File
  | .error _ => t.origin
  | .ok start => update t.origin pid fun page =>
    match NonZeroUsize.new length with
    | none => t.origin pid page
    | some len => if MmapPage start len page then file else t.origin pid page

/-- What processes do, and the page fault handler for them. `caches` are the page caches of regular
files; anonymous memory and private copies have objects of their own. -/
inductive Step (caches : Set ℕ) (t : Provenance) : Event → Provenance → Prop
  | spawn {pid s} : t.sys.spaces pid = none → AddressSpace.new = .ok s →
    Step caches t .other { t with sys := t.sys.setSpace pid s }
  | newObject {o} (source) : t.sys.objects o = none →
    Step caches t .other { t with sys := t.sys.newObject o source }
  | openat {pid fd file sys'} (inode : INode) (oflag : BitVec 32) :
    t.openFiles pid fd = none →
    inode.open (OpenFlags.ofBits oflag) t.sys = some (.ok file, sys') →
    Step caches t .other
      { t with
        sys := sys'
        openFiles := update t.openFiles pid
          (update (t.openFiles pid) fd (some file)) }
  | openatError {e sys'} (inode : INode) (oflag : BitVec 32) :
    inode.open (OpenFlags.ofBits oflag) t.sys = some (.error e, sys') →
    Step caches t .other { t with sys := sys' }
  | close (pid fd) :
    Step caches t .other
      { t with
        openFiles := update t.openFiles pid (update (t.openFiles pid) fd none) }
  | mmap {pid new r sys'} (addr length prot flags fd offset) : t.sys.objects new = none →
    new ∉ caches →
    t.sys.mmap pid new (t.ops pid) addr length prot flags fd offset = some (r, sys') →
    Step caches t (.mmap pid prot flags fd)
      { t with sys := sys', origin := t.mapped pid length (t.mmapFile pid flags fd) r }
  | mprotect {pid r sys'} (addr size prot) :
    t.sys.mprotect pid addr size prot = some (r, sys') →
    Step caches t (.mprotect pid addr size prot) { t with sys := sys' }
  | munmap {pid r sys'} (addr size) : t.sys.munmap pid addr size = some (r, sys') →
    Step caches t .other { t with sys := sys' }
  | fork {pid child sys'} : t.sys.spaces child = none → t.sys.fork pid child = some sys' →
    Step caches t .other
      { sys := sys'
        openFiles := update t.openFiles child (t.openFiles pid)
        origin := update t.origin child (t.origin pid) }
  | exit (pid) :
    Step caches t .other
      { t with
        sys := t.sys.exit pid
        openFiles := update t.openFiles pid fun _ => none }
  | resolve {n pid s resolved} (info) : t.sys.faults n = none → t.sys.spaces pid = some s →
    s.resolve info = some resolved →
    Step caches t .other { t with sys := t.sys.setFault n (some ⟨pid, info, resolved, none⟩) }
  | pageIn {n f new res sys'} : t.sys.faults n = some f → f.paged = none →
    t.sys.objects new = none → new ∉ caches →
    t.sys.pageIn new f.resolved = some (res, sys') →
    Step caches t .other
      { t with sys := sys'.setFault n (res.map fun paged => { f with paged := some paged }) }
  | install {n f cowObject phys sys'} : t.sys.faults n = some f →
    f.paged = some (cowObject, phys) →
    t.sys.install f.pid f.info f.resolved cowObject phys = some sys' →
    Step caches t .other { t with sys := sys'.setFault n none }
  | store {pid sys'} (page offset byte) : t.sys.store pid page offset byte = some sys' →
    Step caches t .other { t with sys := sys' }

/-- The page of a process is a shared page of a regular file. -/
def SharedFile (caches : Set ℕ) (t : Provenance) (pid page : ℕ) : Prop :=
  ∃ p, t.sys.mapping pid page = some p ∧ p.flags.shared ∧ p.object.id ∈ caches

/-- A step gives no shared page of a regular file write permission, unless the file was opened for
writing. -/
def Permitted (caches : Set ℕ) (t : Provenance) : Event → Prop
  | .mmap pid prot flags fd =>
    (MmapFlags.ofBits flags).shared → (Prot.ofBits prot).write →
      ∀ file, t.mmapFile pid flags fd = some file → file.flags.write
  | .mprotect pid addr size prot =>
    (Prot.ofBits prot).write → ∀ len page, NonZeroUsize.new size = some len →
      InRange addr len page → t.SharedFile caches pid page →
        ∀ file, t.origin pid page = some file → file.flags.write
  | .other => True

/-- The systems that steps lead to that meet a condition. -/
inductive Reachable (caches : Set ℕ) (Guard : Provenance → Event → Prop) (pmm : Pmm) :
    Provenance → Prop
  | boot (mem) : Reachable caches Guard pmm ⟨System.boot pmm mem, fun _ _ => none, fun _ _ => none⟩
  | step {t t' : Provenance} {e : Event} (h : Reachable caches Guard pmm t) (hguard : Guard t e)
    (hstep : Step caches t e t') : Reachable caches Guard pmm t'

/-- A store to a shared page of a regular file is to one that was mapped through a descriptor that
had been opened for writing. -/
def WritesAllowed (caches : Set ℕ) (t : Provenance) : Prop :=
  ∀ pid page offset byte sys', t.sys.store pid page offset byte = some sys' →
    t.SharedFile caches pid page → ∃ file, t.origin pid page = some file ∧ file.flags.write

end Provenance

end Zinnia
