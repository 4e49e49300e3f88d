import Zinnia.Memory.Virt.Properties

/-!
# The memory system calls

`mmap`, `mprotect` and `munmap` on the address space of a process. A call gives its result and the
address space afterwards; `none` stands for a panic.
-/

namespace Zinnia

variable {O : Type}

/-- `PROT_READ`, `PROT_WRITE` and `PROT_EXEC`. -/
def Prot.ofBits (prot : BitVec 32) : Prot :=
  { read := prot &&& 0x01 != 0, write := prot &&& 0x02 != 0, exec := prot &&& 0x04 != 0 }

structure MmapFlags where
  anonymous : Bool := false
  shared : Bool := false
  «private» : Bool := false
  fixed : Bool := false

/-- `MmapFlags::from_bits_truncate`. -/
def MmapFlags.ofBits (flags : BitVec 32) : MmapFlags :=
  { anonymous := flags &&& 0x20 != 0
    shared := flags &&& 0x01 != 0
    «private» := flags &&& 0x02 != 0
    fixed := flags &&& 0x10 != 0 }

/-- The open files that implement `mmap`, with the objects that they map. -/
inductive OpenFile (O : Type) where
  | tmpfs (cache : O)
  | ext2 (cache : O)
  | primeBuffer (buffer : O)
  | drm (getBuffer : BitVec 32 → EResult O)
  /-- Any file without an `mmap` operation of its own. -/
  | other

namespace AddressSpace

/-- Return a value once a call has succeeded. -/
def answer {α : Type} (value : α) (call : Option (EResult Unit × AddressSpace O)) :
    Option (EResult α × AddressSpace O) :=
  call.map fun result => (result.1.map fun _ => value, result.2)

section

variable [MemoryObject O] (s : AddressSpace O) (addr : VirtAddr) (len : NonZeroUsize)

/-- Map the page cache of a file, from the page boundary below the address on. -/
def mapCache (cache : O) (prot : VmFlags) (offset : BitVec 64) :
    Option (EResult VirtAddr × AddressSpace O) :=
  let pageMask : Usize := BitVec.ofNat 64 pageSize - 1
  let misalign := addr &&& pageMask
  let mapAddress := addr - misalign
  let backedMapSize := (len.1 + misalign + pageMask) &&& ~~~pageMask
  match NonZeroUsize.new backedMapSize with
  | none => none
  | some size => answer addr (s.mapObject cache mapAddress size prot (offset - misalign))

/-- `FileOps::mmap`. -/
def OpenFile.mmap (file : OpenFile O) (prot : VmFlags) (flags : MmapFlags) (offset : BitVec 64) :
    Option (EResult VirtAddr × AddressSpace O) :=
  let copied := { prot with copyOnWrite := prot.copyOnWrite || flags.private }
  match file with
  | .tmpfs cache => s.mapCache addr len cache copied offset
  | .ext2 cache =>
    s.mapCache addr len cache { copied with shared := prot.shared || flags.shared } offset
  | .primeBuffer buffer => answer addr (s.mapObject buffer addr len prot 0)
  | .drm getBuffer =>
    if !flags.shared then some (.error .einval, s)
    else
      match getBuffer ((offset >>> 32).setWidth 32) with
      | .error e => some (.error e, s)
      | .ok buffer =>
        answer addr (s.mapObject buffer addr len prot ((offset.setWidth 32).setWidth 64))
  | .other => some (.error .enodev, s)

/-- `vfs::mmap`, with the object that an anonymous mapping creates. -/
def vfsMmap (anon : O) (file : Option (OpenFile O)) (prot : VmFlags) (flags : MmapFlags)
    (offset : BitVec 64) : Option (EResult VirtAddr × AddressSpace O) :=
  if flags.anonymous then answer addr (s.mapObject anon addr len prot offset)
  else
    match file with
    | some f => OpenFile.mmap s addr len f prot flags offset
    | none => some (.error .einval, s)

end

/-- The file of a mapping that is not anonymous. -/
def mmapFile (openFiles : BitVec 32 → Option (OpenFile O)) (flags : MmapFlags) (fd : BitVec 32) :
    EResult (Option (OpenFile O)) :=
  if flags.anonymous then .ok none
  else
    match openFiles fd with
    | some file => .ok (some file)
    | none => .error .ebadf

def mmapAddr (s : AddressSpace O) (addr : VirtAddr) (len : NonZeroUsize) (flags : MmapFlags) :
    EResult VirtAddr :=
  if flags.fixed then .ok addr else s.findMmapAddr len

/-- The system call `mmap`, without the shootdown. -/
def mmap [MemoryObject O] (s : AddressSpace O) (openFiles : BitVec 32 → Option (OpenFile O))
    (anon : O) (addr : VirtAddr) (length : Usize) (prot flags fd : BitVec 32)
    (offset : BitVec 64) : Option (EResult VirtAddr × AddressSpace O) :=
  let flags := MmapFlags.ofBits flags
  -- either `MAP_PRIVATE` or `MAP_SHARED`, not both or none
  if flags.shared == flags.private then some (.error .einval, s)
  else
    let vmProt := { (Prot.ofBits prot).toVmFlags with shared := flags.shared }
    match mmapFile openFiles flags fd with
    | .error e => some (.error e, s)
    | .ok file =>
      match NonZeroUsize.new length with
      | none => some (.error .einval, s)
      | some len =>
        match s.mmapAddr addr len flags with
        | .error e => some (.error e, s)
        | .ok addr => s.vfsMmap addr len anon file vmProt flags offset

/-- The system call `mprotect`. -/
def mprotect (s : AddressSpace O) (addr : VirtAddr) (size : Usize) (prot : BitVec 32) :
    Option (EResult Usize × AddressSpace O) :=
  match NonZeroUsize.new size with
  | none => some (.error .einval, s)
  | some size => answer 0 (s.protect addr size (Prot.ofBits prot).toVmFlags)

/-- The system call `munmap`. -/
def munmap (s : AddressSpace O) (addr : VirtAddr) (size : Usize) :
    Option (EResult Usize × AddressSpace O) :=
  match NonZeroUsize.new size with
  | none => some (.error .einval, s)
  | some size => answer 0 ((s.unmap addr size).map fun result => (result.1, result.2.1))

end AddressSpace

end Zinnia
