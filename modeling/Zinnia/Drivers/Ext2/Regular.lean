import Zinnia.Drivers.Ext2.DataBlocks
import Zinnia.Memory.Cache

/-!
# Regular files

The bytes of a regular file are in blocks of the filesystem and in the pages of its page cache. The
cache is filled from the blocks, and dirty pages are written back to them.

The frames of the pages are left out here: a cache holds the bytes of its pages, and there is always
memory for one more. Only a truncation is told the frames, as it fills memory behind the frame of a
page.
-/

namespace Zinnia

namespace Ext2

/-! ### Sizes -/

def sIfmt : BitVec 16 := 0xF000

def sIfreg : BitVec 16 := 0x8000

namespace Inode

variable (raw : Inode)

def isReg : Bool := raw.iMode &&& sIfmt = sIfreg

/-- `Ext2Inode::size`. -/
def size : ℕ := raw.iSize.toNat + if raw.isReg then raw.iDirAcl.toNat * 2 ^ 32 else 0

/-- Write the size of a file. -/
def setSize (size : ℕ) : Inode :=
  { raw with
    iSize := BitVec.ofNat 32 size
    iDirAcl := if raw.isReg then BitVec.ofNat 32 (size / 2 ^ 32) else raw.iDirAcl }

end Inode

/-! ### The pager -/

/-- Errors of the filesystem are `PagerError::IoError`. -/
def ioError {α : Type} : Except Fault α → Except Fault α
  | .error (.errno _) => .error (.errno .eio)
  | result => result

/-- Copy the first bytes of a block to a page. -/
def copyBlock (page : PageData) (offset len : ℕ) (buf : Block) : PageData := fun i =>
  if offset ≤ i ∧ i < offset + len then buf (i - offset) else page i

namespace Super

variable (s : Super)

/-- `(page_size / block_size).max(1)`. -/
def blocksPerPage : ℕ := max (pageSize / s.blockSize) 1

/-- Read the blocks of a page, from a logical block on. `fill_pages` reads blocks that are adjacent
on the device at once. -/
def loadPage (raw : Inode) (firstLogicalBlock : ℕ) : Except Fault PageData :=
  (List.range s.blocksPerPage).foldlM (fun page b => do
    let diskBlock ← s.resolveBlock raw (firstLogicalBlock + b)
    -- sparse blocks are left zeroed
    if diskBlock = 0 then pure page
    else
      let buf ← s.readBlock diskBlock
      let copyStart := b * s.blockSize
      let copyEnd := min (copyStart + s.blockSize) pageSize
      pure (copyBlock page copyStart (copyEnd - copyStart) buf)) fun _ => 0

/-- `Ext2FilePager::try_get_page`. -/
def tryGetPage (ino : BitVec 32) (pageIndex : ℕ) : Except Fault PageData := do
  let raw ← s.readInode ino
  let fileOffset := pageIndex * pageSize
  if fileOffset ≥ raw.size then pure fun _ => 0
  else s.loadPage raw (fileOffset / s.blockSize)

/-- `Ext2FilePager::try_get_pages`. -/
def tryGetPages (ino : BitVec 32) (pageIndex count : ℕ) : Except Fault (List PageData) := ioError do
  let raw ← s.readInode ino
  let filePages := (raw.size + (pageSize - 1)) / pageSize
  if pageIndex ≥ filePages then pure []
  else
    let count := min count (filePages - pageIndex)
    let fast := s.lbaSize ≠ 0 ∧ s.blockSize ≠ 0 ∧ s.blockSize % s.lbaSize = 0 ∧
      pageSize % s.blockSize = 0
    if fast then
      (List.range count).mapM fun i =>
        s.loadPage raw (pageIndex * pageSize / s.blockSize + i * s.blocksPerPage)
    else (List.range count).mapM fun i => s.tryGetPage ino (pageIndex + i)

end Super

/-- One block of `Ext2FilePager::try_put_page`. -/
def putBlock (raw : Inode) (page : PageData) (pageIndex b : ℕ) : Ext2M Unit := do
  let s ← get
  let writable := min (raw.size - pageIndex * pageSize) pageSize
  let pageOffset := b * s.blockSize
  if pageOffset ≥ writable then pure ()
  else
    let diskBlock ← reading fun s =>
      s.resolveBlock raw (pageIndex * pageSize / s.blockSize + b)
    if diskBlock = 0 then pure ()
    else
      let copyEnd := min (min (pageOffset + s.blockSize) pageSize) writable
      -- `write_block` fills the rest of the block with zeros
      writeBlock diskBlock fun i =>
        if i < copyEnd - pageOffset then page (Fin.ofNat pageSize (pageOffset + i)) else 0

/-- `Ext2FilePager::try_put_page`. -/
def tryPutPage (ino : BitVec 32) (page : PageData) (pageIndex : ℕ) : Ext2M Unit := do
  let raw ← reading fun s => s.readInode ino
  let s ← get
  if pageIndex * pageSize ≥ raw.size then pure ()
  else (List.range s.blocksPerPage).foldlM (fun _ b => putBlock raw page pageIndex b) ()

/-! ### The page cache -/

/-- A regular file: its filesystem, the size of its `INode`, and its page cache. -/
structure RegularFile where
  fs : Super
  size : ℕ
  pages : ℕ → Option PageData
  dirty : BTreeSet ℕ id
  ra : ReadAhead

abbrev FileM := EStateM Fault RegularFile

/-- A call of the filesystem. -/
def onSuper {α : Type} (c : Ext2M α) : FileM α := fun f =>
  match c f.fs with
  | .ok a fs => .ok a { f with fs }
  | .error e fs => .error e { f with fs }

namespace RegularFile

/-- A file without cached pages. -/
def load (fs : Super) (size : ℕ) : RegularFile :=
  ⟨fs, size, fun _ => none, BTreeSet.empty, ⟨2 ^ 64 - 1, raMinPages⟩⟩

/-- The size of the next batch, with the state of the read-ahead. -/
def batchSize (f : RegularFile) (pageIndex : ℕ) : ℕ × ReadAhead :=
  let window :=
    if pageIndex = f.ra.nextExpected then min (f.ra.window * 2) raMaxPages else raMinPages
  -- a batch ends before the next page that is present
  let count := ((List.range' 1 (window - 1)).find? fun i =>
    (f.pages (pageIndex + i)).isSome).getD window
  (count, ⟨pageIndex + window, window⟩)

/-- Enter a batch, from `pageIndex` on. A page that is present stays. -/
def enter (f : RegularFile) : ℕ → List PageData → RegularFile
  | _, [] => f
  | pageIndex, page :: batch =>
    enter { f with
      pages := Function.update f.pages pageIndex ((f.pages pageIndex).or (some page)) }
        (pageIndex + 1) batch

def markDirty (f : RegularFile) (pageIndex : ℕ) : RegularFile :=
  { f with dirty := f.dirty.insert pageIndex }

/-- `PagedMemoryObject::truncate`, with the frames of the cached pages. -/
def truncateCache (f : RegularFile) (frame : ℕ → ℕ) (length : ℕ) : RegularFile :=
  let pageCount := (length + (pageSize - 1)) / pageSize
  let tailOffset := length % pageSize
  let tailPage := if tailOffset = 0 ∨ pageCount = 0 then none else f.pages (pageCount - 1)
  let pages := fun i => if i < pageCount then f.pages i else none
  let dirty := f.dirty.filter (· < pageCount)
  match tailPage with
  | none => { f with pages, dirty }
  | some _ =>
    -- the elements that are filled are of the type `i32`
    let start := frame (pageCount - 1) * pageSize
    let filled (pos : ℕ) : Bool := start + 4 * tailOffset ≤ pos ∧ pos < start + 4 * pageSize
    { f with
      pages := fun p => (pages p).map fun page i =>
        if filled (frame p * pageSize + i) then 0 else page i
      dirty := dirty.insert (pageCount - 1) }

variable (ino : BitVec 32)

/-- `PagedMemoryObject::try_get_page`. -/
def tryGetPage (pageIndex : ℕ) : FileM (Option PageData) := do
  let f ← get
  match f.pages pageIndex with
  | some page => pure (some page)
  | none =>
    let (count, ra) := f.batchSize pageIndex
    set { f with ra }
    let batch ← onSuper (reading fun s => s.tryGetPages ino pageIndex count)
    modify fun f => f.enter pageIndex batch
    pure batch.head?

/-- `MemoryObject::read`, in at most `fuel` rounds. -/
def readCache : ℕ → ℕ → ℕ → FileM (List (BitVec 8))
  | 0, _, _ => pure []
  | fuel + 1, offset, remaining => if remaining = 0 then pure [] else do
    let misalign := offset % pageSize
    let copySize := min (pageSize - misalign) remaining
    match ← tryGetPage ino (offset / pageSize) with
    | none => pure []
    | some page =>
      let rest ← readCache fuel (offset + copySize) (remaining - copySize)
      pure ((List.range copySize).map (fun i => page (Fin.ofNat pageSize (misalign + i))) ++ rest)

/-- Overwrite bytes of a page. -/
def patch (page : PageData) (misalign : ℕ) (data : List (BitVec 8)) : PageData := fun i =>
  if misalign ≤ i ∧ i < misalign + data.length then data.getD (i - misalign) 0 else page i

/-- `MemoryObject::write`, in at most `fuel` rounds, with the number of bytes that are written. -/
def writeCache : ℕ → ℕ → List (BitVec 8) → FileM ℕ
  | 0, _, _ => pure 0
  | fuel + 1, offset, buffer => if buffer = [] then pure 0 else do
    let misalign := offset % pageSize
    let pageIndex := offset / pageSize
    let copySize := min (pageSize - misalign) buffer.length
    match ← tryGetPage ino pageIndex with
    | none => pure 0
    | some page =>
      modify fun f => { f with
        pages := Function.update f.pages pageIndex
          (some (patch page misalign (buffer.take copySize))) }
      let rest ← writeCache fuel (offset + copySize) (buffer.drop copySize)
      pure (copySize + rest)

/-- `PagedMemoryObject::writeback`. -/
def writeback : List ℕ → FileM (EResult Unit)
  | [] => pure (.ok ())
  | idx :: rest => do
    let f ← get
    match f.pages idx with
    | none => writeback rest
    | some page =>
      let put ← fun f => match onSuper (tryPutPage ino page idx) f with
        | .ok () f => .ok true f
        | .error (.errno _) f => .ok false f
        | .error .panic f => .error .panic f
      if put then writeback rest
      else
        modify (·.markDirty idx)
        let _ ← writeback rest
        pure (.error .eio)

/-- The error of a result. -/
def raise : EResult Unit → FileM Unit
  | .ok () => pure ()
  | .error e => throw (.errno e)

/-- `PagedMemoryObject::sync`. -/
def sync : FileM Unit := do
  let f ← get
  set { f with dirty := BTreeSet.empty }
  raise (← writeback ino f.dirty.elems)

/-- `PagedMemoryObject::sync_range`. -/
def syncRange (startPage endPage : ℕ) : FileM Unit := do
  let f ← get
  let inRange (idx : ℕ) : Bool := startPage ≤ idx ∧ idx < endPage
  set { f with dirty := f.dirty.filter (!inRange ·) }
  raise (← writeback ino (f.dirty.elems.filter inRange))

/-- The loop of `PagedMemoryObject::read_direct`, in at most `fuel` rounds. -/
def readFrames : ℕ → ℕ → ℕ → FileM (List (BitVec 8))
  | 0, _, _ => pure []
  | fuel + 1, offset, remaining => if remaining = 0 then pure [] else do
    let misalign := offset % pageSize
    let want := min ((misalign + remaining + (pageSize - 1)) / pageSize) raMaxPages
    let frames ← onSuper (reading fun s => s.tryGetPages ino (offset / pageSize) want)
    if frames = [] then pure []
    else
      let copySize := min (frames.length * pageSize - misalign) remaining
      let rest ← readFrames fuel (offset + copySize) (remaining - copySize)
      pure ((List.range copySize).map (fun i =>
        frames.getD ((misalign + i) / pageSize) (fun _ => 0) (Fin.ofNat pageSize (misalign + i)))
          ++ rest)

/-- `PagedMemoryObject::read_direct`. -/
def readDirect (offset len : ℕ) : FileM (List (BitVec 8)) := do
  if len = 0 then pure []
  else
    syncRange ino (offset / pageSize) ((offset + len + (pageSize - 1)) / pageSize)
    readFrames ino len offset len

/-! ### The calls -/

/-- `Ext2Regular::read`. -/
def read (direct : Bool) (offset len : ℕ) : FileM (List (BitVec 8)) := do
  let f ← get
  if offset ≥ f.size then pure []
  else
    let copySize := min len (f.size - offset)
    if direct then readDirect ino offset copySize else readCache ino copySize offset copySize

/-- Allocate the blocks of a range that do not exist yet. -/
def allocRange (raw : Inode) (startBlock endBlock : ℕ) : Ext2M Inode :=
  (List.range' startBlock (endBlock - startBlock)).foldlM (fun raw lb => do
    let diskBlock ← reading fun s => s.resolveBlock raw lb
    if diskBlock = 0 then do
      let (_, raw) ← allocBlockForInode ino raw lb
      pure raw
    else pure raw) raw

/-- The size on disk and in the `INode` before the bytes are written. -/
def growTo (raw : Inode) (newSize : ℕ) : FileM Inode := do
  if newSize > raw.size then
    onSuper (writeInode ino (raw.setSize newSize))
    modify fun f => { f with size := newSize }
    pure (raw.setSize newSize)
  else pure raw

/-- `Ext2Regular::write`. -/
def write (direct : Bool) (offset : ℕ) (buffer : List (BitVec 8)) : FileM ℕ := do
  let f ← get
  let blockSize := f.fs.blockSize
  let writeEnd := offset + buffer.length
  let raw ← onSuper (reading fun s => s.readInode ino)
  let raw ← onSuper (allocRange ino raw (offset / blockSize)
    ((writeEnd + (blockSize - 1)) / blockSize))
  let raw ← growTo ino raw (max writeEnd f.size)
  let actual ← writeCache ino buffer.length offset buffer
  if actual = 0 ∧ buffer ≠ [] then throw (.errno .eio)
  else
    let startPage := offset / pageSize
    let endPage := (offset + actual + (pageSize - 1)) / pageSize
    modify fun f => (List.range' startPage (endPage - startPage)).foldl markDirty f
    if direct then syncRange ino startPage endPage
    let f ← get
    let newSize := max (offset + actual) f.size
    set { f with size := newSize }
    onSuper (writeInode ino (raw.setSize newSize))
    pure actual

/-- `Ext2Regular::truncate`. -/
def truncate (frame : ℕ → ℕ) (newLength : ℕ) : FileM Unit := do
  let raw ← onSuper (reading fun s => s.readInode ino)
  let f ← get
  let raw ← if newLength < raw.size then
      onSuper (truncateBlocks raw ((newLength + (f.fs.blockSize - 1)) / f.fs.blockSize))
    else pure raw
  modify (·.truncateCache frame newLength)
  onSuper (writeInode ino (raw.setSize newLength))
  modify fun f => { f with size := newLength }

/-- The cache is dropped, and the inode is loaded again. A failed write back only prints a warning
in `drop`, and loses the pages; here the call fails. -/
def evict : FileM Unit := do
  sync ino
  let raw ← onSuper (reading fun s => s.readInode ino)
  modify fun f => load f.fs raw.size

end RegularFile

/-! ### Runs -/

/-- A file as an array of bytes. -/
@[ext]
structure Contents where
  length : ℕ
  bytes : ℕ → BitVec 8
  zero : ∀ i, length ≤ i → bytes i = 0

namespace Contents

variable (c : Contents)

def read (offset len : ℕ) : List (BitVec 8) :=
  (List.range (min len (c.length - offset))).map fun i => c.bytes (offset + i)

def write (offset : ℕ) (data : List (BitVec 8)) : Contents where
  length := max c.length (offset + data.length)
  bytes i := if offset ≤ i ∧ i < offset + data.length then data.getD (i - offset) 0 else c.bytes i
  zero i hi := by
    rw [max_le_iff] at hi
    rw [if_neg (by omega)]
    exact c.zero i hi.1

/-- The tail is removed, or zeros are added. -/
def truncate (newLength : ℕ) : Contents where
  length := newLength
  bytes i := if i < newLength then c.bytes i else 0
  zero _ hi := if_neg (Nat.not_lt.mpr hi)

end Contents

/-- A call on a file. -/
inductive FileCall where
  | read (direct : Bool) (offset len : ℕ)
  | write (direct : Bool) (offset : ℕ) (buffer : List (BitVec 8))
  | truncate (frame : ℕ → ℕ) (newLength : ℕ)
  | fsync
  | evict

namespace FileCall

/-- Run a call, with the bytes that are read. -/
def run (ino : BitVec 32) : FileCall → FileM (List (BitVec 8))
  | read direct offset len => RegularFile.read ino direct offset len
  | write direct offset buffer => do
    let _ ← RegularFile.write ino direct offset buffer
    pure []
  | truncate frame newLength => do
    RegularFile.truncate ino frame newLength
    pure []
  | fsync => do
    RegularFile.sync ino
    pure []
  | evict => do
    RegularFile.evict ino
    pure []

/-- What a call does to the array of bytes. -/
def apply : FileCall → Contents → Contents
  | write _ offset buffer, c => c.write offset buffer
  | truncate _ newLength, c => c.truncate newLength
  | _, c => c

/-- Positions in a file are values of `off_t`, and writes are not empty. -/
def Valid : FileCall → Prop
  | write _ offset buffer => offset + buffer.length < 2 ^ 63 ∧ buffer ≠ []
  | truncate _ newLength => newLength < 2 ^ 63
  | _ => True

/-- A page holds whole blocks. A file is not cut inside a block, and its new end is not inside a
cached page. -/
def Careful (f : RegularFile) : FileCall → Prop
  | truncate _ newLength => pageSize % f.fs.blockSize = 0 ∧
    (newLength < f.size → newLength % f.fs.blockSize = 0) ∧
    (newLength % pageSize = 0 ∨ f.pages (newLength / pageSize) = none)
  | _ => pageSize % f.fs.blockSize = 0

end FileCall

/-- A call that succeeds. -/
inductive FileStep (ino : BitVec 32) (Guard : RegularFile → FileCall → Prop) :
    RegularFile × Contents → RegularFile × Contents → Prop
  | call {f f' : RegularFile} {c : Contents} {data : List (BitVec 8)} (call : FileCall) :
    call.Valid → Guard f call → (call.run ino).run f = .ok data f' →
    FileStep ino Guard (f, c) (f', call.apply c)

end Ext2

end Zinnia
