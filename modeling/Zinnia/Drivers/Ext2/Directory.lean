import Zinnia.Drivers.Ext2.Regular

/-!
# Directories

The blocks of a directory are chains of records: each record has the length to the next one, and
the last record ends with the block. A record without an inode is dead. The chains are kept apart
from the bytes of the other blocks.
-/

namespace Zinnia

namespace Ext2

/-- The name of a directory entry. -/
abbrev Name := List (BitVec 8)

/-- On-disk directory entry. The length of the name is its `name_len`. -/
structure DirEntry where
  inode : BitVec 32
  recLen : BitVec 16
  fileType : BitVec 8
  name : Name
deriving DecidableEq

/-- `size_of::<Ext2DirEntry>()`. -/
abbrev sizeOfDirEntry : ℕ := 8

/-- The length of a record with a name, aligned to four bytes. -/
def recordLen (name : Name) : ℕ := (sizeOfDirEntry + name.length + 3) / 4 * 4

namespace DirEntry

variable (e : DirEntry)

/-- The bytes of a record that are in use. -/
def actualLen : ℕ := if e.inode ≠ 0 then recordLen e.name else 0

/-- The bytes behind them. The subtraction wraps. -/
def freeSpace : ℕ := (e.recLen.toNat + 2 ^ 64 - e.actualLen) % 2 ^ 64

/-- The loops over a block stop at a record that does not fit, or has no length. -/
def AtEnd (blockSize pos : ℕ) : Prop := pos + sizeOfDirEntry > blockSize ∨ e.recLen = 0
deriving Decidable

/-- The record has the name. -/
def Matches (name : Name) : Prop := e.inode ≠ 0 ∧ e.name = name
deriving Decidable

end DirEntry

/-- A new record. The length of its name has eight bits. -/
def newEntry (inode : BitVec 32) (recLen : BitVec 16) (fileType : BitVec 8) (name : Name) :
    DirEntry :=
  ⟨inode, recLen, fileType, name.take (name.length % 256)⟩

/-- The loop of `add_entry` over a block. -/
def insertRecord (blockSize : ℕ) (inode : BitVec 32) (fileType : BitVec 8) (name : Name) :
    ℕ → List DirEntry → Option (List DirEntry)
  | _, [] => none
  | pos, e :: rest =>
    if e.AtEnd blockSize pos then none
    else if e.freeSpace ≥ recordLen name then
      if e.inode ≠ 0 then
        -- shrink the existing entry, and write the new one after it
        let newRecLen := BitVec.ofNat 16 e.actualLen
        some ({ e with recLen := newRecLen } ::
          newEntry inode (e.recLen - newRecLen) fileType name :: rest)
      else some (newEntry inode e.recLen fileType name :: rest)
    else (insertRecord blockSize inode fileType name (pos + e.recLen.toNat) rest).map (e :: ·)

/-- The loop of `remove_entry` over a block, after a previous record. -/
def removeAfter (blockSize : ℕ) (name : Name) :
    DirEntry → ℕ → List DirEntry → Option (BitVec 32 × List DirEntry)
  | _, _, [] => none
  | prev, pos, e :: rest =>
    if e.AtEnd blockSize pos then none
    else if e.Matches name then
      -- merge with the previous entry
      some (e.inode, { prev with recLen := prev.recLen + e.recLen } :: rest)
    else (removeAfter blockSize name e (pos + e.recLen.toNat) rest).map fun r =>
      (r.1, prev :: r.2)

/-- The loop of `remove_entry` over a block. -/
def removeRecord (blockSize : ℕ) (name : Name) : List DirEntry → Option (BitVec 32 × List DirEntry)
  | [] => none
  | e :: rest =>
    if e.AtEnd blockSize 0 then none
    -- the first entry of a block is marked as deleted
    else if e.Matches name then some (e.inode, { e with inode := 0 } :: rest)
    else removeAfter blockSize name e e.recLen.toNat rest

/-! ### Directories -/

/-- A filesystem, with the records of its directory blocks. -/
structure DirFs where
  fs : Super
  records : ℕ → List DirEntry

abbrev DirM := EStateM Fault DirFs

/-- A call of the filesystem. -/
def onFs {α : Type} (c : Ext2M α) : DirM α := fun s =>
  match c s.fs with
  | .ok a fs => .ok a { s with fs }
  | .error e fs => .error e { s with fs }

/-- Read the records of a block. -/
def readRecords (block : ℕ) : DirM (List DirEntry) := do
  let _ ← onFs (reading fun s => s.readBlock block)
  let s ← get
  pure (s.records block)

/-- The records of a block are replaced, as are those of the blocks with the same first sector. -/
def DirFs.setRecords (s : DirFs) (block : ℕ) (records : List DirEntry) : DirFs :=
  { s with records := fun b =>
      if s.fs.blockStart b = s.fs.blockStart block then records else s.records b }

/-- Write the records of a block. -/
def writeRecords (block : ℕ) (records : List DirEntry) : DirM Unit := do
  onFs (writing (.block block) id)
  modify fun s => s.setRecords block records

/-- The number of blocks of a directory. -/
def Super.dirBlocks (s : Super) (raw : Inode) : ℕ := (raw.size + (s.blockSize - 1)) / s.blockSize

/-- The loop of `add_entry` and `remove_entry` over the blocks of a directory: the first block that
can be edited is written. -/
def editBlocks {α : Type} (raw : Inode) (edit : ℕ → List DirEntry → Option (α × List DirEntry)) :
    List ℕ → DirM (Option α)
  | [] => pure none
  | b :: blocks => do
    let diskBlock ← onFs (reading fun s => s.resolveBlock raw b)
    if diskBlock = 0 then editBlocks raw edit blocks
    else
      let records ← readRecords diskBlock
      let s ← get
      match edit s.fs.blockSize records with
      | some (result, records) =>
        writeRecords diskBlock records
        pure (some result)
      | none => editBlocks raw edit blocks

/-- A new block of a directory, with one record. -/
def addBlock (dir : BitVec 32) (raw : Inode) (inode : BitVec 32) (fileType : BitVec 8)
    (name : Name) : DirM Unit := do
  let s ← get
  let newLogical := s.fs.dirBlocks raw
  let (newDiskBlock, raw) ← onFs (allocBlockForInode dir raw newLogical)
  if sizeOfDirEntry + name.length > s.fs.blockSize then throw .panic
  else
    writeRecords newDiskBlock
      [newEntry inode (BitVec.ofNat 16 s.fs.blockSize) fileType name]
    let newSize := (newLogical + 1) * s.fs.blockSize
    onFs (writeInode dir { raw with iSize := BitVec.ofNat 32 newSize })

/-- `Ext2Dir::add_entry`. -/
def addEntry (dir inode : BitVec 32) (fileType : BitVec 8) (name : Name) : DirM Unit := do
  let raw ← onFs (reading fun s => s.readInode dir)
  let s ← get
  match ← editBlocks raw (fun blockSize records =>
      (insertRecord blockSize inode fileType name 0 records).map (((), ·)))
      (List.range (s.fs.dirBlocks raw)) with
  | some () => pure ()
  | none => addBlock dir raw inode fileType name

/-- `Ext2Dir::remove_entry`. -/
def removeEntry (dir : BitVec 32) (name : Name) : DirM (BitVec 32) := do
  let raw ← onFs (reading fun s => s.readInode dir)
  let s ← get
  match ← editBlocks raw (fun blockSize => removeRecord blockSize name)
      (List.range (s.fs.dirBlocks raw)) with
  | some removed => pure removed
  | none => throw (.errno .enoent)

/-- `i_links_count.saturating_sub(1)`. -/
def Inode.unlinked (raw : Inode) : Inode :=
  { raw with iLinksCount := if raw.iLinksCount = 0 then 0 else raw.iLinksCount - 1 }

/-- The removal of an existing target in `rename`. -/
def removeTarget (targetDir : BitVec 32) (newName : Name) (existing : BitVec 32) : DirM Unit := do
  let _ ← removeEntry targetDir newName
  let raw ← onFs (reading fun s => s.readInode existing)
  onFs (writeInode existing raw.unlinked)

/-- The arguments of `rename`: the two names, the inode and the type of the file, and the inode of
the new name, as they were looked up. -/
structure Rename where
  dir : BitVec 32
  oldName : Name
  inode : BitVec 32
  fileType : BitVec 8
  targetDir : BitVec 32
  newName : Name
  existing : Option (BitVec 32)

/-- `Ext2Dir::rename`. The target is a directory of the same filesystem. -/
def Rename.run (r : Rename) : DirM Unit := do
  match r.existing with
  | some existing => removeTarget r.targetDir r.newName existing
  | none => pure ()
  let _ ← removeEntry r.dir r.oldName
  addEntry r.targetDir r.inode r.fileType r.newName

/-! ### Entries -/

/-- The names and inodes of the records in use. -/
def live (records : List DirEntry) : List (Name × BitVec 32) :=
  (records.filter fun e => e.inode ≠ 0 ∧ e.name ≠ []).map fun e => (e.name, e.inode)

/-- The block of a file on the device, or 0, if all blocks can be read. -/
def Super.diskBlock (s : Super) (raw : Inode) (b : ℕ) : ℕ :=
  match Super.resolveBlock { s with unreadable := fun _ => false } raw b with
  | .ok diskBlock => diskBlock
  | .error _ => 0

namespace DirFs

variable (s : DirFs)

/-- The disk blocks of a directory. -/
def blocksOf (d : BitVec 32) : List ℕ :=
  ((List.range (s.fs.dirBlocks (s.fs.inodes d))).map (s.fs.diskBlock (s.fs.inodes d))).filter
    (· ≠ 0)

/-- The entries of a directory. -/
def entries (d : BitVec 32) : List (Name × BitVec 32) :=
  (s.blocksOf d).flatMap fun block => live (s.records block)

/-- The number of entries of some directories that name an inode. -/
def linksTo (dirs : Finset (BitVec 32)) (i : BitVec 32) : ℕ :=
  ∑ d ∈ dirs, ((s.entries d).countP fun entry => entry.2 = i)

end DirFs

/-- The chain of a block: every record has room for what it holds, and the last one ends with the
block. -/
structure Chain (blockSize : ℕ) (records : List DirEntry) : Prop where
  room : ∀ e ∈ records, sizeOfDirEntry ≤ e.recLen.toNat ∧ e.actualLen ≤ e.recLen.toNat
  names : ∀ e ∈ records, e.inode ≠ 0 → e.name ≠ [] ∧ e.name.length < 256
  sum : (records.map fun e => e.recLen.toNat).sum = blockSize

/-- Directories as they are on a valid filesystem. -/
structure WellFormed (s : DirFs) (dirs : Finset (BitVec 32)) : Prop where
  blockSize : 1024 ≤ s.fs.blockSize ∧ s.fs.blockSize < 2 ^ 16
  readInode : ∀ ino, s.fs.readInode ino ≠ .error .panic
  healthy : ∀ d ∈ dirs, Healthy s.fs (s.fs.inodes d)
  disjoint : ∀ d ∈ dirs, ∀ d' ∈ dirs, d ≠ d' →
    List.Disjoint (s.fs.inodeBlocks (s.fs.inodes d)) (s.fs.inodeBlocks (s.fs.inodes d'))
  isDir : ∀ d ∈ dirs, (s.fs.inodes d).isReg = false
  size : ∀ d ∈ dirs, (s.fs.inodes d).size % s.fs.blockSize = 0
  chain : ∀ d ∈ dirs, ∀ block ∈ s.blocksOf d, Chain s.fs.blockSize (s.records block)
  unique : ∀ d ∈ dirs, ((s.entries d).map Prod.fst).Nodup

/-- The link counts are the numbers of entries. -/
def Linked (s : DirFs) (dirs : Finset (BitVec 32)) : Prop :=
  ∀ i, (s.fs.inodes i).iLinksCount.toNat = s.linksTo dirs i

/-! ### Renaming -/

/-- The names and the inodes are those of the directories. -/
structure Rename.Valid (r : Rename) (dirs : Finset (BitVec 32)) (s : DirFs) : Prop where
  wellFormed : WellFormed s dirs
  linked : Linked s dirs
  dir : r.dir ∈ dirs
  targetDir : r.targetDir ∈ dirs
  old : (r.oldName, r.inode) ∈ s.entries r.dir
  existing : ∀ i, r.existing = some i ↔ (r.newName, i) ∈ s.entries r.targetDir

/-- The entries in all blocks and the inodes are as before. -/
structure Unchanged (s s' : DirFs) : Prop where
  entries : ∀ block, live (s'.records block) = live (s.records block)
  inodes : s'.fs.inodes = s.fs.inodes

namespace DirFs

variable (s : DirFs)

/-- The directory without a name. -/
def without (d : BitVec 32) (name : Name) : DirFs :=
  { s with
    records := fun block =>
      if block ∈ s.blocksOf d then
        ((removeRecord s.fs.blockSize name (s.records block)).map Prod.snd).getD (s.records block)
      else s.records block }

/-- One link less to an inode. -/
def unlink (i : BitVec 32) : DirFs :=
  { s with fs := { s.fs with
    inodes := Function.update s.fs.inodes i (s.fs.inodes i).unlinked } }

/-- A block of a directory can be looked up, and read if it exists. -/
def BlockReadable (raw : Inode) (b : ℕ) : Prop :=
  ∃ k, s.fs.resolveBlock raw b = .ok k ∧ (k = 0 ∨ s.fs.unreadable (.block k) = false)

/-- The inode and the blocks up to the one with the name can be read, and the block can be
written. -/
def CanRemove (d : BitVec 32) (name : Name) : Prop :=
  (s.fs.readInode d).isOk ∧ ∃ b < s.fs.dirBlocks (s.fs.inodes d),
    (∀ b' ≤ b, s.BlockReadable (s.fs.inodes d) b') ∧
    s.fs.diskBlock (s.fs.inodes d) b ≠ 0 ∧
    s.fs.unwritable (.block (s.fs.diskBlock (s.fs.inodes d) b)) = false ∧
    name ∈ (live (s.records (s.fs.diskBlock (s.fs.inodes d) b))).map Prod.fst

/-- An inode can be read and written. -/
def CanUpdate (i : BitVec 32) : Prop :=
  (s.fs.readInode i).isOk ∧ s.fs.unwritable (.inode i) = false

/-- A record of a block has room for a name. -/
def HasRoom (raw : Inode) (name : Name) (b : ℕ) : Prop :=
  s.fs.diskBlock raw b ≠ 0 ∧ ∃ e ∈ s.records (s.fs.diskBlock raw b),
    recordLen name ≤ e.recLen.toNat - e.actualLen

/-- The blocks up to the first one with room can be read, and the block can be written. -/
def CanInsert (d : BitVec 32) (name : Name) : Prop :=
  ∃ b < s.fs.dirBlocks (s.fs.inodes d), (∀ b' ≤ b, s.BlockReadable (s.fs.inodes d) b') ∧
    (∀ b' < b, ¬ s.HasRoom (s.fs.inodes d) name b') ∧ s.HasRoom (s.fs.inodes d) name b ∧
    s.fs.unwritable (.block (s.fs.diskBlock (s.fs.inodes d) b)) = false

/-- No block has room. All of them can be read, a block can be allocated behind the last one, and
the size fits in `i_size`. -/
def CanGrow (d : BitVec 32) (name : Name) : Prop :=
  (∀ b < s.fs.dirBlocks (s.fs.inodes d), s.BlockReadable (s.fs.inodes d) b ∧
    ¬ s.HasRoom (s.fs.inodes d) name b) ∧
  (∃ b fs, (allocBlockForInode d (s.fs.inodes d) (s.fs.dirBlocks (s.fs.inodes d))).run s.fs =
    .ok b fs) ∧ (s.fs.dirBlocks (s.fs.inodes d) + 1) * s.fs.blockSize < 2 ^ 32

/-- The inode can be read, and a name can be added to a block or in a new one. -/
def CanAdd (d : BitVec 32) (name : Name) : Prop :=
  (s.fs.readInode d).isOk ∧ (s.CanInsert d name ∨ s.CanGrow d name)

end DirFs

/-- The names are different, and nothing that follows the first write can fail; or the first write
cannot take place. New names have at most 255 bytes. -/
def Rename.Careful (r : Rename) (s : DirFs) : Prop :=
  match r.existing with
  | none => ¬ s.CanRemove r.dir r.oldName ∨
    (s.without r.dir r.oldName).CanAdd r.targetDir r.newName ∧
      r.newName ≠ [] ∧ r.newName.length < 256
  | some existing => ¬ s.CanRemove r.targetDir r.newName ∨
    (r.dir, r.oldName) ≠ (r.targetDir, r.newName) ∧ s.CanUpdate existing ∧
      s.CanRemove r.dir r.oldName ∧
      (((s.without r.targetDir r.newName).unlink existing).without r.dir r.oldName).CanAdd
        r.targetDir r.newName

end Ext2

end Zinnia
