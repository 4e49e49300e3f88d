import Zinnia.Util

/-!
# The ext2 filesystem

The blocks of the device hold bytes; the bitmaps and the inode tables are kept apart from the other
blocks. The device may fail to read or to write any of them. It transfers whole sectors, so that a
write to one block changes others too if the blocks are not made of whole sectors.

`panic` stands for a division by zero and for an access outside of a buffer or a table. Block
numbers are computed in 64 bits, where they do not overflow.
-/

namespace Zinnia

open Function

namespace Ext2

/-- How a call can fail. -/
inductive Fault where
  | errno (e : Errno)
  | panic
deriving DecidableEq

/-- What the bitmaps keep account of. -/
inductive Pool where
  | blocks
  | inodes
deriving DecidableEq

/-- The bytes of a block. -/
abbrev Block := ℕ → BitVec 8

/-- What is read or written at once. -/
inductive Sector where
  | block (block : ℕ)
  | bitmap (pool : Pool) (group : ℕ)
  | inode (ino : BitVec 32)
deriving DecidableEq

/-- `EXT2_NDIR_BLOCKS`. -/
abbrev nDirBlocks : ℕ := 12

/-- `EXT2_N_BLOCKS`. -/
abbrev nBlocks : ℕ := 15

instance : NeZero nBlocks := ⟨by decide⟩

lemma nDirBlocks_le : nDirBlocks ≤ nBlocks := by decide

/-- The ext2 superblock. -/
structure SuperBlock where
  sInodesCount : BitVec 32
  sBlocksCount : BitVec 32
  /-- `s_free_blocks_count` and `s_free_inodes_count`. -/
  sFreeCount : Pool → BitVec 32
  sFirstDataBlock : BitVec 32
  sLogBlockSize : BitVec 32
  sBlocksPerGroup : BitVec 32
  sInodesPerGroup : BitVec 32
  sMagic : BitVec 16
  sRevLevel : BitVec 32
  sInodeSize : BitVec 16
  sFeatureIncompat : BitVec 32
  sFeatureRoCompat : BitVec 32

/-- Block group descriptor. -/
structure BlockGroupDesc where
  /-- `bg_block_bitmap` and `bg_inode_bitmap`. -/
  bgBitmap : Pool → BitVec 32
  bgInodeTable : BitVec 32
  /-- `bg_free_blocks_count` and `bg_free_inodes_count`. -/
  bgFreeCount : Pool → BitVec 16
  bgUsedDirsCount : BitVec 16

/-- On-disk inode structure. -/
structure Inode where
  iMode : BitVec 16
  iSize : BitVec 32
  iLinksCount : BitVec 16
  iBlocks : BitVec 32
  iBlock : Fin nBlocks → BitVec 32
  iDirAcl : BitVec 32

/-- The in-memory ext2 superblock, and the device. -/
structure Super where
  raw : SuperBlock
  blockSize : ℕ
  inodesPerGroup : BitVec 32
  blocksPerGroup : BitVec 32
  inodeSize : ℕ
  /-- `bgdt.len()`. -/
  groupCount : ℕ
  bgdt : ℕ → BlockGroupDesc
  lbaSize : ℕ
  /-- The bytes that are read for a block. -/
  blocks : ℕ → Block
  bitmaps : Pool → ℕ → Block
  inodes : BitVec 32 → Inode
  unreadable : Sector → Bool
  unwritable : Sector → Bool

/-- Calls that change the filesystem. -/
abbrev Ext2M := EStateM Fault Super

/-- A call that only reads. -/
def reading {α : Type} (f : Super → Except Fault α) : Ext2M α := fun s =>
  match f s with
  | .ok a => .ok a s
  | .error e => .error e s

/-- A write to the device. -/
def writing (sector : Sector) (f : Super → Super) : Ext2M Unit := fun s =>
  if s.unwritable sector then .error (.errno .eio) s else .ok () (f s)

/-- The handler runs if the call returns an error. -/
def onError {α : Type} (c : Ext2M α) (handler : Errno → Ext2M α) : Ext2M α := fun s =>
  match c s with
  | .error (.errno e) s => handler e s
  | result => result

/-! ### Blocks and inodes -/

/-- `u32::from_le_bytes`, for the pointer at an index. -/
def ptr (buf : Block) (index : ℕ) : BitVec 32 :=
  buf (index * 4 + 3) ++ buf (index * 4 + 2) ++ buf (index * 4 + 1) ++ buf (index * 4)

/-- Write the pointer at an index, `u32::to_le_bytes`. -/
def setPtr (buf : Block) (index : ℕ) (value : BitVec 32) : Block := fun i =>
  if i / 4 = index then value.extractLsb' (8 * (i % 4)) 8 else buf i

/-- `vec![0u8; block_size]`. -/
def zeros : Block := fun _ => 0

namespace Super

/-- `Ext2Super::read_block`. -/
def readBlock (s : Super) (block : ℕ) : Except Fault Block :=
  if s.unreadable (.block block) then .error (.errno .eio) else .ok (s.blocks block)

/-- `block_size / 4`. -/
def ptrs (s : Super) : ℕ := s.blockSize / 4

/-- `Ext2Super::read_block_ptr`. -/
def readBlockPtr (s : Super) (block index : ℕ) : Except Fault ℕ := do
  let buf ← s.readBlock block
  if index * 4 + 4 > s.blockSize then .error (.errno .einval) else .ok (ptr buf index).toNat

/-- `Ext2Super::resolve_block`. -/
def resolveBlock (s : Super) (raw : Inode) (logicalBlock : ℕ) : Except Fault ℕ :=
  let ptrs := s.ptrs
  if h : logicalBlock < nDirBlocks then
    .ok (raw.iBlock ⟨logicalBlock, Nat.lt_of_lt_of_le h nDirBlocks_le⟩).toNat
  else
    let lb := logicalBlock - nDirBlocks
    if lb < ptrs then
      let indBlock := (raw.iBlock 12).toNat
      if indBlock = 0 then .ok 0
      else s.readBlockPtr indBlock lb
    else
      let lb := lb - ptrs
      if lb < ptrs * ptrs then
        let dindBlock := (raw.iBlock 13).toNat
        if dindBlock = 0 then .ok 0
        else do
          let indBlock ← s.readBlockPtr dindBlock (lb / ptrs)
          if indBlock = 0 then .ok 0
          else s.readBlockPtr indBlock (lb % ptrs)
      else
        let lb := lb - ptrs * ptrs
        if lb < ptrs * ptrs * ptrs then
          let tindBlock := (raw.iBlock 14).toNat
          if tindBlock = 0 then .ok 0
          else do
            let dindBlock ← s.readBlockPtr tindBlock (lb / (ptrs * ptrs))
            if dindBlock = 0 then .ok 0
            else
              let remainder := lb % (ptrs * ptrs)
              let indBlock ← s.readBlockPtr dindBlock (remainder / ptrs)
              if indBlock = 0 then .ok 0
              else s.readBlockPtr indBlock (remainder % ptrs)
        else .error (.errno .efbig)

/-- The first byte of the sectors of a block. -/
def blockStart (s : Super) (block : ℕ) : ℕ := block * s.blockSize / s.lbaSize * s.lbaSize

/-- The number of bytes of these sectors. -/
def blockSpan (s : Super) : ℕ := (s.blockSize + (s.lbaSize - 1)) / s.lbaSize * s.lbaSize

/-- What is read for a block that held `old`, after `buf` was written to the sectors of another. The
rest of these sectors is filled with zeros. -/
def overlaid (s : Super) (written : ℕ) (buf : Block) (block : ℕ) (old : Block) : Block :=
  let start := s.blockStart written
  if s.blockStart block = start then buf
  else fun i =>
    let pos := s.blockStart block + i
    if i < s.blockSize ∧ start ≤ pos ∧ pos < start + s.blockSpan then
      if pos - start < s.blockSize then buf (pos - start) else 0
    else old i

/-- The block of a bitmap. -/
def bitmapBlock (s : Super) (pool : Pool) (group : ℕ) : ℕ := ((s.bgdt group).bgBitmap pool).toNat

/-- Read a bitmap. -/
def readBitmap (s : Super) (pool : Pool) (group : ℕ) : Except Fault Block :=
  if s.unreadable (.bitmap pool group) then .error (.errno .eio) else .ok (s.bitmaps pool group)

/-- The numbers of an inode's group and of the inode in it. -/
def inodeSlot (s : Super) (ino : BitVec 32) : Except Fault (ℕ × ℕ) :=
  if s.inodesPerGroup = 0 then .error .panic
  else .ok (((ino - 1) / s.inodesPerGroup).toNat, ((ino - 1) % s.inodesPerGroup).toNat)

/-- `size_of::<Ext2Inode>()`. -/
abbrev sizeOfInode : ℕ := 128

/-- The offset of an inode in the buffer of its sectors, and the size of the buffer. -/
def inodeSpan (s : Super) (group index : ℕ) : ℕ × ℕ :=
  let byteOffset :=
    ((s.bgdt group).bgInodeTable.toNat * s.blockSize + index * s.inodeSize) % 2 ^ 64
  let lbaOffset := byteOffset % s.lbaSize
  let numLbas := (lbaOffset + s.inodeSize + (s.lbaSize - 1)) / s.lbaSize
  (lbaOffset, numLbas * s.lbaSize)

/-- Find the sectors of an inode, in `read_inode` and `write_inode`. -/
def findInode (s : Super) (ino : BitVec 32) : Except Fault (ℕ × ℕ) :=
  if ino = 0 then .error (.errno .einval)
  else do
    let (group, index) ← s.inodeSlot ino
    if group ≥ s.groupCount then .error (.errno .einval)
    else if s.lbaSize = 0 then .error .panic
    else
      let span := s.inodeSpan group index
      -- `BlockBuffer::new` needs at least one byte
      if span.2 = 0 then .error (.errno .einval) else .ok span

/-- `Ext2Super::read_inode`. -/
def readInode (s : Super) (ino : BitVec 32) : Except Fault Inode := do
  let span ← s.findInode ino
  if s.unreadable (.inode ino) then .error (.errno .eio)
  else if span.1 + sizeOfInode > span.2 then .error .panic
  else .ok (s.inodes ino)

end Super

/-- `Ext2Super::write_inode`. -/
def writeInode (ino : BitVec 32) (raw : Inode) : Ext2M Unit := do
  -- the sectors are read, patched and written
  let _ ← reading fun s => s.readInode ino
  writing (.inode ino) fun s => { s with inodes := update s.inodes ino raw }

/-- `Ext2Super::write_block`. -/
def writeBlock (block : ℕ) (buf : Block) : Ext2M Unit :=
  writing (.block block) fun s => { s with blocks := fun b => s.overlaid block buf b (s.blocks b) }

/-- `Ext2Super::write_block_ptr`. -/
def writeBlockPtr (block index value : ℕ) : Ext2M Unit := do
  let buf ← reading fun s => s.readBlock block
  let s ← get
  if index * 4 + 4 > s.blockSize then throw (.errno .einval)
  else writeBlock block (setPtr buf index (BitVec.ofNat 32 value))

/-! ### Bitmaps -/

/-- The first clear bit of a bitmap. -/
def firstClear (bitmap : Block) (blockSize : ℕ) : Option ℕ :=
  (List.range blockSize).findSome? fun byteIdx =>
    if bitmap byteIdx = 0xFF then none
    else ((List.range 8).find? fun bit => bitmap byteIdx &&& (1#8 <<< bit) = 0).map
      (byteIdx * 8 + ·)

/-- Write a bitmap. -/
def writeBitmap (pool : Pool) (group : ℕ) (bitmap : Block) : Ext2M Unit :=
  writing (.bitmap pool group) fun s => { s with
    bitmaps := fun pool' group' =>
      if group' < s.groupCount then
        s.overlaid (s.bitmapBlock pool group) bitmap (s.bitmapBlock pool' group')
          (s.bitmaps pool' group')
      else s.bitmaps pool' group' }

/-- Change the counters of a group and of the superblock. -/
def Super.count (s : Super) (pool : Pool) (group : ℕ) (f : BitVec 16 → BitVec 16)
    (g : BitVec 32 → BitVec 32) : Super :=
  { s with
    bgdt := update s.bgdt group { s.bgdt group with
      bgFreeCount := update (s.bgdt group).bgFreeCount pool
        (f ((s.bgdt group).bgFreeCount pool)) }
    raw := { s.raw with
      sFreeCount := update s.raw.sFreeCount pool (g (s.raw.sFreeCount pool)) } }

/-- The loop of `alloc_block` and `alloc_inode`: the group and the index of the bit that is set. -/
def allocIn (pool : Pool) (preferredGroup : ℕ) : List ℕ → Ext2M (ℕ × ℕ)
  | [] => throw (.errno .enospc)
  | offset :: offsets => do
    let s ← get
    let group := (preferredGroup + offset) % s.groupCount
    if (s.bgdt group).bgFreeCount pool = 0 then allocIn pool preferredGroup offsets
    else
      let bitmap ← reading fun s => s.readBitmap pool group
      match firstClear bitmap s.blockSize with
      | none => allocIn pool preferredGroup offsets
      | some index =>
        let byte := bitmap (index / 8) ||| (1#8 <<< (index % 8))
        writeBitmap pool group (update bitmap (index / 8) byte)
        modify fun s => s.count pool group (· - 1) (· - 1)
        pure (group, index)

/-- `Ext2Super::alloc_block`. -/
def allocBlock (preferredGroup : ℕ) : Ext2M ℕ := do
  let s ← get
  let bit ← allocIn .blocks preferredGroup (List.range s.groupCount)
  pure (bit.1 * s.blocksPerGroup.toNat + s.raw.sFirstDataBlock.toNat + bit.2)

/-- `Ext2Super::alloc_inode`. -/
def allocInode (preferredGroup : ℕ) : Ext2M (BitVec 32) := do
  let s ← get
  let bit ← allocIn .inodes preferredGroup (List.range s.groupCount)
  pure (BitVec.ofNat 32 bit.1 * s.inodesPerGroup + BitVec.ofNat 32 bit.2 + 1)

/-- Clear a bit, in `free_block` and `free_inode`. -/
def freeIn (pool : Pool) (group index : ℕ) : Ext2M Unit := do
  let s ← get
  if group ≥ s.groupCount then throw .panic
  else
    let bitmap ← reading fun s => s.readBitmap pool group
    if index / 8 ≥ s.blockSize then throw .panic
    else
      let byte := bitmap (index / 8) &&& ~~~(1#8 <<< (index % 8))
      writeBitmap pool group (update bitmap (index / 8) byte)
      modify fun s => s.count pool group (· + 1) (· + 1)

/-- `Ext2Super::free_block`. -/
def freeBlock (block : ℕ) : Ext2M Unit := do
  let s ← get
  let relative := (BitVec.ofNat 64 block - s.raw.sFirstDataBlock.setWidth 64).toNat
  if s.blocksPerGroup = 0 then throw .panic
  else freeIn .blocks (relative / s.blocksPerGroup.toNat) (relative % s.blocksPerGroup.toNat)

/-- `Ext2Super::free_inode`. -/
def freeInode (ino : BitVec 32) : Ext2M Unit := do
  let slot ← reading fun s => s.inodeSlot ino
  freeIn .inodes slot.1 slot.2

/-! ### Allocation of blocks for an inode -/

/-- `block_size / 512`. -/
def Super.sectorsPerBlock (s : Super) : BitVec 32 := BitVec.ofNat 32 (s.blockSize / 512)

/-- A new block, filled with zeros. -/
def allocZeroed (preferredGroup : ℕ) : Ext2M ℕ := do
  let block ← allocBlock preferredGroup
  writeBlock block zeros
  pure block

/-- `Ext2Super::map_indirect`, with the new `i_blocks`. -/
def mapIndirect (dataBlock preferredGroup : ℕ) : ℕ → ℕ → ℕ → BitVec 32 → Ext2M (BitVec 32)
  | 0, _, _, _ => throw .panic
  | 1, block, offset, iBlocks => do
    -- entries at this level point directly at data blocks
    writeBlockPtr block offset dataBlock
    pure iBlocks
  | level + 2, block, offset, iBlocks => do
    let s ← get
    let subtree := s.ptrs ^ (level + 1)
    let index := offset / subtree
    let child ← reading fun s => s.readBlockPtr block index
    if child = 0 then
      let child ← allocZeroed preferredGroup
      writeBlockPtr block index child
      mapIndirect dataBlock preferredGroup (level + 1) child (offset % subtree)
        (iBlocks + s.sectorsPerBlock)
    else mapIndirect dataBlock preferredGroup (level + 1) child (offset % subtree) iBlocks

/-- The indirect slot, its level and the offset of the data block in it. -/
def Super.indirectSlot (s : Super) (lb : ℕ) : Option (Fin nBlocks × ℕ × ℕ) :=
  let single := s.ptrs
  let double := s.ptrs * s.ptrs
  let triple := s.ptrs * s.ptrs * s.ptrs
  if lb < single then some (12, 1, lb)
  else if lb < single + double then some (13, 2, lb - single)
  else if lb < single + double + triple then some (14, 3, lb - single - double)
  else none

/-- The top level indirect block of a slot, which is allocated if it does not exist yet. -/
def ensureSlot (preferredGroup : ℕ) (raw : Inode) (slot : Fin nBlocks) : Ext2M Inode := do
  if raw.iBlock slot = 0 then
    let s ← get
    let ind ← allocZeroed preferredGroup
    pure { raw with
      iBlock := update raw.iBlock slot (BitVec.ofNat 32 ind)
      iBlocks := raw.iBlocks + s.sectorsPerBlock }
  else pure raw

/-- The data block is entered in the inode. -/
def mapBlock (preferredGroup newBlock : ℕ) (raw : Inode) (logicalBlock : ℕ) : Ext2M Inode := do
  if h : logicalBlock < nDirBlocks then
    pure { raw with
      iBlock := update raw.iBlock ⟨logicalBlock, Nat.lt_of_lt_of_le h nDirBlocks_le⟩
        (BitVec.ofNat 32 newBlock) }
  else
    let s ← get
    match s.indirectSlot (logicalBlock - nDirBlocks) with
    | none => throw (.errno .efbig)
    | some (slot, level, offset) =>
      let raw ← ensureSlot preferredGroup raw slot
      let iBlocks ← mapIndirect newBlock preferredGroup level (raw.iBlock slot).toNat offset
        raw.iBlocks
      pure { raw with iBlocks }

/-- `Ext2Super::alloc_block_for_inode`, with the new inode. -/
def allocBlockForInode (ino : BitVec 32) (raw : Inode) (logicalBlock : ℕ) :
    Ext2M (ℕ × Inode) := do
  let slot ← reading fun s => s.inodeSlot ino
  let preferredGroup := slot.1
  let newBlock ← allocZeroed preferredGroup
  let raw ← onError (mapBlock preferredGroup newBlock raw logicalBlock) fun e => do
    -- roll back the data block
    freeBlock newBlock
    throw (.errno e)
  let s ← get
  let raw := { raw with iBlocks := raw.iBlocks + s.sectorsPerBlock }
  writeInode ino raw
  pure (newBlock, raw)

/-! ### Truncation -/

/-- `Ext2Super::free_subtree`, with the number of freed blocks. -/
def freeSubtree : ℕ → ℕ → Ext2M (BitVec 32)
  | 0, block => if block = 0 then pure 0 else do
    freeBlock block
    pure 1
  | level + 1, block => if block = 0 then pure 0 else do
    let buf ← reading fun s => s.readBlock block
    let s ← get
    let freed ← (List.range s.ptrs).foldlM (fun freed i => do
      let n ← freeSubtree level (ptr buf i).toNat
      pure (freed + n)) 0
    freeBlock block
    pure (freed + 1)

/-- The state of the loop of `truncate_indirect`. -/
structure Cut where
  buf : Block
  freed : BitVec 32
  dirty : Bool

/-- `Ext2Super::truncate_indirect`, with the new slot and the number of freed blocks. -/
def truncateIndirect (keep : ℕ) : ℕ → BitVec 32 → ℕ → Ext2M (BitVec 32 × BitVec 32)
  | 0, slot, _ => pure (slot, 0)
  | level + 1, slot, base => if slot = 0 then pure (slot, 0) else do
    let s ← get
    let span := s.ptrs ^ level
    if base + span * s.ptrs ≤ keep then pure (slot, 0)
    else
      let buf ← reading fun s => s.readBlock slot.toNat
      let cut ← (List.range s.ptrs).foldlM (fun (cut : Cut) i => do
        let child := ptr cut.buf i
        if child = 0 then pure cut
        else if keep ≤ base + i * span then
          let n ← freeSubtree level child.toNat
          pure { buf := setPtr cut.buf i 0, freed := cut.freed + n, dirty := true }
        else if 0 < level then
          let result ← truncateIndirect keep level child (base + i * span)
          if result.1 ≠ child then
            pure { buf := setPtr cut.buf i result.1, freed := cut.freed + result.2, dirty := true }
          else pure { cut with freed := cut.freed + result.2 }
        else pure cut) ⟨buf, 0, false⟩
      if cut.dirty then writeBlock slot.toNat cut.buf else pure ()
      -- drop the indirect block itself if its whole range is gone
      if keep ≤ base then
        freeBlock slot.toNat
        pure (0, cut.freed + 1)
      else pure (slot, cut.freed)

/-- Truncate the tree of an indirect slot. -/
def truncateSlot (keep : ℕ) (slot : Fin nBlocks) (level base : ℕ) (raw : Inode) :
    Ext2M (BitVec 32 × Inode) := do
  let result ← truncateIndirect keep level (raw.iBlock slot) base
  pure (result.2, { raw with iBlock := update raw.iBlock slot result.1 })

/-- The loop of `truncate_blocks` over the direct blocks. -/
def truncateDirect (keep : ℕ) (raw : Inode) : Ext2M (BitVec 32 × Inode) :=
  (List.finRange nDirBlocks).foldlM (fun acc (i : Fin nDirBlocks) => do
    let slot : Fin nBlocks := i.castLE nDirBlocks_le
    if keep ≤ i ∧ acc.2.iBlock slot ≠ 0 then
      freeBlock (acc.2.iBlock slot).toNat
      pure (acc.1 + 1, { acc.2 with iBlock := update acc.2.iBlock slot 0 })
    else pure acc) (0, raw)

/-- `Ext2Super::truncate_blocks`, with the new inode. -/
def truncateBlocks (raw : Inode) (keep : ℕ) : Ext2M Inode := do
  let s ← get
  let indBase := nDirBlocks
  let dindBase := indBase + s.ptrs
  let tindBase := dindBase + s.ptrs * s.ptrs
  let direct ← truncateDirect keep raw
  let ind ← truncateSlot keep 12 1 indBase direct.2
  let dind ← truncateSlot keep 13 2 dindBase ind.2
  let tind ← truncateSlot keep 14 3 tindBase dind.2
  let freed := direct.1 + ind.1 + dind.1 + tind.1
  -- `i_blocks.saturating_sub(freed * sectors_per_block)`
  let sectors := freed * s.sectorsPerBlock
  pure { tind.2 with
    iBlocks := if sectors ≤ tind.2.iBlocks then tind.2.iBlocks - sectors else 0 }

end Ext2

end Zinnia
