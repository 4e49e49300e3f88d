import Zinnia.Drivers.Ext2

/-!
# Mounting ext2

`Ext2Super::read` takes the sizes of the filesystem from the device. The functions that use these
sizes are given again here as the machine runs them: 64-bit arithmetic wraps, and divisions, shifts
and accesses to buffers are checked.
-/

namespace Zinnia

namespace Ext2

/-! ### The superblock -/

def ext2Magic : BitVec 16 := 0xEF53

/-- `EXT2_SUPPORTED_INCOMPAT`. -/
def supportedIncompat : BitVec 32 := 0x0002

/-- `EXT2_SUPPORTED_RO_COMPAT`. -/
def supportedRoCompat : BitVec 32 := 0x0003

/-- `size_of::<Ext2SuperBlock>()`. -/
abbrev sizeOfSuperBlock : ℕ := 820

/-- `size_of::<Ext2BlockGroupDesc>()`. -/
abbrev sizeOfGroupDesc : ℕ := 32

namespace SuperBlock

variable (raw : SuperBlock)

/-- `Ext2SuperBlock::block_size`. The shift distance is taken modulo the word size. -/
def blockSize : ℕ := (1024#64 <<< (raw.sLogBlockSize.toNat % 64)).toNat

/-- `Ext2SuperBlock::block_group_count`. -/
def blockGroupCount : Except Fault ℕ :=
  if raw.sBlocksPerGroup = 0 then .error .panic
  else .ok ((raw.sBlocksCount.toNat + (raw.sBlocksPerGroup.toNat - 1)) / raw.sBlocksPerGroup.toNat)

/-- `Ext2SuperBlock::inode_size`. -/
def inodeSize : ℕ := if raw.sRevLevel.toNat ≥ 1 then raw.sInodeSize.toNat else 128

end SuperBlock

/-- What is on a device. -/
structure Device where
  lbaSize : ℕ
  raw : SuperBlock
  bgdt : ℕ → BlockGroupDesc
  blocks : ℕ → Block
  bitmaps : Pool → ℕ → Block
  inodes : BitVec 32 → Inode
  unreadable : Sector → Bool
  unwritable : Sector → Bool
  /-- The sectors of the superblock and of the group descriptors can be read. -/
  superReadable : Bool
  tableReadable : Bool

/-- The size of a buffer of whole sectors. -/
def sectorBytes (lbaSize bytes : ℕ) : ℕ := (bytes + (lbaSize - 1)) / lbaSize * lbaSize

/-- `Ext2Super::read`. -/
def Super.read (d : Device) : Except Fault Super :=
  let lbaSize := d.lbaSize
  let raw := d.raw
  if lbaSize = 0 then .error (.errno .einval)
  else if !d.superReadable then .error (.errno .eio)
  else if sectorBytes lbaSize (max 2048 lbaSize) < 1024 + sizeOfSuperBlock then
    .error (.errno .einval)
  else if raw.sMagic ≠ ext2Magic then .error (.errno .einval)
  else do
    let groupCount ← raw.blockGroupCount
    if raw.sFeatureIncompat &&& ~~~supportedIncompat ≠ 0 then .error (.errno .einval)
    else if raw.sFeatureRoCompat &&& ~~~supportedRoCompat ≠ 0 then .error (.errno .einval)
    -- `BlockBuffer::new` needs at least one byte
    else if sectorBytes lbaSize (groupCount * sizeOfGroupDesc) = 0 then .error (.errno .einval)
    else if !d.tableReadable then .error (.errno .eio)
    else .ok { raw, groupCount, lbaSize
               blockSize := raw.blockSize, inodeSize := raw.inodeSize
               inodesPerGroup := raw.sInodesPerGroup, blocksPerGroup := raw.sBlocksPerGroup
               bgdt := d.bgdt, blocks := d.blocks, bitmaps := d.bitmaps, inodes := d.inodes
               unreadable := d.unreadable, unwritable := d.unwritable }

/-! ### Machine arithmetic -/

namespace Machine

/-- `u64` arithmetic. -/
def wrap (n : ℕ) : ℕ := n % 2 ^ 64

def div (a b : ℕ) : Except Fault ℕ := if b = 0 then .error .panic else .ok (a / b)

def rem (a b : ℕ) : Except Fault ℕ := if b = 0 then .error .panic else .ok (a % b)

/-- `1 << bit` for a byte. -/
def shl (bit : ℕ) : Except Fault (BitVec 8) := if 8 ≤ bit then .error .panic else .ok (1#8 <<< bit)

/-- Read a byte of a buffer. -/
def get (buf : Block) (len index : ℕ) : Except Fault (BitVec 8) :=
  if index < len then .ok (buf index) else .error .panic

/-- The sectors of a block are read to a buffer, and the block is copied from it. -/
def load (s : Super) (sector : Sector) (data : Block) : Except Fault Block := do
  let numLbas ← div (s.blockSize + (s.lbaSize - 1)) s.lbaSize
  let len := numLbas * s.lbaSize
  if len = 0 then .error (.errno .einval)
  else if s.unreadable sector then .error (.errno .eio)
  else if s.blockSize > len then .error .panic
  else .ok data

/-- `Ext2Super::read_block`. If the byte offset overflows, another block is read. -/
def readBlock (s : Super) (block : ℕ) : Except Fault Block := do
  let byteOffset := wrap (block * s.blockSize)
  let _ ← div byteOffset s.lbaSize
  load s (.block (byteOffset / s.blockSize)) (s.blocks (byteOffset / s.blockSize))

/-- `Ext2Super::read_block_ptr`. -/
def readBlockPtr (s : Super) (block index : ℕ) : Except Fault ℕ := do
  let buf ← readBlock s block
  let offset := wrap (index * 4)
  if wrap (offset + 4) > s.blockSize then .error (.errno .einval)
  else
    let b₀ ← get buf s.blockSize offset
    let b₁ ← get buf s.blockSize (offset + 1)
    let b₂ ← get buf s.blockSize (offset + 2)
    let b₃ ← get buf s.blockSize (offset + 3)
    .ok (b₃ ++ b₂ ++ b₁ ++ b₀).toNat

/-- The pointer of a block, or 0 if there is no block. -/
def follow (s : Super) (block index : ℕ) : Except Fault ℕ :=
  if block = 0 then .ok 0 else readBlockPtr s block index

/-- `Ext2Super::resolve_block`. -/
def resolveBlock (s : Super) (raw : Inode) (logicalBlock : ℕ) : Except Fault ℕ :=
  let ptrs := s.blockSize / 4
  if h : logicalBlock < nDirBlocks then
    .ok (raw.iBlock ⟨logicalBlock, Nat.lt_of_lt_of_le h nDirBlocks_le⟩).toNat
  else
    let lb := logicalBlock - nDirBlocks
    if lb < ptrs then follow s (raw.iBlock 12).toNat lb
    else
      let lb := lb - ptrs
      let square := wrap (ptrs * ptrs)
      if lb < square then
        if (raw.iBlock 13).toNat = 0 then .ok 0
        else do
          let indIndex ← div lb ptrs
          let indBlock ← readBlockPtr s (raw.iBlock 13).toNat indIndex
          if indBlock = 0 then .ok 0
          else
            let directIndex ← rem lb ptrs
            readBlockPtr s indBlock directIndex
      else
        let lb := lb - square
        if lb < wrap (square * ptrs) then
          if (raw.iBlock 14).toNat = 0 then .ok 0
          else do
            let dindIndex ← div lb square
            let dindBlock ← readBlockPtr s (raw.iBlock 14).toNat dindIndex
            if dindBlock = 0 then .ok 0
            else
              let remainder ← rem lb square
              let indIndex ← div remainder ptrs
              let indBlock ← readBlockPtr s dindBlock indIndex
              if indBlock = 0 then .ok 0
              else
                let directIndex ← rem remainder ptrs
                readBlockPtr s indBlock directIndex
        else .error (.errno .efbig)

/-- The first clear bit of a byte. -/
def findBit (byte : BitVec 8) : List ℕ → Except Fault (Option ℕ)
  | [] => .ok none
  | bit :: bits => do
    let mask ← shl bit
    if byte &&& mask = 0 then .ok (some bit) else findBit byte bits

/-- The first clear bit of a bitmap. -/
def firstClear (bitmap : Block) (blockSize : ℕ) : List ℕ → Except Fault (Option ℕ)
  | [] => .ok none
  | byteIdx :: bytes => do
    let byte ← get bitmap blockSize byteIdx
    if byte = 0xFF then firstClear bitmap blockSize bytes
    else
      match ← findBit byte (List.range 8) with
      | some bit => .ok (some (byteIdx * 8 + bit))
      | none => firstClear bitmap blockSize bytes

/-- The loop of `alloc_block` and `alloc_inode`. -/
def allocIn (pool : Pool) (preferredGroup : ℕ) : List ℕ → Ext2M (ℕ × ℕ)
  | [] => throw (.errno .enospc)
  | offset :: offsets => do
    let s ← EStateM.get
    let group ← reading fun s => rem (preferredGroup + offset) s.groupCount
    if group ≥ s.groupCount then throw .panic
    else if (s.bgdt group).bgFreeCount pool = 0 then allocIn pool preferredGroup offsets
    else
      let bitmap ← reading fun s => load s (.bitmap pool group) (s.bitmaps pool group)
      match ← reading fun s => firstClear bitmap s.blockSize (List.range s.blockSize) with
      | none => allocIn pool preferredGroup offsets
      | some index =>
        let byte ← reading fun s => get bitmap s.blockSize (index / 8)
        let mask ← reading fun _ => shl (index % 8)
        writeBitmap pool group (Function.update bitmap (index / 8) (byte ||| mask))
        modify fun s => s.count pool group (· - 1) (· - 1)
        pure (group, index)

/-- `Ext2Super::alloc_block`. -/
def allocBlock (preferredGroup : ℕ) : Ext2M ℕ := do
  let s ← EStateM.get
  let bit ← allocIn .blocks preferredGroup (List.range s.groupCount)
  pure (wrap (bit.1 * s.blocksPerGroup.toNat + s.raw.sFirstDataBlock.toNat + bit.2))

/-- `Ext2Super::alloc_inode`. -/
def allocInode (preferredGroup : ℕ) : Ext2M (BitVec 32) := do
  let s ← EStateM.get
  let bit ← allocIn .inodes preferredGroup (List.range s.groupCount)
  pure (BitVec.ofNat 32 bit.1 * s.inodesPerGroup + BitVec.ofNat 32 bit.2 + 1)

end Machine

/-! ### Safety -/

/-- What the driver writes to the device after it was mounted leaves the sizes. -/
structure Later (s s' : Super) : Prop where
  blockSize : s'.blockSize = s.blockSize
  inodesPerGroup : s'.inodesPerGroup = s.inodesPerGroup
  inodeSize : s'.inodeSize = s.inodeSize
  groupCount : s'.groupCount = s.groupCount
  lbaSize : s'.lbaSize = s.lbaSize
  bgInodeTable : ∀ g, (s'.bgdt g).bgInodeTable = (s.bgdt g).bgInodeTable

/-- No lookup, inode read or allocation panics. -/
structure NoPanic (s : Super) : Prop where
  resolveBlock : ∀ raw lb, lb < 2 ^ 64 → Machine.resolveBlock s raw lb ≠ .error .panic
  readInode : ∀ ino, s.readInode ino ≠ .error .panic
  allocBlock : ∀ group s', (Machine.allocBlock group).run s ≠ .error .panic s'
  allocInode : ∀ group s', (Machine.allocInode group).run s ≠ .error .panic s'

/-- The structure of an inode at a byte offset is in the sectors of its slot, or there are no
sectors. -/
def SlotFits (lbaSize inodeSize byteOffset : ℕ) : Prop :=
  let lbaOffset := byteOffset % lbaSize
  lbaOffset + inodeSize = 0 ∨
    lbaOffset + Super.sizeOfInode ≤ sectorBytes lbaSize (lbaOffset + inodeSize)

/-- The slots of all inodes that have a number are large enough. -/
def Device.SlotsFit (d : Device) : Prop :=
  ∀ group index, group * d.raw.sBlocksPerGroup.toNat < d.raw.sBlocksCount.toNat →
    index < d.raw.sInodesPerGroup.toNat →
    group * d.raw.sInodesPerGroup.toNat + index < 2 ^ 32 - 1 →
    SlotFits d.lbaSize d.raw.inodeSize
      (((d.bgdt group).bgInodeTable.toNat * d.raw.blockSize + index * d.raw.inodeSize) % 2 ^ 64)

end Ext2

end Zinnia
