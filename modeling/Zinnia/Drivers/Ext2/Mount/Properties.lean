import Zinnia.Drivers.Ext2.Allocation
import Zinnia.Drivers.Ext2.Mount

/-!
# Safety of mounted filesystems

Lookups of blocks and allocations never panic on a filesystem that was mounted. Reads of inodes do
not panic either, if the groups have inodes and the slots of the inodes are large enough.
-/

namespace Zinnia

open Comp Nat List Ext2.Super

namespace Ext2

/-! ### Acceptance -/

section

variable {raw : SuperBlock} {lbaSize bytes : ℕ}

lemma le_sectorBytes (hlba : lbaSize ≠ 0) : bytes ≤ sectorBytes lbaSize bytes := by
  have hdiv := div_add_mod' (bytes + (lbaSize - 1)) lbaSize
  have hmod := mod_lt (bytes + (lbaSize - 1)) (pos_of_ne_zero hlba)
  rw [sectorBytes]
  omega

lemma sectorBytes_eq_zero (hlba : lbaSize ≠ 0) : sectorBytes lbaSize bytes = 0 ↔ bytes = 0 := by
  refine ⟨fun h => Nat.le_zero.mp (h ▸ le_sectorBytes hlba), ?_⟩
  rintro rfl
  rw [sectorBytes, Nat.div_eq_of_lt (by omega), Nat.zero_mul]

/-- A block has a number of bytes that a shift can produce. -/
lemma blockSize_cases (raw : SuperBlock) :
    raw.blockSize = 0 ∨ 1024 ≤ raw.blockSize ∧ 1024 ∣ raw.blockSize ∧ raw.blockSize ≤ 2 ^ 63 := by
  have hlt := mod_lt raw.sLogBlockSize.toNat (show 0 < 64 by decide)
  rw [SuperBlock.blockSize]
  generalize raw.sLogBlockSize.toNat % 64 = k at hlt
  revert hlt
  revert k
  decide

/-- What `read` takes from the device. -/
structure Mounted (d : Device) (s : Super) : Prop where
  lbaSize_ne_zero : d.lbaSize ≠ 0
  lbaSize : s.lbaSize = d.lbaSize
  blockSize : s.blockSize = d.raw.blockSize
  inodesPerGroup : s.inodesPerGroup = d.raw.sInodesPerGroup
  inodeSize : s.inodeSize = d.raw.inodeSize
  groupCount_ne_zero : s.groupCount ≠ 0
  lt_groupCount : ∀ g, g < s.groupCount ↔
    g * d.raw.sBlocksPerGroup.toNat < d.raw.sBlocksCount.toNat
  bgdt : s.bgdt = d.bgdt

lemma mounted_of_read {d : Device} {s : Super} (h : read d = .ok s) : Mounted d s := by
  rw [Super.read] at h
  by_cases hlba : d.lbaSize = 0
  · rw [if_pos hlba] at h
    cases h
  rw [if_neg hlba] at h
  iterate 3
    split at h
    · cases h
  obtain ⟨groupCount, hcount, h⟩ := bind_eq_ok.mp h
  rw [SuperBlock.blockGroupCount] at hcount
  split_ifs at hcount with hzero
  split_ifs at h with _ _ hgroups
  cases hcount
  cases h
  have hpos : 0 < d.raw.sBlocksPerGroup.toNat :=
    pos_of_ne_zero fun heq => hzero (BitVec.eq_of_toNat_eq heq)
  rw [sectorBytes_eq_zero hlba, mul_eq_zero, not_or] at hgroups
  refine ⟨hlba, rfl, rfl, rfl, rfl, hgroups.1, fun g => ?_, rfl⟩
  rw [lt_iff_add_one_le, le_div_iff_mul_le hpos, succ_mul]
  omega

end

/-! ### Lookups -/

/-- The sizes of a filesystem that was mounted. -/
structure Sized (s : Super) : Prop where
  lbaSize : s.lbaSize ≠ 0
  blockSize : s.blockSize = 0 ∨ 1024 ≤ s.blockSize ∧ 1024 ∣ s.blockSize ∧ s.blockSize ≤ 2 ^ 63
  groupCount : s.groupCount ≠ 0

variable {d : Device}

lemma Mounted.sized {s s' : Super} (h : Mounted d s) (hlater : Later s s') : Sized s' := by
  refine ⟨?_, ?_, ?_⟩
  · rw [hlater.lbaSize, h.lbaSize]
    exact h.lbaSize_ne_zero
  · rw [hlater.blockSize, h.blockSize]
    exact blockSize_cases d.raw
  · rw [hlater.groupCount]
    exact h.groupCount_ne_zero

namespace Machine

section

variable {s : Super} {a b n block index lb : ℕ}

lemma div_ne_panic (hb : b ≠ 0) : div a b ≠ .error .panic := by
  rw [div, if_neg hb]
  exact nofun

lemma rem_ne_panic (hb : b ≠ 0) : rem a b ≠ .error .panic := by
  rw [rem, if_neg hb]
  exact nofun

lemma div_eq_ok (h : div a b = .ok n) : n = a / b := by
  rw [div] at h
  split_ifs at h
  exact (Except.ok.inj h).symm

lemma rem_eq_ok (h : rem a b = .ok n) : b ≠ 0 ∧ n = a % b := by
  rw [rem] at h
  split_ifs at h with hb
  exact ⟨hb, (Except.ok.inj h).symm⟩

lemma get_ne_panic {buf : Block} (h : a < b) : get buf b a ≠ .error .panic := by
  rw [get, if_pos h]
  exact nofun

section

variable (hs : Sized s)

include hs

/-- The buffer is large enough for the block. -/
lemma load_eq (sector : Sector) (data : Block) : load s sector data =
    if s.blockSize = 0 then .error (.errno .einval)
    else if s.unreadable sector then .error (.errno .eio) else .ok data := by
  have hlen : s.blockSize ≤ sectorBytes s.lbaSize s.blockSize := le_sectorBytes hs.lbaSize
  have hzero : sectorBytes s.lbaSize s.blockSize = 0 ↔ s.blockSize = 0 :=
    sectorBytes_eq_zero hs.lbaSize
  rw [load, div, if_neg hs.lbaSize]
  change (if sectorBytes s.lbaSize s.blockSize = 0 then _ else if s.unreadable sector = true then _
    else if s.blockSize > sectorBytes s.lbaSize s.blockSize then _ else _) = _
  rw [if_neg (not_lt.mpr hlen)]
  simp only [hzero]

lemma load_ne_panic (sector : Sector) (data : Block) : load s sector data ≠ .error .panic := by
  rw [load_eq hs]
  split_ifs <;> exact nofun

lemma readBlockPtr_ne_panic (hindex : index < 2 ^ 62 - 1) :
    readBlockPtr s block index ≠ .error .panic := by
  refine bind_ne_error (bind_ne_error (div_ne_panic hs.lbaSize) fun _ _ => load_ne_panic hs _ _)
    fun buf _ => ?_
  have hoffset : wrap (index * 4) = index * 4 := mod_eq_of_lt (by omega)
  have hend : wrap (index * 4 + 4) = index * 4 + 4 := mod_eq_of_lt (by omega)
  dsimp only
  rw [hoffset]
  split_ifs with hlen
  · exact nofun
  · exact bind_ne_error (get_ne_panic (by omega)) fun _ _ =>
      bind_ne_error (get_ne_panic (by omega)) fun _ _ =>
      bind_ne_error (get_ne_panic (by omega)) fun _ _ =>
      bind_ne_error (get_ne_panic (by omega)) fun _ _ => nofun

omit hs in
/-- A block number divided by the number of pointers of a block. -/
lemma div_lt_of_dvd (hlb : lb < 2 ^ 64) (hn : n ≠ 0) (hdvd : 256 ∣ n) : lb / n < 2 ^ 62 - 1 := by
  rw [div_lt_iff_lt_mul (pos_of_ne_zero hn)]
  omega

lemma resolveBlock_ne_panic (raw : Inode) (hlb : lb < 2 ^ 64) :
    resolveBlock s raw lb ≠ .error .panic := by
  have hptrs : s.blockSize / 4 ≤ 2 ^ 61 := by
    rcases hs.blockSize with hzero | ⟨-, -, hle⟩ <;> omega
  have hdvd : 256 ∣ s.blockSize / 4 := by
    rcases hs.blockSize with hzero | ⟨-, hdvd, -⟩ <;> omega
  have hsquare : 256 ∣ wrap (s.blockSize / 4 * (s.blockSize / 4)) :=
    (Nat.dvd_mod_iff (by decide)).mpr (Nat.dvd_mul_left_of_dvd hdvd _)
  have hzero : s.blockSize / 4 = 0 → wrap (s.blockSize / 4 * (s.blockSize / 4)) = 0 := by
    intro h
    rw [h]
    rfl
  rw [resolveBlock]
  generalize s.blockSize / 4 = ptrs at hptrs hdvd hsquare hzero
  generalize wrap (ptrs * ptrs) = square at hsquare hzero
  dsimp only
  split_ifs with hdirect hsingle hdouble hdind htriple htind
  · rintro ⟨⟩
  · rw [follow]
    split_ifs
    · rintro ⟨⟩
    · exact readBlockPtr_ne_panic hs (by omega)
  · rintro ⟨⟩
  · have hne : ptrs ≠ 0 := fun h => absurd (hzero h ▸ hdouble) (not_lt_zero _)
    refine bind_ne_error (div_ne_panic hne) fun indIndex hdiv => ?_
    rw [div_eq_ok hdiv]
    refine bind_ne_error (readBlockPtr_ne_panic hs (div_lt_of_dvd (by omega) hne hdvd))
      fun indBlock _ => ?_
    split_ifs
    · rintro ⟨⟩
    · refine bind_ne_error (rem_ne_panic hne) fun directIndex hrem => readBlockPtr_ne_panic hs ?_
      rw [(rem_eq_ok hrem).2]
      have := mod_lt (lb - nDirBlocks - ptrs) (pos_of_ne_zero hne)
      omega
  · rintro ⟨⟩
  · have hnes : square ≠ 0 := by
      rintro rfl
      rw [Nat.zero_mul] at htriple
      exact absurd htriple (not_lt_zero _)
    have hne : ptrs ≠ 0 := fun h => hnes (hzero h)
    refine bind_ne_error (div_ne_panic hnes) fun dindIndex hdiv => ?_
    rw [div_eq_ok hdiv]
    refine bind_ne_error (readBlockPtr_ne_panic hs (div_lt_of_dvd (by omega) hnes hsquare))
      fun dindBlock _ => ?_
    split_ifs
    · rintro ⟨⟩
    refine bind_ne_error (rem_ne_panic hnes) fun remainder hrem => ?_
    have hremainder : remainder < 2 ^ 64 := by
      rw [(rem_eq_ok hrem).2]
      exact lt_of_le_of_lt (mod_le _ _) (by omega)
    refine bind_ne_error (div_ne_panic hne) fun indIndex hdiv => ?_
    rw [div_eq_ok hdiv]
    refine bind_ne_error (readBlockPtr_ne_panic hs (div_lt_of_dvd hremainder hne hdvd))
      fun indBlock _ => ?_
    split_ifs
    · rintro ⟨⟩
    · refine bind_ne_error (rem_ne_panic hne) fun directIndex hrem' => readBlockPtr_ne_panic hs ?_
      rw [(rem_eq_ok hrem').2]
      have := mod_lt remainder (pos_of_ne_zero hne)
      omega
  · rintro ⟨⟩

/-- Blocks up to 8 MiB have pointers that are found without overflow. -/
lemma readBlockPtr_eq (hpos : s.blockSize ≠ 0) (hle : s.blockSize ≤ 2 ^ 23)
    (hblock : block < 2 ^ 32) (hindex : index < 2 ^ 61) :
    readBlockPtr s block index = s.readBlockPtr block index := by
  have hmul : block * s.blockSize ≤ 2 ^ 32 * 2 ^ 23 := Nat.mul_le_mul (by omega) hle
  have hbyte : wrap (block * s.blockSize) / s.blockSize = block := by
    rw [wrap, Nat.mod_eq_of_lt (by omega), Nat.mul_div_cancel _ (pos_of_ne_zero hpos)]
  have hoffset : wrap (index * 4) = index * 4 := Nat.mod_eq_of_lt (by omega)
  have hend : wrap (index * 4 + 4) = index * 4 + 4 := mod_eq_of_lt (by omega)
  rw [readBlockPtr, readBlock, div, if_neg hs.lbaSize, load_eq hs, if_neg hpos, hbyte,
    Super.readBlockPtr, Super.readBlock]
  cases s.unreadable (.block block) with
  | true => rfl
  | false =>
    simp only [bind, Except.bind, hoffset, hend, Bool.false_eq_true, if_false]
    by_cases hlen : index * 4 + 4 > s.blockSize
    · rw [if_pos hlen, if_pos hlen]
    · rw [if_neg hlen, if_neg hlen]
      simp only [get, if_pos (show index * 4 < s.blockSize by omega),
        if_pos (show index * 4 + 1 < s.blockSize by omega),
        if_pos (show index * 4 + 2 < s.blockSize by omega),
        if_pos (show index * 4 + 3 < s.blockSize by omega)]
      rfl

omit hs in
lemma lt_of_readBlockPtr (h : s.readBlockPtr block index = .ok n) : n < 2 ^ 32 := by
  obtain ⟨buf, -, h⟩ := bind_eq_ok.mp h
  split_ifs at h
  cases h
  exact (ptr buf index).isLt

/-- Blocks up to 8 MiB are looked up as in the model. -/
theorem resolveBlock_refines (hpos : s.blockSize ≠ 0) (hle : s.blockSize ≤ 2 ^ 23) (raw : Inode)
    (lb : ℕ) : resolveBlock s raw lb = s.resolveBlock raw lb := by
  have hptrs : s.ptrs ≤ 2 ^ 21 := by
    rw [ptrs]
    omega
  have hsquare : s.ptrs * s.ptrs ≤ 2 ^ 21 * 2 ^ 21 := Nat.mul_le_mul hptrs hptrs
  have hcube : s.ptrs * s.ptrs * s.ptrs ≤ 2 ^ 21 * 2 ^ 21 * 2 ^ 21 := Nat.mul_le_mul hsquare hptrs
  have hwrap : wrap (s.ptrs * s.ptrs) = s.ptrs * s.ptrs := mod_eq_of_lt (by omega)
  have hwrap' : wrap (s.ptrs * s.ptrs * s.ptrs) = s.ptrs * s.ptrs * s.ptrs :=
    mod_eq_of_lt (by omega)
  have hread : ∀ {block index}, block < 2 ^ 32 → index < s.ptrs →
      readBlockPtr s block index = s.readBlockPtr block index :=
    fun hblock hindex => readBlockPtr_eq hs hpos hle hblock (by omega)
  have hdiv : ∀ {a b : ℕ}, b ≠ 0 → div a b = .ok (a / b) := fun hb => if_neg hb
  have hrem : ∀ {a b : ℕ}, b ≠ 0 → rem a b = .ok (a % b) := fun hb => if_neg hb
  rw [resolveBlock, Super.resolveBlock]
  simp only [show s.blockSize / 4 = s.ptrs from rfl, hwrap, hwrap']
  by_cases hdirect : lb < nDirBlocks
  · rw [dif_pos hdirect, dif_pos hdirect]
  by_cases hsingle : lb - nDirBlocks < s.ptrs
  · rw [if_pos hsingle, if_pos hsingle, follow, hread (BitVec.isLt _) hsingle]
  rw [if_neg hsingle, if_neg hsingle]
  by_cases hdouble : lb - nDirBlocks - s.ptrs < s.ptrs * s.ptrs
  · have hne : s.ptrs ≠ 0 := fun h => by simp [h] at hdouble
    rw [hdiv hne, hrem hne]
    split_ifs
    · rfl
    rw [ok_bind, hread (BitVec.isLt _) (Nat.div_lt_of_lt_mul hdouble)]
    refine bind_congr_ok fun indBlock hind => ?_
    rw [ok_bind, hread (lt_of_readBlockPtr hind) (mod_lt _ (pos_of_ne_zero hne))]
  rw [if_neg hdouble, if_neg hdouble]
  by_cases htriple : lb - nDirBlocks - s.ptrs - s.ptrs * s.ptrs < s.ptrs * s.ptrs * s.ptrs
  · have hne : s.ptrs ≠ 0 := fun h => by simp [h] at htriple
    have hsq : s.ptrs * s.ptrs ≠ 0 := Nat.mul_ne_zero hne hne
    rw [hdiv hsq, hrem hsq]
    split_ifs
    · rfl
    rw [ok_bind, hread (BitVec.isLt _) (Nat.div_lt_of_lt_mul htriple)]
    refine bind_congr_ok fun dindBlock hdind => ?_
    split_ifs
    · rfl
    have hmod := mod_lt (lb - nDirBlocks - s.ptrs - s.ptrs * s.ptrs)
      (pos_of_ne_zero hsq)
    rw [ok_bind, hdiv hne, hrem hne, ok_bind,
      hread (lt_of_readBlockPtr hdind) (Nat.div_lt_of_lt_mul hmod)]
    refine bind_congr_ok fun indBlock hind => ?_
    rw [ok_bind, hread (lt_of_readBlockPtr hind) (mod_lt _ (pos_of_ne_zero hne))]
  · rw [if_neg htriple, if_neg htriple]

omit hs in
theorem resolveBlock_refines_sample :
    let s := { sample with blocks := fun _ i => if i % 4 = 0 then 2 else 0 }
    let raw := { sample.inodes 3 with iBlock := fun _ => 2 }
    resolveBlock s raw 300 = s.resolveBlock raw 300 ∧ s.resolveBlock raw 300 = .ok 2 :=
  ⟨resolveBlock_refines ⟨by decide, by decide, by decide⟩ (by decide) (by decide) _ _, rfl⟩

/-! ### Allocation -/

omit hs in
lemma findBit_eq (byte : BitVec 8) {bits : List ℕ} (h : ∀ bit ∈ bits, bit < 8) :
    findBit byte bits = .ok (bits.find? fun bit => byte &&& (1#8 <<< bit) = 0) := by
  induction bits with
  | nil => rfl
  | cons bit bits ih =>
    have hbit : shl bit = .ok (1#8 <<< bit) := if_neg (by simpa using h bit mem_cons_self)
    rw [findBit, hbit, find?_cons]
    by_cases hclear : byte &&& (1#8 <<< bit) = 0
    · rw [decide_eq_true hclear]
      exact if_pos hclear
    · rw [decide_eq_false hclear]
      exact (if_neg hclear).trans (ih fun b hb => h b (mem_cons_of_mem bit hb))

omit hs in
lemma firstClear_range (bitmap : Block) (n : ℕ) :
    firstClear bitmap n (range n) = .ok (Ext2.firstClear bitmap n) := by
  suffices h : ∀ bytes : List ℕ, (∀ i ∈ bytes, i < n) → firstClear bitmap n bytes =
      .ok (bytes.findSome? fun byteIdx => if bitmap byteIdx = 0xFF then none
        else ((range 8).find? fun bit => bitmap byteIdx &&& (1#8 <<< bit) = 0).map
          (byteIdx * 8 + ·)) from
    h _ fun i hi => mem_range.mp hi
  intro bytes hbytes
  induction bytes with
  | nil => rfl
  | cons byteIdx bytes ih =>
    have hget : get bitmap n byteIdx = .ok (bitmap byteIdx) :=
      if_pos (hbytes byteIdx mem_cons_self)
    have ih := ih fun i hi => hbytes i (mem_cons_of_mem byteIdx hi)
    rw [firstClear, hget, findSome?_cons]
    by_cases hfull : bitmap byteIdx = 0xFF
    · rw [if_pos hfull]
      exact (if_pos hfull).trans ih
    · rw [if_neg hfull]
      refine (if_neg hfull).trans ?_
      rw [findBit_eq _ fun bit hbit => mem_range.mp hbit]
      cases (range 8).find? fun bit => bitmap byteIdx &&& (1#8 <<< bit) = 0 with
      | none => exact ih
      | some bit => rfl

/-- A filesystem whose blocks have bytes is allocated from as in the model. -/
lemma run_allocIn (hpos : s.blockSize ≠ 0) (pool : Pool) (preferredGroup : ℕ)
    (offsets : List ℕ) : (allocIn pool preferredGroup offsets).run s =
      (Ext2.allocIn pool preferredGroup offsets).run s := by
  induction offsets with
  | nil => rfl
  | cons offset offsets ih =>
    have hreading : ∀ {α : Type} {f : Super → Except Fault α} {a : α}, f s = .ok a →
        (reading f).run s = .ok a s := fun h => run_reading_eq_ok.mpr ⟨h, rfl⟩
    have hlt := mod_lt (preferredGroup + offset) (pos_of_ne_zero hs.groupCount)
    rw [allocIn, Ext2.allocIn, run_bind_ok (show (EStateM.get : Ext2M Super).run s = .ok s s
      from rfl), run_get_bind, run_bind_ok (hreading (if_neg hs.groupCount)),
      if_neg (not_le.mpr hlt)]
    generalize (preferredGroup + offset) % s.groupCount = group
    by_cases hcount : (s.bgdt group).bgFreeCount pool = 0
    · rw [if_pos hcount, if_pos hcount]
      exact ih
    rw [if_neg hcount, if_neg hcount]
    have hload := load_eq hs (.bitmap pool group) (s.bitmaps pool group)
    rw [if_neg hpos] at hload
    cases hunreadable : s.unreadable (.bitmap pool group) with
    | true =>
      rw [hunreadable] at hload
      rw [run_bind_error (run_reading_eq_error.mpr ⟨hload, rfl⟩),
        run_bind_error (run_reading_eq_error.mpr ⟨if_pos hunreadable, rfl⟩)]
    | false =>
      rw [hunreadable] at hload
      rw [run_bind_ok (hreading hload),
        run_bind_ok (hreading (f := fun s => s.readBitmap pool group)
          (if_neg (Bool.eq_false_iff.mp hunreadable))),
        run_bind_ok (hreading (firstClear_range _ _))]
      cases hfirst : Ext2.firstClear (s.bitmaps pool group) s.blockSize with
      | none => exact ih
      | some index =>
        have hindex := (firstClear_eq_some hfirst).1
        have hbyte : get (s.bitmaps pool group) s.blockSize (index / 8) =
          .ok (s.bitmaps pool group (index / 8)) := if_pos (by omega)
        have hmask : shl (index % 8) = .ok (1#8 <<< (index % 8)) := if_neg (by omega)
        rw [run_bind_ok (hreading hbyte), run_bind_ok (hreading hmask)]

/-- Without bytes in a block, no bitmap can be read. -/
lemma allocIn_ne_panic (pool : Pool) (preferredGroup : ℕ) (offsets : List ℕ)
    (s' : Super) : (allocIn pool preferredGroup offsets).run s ≠ .error .panic s' := by
  by_cases hpos : s.blockSize ≠ 0
  · rw [run_allocIn hs hpos]
    exact fun h => (allocIn_eq_error h).2 rfl
  rw [not_not] at hpos
  induction offsets with
  | nil => exact nofun
  | cons offset offsets ih =>
    intro h
    rw [allocIn, run_bind_eq_error] at h
    obtain ⟨⟨⟩⟩ | ⟨_, _, hget, h⟩ := h
    cases hget
    obtain hrem | ⟨group, s₁, hrem, h⟩ := run_bind_eq_error.mp h
    · exact rem_ne_panic hs.groupCount (run_reading_eq_error.mp hrem).1
    obtain ⟨hrem, rfl⟩ := run_reading_eq_ok.mp hrem
    have hlt : group < s₁.groupCount := by
      rw [(rem_eq_ok hrem).2]
      exact mod_lt _ (pos_of_ne_zero hs.groupCount)
    rw [if_neg (not_le.mpr hlt)] at h
    split_ifs at h
    · exact ih h
    · obtain hload | ⟨bitmap, s₂, hload, -⟩ := run_bind_eq_error.mp h
      · exact load_ne_panic hs _ _ (run_reading_eq_error.mp hload).1
      · have hload := (run_reading_eq_ok.mp hload).1
        rw [load_eq hs, if_pos hpos] at hload
        cases hload

lemma alloc_ne_panic (group : ℕ) (s' : Super) :
    (allocBlock group).run s ≠ .error .panic s' ∧ (allocInode group).run s ≠ .error .panic s' := by
  constructor <;> intro h
  all_goals
    obtain ⟨⟨⟩⟩ | ⟨_, _, hget, h⟩ := run_bind_eq_error.mp h
    cases hget
    exact allocIn_ne_panic hs _ _ _ _ (run_bind_pure_eq_error.mp h)

end

end

end Machine

/-! ### Inodes -/

section

variable {s : Super} {ino : BitVec 32}

/-- The byte offset of the slot of an inode. -/
def Super.slotOffset (s : Super) (group index : ℕ) : ℕ :=
  ((s.bgdt group).bgInodeTable.toNat * s.blockSize + index * s.inodeSize) % 2 ^ 64

lemma readInode_eq_panic (hlba : s.lbaSize ≠ 0) (hgroup : s.inodesPerGroup ≠ 0) (hino : ino ≠ 0) :
    s.readInode ino = .error .panic ↔
      (ino - 1).toNat / s.inodesPerGroup.toNat < s.groupCount ∧
      s.unreadable (.inode ino) = false ∧ ¬ SlotFits s.lbaSize s.inodeSize
        (s.slotOffset ((ino - 1).toNat / s.inodesPerGroup.toNat)
          ((ino - 1).toNat % s.inodesPerGroup.toNat)) := by
  have hspan : ∀ group index, s.inodeSpan group index = (s.slotOffset group index % s.lbaSize,
      sectorBytes s.lbaSize (s.slotOffset group index % s.lbaSize + s.inodeSize)) :=
    fun _ _ => rfl
  rw [readInode, findInode, if_neg hino, inodeSlot, if_neg hgroup]
  simp only [bind, Except.bind, BitVec.toNat_udiv, BitVec.toNat_umod, if_neg hlba, hspan,
    sectorBytes_eq_zero hlba, SlotFits]
  generalize (ino - 1).toNat / s.inodesPerGroup.toNat = group
  generalize (ino - 1).toNat % s.inodesPerGroup.toNat = index
  by_cases hcount : group ≥ s.groupCount
  · simp [hcount]
  rw [if_neg hcount]
  by_cases hzero : s.slotOffset group index % s.lbaSize + s.inodeSize = 0
  · simp [hzero]
  rw [if_neg hzero]
  cases s.unreadable (.inode ino) with
  | true => simp
  | false =>
    dsimp only
    rw [if_neg Bool.false_ne_true, or_iff_right hzero, not_le]
    split_ifs with hlarge
    · exact iff_of_true rfl ⟨not_le.mp hcount, rfl, hlarge⟩
    · exact iff_of_false (by rintro ⟨⟩) fun hfits => hlarge hfits.2.2

end

/-- An inode is in a slot of its group. -/
lemma readInode_ne_panic {s s' : Super} (h : Mounted d s) (hlater : Later s s')
    (hgroup : d.raw.sInodesPerGroup ≠ 0) (hfits : d.SlotsFit) (ino : BitVec 32) :
    s'.readInode ino ≠ .error .panic := by
  have hs := h.sized hlater
  have hpg : s'.inodesPerGroup = d.raw.sInodesPerGroup :=
    hlater.inodesPerGroup.trans h.inodesPerGroup
  rcases eq_or_ne ino 0 with rfl | hino
  · exact nofun
  rw [Ne, readInode_eq_panic hs.lbaSize (hpg ▸ hgroup) hino, hpg]
  rintro ⟨hcount, -, hslot⟩
  refine hslot ?_
  have hpos : 0 < d.raw.sInodesPerGroup.toNat :=
    pos_of_ne_zero fun heq => hgroup (BitVec.eq_of_toNat_eq heq)
  have hlt : (ino - 1).toNat < 2 ^ 32 - 1 := by bv_omega
  rw [hlater.groupCount, h.lt_groupCount] at hcount
  have hfit := hfits _ _ hcount (mod_lt (ino - 1).toNat hpos) (by rwa [div_add_mod'])
  rw [slotOffset, hlater.lbaSize, h.lbaSize, hlater.inodeSize, h.inodeSize, hlater.blockSize,
    h.blockSize, hlater.bgInodeTable, h.bgdt]
  exact hfit

/-- A mounted filesystem is safe if and only if its groups have inodes, and the sectors of every
slot contain the structure of the inode. -/
theorem noPanic_iff {d : Device} {s : Super} (h : Super.read d = .ok s) :
    (∀ s', Later s s' → NoPanic s') ↔ d.raw.sInodesPerGroup ≠ 0 ∧ d.SlotsFit := by
  have hm := mounted_of_read h
  refine ⟨fun hsafe => ?_, fun ⟨hgroup, hfits⟩ s' hlater =>
    { resolveBlock := fun raw _ => Machine.resolveBlock_ne_panic (hm.sized hlater) raw
      readInode := readInode_ne_panic hm hlater hgroup hfits
      allocBlock := fun g t => (Machine.alloc_ne_panic (hm.sized hlater) g t).1
      allocInode := fun g t => (Machine.alloc_ne_panic (hm.sized hlater) g t).2 }⟩
  have hgroup : d.raw.sInodesPerGroup ≠ 0 := by
    intro hzero
    refine (hsafe s ⟨rfl, rfl, rfl, rfl, rfl, fun _ => rfl⟩).readInode 1 ?_
    rw [readInode, findInode, inodeSlot, hm.inodesPerGroup, if_pos hzero]
    rfl
  refine ⟨hgroup, fun group index hcount hindex hlt => ?_⟩
  by_contra hfits
  -- the inode in the slot, on a device that can be read
  have hino : (BitVec.ofNat 32 (group * d.raw.sInodesPerGroup.toNat + index + 1) - 1).toNat =
      group * d.raw.sInodesPerGroup.toNat + index := by
    bv_omega
  have hne : BitVec.ofNat 32 (group * d.raw.sInodesPerGroup.toNat + index + 1) ≠ 0 := by
    bv_omega
  have hdiv : (group * d.raw.sInodesPerGroup.toNat + index) / d.raw.sInodesPerGroup.toNat =
      group := by
    rw [add_comm, add_mul_div_right _ _ (zero_lt_of_lt hindex),
      div_eq_of_lt hindex, zero_add]
  refine (hsafe { s with unreadable := fun _ => false }
    ⟨rfl, rfl, rfl, rfl, rfl, fun _ => rfl⟩).readInode _ ((readInode_eq_panic
      (hm.lbaSize ▸ hm.lbaSize_ne_zero) (hm.inodesPerGroup ▸ hgroup) hne).mpr ⟨?_, rfl, ?_⟩)
  · dsimp only
    rw [hino, hm.inodesPerGroup, hdiv, hm.lt_groupCount]
    exact hcount
  · dsimp only [slotOffset]
    rw [hino, hm.inodesPerGroup, hdiv, mul_add_mod_of_lt hindex, hm.lbaSize, hm.inodeSize,
      hm.blockSize, hm.bgdt]
    exact hfits

/-- The structure of an inode fits in slots of its size. -/
lemma slotsFit_of_le (hlba : d.lbaSize ≠ 0) (hsize : 128 ≤ d.raw.inodeSize) :
    d.SlotsFit := fun _ _ _ _ _ =>
  Or.inr (Nat.le_trans (Nat.add_le_add_left hsize _) (le_sectorBytes hlba))

/-- A device with a filesystem, which has the given number of inodes in a group. -/
def sampleDevice (inodesPerGroup : BitVec 32) : Device where
  lbaSize := 512
  raw := { sample.raw with sInodesPerGroup := inodesPerGroup }
  bgdt := sample.bgdt
  blocks := sample.blocks
  bitmaps := sample.bitmaps
  inodes := sample.inodes
  unreadable := fun _ => false
  unwritable := fun _ => false
  superReadable := true
  tableReadable := true

theorem noPanic_sampleDevice : ∃ s, Super.read (sampleDevice 8) = .ok s ∧
    ∀ s', Later s s' → NoPanic s' :=
  ⟨_, rfl, (noPanic_iff (d := sampleDevice 8) rfl).mpr
    ⟨by decide, slotsFit_of_le (by decide) (by decide)⟩⟩

/-- A filesystem without inodes in its groups is mounted, and the number of an inode is divided
by zero. -/
theorem panic_sampleDevice : ∃ s, read (sampleDevice 0) = .ok s ∧
    s.readInode 2 = .error .panic :=
  ⟨_, rfl, rfl⟩

end Ext2

end Zinnia
