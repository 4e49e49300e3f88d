import Mathlib.Data.List.GetD
import Zinnia.Drivers.Ext2.Mount

/-!
# Blocks and sectors

`read_block` and `write_block` transfer whole sectors. The blocks of a device are independent of
each other if they are made of whole sectors.
-/

namespace Zinnia

open List

namespace Ext2

/-- The bytes of a device, and the transfers that fail, by their first sector and their number of
sectors. -/
structure Disk where
  lbaSize : ℕ
  bytes : ℕ → BitVec 8
  unreadable : ℕ → ℕ → Bool
  unwritable : ℕ → ℕ → Bool

namespace Disk

section

variable (d : Disk) (blockSize block : ℕ)

def startLba : ℕ := Machine.wrap (block * blockSize) / d.lbaSize

def numLbas : ℕ := (blockSize + (d.lbaSize - 1)) / d.lbaSize

/-- `Ext2Super::read_block`, with a buffer of `len` bytes. -/
def readBlock (len : ℕ) : EResult (List (BitVec 8)) :=
  let start := d.startLba blockSize block * d.lbaSize
  if d.numLbas blockSize * d.lbaSize = 0 then .error .einval
  else if d.unreadable (d.startLba blockSize block) (d.numLbas blockSize) then .error .eio
  else .ok ((List.range (min len blockSize)).map fun i => d.bytes (start + i))

/-- `Ext2Super::write_block`. -/
def writeBlock (buf : List (BitVec 8)) : EResult Disk :=
  let start := d.startLba blockSize block * d.lbaSize
  let len := d.numLbas blockSize * d.lbaSize
  -- the rest of the last sector is filled with zeros
  let data := fun i => (buf.take blockSize).getD i 0
  if len = 0 then .error .einval
  else if d.unwritable (d.startLba blockSize block) (d.numLbas blockSize) then .error .eio
  else .ok { d with
    bytes := fun i => if start ≤ i ∧ i < start + len then data (i - start) else d.bytes i }

end

variable {d d' : Disk} {blockSize i : ℕ} {buf : List (BitVec 8)}

lemma startLba_mul (hdvd : d.lbaSize ∣ blockSize) (hi : i * blockSize < 2 ^ 64) :
    d.startLba blockSize i * d.lbaSize = i * blockSize := by
  rw [startLba, Machine.wrap, Nat.mod_eq_of_lt hi,
    Nat.div_mul_cancel (Nat.dvd_mul_left_of_dvd hdvd i)]

lemma numLbas_mul (hdvd : d.lbaSize ∣ blockSize) : d.numLbas blockSize * d.lbaSize = blockSize := by
  obtain ⟨n, rfl⟩ := hdvd
  rcases Nat.eq_zero_or_pos d.lbaSize with hzero | hpos
  · rw [hzero, Nat.mul_zero, Nat.zero_mul]
  · rw [numLbas, Nat.mul_add_div hpos, Nat.div_eq_of_lt (by omega), Nat.add_zero, Nat.mul_comm]

/-- The bytes of a device after a block was written. -/
lemma writeBlock_eq_ok (hdvd : d.lbaSize ∣ blockSize) (hi : i * blockSize < 2 ^ 64)
    (hwrite : d.writeBlock blockSize i buf = .ok d') :
    ∃ bytes, d' = { d with bytes } ∧ blockSize ≠ 0 ∧ ∀ j < blockSize, ∀ k,
      bytes (k * blockSize + j) =
        if k = i then (buf.take blockSize).getD j 0 else d.bytes (k * blockSize + j) := by
  rw [writeBlock, startLba_mul hdvd hi, numLbas_mul hdvd] at hwrite
  split_ifs at hwrite with hzero
  refine ⟨_, (Except.ok.inj hwrite).symm, hzero, fun j hj k => ?_⟩
  by_cases hk : k = i
  · rw [if_pos hk, hk, if_pos (by omega), Nat.add_sub_cancel_left]
  · rw [if_neg hk, if_neg]
    rintro ⟨hlo, hhi⟩
    -- a position is in one block only
    have hdiv : ∀ k j, j < blockSize → (k * blockSize + j) / blockSize = k := fun k j hj => by
      rw [Nat.mul_comm, Nat.mul_add_div (by omega), Nat.div_eq_of_lt hj, Nat.add_zero]
    exact hk (by rw [← hdiv k j hj, ← hdiv i (k * blockSize + j - i * blockSize) (by omega),
      Nat.add_sub_cancel' hlo])

/-- Devices are arrays of blocks: a block that was written is read back, and no other block
changes. -/
def Independent (lbaSize blockSize : ℕ) : Prop :=
  ∀ (d d' : Disk) (i : ℕ) (buf : List (BitVec 8)), d.lbaSize = lbaSize → i * blockSize < 2 ^ 64 →
    d.writeBlock blockSize i buf = .ok d' →
    (d.unreadable (d.startLba blockSize i) (d.numLbas blockSize) = false → ∀ len ≤ buf.length,
      d'.readBlock blockSize i len = .ok (buf.take (min len blockSize))) ∧
    ∀ j ≠ i, j * blockSize < 2 ^ 64 → ∀ len,
      d'.readBlock blockSize j len = d.readBlock blockSize j len

lemma independent_of_dvd {lbaSize : ℕ} (hdvd : lbaSize ∣ blockSize) :
    Independent lbaSize blockSize := by
  rintro d d' i buf rfl hi hwrite
  obtain ⟨bytes, rfl, hpos, hbytes⟩ := writeBlock_eq_ok hdvd hi hwrite
  refine ⟨fun hreadable len hlen => ?_, fun j hj hlt len => ?_⟩
  · rw [readBlock, startLba_mul (d := { d with bytes }) hdvd hi,
      numLbas_mul (d := { d with bytes }) hdvd, if_neg hpos,
      if_neg (by exact ne_true_of_eq_false hreadable)]
    refine congrArg Except.ok (ext_getElem (by simp; omega) fun k hk hk' => ?_)
    rw [length_map, length_range, Nat.lt_min] at hk
    rw [getElem_map, getElem_range, getElem_take]
    rw [show Disk.bytes { d with bytes } _ = _ from hbytes k hk.2 i, if_pos rfl,
      getD_eq_getElem _ _ (by simp; omega), getElem_take]
  · rw [readBlock, readBlock, startLba_mul (d := { d with bytes }) hdvd hlt, startLba_mul hdvd hlt]
    refine if_congr Iff.rfl rfl (if_congr Iff.rfl rfl (congrArg Except.ok ?_))
    refine map_congr_left fun k hk => ?_
    rw [mem_range, Nat.lt_min] at hk
    exact (hbytes k hk.2 j).trans (if_neg hj)

/-- A device of zeros. -/
def blank (lbaSize : ℕ) : Disk := ⟨lbaSize, fun _ => 0, fun _ _ => false, fun _ _ => false⟩

/-- If blocks are not made of whole sectors, the second begins inside the first. -/
lemma dvd_of_independent {lbaSize : ℕ} (hlba : 0 < lbaSize) (hsize : blockSize < 2 ^ 64)
    (h : Independent lbaSize blockSize) : lbaSize ∣ blockSize := by
  by_contra hdvd
  have hin : blockSize / lbaSize * lbaSize < blockSize :=
    lt_of_le_of_ne (Nat.div_mul_le_self _ _) fun heq => hdvd ⟨_, heq.symm.trans (Nat.mul_comm _ _)⟩
  have hend : blockSize ≤ (blank lbaSize).numLbas blockSize * lbaSize := by
    have := Nat.lt_div_mul_add (a := blockSize + (lbaSize - 1)) hlba
    simp only [numLbas, blank]
    omega
  have hlen : (blank lbaSize).numLbas blockSize * lbaSize ≠ 0 := by omega
  have hread (bytes : ℕ → BitVec 8) : readBlock { blank lbaSize with bytes } blockSize 1 1 =
      .ok [bytes (blockSize / lbaSize * lbaSize)] := by
    refine (if_neg hlen).trans ((if_neg Bool.false_ne_true).trans ?_)
    rw [Nat.min_eq_left (by omega), startLba, Machine.wrap, Nat.one_mul, Nat.mod_eq_of_lt hsize]
    rfl
  -- ones are written to the first block, and the second had zeros
  cases hwrite : (blank lbaSize).writeBlock blockSize 0 (replicate blockSize 1) with
  | error e => cases ((if_neg hlen).trans (if_neg Bool.false_ne_true)).symm.trans hwrite
  | ok d' =>
    have hsame := (h _ d' 0 _ rfl (by simp) hwrite).2 1 Nat.one_ne_zero (by rwa [Nat.one_mul]) 1
    cases ((if_neg hlen).trans (if_neg Bool.false_ne_true)).symm.trans hwrite
    have hbyte := (cons.inj (Except.ok.inj ((hread _).symm.trans
      (hsame.trans (hread fun _ => 0))))).1
    have hzero : (blank lbaSize).startLba blockSize 0 = 0 := by simp [startLba, Machine.wrap]
    rw [hzero, Nat.zero_mul, Nat.zero_add, if_pos ⟨Nat.zero_le _, Nat.lt_of_lt_of_le hin hend⟩,
      Nat.sub_zero, take_of_length_le (by simp)] at hbyte
    cases (getD_replicate _ hin).symm.trans hbyte

/-- The blocks are independent if and only if they are made of whole sectors. -/
theorem independent_iff {lbaSize : ℕ} (hlba : 0 < lbaSize) (hsize : blockSize < 2 ^ 64) :
    Independent lbaSize blockSize ↔ lbaSize ∣ blockSize :=
  ⟨dvd_of_independent hlba hsize, independent_of_dvd⟩

theorem independent_sectors : Independent 512 1024 ∧ ¬ Independent 4096 1024 :=
  ⟨(independent_iff (by decide) (by decide)).mpr (by decide),
    fun h => absurd ((independent_iff (by decide) (by decide)).mp h) (by decide)⟩

/-- Four blocks share a sector: what is written to the second goes to the first. -/
theorem readBlock_writeBlock_ne : ∃ d', (blank 4096).writeBlock 1024 1 [7] = .ok d' ∧
    d'.readBlock 1024 0 1 = .ok [7] ∧ (blank 4096).readBlock 1024 0 1 = .ok [0] :=
  ⟨_, rfl, by decide, by decide⟩

end Disk

end Ext2

end Zinnia
