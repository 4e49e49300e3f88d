import Zinnia.Drivers.Ext2
import Zinnia.Lib.Comp
import Mathlib.Algebra.Order.BigOperators.Group.Finset
import Mathlib.Data.List.Find

/-!
# Bitmaps and counters

A block or an inode number has a bit in the bitmap of its group. The counters of the groups and of
the superblock agree with the clear bits if they agree at first, and each call of the allocator
sets or clears one bit.
-/

namespace Zinnia

open Comp Function List BitVec Finset Nat Ext2.Super

namespace Ext2

/-! ### Bits -/

/-- A bit of a bitmap. -/
def bit (bitmap : Block) (i : ℕ) : Bool := (bitmap (i / 8)).getLsbD (i % 8)

lemma and_shiftLeft_eq_zero_iff (b : BitVec 8) {k : ℕ} (hk : k < 8) :
    b &&& (1#8 <<< k) = 0 ↔ b.getLsbD k = false := by
  constructor
  · intro h
    have := congrArg (·.getLsbD k) h
    simpa [hk] using this
  · intro h
    refine eq_of_getLsbD_eq fun j hj => ?_
    by_cases hjk : j = k
    · simp [hjk, h]
    · simp; omega

lemma findSome?_byte (bitmap : Block) (n : ℕ) :
    (if bitmap n = 0xFF then none
      else ((List.range 8).find? fun k => bitmap n &&& (1#8 <<< k) = 0).map (n * 8 + ·)) =
      ((List.range 8).map (n * 8 + ·)).find? fun i => !bit bitmap i := by
  have hfind : (List.range 8).find? ((fun i => !bit bitmap i) ∘ (n * 8 + ·)) =
      (List.range 8).find? fun k => bitmap n &&& (1#8 <<< k) = 0 := by
    refine find?_congr fun k hk => ?_
    rw [List.mem_range] at hk
    change (!bit bitmap (n * 8 + k)) = _
    rw [bit, show (n * 8 + k) / 8 = n by omega, show (n * 8 + k) % 8 = k by omega,
      Bool.eq_iff_iff, Bool.not_eq_true', decide_eq_true_iff, and_shiftLeft_eq_zero_iff _ hk]
  rw [find?_map, hfind]
  split_ifs with hfull
  · rw [hfull]
    rfl
  · rfl

lemma firstClear_eq (bitmap : Block) (n : ℕ) :
    firstClear bitmap n = (List.range (n * 8)).find? fun i => !bit bitmap i := by
  induction n with
  | zero => rfl
  | succ n ih =>
    rw [Nat.succ_mul, List.range_add, find?_append, ← ih, ← findSome?_byte]
    rw [firstClear, range_succ (n := n), findSome?_append, findSome?_cons]
    generalize (if bitmap n = 0xFF then none else _ : Option ℕ) = found
    cases found <;> rfl

lemma firstClear_eq_some {bitmap : Block} {n i : ℕ} (h : firstClear bitmap n = some i) :
    i < n * 8 ∧ bit bitmap i = false ∧ ∀ j < i, bit bitmap j = true := by
  rw [firstClear_eq, find?_range_eq_some] at h
  obtain ⟨hclear, hmem, hbelow⟩ := h
  exact ⟨List.mem_range.mp hmem, by simpa using hclear, fun j hj => by simpa using hbelow j hj⟩

lemma bit_setBit (bitmap : Block) (i j : ℕ) :
    bit (update bitmap (i / 8) (bitmap (i / 8) ||| (1#8 <<< (i % 8)))) j =
      if j = i then true else bit bitmap j := by
  rw [bit, bit, update_apply]
  by_cases hbyte : j / 8 = i / 8
  · rw [if_pos hbyte, hbyte, getLsbD_or, getLsbD_shiftLeft]
    by_cases hji : j = i
    · simp [hji]; omega
    · simp [hji]; omega
  · rw [if_neg hbyte, if_neg fun h => hbyte (by rw [h])]

lemma bit_clearBit (bitmap : Block) (i j : ℕ) :
    bit (update bitmap (i / 8) (bitmap (i / 8) &&& ~~~(1#8 <<< (i % 8)))) j =
      if j = i then false else bit bitmap j := by
  rw [bit, bit, update_apply]
  by_cases hbyte : j / 8 = i / 8
  · rw [if_pos hbyte, hbyte, getLsbD_and, getLsbD_not, getLsbD_shiftLeft]
    by_cases hji : j = i
    · simp [hji]
    · simp [hji]; omega
  · rw [if_neg hbyte, if_neg fun h => hbyte (by rw [h])]

/-! ### Numbers -/

namespace Super

/-- `blocks_per_group` and `inodes_per_group`. -/
def perGroup (s : Super) : Pool → ℕ
  | .blocks => s.blocksPerGroup.toNat
  | .inodes => s.inodesPerGroup.toNat

/-- The first block or inode number that has a bit. -/
def firstNumber (s : Super) : Pool → ℕ
  | .blocks => s.raw.sFirstDataBlock.toNat
  | .inodes => 1

/-- The number of blocks or inodes that have a bit. -/
def total (s : Super) : Pool → ℕ
  | .blocks => s.raw.sBlocksCount.toNat - s.raw.sFirstDataBlock.toNat
  | .inodes => s.raw.sInodesCount.toNat

/-- The length of the valid range of a group. The last group is shorter. -/
def groupLen (s : Super) (pool : Pool) (group : ℕ) : ℕ :=
  min (min (s.perGroup pool) (s.blockSize * 8)) (s.total pool - group * s.perGroup pool)

/-- The block or inode number of a bit. -/
def number (s : Super) (pool : Pool) (group index : ℕ) : ℕ :=
  group * s.perGroup pool + s.firstNumber pool + index

/-- The bit is in the valid range of a group. -/
def Slot (s : Super) (pool : Pool) (group index : ℕ) : Prop :=
  group < s.groupCount ∧ index < s.groupLen pool group

/-- The bit is set. -/
def marked (s : Super) (pool : Pool) (group index : ℕ) : Bool := bit (s.bitmaps pool group) index

/-- The clear bits in the valid range of a group. -/
def clear (s : Super) (pool : Pool) (group : ℕ) : Finset ℕ :=
  (Finset.range (s.groupLen pool group)).filter fun i => s.marked pool group i = false

/-- Set or clear a bit. -/
def withBit (s : Super) (pool : Pool) (group index : ℕ) (byte : BitVec 8) : Super :=
  { s with bitmaps := update s.bitmaps pool (update (s.bitmaps pool) group
      (update (s.bitmaps pool group) (index / 8) byte)) }

/-- The filesystem after a bit is allocated. -/
def reserve (s : Super) (pool : Pool) (group index : ℕ) : Super :=
  (s.withBit pool group index
    (s.bitmaps pool group (index / 8) ||| (1#8 <<< (index % 8)))).count pool group (· - 1) (· - 1)

/-- The filesystem after a bit is freed. -/
def release (s : Super) (pool : Pool) (group index : ℕ) : Super :=
  (s.withBit pool group index
    (s.bitmaps pool group (index / 8) &&& ~~~(1#8 <<< (index % 8)))).count pool group (· + 1) (· + 1)

section

variable {s s' : Super} {pool pool' : Pool} {g g' i i' : ℕ}

lemma marked_withBit {byte : BitVec 8} {value : Bool} {f : BitVec 16 → BitVec 16}
    {f' : BitVec 32 → BitVec 32}
    (hbyte : ∀ j, bit (update (s.bitmaps pool g) (i / 8) byte) j =
      if j = i then value else bit (s.bitmaps pool g) j) :
    ((s.withBit pool g i byte).count pool g f f').marked pool' g' i' =
      if pool' = pool ∧ g' = g ∧ i' = i then value else s.marked pool' g' i' := by
  rw [marked, marked, count, withBit]
  dsimp only
  rcases eq_or_ne pool' pool with rfl | hpool
  · by_cases hg : g' = g
    · subst hg
      rw [update_self, update_self, hbyte]
      simp
    · rw [update_self, update_of_ne hg, if_neg fun h => hg h.2.1]
  · rw [update_of_ne hpool, if_neg fun h => hpool h.1]

lemma marked_reserve : (s.reserve pool g i).marked pool' g' i' =
    if pool' = pool ∧ g' = g ∧ i' = i then true else s.marked pool' g' i' :=
  marked_withBit (bit_setBit _ i)

lemma marked_release : (s.release pool g i).marked pool' g' i' =
    if pool' = pool ∧ g' = g ∧ i' = i then false else s.marked pool' g' i' :=
  marked_withBit (bit_clearBit _ i)

lemma mem_clear : i ∈ s.clear pool g ↔ i < s.groupLen pool g ∧ s.marked pool g i = false := by
  rw [clear, Finset.mem_filter, Finset.mem_range]

lemma clear_reserve : (s.reserve pool g i).clear pool' g' =
    if pool' = pool ∧ g' = g then (s.clear pool' g').erase i else s.clear pool' g' := by
  ext j
  have hlen : (s.reserve pool g i).groupLen pool' g' = s.groupLen pool' g' := rfl
  split_ifs with h
  · rw [mem_erase, mem_clear, mem_clear, hlen, marked_reserve]
    by_cases hj : j = i
    · simp [h, hj]
    · simp [hj]
  · rw [mem_clear, mem_clear, hlen, marked_reserve, if_neg fun h' => h ⟨h'.1, h'.2.1⟩]

lemma clear_release (hi : i < s.groupLen pool g) : (s.release pool g i).clear pool' g' =
    if pool' = pool ∧ g' = g then insert i (s.clear pool' g') else s.clear pool' g' := by
  ext j
  have hlen : (s.release pool g i).groupLen pool' g' = s.groupLen pool' g' := rfl
  split_ifs with h
  · rw [mem_insert, mem_clear, mem_clear, hlen, marked_release]
    by_cases hj : j = i
    · simp [h, hj, hi]
    · simp [hj]
  · rw [mem_clear, mem_clear, hlen, marked_release, if_neg fun h' => h ⟨h'.1, h'.2.1⟩]

lemma card_clear_le : (s.clear pool g).card ≤ s.groupLen pool g := by
  have h := card_filter_le (range (s.groupLen pool g))
    fun i => s.marked pool g i = false
  rwa [card_range] at h

/-- The groups do not overlap. -/
lemma sum_groupLen_le (s : Super) (pool : Pool) (n : ℕ) :
    ∑ g ∈ Finset.range n, s.groupLen pool g ≤ min (n * s.perGroup pool) (s.total pool) := by
  induction n with
  | zero => simp
  | succ n ih =>
    rw [Finset.sum_range_succ, groupLen, Nat.succ_mul]
    omega

lemma sum_card_clear_le (s : Super) (pool : Pool) (n : ℕ) :
    ∑ g ∈ Finset.range n, (s.clear pool g).card ≤ s.total pool :=
  calc ∑ g ∈ Finset.range n, (s.clear pool g).card
    _ ≤ ∑ g ∈ Finset.range n, s.groupLen pool g := Finset.sum_le_sum fun _ _ => card_clear_le
    _ ≤ min (n * s.perGroup pool) (s.total pool) := s.sum_groupLen_le pool n
    _ ≤ s.total pool := min_le_right _ _

lemma total_lt (s : Super) (pool : Pool) : s.total pool < 2 ^ 32 := by
  cases pool with
  | blocks =>
    rw [total]
    omega
  | inodes => exact s.raw.sInodesCount.isLt

end

/-! ### Counters -/

/-- The counters agree with the bitmaps. -/
structure Counted (s : Super) : Prop where
  group : ∀ pool, ∀ g < s.groupCount,
    ((s.bgdt g).bgFreeCount pool).toNat = (s.clear pool g).card
  total : ∀ pool, (s.raw.sFreeCount pool).toNat =
    ∑ g ∈ Finset.range s.groupCount, (s.clear pool g).card

/-- The blocks are made of whole sectors, and every bitmap has a block of its own. -/
structure Apart (s : Super) : Prop where
  pos : 0 < s.blockSize
  dvd : s.lbaSize ∣ s.blockSize
  bitmaps : ∀ pool pool' g g', g < s.groupCount → g' < s.groupCount →
    s.bitmapBlock pool g = s.bitmapBlock pool' g' → pool = pool' ∧ g = g'

structure Agree (s : Super) : Prop extends Counted s, Apart s

section

variable {s s' : Super} {pool pool' : Pool} {g g' i i' : ℕ} {f : BitVec 16 → BitVec 16}
  {f' : BitVec 32 → BitVec 32}

lemma bgFreeCount_count : ((s.count pool g f f').bgdt g').bgFreeCount pool' =
    if pool' = pool ∧ g' = g then f ((s.bgdt g').bgFreeCount pool')
    else (s.bgdt g').bgFreeCount pool' := by
  rw [count]
  dsimp only
  rcases eq_or_ne g' g with rfl | hg
  · rw [update_self]
    dsimp only
    rcases eq_or_ne pool' pool with rfl | hpool
    · rw [update_self, if_pos ⟨rfl, rfl⟩]
    · rw [update_of_ne hpool, if_neg fun h => hpool h.1]
  · rw [update_of_ne hg, if_neg fun h => hg h.2]

lemma sFreeCount_count : (s.count pool g f f').raw.sFreeCount pool' =
    if pool' = pool then f' (s.raw.sFreeCount pool') else s.raw.sFreeCount pool' := by
  rw [count]
  dsimp only
  rcases eq_or_ne pool' pool with rfl | hpool
  · rw [update_self, if_pos rfl]
  · rw [update_of_ne hpool, if_neg hpool]

lemma bitmapBlock_count : (s.count pool g f f').bitmapBlock = s.bitmapBlock := by
  funext pool' g'
  rw [bitmapBlock, bitmapBlock, count]
  dsimp only
  rcases eq_or_ne g' g with rfl | hg
  · rw [update_self]
  · rw [update_of_ne hg]

lemma bitmapBlock_reserve : (s.reserve pool g i).bitmapBlock = s.bitmapBlock := by
  rw [reserve, bitmapBlock_count]
  rfl

lemma bitmapBlock_release : (s.release pool g i).bitmapBlock = s.bitmapBlock := by
  rw [release, bitmapBlock_count]
  rfl

lemma Apart.congr (h : s.Apart) (hsize : s'.blockSize = s.blockSize) (hlba : s'.lbaSize = s.lbaSize)
    (hcount : s'.groupCount = s.groupCount) (hblock : s'.bitmapBlock = s.bitmapBlock) : s'.Apart :=
  ⟨hsize ▸ h.pos, hsize ▸ hlba ▸ h.dvd, hcount ▸ hblock ▸ h.bitmaps⟩

lemma Agree.write (h : s.Agree) (blocks : ℕ → Block) (inodes : BitVec 32 → Inode) :
    Agree { s with blocks, inodes } :=
  ⟨⟨h.group, h.total⟩, h.pos, h.dvd, h.bitmaps⟩

lemma Apart.blockStart (h : s.Apart) (b : ℕ) : s.blockStart b = b * s.blockSize :=
  Nat.div_mul_cancel (h.dvd.mul_left b)

/-- A write changes no other block. -/
lemma Apart.overlaid (h : s.Apart) (written : ℕ) (buf : Block) (block : ℕ) (old : Block) :
    s.overlaid written buf block old = if block = written then buf else old := by
  have hspan : s.blockSpan = s.blockSize := by
    obtain ⟨n, hn⟩ := h.dvd
    have hpos : 0 < s.lbaSize := Nat.pos_of_mul_pos_right (hn ▸ h.pos)
    rw [blockSpan, hn, Nat.mul_add_div hpos, Nat.div_eq_of_lt (by omega), Nat.add_zero, Nat.mul_comm]
  rw [Super.overlaid, h.blockStart, h.blockStart, hspan]
  dsimp only
  by_cases heq : block = written
  · rw [if_pos heq, if_pos (by rw [heq])]
  rw [if_neg heq, if_neg fun hmul => heq (Nat.eq_of_mul_eq_mul_right h.pos hmul)]
  funext i
  refine if_neg fun hin => ?_
  rcases Nat.lt_or_gt_of_ne heq with hlt | hlt
  · have hle := Nat.mul_le_mul_right s.blockSize hlt
    rw [Nat.succ_mul] at hle
    omega
  · have hle := Nat.mul_le_mul_right s.blockSize hlt
    rw [Nat.succ_mul] at hle
    omega

/-- The number of clear bits of all groups, when it changes in one group. -/
lemma sum_card_clear_eq {n : ℕ} (hg : g < n)
    (hsame : ∀ g' ≠ g, s'.clear pool g' = s.clear pool g') :
    ∑ g' ∈ Finset.range n, (s'.clear pool g').card + (s.clear pool g).card =
      ∑ g' ∈ Finset.range n, (s.clear pool g').card + (s'.clear pool g).card := by
  have hmem := Finset.mem_range.mpr hg
  rw [← add_sum_erase _ _ hmem, ← add_sum_erase _ (fun g => (s.clear pool g).card) hmem,
    sum_congr rfl fun g' hg' => congrArg card (hsame g' (ne_of_mem_erase hg'))]
  omega

/-- The counters still agree after a change of one group. -/
lemma Agree.change (h : s.Agree) {byte : BitVec 8} (hg : g < s.groupCount)
    (hs' : s' = (s.withBit pool g i byte).count pool g f f')
    (hsame : ∀ pool' g', ¬ (pool' = pool ∧ g' = g) → s'.clear pool' g' = s.clear pool' g')
    (hgroup : (f ((s.bgdt g).bgFreeCount pool)).toNat = (s'.clear pool g).card)
    (htotal : (f' (s.raw.sFreeCount pool)).toNat + (s.clear pool g).card =
      (s.raw.sFreeCount pool).toNat + (s'.clear pool g).card) : s'.Agree := by
  have hbgdt (pool' g') := congrArg (fun s => (s.bgdt g').bgFreeCount pool') hs'
  have hraw (pool') := congrArg (fun s => s.raw.sFreeCount pool') hs'
  have hcount : s'.groupCount = s.groupCount := hs' ▸ rfl
  refine ⟨⟨?_, ?_⟩, h.toApart.congr (hs' ▸ rfl) (hs' ▸ rfl) hcount (hs' ▸ bitmapBlock_count)⟩
  · intro pool' g' hg'
    rw [hbgdt, bgFreeCount_count]
    split_ifs with heq
    · rw [heq.1, heq.2]
      exact hgroup
    · rw [hsame pool' g' heq]
      exact h.group pool' g' (hcount ▸ hg')
  · intro pool'
    rw [hraw, sFreeCount_count, hcount]
    split_ifs with hpool
    · subst hpool
      have hsum := sum_card_clear_eq hg fun g' hg' => hsame pool' g' fun heq => hg' heq.2
      rw [h.total pool'] at htotal
      exact add_right_cancel (htotal.trans hsum.symm)
    · refine (h.total pool').trans (sum_congr rfl fun g' _ => ?_)
      rw [hsame pool' g' fun heq => hpool heq.1]

lemma Agree.reserve (h : s.Agree) (hg : g < s.groupCount) (hi : i ∈ s.clear pool g) :
    (s.reserve pool g i).Agree := by
  have hgroup := h.group pool g hg
  have htotal := h.total pool
  have hpos := card_pos.mpr ⟨i, hi⟩
  have hle : (s.clear pool g).card ≤ (s.raw.sFreeCount pool).toNat := by
    rw [htotal]
    exact single_le_sum_of_canonicallyOrdered
      (f := fun g => (s.clear pool g).card) (Finset.mem_range.mpr hg)
  have hclear : ((s.reserve pool g i).clear pool g).card = (s.clear pool g).card - 1 := by
    rw [clear_reserve, if_pos ⟨rfl, rfl⟩, card_erase_of_mem hi]
  refine h.change hg rfl (fun pool' g' hne => ?_) ?_ ?_
  · rw [clear_reserve, if_neg hne]
  · rw [toNat_sub, show (1 : BitVec 16).toNat = 1 from rfl]
    omega
  · rw [toNat_sub, show (1 : BitVec 32).toNat = 1 from rfl]
    omega

lemma Agree.release (h : s.Agree) (hslot : s.Slot pool g i) (hmarked : s.marked pool g i = true)
    (hfits : s.groupLen pool g < 2 ^ 16) : (s.release pool g i).Agree := by
  obtain ⟨hg, hi⟩ := hslot
  have hgroup := h.group pool g hg
  have htotal := h.total pool
  have hclear : ((s.release pool g i).clear pool g).card = (s.clear pool g).card + 1 := by
    rw [clear_release hi, if_pos ⟨rfl, rfl⟩, card_insert_of_notMem]
    rw [mem_clear, hmarked]
    exact fun h => nomatch h.2
  have hlen : ((s.release pool g i).clear pool g).card ≤ s.groupLen pool g := card_clear_le
  have hsame : ∀ pool' g', ¬ (pool' = pool ∧ g' = g) →
      (s.release pool g i).clear pool' g' = s.clear pool' g' := fun pool' g' hne => by
    rw [clear_release hi, if_neg hne]
  have hsum := sum_card_clear_eq hg fun g' hg' => hsame pool g' fun heq => hg' heq.2
  have hbound : _ ≤ s.total pool := (s.release pool g i).sum_card_clear_le pool s.groupCount
  have htotal_lt := s.total_lt pool
  refine h.change hg rfl hsame ?_ ?_
  · rw [toNat_add, show (1 : BitVec 16).toNat = 1 from rfl]
    omega
  · rw [toNat_add, show (1 : BitVec 32).toNat = 1 from rfl]
    omega

end

end Super

/-! ### Calls -/

section

variable {α β : Type} {s s' : Super} {pool : Pool} {g i preferredGroup : ℕ}
  {f : Super → Except Fault α} {e : Fault} {sector : Sector} {offsets : List ℕ} {b : ℕ × ℕ}

lemma run_reading_eq_ok {a : α} : (reading f).run s = .ok a s' ↔ f s = .ok a ∧ s' = s := by
  rw [EStateM.run, reading]
  cases f s with
  | ok b =>
    constructor
    · rintro ⟨⟩
      exact ⟨rfl, rfl⟩
    · rintro ⟨⟨⟩, rfl⟩
      rfl
  | error e => exact ⟨nofun, fun h => nomatch h.1⟩

lemma run_reading_bind_eq_ok {k : α → Ext2M β} {b : β} :
    (reading f >>= k).run s = .ok b s' ↔ ∃ a, f s = .ok a ∧ (k a).run s = .ok b s' := by
  simp only [run_bind_eq_ok, run_reading_eq_ok]
  exact ⟨fun ⟨a, _, ⟨ha, rfl⟩, h⟩ => ⟨a, ha, h⟩, fun ⟨a, ha, h⟩ => ⟨a, s, ⟨ha, rfl⟩, h⟩⟩

lemma run_reading_eq_error : (reading f).run s = .error e s' ↔ f s = .error e ∧ s' = s := by
  rw [EStateM.run, reading]
  cases f s with
  | ok b => exact ⟨nofun, fun h => nomatch h.1⟩
  | error e =>
    constructor
    · rintro ⟨⟩
      exact ⟨rfl, rfl⟩
    · rintro ⟨⟨⟩, rfl⟩
      rfl

lemma run_reading_bind_eq_error {k : α → Ext2M β} :
    (reading f >>= k).run s = .error e s' ↔
      (f s = .error e ∧ s' = s) ∨ ∃ a, f s = .ok a ∧ (k a).run s = .error e s' := by
  simp only [run_bind_eq_error, run_reading_eq_error, run_reading_eq_ok]
  exact or_congr_right ⟨fun ⟨a, _, ⟨ha, rfl⟩, h⟩ => ⟨a, ha, h⟩, fun ⟨a, ha, h⟩ => ⟨a, s, ⟨ha, rfl⟩, h⟩⟩

lemma run_writing_eq_ok {f : Super → Super} {u : Unit} :
    (writing sector f).run s = .ok u s' ↔ s.unwritable sector = false ∧ s' = f s := by
  rw [EStateM.run, writing]
  split_ifs with hfail
  · rw [hfail]
    exact ⟨nofun, fun h => nomatch h.1⟩
  · rw [Bool.not_eq_true] at hfail
    constructor
    · rintro ⟨⟩
      exact ⟨hfail, rfl⟩
    · rintro ⟨-, rfl⟩
      rfl

lemma run_writing_eq_error {f : Super → Super} (h : (writing sector f).run s = .error e s') :
    s' = s ∧ e = .errno .eio := by
  rw [EStateM.run, writing] at h
  split_ifs at h
  cases h
  exact ⟨rfl, rfl⟩

lemma run_writeBlock_eq_ok (h : s.Apart) {block : ℕ} {buf : Block} {u : Unit} :
    (writeBlock block buf).run s = .ok u s' ↔
      s.unwritable (.block block) = false ∧ s' = { s with blocks := update s.blocks block buf } := by
  have hblocks : (fun b => s.overlaid block buf b (s.blocks b)) = update s.blocks block buf :=
    funext fun b => (h.overlaid _ _ _ _).trans (update_apply _ _ _ _).symm
  rw [writeBlock, run_writing_eq_ok, hblocks]

lemma run_writeBitmap_eq_ok (h : s.Apart) (hg : g < s.groupCount) {bitmap : Block} {u : Unit}
    (hrun : (writeBitmap pool g bitmap).run s = .ok u s') :
    s' = { s with bitmaps := update s.bitmaps pool (update (s.bitmaps pool) g bitmap) } := by
  obtain ⟨-, rfl⟩ := run_writing_eq_ok.mp hrun
  congr 1
  funext pool' g'
  rw [h.overlaid]
  rcases eq_or_ne pool' pool with rfl | hpool
  · rw [update_self]
    rcases eq_or_ne g' g with rfl | hne
    · rw [update_self, if_pos hg, if_pos rfl]
    · rw [update_of_ne hne]
      split_ifs with hg' hblock
      · exact absurd (h.bitmaps _ _ _ _ hg' hg hblock).2 hne
      · rfl
      · rfl
  · rw [update_of_ne hpool]
    split_ifs with hg' hblock
    · exact absurd (h.bitmaps _ _ _ _ hg' hg hblock).1 hpool
    · rfl
    · rfl

lemma readBitmap_eq_ok {bitmap : Block} (h : s.readBitmap pool g = .ok bitmap) :
    bitmap = s.bitmaps pool g := by
  rw [readBitmap] at h
  split_ifs at h
  exact (Except.ok.inj h).symm

lemma readBitmap_eq_error (h : s.readBitmap pool g = .error e) : e ≠ .panic := by
  rw [readBitmap] at h
  split_ifs at h
  cases h
  exact nofun

lemma allocIn_eq_ok (hapart : s.Apart) (hpos : 0 < s.groupCount)
    (h : (allocIn pool preferredGroup offsets).run s = .ok b s') :
    b.1 < s.groupCount ∧ (s.bgdt b.1).bgFreeCount pool ≠ 0 ∧
      firstClear (s.bitmaps pool b.1) s.blockSize = some b.2 ∧ s' = s.reserve pool b.1 b.2 := by
  induction offsets with
  | nil => cases h
  | cons offset offsets ih =>
    rw [allocIn, run_get_bind] at h
    dsimp only at h
    split_ifs at h with hcount
    · exact ih h
    · obtain ⟨bitmap, hread, h⟩ := run_reading_bind_eq_ok.mp h
      obtain rfl := readBitmap_eq_ok hread
      split at h
      · exact ih h
      · rename_i index hclear
        obtain ⟨_, s₁, hwrite, h⟩ := run_bind_eq_ok.mp h
        obtain rfl := run_writeBitmap_eq_ok hapart (mod_lt _ hpos) hwrite
        cases h
        exact ⟨mod_lt _ hpos, hcount, hclear, rfl⟩

/-- An allocation that fails changes nothing. -/
lemma allocIn_eq_error (h : (allocIn pool preferredGroup offsets).run s = .error e s') :
    s' = s ∧ e ≠ .panic := by
  induction offsets with
  | nil =>
    cases h
    exact ⟨rfl, nofun⟩
  | cons offset offsets ih =>
    rw [allocIn, run_get_bind] at h
    dsimp only at h
    split_ifs at h with hcount
    · exact ih h
    · obtain ⟨hread, rfl⟩ | ⟨bitmap, -, h⟩ := run_reading_bind_eq_error.mp h
      · exact ⟨rfl, readBitmap_eq_error hread⟩
      · split at h
        · exact ih h
        · obtain hwrite | ⟨_, s₁, hwrite, h⟩ := run_bind_eq_error.mp h
          · obtain ⟨rfl, rfl⟩ := run_writing_eq_error hwrite
            exact ⟨rfl, nofun⟩
          · cases h

/-- The bit that is allocated is a clear one of the valid range of its group. -/
lemma allocIn_spec (hagree : s.Agree)
    (h : (allocIn pool preferredGroup (List.range s.groupCount)).run s = .ok b s') :
    b.1 < s.groupCount ∧ b.2 ∈ s.clear pool b.1 ∧ s' = s.reserve pool b.1 b.2 := by
  have hpos : 0 < s.groupCount := by
    refine pos_of_ne_zero fun hzero => ?_
    rw [hzero] at h
    cases h
  obtain ⟨hlt, hcount, hfirst, hs'⟩ := allocIn_eq_ok hagree.toApart hpos h
  obtain ⟨-, hclear, hbelow⟩ := firstClear_eq_some hfirst
  refine ⟨hlt, ?_, hs'⟩
  -- the counter is not zero, so the valid range has a clear bit
  have hpos : 0 < (s.clear pool b.1).card := by
    rw [← hagree.group pool b.1 hlt]
    refine pos_of_ne_zero fun hzero => hcount ?_
    exact eq_of_toNat_eq hzero
  obtain ⟨j, hj⟩ := card_pos.mp hpos
  obtain ⟨hjlen, hjclear⟩ := mem_clear.mp hj
  refine mem_clear.mpr ⟨lt_of_le_of_lt ?_ hjlen, hclear⟩
  by_contra hji
  have hset := hbelow j (not_le.mp hji)
  rw [marked] at hjclear
  exact nomatch hset.symm.trans hjclear

lemma freeIn_eq_ok (hapart : s.Apart) {u : Unit} (h : (freeIn pool g i).run s = .ok u s') :
    g < s.groupCount ∧ i / 8 < s.blockSize ∧ s' = s.release pool g i := by
  rw [freeIn, run_get_bind] at h
  by_cases hgroup : g ≥ s.groupCount
  · rw [if_pos hgroup] at h
    cases h
  rw [if_neg hgroup] at h
  obtain ⟨bitmap, hread, h⟩ := run_reading_bind_eq_ok.mp h
  obtain rfl := readBitmap_eq_ok hread
  by_cases hbyte : i / 8 ≥ s.blockSize
  · rw [if_pos hbyte] at h
    cases h
  rw [if_neg hbyte] at h
  obtain ⟨_, s₂, hwrite, h⟩ := run_bind_eq_ok.mp h
  obtain rfl := run_writeBitmap_eq_ok hapart (not_le.mp hgroup) hwrite
  cases h
  exact ⟨not_le.mp hgroup, not_le.mp hbyte, rfl⟩

/-- A bit in range is not freed only if the device fails. -/
lemma freeIn_eq_error (h : (freeIn pool g i).run s = .error e s') :
    s' = s ∧ (s.Slot pool g i → e ≠ .panic) := by
  rw [freeIn, run_get_bind] at h
  by_cases hgroup : g ≥ s.groupCount
  · rw [if_pos hgroup] at h
    cases h
    exact ⟨rfl, fun hslot => absurd hgroup (not_le.mpr hslot.1)⟩
  rw [if_neg hgroup] at h
  obtain ⟨hread, rfl⟩ | ⟨bitmap, -, h⟩ := run_reading_bind_eq_error.mp h
  · exact ⟨rfl, fun _ => readBitmap_eq_error hread⟩
  by_cases hbyte : i / 8 ≥ s.blockSize
  · rw [if_pos hbyte] at h
    cases h
    refine ⟨rfl, fun hslot => ?_⟩
    have hlen := hslot.2
    rw [groupLen] at hlen
    omega
  rw [if_neg hbyte] at h
  obtain hwrite | ⟨_, s₂, hwrite, h⟩ := run_bind_eq_error.mp h
  · obtain ⟨rfl, rfl⟩ := run_writing_eq_error hwrite
    exact ⟨rfl, fun _ => nofun⟩
  · cases h

end

/-! ### Numbers of blocks and inodes -/

namespace Super

/-- The group of a number and its index there. -/
def slotOf (s : Super) (pool : Pool) (n : ℕ) : ℕ × ℕ :=
  ((n - s.firstNumber pool) / s.perGroup pool, (n - s.firstNumber pool) % s.perGroup pool)

/-- The number has a bit in the valid range of its group. -/
def InRange (s : Super) (pool : Pool) (n : ℕ) : Prop :=
  s.firstNumber pool ≤ n ∧ s.Slot pool (s.slotOf pool n).1 (s.slotOf pool n).2

/-- The bit of the number is set. -/
def isMarked (s : Super) (pool : Pool) (n : ℕ) : Bool :=
  s.marked pool (s.slotOf pool n).1 (s.slotOf pool n).2

section

variable {s s' : Super} {pool pool' : Pool} {g i n n' : ℕ}

lemma Slot.lt_perGroup (h : s.Slot pool g i) : i < s.perGroup pool := by
  have hlen := h.2
  rw [groupLen] at hlen
  omega

lemma Slot.lt_total (h : s.Slot pool g i) : g * s.perGroup pool + i < s.total pool := by
  have hlen := h.2
  rw [groupLen] at hlen
  omega

lemma slotOf_number (h : s.Slot pool g i) : s.slotOf pool (s.number pool g i) = (g, i) := by
  have hi := h.lt_perGroup
  have hsub : s.number pool g i - s.firstNumber pool = i + s.perGroup pool * g := by
    rw [number, mul_comm]
    omega
  rw [slotOf, hsub, add_mul_div_left _ _ (by omega), add_mul_mod_self_left,
    div_eq_of_lt hi, mod_eq_of_lt hi, zero_add]

lemma inRange_number (h : s.Slot pool g i) : s.InRange pool (s.number pool g i) := by
  refine ⟨by rw [number]; omega, ?_⟩
  rw [slotOf_number h]
  exact h

lemma InRange.number_slotOf (h : s.InRange pool n) :
    s.number pool (s.slotOf pool n).1 (s.slotOf pool n).2 = n := by
  have hfirst := h.1
  have hdiv := div_add_mod' (n - s.firstNumber pool) (s.perGroup pool)
  rw [number, slotOf]
  dsimp only
  omega

lemma InRange.lt (h : s.InRange pool n) : n < s.firstNumber pool + s.total pool := by
  have hlt := h.2.lt_total
  have hn := h.number_slotOf
  rw [number] at hn
  omega

lemma InRange.block_lt (h : s.InRange .blocks n) : n < 2 ^ 32 := by
  have hlt : n < s.raw.sFirstDataBlock.toNat +
      (s.raw.sBlocksCount.toNat - s.raw.sFirstDataBlock.toNat) := h.lt
  have hpos := h.2.lt_total
  rw [total] at hpos
  omega

end

/-- The filesystem after a number is allocated. -/
def reserveNumber (s : Super) (pool : Pool) (n : ℕ) : Super :=
  s.reserve pool (s.slotOf pool n).1 (s.slotOf pool n).2

/-- The filesystem after a number is freed. -/
def releaseNumber (s : Super) (pool : Pool) (n : ℕ) : Super :=
  s.release pool (s.slotOf pool n).1 (s.slotOf pool n).2

section

variable {s : Super} {pool pool' : Pool} {n n' : ℕ}

section

variable (h : s.InRange pool n) (h' : s.InRange pool' n')

include h h'

/-- Numbers that have the same bit are the same. -/
lemma InRange.slotOf_eq_iff :
    pool' = pool ∧ (s.slotOf pool' n').1 = (s.slotOf pool n).1 ∧
      (s.slotOf pool' n').2 = (s.slotOf pool n).2 ↔ pool' = pool ∧ n' = n := by
  constructor
  · rintro ⟨rfl, hgroup, hindex⟩
    exact ⟨rfl, by rw [← h'.number_slotOf, Prod.ext hgroup hindex, h.number_slotOf]⟩
  · rintro ⟨rfl, rfl⟩
    exact ⟨rfl, rfl, rfl⟩

lemma isMarked_reserveNumber :
    (s.reserveNumber pool n).isMarked pool' n' =
      if pool' = pool ∧ n' = n then true else s.isMarked pool' n' :=
  marked_reserve.trans (if_congr (h.slotOf_eq_iff h') rfl rfl)

lemma isMarked_releaseNumber :
    (s.releaseNumber pool n).isMarked pool' n' =
      if pool' = pool ∧ n' = n then false else s.isMarked pool' n' :=
  marked_release.trans (if_congr (h.slotOf_eq_iff h') rfl rfl)

end

end

/-- The number is in range and not in use. -/
def Free (s : Super) (pool : Pool) (n : ℕ) : Prop :=
  s.InRange pool n ∧ s.isMarked pool n = false

/-- The number is in range and in use. -/
def Used (s : Super) (pool : Pool) (n : ℕ) : Prop :=
  s.InRange pool n ∧ s.isMarked pool n = true

end Super

section

variable {s s' : Super} {pool : Pool} {n preferredGroup : ℕ} {ino : BitVec 32}

lemma allocIn_number (hagree : s.Agree) {b : ℕ × ℕ}
    (h : (allocIn pool preferredGroup (List.range s.groupCount)).run s = .ok b s') :
    s.Free pool (s.number pool b.1 b.2) ∧
      s' = s.reserveNumber pool (s.number pool b.1 b.2) := by
  obtain ⟨hgroup, hclear, rfl⟩ := allocIn_spec hagree h
  obtain ⟨hlen, hmarked⟩ := mem_clear.mp hclear
  have hslot : s.Slot pool b.1 b.2 := ⟨hgroup, hlen⟩
  rw [Super.Free, isMarked, reserveNumber, slotOf_number hslot]
  exact ⟨⟨inRange_number hslot, hmarked⟩, rfl⟩

/-- What `alloc_block` returns was free. -/
lemma allocBlock_spec (hagree : s.Agree) (h : (allocBlock preferredGroup).run s = .ok n s') :
    s.Free .blocks n ∧ s' = s.reserveNumber .blocks n := by
  rw [allocBlock] at h
  obtain ⟨b, halloc, ⟨⟩⟩ := run_bind_pure_eq_ok.mp h
  exact allocIn_number hagree halloc

lemma allocInode_spec (hagree : s.Agree) (h : (allocInode preferredGroup).run s = .ok ino s') :
    s.Free .inodes ino.toNat ∧ s' = s.reserveNumber .inodes ino.toNat := by
  rw [allocInode] at h
  obtain ⟨b, halloc, ⟨⟩⟩ := run_bind_pure_eq_ok.mp h
  obtain ⟨hfree, rfl⟩ := allocIn_number hagree halloc
  have hlt := hfree.1.lt
  have hnumber : (BitVec.ofNat 32 b.1 * s.inodesPerGroup + BitVec.ofNat 32 b.2 + 1).toNat =
      s.number .inodes b.1 b.2 := by
    have hsum : BitVec.ofNat 32 b.1 * s.inodesPerGroup + BitVec.ofNat 32 b.2 + 1 =
        BitVec.ofNat 32 (s.number .inodes b.1 b.2) := by
      rw [number, perGroup, firstNumber, ofNat_add, ofNat_add,
        ofNat_mul, ofNat_toNat, BitVec.add_assoc, BitVec.add_assoc,
        BitVec.add_comm (BitVec.ofNat 32 b.2)]
      rfl
    rw [hsum, toNat_ofNat]
    rw [firstNumber, total] at hlt
    omega
  rw [hnumber]
  exact ⟨hfree, rfl⟩

lemma Super.InRange.relative_eq (h : s.InRange .blocks n) :
    (BitVec.ofNat 64 n - s.raw.sFirstDataBlock.setWidth 64).toNat =
      n - s.raw.sFirstDataBlock.toNat := by
  have hfirst : s.raw.sFirstDataBlock.toNat ≤ n := h.1
  have hlt := h.block_lt
  rw [toNat_sub, toNat_ofNat, toNat_setWidth]
  omega

lemma freeBlock_eq (h : s.InRange .blocks n) : (freeBlock n).run s =
    (freeIn .blocks (s.slotOf .blocks n).1 (s.slotOf .blocks n).2).run s := by
  have hpos : 0 < s.blocksPerGroup.toNat := zero_lt_of_lt h.2.lt_perGroup
  have hne : s.blocksPerGroup ≠ 0 := fun hzero => by
    rw [hzero] at hpos
    exact lt_irrefl 0 hpos
  rw [freeBlock, run_get_bind]
  rw [if_neg hne, h.relative_eq]
  rfl

lemma freeInode_eq (h : s.InRange .inodes ino.toNat) : (freeInode ino).run s =
    (freeIn .inodes (s.slotOf .inodes ino.toNat).1 (s.slotOf .inodes ino.toNat).2).run s := by
  have hfirst : 1 ≤ ino.toNat := h.1
  have hpos : 0 < s.inodesPerGroup.toNat := zero_lt_of_lt h.2.lt_perGroup
  have hne : s.inodesPerGroup ≠ 0 := fun hzero => by
    rw [hzero] at hpos
    exact lt_irrefl 0 hpos
  have hsub : (ino - 1).toNat = ino.toNat - 1 := by
    rw [toNat_sub, show (1 : BitVec 32).toNat = 1 from rfl]
    omega
  have hslot : s.inodeSlot ino = .ok (s.slotOf .inodes ino.toNat) := by
    rw [inodeSlot, if_neg hne, toNat_udiv, toNat_umod, hsub]
    rfl
  rw [freeInode]
  exact run_bind_ok (run_reading_eq_ok.mpr ⟨hslot, rfl⟩)

end

end Ext2

end Zinnia
