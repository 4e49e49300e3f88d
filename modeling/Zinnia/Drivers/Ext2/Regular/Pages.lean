import Mathlib.Data.List.GetD
import Zinnia.Drivers.Ext2.Regular

/-!
# The bytes of a regular file on the device

The bytes of a file are the bytes of the blocks that its inode refers to, and zeros where there is
no block. A page is loaded with the bytes of its blocks, if it holds whole blocks.
-/

namespace Zinnia

open Comp List Ext2.Super

namespace Ext2

/-! ### Bytes on the device -/

/-- The byte at a position of a file, as the blocks have it. -/
def Super.diskByte (s : Super) (raw : Inode) (i : ℕ) : BitVec 8 :=
  match s.resolveBlock raw (i / s.blockSize) with
  | .ok diskBlock => if diskBlock = 0 then 0 else s.blocks diskBlock (i % s.blockSize)
  | .error _ => 0

section

variable {s s' : Super} {raw raw' : Inode} {i d keep : ℕ} {freed : List ℕ}

lemma diskByte_of_resolveBlock (h : s.resolveBlock raw (i / s.blockSize) = .ok d) :
    s.diskByte raw i = if d = 0 then 0 else s.blocks d (i % s.blockSize) := by
  rw [diskByte, h]

lemma diskByte_of_hole (h : s.resolveBlock raw (i / s.blockSize) = .ok 0) :
    s.diskByte raw i = 0 := by
  rw [diskByte_of_resolveBlock h, if_pos rfl]

/-- The byte is the same if it is in the same block, and the block is the same. -/
lemma diskByte_congr (hsize : s'.blockSize = s.blockSize)
    (hresolve : s'.resolveBlock raw' (i / s.blockSize) = s.resolveBlock raw (i / s.blockSize))
    (hblocks : ∀ d ∈ s.dataBlocks raw, s.resolveBlock raw (i / s.blockSize) = .ok d →
      s'.blocks d (i % s.blockSize) = s.blocks d (i % s.blockSize)) :
    s'.diskByte raw' i = s.diskByte raw i := by
  rw [diskByte, diskByte, hsize, hresolve]
  cases h : s.resolveBlock raw (i / s.blockSize) with
  | error e => rfl
  | ok d =>
    dsimp only
    split_ifs with hd
    · rfl
    · exact hblocks d (mem_dataBlocks_of_resolveBlock hd h) h

lemma Allocated.diskByte {lb b : ℕ} {new gone : List ℕ} (h : Allocated s s' raw raw' lb b new gone)
    (hlb : s.resolveBlock raw lb = .ok 0) (i : ℕ) : s'.diskByte raw' i = s.diskByte raw i := by
  have hsize := h.grown.layout.blockSize
  by_cases hi : i / s.blockSize = lb
  · rw [← hi] at hlb
    have hnew := h.resolve
    rw [← hi, ← hsize] at hnew
    rw [diskByte_of_hole hlb, diskByte_of_resolveBlock hnew, h.zeroed]
    exact ite_self _
  · exact diskByte_congr hsize (h.resolve_of_ne _ hi) fun d hd _ => by rw [h.data d hd]

lemma Truncated.diskByte_of_le (h : Truncated s s' raw raw' keep freed)
    (hi : keep ≤ i / s.blockSize) : s'.diskByte raw' i = 0 := by
  rw [← h.shrunk.layout.blockSize] at hi
  cases hplaced : s.place (i / s'.blockSize) with
  | none =>
    rw [diskByte, resolveBlock_eq, place_congr h.shrunk.layout.ptrs, hplaced]
  | some x => exact diskByte_of_hole (h.resolve_of_le _ hi (by rw [hplaced]; rfl))

end

/-! ### Sizes -/

section

variable {raw : Inode} {n : ℕ}

@[simp]
lemma isReg_setSize : (raw.setSize n).isReg = raw.isReg := rfl

@[simp]
lemma iBlock_setSize : (raw.setSize n).iBlock = raw.iBlock := rfl

lemma size_setSize (hreg : raw.isReg) (hn : n < 2 ^ 63) : (raw.setSize n).size = n := by
  rw [Inode.size, isReg_setSize, if_pos hreg, Inode.setSize]
  rw [if_pos hreg, BitVec.toNat_ofNat, BitVec.toNat_ofNat,
    Nat.mod_eq_of_lt (show n / 2 ^ 32 < 2 ^ 32 by omega), Nat.mod_add_div']

end

/-! ### Loading pages -/

/-- A page holds whole blocks. -/
def Super.WholeBlocks (s : Super) : Prop := pageSize % s.blockSize = 0

section

variable {s : Super} {raw : Inode} {p i : ℕ}

section

variable (h : s.WholeBlocks)

include h

lemma Super.WholeBlocks.blockSize_pos : 0 < s.blockSize := by
  refine pos_of_ne_zero fun hzero => ?_
  rw [Super.WholeBlocks, hzero] at h
  exact absurd h (by decide)

lemma Super.WholeBlocks.mul_blocksPerPage : s.blocksPerPage * s.blockSize = pageSize := by
  have hmul : pageSize / s.blockSize * s.blockSize = pageSize :=
    Nat.div_mul_cancel (Nat.dvd_of_mod_eq_zero h)
  have hpos : 1 ≤ pageSize / s.blockSize := by
    refine Nat.pos_of_ne_zero fun hzero => ?_
    rw [hzero, Nat.zero_mul] at hmul
    exact absurd hmul (by decide)
  rw [blocksPerPage, Nat.max_eq_left hpos, hmul]

/-- The end of a block of a page. -/
lemma Super.WholeBlocks.add_blockSize_le {b : ℕ} (hb : b < s.blocksPerPage) :
    b * s.blockSize + s.blockSize ≤ pageSize := by
  rw [← h.mul_blocksPerPage, ← Nat.succ_mul]
  exact Nat.mul_le_mul_right _ hb

lemma Super.WholeBlocks.div_lt (i : Fin pageSize) : (i : ℕ) / s.blockSize < s.blocksPerPage := by
  rw [Nat.div_lt_iff_lt_mul h.blockSize_pos, h.mul_blocksPerPage]
  exact i.isLt

/-- The first block of a page. -/
lemma Super.WholeBlocks.div_blockSize (p : ℕ) :
    p * pageSize / s.blockSize = p * s.blocksPerPage := by
  rw [← h.mul_blocksPerPage, ← mul_assoc, Nat.mul_div_cancel _ h.blockSize_pos]

/-- The block of a byte of a page. -/
lemma Super.WholeBlocks.block_eq (p i : ℕ) :
    (p * pageSize + i) / s.blockSize = p * s.blocksPerPage + i / s.blockSize ∧
      (p * pageSize + i) % s.blockSize = i % s.blockSize := by
  have heq : p * pageSize + i = i + p * s.blocksPerPage * s.blockSize := by
    rw [mul_assoc, h.mul_blocksPerPage, add_comm]
  rw [heq, Nat.add_mul_div_right _ _ h.blockSize_pos, Nat.add_mul_mod_self_right, add_comm]
  exact ⟨rfl, rfl⟩

end

/-- A page that is loaded has the bytes of its blocks. -/
lemma loadPage_eq (h : s.WholeBlocks) {page : PageData}
    (hload : s.loadPage raw (p * s.blocksPerPage) = .ok page) (i : Fin pageSize) :
    page i = s.diskByte raw (p * pageSize + i) := by
  have hinv := foldlM_induct_except
    (I := fun done (page : PageData) => ∀ i : Fin pageSize,
      page i = if (i : ℕ) / s.blockSize ∈ done then s.diskByte raw (p * pageSize + i) else 0)
    ?_ ?_ hload
  · rw [hinv i, if_pos (mem_range.mpr (h.div_lt i))]
  · intro i
    rw [if_neg not_mem_nil]
  · intro done b rest page page' hl hpage hstep i
    have hb : b < s.blocksPerPage := by
      rw [← mem_range, ← hl]
      exact mem_append_right _ mem_cons_self
    obtain ⟨hdiv, hmod⟩ := h.block_eq p i
    obtain ⟨d, hres, hstep⟩ := bind_eq_ok.mp hstep
    have hdisk : (i : ℕ) / s.blockSize = b → s.diskByte raw (p * pageSize + i) =
        if d = 0 then 0 else s.blocks d (i % s.blockSize) := by
      rintro rfl
      rw [← hdiv] at hres
      rw [diskByte_of_resolveBlock hres, hmod]
    rcases eq_or_ne d 0 with rfl | hd
    · cases hstep
      rw [hpage i]
      by_cases heq : (i : ℕ) / s.blockSize = b
      · simp [hdisk heq]
      · simp [heq]
    · rw [if_neg hd] at hstep
      obtain ⟨buf, hread, hstep⟩ := bind_eq_ok.mp hstep
      cases hstep
      obtain rfl := (readBlock_eq_ok hread).2
      have hfits := h.add_blockSize_le hb
      have hblock : b * s.blockSize ≤ i ∧ i < b * s.blockSize + s.blockSize ↔
          (i : ℕ) / s.blockSize = b := by
        rw [Nat.div_eq_iff h.blockSize_pos]
        have := h.blockSize_pos
        omega
      simp only [copyBlock, min_eq_left hfits, Nat.add_sub_cancel_left, hblock, hpage i]
      by_cases heq : (i : ℕ) / s.blockSize = b
      · simp [hdisk heq, heq, hd, Nat.mod_eq_sub_div_mul]
      · simp [heq]

end

section

variable {s : Super} {ino : BitVec 32} {raw : Inode} {p count : ℕ} {batch : List PageData}

lemma tryGetPage_eq (h : s.WholeBlocks) {page : PageData} (hpage : s.tryGetPage ino p = .ok page)
    (hp : p * pageSize < (s.inodes ino).size) (i : Fin pageSize) :
    page i = s.diskByte (s.inodes ino) (p * pageSize + i) := by
  rw [tryGetPage] at hpage
  obtain ⟨raw, hraw, hpage⟩ := bind_eq_ok.mp hpage
  obtain rfl := readInode_eq hraw
  rw [if_neg (not_le.mpr hp), h.div_blockSize] at hpage
  exact loadPage_eq h hpage i

lemma ioError_eq_ok {α : Type} {x : Except Fault α} {a : α} : ioError x = .ok a ↔ x = .ok a := by
  cases x with
  | ok b => exact Iff.rfl
  | error e => cases e <;> exact ⟨nofun, nofun⟩

/-- A batch is the next pages of the file. -/
structure Batch (s : Super) (ino : BitVec 32) (p count : ℕ) (batch : List PageData) : Prop where
  ne_nil : 0 < count → p * pageSize < (s.inodes ino).size → batch ≠ []
  lt : ∀ k < batch.length, (p + k) * pageSize < (s.inodes ino).size
  bytes : ∀ k page, batch[k]? = some page → ∀ i : Fin pageSize,
    page i = s.diskByte (s.inodes ino) ((p + k) * pageSize + i)

/-- The number of units of size `k` that `n` bytes take. -/
lemma lt_ceil {n k p : ℕ} (hk : 0 < k) : p < (n + (k - 1)) / k ↔ p * k < n := by
  rw [Nat.lt_div_iff_mul_lt hk]
  omega

lemma div_lt_ceil {n k i : ℕ} (hk : 0 < k) (hi : i < n) : i / k < (n + (k - 1)) / k :=
  (lt_ceil hk).mpr (lt_of_le_of_lt (Nat.div_mul_le_self i k) hi)

lemma lt_filePages {n p : ℕ} : p < (n + (pageSize - 1)) / pageSize ↔ p * pageSize < n :=
  lt_ceil (by decide)

lemma tryGetPages_spec (h : s.WholeBlocks) (hbatch : s.tryGetPages ino p count = .ok batch) :
    Batch s ino p count batch := by
  rw [tryGetPages, ioError_eq_ok] at hbatch
  obtain ⟨raw, hraw, hbatch⟩ := bind_eq_ok.mp hbatch
  obtain rfl := readInode_eq hraw
  by_cases hend : p ≥ ((s.inodes ino).size + (pageSize - 1)) / pageSize
  · rw [if_pos hend] at hbatch
    cases hbatch
    refine ⟨fun _ hlt => ?_, nofun, nofun⟩
    exact absurd hend (Nat.not_le.mpr (lt_filePages.mpr hlt))
  -- both ways of reading load each page of the batch
  obtain ⟨load, hload, hloaded⟩ : ∃ load : ℕ → Except Fault PageData,
      (range (min count (((s.inodes ino).size + (pageSize - 1)) / pageSize - p))).mapM load =
        .ok batch ∧ ∀ k page, (p + k) * pageSize < (s.inodes ino).size → load k = .ok page →
          ∀ i : Fin pageSize, page i = s.diskByte (s.inodes ino) ((p + k) * pageSize + i) := by
    dsimp only at hbatch
    split_ifs at hbatch with hfast
    · refine ⟨_, hbatch, fun k page _ hpage i => loadPage_eq h ?_ i⟩
      rwa [h.div_blockSize, ← Nat.add_mul] at hpage
    · exact ⟨_, hbatch, fun k page hk hpage => tryGetPage_eq h hpage hk⟩
  have hforall := mapM_eq_ok hload
  have hlength := hforall.length_eq
  rw [length_range] at hlength
  have hinside : ∀ k < batch.length, (p + k) * pageSize < (s.inodes ino).size := by
    intro k hk
    rw [← lt_filePages]
    omega
  refine ⟨fun hpos _ hnil => ?_, hinside, fun k page hpage => ?_⟩
  · rw [hnil, length_nil] at hlength
    omega
  · obtain ⟨hk, hget⟩ := List.getElem?_eq_some_iff.mp hpage
    have hresult := hforall.get (by rwa [length_range, hlength]) hk
    rw [get_eq_getElem, get_eq_getElem, getElem_range, hget] at hresult
    exact hloaded k page (hinside k hk) hresult

end

/-! ### The page cache -/

section

variable {f : RegularFile} {p q : ℕ}

lemma pages_enter (batch : List PageData) : (f.enter p batch).pages q =
    (f.pages q).or (if p ≤ q then batch[q - p]? else none) := by
  induction batch generalizing f p with
  | nil => rw [RegularFile.enter, getElem?_nil, ite_self, Option.or_none]
  | cons page batch ih =>
    rw [RegularFile.enter, ih]
    dsimp only
    rcases lt_trichotomy q p with hq | rfl | hq
    · rw [Function.update_of_ne (ne_of_lt hq), if_neg (by omega), if_neg (by omega)]
    · rw [Function.update_self, if_neg (by omega), if_pos (le_refl q), Nat.sub_self,
        Option.or_none]
      rfl
    · rw [Function.update_of_ne (ne_of_gt hq), if_pos (Nat.succ_le_of_lt hq),
        if_pos (le_of_lt hq), show q - p = q - (p + 1) + 1 by omega, getElem?_cons_succ]

lemma enter_eq (batch : List PageData) : ∃ pages, f.enter p batch = { f with pages } := by
  induction batch generalizing f p with
  | nil => exact ⟨f.pages, rfl⟩
  | cons page batch ih =>
    obtain ⟨pages, hpages⟩ := ih
    exact ⟨pages, hpages⟩

end

end Ext2

end Zinnia
