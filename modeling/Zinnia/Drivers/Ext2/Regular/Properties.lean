import Zinnia.Drivers.Ext2.Regular.Cache

/-!
# The bytes of a regular file

Reads return the bytes of the file, as long as a page holds whole blocks and no bytes are left
behind the end of the file in an uncached block.
-/

namespace Zinnia

open Comp Function List BTreeSet Nat Option Ext2.RegularFile

namespace Ext2

/-! ### Synchronization -/

/-- The pages of the dirty set. -/
def RegularFile.dirtySet (f : RegularFile) : Set ℕ := {p | p ∈ f.dirty}

section

variable {ino : BitVec 32} {f f' : RegularFile} {c : Contents} {stale : Set ℕ} {u : Unit}
  {data : List (BitVec 8)}

lemma Holds.mono {stale' : Set ℕ} (h : Holds ino f c stale) (hsub : stale ⊆ stale') :
    Holds ino f c stale' :=
  { h with disk := h.disk.mono fun _ hp => ⟨hsub hp.1, hp.2⟩ }

/-- The dirty set is replaced. -/
lemma Holds.setDirty (h : Holds ino f c stale) (dirty : BTreeSet ℕ id) :
    Holds ino { f with dirty } c stale :=
  ⟨h.disk, h.size, h.pages_lt, h.pages, h.window, h.length⟩

lemma raise_eq_ok {r : EResult Unit} (h : (raise r).run f = .ok u f') :
    r = .ok () ∧ f' = f := by
  cases r with
  | ok u =>
    cases h
    exact ⟨rfl, rfl⟩
  | error e => cases h

section

variable (h : Holds ino f c f.dirtySet)

include h

lemma sync_spec (hrun : (sync ino).run f = .ok u f') :
    Holds ino f' c f'.dirtySet ∧ f'.dirtySet = ∅ := by
  rw [sync, run_get_bind, run_set_bind] at hrun
  obtain ⟨r, f₂, hback, hraise⟩ := run_bind_eq_ok.mp hrun
  obtain ⟨rfl, rfl⟩ := raise_eq_ok hraise
  obtain ⟨hholds, heq, -⟩ := writeback_spec (h.setDirty empty) hback
  have hclean : f.dirtySet \ {p | p ∈ f.dirty.elems} = ∅ := Set.sdiff_self
  rw [hclean] at hholds
  have hempty : f'.dirtySet = ∅ := by
    rw [heq]
    exact Set.eq_empty_of_forall_notMem fun p => not_mem_empty p
  rw [hempty]
  exact ⟨hholds, rfl⟩

lemma syncRange_spec {startPage endPage : ℕ}
    (hrun : (syncRange ino startPage endPage).run f = .ok u f') :
    Holds ino f' c f'.dirtySet ∧ f'.size = f.size ∧ f'.fs.inodes = f.fs.inodes ∧
      ∀ p ∈ f'.dirtySet, ¬ (startPage ≤ p ∧ p < endPage) := by
  rw [syncRange, run_get_bind, run_set_bind] at hrun
  obtain ⟨r, f₂, hback, hraise⟩ := run_bind_eq_ok.mp hrun
  obtain ⟨rfl, rfl⟩ := raise_eq_ok hraise
  obtain ⟨hholds, heq, hinodes⟩ := writeback_spec (h.setDirty _) hback
  have hdirty : ∀ p, p ∈ f'.dirtySet ↔ p ∈ f.dirty ∧ ¬ (startPage ≤ p ∧ p < endPage) := by
    intro p
    rw [heq]
    refine BTreeSet.mem_filter.trans (and_congr_right fun _ => ?_)
    rw [Bool.not_eq_true', decide_eq_false_iff_not]
  refine ⟨hholds.mono fun p hp => (hdirty p).mpr ⟨hp.1, fun hin => hp.2 ?_⟩, by rw [heq], hinodes,
    fun p hp => ((hdirty p).mp hp).2⟩
  exact List.mem_filter.mpr ⟨hp.1, by simpa using hin⟩

omit h in
lemma readFrames_spec {fuel offset remaining : ℕ} (h : Holds ino f c stale)
    (hfuel : remaining ≤ fuel) (hle : offset + remaining ≤ c.length)
    (hclean : ∀ i, offset ≤ i → i < offset + remaining → i / pageSize ∉ stale)
    (hrun : (readFrames ino fuel offset remaining).run f = .ok data f') :
    data = c.slice offset remaining ∧ f' = f := by
  induction fuel generalizing offset remaining data with
  | zero =>
    obtain rfl : remaining = 0 := le_zero.mp hfuel
    cases hrun
    exact ⟨rfl, rfl⟩
  | succ fuel ih =>
    rw [readFrames] at hrun
    by_cases hzero : remaining = 0
    · subst hzero
      cases hrun
      exact ⟨rfl, rfl⟩
    rw [if_neg hzero] at hrun
    have hmod := mod_lt offset (show 0 < pageSize by decide)
    have hdiv := div_add_mod' offset pageSize
    obtain ⟨frames, f₁, hload, hrest⟩ := run_bind_eq_ok.mp hrun
    obtain ⟨fs, hread, rfl⟩ := run_onSuper_eq_ok hload
    obtain ⟨hbatch, rfl⟩ := run_reading_eq_ok.mp hread
    have hbatch := tryGetPages_spec h.disk.whole hbatch
    have hframes : frames ≠ [] := by
      refine hbatch.ne_nil (lt_min (div_pos (by omega) (by decide)) (by decide)) ?_
      rw [h.disk.size]
      omega
    have hpos := Nat.le_mul_of_pos_left pageSize (length_pos_iff.mpr hframes)
    rw [if_neg hframes] at hrest
    generalize hcopy : min (frames.length * pageSize - offset % pageSize) remaining = copySize
      at hrest
    obtain ⟨rest, hrec, ⟨⟩⟩ := run_bind_pure_eq_ok.mp hrest
    obtain ⟨rfl, rfl⟩ := ih (by omega) (by omega)
      (fun i hlo hhi => hclean i (by omega) (by omega)) hrec
    refine ⟨map_append_slice (by omega) fun i hi => ?_, rfl⟩
    have hk : (offset % pageSize + i) / pageSize < frames.length := by
      rw [div_lt_iff_lt_mul (by decide)]
      omega
    have hdiv' := div_add_mod' (offset % pageSize + i) pageSize
    rw [getD_eq_getElem _ _ hk,
      hbatch.bytes _ _ (getElem?_eq_getElem hk) (Fin.ofNat pageSize (offset % pageSize + i)),
      Fin.val_ofNat, Nat.add_mul, Nat.add_assoc, hdiv', ← Nat.add_assoc, hdiv]
    exact h.disk.bytes _ fun hmem => hclean (offset + i) (by omega) (by omega) hmem.1

lemma readDirect_spec {offset len : ℕ} (hle : offset + len ≤ c.length)
    (hrun : (readDirect ino offset len).run f = .ok data f') :
    data = c.slice offset len ∧ Holds ino f' c f'.dirtySet := by
  rw [readDirect] at hrun
  rcases eq_or_ne len 0 with rfl | hzero
  · cases hrun
    exact ⟨rfl, h⟩
  rw [if_neg hzero] at hrun
  obtain ⟨_, f₁, hsync, hrest⟩ := run_bind_eq_ok.mp hrun
  obtain ⟨hf₁, -, -, hclean⟩ := syncRange_spec h hsync
  have hrange : ∀ i, offset ≤ i → i < offset + len → i / pageSize ∉ f₁.dirtySet := by
    intro i hlo hhi hmem
    exact hclean _ hmem ⟨Nat.div_le_div_right hlo, div_lt_ceil (by decide) hhi⟩
  obtain ⟨hdata, rfl⟩ := readFrames_spec hf₁ le_rfl hle hrange hrest
  exact ⟨hdata, hf₁⟩

lemma read_spec {direct : Bool} {offset len : ℕ}
    (hrun : (read ino direct offset len).run f = .ok data f') :
    data = c.read offset len ∧ Holds ino f' c f'.dirtySet := by
  rw [RegularFile.read, run_get_bind, h.size] at hrun
  by_cases hend : offset ≥ c.length
  · rw [if_pos hend] at hrun
    cases hrun
    rw [Contents.read, Nat.sub_eq_zero_of_le hend, Nat.min_zero]
    exact ⟨rfl, h⟩
  rw [if_neg hend] at hrun
  have hle : offset + min len (c.length - offset) ≤ c.length := by omega
  cases direct with
  | true => exact readDirect_spec h hle hrun
  | false =>
    obtain ⟨hdata, hf', hdirty⟩ := readCache_spec h le_rfl hle hrun
    refine ⟨hdata, ?_⟩
    rwa [dirtySet, hdirty]

end

end

/-! ### Writing -/

section

variable {ino : BitVec 32} {s s' : Super} {f f' : RegularFile} {c : Contents} {stale : Set ℕ}
  {n offset : ℕ} {raw raw' : Inode}

lemma SameLayout.groupLen (h : SameLayout s s') (pool : Pool) (g : ℕ) :
    s'.groupLen pool g = s.groupLen pool g := by
  rw [Super.groupLen, Super.groupLen, h.blockSize, h.perGroup, h.total]

/-- A hole of the file becomes a block of zeros. -/
lemma OnDisk.allocated {lb b : ℕ} {new gone : List ℕ} (h : OnDisk ino s c stale)
    (hlb : s.resolveBlock (s.inodes ino) lb = .ok 0)
    (halloc : Allocated s s' (s.inodes ino) (s'.inodes ino) lb b new gone)
    (hraw : s'.inodes ino = { s.inodes ino with
      iBlock := (s'.inodes ino).iBlock, iBlocks := (s'.inodes ino).iBlocks }) :
    OnDisk ino s' c stale := by
  have hlayout := halloc.grown.layout
  have hb : b ≠ 0 := (halloc.grown.free b halloc.mem).ne_zero h.healthy.zero
  refine ⟨halloc.healthy h.healthy, fun g => ?_, ?_, ?_, ?_, fun i hi => ?_, fun i hi => ?_,
    fun i hi => ?_⟩
  · rw [hlayout.groupLen]
    exact h.fits g
  · rw [Super.WholeBlocks, hlayout.blockSize]
    exact h.whole
  · rw [hraw]
    exact h.reg
  · rw [hraw]
    exact h.size
  · rw [halloc.diskByte hlb]
    exact h.bytes i hi
  · rw [hlayout.blockSize] at hi
    by_cases heq : i / s.blockSize = lb
    · rw [heq, halloc.resolve] at hi
      cases hi
      exact absurd rfl hb
    · rw [halloc.resolve_of_ne _ heq] at hi
      exact h.hole i hi
  · rw [halloc.diskByte hlb]
    rw [hlayout.blockSize] at hi
    exact h.tail i hi

lemma allocRange_spec {startBlock endBlock : ℕ} (h : OnDisk ino s c stale)
    (hrun : (allocRange ino (s.inodes ino) startBlock endBlock).run s = .ok raw' s') :
    OnDisk ino s' c stale ∧ raw' = s'.inodes ino ∧ s'.blockSize = s.blockSize ∧
      ∀ lb, startBlock ≤ lb → lb < endBlock → s'.resolveBlock raw' lb ≠ .ok 0 := by
  have hinv := foldlM_induct
    (I := fun done raw s₁ => OnDisk ino s₁ c stale ∧ raw = s₁.inodes ino ∧
      s₁.blockSize = s.blockSize ∧ ∀ lb ∈ done, s₁.resolveBlock raw lb ≠ .ok 0) ?_ ?_ hrun
  · obtain ⟨hdisk, hraw, hsize, hblocks⟩ := hinv
    exact ⟨hdisk, hraw, hsize, fun lb hlo hhi =>
      hblocks lb (mem_range'_1.mpr ⟨hlo, by omega⟩)⟩
  · exact ⟨h, rfl, rfl, fun lb hlb => nomatch hlb⟩
  · intro done lb rest raw s₁ raw₂ s₂ _ hinv hstep
    obtain ⟨hdisk, rfl, hsize, hblocks⟩ := hinv
    obtain ⟨d, hres, hrest⟩ := run_reading_bind_eq_ok.mp hstep
    rcases eq_or_ne d 0 with rfl | hd
    · obtain ⟨⟨b, raw₃⟩, s₄, halloc, hpure⟩ := run_bind_eq_ok.mp hrest
      cases hpure
      obtain ⟨new, gone, halloc, hinodes, hraw⟩ := allocBlockForInode_spec hdisk.healthy halloc
      have heq : raw₂ = s₂.inodes ino := by rw [hinodes, update_self]
      subst heq
      have hb := (halloc.grown.free b halloc.mem).ne_zero hdisk.healthy.zero
      refine ⟨hdisk.allocated hres halloc hraw, rfl, halloc.grown.layout.blockSize.trans hsize,
        fun lb' hlb' => ?_⟩
      rcases eq_or_ne lb' lb with rfl | heq
      · rw [halloc.resolve]
        exact fun hok => hb (Except.ok.inj hok)
      · rw [halloc.resolve_of_ne _ heq]
        refine hblocks lb' ((mem_append.mp hlb').resolve_right ?_)
        rwa [mem_singleton]
    · rw [if_neg hd] at hrest
      cases hrest
      refine ⟨hdisk, rfl, hsize, fun lb' hlb' => ?_⟩
      rcases mem_append.mp hlb' with hmem | hmem
      · exact hblocks lb' hmem
      · rw [mem_singleton.mp hmem, hres]
        exact fun hok => hd (Except.ok.inj hok)

/-! A size is only read with the inode. -/

lemma Healthy.setSize {inodes : BitVec 32 → Inode} (h : Healthy s raw) :
    Healthy { s with inodes } (raw.setSize n) := by
  have hinode : Super.inodeBlocks { s with inodes } (raw.setSize n) = s.inodeBlocks raw :=
    inodeBlocks_congr iBlock_setSize rfl fun _ _ => rfl
  refine ⟨h.agree.write _ _, h.zero, ?_, ?_⟩
  · rw [hinode]
    exact h.used
  · rw [hinode]
    exact h.nodup

lemma bytes_truncate_of_le (hle : c.length ≤ n) (i : ℕ) : (c.truncate n).bytes i = c.bytes i := by
  rw [Contents.truncate]
  dsimp only
  split_ifs with hi
  · rfl
  · exact (c.zero i (by omega)).symm

/-- The inode is written with a size. -/
lemma OnDisk.of_setSize {inodes : BitVec 32 → Inode} (hraw : inodes ino = raw.setSize c.length)
    (hlt : c.length < 2 ^ 63) (hreg : raw.isReg) (hhealthy : Healthy s raw)
    (hfits : ∀ g, s.groupLen .blocks g < 2 ^ 16) (hwhole : s.WholeBlocks)
    (hbytes : ∀ i, i / pageSize ∉ stale → s.diskByte raw i = c.bytes i)
    (hhole : ∀ i, s.resolveBlock raw (i / s.blockSize) = .ok 0 → c.bytes i = 0)
    (htail : ∀ i, c.length ≤ i / s.blockSize * s.blockSize → s.diskByte raw i = 0) :
    OnDisk ino { s with inodes } c stale := by
  have hino : Super.inodes { s with inodes } ino = raw.setSize c.length := hraw
  refine ⟨?_, hfits, hwhole, ?_, ?_, fun i hi => ?_, fun i hi => ?_, fun i hi => ?_⟩
  · rw [hino]
    exact hhealthy.setSize
  · rw [hino]
    exact hreg
  · rw [hino]
    exact size_setSize hreg hlt
  · rw [hino]
    exact hbytes i hi
  · rw [hino] at hi
    exact hhole i hi
  · rw [hino]
    exact htail i hi

/-- The size of a file grows. -/
lemma Holds.setSize (h : Holds ino f c stale) (hle : c.length ≤ n) (hn : n < 2 ^ 63) :
    Holds ino { f with
      fs := { f.fs with
        inodes := update f.fs.inodes ino ((f.fs.inodes ino).setSize n) }
      size := n } (c.truncate n) stale := by
  have hbytes := bytes_truncate_of_le hle
  refine ⟨?_, rfl, fun p hp => lt_of_lt_of_le (h.pages_lt p hp) hle,
    fun p page hpage i => (h.pages p page hpage i).trans (hbytes _).symm, h.window, hn⟩
  exact .of_setSize (update_self ..) hn h.disk.reg h.disk.healthy h.disk.fits h.disk.whole
    (fun i hi => (h.disk.bytes i hi).trans (hbytes i).symm)
    (fun i hi => (hbytes i).trans (h.disk.hole i hi))
    (fun i hi => h.disk.tail i (le_trans hle hi))

lemma truncate_length (c : Contents) : c.truncate c.length = c :=
  Contents.ext rfl (funext fun i => bytes_truncate_of_le le_rfl i)

lemma growTo_spec (h : Holds ino f c stale) (hle : c.length ≤ n) (hn : n < 2 ^ 63)
    (hrun : (growTo ino (f.fs.inodes ino) n).run f = .ok raw' f') :
    Holds ino f' (c.truncate n) stale ∧ raw' = f'.fs.inodes ino ∧ f'.dirty = f.dirty ∧
      f'.fs.blockSize = f.fs.blockSize ∧
      ∀ lb, f'.fs.resolveBlock raw' lb = f.fs.resolveBlock (f.fs.inodes ino) lb := by
  rw [growTo, h.disk.size] at hrun
  by_cases hgrow : n > c.length
  · rw [if_pos hgrow] at hrun
    obtain ⟨_, f₁, hsuper, hrest⟩ := run_bind_eq_ok.mp hrun
    obtain ⟨fs, hwrite, rfl⟩ := run_onSuper_eq_ok hsuper
    obtain rfl := writeInode_spec hwrite
    cases hrest
    exact ⟨h.setSize hle hn, (update_self ino _ f.fs.inodes).symm, rfl, rfl,
      resolveBlock_congr iBlock_setSize rfl rfl fun _ _ => rfl⟩
  · rw [if_neg hgrow] at hrun
    cases hrun
    obtain rfl : n = c.length := by omega
    rw [truncate_length]
    exact ⟨h, rfl, rfl, rfl, fun _ => rfl⟩

/-- Pages are marked as dirty. -/
lemma foldl_markDirty (l : List ℕ) (f : RegularFile) :
    ∃ dirty, l.foldl markDirty f = { f with dirty } ∧
      ∀ p, p ∈ f.dirty ∨ p ∈ l → p ∈ dirty := by
  induction l generalizing f with
  | nil => exact ⟨f.dirty, rfl, fun p hp => hp.resolve_right (nomatch ·)⟩
  | cons q l ih =>
    obtain ⟨dirty, heq, hmem⟩ := ih (f.markDirty q)
    refine ⟨dirty, heq, fun p hp => hmem p ?_⟩
    rw [mem_cons] at hp
    rcases hp with hp | rfl | hp
    · exact .inl (mem_insert_of_mem hp)
    · exact .inl (BTreeSet.mem_insert_self injective_id)
    · exact .inr hp

lemma run_readInode_eq_ok (h : (onSuper (reading fun s => s.readInode ino)).run f = .ok raw f') :
    raw = f.fs.inodes ino ∧ f' = f := by
  obtain ⟨fs, hrun, rfl⟩ := run_onSuper_eq_ok h
  obtain ⟨hread, rfl⟩ := run_reading_eq_ok.mp hrun
  exact ⟨readInode_eq hread, rfl⟩

lemma truncate_write {data : List (BitVec 8)} :
    (c.truncate (max (offset + data.length) c.length)).write offset data = c.write offset data := by
  refine Contents.ext ?_ (funext fun i => ?_)
  · change max (max (offset + data.length) c.length) (offset + data.length) = _
    rw [length_write]
    omega
  · change (if _ then _ else (c.truncate _).bytes i) = _
    rw [bytes_truncate_of_le (le_max_right _ _)]
    rfl

/-- The size is written again after the bytes. -/
lemma writeSize_spec {actual m : ℕ} (h : Holds ino f c f.dirtySet) (hraw : raw = f.fs.inodes ino)
    (hn : n ≤ c.length) (hrun : EStateM.run (do
      let f ← get
      let newSize := max n f.size
      set { f with size := newSize }
      onSuper (writeInode ino (raw.setSize newSize))
      pure actual) f = .ok m f') : m = actual ∧ Holds ino f' c f'.dirtySet := by
  rw [run_get_bind, h.size, max_eq_right hn] at hrun
  obtain ⟨_, hsuper, ⟨⟩⟩ := run_bind_pure_eq_ok.mp hrun
  obtain ⟨fs, hwrite, rfl⟩ := run_onSuper_eq_ok hsuper
  obtain rfl := writeInode_spec hwrite
  have hsize := h.setSize le_rfl h.length
  rw [truncate_length, ← hraw] at hsize
  exact ⟨rfl, hsize⟩

lemma write_spec {direct : Bool} {written : ℕ} {buffer : List (BitVec 8)}
    (h : Holds ino f c f.dirtySet) (hvalid : offset + buffer.length < 2 ^ 63)
    (hrun : (write ino direct offset buffer).run f = .ok written f') :
    written = buffer.length ∧ Holds ino f' (c.write offset buffer) f'.dirtySet := by
  rw [write, run_get_bind] at hrun
  obtain ⟨raw, f, hread, hrest₁⟩ := run_bind_eq_ok.mp hrun
  obtain ⟨rfl, rfl⟩ := run_readInode_eq_ok hread
  obtain ⟨raw₁, f₁, hsuper₁, hrest₂⟩ := run_bind_eq_ok.mp hrest₁
  obtain ⟨fs₁, hrange, rfl⟩ := run_onSuper_eq_ok hsuper₁
  obtain ⟨hdisk, rfl, hsize, hblocks⟩ := allocRange_spec h.disk hrange
  obtain ⟨raw₂, f₂, hgrow, hrest₃⟩ := run_bind_eq_ok.mp hrest₂
  have hf₁ : Holds ino { f with fs := fs₁ } c f.dirtySet :=
    ⟨hdisk, h.size, h.pages_lt, h.pages, h.window, h.length⟩
  obtain ⟨hf₂, hraw₂, hdirty₂, hsize₂, hresolve⟩ := growTo_spec hf₁
    (h.size ▸ le_max_right _ _) (Nat.max_lt.mpr ⟨hvalid, h.size ▸ h.length⟩) hgrow
  -- the pages of the range count as stale from here on
  obtain ⟨actual, f₃, hcache, hrest₄⟩ := run_bind_eq_ok.mp hrest₃
  have halloc : ∀ i, offset ≤ i → i < offset + buffer.length →
      f₂.fs.resolveBlock (f₂.fs.inodes ino) (i / f₂.fs.blockSize) ≠ .ok 0 := by
    intro i hlo hhi
    rw [← hraw₂, hresolve, hsize₂]
    rw [hsize]
    exact hblocks _ (Nat.div_le_div_right hlo) (div_lt_ceil h.disk.whole.blockSize_pos hhi)
  have hstale : Holds ino f₂ (c.truncate (max (offset + buffer.length) f.size))
      {p | p ∈ f.dirty ∨ ∃ i, offset ≤ i ∧ i < offset + buffer.length ∧ i / pageSize = p} :=
    hf₂.mono fun p hp => .inl hp
  obtain ⟨rfl, hf₃, hfs₃, hdirty₃⟩ := writeCache_spec hstale le_rfl (le_max_left _ _)
    (fun i hlo hhi => .inr ⟨i, hlo, hhi, rfl⟩) halloc hcache
  rw [h.size, truncate_write] at hf₃
  rw [if_neg fun hcond => hcond.2 (length_eq_zero_iff.mp hcond.1)] at hrest₄
  rw [run_modify_bind] at hrest₄
  obtain ⟨dirty, hmark, hmem⟩ := foldl_markDirty (range' (offset / pageSize)
    ((offset + buffer.length + (pageSize - 1)) / pageSize - offset / pageSize)) f₃
  rw [hmark] at hrest₄
  have hf₄ : Holds ino { f₃ with dirty } (c.write offset buffer)
      ({ f₃ with dirty } : RegularFile).dirtySet := by
    refine (hf₃.setDirty dirty).mono fun p hp => hmem p (hp.imp ?_ ?_)
    · intro hp
      rwa [hdirty₃, hdirty₂]
    · rintro ⟨i, hlo, hhi, rfl⟩
      have hlo := Nat.div_le_div_right (c := pageSize) hlo
      have hhi := div_lt_ceil (show 0 < pageSize by decide) hhi
      exact mem_range'_1.mpr ⟨hlo, by omega⟩
  have hraw₄ : raw₂ = ({ f₃ with dirty } : RegularFile).fs.inodes ino := by
    rw [hraw₂, ← hfs₃]
  have hle : offset + buffer.length ≤ (c.write offset buffer).length := le_max_right _ _
  cases direct with
  | false => exact writeSize_spec hf₄ hraw₄ hle hrest₄
  | true =>
    obtain ⟨_, f₅, hsync, hrest₆⟩ := run_bind_eq_ok.mp hrest₄
    obtain ⟨hf₅, -, hinodes, -⟩ := syncRange_spec hf₄ hsync
    exact writeSize_spec hf₅ (hraw₄.trans (by rw [hinodes])) hle hrest₆

end

/-! ### Truncation -/

section

variable {ino : BitVec 32} {f f' : RegularFile} {c : Contents} {n : ℕ}

/-- The page with the end of a file. -/
lemma pageCount_of_mod (hmod : n % pageSize ≠ 0) :
    (n + (pageSize - 1)) / pageSize = n / pageSize + 1 := by
  have hdiv := div_add_mod' n pageSize
  have hlt := mod_lt n (show 0 < pageSize by decide)
  refine Nat.div_eq_of_lt_le ?_ ?_
  · rw [Nat.succ_mul]
    omega
  · rw [succ_mul, succ_mul]
    omega

/-- Pages behind the end are dropped. Nothing is filled if the end is not inside a cached page. -/
lemma truncateCache_eq (h : n % pageSize = 0 ∨ f.pages (n / pageSize) = none) (frame : ℕ → ℕ) :
    f.truncateCache frame n = { f with
      pages := fun p => if p < (n + (pageSize - 1)) / pageSize then f.pages p else none
      dirty := f.dirty.filter (· < (n + (pageSize - 1)) / pageSize) } := by
  have htail : (if n % pageSize = 0 ∨ (n + (pageSize - 1)) / pageSize = 0 then none
      else f.pages ((n + (pageSize - 1)) / pageSize - 1)) = none := by
    split_ifs with hmod
    · rfl
    · rw [not_or] at hmod
      rw [pageCount_of_mod hmod.1, Nat.add_sub_cancel]
      exact h.resolve_left hmod.1
  rw [truncateCache]
  dsimp only
  rw [htail]

/-- A cached page that is kept is before the end as a whole. -/
lemma add_lt_of_cached (h : n % pageSize = 0 ∨ f.pages (n / pageSize) = none) {p : ℕ}
    (hp : p * pageSize < n) (hpage : f.pages p ≠ none) (i : Fin pageSize) :
    p * pageSize + i < n := by
  have hdiv := div_add_mod' n pageSize
  rcases lt_or_ge p (n / pageSize) with hlt | hge
  · have hle := mul_le_mul_right pageSize (succ_le_of_lt hlt)
    rw [succ_mul] at hle
    exact Nat.lt_of_lt_of_le (Nat.add_lt_add_left i.isLt _)
      (hle.trans (div_mul_le_self n pageSize))
  · have heq : p = n / pageSize :=
      le_antisymm ((le_div_iff_mul_le (by decide)).mpr (le_of_lt hp)) hge
    rw [heq] at hp hpage
    exact absurd (h.resolve_left (by omega)) hpage

/-- The blocks behind the new end are removed, or there were none. -/
structure CutAt (s s' : Super) (raw raw' : Inode) (c : Contents) (n : ℕ) : Prop where
  healthy : Healthy s' raw'
  layout : SameLayout s s'
  reg : raw'.isReg
  resolve : ∀ i < n, s'.resolveBlock raw' (i / s.blockSize) = s.resolveBlock raw (i / s.blockSize)
  before : ∀ i < n, s'.diskByte raw' i = s.diskByte raw i
  tail : ∀ i, n ≤ i / s.blockSize * s.blockSize → s'.diskByte raw' i = 0
  behind : ∀ i, n ≤ i → s'.diskByte raw' i = 0 ∨
    (c.length ≤ n ∧ s'.diskByte raw' i = s.diskByte raw i)

lemma CutAt.of_truncated {s s' : Super} {raw' : Inode} {stale : Set ℕ} {freed : List ℕ}
    (h : OnDisk ino s c stale) (hmod : n % s.blockSize = 0) (hreg : raw'.isReg)
    (hcut : Truncated s s' (s.inodes ino) raw' ((n + (s.blockSize - 1)) / s.blockSize) freed) :
    CutAt s s' (s.inodes ino) raw' c n := by
  have hpos := h.whole.blockSize_pos
  have htail : ∀ i, n ≤ i / s.blockSize * s.blockSize → s'.diskByte raw' i = 0 := by
    intro i hi
    refine hcut.diskByte_of_le (not_lt.mp fun hlt => ?_)
    rw [lt_ceil hpos] at hlt
    omega
  refine ⟨hcut.healthy h.healthy h.fits, hcut.shrunk.layout, hreg,
    fun i hi => hcut.resolve_of_lt _ (div_lt_ceil hpos hi),
    fun i hi => diskByte_congr hcut.shrunk.layout.blockSize
      (hcut.resolve_of_lt _ (div_lt_ceil hpos hi)) fun d hd _ => by rw [hcut.data d hd],
    htail, fun i hi => .inl (htail i ?_)⟩
  rw [← Nat.div_mul_cancel (Nat.dvd_of_mod_eq_zero hmod)]
  exact Nat.mul_le_mul_right _ (Nat.div_le_div_right hi)

/-- The blocks and the cache are cut at the same place. -/
lemma Holds.cut {fs : Super} {raw : Inode} (frame : ℕ → ℕ)
    (h : Holds ino f c f.dirtySet) (hn : n < 2 ^ 63)
    (hcut : CutAt f.fs fs (f.fs.inodes ino) raw c n)
    (hend : n % pageSize = 0 ∨ f.pages (n / pageSize) = none) :
    Holds ino { f.truncateCache frame n with
      fs := { fs with inodes := update fs.inodes ino (raw.setSize n) }
      size := n } (c.truncate n) (f.truncateCache frame n).dirtySet := by
  have hsize := hcut.layout.blockSize
  rw [truncateCache_eq hend]
  -- a page that was stale and has bytes before the new end is stale
  have hstale : ∀ p, p * pageSize < n → p ∈ f.dirtySet → f.pages p ≠ none →
      p ∈ f.dirty.filter (· < (n + (pageSize - 1)) / pageSize) ∧
        (if p < (n + (pageSize - 1)) / pageSize then f.pages p else none) ≠ none := by
    intro p hp hmem hpage
    rw [if_pos (lt_filePages.mpr hp)]
    exact ⟨BTreeSet.mem_filter.mpr ⟨hmem, decide_eq_true (lt_filePages.mpr hp)⟩, hpage⟩
  refine ⟨.of_setSize (update_self ..) hn hcut.reg hcut.healthy (fun g => ?_) ?_
    (fun i hi => ?_) (fun i hi => ?_) (fun i hi => ?_), rfl, fun p hp => ?_,
    fun p page hpage i => ?_, h.window, hn⟩
  · rw [hcut.layout.groupLen]
    exact h.disk.fits g
  · rw [Super.WholeBlocks, hsize]
    exact h.disk.whole
  · have hfloor := div_mul_le_self i pageSize
    change _ = if i < n then c.bytes i else 0
    split_ifs with hin
    · rw [hcut.before i hin]
      exact h.disk.bytes i fun hmem => hi (hstale _ (by omega) hmem.1 hmem.2)
    · rcases hcut.behind i (not_lt.mp hin) with hzero | ⟨hle, hsame⟩
      · exact hzero
      · rw [hsame, ← c.zero i (by omega)]
        refine h.disk.bytes i fun hmem => hi (hstale _ ?_ hmem.1 hmem.2)
        exact lt_of_lt_of_le (h.pages_lt _ hmem.2) hle
  · change (if i < n then c.bytes i else 0) = 0
    split_ifs with hin
    · rw [hsize, hcut.resolve i hin] at hi
      exact h.disk.hole i hi
    · rfl
  · rw [hsize] at hi
    exact hcut.tail i hi
  · dsimp only at hp
    split_ifs at hp with hlt
    · exact lt_filePages.mp hlt
    · exact absurd rfl hp
  · dsimp only at hpage
    split_ifs at hpage with hlt
    have hin := add_lt_of_cached hend (lt_filePages.mp hlt) (hpage ▸ some_ne_none page) i
    exact (h.pages p page hpage i).trans (if_pos hin).symm

lemma truncate_spec {u : Unit} (h : Holds ino f c f.dirtySet) (hn : n < 2 ^ 63)
    {frame : ℕ → ℕ} (hcareful : FileCall.Careful f (.truncate frame n))
    (hrun : (truncate ino frame n).run f = .ok u f') :
    Holds ino f' (c.truncate n) f'.dirtySet := by
  obtain ⟨-, hmod, hend⟩ := hcareful
  rw [h.size] at hmod
  rw [truncate] at hrun
  obtain ⟨raw, f₀, hread, hrest⟩ := run_bind_eq_ok.mp hrun
  obtain ⟨rfl, rfl⟩ := run_readInode_eq_ok hread
  rw [run_get_bind, h.disk.size] at hrest
  -- the rest of the call, after the blocks are removed
  have hfinish : ∀ {fs raw}, CutAt f₀.fs fs (f₀.fs.inodes ino) raw c n →
      EStateM.run (do
        modify (·.truncateCache frame n)
        onSuper (writeInode ino (raw.setSize n))
        modify fun f => { f with size := n }) { f₀ with fs } = .ok u f' →
      Holds ino f' (c.truncate n) f'.dirtySet := by
    intro fs raw hcut hrun
    rw [run_modify_bind] at hrun
    obtain ⟨_, f₂, hsuper, hset⟩ := run_bind_eq_ok.mp hrun
    obtain ⟨fs₂, hwrite, rfl⟩ := run_onSuper_eq_ok hsuper
    obtain rfl := writeInode_spec hwrite
    cases hset
    rw [truncateCache_eq (f := { f₀ with fs }) hend]
    have hheld := h.cut frame hn hcut hend
    rwa [truncateCache_eq hend] at hheld
  by_cases hlt : n < c.length
  · rw [if_pos hlt] at hrest
    obtain ⟨raw, f₁, hsuper, hrest₂⟩ := run_bind_eq_ok.mp hrest
    obtain ⟨fs, htruncate, rfl⟩ := run_onSuper_eq_ok hsuper
    obtain ⟨freed, hcut, hraw⟩ :=
      truncateBlocks_spec h.disk.healthy.agree.toApart h.disk.healthy.nodup htruncate
    refine hfinish (.of_truncated h.disk (hmod hlt) ?_ hcut) hrest₂
    rw [hraw]
    exact h.disk.reg
  · rw [if_neg hlt] at hrest
    have hle := not_lt.mp hlt
    refine hfinish ⟨h.disk.healthy, .refl _, h.disk.reg, fun _ _ => rfl, fun _ _ => rfl,
      fun i hi => h.disk.tail i (le_trans hle hi), fun i _ => .inr ⟨hle, rfl⟩⟩ hrest

lemma evict_spec {u : Unit} (h : Holds ino f c f.dirtySet)
    (hrun : (evict ino).run f = .ok u f') : Holds ino f' c f'.dirtySet := by
  rw [evict] at hrun
  obtain ⟨_, f₁, hsync, hrest⟩ := run_bind_eq_ok.mp hrun
  obtain ⟨hf₁, hempty⟩ := sync_spec h hsync
  obtain ⟨raw, f₂, hread, hmodify⟩ := run_bind_eq_ok.mp hrest
  obtain ⟨rfl, rfl⟩ := run_readInode_eq_ok hread
  cases hmodify
  refine ⟨hf₁.disk.mono fun p hp => ?_, hf₁.disk.size, fun p hp => absurd rfl hp,
    fun p page hpage => (nomatch hpage), show 0 < raMinPages by decide, hf₁.length⟩
  rw [hempty] at hp
  exact absurd hp.1 (Set.notMem_empty p)

end

/-! ### Runs -/

/-- The blocks of a file hold its bytes, and zeros behind its end. -/
structure Stored (ino : BitVec 32) (s : Super) (c : Contents) : Prop where
  healthy : Healthy s (s.inodes ino)
  fits : ∀ g, s.groupLen .blocks g < 2 ^ 16
  reg : (s.inodes ino).isReg
  size : (s.inodes ino).size = c.length
  length : c.length < 2 ^ 63
  bytes : ∀ i, s.diskByte (s.inodes ino) i = c.bytes i

section

variable {ino : BitVec 32} {s : Super} {f f' : RegularFile} {c c' : Contents}

lemma Stored.load (h : Stored ino s c) (hwhole : s.WholeBlocks) :
    Holds ino (.load s c.length) c (load s c.length).dirtySet := by
  refine ⟨⟨h.healthy, h.fits, hwhole, h.reg, h.size, fun i _ => h.bytes i, fun i hi => ?_,
    fun i hi => ?_⟩, rfl, fun p hp => absurd rfl hp, fun p page hpage => (nomatch hpage),
    show 0 < raMinPages by decide, h.length⟩
  · exact (h.bytes i).symm.trans (diskByte_of_hole hi)
  · exact (h.bytes i).trans (c.zero i (le_trans hi (div_mul_le_self _ _)))

lemma FileStep.holds (hstep : FileStep ino FileCall.Careful (f, c) (f', c'))
    (h : Holds ino f c f.dirtySet) : Holds ino f' c' f'.dirtySet := by
  cases hstep with
  | call call hvalid hcareful hrun =>
    cases call with
    | read direct offset len => exact (read_spec h hrun).2
    | write direct offset buffer =>
      obtain ⟨_, hwrite, ⟨⟩⟩ := run_bind_pure_eq_ok.mp hrun
      exact (write_spec h hvalid.1 hwrite).2
    | truncate frame newLength =>
      obtain ⟨_, htruncate, ⟨⟩⟩ := run_bind_pure_eq_ok.mp hrun
      exact truncate_spec h hvalid hcareful htruncate
    | fsync =>
      obtain ⟨_, hsync, ⟨⟩⟩ := run_bind_pure_eq_ok.mp hrun
      exact (sync_spec h hsync).1
    | evict =>
      obtain ⟨_, hevict, ⟨⟩⟩ := run_bind_pure_eq_ok.mp hrun
      exact evict_spec h hevict

end

instance (f : RegularFile) (call : FileCall) : Decidable (call.Careful f) :=
  match call with
  | .truncate _ newLength => inferInstanceAs (Decidable (pageSize % f.fs.blockSize = 0 ∧
      (newLength < f.size → newLength % f.fs.blockSize = 0) ∧
        (newLength % pageSize = 0 ∨ f.pages (newLength / pageSize) = none)))
  | .read .. | .write .. | .fsync | .evict =>
    inferInstanceAs (Decidable (pageSize % f.fs.blockSize = 0))

end Ext2

end Zinnia
