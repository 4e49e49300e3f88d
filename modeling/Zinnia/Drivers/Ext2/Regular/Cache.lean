import Zinnia.Drivers.Ext2.Regular.Pages

/-!
# The page cache of a regular file

The cached pages hold the bytes of the file, and the blocks hold the bytes of the pages that are not
cached or not dirty. Reads, writes and write backs of the cache keep this.
-/

namespace Zinnia

open Comp Function List Ext2.RegularFile

namespace Ext2

/-! ### The invariant -/

/-- What the blocks of a file hold: at least the bytes of the pages outside `stale`. -/
structure OnDisk (ino : BitVec 32) (s : Super) (c : Contents) (stale : Set ℕ) : Prop where
  healthy : Healthy s (s.inodes ino)
  fits : ∀ g, s.groupLen .blocks g < 2 ^ 16
  whole : s.WholeBlocks
  reg : (s.inodes ino).isReg
  size : (s.inodes ino).size = c.length
  bytes : ∀ i, i / pageSize ∉ stale → s.diskByte (s.inodes ino) i = c.bytes i
  hole : ∀ i, s.resolveBlock (s.inodes ino) (i / s.blockSize) = .ok 0 → c.bytes i = 0
  tail : ∀ i, c.length ≤ i / s.blockSize * s.blockSize → s.diskByte (s.inodes ino) i = 0

/-- A file has the bytes `c`. The blocks of the pages in `stale` are older than the cache. -/
structure Holds (ino : BitVec 32) (f : RegularFile) (c : Contents) (stale : Set ℕ) : Prop where
  disk : OnDisk ino f.fs c {p | p ∈ stale ∧ f.pages p ≠ none}
  size : f.size = c.length
  pages_lt : ∀ p, f.pages p ≠ none → p * pageSize < c.length
  pages : ∀ p page, f.pages p = some page → ∀ i : Fin pageSize,
    page i = c.bytes (p * pageSize + i)
  window : 0 < f.ra.window
  length : c.length < 2 ^ 63

section

variable {ino : BitVec 32} {f f' : RegularFile} {c : Contents} {stale : Set ℕ} {p : ℕ}

lemma OnDisk.mono {s : Super} {stale' : Set ℕ} (h : OnDisk ino s c stale)
    (hsub : ∀ p ∈ stale, p ∈ stale') : OnDisk ino s c stale' :=
  { h with bytes := fun i hi => h.bytes i fun hmem => hi (hsub _ hmem) }

lemma div_add_lt (i : Fin pageSize) : (p * pageSize + i) / pageSize = p := by
  rw [add_comm, Nat.add_mul_div_right _ _ (by decide), Nat.div_eq_of_lt i.isLt, zero_add]

lemma run_onSuper_eq_ok {α : Type} {x : Ext2M α} {a : α} (h : (onSuper x).run f = .ok a f') :
    ∃ fs, x.run f.fs = .ok a fs ∧ f' = { f with fs } := by
  rw [EStateM.run, onSuper] at h
  split at h
  · next fs hrun =>
    cases h
    exact ⟨fs, hrun, rfl⟩
  · cases h

lemma batchSize_pos (hwindow : 0 < f.ra.window) (p : ℕ) :
    0 < (f.batchSize p).1 ∧ 0 < (f.batchSize p).2.window := by
  have hpos : 0 < if p = f.ra.nextExpected then min (f.ra.window * 2) raMaxPages
      else raMinPages := by
    split_ifs
    · exact lt_min (Nat.mul_pos hwindow Nat.two_pos) (by decide)
    · decide
  refine ⟨?_, hpos⟩
  rw [batchSize]
  cases hfind : find? _ _ with
  | none => exact hpos
  | some i => exact (mem_range'_1.mp (mem_of_find?_eq_some hfind)).1

/-- New pages are entered. -/
lemma Holds.enter {count : ℕ} {batch : List PageData} (h : Holds ino f c stale)
    (hbatch : Batch f.fs ino p count batch) (hfs : f'.fs = f.fs) (hsize : f'.size = f.size)
    (hwindow : 0 < f'.ra.window)
    (hpages : ∀ q, f'.pages q = (f.pages q).or (if p ≤ q then batch[q - p]? else none)) :
    Holds ino f' c stale := by
  -- a new page is a page of the batch
  have hnew : ∀ q page, f.pages q = none → f'.pages q = some page →
      p ≤ q ∧ batch[q - p]? = some page := by
    intro q page hnone hsome
    rw [hpages, hnone, Option.none_or] at hsome
    split_ifs at hsome with hq
    exact ⟨hq, hsome⟩
  refine ⟨?_, hsize.trans h.size, fun q hq => ?_, fun q page hpage i => ?_, hwindow, h.length⟩
  · rw [hfs]
    refine h.disk.mono fun q hq => ⟨hq.1, fun hnone => hq.2 ?_⟩
    rw [hpages, Option.or_eq_none_iff] at hnone
    exact hnone.1
  · by_cases hnone : f.pages q = none
    · obtain ⟨page, hpage⟩ := Option.ne_none_iff_exists'.mp hq
      obtain ⟨hle, hget⟩ := hnew q page hnone hpage
      have hlt := hbatch.lt (q - p) (List.getElem?_eq_some_iff.mp hget).1
      rwa [Nat.add_sub_cancel' hle, h.disk.size] at hlt
    · exact h.pages_lt q hnone
  · cases hold : f.pages q with
    | some old =>
      rw [hpages, hold] at hpage
      cases hpage
      exact h.pages q page hold i
    | none =>
      obtain ⟨hle, hget⟩ := hnew q page hold hpage
      rw [hbatch.bytes (q - p) page hget i, Nat.add_sub_cancel' hle]
      refine h.disk.bytes _ fun hstale => hstale.2 ?_
      rw [div_add_lt, hold]

/-- A page of the file is in the cache afterwards. -/
lemma tryGetPage_spec {result : Option PageData} (h : Holds ino f c stale)
    (hrun : (tryGetPage ino p).run f = .ok result f') :
    Holds ino f' c stale ∧ f'.fs = f.fs ∧ f'.dirty = f.dirty ∧ f'.pages p = result ∧
      (p * pageSize < c.length → result ≠ none) := by
  rw [tryGetPage, run_get_bind] at hrun
  cases hpage : f.pages p with
  | some page =>
    rw [hpage] at hrun
    cases hrun
    exact ⟨h, rfl, rfl, hpage, fun _ => nofun⟩
  | none =>
    rw [hpage] at hrun
    obtain ⟨hcount, hwindow⟩ := batchSize_pos h.window p
    generalize f.batchSize p = next at hcount hwindow hrun
    obtain ⟨count, ra⟩ := next
    rw [run_set_bind] at hrun
    obtain ⟨batch, f₂, hload, hrest⟩ := run_bind_eq_ok.mp hrun
    cases hrest
    obtain ⟨fs, hread, rfl⟩ := run_onSuper_eq_ok hload
    obtain ⟨hbatch, rfl⟩ := run_reading_eq_ok.mp hread
    have hbatch := tryGetPages_spec h.disk.whole hbatch
    have hpages := fun q => pages_enter (f := { f with ra }) (p := p) (q := q) batch
    obtain ⟨pages, henter⟩ := enter_eq batch
    dsimp only at hpages ⊢
    rw [henter] at hpages ⊢
    refine ⟨h.enter hbatch rfl rfl hwindow hpages, rfl, rfl, ?_, fun hp => ?_⟩
    · rw [hpages p, hpage, Option.none_or, if_pos (le_refl p), Nat.sub_self,
        head?_eq_getElem?]
    · rw [ne_eq, head?_eq_none_iff]
      exact hbatch.ne_nil hcount (by rwa [h.disk.size])

end

/-! ### Reading and writing the cache -/

section

variable {ino : BitVec 32} {f f' : RegularFile} {c : Contents} {stale : Set ℕ} {page : PageData}
  {offset : ℕ} {data : List (BitVec 8)}

/-- The bytes of a range. -/
def Contents.slice (c : Contents) (offset len : ℕ) : List (BitVec 8) :=
  (List.range len).map fun i => c.bytes (offset + i)

/-- A slice is read from its start on. -/
lemma map_append_slice {n len : ℕ} {byte : ℕ → BitVec 8} (hle : n ≤ len)
    (h : ∀ i < n, byte i = c.bytes (offset + i)) :
    (List.range n).map byte ++ c.slice (offset + n) (len - n) = c.slice offset len := by
  obtain ⟨m, rfl⟩ := Nat.exists_eq_add_of_le hle
  rw [Nat.add_sub_cancel_left, Contents.slice, Contents.slice, range_add, map_append, map_map]
  congr 1
  · exact map_congr_left fun i hi => h i (mem_range.mp hi)
  · exact map_congr_left fun i _ => by rw [comp_apply, add_assoc]

lemma readCache_spec {fuel remaining : ℕ} (h : Holds ino f c stale) (hfuel : remaining ≤ fuel)
    (hle : offset + remaining ≤ c.length)
    (hrun : (readCache ino fuel offset remaining).run f = .ok data f') :
    data = c.slice offset remaining ∧ Holds ino f' c stale ∧ f'.dirty = f.dirty := by
  induction fuel generalizing f offset remaining data with
  | zero =>
    obtain rfl : remaining = 0 := Nat.le_zero.mp hfuel
    cases hrun
    exact ⟨rfl, h, rfl⟩
  | succ fuel ih =>
    rw [readCache] at hrun
    rcases eq_or_ne remaining 0 with rfl | hzero
    · cases hrun
      exact ⟨rfl, h, rfl⟩
    rw [if_neg hzero] at hrun
    have hmod := Nat.mod_lt offset (show 0 < pageSize by decide)
    have hdiv := Nat.div_add_mod' offset pageSize
    dsimp only at hrun
    generalize hcopy : min (pageSize - offset % pageSize) remaining = copySize at hrun
    obtain ⟨result, f₁, hget, hrest⟩ := run_bind_eq_ok.mp hrun
    obtain ⟨hf₁, -, hdirty, hpage, hsome⟩ := tryGetPage_spec h hget
    obtain ⟨page, rfl⟩ := Option.ne_none_iff_exists'.mp (hsome (by omega))
    obtain ⟨rest, hrec, ⟨⟩⟩ := run_bind_pure_eq_ok.mp hrest
    obtain ⟨rfl, hf₂, hdirty₂⟩ := ih hf₁ (by omega) (by omega) hrec
    refine ⟨map_append_slice (by omega) fun i hi => ?_, hf₂, hdirty₂.trans hdirty⟩
    rw [hf₁.pages _ _ hpage, Fin.val_ofNat, Nat.mod_eq_of_lt (by omega), ← add_assoc, hdiv]

/-- Bytes of a page are overwritten. -/
lemma Holds.patch {p : ℕ} (h : Holds ino f c stale) (data : List (BitVec 8)) (misalign : ℕ)
    (hpage : f.pages p = some page) (hp : p ∈ stale) (hfits : misalign + data.length ≤ pageSize)
    (hle : p * pageSize + misalign + data.length ≤ c.length)
    (halloc : ∀ i, p * pageSize + misalign ≤ i → i < p * pageSize + misalign + data.length →
      f.fs.resolveBlock (f.fs.inodes ino) (i / f.fs.blockSize) ≠ .ok 0) :
    Holds ino { f with
      pages := update f.pages p (some (patch page misalign data)) }
      (c.write (p * pageSize + misalign) data) stale := by
  have hlength : (c.write (p * pageSize + misalign) data).length = c.length :=
    max_eq_left hle
  have hbytes : ∀ i, ¬ (p * pageSize + misalign ≤ i ∧ i < p * pageSize + misalign + data.length) →
      (c.write (p * pageSize + misalign) data).bytes i = c.bytes i := fun i hi => if_neg hi
  have hpages : ∀ q, f.pages q ≠ none → update f.pages p
      (some (RegularFile.patch page misalign data)) q ≠ none := by
    intro q hq
    by_cases hqp : q = p
    · rw [hqp, update_self]
      nofun
    · rwa [update_of_ne hqp]
  refine ⟨⟨h.disk.healthy, h.disk.fits, h.disk.whole, h.disk.reg, h.disk.size.trans hlength.symm,
    fun i hi => ?_, fun i hi => ?_, fun i hi => h.disk.tail i (hlength ▸ hi)⟩,
    h.size.trans hlength.symm, fun q hq => ?_, fun q page' hpage' i => ?_, h.window,
    hlength.symm ▸ h.length⟩
  · rw [hbytes i]
    · exact h.disk.bytes i fun hmem => hi ⟨hmem.1, hpages _ hmem.2⟩
    · rintro ⟨hlo, hhi⟩
      have hdiv : i / pageSize = p := by
        rw [Nat.div_eq_iff (by decide)]
        omega
      refine hi ⟨hdiv ▸ hp, ?_⟩
      dsimp only
      rw [hdiv, update_self]
      nofun
  · rw [hbytes i fun hrange => halloc i hrange.1 hrange.2 hi]
    exact h.disk.hole i hi
  · rw [hlength]
    by_cases hqp : q = p
    · exact hqp ▸ h.pages_lt p (by rw [hpage]; nofun)
    · dsimp only at hq
      rw [update_of_ne hqp] at hq
      exact h.pages_lt q hq
  · dsimp only at hpage'
    rcases eq_or_ne q p with rfl | hqp
    · rw [update_self] at hpage'
      cases hpage'
      rw [RegularFile.patch, Contents.write]
      dsimp only
      by_cases hin : misalign ≤ i ∧ i < misalign + data.length
      · rw [if_pos hin, if_pos (by omega)]
        congr 1
        omega
      · rw [if_neg hin, if_neg (by omega)]
        exact h.pages q page hpage i
    · rw [update_of_ne hqp] at hpage'
      rw [hbytes, h.pages q page' hpage' i]
      rintro ⟨hlo, hhi⟩
      refine hqp ?_
      have hdiv : (q * pageSize + i) / pageSize = p := by
        rw [Nat.div_eq_iff (by decide)]
        omega
      rw [← hdiv, div_add_lt]

lemma length_write (offset : ℕ) (data : List (BitVec 8)) :
    (c.write offset data).length = max c.length (offset + data.length) := rfl

/-- Two writes one after the other. -/
lemma write_append (offset : ℕ) (data data' : List (BitVec 8)) :
    (c.write offset data).write (offset + data.length) data' = c.write offset (data ++ data') := by
  refine Contents.ext ?_ (funext fun i => ?_)
  · rw [Contents.write, Contents.write, Contents.write]
    dsimp only
    rw [length_append]
    omega
  · rw [Contents.write, Contents.write, Contents.write]
    dsimp only
    rw [length_append]
    by_cases hfirst : offset ≤ i ∧ i < offset + data.length
    · rw [if_neg (by omega), if_pos hfirst, if_pos (by omega), getD_append _ _ _ _ (by omega)]
    · rw [if_neg hfirst]
      by_cases hsecond : offset + data.length ≤ i ∧ i < offset + data.length + data'.length
      · rw [if_pos hsecond, if_pos (by omega), getD_append_right _ _ _ _ (by omega)]
        congr 1
        omega
      · rw [if_neg hsecond, if_neg (by omega)]

lemma write_nil (hle : offset ≤ c.length) : c.write offset [] = c := by
  refine Contents.ext (max_eq_left ?_) (funext fun i => if_neg ?_)
  · rwa [length_nil]
  · rw [length_nil]
    omega

lemma writeCache_spec {fuel written : ℕ} (h : Holds ino f c stale) (hfuel : data.length ≤ fuel)
    (hle : offset + data.length ≤ c.length)
    (hstale : ∀ i, offset ≤ i → i < offset + data.length → i / pageSize ∈ stale)
    (halloc : ∀ i, offset ≤ i → i < offset + data.length →
      f.fs.resolveBlock (f.fs.inodes ino) (i / f.fs.blockSize) ≠ .ok 0)
    (hrun : (writeCache ino fuel offset data).run f = .ok written f') :
    written = data.length ∧ Holds ino f' (c.write offset data) stale ∧ f'.fs = f.fs ∧
      f'.dirty = f.dirty := by
  induction fuel generalizing f c offset written data with
  | zero =>
    obtain rfl : data = [] := List.length_eq_zero_iff.mp (Nat.le_zero.mp hfuel)
    cases hrun
    rw [write_nil (Nat.le_of_add_right_le hle)]
    exact ⟨rfl, h, rfl, rfl⟩
  | succ fuel ih =>
    rw [writeCache] at hrun
    rcases eq_or_ne data [] with rfl | hzero
    · cases hrun
      rw [write_nil (Nat.le_of_add_right_le hle)]
      exact ⟨rfl, h, rfl, rfl⟩
    rw [if_neg hzero] at hrun
    have hpos := List.length_pos_iff.mpr hzero
    have hmod := Nat.mod_lt offset (show 0 < pageSize by decide)
    have hdiv := Nat.div_add_mod' offset pageSize
    dsimp only at hrun
    generalize hcopy : min (pageSize - offset % pageSize) data.length = copySize at hrun
    have htake : (data.take copySize).length = copySize := by
      rw [length_take]
      omega
    obtain ⟨result, f₁, hget, hrest⟩ := run_bind_eq_ok.mp hrun
    obtain ⟨hf₁, hfs, hdirty, hpage, hsome⟩ := tryGetPage_spec h hget
    obtain ⟨page, rfl⟩ := Option.ne_none_iff_exists'.mp (hsome (by omega))
    obtain ⟨rest, hrec, ⟨⟩⟩ := run_bind_pure_eq_ok.mp hrest
    rw [← hfs] at halloc
    have hf₂ := hf₁.patch (data.take copySize) (offset % pageSize) hpage
      (hstale offset le_rfl (by omega)) (by omega) (by omega)
      fun i hlo hhi => halloc i (by omega) (by omega)
    rw [hdiv] at hf₂
    obtain ⟨rfl, hf₃, hfs₃, hdirty₃⟩ := ih hf₂ (by rw [length_drop]; omega)
      (by rw [length_drop, length_write]; omega)
      (fun i hlo hhi => hstale i (by omega) (by rw [length_drop] at hhi; omega))
      (fun i hlo hhi => halloc i (by omega) (by rw [length_drop] at hhi; omega)) hrec
    have hwrite := write_append (c := c) offset (data.take copySize) (data.drop copySize)
    rw [htake, take_append_drop] at hwrite
    rw [hwrite] at hf₃
    refine ⟨?_, hf₃, hfs₃.trans hfs, hdirty₃.trans hdirty⟩
    rw [length_drop]
    omega

end

/-! ### Writing back -/

/-- Bytes of a file are written to its blocks. Holes and blocks behind the end of the file are
passed over. -/
structure Put (s s' : Super) (raw : Inode) (data : ℕ → BitVec 8) (S : Set ℕ) : Prop where
  eq : s' = { s with blocks := s'.blocks }
  healthy : Healthy s' raw
  resolve : ∀ lb, s'.resolveBlock raw lb = s.resolveBlock raw lb
  kept : ∀ i, i ∉ S ∨ s.resolveBlock raw (i / s.blockSize) = .ok 0 ∨
    raw.size ≤ i / s.blockSize * s.blockSize → s'.diskByte raw i = s.diskByte raw i
  put : ∀ i ∈ S, s.resolveBlock raw (i / s.blockSize) ≠ .ok 0 →
    i / s.blockSize * s.blockSize < raw.size →
    s'.diskByte raw i = if i < raw.size then data i else 0

section

variable {s s' s'' : Super} {raw : Inode} {data : ℕ → BitVec 8} {S T U : Set ℕ} {p b : ℕ}
  {page : PageData}

lemma Put.refl (h : Healthy s raw) (hS : ∀ i ∈ S, s.resolveBlock raw (i / s.blockSize) = .ok 0 ∨
    raw.size ≤ i / s.blockSize * s.blockSize) : Put s s raw data S :=
  ⟨rfl, h, fun _ => rfl, fun _ _ => rfl, fun i hi hhole hend =>
    ((hS i hi).elim hhole (not_le.mpr hend)).elim⟩

lemma Put.blockSize (h : Put s s' raw data S) : s'.blockSize = s.blockSize := by rw [h.eq]

lemma Put.whole (h : Put s s' raw data S) (hwhole : s.WholeBlocks) : s'.WholeBlocks := by
  rw [Super.WholeBlocks, h.blockSize]
  exact hwhole

lemma Put.trans (h : Put s s' raw data S) (h' : Put s' s'' raw data T)
    (hU : ∀ i, i ∈ U ↔ i ∈ S ∨ i ∈ T) : Put s s'' raw data U := by
  have hkept := h'.kept
  have hput := h'.put
  simp only [h.resolve, h.blockSize] at hkept hput
  refine ⟨?_, h'.healthy, fun lb => (h'.resolve lb).trans (h.resolve lb), fun i hi => ?_,
    fun i hi hhole hend => ?_⟩
  · rw [h'.eq, h.eq]
  · rw [hU, not_or] at hi
    rw [hkept i (hi.imp_left And.right), h.kept i (hi.imp_left And.left)]
  · by_cases hT : i ∈ T
    · exact hput i hT hhole hend
    · rw [hkept i (.inl hT), h.put i (((hU i).mp hi).resolve_right hT) hhole hend]

/-- One block is written. -/
lemma Put.of_write {lb d : ℕ} {buf : Block} (h : Healthy s raw) (hd : d ≠ 0)
    (hres : s.resolveBlock raw lb = .ok d) (hend : lb * s.blockSize < raw.size)
    (hbuf : ∀ i, i / s.blockSize = lb →
      buf (i % s.blockSize) = if i < raw.size then data i else 0) :
    Put s { s with blocks := update s.blocks d buf } raw data
      {i | i / s.blockSize = lb} := by
  have hwritten : DataWritten s { s with blocks := update s.blocks d buf } raw raw := by
    refine ⟨rfl, ⟨rfl, rfl, rfl, rfl, rfl, rfl, rfl, rfl, rfl⟩, h.nodup, fun g _ hg => ?_⟩
    refine update_of_ne ?_ _ _
    rintro rfl
    exact hg (mem_dataBlocks_of_resolveBlock hd hres)
  have hinode := hwritten.inodeBlocks
  refine ⟨rfl, ⟨h.agree.write _ _, h.zero, hinode ▸ h.used, hinode ▸ h.nodup⟩,
    hwritten.resolveBlock, fun i hi => ?_, fun i hi _ _ => ?_⟩
  · have hne : i / s.blockSize ≠ lb := by
      rintro rfl
      rcases hi with hi | hi | hi
      · exact hi rfl
      · exact hd (Except.ok.inj (hres.symm.trans hi))
      · exact not_le.mpr hend hi
    refine diskByte_congr rfl (hwritten.resolveBlock _) fun d' _ hres' => ?_
    refine congrFun (update_of_ne ?_ _ _) _
    rintro rfl
    exact hne (resolveBlock_injective h.nodup hd hres' hres)
  · have hres' := (hwritten.resolveBlock lb).trans hres
    rw [← show i / s.blockSize = lb from hi] at hres'
    rw [diskByte_of_resolveBlock hres', if_neg hd, ← hbuf i hi]
    exact congrFun (update_self d buf s.blocks) _

lemma putBlock_spec {u : Unit} (h : Healthy s raw) (hwhole : s.WholeBlocks)
    (hb : b < s.blocksPerPage) (hrun : (putBlock raw page p b).run s = .ok u s') :
    Put s s' raw (fun i => page (Fin.ofNat pageSize i))
      {i | i / s.blockSize = p * s.blocksPerPage + b} := by
  have hpos := hwhole.blockSize_pos
  have hfits := hwhole.add_blockSize_le hb
  have hmul : (p * s.blocksPerPage + b) * s.blockSize = p * pageSize + b * s.blockSize := by
    rw [Nat.add_mul, Nat.mul_assoc, hwhole.mul_blocksPerPage]
  rw [putBlock, run_get_bind] at hrun
  generalize hwritable : min (raw.size - p * pageSize) pageSize = writable at hrun
  by_cases hend : b * s.blockSize ≥ writable
  · rw [if_pos hend] at hrun
    cases hrun
    refine .refl h fun i hi => .inr ?_
    rw [show i / s.blockSize = _ from hi]
    omega
  rw [if_neg hend] at hrun
  obtain ⟨d, hres, hrest⟩ := run_reading_bind_eq_ok.mp hrun
  rw [hwhole.div_blockSize] at hres
  by_cases hd : d = 0
  · subst hd
    cases hrest
    exact .refl h fun i hi => .inl (by rw [show i / s.blockSize = _ from hi, hres])
  rw [if_neg hd] at hrest
  obtain ⟨-, rfl⟩ := (run_writeBlock_eq_ok h.agree.toApart).mp hrest
  refine .of_write h hd hres (by rw [hmul]; omega) fun i hi => ?_
  have hdiv := Nat.div_add_mod' i s.blockSize
  have hmod := Nat.mod_lt i hpos
  rw [hi, hmul] at hdiv
  have hfin : Fin.ofNat pageSize (b * s.blockSize + i % s.blockSize) = Fin.ofNat pageSize i := by
    rw [Fin.ext_iff, Fin.val_ofNat, Fin.val_ofNat]
    conv_rhs => rw [← hdiv, Nat.add_assoc, Nat.mul_add_mod']
  rw [hfin]
  exact if_congr (by omega) rfl rfl

/-- The blocks of a page. -/
lemma Super.WholeBlocks.div_pageSize (h : s.WholeBlocks) (i : ℕ) :
    i / pageSize = i / s.blockSize / s.blocksPerPage := by
  rw [Nat.div_div_eq_div_mul, mul_comm, h.mul_blocksPerPage]

lemma tryPutPage_spec {ino : BitVec 32} {u : Unit} (h : Healthy s (s.inodes ino))
    (hwhole : s.WholeBlocks) (hrun : (tryPutPage ino page p).run s = .ok u s') :
    Put s s' (s.inodes ino) (fun i => page (Fin.ofNat pageSize i)) {i | i / pageSize = p} := by
  rw [tryPutPage] at hrun
  obtain ⟨raw, hraw, hrest⟩ := run_reading_bind_eq_ok.mp hrun
  obtain rfl := readInode_eq hraw
  rw [run_get_bind] at hrest
  by_cases hend : p * pageSize ≥ (s.inodes ino).size
  · -- the page is behind the end of the file
    rw [if_pos hend] at hrest
    cases hrest
    refine .refl h fun i hi => .inr (Nat.le_trans hend ?_)
    rw [← show i / pageSize = p from hi, hwhole.div_pageSize, ← hwhole.mul_blocksPerPage,
      ← Nat.mul_assoc]
    exact Nat.mul_le_mul_right _ (Nat.div_mul_le_self _ _)
  rw [if_neg hend] at hrest
  have hpos : 0 < s.blocksPerPage := Nat.le_max_right _ 1
  have hinv := foldlM_induct
    (I := fun done (_ : Unit) s' => Put s s' (s.inodes ino) (fun i => page (Fin.ofNat pageSize i))
      {i | ∃ b ∈ done, i / s.blockSize = p * s.blocksPerPage + b})
    (.refl h fun i ⟨b, hb, _⟩ => nomatch hb) ?_ hrest
  · convert hinv using 1
    ext i
    change i / pageSize = p ↔ ∃ b ∈ List.range s.blocksPerPage, _
    rw [hwhole.div_pageSize]
    refine ⟨fun hi => ⟨i / s.blockSize % s.blocksPerPage, ?_, ?_⟩, ?_⟩
    · exact List.mem_range.mpr (Nat.mod_lt _ hpos)
    · rw [← hi, Nat.div_add_mod']
    · rintro ⟨b, hb, hi⟩
      rw [hi, Nat.add_comm, Nat.add_mul_div_right _ _ hpos,
        Nat.div_eq_of_lt (List.mem_range.mp hb), Nat.zero_add]
  · intro done b rest _ s₁ _ s₂ hl hput hstep
    have hb : b < s.blocksPerPage := by
      rw [← mem_range, ← hl]
      exact mem_append_right _ mem_cons_self
    have hblocks : s₁.blocksPerPage = s.blocksPerPage := by
      rw [Super.blocksPerPage, Super.blocksPerPage, hput.blockSize]
    refine hput.trans (putBlock_spec hput.healthy (hput.whole hwhole) (hblocks ▸ hb) hstep)
      fun i => ?_
    rw [hput.blockSize, hblocks]
    simp

end

/-- The byte of a cached page. -/
def RegularFile.byte (f : RegularFile) (i : ℕ) : BitVec 8 :=
  (f.pages (i / pageSize)).elim 0 (· (Fin.ofNat pageSize i))

section

variable {ino : BitVec 32} {f f' : RegularFile} {c : Contents} {stale : Set ℕ} {l : List ℕ}

/-- The cached pages of a list are written back. -/
lemma writeback_put {raw : Inode} (h : Healthy f.fs raw) (hwhole : f.fs.WholeBlocks)
    (hraw : f.fs.inodes ino = raw) (hrun : (writeback ino l).run f = .ok (.ok ()) f') :
    f' = { f with fs := f'.fs } ∧
      Put f.fs f'.fs raw f.byte {i | i / pageSize ∈ l ∧ f.pages (i / pageSize) ≠ none} := by
  induction l generalizing f with
  | nil =>
    cases hrun
    exact ⟨rfl, .refl h fun i hi => nomatch hi.1⟩
  | cons idx l ih =>
    rw [writeback, run_get_bind] at hrun
    cases hpage : f.pages idx with
    | none =>
      rw [hpage] at hrun
      obtain ⟨heq, hput⟩ := ih h hwhole hraw hrun
      refine ⟨heq, ?_⟩
      convert hput using 1
      ext i
      refine and_congr_left fun hne => List.mem_cons.trans (or_iff_right ?_)
      rintro rfl
      exact hne hpage
    | some page =>
      rw [hpage] at hrun
      obtain ⟨put, f₁, hput, hrest⟩ := run_bind_eq_ok.mp hrun
      cases put with
      | false =>
        obtain ⟨_, -, ⟨⟩⟩ := run_bind_pure_eq_ok.mp hrest
      | true =>
        have hput : ∃ fs, (tryPutPage ino page idx).run f.fs = .ok () fs ∧ f₁ = { f with fs } := by
          simp only [EStateM.run] at hput
          split at hput
          · next u f₂ hrun =>
            cases hput
            exact run_onSuper_eq_ok hrun
          · cases hput
          · cases hput
        obtain ⟨fs, hrun, rfl⟩ := hput
        subst hraw
        have hput := tryPutPage_spec h hwhole hrun
        obtain ⟨heq, hrest⟩ := ih hput.healthy (hput.whole hwhole)
          (by rw [hput.eq]) hrest
        have hidx : ∀ i, i / pageSize = idx → f.pages (i / pageSize) = some page := by
          rintro i rfl
          exact hpage
        have hbyte : Put f.fs fs (f.fs.inodes ino) f.byte {i | i / pageSize = idx} := by
          refine { hput with put := fun i hi hhole hend => ?_ }
          rw [hput.put i hi hhole hend, byte, hidx i hi]
          rfl
        refine ⟨heq, hbyte.trans hrest fun i => ?_⟩
        change _ ∧ _ ↔ _ ∨ _ ∧ _
        rw [mem_cons, or_and_right, and_iff_left_of_imp fun hi => by rw [hidx i hi]; nofun]
        exact Iff.rfl

/-- What is written are the bytes of the file. -/
lemma OnDisk.put {s s' : Super} {stale' : Set ℕ} {data : ℕ → BitVec 8} {S : Set ℕ}
    (h : OnDisk ino s c stale) (hput : Put s s' (s.inodes ino) data S)
    (hdata : ∀ i ∈ S, data i = c.bytes i)
    (hstale : ∀ i, i / pageSize ∈ stale → i / pageSize ∉ stale' → i ∈ S) :
    OnDisk ino s' c stale' := by
  have hinodes : s'.inodes = s.inodes := by rw [hput.eq]
  have hkept : ∀ i, s.resolveBlock (s.inodes ino) (i / s.blockSize) = .ok 0 ∨
      (s.inodes ino).size ≤ i / s.blockSize * s.blockSize →
      s'.diskByte (s.inodes ino) i = c.bytes i := by
    intro i hi
    rw [hput.kept i (.inr hi)]
    rcases hi with hi | hi
    · rw [diskByte_of_hole hi, h.hole i hi]
    · rw [h.size] at hi
      rw [h.tail i hi, c.zero i (le_trans hi (Nat.div_mul_le_self _ _))]
  refine ⟨hinodes ▸ hput.healthy, ?_, hput.whole h.whole, hinodes ▸ h.reg, hinodes ▸ h.size,
    fun i hi => ?_, fun i hi => ?_, fun i hi => ?_⟩
  · rw [hput.eq]
    exact h.fits
  · rw [hinodes]
    by_cases hS : i ∈ S
    · by_cases hhole : s.resolveBlock (s.inodes ino) (i / s.blockSize) = .ok 0
      · exact hkept i (.inl hhole)
      by_cases hend : i / s.blockSize * s.blockSize < (s.inodes ino).size
      · rw [hput.put i hS hhole hend, h.size]
        split_ifs with hlt
        · exact hdata i hS
        · exact (c.zero i (not_lt.mp hlt)).symm
      · exact hkept i (.inr (not_lt.mp hend))
    · rw [hput.kept i (.inl hS)]
      exact h.bytes i fun hmem => hS (hstale i hmem hi)
  · rw [hinodes, hput.blockSize, hput.resolve] at hi
    exact h.hole i hi
  · rw [hput.blockSize] at hi
    rw [hinodes, hkept i (.inr (h.size ▸ hi)),
      c.zero i (le_trans hi (Nat.div_mul_le_self _ _))]

lemma writeback_spec (h : Holds ino f c stale)
    (hrun : (writeback ino l).run f = .ok (.ok ()) f') :
    Holds ino f' c (stale \ {p | p ∈ l}) ∧ f' = { f with fs := f'.fs } ∧
      f'.fs.inodes = f.fs.inodes := by
  obtain ⟨heq, hput⟩ := writeback_put h.disk.healthy h.disk.whole rfl hrun
  have hdisk : OnDisk ino f'.fs c {p | p ∈ stale \ {p | p ∈ l} ∧ f.pages p ≠ none} := by
    refine h.disk.put hput (fun i hi => ?_) fun i hmem hnot => ⟨?_, hmem.2⟩
    · obtain ⟨page, hpage⟩ := Option.ne_none_iff_exists'.mp hi.2
      rw [byte, hpage, Option.elim_some, h.pages _ page hpage, Fin.val_ofNat,
        Nat.div_add_mod']
    · by_contra hl
      exact hnot ⟨⟨hmem.1, hl⟩, hmem.2⟩
  refine ⟨?_, heq, by rw [hput.eq]⟩
  rw [heq]
  exact ⟨hdisk, h.size, h.pages_lt, h.pages, h.window, h.length⟩

end

end Ext2

end Zinnia
