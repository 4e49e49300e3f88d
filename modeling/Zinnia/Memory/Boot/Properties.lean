import Mathlib.Algebra.Order.BigOperators.Group.Finset
import Zinnia.Memory.Boot
import Zinnia.Memory.Pmm.Properties

/-!
# The pages of the bump allocator

The region of the bump allocator is found twice: once among the usable entries of the memory map,
and once among all of them. If a longer entry is not usable, the pages that have been handed out
stay in the map and are given to the physical page allocator.
-/

namespace Zinnia

open List Option BitVec Set

/-- A memory map of ranges of physical memory. Physical addresses have at most 52 bits. -/
structure BootMap where
  entries : List PhysMemory
  physical : ∀ e ∈ entries, e.address.toNat + e.length.toNat ≤ 2 ^ 52

lemma alignDown_toNat (x : Usize) :
    (alignDown x (BitVec.ofNat 64 pageSize)).toNat = x.toNat / 4096 * 4096 := by
  have hone : (BitVec.ofNat 64 pageSize - 1 : Usize) = 4095#64 := by decide
  rw [alignDown, hone, and_not_pageMask]

namespace BumpAllocator

/-- The pages that are handed out follow each other. -/
lemma allocPages_spec {n : ℕ} {b b' : BumpAllocator} {addrs : List PhysAddr}
    (hlt : b.current.toNat + b.length.toNat < 2 ^ 64) (h : b.allocPages n = some (addrs, b')) :
    4096 * n ≤ b.length.toNat ∧ b'.current.toNat = b.current.toNat + 4096 * n ∧
      ∀ i, (∃ a ∈ addrs, idxFromAddr a = i) ↔
        i ∈ Set.Ico (idxFromAddr b.current) (idxFromAddr b.current + n) := by
  induction n generalizing b addrs with
  | zero =>
    cases h
    simp
  | succ n ih =>
    rw [allocPages, alloc] at h
    split_ifs at h with hle
    obtain ⟨⟨addrs', b₁⟩, hrest, heq⟩ := map_eq_some_iff.mp h
    cases heq
    have hbytes : (1 * BitVec.ofNat 64 pageSize : Usize).toNat = 4096 := by decide
    rw [le_def] at hle
    have hcurrent : (b.current + 1 * BitVec.ofNat 64 pageSize).toNat = b.current.toNat + 4096 := by
      rw [toNat_add, hbytes, Nat.mod_eq_of_lt (by omega)]
    have hlength : (b.length - 1 * BitVec.ofNat 64 pageSize).toNat = b.length.toNat - 4096 := by
      rw [toNat_sub_of_le (BitVec.le_def.mpr (hbytes.trans_le hle)), hbytes]
    obtain ⟨hn, hend, hpages⟩ := ih (by rw [hcurrent, hlength]; omega) hrest
    rw [hlength] at hn
    rw [hcurrent] at hend
    have hidx : idxFromAddr (b.current + 1 * BitVec.ofNat 64 pageSize) =
        idxFromAddr b.current + 1 := by
      rw [idxFromAddr, hcurrent, idxFromAddr, pageSize]
      omega
    refine ⟨by omega, by omega, fun i => ?_⟩
    rw [exists_mem_cons_iff, hpages, hidx, mem_Ico, mem_Ico]
    omega

end BumpAllocator

/-! ### The memory map -/

/-- The first pages that lie in an entry as a whole. -/
def PhysMemory.firstPages (e : PhysMemory) (n : ℕ) : Set ℕ :=
  Set.Ico ((e.address.toNat + 4095) / 4096) ((e.address.toNat + 4095) / 4096 + n)

/-- The pages that the bump allocator has handed out. -/
def MemoryStage.bumpPages (stage : MemoryStage) : Set ℕ :=
  {i | ∃ a ∈ stage.handed, idxFromAddr a = i}

variable {e : PhysMemory}

lemma toNat_end (he : e.address.toNat + e.length.toNat ≤ 2 ^ 52) :
    (e.address + e.length).toNat = e.address.toNat + e.length.toNat := by
  rw [toNat_add, Nat.mod_eq_of_lt (by omega)]

/-- No usable entry ends behind the highest usable address. -/
lemma le_highestUsable (m : BootMap) (he : e ∈ m.entries) (husable : e.isUsable) :
    e.address.toNat + e.length.toNat ≤ (highestUsable m.entries).toNat ∧
      (highestUsable m.entries).toNat ≤ 2 ^ 52 := by
  have hmem : e.address + e.length ∈ (m.entries.filter fun x =>
      x.usage = .usable || x.usage = .reclaimable).map fun x => x.address + x.length := by
    refine mem_map.mpr ⟨e, mem_filter.mpr ⟨he, ?_⟩, rfl⟩
    rw [Bool.or_eq_true]
    exact .inl husable
  obtain ⟨x, hx, hmax, hle⟩ := maxBy.exists_of_mem BitVec.toNat hmem
  obtain ⟨f, hf, rfl⟩ := List.mem_map.mp hx
  have hf' := m.physical f (List.mem_filter.mp hf).1
  rw [highestUsable, hmax, getD_some, toNat_end hf']
  rw [toNat_end (m.physical e he), toNat_end hf'] at hle
  exact ⟨hle, hf'⟩

/-- At least the root of the page table and one page of metadata are allocated. -/
lemma two_le_requests (m : BootMap) (he : e ∈ m.entries) (husable : e.isUsable)
    (hpos : 0 < e.length.toNat) (tables : ℕ) (directories : ℕ → ℕ) :
    2 ≤ requests m.entries tables directories := by
  obtain ⟨hle, hge⟩ := le_highestUsable m he husable
  have hpages : 0 < pageArrayPages m.entries := by
    rw [pageArrayPages, pageCount_eq, toNat_ofNat, pageCount_eq]
    omega
  have hsum : 1 ≤ ∑ i ∈ Finset.range (pageArrayPages m.entries), (1 + directories i) := by
    calc 1 ≤ 1 + directories 0 := Nat.le_add_right 1 _
      _ ≤ _ := Finset.single_le_sum (f := fun i => 1 + directories i) (fun _ _ => Nat.zero_le _)
        (Finset.mem_range.mpr hpages)
  rw [requests]
  omega

/-! ### The pages that are cut off -/

variable {m : BootMap} {tables : ℕ} {directories : ℕ → ℕ} {stage : MemoryStage}

/-- The steps of `MEMORY_STAGE`. The bump allocator hands out the first pages of its region, and
what is cut off an entry reaches to the end of these pages. -/
lemma exists_of_memoryStage (h : memoryStage m.entries tables directories = some stage) :
    ∃ region j e i bytes,
      largest (m.entries.zipIdx.filter (·.1.isUsable)) = some (region, j) ∧
      largest m.entries.zipIdx = some (e, i) ∧
      4096 * requests m.entries tables directories ≤ region.length.toNat ∧
      stage.bumpPages = region.firstPages (requests m.entries tables directories) ∧
      stage.memoryMap = m.entries.modify i (·.shrink bytes) ∧
      (region.address.toNat + 4095) / 4096 + requests m.entries tables directories ≤
        idxFromAddr (region.address + bytes) := by
  obtain ⟨⟨region, j⟩, hregion, hrest⟩ := bind_eq_some_iff.mp h
  obtain ⟨⟨handed, bump⟩, halloc, hrest⟩ := bind_eq_some_iff.mp hrest
  obtain ⟨⟨e, i⟩, hlargest, hrest⟩ := bind_eq_some_iff.mp hrest
  obtain ⟨pmm, -, heq⟩ := bind_eq_some_iff.mp hrest
  cases heq
  have hmem : region ∈ m.entries :=
    fst_mem_of_mem_zipIdx (mem_filter.mp (maxBy.mem hregion)).1
  have hphys := m.physical region hmem
  have hstart := alignUp_toNat region.address
  have hlength := alignDown_toNat region.length
  obtain ⟨hn, hend, hpages⟩ := BumpAllocator.allocPages_spec
    (by rw [hstart, hlength]; omega) halloc
  rw [hlength] at hn
  refine ⟨region, j, e, i, _, hregion, hlargest, hn.trans (Nat.div_mul_le_self _ _), ?_, rfl, ?_⟩
  · ext i
    refine (hpages i).trans ?_
    rw [PhysMemory.firstPages, idxFromAddr, hstart, pageSize]
    simp only [mem_Ico]
    omega
  · dsimp only at hend
    rw [idxFromAddr, toNat_add, alignUp_toNat, toNat_sub, hend, hstart, pageSize]
    omega

/-- The entries of the map that the physical page allocator gets. -/
lemma mem_registeredPages_modify {entries : List PhysMemory} {i page : ℕ} {bytes : Usize} :
    page ∈ registeredPages (entries.modify i (·.shrink bytes)) ↔
      ∃ j f, entries[j]? = some f ∧
        ((j ≠ i ∧ f.registered ∧ page ∈ f.pages) ∨
          j = i ∧ (f.shrink bytes).registered ∧ page ∈ (f.shrink bytes).pages) := by
  simp only [registeredPages, mem_iff_getElem?, getElem?_modify]
  constructor
  · rintro ⟨e, ⟨j, hj⟩, hreg, hpage⟩
    obtain ⟨f, hf, rfl⟩ := map_eq_some_iff.mp hj
    refine ⟨j, f, hf, ?_⟩
    by_cases hij : i = j
    · rw [if_pos hij] at hreg hpage
      exact .inr ⟨hij.symm, hreg, hpage⟩
    · rw [if_neg hij] at hreg hpage
      exact .inl ⟨Ne.symm hij, hreg, hpage⟩
  · rintro ⟨j, f, hf, ⟨hij, hreg, hpage⟩ | ⟨rfl, hreg, hpage⟩⟩
    · exact ⟨f, ⟨j, by simp [hf, Ne.symm hij]⟩, hreg, hpage⟩
    · exact ⟨f.shrink bytes, ⟨j, by simp [hf]⟩, hreg, hpage⟩

/-- The pages of the bump allocator are not given to the physical page allocator exactly if the
last of the longest entries of the memory map is usable, and no other usable entry has one of these
pages. -/
theorem disjoint_bumpPages_iff (m : BootMap) (tables : ℕ) (directories : ℕ → ℕ)
    {stage : MemoryStage} (h : memoryStage m.entries tables directories = some stage) :
    Disjoint stage.bumpPages (registeredPages stage.memoryMap) ↔
      ∃ e i, largest m.entries.zipIdx = some (e, i) ∧ e.isUsable ∧
        ∀ j f, m.entries[j]? = some f → j ≠ i → f.registered →
          Disjoint (e.firstPages (requests m.entries tables directories)) f.pages := by
  obtain ⟨region, j, e, i, bytes, hregion, hlargest, hlen, hbump, hmap, hcut⟩ :=
    exists_of_memoryStage h
  obtain ⟨hj, husable⟩ : m.entries[j]? = some region ∧ region.isUsable := by
    have hx := maxBy.mem hregion
    rw [mem_filter, mem_zipIdx_iff_getElem?] at hx
    exact hx
  have hsame : e.isUsable → (e, i) = (region, j) := fun he =>
    some.inj ((maxBy.filter hlargest he).symm.trans hregion)
  rw [hbump, hmap]
  constructor
  · intro hd
    rw [Set.disjoint_left] at hd
    have he : e.isUsable := by
      by_contra hnot
      have hij : j ≠ i := by
        rintro rfl
        rw [mem_zipIdx_iff_getElem?.mp (maxBy.mem hlargest)] at hj
        cases hj
        exact hnot husable
      have hmem := mem_of_getElem? hj
      have htwo := two_le_requests m hmem husable
        (by rw [requests] at hlen; omega) tables directories
      -- the region is in the map as it was
      refine hd (a := (region.address.toNat + 4095) / 4096) ⟨le_rfl, by omega⟩
        (mem_registeredPages_modify.mpr ⟨j, region, hj, .inl ⟨hij, ?_, ?_⟩⟩)
      · have hnot : ¬ region.length.toNat < pageSize := by
          rw [pageSize]
          omega
        rw [PhysMemory.isUsable] at husable
        simp [PhysMemory.registered, hnot, husable]
      · simp only [PhysMemory.pages, pageRange, idxFromAddr, pageSize, mem_Ico]
        omega
    obtain ⟨rfl, rfl⟩ := Prod.mk.inj (hsame he)
    refine ⟨e, i, hlargest, he, fun j' f hf hij hreg => disjoint_left.mpr fun page hpage hin => ?_⟩
    exact hd hpage (mem_registeredPages_modify.mpr ⟨j', f, hf, .inl ⟨hij, hreg, hin⟩⟩)
  · rintro ⟨e', i', heq, he, hother⟩
    cases hlargest.symm.trans heq
    cases hsame he
    refine disjoint_left.mpr fun page hpage hin => ?_
    obtain ⟨j', f, hf, ⟨hij, hreg, hin⟩ | ⟨rfl, -, hin⟩⟩ := mem_registeredPages_modify.mp hin
    · exact disjoint_left.mp (hother j' f hf hij hreg) hpage hin
    · cases hf.symm.trans hj
      exact absurd (hcut.trans hin.1) (not_le.mpr hpage.2)

/-- One region of 32 pages. -/
def smallRegion : BootMap := ⟨[⟨0x100000, 0x20000, .usable⟩], by simp⟩

theorem disjoint_smallRegion : ∃ stage, memoryStage smallRegion.entries 4 (fun _ => 0) = some stage ∧
    Disjoint stage.bumpPages (registeredPages stage.memoryMap) := by
  have hrun : (memoryStage smallRegion.entries 4 fun _ => 0).isSome := by decide +kernel
  obtain ⟨stage, hstage⟩ := isSome_iff_exists.mp hrun
  refine ⟨stage, hstage, (disjoint_bumpPages_iff smallRegion 4 _ hstage).mpr
    ⟨⟨0x100000, 0x20000, .usable⟩, 0, rfl, rfl, fun j f hf hj => ?_⟩⟩
  cases j with
  | zero => exact absurd rfl hj
  | succ j => cases hf

/-- A reserved region is longer than the usable one. The first page of the bump allocator is given
to the physical page allocator. -/
theorem not_disjoint_reserved : ∃ (m : BootMap) (stage : MemoryStage),
    m.entries = [⟨0x100000, 0x20000, .usable⟩, ⟨0x10000000, 0x100000, .reserved⟩] ∧
      memoryStage m.entries 4 (fun _ => 0) = some stage ∧
      0x100 ∈ stage.bumpPages ∧ 0x100 ∈ registeredPages stage.memoryMap := by
  let m : BootMap :=
    ⟨[⟨0x100000, 0x20000, .usable⟩, ⟨0x10000000, 0x100000, .reserved⟩], by simp⟩
  have hrun : ((memoryStage m.entries 4 fun _ => 0).any fun stage =>
      stage.handed.contains 0x100000 &&
        stage.memoryMap.contains ⟨0x100000, 0x20000, .usable⟩) = true := by
    decide +kernel
  obtain ⟨stage, hstage, hrun⟩ := (any_eq_true _ _).mp hrun
  rw [Bool.and_eq_true, contains_iff_mem, contains_iff_mem] at hrun
  refine ⟨m, stage, rfl, hstage, ⟨_, hrun.1, by decide⟩, _, hrun.2, by decide, ?_⟩
  constructor <;> decide

end Zinnia
