import Zinnia.Memory.Virt.Fault
import Zinnia.Memory.Virt.View

/-!
# What the calls on an address space do

Every call changes the mapped pages and the page table pointwise, or fails; and it keeps the
invariant of address spaces.
-/

namespace Zinnia

open Segment Option PageTableEntry VirtualAllocator Nat AddressSpace

variable {O : Type}

namespace AddressSpace

/-- What a virtual page is mapped to. -/
abbrev lookup (s : AddressSpace O) (page : ℕ) : Option (PageMapping O) := s.mappings.lookup page

/-- The mappings are disjoint and lie in the window of the allocator, and an entry of the page
table is present for mapped pages only. A page whose entry is writable is mapped writable, and is
not waiting to be copied. -/
structure Wf (s : AddressSpace O) : Prop where
  disjointed : Disjointed s.mappings
  allocator : s.allocator.Wf
  window : s.allocator.startPage = 1 ∧ s.allocator.endPage = 2 ^ 35
  inWindow : ∀ i, (s.lookup i).isSome → 1 ≤ i ∧ i < 2 ^ 35
  present : ∀ i, (s.table i).isPresent → (s.lookup i).isSome
  writable : ∀ i p, (s.table i).allowsWrite → s.lookup i = some p →
    p.flags.write ∧ ¬ p.flags.copyOnWrite

/-! ### The effects of the calls -/

section

variable [MemoryObject O] (s s' : AddressSpace O) (addr : VirtAddr) (len : NonZeroUsize)

/-- What a successful `map_object` does. -/
structure MapEffect (object : O) (prot : VmFlags) (offset : BitVec 64) : Prop where
  disjointed : Disjointed s'.mappings
  inWindow : ∀ i, InRange addr len i → 1 ≤ i ∧ i < 2 ^ 35
  lookup : ∀ i, s'.lookup i =
    if InRange addr len i then
      some
        { object
          objectPage := offset.toNat / pageSize + (i - addr.toNat / pageSize)
          flags := prot
          cache := MemoryObject.cacheType object }
    else s.lookup i
  table : ∀ i, s'.table i =
    if InRange addr len i ∧ (s.lookup i).isSome then .empty else s.table i
  allocator : s'.allocator.Wf
  window : s'.allocator.startPage = 1 ∧ s'.allocator.endPage = 2 ^ 35
  allocated : ∀ i, s'.allocator.IsAllocated i ↔ InRange addr len i ∨ s.allocator.IsAllocated i

omit [MemoryObject O]

/-- What a successful `protect` does. -/
structure ProtectEffect (prot : VmFlags) : Prop where
  disjointed : Disjointed s'.mappings
  lookup : ∀ i, s'.lookup i =
    if InRange addr len i ∧ ¬ len.Wraps then (s.lookup i).map (·.reprotect prot) else s.lookup i
  table : ∀ i, s'.table i =
    if InRange addr len i ∧ ¬ len.Wraps then (s.table i).reprotect prot (s.lookup i)
    else s.table i
  allocator : s'.allocator = s.allocator

/-- What `unmap` does to the mappings and the page table once its arguments are accepted. -/
structure UnmapEffect : Prop where
  disjointed : Disjointed s'.mappings
  lookup : ∀ i, s'.lookup i = if InRange addr len i ∧ ¬ len.Wraps then none else s.lookup i
  table : ∀ i, if InRange addr len i ∧ ¬ len.Wraps ∧ (s.lookup i).isSome then s'.table i = .empty
    else (s'.table i).core = (s.table i).core

end

section

variable {s : AddressSpace O} {addr : VirtAddr} {len : NonZeroUsize} {t : PageTable}
  {x : PageTable × List (O × ℕ)}

/-- What `map_object` accepts. -/
def Mappable (addr : VirtAddr) (len : NonZeroUsize) (offset : BitVec 64) : Prop :=
  isPageAligned addr ∧ offset.toNat % pageSize = 0 ∧ VirtualAllocator.UserRange addr len

instance (addr : VirtAddr) (len : NonZeroUsize) (offset : BitVec 64) :
    Decidable (Mappable addr len offset) :=
  inferInstanceAs (Decidable (_ ∧ _))

/-- `map_object` either fails and changes nothing, or maps its pages. -/
theorem mapObject_cases [MemoryObject O] (h : s.Wf) (addr : VirtAddr) (len : NonZeroUsize)
    (object : O) (prot : VmFlags) (offset : BitVec 64) :
    (∃ e, s.mapObject object addr len prot offset = some (.error e, s) ∧
        ¬ Mappable addr len offset) ∨
      ∃ s', s.mapObject object addr len prot offset = some (.ok (), s') ∧
        MapEffect s s' addr len object prot offset ∧ Mappable addr len offset := by
  obtain ⟨hstart, hend⟩ := h.window
  have hok := exists_rangeFromAddr_iff h.window addr len
  by_cases hadd : (checkedAdd addr len).isNone
  · refine .inl ⟨_, by rw [mapObject, if_pos hadd], fun hmap => ?_⟩
    have hle := hmap.2.2.2
    rw [checkedAdd_isNone, decide_eq_true_eq] at hadd
    omega
  by_cases hoff : addr.toNat % pageSize ≠ offset.toNat % pageSize
  · refine .inl ⟨_, by rw [mapObject, if_neg hadd, if_pos hoff], fun hmap => hoff ?_⟩
    have haddr := hmap.1
    rw [isPageAligned, decide_eq_true_eq] at haddr
    rw [haddr, hmap.2.1]
  cases hrange : s.allocator.rangeFromAddr addr len with
  | error e =>
    have hnot : ¬ Mappable addr len offset := fun hmap => by
      obtain ⟨range, hrange'⟩ := hok.mpr ⟨hmap.1, hmap.2.2⟩
      simp [hrange] at hrange'
    refine .inl ⟨e, ?_, hnot⟩
    have hrel : s.allocator.release addr len = .error e := by
      rw [release, hrange]
      rfl
    rw [mapObject, if_neg hadd, if_neg hoff]
    simp only [hrel]
  | ok range =>
    obtain ⟨haddr, hlo, hhi, hne, hmin, hmax⟩ :=
      rangeFromAddr_eq_ok (.inl (by omega)) hrange
    obtain ⟨a', hres, hwf, hstart', hend', halloc⟩ :=
      h.allocator.exists_reserve (by omega) hrange
    obtain ⟨haligned, huser⟩ := hok.mp ⟨range, hrange⟩
    have hpages : ∀ i, InRange addr len i ↔ range.startPage ≤ i ∧ i < range.endPage := by
      intro i
      rw [inRange_iff haddr, hlo, hhi]
    have hcount : range.startPage + pageCount len = range.endPage := by
      rw [NonZeroUsize.pageCount_of_not_wraps huser.not_wraps, hlo, hhi]
    obtain ⟨x, t, hrun, hx, hlook, htable⟩ := run_carve
      h.disjointed hne.le s.table (lt_succ_self _)
    let m : MappedObject O := ⟨range.startPage, range.endPage, offset.toNat / pageSize, object, prot,
      MemoryObject.cacheType object⟩
    have hap : ∀ n ∈ x, Apart n m := by
      refine hx.apart_of_at?_eq_none hne fun i hi => ?_
      have hnone := (hlook i).trans (if_pos hi)
      rwa [Mappings.lookup, valueAt, map_eq_none_iff] at hnone
    refine .inr ⟨⟨t, a', x.insert m⟩, ?_, ⟨hx.insert hne hap, ?_, ?_, ?_, hwf, ?_, ?_⟩, ?_⟩
    · rw [mapObject, if_neg hadd, if_neg hoff]
      simp only [release_eq hrange, hres, ← hlo, hcount, funext shadowStep_eq_carve, hrun]
      rfl
    · intro i hi
      rw [hpages] at hi
      omega
    · intro i
      rw [AddressSpace.lookup, Mappings.lookup, valueAt, hx.at?_insert hne hap]
      by_cases hi : Covers m i
      · rw [if_pos hi, if_pos ((hpages i).mpr hi), ← hlo]
        rfl
      · rw [if_neg hi, if_neg fun hin => hi ((hpages i).mp hin)]
        exact (hlook i).trans (if_neg hi)
    · intro i
      simp only [hpages]
      exact htable i
    · exact ⟨hstart'.trans hstart, hend'.trans hend⟩
    · intro i
      rw [hpages]
      exact halloc i
    · refine ⟨haligned, ?_, huser⟩
      rw [← not_ne_iff.mp hoff]
      exact haddr

/-- The last page of the range of a call that does not overflow. -/
lemma inRange_iff_of_not_wraps (haddr : isPageAligned addr) (hwrap : ¬ len.Wraps) (i : ℕ) :
    InRange addr len i ↔ addr.toNat / pageSize ≤ i ∧
      i < addr.toNat / pageSize + pageCount len := by
  rw [inRange_iff (by simpa [isPageAligned] using haddr),
    NonZeroUsize.pageCount_of_not_wraps hwrap]

lemma findOverlapping_zero (x : Mappings O) : findOverlapping x 0 0 = none := by
  refine List.find?_eq_none.mpr fun m _ hov => ?_
  simp [Overlaps] at hov

/-- `protect` either fails and changes nothing, or changes the permissions of its pages. -/
theorem protect_cases (h : s.Wf) (addr : VirtAddr) (len : NonZeroUsize) (prot : VmFlags) :
    (∃ e, s.protect addr len prot = some (.error e, s)) ∨
      ∃ s', s.protect addr len prot = some (.ok (), s') ∧ ProtectEffect s s' addr len prot := by
  by_cases hadd : (checkedAdd addr len).isNone
  · exact .inl ⟨_, by rw [protect, if_pos hadd]⟩
  by_cases haddr : !isPageAligned addr
  · exact .inl ⟨_, by rw [protect, if_neg hadd, if_pos haddr]⟩
  have haligned : isPageAligned addr := by simpa using haddr
  rw [protect, if_neg hadd, if_neg haddr]
  by_cases hwrap : len.Wraps
  · have hrun : Loop.run (protectStep 0 0 prot) (s.mappings.elems.length + 1)
        ((s.mappings, s.table), 0) = some ((s.mappings, s.table), 0) := by
      simp [Loop.run, protectStep, findOverlapping_zero]
    refine .inr ⟨s, ?_, h.disjointed, ?_, ?_, rfl⟩
    · have hzero : addr.toNat / pageSize = 0 := by
        rw [checkedAdd_isNone, decide_eq_true_eq] at hadd
        simp only [NonZeroUsize.Wraps, pageSize] at *
        omega
      simp only [NonZeroUsize.pageCount_of_wraps hwrap, hzero, hrun]
      rfl
    all_goals
      simp [hwrap]
  · have hpages := inRange_iff_of_not_wraps haligned hwrap
    have hlt : addr.toNat / pageSize < addr.toNat / pageSize + pageCount len := by
      have hlen := len.toNat_pos
      rw [NonZeroUsize.pageCount_of_not_wraps hwrap, pageSize]
      omega
    obtain ⟨x, t, c, hrun, hx, hlook, htable⟩ := run_protect prot
      h.disjointed hlt s.table (lt_succ_self _)
    refine .inr ⟨⟨t, s.allocator, x⟩, ?_, hx, fun i => ?_, fun i => ?_, rfl⟩
    · simp only [hrun]
      rfl
    · simp only [hpages, hwrap, not_false_eq_true, and_true]
      exact hlook i
    · simp only [hpages, hwrap, not_false_eq_true, and_true]
      exact htable i

/-- The entries are the same up to their accessed and dirty bits. -/
def SameCore (t t' : PageTable) : Prop := ∀ i, (t' i).core = (t i).core

lemma SameCore.takeDirty {t' : PageTable} (h : SameCore t t') (page : ℕ) :
    SameCore t (t'.takeDirty page).2 := by
  intro i
  simp only [PageTable.takeDirty]
  split_ifs
  · exact h i
  · simp only
    by_cases hi : i = page
    · rw [hi, Function.update_self, core_clearDirty]
      exact h page
    · rw [Function.update_of_ne hi]
      exact h i

lemma SameCore.harvestMapping (h : SameCore t x.1) (a b : ℕ) (m : MappedObject O) :
    SameCore t (harvestMapping a b x m).1 := by
  rw [AddressSpace.harvestMapping]
  split_ifs
  · exact h
  · refine Loop.forRange_induction (P := fun x : PageTable × List (O × ℕ) => SameCore t x.1) h
      fun x p hx => ?_
    have hnext := hx.takeDirty p
    cases hd : x.1.takeDirty p with
    | mk taken table =>
      rw [hd] at hnext
      cases taken with
      | true => exact hnext
      | false => exact hx

lemma SameCore.foldl_harvestMapping (a b : MappedObject O → ℕ) (l : List (MappedObject O))
    (h : SameCore t x.1) :
    SameCore t (l.foldl (fun x m => AddressSpace.harvestMapping (a m) (b m) x m) x).1 :=
  l.foldlRecOn (motive := fun x : PageTable × List (O × ℕ) => SameCore t x.1) _ h
    fun _ hx m _ => hx.harvestMapping _ _ m

lemma sameCore_harvestDirtyObject [DecidableEq O] (s : AddressSpace O) (target : O) :
    SameCore s.table (s.harvestDirtyObject target).1 :=
  SameCore.foldl_harvestMapping MappedObject.startPage MappedObject.endPage _ fun _ => rfl

lemma exists_harvestDirtyRange (s : AddressSpace O) (hadd : ¬ (checkedAdd addr len).isNone) :
    ∃ t d, s.harvestDirtyRange addr len = .ok (t, d) ∧ SameCore s.table t := by
  obtain ⟨e, he⟩ : ∃ e, checkedAdd addr len = some e :=
    ne_none_iff_exists'.mp (by simpa using hadd)
  refine ⟨_, _, by rw [harvestDirtyRange, he], ?_⟩
  exact SameCore.foldl_harvestMapping (fun _ => _) (fun _ => _) _ fun _ => rfl

/-- `unmap` either fails and changes nothing, or removes its pages; its last step, the release of
the range in the allocator, can still fail then. -/
theorem unmap_cases (h : s.Wf) (addr : VirtAddr) (len : NonZeroUsize) :
    (∃ e, s.unmap addr len = some (.error e, s, []) ∧
        ¬ (isPageAligned addr ∧ addr.toNat + len.1.toNat < 2 ^ 64)) ∨
      (isPageAligned addr ∧ addr.toNat + len.1.toNat < 2 ^ 64) ∧
        ∃ r s' d, s.unmap addr len = some (r, s', d) ∧ UnmapEffect s s' addr len ∧
          ((∃ e, s.allocator.rangeFromAddr addr len = .error e ∧ r = .error e ∧
              s'.allocator = s.allocator) ∨
            ∃ range, s.allocator.rangeFromAddr addr len = .ok range ∧ r = .ok () ∧
              s'.allocator = s.allocator.releaseRange range) := by
  by_cases hadd : (checkedAdd addr len).isNone
  · refine .inl ⟨_, by rw [unmap, if_pos hadd], fun hok => ?_⟩
    rw [checkedAdd_isNone, decide_eq_true_eq] at hadd
    omega
  by_cases haddr : !isPageAligned addr
  · refine .inl ⟨_, by rw [unmap, if_neg hadd, if_pos haddr], fun hok => ?_⟩
    simp [hok.1] at haddr
  have haligned : isPageAligned addr := by simpa using haddr
  obtain ⟨t, d, hharvest, hcore⟩ := s.exists_harvestDirtyRange hadd
  obtain ⟨x, u, hrun, hx, hlook, htable⟩ := run_carve
    h.disjointed (le_add_right _ _) t (lt_succ_self _)
  have hpages : ∀ i, (InRange addr len i ∧ ¬ len.Wraps) ↔
      addr.toNat / pageSize ≤ i ∧ i < addr.toNat / pageSize + pageCount len := by
    intro i
    by_cases hwrap : len.Wraps
    · rw [NonZeroUsize.pageCount_of_wraps hwrap]
      simp only [hwrap, not_true_eq_false, and_false, false_iff]
      omega
    · rw [inRange_iff_of_not_wraps haligned hwrap]
      exact and_iff_left hwrap
  have heffect : ∀ a, UnmapEffect s ⟨u, a, x⟩ addr len := by
    refine fun a => ⟨hx, fun i => ?_, fun i => ?_⟩
    · simp only [hpages]
      exact hlook i
    · simp only [← and_assoc, hpages]
      split_ifs with hi
      · exact (htable i).trans (if_pos hi)
      · have hu : u i = t i := (htable i).trans (if_neg hi)
        rw [hu]
        exact hcore i
  have hfits : addr.toNat + len.1.toNat < 2 ^ 64 := by
    rw [checkedAdd_isNone, decide_eq_true_eq] at hadd
    exact Nat.lt_of_not_le hadd
  refine .inr ⟨⟨haligned, hfits⟩, ?_⟩
  rw [unmap, if_neg hadd, if_neg haddr]
  simp only [hharvest, funext unmapStep_eq_carve, hrun]
  cases hrange : s.allocator.rangeFromAddr addr len with
  | error e =>
    have hrel : s.allocator.release addr len = .error e := by
      rw [release, hrange]
      rfl
    refine ⟨.error e, _, d, ?_, heffect s.allocator, .inl ⟨e, rfl, rfl, rfl⟩⟩
    simp only [hrel]
    rfl
  | ok range =>
    refine ⟨.ok (), _, d, ?_, heffect _, .inr ⟨range, rfl, rfl, rfl⟩⟩
    simp only [release_eq hrange]
    rfl

end

/-! ### The invariant -/

section

variable {s s' : AddressSpace O} {addr : VirtAddr} {len : NonZeroUsize} {object : O}
  {prot : VmFlags} {offset : BitVec 64} {i : ℕ}

lemma new_eq : (new : EResult (AddressSpace O)) =
    .ok ⟨fun _ => .empty, ⟨1, 2 ^ 35, 1, BTreeSet.empty⟩, BTreeSet.empty⟩ := rfl

lemma Wf.new (h : new = .ok s) : s.Wf := by
  cases h
  refine ⟨disjointed_empty, ⟨disjointed_empty, fun i hi => ?_⟩, ⟨rfl, rfl⟩, fun i hi => ?_,
    fun i hi => ?_, fun i p hi => ?_⟩
  · simp [IsAllocated, at?_empty] at hi
  · simp [valueAt, at?_empty] at hi
  · simp at hi
  · simp [allowsWrite] at hi

section

variable [MemoryObject O] (heff : MapEffect s s' addr len object prot offset)

include heff

/-- The entries of new pages are not present. -/
lemma MapEffect.not_present (h : s.Wf) (hi : InRange addr len i) : ¬ (s'.table i).isPresent := by
  intro hpresent
  rw [heff.table i] at hpresent
  split_ifs at hpresent with hmapped
  · simp at hpresent
  · exact hmapped ⟨hi, h.present i hpresent⟩

lemma MapEffect.outside (hi : ¬ InRange addr len i) :
    s'.table i = s.table i ∧ s'.lookup i = s.lookup i := by
  rw [heff.table i, heff.lookup i, if_neg (fun hin => hi hin.1), if_neg hi]
  exact ⟨rfl, rfl⟩

lemma Wf.map (h : s.Wf) : s'.Wf := by
  refine ⟨heff.disjointed, heff.allocator, heff.window, fun i hi => ?_, fun i hi => ?_,
    fun i p hwrite hp => ?_⟩
  all_goals by_cases hin : InRange addr len i
  · exact heff.inWindow i hin
  · rw [(heff.outside hin).2] at hi
    exact h.inWindow i hi
  · exact absurd hi (heff.not_present h hin)
  · rw [(heff.outside hin).1] at hi
    rw [(heff.outside hin).2]
    exact h.present i hi
  · simp [allowsWrite, heff.not_present h hin] at hwrite
  · rw [(heff.outside hin).1] at hwrite
    rw [(heff.outside hin).2] at hp
    exact h.writable i p hwrite hp

end

lemma Wf.protect (h : s.Wf) (heff : ProtectEffect s s' addr len prot) : s'.Wf := by
  have hsome : ∀ i, (s'.lookup i).isSome = (s.lookup i).isSome := by
    intro i
    rw [heff.lookup i]
    split_ifs
    · exact isSome_map
    · rfl
  refine ⟨heff.disjointed, ?_, ?_, fun i hi => ?_, fun i hi => ?_, fun i p hwrite hp => ?_⟩
  · exact heff.allocator ▸ h.allocator
  · exact heff.allocator ▸ h.window
  · exact h.inWindow i (hsome i ▸ hi)
  · rw [hsome i]
    rw [heff.table i] at hi
    split_ifs at hi
    · cases hp : s.lookup i with
      | none =>
        rw [hp] at hi
        exact hp ▸ h.present i hi
      | some p => rfl
    · exact h.present i hi
  · rw [heff.table i] at hwrite
    rw [heff.lookup i] at hp
    split_ifs at hwrite hp
    · obtain ⟨q, hq, rfl⟩ := map_eq_some_iff.mp hp
      rw [hq, reprotect, allowsWrite_remap, Bool.and_eq_true, VmFlags.forEntry] at hwrite
      split_ifs at hwrite with hcow
      · exact absurd hwrite.2 (by simp [VmFlags.withoutWrite])
      · exact ⟨hwrite.2, hcow⟩
    · exact h.writable i p hwrite hp

/-- An entry that is still present has not changed. -/
lemma UnmapEffect.kept (h : s.Wf) (heff : UnmapEffect s s' addr len) (hi : (s'.table i).isPresent) :
    s'.lookup i = s.lookup i ∧ (s'.table i).core = (s.table i).core := by
  have htable := heff.table i
  have hlook := heff.lookup i
  split_ifs at htable with hin
  · simp [htable] at hi
  · rw [← isPresent_core, htable, isPresent_core] at hi
    have hmapped := h.present i hi
    rw [if_neg fun hin' => hin ⟨hin'.1, hin'.2, hmapped⟩] at hlook
    exact ⟨hlook, htable⟩

/-- Removing pages together with their entries. -/
lemma Wf.unmap (h : s.Wf) (heff : UnmapEffect s s' addr len) (halloc : s'.allocator.Wf)
    (hwindow : s'.allocator.startPage = 1 ∧ s'.allocator.endPage = 2 ^ 35) : s'.Wf := by
  refine ⟨heff.disjointed, halloc, hwindow, fun i hi => ?_, fun i hi => ?_, fun i p hwrite hp => ?_⟩
  · rw [heff.lookup i] at hi
    split_ifs at hi
    · simp at hi
    · exact h.inWindow i hi
  · obtain ⟨hlook, hcore⟩ := heff.kept h hi
    rw [hlook]
    rw [← isPresent_core, hcore, isPresent_core] at hi
    exact h.present i hi
  · obtain ⟨hlook, hcore⟩ := heff.kept h (isPresent_of_allowsWrite hwrite)
    rw [← allowsWrite_core, hcore, allowsWrite_core] at hwrite
    exact h.writable i p hwrite (hlook ▸ hp)

/-- `unmap` keeps the invariant, whether the range can be released or not. -/
lemma Wf.unmap_call (h : s.Wf) {r : EResult Unit} {d : List (O × ℕ)}
    (hcall : s.unmap addr len = some (r, s', d)) : s'.Wf := by
  obtain ⟨e, he, -⟩ | ⟨-, r', s₁, d', hs₁, heff, halloc⟩ := unmap_cases h addr len
  · rw [he] at hcall
    cases hcall
    exact h
  · rw [hs₁] at hcall
    cases hcall
    obtain ⟨e, -, -, heq⟩ | ⟨range, hrange, -, heq⟩ := halloc
    · exact h.unmap heff (heq ▸ h.allocator) (heq ▸ h.window)
    · have hne := (rangeFromAddr_eq_ok (.inl (by rw [h.window.1]; decide))
        hrange).2.2.2.1
      exact h.unmap heff (heq ▸ (h.allocator.releaseRange hne.le).1) (heq ▸ h.window)

/-- Accesses and the collection of dirty pages do not matter. -/
lemma Wf.sameCore (h : s.Wf) {t : PageTable} (ht : SameCore s.table t) :
    Wf { s with table := t } := by
  refine ⟨h.disjointed, h.allocator, h.window, h.inWindow, fun i hi => ?_, fun i p hwrite hp => ?_⟩
  · rw [← isPresent_core, ht i, isPresent_core] at hi
    exact h.present i hi
  · rw [← allowsWrite_core, ht i, allowsWrite_core] at hwrite
    exact h.writable i p hwrite hp

lemma lookup_fork_parent (s : AddressSpace O) (i : ℕ) :
    s.fork.1.lookup i = (s.lookup i).map (·.fork) := lookup_fork s.mappings i

lemma mappings_fork_child (s : AddressSpace O) : s.fork.2.mappings = s.fork.1.mappings :=
  BTreeSet.insertAll_elems _

lemma lookup_fork_child (s : AddressSpace O) (i : ℕ) :
    s.fork.2.lookup i = (s.lookup i).map (·.fork) := by
  rw [lookup, mappings_fork_child]
  exact lookup_fork s.mappings i

lemma table_fork_parent (h : s.Wf) (i : ℕ) :
    s.fork.1.table i = (s.table i).fork (s.lookup i) :=
  foldl_forkTable_apply h.disjointed.pairwise s.table i

lemma Wf.fork_parent (h : s.Wf) : s.fork.1.Wf := by
  refine ⟨disjointed_fork h.disjointed, h.allocator, h.window, fun i hi => ?_, fun i hi => ?_,
    fun i p hwrite hp => ?_⟩
  · rw [lookup_fork_parent, isSome_map] at hi
    exact h.inWindow i hi
  · rw [lookup_fork_parent, isSome_map]
    rw [table_fork_parent h] at hi
    cases hp : s.lookup i with
    | none =>
      rw [hp] at hi
      exact hp ▸ h.present i hi
    | some p => rfl
  · rw [lookup_fork_parent] at hp
    obtain ⟨q, hq, rfl⟩ := Option.map_eq_some_iff.mp hp
    rw [table_fork_parent h, hq, PageTableEntry.fork] at hwrite
    rw [PageMapping.fork]
    split_ifs at hwrite ⊢ with hshared hflag
    · exact h.writable i q hwrite hq
    · simp [VmFlags.withoutWrite] at hwrite
    · exact absurd (h.writable i q hwrite hq).1 hflag

lemma Wf.fork_child (h : s.Wf) : s.fork.2.Wf := by
  refine ⟨mappings_fork_child s ▸ h.fork_parent.disjointed, h.allocator, h.window, fun i hi => ?_,
    fun i hi => ?_, fun i p hwrite => ?_⟩
  · rw [lookup_fork_child, isSome_map] at hi
    exact h.inWindow i hi
  · simp [fork] at hi
  · simp [fork, allowsWrite] at hwrite

end

/-! ### Page faults -/

section

variable [MemoryObject O] [DecidableEq O] (s s' : AddressSpace O) (info : PageFaultInfo)
  (resolved : ResolvedFault O) (cowObject : Option O) (phys : PhysAddr)

/-- What the handler does when it installs a page. -/
structure FaultEffect (p : PageMapping O) : Prop where
  disjointed : Disjointed s'.mappings
  mapped : s.lookup info.faultyPage = some p
  object : p.object = resolved.object ∧ p.objectPage = resolved.objectPage
  flags : info.mapFlags p.flags = resolved.mapFlags
  cowWrite : (p.flags.copyOnWrite && info.causedByWrite) = resolved.cowWrite
  lookup : ∀ i, s'.lookup i =
    if i = info.faultyPage then
      some (cowObject.elim p fun o => ⟨o, 0, resolved.mapFlags, MemoryObject.cacheType o⟩)
    else s.lookup i
  table : ∀ i, s'.table i =
    if i = info.faultyPage then .new phys (resolved.mapFlags.asPte true) resolved.cache 0
    else s.table i
  allocator : s'.allocator.Wf
  window : s'.allocator.startPage = 1 ∧ s'.allocator.endPage = 2 ^ 35
  allocated : ∀ i, s'.allocator.IsAllocated i ↔
    cowObject.isSome ∧ i = info.faultyPage ∨ s.allocator.IsAllocated i

variable {s s' info resolved cowObject phys} {page : ℕ} {p : PageMapping O}

omit [MemoryObject O] [DecidableEq O] in
/-- What the first part of the handler finds out about the faulting page. -/
lemma exists_of_resolve (h : s.resolve info = some resolved) :
    ∃ p, s.lookup info.faultyPage = some p ∧ p.object = resolved.object ∧
      p.objectPage = resolved.objectPage ∧ info.mapFlags p.flags = resolved.mapFlags ∧
      (p.flags.copyOnWrite && info.causedByWrite) = resolved.cowWrite ∧
      info.accessAllowed p.flags := by
  obtain ⟨m, hm, hrest⟩ := bind_eq_some_iff.mp h
  split_ifs at hrest with hallowed
  cases hrest
  refine ⟨m.pageAt info.faultyPage, ?_, rfl, Nat.add_comm _ _, rfl, rfl, ?_⟩
  swap
  · simpa [MappedObject.pageAt] using hallowed
  rw [lookup, Mappings.lookup, valueAt, hm, map_some]

lemma toNat_pageAddr (hpage : page < 2 ^ 35) :
    (BitVec.ofNat 64 (page * pageSize)).toNat = page * pageSize := by
  rw [BitVec.toNat_ofNat, mod_eq_of_lt (by rw [pageSize]; omega)]

omit [DecidableEq O] in
lemma exists_replacePage (h : s.Wf) (hp : s.lookup page = some p) (flags : VmFlags)
    (cowObject : Option O) :
    ∃ s', s.replacePage page flags cowObject = some s' ∧ Disjointed s'.mappings ∧
      (∀ i, s'.lookup i =
        if i = page then some (cowObject.elim p fun o => ⟨o, 0, flags, MemoryObject.cacheType o⟩)
        else s.lookup i) ∧
      (∀ i, i ≠ page → s'.table i = s.table i) ∧ s'.allocator.Wf ∧
      (s'.allocator.startPage = 1 ∧ s'.allocator.endPage = 2 ^ 35) ∧
      ∀ i, s'.allocator.IsAllocated i ↔
        cowObject.isSome ∧ i = page ∨ s.allocator.IsAllocated i := by
  have hpage := h.inWindow page (by rw [hp]; rfl)
  cases cowObject with
  | none =>
    refine ⟨s, rfl, h.disjointed, fun i => ?_, fun _ _ => rfl, h.allocator, h.window, by simp⟩
    split_ifs with hi
    · rw [hi]
      exact hp
    · rfl
  | some o =>
    obtain ⟨e, -, hnot⟩ | ⟨s', hs', heff, -⟩ :=
      mapObject_cases h (BitVec.ofNat 64 (page * pageSize)) onePage o flags 0
    · -- the page is in the user half
      refine absurd ⟨?_, rfl, ?_, ?_⟩ hnot
      · rw [isPageAligned, toNat_pageAddr hpage.2, mul_mod_left]
        rfl
      · rw [toNat_pageAddr hpage.2, pageSize]
        omega
      · rw [toNat_pageAddr hpage.2, onePage_toNat, pageSize]
        omega
    have hrange (i : ℕ) : InRange (BitVec.ofNat 64 (page * pageSize)) onePage i ↔ i = page := by
      simp only [InRange, toNat_pageAddr hpage.2, onePage_toNat, pageSize]
      omega
    refine ⟨s', by rw [replacePage, hs', unwrap], heff.disjointed, fun i => ?_, fun i hi => ?_,
      heff.allocator, heff.window, fun i => ?_⟩
    · rw [heff.lookup i]
      simp only [hrange]
      split_ifs with hi
      · have hzero : (0 : BitVec 64).toNat / pageSize + (i - page * pageSize / pageSize) = 0 := by
          rw [Nat.mul_div_cancel page (by decide), hi, Nat.sub_self]
          rfl
        rw [toNat_pageAddr hpage.2, hzero]
        rfl
      · rfl
    · rw [heff.table i, if_neg fun hin => hi ((hrange i).mp hin.1)]
    · simpa [hrange] using heff.allocated i

/-- The handler changes nothing if the mapping has changed; otherwise it installs the page. -/
theorem install_cases (h : s.Wf) (info : PageFaultInfo) (resolved : ResolvedFault O)
    (cowObject : Option O) (phys : PhysAddr) :
    s.install info resolved cowObject phys = some s ∨
      ∃ s' p, s.install info resolved cowObject phys = some s' ∧
        FaultEffect s s' info resolved cowObject phys p := by
  by_cases hvalid : s.stillValid info resolved
  · obtain ⟨m, hm, hchecked⟩ := (any_eq_true _ _).mp hvalid
    simp only [Bool.and_eq_true, decide_eq_true_eq, beq_iff_eq] at hchecked
    obtain ⟨⟨⟨⟨hobject, hpage⟩, -⟩, hcow⟩, hflags⟩ := hchecked
    rw [Nat.add_comm] at hpage
    have hlook : s.lookup info.faultyPage = some (m.pageAt info.faultyPage) := by
      rw [lookup, Mappings.lookup, valueAt, hm, map_some]
    obtain ⟨s', hs', hd, hlook', htable, halloc, hwin, hiff⟩ :=
      exists_replacePage h hlook resolved.mapFlags cowObject
    let t := s'.table.mapSingle info.faultyPage phys resolved.mapFlags resolved.cache
    refine .inr ⟨⟨t, s'.allocator, s'.mappings⟩, m.pageAt info.faultyPage, ?_, hd, hlook,
      ⟨hobject, hpage⟩, hflags, hcow, hlook', fun i => ?_, halloc, hwin, hiff⟩
    · simp only [install, hvalid, Bool.not_true, Bool.false_eq_true, ↓reduceIte, hs', map_some, t]
    · simp only [t, PageTable.mapSingle, Function.update_apply]
      split_ifs with hi
      · rfl
      · exact htable i hi
  · exact .inl (by simp [install, hvalid])

lemma effect_of_install (h : s.Wf) (hcall : s.install info resolved cowObject phys = some s') :
    s' = s ∨ ∃ p, FaultEffect s s' info resolved cowObject phys p := by
  obtain hsame | ⟨s₁, p, hs₁, heff⟩ := install_cases h info resolved cowObject phys
  · exact .inl (some.inj (hcall.symm.trans hsame))
  · obtain rfl := some.inj (hs₁.symm.trans hcall)
    exact .inr ⟨p, heff⟩

omit [DecidableEq O] in
lemma Wf.fault (h : s.Wf) (hcow : cowObject.isSome = resolved.cowWrite)
    (heff : FaultEffect s s' info resolved cowObject phys p) : s'.Wf := by
  refine ⟨heff.disjointed, heff.allocator, heff.window, fun i hi => ?_, fun i hi => ?_,
    fun i q hwrite hq => ?_⟩
  all_goals
    have htable := heff.table i
    have hlook := heff.lookup i
    split_ifs at htable hlook with heq
  · rw [heq]
    exact h.inWindow _ (by rw [heff.mapped]; rfl)
  · exact h.inWindow i (hlook ▸ hi)
  · rw [hlook]
    rfl
  · rw [hlook]
    exact h.present i (htable ▸ hi)
  · have hflag : resolved.mapFlags.write := by
      simpa [htable, allowsWrite] using hwrite
    obtain rfl := some.inj (hlook.symm.trans hq)
    have hflags := heff.flags
    have hcowWrite := heff.cowWrite
    rw [← hcow] at hcowWrite
    rw [PageFaultInfo.mapFlags, hcowWrite] at hflags
    cases cowObject with
    | none =>
      simp only [isSome_none, Bool.false_eq_true, ↓reduceIte] at hflags
      split_ifs at hflags with hc
      · exact absurd hflag (by simp [← hflags, VmFlags.withoutWrite])
      · rw [← hflags] at hflag
        exact ⟨hflag, hc⟩
    | some o =>
      rw [isSome_some] at hflags
      refine ⟨hflag, ?_⟩
      simp [← hflags, VmFlags.withoutCopyOnWrite]
  · exact h.writable i q (htable ▸ hwrite) (hlook ▸ hq)

end

end AddressSpace

end Zinnia
