import Zinnia.Memory.Virt.Mmu.Walk

/-!
# Properties of page tables in memory

The entry of an address is what was last set for it, and the pages that `drop` deallocates are the
tables. `remap_single` does not check that the address is mapped: an empty entry becomes a mapping
of the physical page 0.
-/

namespace Zinnia

open Radix Function List Option Set PageTable Bool

namespace Mmu

open PageTableEntry

/-- The entry that maps an address of a process. -/
def Mapping.entry (mapping : Mapping) : PageTableEntry :=
  .new mapping.phys (mapping.flags.asPte true) mapping.cache 0

variable {mapping : Mapping}

lemma Mapping.address_entry (h : FrameAddr mapping.phys) :
    mapping.entry.address = mapping.phys := by
  rw [entry, address_new, and_addrMask h]

/-- The entry of a page: what it is mapped to, or nothing. -/
def entryOf (mapping : Option Mapping) : PageTableEntry := (mapping.map Mapping.entry).getD .empty

lemma isPresent_entryOf (mapping : Option Mapping) :
    (entryOf mapping).isPresent = mapping.isSome := by
  cases mapping with
  | none => exact isPresent_empty
  | some mapping => exact isPresent_new _ _ _ _ 0

section

variable {total A S : Set ℕ} {len : ℕ} {pmm pmm' : Pmm}

lemma taken_eq (hinv : Pmm.Inv total len pmm A) (hinv' : Pmm.Inv total len pmm' (A ∪ S))
    (hS : ∀ i ∈ S, i ∉ A) : taken pmm pmm' = S := by
  ext i
  rw [taken, mem_ofPred_eq, hinv.isFree_iff, hinv'.isFree_iff]
  constructor
  · rintro ⟨⟨htotal, hA⟩, hfree⟩
    by_contra hi
    exact hfree ⟨htotal, fun h => h.elim hA hi⟩
  · intro hi
    exact ⟨⟨hinv'.subset (.inr hi), hS i hi⟩, fun h => h.2 (.inr hi)⟩

lemma taken_self (pmm : Pmm) : taken pmm pmm = ∅ := by
  simp [taken]

end

lemma PageTable.getPteLocked_eq {t : PageTable} (h : Levels t.rootLevel) (virt : VirtAddr)
    (allocate : Bool) (m : Memory) : t.getPteLocked virt allocate m =
      t.getPteFrom virt allocate (t.rootLevel - 1) (idxFromAddr t.head) m := by
  rw [getPteLocked]
  rcases h with h | h <;> rw [h]

namespace State

/-- The tree of tables is well formed, its leaf entries are what was set, and its pages are the
ones that were allocated for it. -/
structure Valid (mm : MemoryMap) (A : Set ℕ) (s : State) : Prop where
  pmm : Pmm.Inv (registeredPages mm.entries) mm.len s.memory.pmm A
  isUser : s.table.isUser = true
  levels : Levels s.table.rootLevel
  tables_subset : s.tables ⊆ A
  others_subset : s.others ⊆ A
  disjoint : Disjoint s.tables s.others
  tables : ∀ i, i ∈ s.tables ↔ i ∈ (format s.table.rootLevel).nodes s.memory.entries
    (s.table.rootLevel - 1) (idxFromAddr s.table.head)
  nodup : ((format s.table.rootLevel).nodes s.memory.entries
    (s.table.rootLevel - 1) (idxFromAddr s.table.head)).Nodup
  inner : (format s.table.rootLevel).Inner s.memory.entries NoLarge
    (s.table.rootLevel - 1) (idxFromAddr s.table.head)
  read : ∀ virt, UserPage virt → (format s.table.rootLevel).read .empty s.memory.entries
    (index virt) (s.table.rootLevel - 1) (idxFromAddr s.table.head) =
      entryOf (s.mappings (pageOf virt))
  frames : ∀ page mapping, s.mappings page = some mapping → FrameAddr mapping.phys ∧
    ¬ s.memory.pmm.IsFree (idxFromAddr mapping.phys) ∧ idxFromAddr mapping.phys ∉ s.tables

variable {mm : MemoryMap} {A A' : Set ℕ} {s s' : State} {virt : VirtAddr} {pmm : Pmm}
  {rootLevel level : ℕ} {table : PageTable} {memory m : Memory} {Guard : State → VirtAddr → Prop}
  {result : Except PageTableError Unit}

/-- The leaf table of an address. -/
abbrev leaf (s : State) (virt : VirtAddr) : Option ℕ :=
  (format s.table.rootLevel).leaf s.memory.entries (index virt) (s.table.rootLevel - 1)
    (idxFromAddr s.table.head)

namespace Valid

/-! ### Walks -/

section

variable (hv : Valid mm A s)

include hv

lemma inRange (hvirt : UserPage virt) :
    (format s.table.rootLevel).InRange (index virt) (s.table.rootLevel - 1) :=
  inRange_index hv.levels hvirt

/-- A walk that allocates tables keeps what is set. -/
lemma grow {result : Except PageTableError PtePtr} {m' : Memory} {new : List ℕ}
    (hw : Walked s.table virt (registeredPages mm.entries) mm.len A
      (s.table.rootLevel - 1) (idxFromAddr s.table.head) s.memory result m' new) :
    Valid mm (A ∪ {i | i ∈ new}) { s with
      memory := m', tables := s.tables ∪ taken s.memory.pmm m'.pmm } := by
  have htaken : taken s.memory.pmm m'.pmm = {i | i ∈ new} := taken_eq hv.pmm hw.inv hw.fresh
  have hnew : ∀ i ∈ new, i ∉ (format s.table.rootLevel).nodes s.memory.entries
      (s.table.rootLevel - 1) (idxFromAddr s.table.head) :=
    fun i hi hnode => hw.fresh i hi (hv.tables_subset ((hv.tables i).mpr hnode))
  rw [htaken]
  refine ⟨hw.inv, hv.isUser, hv.levels, union_subset_union_left _ hv.tables_subset,
    hv.others_subset.trans subset_union_left, ?_, fun i => ?_,
    hw.grows.nodup hv.nodup hw.nodup hnew, hw.grows.inner, fun virt' hvirt' => ?_, ?_⟩
  · rw [disjoint_union_left]
    refine ⟨hv.disjoint, disjoint_left.mpr fun i hi hother => ?_⟩
    exact hw.fresh i hi (hv.others_subset hother)
  · dsimp only
    rw [hw.grows.perm.mem_iff, mem_append, mem_union, hv.tables]
    rfl
  · dsimp only
    rw [hw.grows.read _ (hv.inRange hvirt'), hv.read virt' hvirt']
  · intro page mapping hmapping
    obtain ⟨hframe, hfree, hnot⟩ := hv.frames page mapping hmapping
    refine ⟨hframe, hv.pmm.not_isFree hw.inv .inl hfree, fun h => h.elim hnot fun h => hfree ?_⟩
    exact (hv.pmm.isFree_iff _).mpr ⟨hw.inv.subset (.inr h), hw.fresh _ h⟩

section

variable (hvirt : UserPage virt)

include hvirt

section

variable {table : ℕ} (hleaf : s.leaf virt = some table) {new : Option Mapping} {e : PageTableEntry}
  (he : e = entryOf new)
  (hnew : ∀ mapping ∈ new, FrameAddr mapping.phys ∧
    ¬ s.memory.pmm.IsFree (idxFromAddr mapping.phys) ∧ idxFromAddr mapping.phys ∉ s.tables)

include hleaf he hnew

/-- The entry at the end of a walk is written. -/
lemma setEntry :
    Valid mm A { s with
      memory := s.memory.write (table, index virt 0) e
      mappings := update s.mappings (pageOf virt) new } := by
  have hidx := hv.inRange hvirt
  have hperm := perm_nodes_write (i := index virt 0) (e := e) hidx hleaf hv.nodup
  refine ⟨hv.pmm, hv.isUser, hv.levels, hv.tables_subset, hv.others_subset, hv.disjoint,
    fun i => ?_, ?_, inner_write hidx hleaf hv.nodup hv.inner, fun virt' hvirt' => ?_, ?_⟩
  · exact (hv.tables i).trans hperm.mem_iff.symm
  · exact hperm.nodup_iff.mpr hv.nodup
  · obtain ⟨hsame, hother⟩ := read_write hidx (hv.inRange hvirt') hleaf
      hv.nodup
    rw [samePath_iff hv.levels hvirt' hvirt] at hsame hother
    dsimp only [Memory.write]
    by_cases hpage : pageOf virt' = pageOf virt
    · rw [hsame hpage, hpage, update_self, he]
    · rw [hother hpage, update_of_ne hpage, hv.read virt' hvirt']
  · intro page mapping hmapping
    dsimp only at hmapping
    rw [update_apply] at hmapping
    split_ifs at hmapping
    · exact hnew mapping hmapping
    · exact hv.frames page mapping hmapping

/-- A call that allocates no tables and writes the entry of an address. -/
lemma after_write :
    Valid mm A (s.after virt new (.ok ()) (s.memory.write (table, index virt 0) e)) := by
  have htaken : taken s.memory.pmm (s.memory.write (table, index virt 0) e).pmm = ∅ :=
    taken_self s.memory.pmm
  rw [after, htaken, union_empty]
  exact hv.setEntry hvirt hleaf he hnew

end

/-- A walk that allocates no tables. -/
lemma getPte_false : s.table.getPteLocked virt false s.memory =
    some (found virt (s.leaf virt), s.memory) := by
  rw [PageTable.getPteLocked_eq hv.levels, getPteFrom_false, findPte_eq (hv.inRange hvirt) hv.inner]

lemma read_leaf {table : ℕ} (hleaf : s.leaf virt = some table) :
    s.memory.read (table, index virt 0) = entryOf (s.mappings (pageOf virt)) :=
  (read_of_leaf hleaf).symm.trans (hv.read virt hvirt)

lemma mappings_eq_none (hleaf : s.leaf virt = none) : s.mappings (pageOf virt) = none := by
  have hpresent := isPresent_entryOf (s.mappings (pageOf virt))
  rw [← hv.read virt hvirt, read_of_none hleaf] at hpresent
  exact isSome_eq_false_iff.mp hpresent.symm |> isNone_iff_eq_none.mp

lemma lookup_eq : s.table.lookup virt s.memory = (s.mappings (pageOf virt)).map Mapping.entry := by
  rw [PageTable.lookup, hv.getPte_false hvirt]
  cases hleaf : s.leaf virt with
  | none =>
    rw [hv.mappings_eq_none hvirt hleaf]
    rfl
  | some table =>
    dsimp only [found]
    rw [hv.read_leaf hvirt hleaf, isPresent_entryOf]
    cases s.mappings (pageOf virt) with
    | none => rfl
    | some mapping => rfl

lemma getMapping_cases :
    s.table.getMapping virt s.memory = some (.ok ((s.mappings (pageOf virt)).map Mapping.phys)) ∨
      s.table.getMapping virt s.memory = some (.error .needAllocation) ∧
        s.mappings (pageOf virt) = none := by
  rw [PageTable.getMapping, hv.getPte_false hvirt, bind_eq_bind, bind_some]
  cases hleaf : s.leaf virt with
  | none => exact .inr ⟨rfl, hv.mappings_eq_none hvirt hleaf⟩
  | some table =>
    left
    dsimp only [found]
    rw [hv.read_leaf hvirt hleaf, isPresent_entryOf]
    cases hmapping : s.mappings (pageOf virt) with
    | none => rfl
    | some mapping =>
      rw [entryOf, map_some, getD_some, Mapping.address_entry (hv.frames _ mapping hmapping).1]
      rfl

end

end

/-! ### Calls -/

lemma mapSingle (hv : Valid mm A s) (hlen : mm.len ≤ 2 ^ 40) (hvirt : UserPage virt)
    {phys : PhysAddr} {flags : VmFlags} {cache : VmCacheType} (hphys : FrameAddr phys)
    (hfree : ¬ s.memory.pmm.IsFree (idxFromAddr phys)) (htable : idxFromAddr phys ∉ s.tables) :
    ∃ result m A', s.table.mapSingle virt phys flags cache s.memory = some (result, m) ∧
      Valid mm A' (s.after virt (some ⟨phys, flags, cache⟩) result m) := by
  obtain ⟨result, m, new, hcall, hw⟩ := getPteFrom_true mm.registeredPages_subset hlen
    (hv.inRange hvirt) hv.pmm hv.inner hv.nodup
    fun i hi => hv.tables_subset ((hv.tables i).mpr hi)
  rw [← PageTable.getPteLocked_eq hv.levels] at hcall
  have hgrow := hv.grow hw
  rw [PageTable.mapSingle, PageTable.withPte, hcall, bind_eq_bind]
  rcases hw.result with rfl | ⟨table, rfl, hleaf⟩
  · exact ⟨_, m, _, rfl, hgrow⟩
  · refine ⟨_, _, _, rfl, hgrow.setEntry hvirt hleaf ?_ ?_⟩
    · rw [hv.isUser]
      rfl
    · rintro mapping ⟨⟩
      exact ⟨hphys, hv.pmm.not_isFree hw.inv .inl hfree, fun h => h.elim htable fun h => hfree h.1⟩

/-- A call that fails without allocating tables changes nothing. -/
lemma after_error (s : State) (virt : VirtAddr) (new : Option Mapping) (e : PageTableError) :
    s.after virt new (.error e) s.memory = s := by
  rw [after, taken_self, union_empty]

section

variable (hv : Valid mm A s) (hvirt : UserPage virt)

include hv hvirt

lemma remapSingle (hmapped : s.table.isMapped virt s.memory) (flags : VmFlags) :
    ∃ result m, s.table.remapSingle virt flags s.memory = some (result, m) ∧
      Valid mm A (s.after virt ((s.mappings (pageOf virt)).map ({ · with flags })) result m) := by
  rw [PageTable.isMapped, hv.lookup_eq hvirt, isSome_map] at hmapped
  obtain ⟨mapping, hmapping⟩ := Option.isSome_iff_exists.mp hmapped
  rw [PageTable.remapSingle, PageTable.withPte, hv.getPte_false hvirt, bind_eq_bind]
  cases hleaf : s.leaf virt with
  | none => exact ⟨_, s.memory, rfl, by rw [after_error]; exact hv⟩
  | some table =>
    have hframes := hv.frames _ mapping hmapping
    refine ⟨_, _, rfl, hv.after_write hvirt hleaf ?_ ?_⟩
    · rw [hv.read_leaf hvirt hleaf, hv.isUser, hmapping]
      -- the frame and the caching mode are kept
      change PageTableEntry.new mapping.entry.address _ mapping.entry.cacheType 0 = _
      rw [Mapping.address_entry hframes.1, Mapping.entry, cacheType_new]
      rfl
    · rw [hmapping]
      rintro mapping' ⟨⟩
      exact hframes

lemma unmapSingle_eq : s.table.unmapSingle virt s.memory =
      match found virt (s.leaf virt) with
      | .error e => (.error e, s.memory)
      | .ok pte => (.ok (), s.memory.write pte .empty) := by
  obtain ⟨level, hlevel⟩ : ∃ level, s.table.rootLevel = level + 1 :=
    hv.levels.elim (⟨3, ·⟩) (⟨4, ·⟩)
  rw [← findPte_eq (hv.inRange hvirt) hv.inner, hlevel, Nat.add_sub_cancel]
  cases hpte : PageTable.findPte s.memory virt level (idxFromAddr s.table.head) <;>
    simp only [PageTable.unmapSingle, hlevel, hpte]

lemma unmapSingle :
    Valid mm A (s.after virt none (s.table.unmapSingle virt s.memory).1
      (s.table.unmapSingle virt s.memory).2) := by
  rw [hv.unmapSingle_eq hvirt]
  cases hleaf : s.leaf virt with
  | none =>
    dsimp only [found]
    rw [after_error]
    exact hv
  | some table => exact hv.after_write hvirt hleaf rfl (by rintro _ ⟨⟩)

end

/-! ### The rest of the kernel -/

lemma writeOthers (hv : Valid mm A s) {entries : ℕ → ℕ → PageTableEntry}
    (hentries : ∀ i ∈ s.tables, entries i = s.memory.entries i) :
    Valid mm A { s with memory := { s.memory with entries } } := by
  have hsame : ∀ i ∈ (format s.table.rootLevel).nodes s.memory.entries
      (s.table.rootLevel - 1) (idxFromAddr s.table.head), entries i = s.memory.entries i :=
    fun i hi => hentries i ((hv.tables i).mpr hi)
  have hnodes := nodes_congr hsame
  refine ⟨hv.pmm, hv.isUser, hv.levels, hv.tables_subset, hv.others_subset, hv.disjoint,
    fun i => ?_, ?_, inner_congr hsame hv.inner, fun virt hvirt => ?_, hv.frames⟩
  · dsimp only
    rw [hnodes, hv.tables]
  · dsimp only
    rw [hnodes]
    exact hv.nodup
  · dsimp only
    rw [read_congr (hv.inRange hvirt) hsame, hv.read virt hvirt]

variable {addr : PhysAddr}

lemma otherAlloc (hv : Valid mm A s) {n : Usize} {flags : AllocFlags}
    (halloc : s.memory.pmm.alloc n flags = some (.ok addr, pmm)) :
    Valid mm (A ∪ pageRange addr n.toNat) { s with
      memory := { s.memory with pmm }, others := s.others ∪ pageRange addr n.toNat } := by
  obtain ⟨hdisj, hinv⟩ := hv.pmm.of_alloc halloc
  refine ⟨hinv, hv.isUser, hv.levels, hv.tables_subset.trans subset_union_left,
    union_subset_union_left _ hv.others_subset, ?_, hv.tables, hv.nodup, hv.inner, hv.read, ?_⟩
  · rw [disjoint_union_right]
    exact ⟨hv.disjoint, (hdisj.mono_right hv.tables_subset).symm⟩
  · intro page mapping hmapping
    obtain ⟨hframe, hfree, hnot⟩ := hv.frames page mapping hmapping
    exact ⟨hframe, hv.pmm.not_isFree hinv .inl hfree, hnot⟩

lemma otherDealloc (hv : Valid mm A s) {n : ℕ} (hsub : pageRange addr n ⊆ s.others)
    (hmapped : ∀ page mapping, s.mappings page = some mapping →
      idxFromAddr mapping.phys ∉ pageRange addr n)
    (hdealloc : s.memory.pmm.deallocInner addr n = some pmm) :
    Valid mm (A \ pageRange addr n) { s with
      memory := { s.memory with pmm }, others := s.others \ pageRange addr n } := by
  obtain ⟨pmm', hpmm', hinv⟩ := hv.pmm.dealloc mm.registeredPages_subset
    (hsub.trans hv.others_subset)
  rw [hdealloc] at hpmm'
  cases hpmm'
  refine ⟨hinv, hv.isUser, hv.levels, ?_, sdiff_subset_sdiff_left hv.others_subset,
    hv.disjoint.mono_right sdiff_subset, hv.tables, hv.nodup, hv.inner, hv.read, ?_⟩
  · exact subset_sdiff.mpr ⟨hv.tables_subset, hv.disjoint.mono_right hsub⟩
  · intro page mapping hmapping
    obtain ⟨hframe, hfree, hnot⟩ := hv.frames page mapping hmapping
    have hstays : idxFromAddr mapping.phys ∈ A → idxFromAddr mapping.phys ∈ A \ pageRange addr n :=
      fun hA => ⟨hA, hmapped page mapping hmapping⟩
    exact ⟨hframe, hv.pmm.not_isFree hinv hstays hfree, hnot⟩

end Valid

/-! ### Runs -/

lemma Valid.newUser (hinv : Pmm.Inv (registeredPages mm.entries) mm.len pmm A)
    (hlen : mm.len ≤ 2 ^ 40) (hlevels : Levels rootLevel) {kernelHead : ℕ → PageTableEntry}
    (hkernel : ∀ i < 2 ^ levelBits / 2, (kernelHead i).isPresent = false)
    {entries : ℕ → ℕ → PageTableEntry}
    (hnew : PageTable.newUser kernelHead rootLevel ⟨pmm, entries⟩ = some (table, memory)) :
    ∃ A', Valid mm A' ⟨table, memory, fun _ => none, taken pmm memory.pmm, A⟩ := by
  rcases Memory.allocTable_cases (m := ⟨pmm, entries⟩) mm.registeredPages_subset hlen hinv with
    herr | ⟨addr, pmm', hok, haddr, hfresh, hinv'⟩
  · rw [PageTable.newUser, herr] at hnew
    cases hnew
  · rw [PageTable.newUser, hok] at hnew
    cases hnew
    have htaken : taken pmm pmm' = {idxFromAddr addr} :=
      taken_eq hinv hinv' fun i hi => (mem_singleton_iff.mp hi) ▸ hfresh
    obtain ⟨level, rfl⟩ : ∃ level, rootLevel = level + 2 := by
      rcases hlevels with rfl | rfl
      · exact ⟨2, rfl⟩
      · exact ⟨3, rfl⟩
    have hchild : ∀ i < (format (level + 2)).fanout (level + 1),
        NoLarge (kernelHead i) ∧ (format (level + 2)).child (kernelHead i) = none := by
      intro i hi
      rw [show (format (level + 2)).fanout (level + 1) = 256 from if_pos rfl] at hi
      have hpresent := hkernel i hi
      have hlarge : NoLarge (kernelHead i) := fun h => absurd (hpresent.symm.trans h) nofun
      exact ⟨hlarge, (child_eq _ hlarge).trans (if_neg (by rw [hpresent]; exact nofun))⟩
    generalize update entries (idxFromAddr addr) (fun _ => PageTableEntry.empty) = empty
    have hhead : update empty (idxFromAddr addr) kernelHead (idxFromAddr addr) =
        kernelHead := update_self _ _ _
    generalize update empty (idxFromAddr addr) kernelHead = entries' at hhead ⊢
    rw [← hhead] at hchild
    have hnodes : (format (level + 2)).nodes entries' (level + 1) (idxFromAddr addr) =
        [idxFromAddr addr] := nodes_of_none fun i hi => (hchild i hi).2
    rw [htaken]
    refine ⟨A ∪ {idxFromAddr addr}, hinv', rfl, hlevels, subset_union_right,
      subset_union_left, disjoint_singleton_left.mpr hfresh, fun i => ?_, ?_,
      inner_of_none (fun i hi => (hchild i hi).2) fun i hi => (hchild i hi).1, ?_, nofun⟩
    · rw [show level + 2 - 1 = level + 1 from rfl, hnodes]
      exact mem_singleton.symm
    · rw [show level + 2 - 1 = level + 1 from rfl, hnodes]
      exact nodup_singleton _
    · intro virt hvirt
      refine read_succ_of_none (hchild _ ?_).2
      exact inRange_index hlevels hvirt _ level.succ_pos le_rfl

lemma Valid.step (hlen : mm.len ≤ 2 ^ 40) (hv : Valid mm A s)
    (hstep : Step (fun s virt => s.table.isMapped virt s.memory) s s') : ∃ A', Valid mm A' s' := by
  cases hstep with
  | map virt phys flags cache hvirt hphys hfree htable hcall =>
    obtain ⟨result, m, A', hok, hv'⟩ := hv.mapSingle hlen hvirt hphys hfree htable
    cases hcall.symm.trans hok
    exact ⟨A', hv'⟩
  | remap virt flags hvirt hmapped hcall =>
    obtain ⟨result, m, hok, hv'⟩ := hv.remapSingle hvirt hmapped flags
    cases hcall.symm.trans hok
    exact ⟨A, hv'⟩
  | unmap virt hvirt hcall =>
    have hv' := hv.unmapSingle hvirt
    rw [hcall] at hv'
    exact ⟨A, hv'⟩
  | write entries hentries => exact ⟨A, hv.writeOthers hentries⟩
  | otherAlloc pages flags halloc => exact ⟨_, hv.otherAlloc halloc⟩
  | otherDealloc pages hsub hmapped hdealloc => exact ⟨_, hv.otherDealloc hsub hmapped hdealloc⟩

lemma Reachable.valid {pmm₀ : Pmm} (hinit : mm.init = some pmm₀) (hlen : mm.len ≤ 2 ^ 40)
    (hr : Reachable (fun s virt => s.table.isMapped virt s.memory) pmm₀ s) :
    ∃ A, Valid mm A s := by
  induction hr with
  | newUser hrun hlevels hkernel hnew =>
    obtain ⟨p, hp, hinv⟩ := Pmm.exists_init mm
    cases hinit.symm.trans hp
    exact Valid.newUser (hinv.run mm.registeredPages_subset hrun) hlen hlevels hkernel hnew
  | step _ hstep ih =>
    obtain ⟨A, hv⟩ := ih
    exact hv.step hlen hstep

/-! ### Dropping -/

/-- What `drop` does for one entry of a table. -/
lemma map_freeEntry {e : PageTableEntry} (he : NoLarge e) (h : e.isPresent →
      (PageTable.freeSubtree m level e.address ++ [e.address]).map idxFromAddr =
        (format rootLevel).nodes m.entries level (idxFromAddr e.address)) :
    (if !e.isPresent || !e.isDirectory (level + 1) then []
      else PageTable.freeSubtree m level e.address ++ [e.address]).map idxFromAddr =
      (format rootLevel).sub m.entries level e := by
  have hchild := child_eq rootLevel he
  by_cases hpresent : e.isPresent
  · rw [if_pos hpresent] at hchild
    rw [hpresent, isDirectory_of_noLarge he hpresent, sub_of_child hchild]
    exact h hpresent
  · rw [if_neg hpresent] at hchild
    rw [eq_false_iff.mpr hpresent, sub_of_none hchild]
    rfl

lemma map_freeSubtree (hlevel : level < rootLevel - 1) {addr : PhysAddr}
    (hinner : (format rootLevel).Inner m.entries NoLarge level (idxFromAddr addr)) :
    (PageTable.freeSubtree m level addr ++ [addr]).map idxFromAddr =
      (format rootLevel).nodes m.entries level (idxFromAddr addr) := by
  induction level generalizing addr with
  | zero => rfl
  | succ level ih =>
    have hfanout : (format rootLevel).fanout (level + 1) = 2 ^ levelBits := if_neg hlevel.ne
    rw [nodes_succ, hfanout, map_append, PageTable.freeSubtree, map_flatMap,
      map_singleton, append_cancel_right_eq]
    refine flatMap_congr fun i hi => ?_
    obtain ⟨he, hbelow⟩ := hinner i (by rw [hfanout]; exact List.mem_range.mp hi)
    refine map_freeEntry he fun hpresent => ih (by omega) (hbelow _ ?_)
    exact (child_eq _ he).trans (if_pos hpresent)

/-- `drop` deallocates the pages of the tree, in post-order. -/
lemma Valid.map_dropped (hv : Valid mm A s) :
    (s.table.dropped s.memory).map idxFromAddr = (format s.table.rootLevel).nodes s.memory.entries
      (s.table.rootLevel - 1) (idxFromAddr s.table.head) := by
  have hinner := hv.inner
  obtain ⟨level, hlevel⟩ : ∃ level, s.table.rootLevel - 1 = level + 1 := by
    rcases hv.levels with h | h
    · exact ⟨2, by rw [h]⟩
    · exact ⟨3, by rw [h]⟩
  have hfanout : (format s.table.rootLevel).fanout (level + 1) = 2 ^ levelBits / 2 :=
    if_pos hlevel.symm
  rw [PageTable.dropped, hv.isUser]
  rw [hlevel] at hinner ⊢
  rw [nodes_succ, hfanout]
  rw [if_neg nofun, map_append, map_flatMap, map_singleton, append_cancel_right_eq]
  refine flatMap_congr fun i hi => ?_
  obtain ⟨he, hbelow⟩ := hinner i (by rw [hfanout]; exact mem_range.mp hi)
  refine map_freeEntry he fun hpresent => map_freeSubtree (by omega) (hbelow _ ?_)
  exact (child_eq _ he).trans (if_pos hpresent)

/-- A lookup returns what was last set for an address, and `drop` deallocates every table once, and
nothing else. -/
structure Correct (s : State) : Prop where
  lookup : ∀ virt, UserPage virt →
    s.table.lookup virt s.memory = (s.mappings (pageOf virt)).map Mapping.entry
  getMapping : ∀ virt, UserPage virt →
    s.table.getMapping virt s.memory = some (.ok ((s.mappings (pageOf virt)).map Mapping.phys)) ∨
      s.table.getMapping virt s.memory = some (.error .needAllocation) ∧
        s.mappings (pageOf virt) = none
  nodup : ((s.table.dropped s.memory).map idxFromAddr).Nodup
  dropped : ∀ i, i ∈ (s.table.dropped s.memory).map idxFromAddr ↔ i ∈ s.tables
  keeps : ∀ page mapping, s.mappings page = some mapping → idxFromAddr mapping.phys ∉ s.tables
  drop : ∃ m, s.table.drop s.memory = some m ∧
    ∀ i, m.pmm.IsFree i ↔ s.memory.pmm.IsFree i ∨ i ∈ s.tables

lemma Valid.drop (hv : Valid mm A s) : ∃ m, s.table.drop s.memory = some m ∧
    ∀ i, m.pmm.IsFree i ↔ s.memory.pmm.IsFree i ∨ i ∈ s.tables := by
  have hmem : ∀ i, i ∈ (s.table.dropped s.memory).map idxFromAddr ↔ i ∈ s.tables := fun i => by
    rw [hv.map_dropped, hv.tables]
  obtain ⟨pmm, hpmm, hinv⟩ := hv.pmm.foldlM_dealloc mm.registeredPages_subset
    (hv.map_dropped ▸ hv.nodup) fun i hi => hv.tables_subset ((hmem i).mp hi)
  refine ⟨{ s.memory with pmm }, by rw [PageTable.drop, hpmm]; rfl, fun i => ?_⟩
  rw [hinv.isFree_iff, hv.pmm.isFree_iff, mem_sdiff, mem_ofPred_eq, hmem]
  have htotal : i ∈ s.tables → i ∈ registeredPages mm.entries :=
    fun hi => hv.pmm.subset (hv.tables_subset hi)
  tauto

/-- In every run in which only mapped addresses are remapped: a lookup returns the frame and the
flags that were last set, and `drop` frees the tables. -/
theorem Reachable.correct_of_isMapped {pmm₀ : Pmm} (hinit : mm.init = some pmm₀)
    (hlen : mm.len ≤ 2 ^ 40)
    (hr : Reachable (fun s virt => s.table.isMapped virt s.memory) pmm₀ s) : s.Correct := by
  obtain ⟨A, hv⟩ := hr.valid hinit hlen
  refine ⟨fun virt hvirt => hv.lookup_eq hvirt, fun virt hvirt => hv.getMapping_cases hvirt, ?_,
    fun i => ?_, fun page mapping hmapping => (hv.frames page mapping hmapping).2.2, hv.drop⟩
  · rw [hv.map_dropped]
    exact hv.nodup
  · rw [hv.map_dropped, hv.tables]

lemma notMem_fivePages {i : ℕ} (hi : 6 ≤ i) : i ∉ registeredPages fivePages.entries := by
  rintro ⟨e, he, -, hmem⟩
  rw [mem_singleton.mp he] at hmem
  exact absurd hmem.2 (not_lt.mpr hi)

/-- A new page table, with its memory. -/
def fresh (pmm : Pmm) : Option (PageTable × Memory) :=
  PageTable.newUser (fun _ => .empty) 4 ⟨pmm, fun _ _ => .empty⟩

lemma reachable_fresh (h : fresh pmm = some (table, memory)) :
    Reachable Guard pmm ⟨table, memory, fun _ => none, taken pmm memory.pmm, ∅⟩ :=
  .newUser .refl (.inl rfl) (fun _ _ => isPresent_empty) h

/-- A device page is mapped in a new page table. -/
lemma reachable_mapSingle {flags : VmFlags} (hinit : fivePages.init = some pmm)
    (h : fresh pmm = some (table, memory))
    (hmap : table.mapSingle 0x1000 0x8000 flags .uncacheable memory = some (result, m)) :
    Reachable Guard pmm (State.after ⟨table, memory, fun _ => none, taken pmm memory.pmm, ∅⟩ 0x1000
      (some ⟨0x8000, flags, .uncacheable⟩) result m) := by
  obtain ⟨p, hp, hinv⟩ := Pmm.exists_init fivePages
  cases hinit.symm.trans hp
  have hfresh : Reachable (fun s virt => s.table.isMapped virt s.memory) pmm _ :=
    reachable_fresh h
  obtain ⟨A, hv⟩ := hfresh.valid hinit (by decide)
  have hdevice : idxFromAddr 0x8000 ∉ registeredPages fivePages.entries :=
    notMem_fivePages (by decide)
  refine (reachable_fresh h).step (.map 0x1000 0x8000 flags .uncacheable ?_ ?_ ?_ ?_ hmap)
  · exact ⟨by decide, by decide⟩
  · exact ⟨by decide, by decide⟩
  · exact fun hfree => hdevice ((hv.pmm.isFree_iff _).mp hfree).1
  · exact fun htable => hdevice ((hinv.isFree_iff _).mp htable.1).1

lemma eq_ok_of_isOk (h : result.isOk) : result = .ok () := by
  cases result with
  | error e => cases h
  | ok _ => rfl

theorem correct_remapped : ∃ pmm s, fivePages.init = some pmm ∧
      Reachable (fun s virt => s.table.isMapped virt s.memory) pmm s ∧
      s.mappings 1 = some ⟨0x8000, { read := true }, .uncacheable⟩ ∧ s.Correct := by
  have hrun : (fivePages.init.any fun pmm =>
      (fresh pmm).any fun r =>
        (r.1.mapSingle 0x1000 0x8000 { write := true } .uncacheable r.2).any fun r₁ =>
          r₁.1.isOk && r.1.isMapped 0x1000 r₁.2 &&
            (r.1.remapSingle 0x1000 { read := true } r₁.2).any fun r₂ => r₂.1.isOk) = true := by
    decide +kernel
  obtain ⟨pmm, hinit, hrun⟩ := (any_eq_true _ _).mp hrun
  obtain ⟨⟨table, memory⟩, hfresh, hrun⟩ := (any_eq_true _ _).mp hrun
  obtain ⟨⟨result₁, m₁⟩, hmap, hrun⟩ := (any_eq_true _ _).mp hrun
  obtain ⟨hrun, hremap⟩ := and_eq_true_iff.mp hrun
  obtain ⟨hok₁, hmapped⟩ := and_eq_true_iff.mp hrun
  obtain ⟨⟨result₂, m₂⟩, hremap, hok₂⟩ := (any_eq_true _ _).mp hremap
  obtain rfl := eq_ok_of_isOk hok₁
  obtain rfl := eq_ok_of_isOk hok₂
  have hreach : Reachable (fun s virt => s.table.isMapped virt s.memory) pmm _ :=
    (reachable_mapSingle hinit hfresh hmap).step
      (.remap 0x1000 { read := true } ⟨by decide, by decide⟩ hmapped hremap)
  exact ⟨pmm, _, hinit, hreach, rfl, hreach.correct_of_isMapped hinit (by decide)⟩

/-- An address that was unmapped is mapped to page 0 by `remap_single`. -/
theorem not_correct_remapped : ∃ pmm s, fivePages.init = some pmm ∧
      Reachable (fun _ _ => True) pmm s ∧ s.mappings 1 = none ∧
      (s.table.lookup 0x1000 s.memory).map (·.address) = some 0 ∧ ¬ s.Correct := by
  have hrun : (fivePages.init.any fun pmm =>
      (fresh pmm).any fun r =>
        (r.1.mapSingle 0x1000 0x8000 { write := true } .uncacheable r.2).any fun r₁ =>
          (r.1.unmapSingle 0x1000 r₁.2).1.isOk &&
            (r.1.remapSingle 0x1000 { read := true } (r.1.unmapSingle 0x1000 r₁.2).2).any fun r₂ =>
              r₂.1.isOk && (r.1.lookup 0x1000 r₂.2).map (·.address) == some 0) = true := by
    decide +kernel
  obtain ⟨pmm, hinit, hrun⟩ := (any_eq_true _ _).mp hrun
  obtain ⟨⟨table, memory⟩, hfresh, hrun⟩ := (any_eq_true _ _).mp hrun
  obtain ⟨⟨result₁, m₁⟩, hmap, hrun⟩ := (any_eq_true _ _).mp hrun
  obtain ⟨hok, hremap⟩ := and_eq_true_iff.mp hrun
  obtain ⟨⟨result₃, m₃⟩, hremap, hrun⟩ := (any_eq_true _ _).mp hremap
  obtain ⟨hok₃, hlookup⟩ := and_eq_true_iff.mp hrun
  obtain rfl := eq_ok_of_isOk hok₃
  have hreach : Reachable (fun _ _ => True) pmm _ :=
    ((reachable_mapSingle hinit hfresh hmap).step
      (.unmap 0x1000 ⟨by decide, by decide⟩ (Prod.ext (eq_ok_of_isOk hok) rfl))).step
        (.remap 0x1000 { read := true } ⟨by decide, by decide⟩ trivial hremap)
  have hlookup := beq_iff_eq.mp hlookup
  refine ⟨pmm, _, hinit, hreach, rfl, hlookup, fun hcorrect => ?_⟩
  have hnone : table.lookup 0x1000 m₃ = none := hcorrect.lookup 0x1000 ⟨by decide, by decide⟩
  rw [hnone] at hlookup
  cases hlookup

end State

end Mmu

end Zinnia
