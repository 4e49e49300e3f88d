import Zinnia.Memory.Slab.Invariant

/-!
# Properties of the kernel heap

Along every run, the counters, the free lists and the partial lists agree with the live allocations,
live allocations do not overlap, and a pointer is recognised when it is freed. Pointers are aligned
as requested up to the size of a page. Whole pages are only aligned to the size of a page.
-/

namespace Zinnia

open Function Option Set

namespace Heap

variable {m : MemoryMap} {pages : ℕ → Option (Fin 8)} {A A' : Set ℕ} {h h' : Heap}
  {Guard : Layout → Prop} {pmm : Pmm}

namespace Valid

/-! ### Whole pages -/

section

variable {ptr idx : ℕ} {layout : Layout}

/-- An update that concerns no slots. -/
lemma frame (hv : Valid m pages A h)
    (hinv : Pmm.Inv (registeredPages m.entries) m.len h'.allocator.pmm A')
    (howns : Owns (footprint pages h') A') (hheaders : h'.allocator.headers = h.allocator.headers)
    (hnext : h'.allocator.next = h.allocator.next)
    (hlists : h'.allocator.partialPages = h.allocator.partialPages)
    (hslots : ∀ p, (∀ i, pagePtr i ≠ p) → h'.live p = h.live p)
    (hlarge : ∀ i layout, h'.live (pagePtr i) = some layout →
      0 < layout.size ∧ Placed pages h' (pagePtr i) layout) :
    Valid m pages A' h' := by
  refine ⟨hinv, howns, ?_, hlists ▸ hv.nodup, hlists ▸ hv.listed, ?_⟩
  · intro idx slab hidx
    obtain ⟨free, hs⟩ := hv.slabs idx slab hidx
    refine ⟨free, hs.congr (by rw [hheaders]) (fun _ _ => by rw [hnext]) ?_ (by rw [hlists])⟩
    exact fun p hp => hslots p (pagePtr_ne_slot hp)
  · intro p layout hp
    by_cases hpage : ∃ i, pagePtr i = p
    · obtain ⟨i, rfl⟩ := hpage
      exact hlarge i layout hp
    · push Not at hpage
      obtain ⟨hsize, hplaced⟩ := hv.live p layout (hslots p hpage ▸ hp)
      refine ⟨hsize, hplaced.imp (fun _ _ hi _ => hi) fun i _ hi => ?_⟩
      exact absurd hi.symm (hpage (i + 1))

/-- The pages of an allocation of whole pages. -/
lemma footprint_large (pages : ℕ → Option (Fin 8)) (hp : h.live (pagePtr (idx + 1)) = some layout)
    (hslab : layout.slab? = none) :
    footprint pages h (.large (pagePtr (idx + 1))) = Ico idx (idx + (layout.pages + 1)) := by
  ext i
  constructor
  · rintro ⟨layout', idx', hp', -, hptr, hi⟩
    obtain rfl := some.inj (hp.symm.trans hp')
    obtain rfl := Nat.succ_injective (pagePtr_injective hptr)
    exact hi
  · intro hi
    exact ⟨layout, idx, hp, hslab, rfl, hi⟩

/-- Fresh whole pages, the first of them for the size. -/
lemma addLarge (hv : Valid m pages A h) (hsize : 0 < layout.size) (hslab : layout.slab? = none)
    {pmm : Pmm} (hdisj : Disjoint (Ico idx (idx + (layout.pages + 1))) A)
    (hinv : Pmm.Inv (registeredPages m.entries) m.len pmm
      (A ∪ Ico idx (idx + (layout.pages + 1))))
    (infos : ℕ → SlabInfo) (hinfo : (infos (pagePtr idx)).numPages = layout.pages)
    (hinfos : ∀ i ≠ idx, infos (pagePtr i) = h.allocator.infos (pagePtr i)) :
    Valid m pages (A ∪ Ico idx (idx + (layout.pages + 1)))
      ⟨{ h.allocator with pmm, infos },
        update h.live (pagePtr (idx + 1)) (some layout), h.others⟩ := by
  refine hv.frame hinv (hv.owns.acquire (o := .large (pagePtr (idx + 1))) hdisj ?_ ?_) rfl rfl rfl
    (fun p hp => update_of_ne (hp _).symm _ _) ?_
  · rintro (i | ptr | _) hne
    · exact subset_rfl
    · rintro i ⟨layout', idx', hptr, hslab', rfl, hi⟩
      have hne' : pagePtr (idx' + 1) ≠ pagePtr (idx + 1) :=
        fun heq => hne (congrArg Owner.large heq)
      dsimp only at hptr
      rw [update_of_ne hne'] at hptr
      exact ⟨layout', idx', hptr, hslab', rfl, hi⟩
    · exact subset_rfl
  · rw [footprint_large pages (update_self _ _ _) hslab]
    exact subset_union_right
  · intro i layout' hlive
    dsimp only at hlive
    rw [update_apply] at hlive
    split_ifs at hlive with heq
    · cases hlive
      refine ⟨hsize, ?_⟩
      rw [Placed, hslab, heq]
      exact ⟨idx, rfl, hinfo⟩
    · obtain ⟨hsize', hplaced⟩ := hv.live _ _ hlive
      refine ⟨hsize', hplaced.imp (fun _ _ hi _ => hi) fun idx' _ hptr => hinfos idx' ?_⟩
      rintro rfl
      exact heq hptr

lemma largeAlloc (hv : Valid m pages A h) (hsize : 0 < layout.size) (hslab : layout.slab? = none) :
    h.allocator.largeAlloc layout = some (0, h.allocator) ∨
    ∃ ptr a', h.allocator.largeAlloc layout = some (ptr, a') ∧ ptr ≠ 0 ∧ h.live ptr = none ∧
      ∃ A, Valid m pages A ⟨a', update h.live ptr (some layout), h.others⟩ := by
  have hpages := layout.pages_eq
  have hcount : (BitVec.ofNat 64 layout.pages + 1 : Usize).toNat = layout.pages + 1 := by
    have hle := layout.size_le
    rw [BitVec.toNat_add, BitVec.toNat_ofNat, show (1 : Usize).toNat = 1 from rfl]
    omega
  rcases hv.pmm.alloc (BitVec.ofNat 64 layout.pages + 1) {} with
    herr | ⟨mem, pmm, hok, halign, hdisj, hinv⟩
  · left
    rw [Layout.pages] at herr
    simp only [SlabAllocator.largeAlloc, herr]
    rfl
  · right
    rw [hcount, pageRange] at hdisj hinv
    have hlarge := hv.addLarge hsize hslab hdisj hinv
      (update h.allocator.infos mem.asHhdm ⟨layout.pages, layout.size⟩) ?_ ?_
    refine ⟨_, _, ?_, pagePtr_ne_zero _, ?_, _, hlarge⟩
    · rw [Layout.pages] at hok
      simp only [SlabAllocator.largeAlloc, hok, bind_eq_bind]
      rw [pagePtr_succ, ← asHhdm_eq halign]
      rfl
    · refine hv.live_eq_none (Set.disjoint_left.mp hdisj ⟨Nat.le_succ _, by omega⟩) ?_
      rw [Nat.div_mul_cancel (pageSize_dvd_pagePtr _)]
    · rw [asHhdm_eq halign, update_self]
    · intro i hi
      rw [asHhdm_eq halign, update_of_ne (pagePtr_injective.ne hi)]

/-- The pages of an allocation and the page for its size are handed back. -/
lemma largeFree (hv : Valid m pages A h) (hp : h.live ptr = some layout)
    (hslab : layout.slab? = none) :
    ∃ a', h.allocator.dealloc ptr = some a' ∧
      ∃ A, Valid m pages A ⟨a', update h.live ptr none, h.others⟩ := by
  obtain ⟨idx, rfl, hnum⟩ := hv.placed_large hp hslab
  have hfoot := footprint_large pages hp hslab
  have hidx : idx ∈ A := hv.owns.subset _ (hfoot ▸ Set.left_mem_Ico.mpr (by omega))
  have hrange : pageRange (ofHhdm (pagePtr idx)) (layout.pages + 1) =
      Ico idx (idx + (layout.pages + 1)) := by
    rw [pageRange, idxFromAddr_ofHhdm (hv.lt_of_mem hidx)]
  obtain ⟨pmm, hpmm, hinv⟩ := hv.pmm.dealloc m.registeredPages_subset
    (hrange.subset.trans (hfoot ▸ hv.owns.subset (.large (pagePtr (idx + 1)))))
  rw [hrange] at hinv
  refine ⟨{ h.allocator with pmm }, ?_, _, hv.frame hinv
    (hv.owns.release hfoot.superset ?_ ?_) rfl rfl rfl
    (fun p hp => update_of_ne (hp _).symm _ _) ?_⟩
  · rw [SlabAllocator.dealloc, if_neg (pagePtr_ne_zero _),
      if_pos (Nat.div_mul_cancel (pageSize_dvd_pagePtr _)).symm]
    have hinfo : pagePtr (idx + 1) - pageSize = pagePtr idx := by
      rw [pagePtr_succ, Nat.add_sub_cancel]
    simp only [hinfo, hnum, hpmm, map_some]
  · rintro (i | ptr | _)
    · exact subset_rfl
    · rintro i ⟨layout', idx', hptr, hslab', rfl, hi⟩
      dsimp only at hptr
      rw [update_apply] at hptr
      split_ifs at hptr
      exact ⟨layout', idx', hptr, hslab', rfl, hi⟩
    · exact subset_rfl
  · rw [disjoint_left]
    rintro i ⟨layout', -, hptr, -⟩
    dsimp only at hptr
    rw [update_self] at hptr
    cases hptr
  · intro i layout' hlive
    dsimp only at hlive
    rw [update_apply] at hlive
    split_ifs at hlive
    exact hv.live _ _ hlive

/-! ### Calls -/

section

variable (hv : Valid m pages A h) {pmm : Pmm} {slab : Fin 8} {addr : PhysAddr}

include hv

/-- An allocation returns a pointer that is not live, or null. -/
lemma alloc (layout : Layout) :
    h.allocator.alloc layout = some (0, h.allocator) ∨
    ∃ ptr a', h.allocator.alloc layout = some (ptr, a') ∧ ptr ≠ 0 ∧ h.live ptr = none ∧
      ∃ pages A, Valid m pages A ⟨a', update h.live ptr (some layout), h.others⟩ := by
  rw [SlabAllocator.alloc]
  split_ifs with hzero
  · exact Or.inl rfl
  · have hsize := Nat.pos_of_ne_zero hzero
    cases hslab : findSize (max layout.size layout.align) with
    | some slab => exact hv.slabAlloc hsize hslab
    | none =>
      rcases hv.largeAlloc hsize hslab with hnull | ⟨ptr, a', hcall, hne, hdead, A', hv'⟩
      · exact Or.inl hnull
      · exact Or.inr ⟨ptr, a', hcall, hne, hdead, pages, A', hv'⟩

lemma dealloc (hp : h.live ptr = some layout) :
    ∃ a', h.allocator.dealloc ptr = some a' ∧
      ∃ pages A, Valid m pages A ⟨a', update h.live ptr none, h.others⟩ := by
  cases hslab : layout.slab? with
  | some slab =>
    obtain ⟨idx, -, hslot⟩ := hv.placed_slab hp hslab
    rw [SlabAllocator.dealloc, if_neg (slot_ne_zero hslot), if_neg (slot_ne_page hslot)]
    exact hv.slabFree hp hslab
  | none =>
    obtain ⟨a', hcall, A', hv'⟩ := hv.largeFree hp hslab
    exact ⟨a', hcall, pages, A', hv'⟩

lemma not_overwritable_header (hidx : pages idx = some slab) :
    ¬ h.Overwritable (pagePtr idx) sizeOfSlabHeader := by
  rintro ⟨i, hlo, hhi, p, layout, hp, hplo, hphi⟩
  rw [sizeOfSlabHeader] at hhi
  have hi := div_pageSize_eq hlo (by rw [pageSize]; omega)
  have hbounds := slot_bounds (hv.slot_of_byte hp hplo hphi hidx hi).1
  rw [sizeOfSlabHeader] at hbounds
  omega

lemma not_overwritable_freeSlot {free : List ℕ} {q : ℕ} (hidx : pages idx = some slab)
    (hs : SlabPage h slab (pagePtr idx) free) (hq : q ∈ free) :
    ¬ h.Overwritable q sizeOfFreeSlot := by
  rintro ⟨i, hlo, hhi, p, layout, hp, hplo, hphi⟩
  rw [sizeOfFreeSlot] at hhi
  have hent := le_entSize slab
  have hbounds := slot_bounds (hs.subset hq)
  have hi : i / pageSize * pageSize = pagePtr idx := div_pageSize_eq (by omega) (by omega)
  obtain ⟨hslot, hsize⟩ := hv.slot_of_byte hp hplo hphi hidx hi
  have heq : p = q := by
    by_contra hpq
    have := slot_apart hslot (hs.subset hq) hpq
    omega
  rw [heq, hs.live_eq_none hq] at hp
  cases hp

lemma not_overwritable_info (hp : h.live (pagePtr (idx + 1)) = some layout)
    (hslab : layout.slab? = none) : ¬ h.Overwritable (pagePtr idx) sizeOfSlabInfo := by
  rintro ⟨i, hlo, hhi, q, layout', hq, hqlo, hqhi⟩
  rw [sizeOfSlabInfo] at hhi
  have hi := div_pageSize_eq hlo (by rw [pageSize]; omega)
  have hmem : idx ∈ footprint pages h (.large (pagePtr (idx + 1))) := by
    rw [footprint_large pages hp hslab]
    exact Set.left_mem_Ico.mpr (by omega)
  obtain ⟨idx', hi', hcase⟩ := hv.owner_of_byte hq hqlo hqhi
  obtain rfl := pagePtr_injective (hi.symm.trans hi')
  rcases hcase with ⟨-, -, -, -, hmem'⟩ | ⟨-, hle, hmem'⟩
  · cases hv.owns.eq_of_mem hmem hmem'
  · obtain rfl := Owner.large.inj (hv.owns.eq_of_mem hmem hmem')
    rw [pagePtr_succ, pageSize] at hle
    omega

/-- A write to live allocations changes nothing of what the allocators have stored. -/
lemma write {headers : ℕ → SlabHeader} {infos : ℕ → SlabInfo} {next : ℕ → ℕ}
    (hheaders : ∀ p, headers p ≠ h.allocator.headers p → h.Overwritable p sizeOfSlabHeader)
    (hinfos : ∀ p, infos p ≠ h.allocator.infos p → h.Overwritable p sizeOfSlabInfo)
    (hnext : ∀ p, next p ≠ h.allocator.next p → h.Overwritable p sizeOfFreeSlot) :
    Valid m pages A { h with allocator := { h.allocator with headers, infos, next } } := by
  refine ⟨hv.pmm, hv.owns, ?_, hv.nodup, hv.listed, ?_⟩
  · intro idx slab hidx
    obtain ⟨free, hs⟩ := hv.slabs idx slab hidx
    refine ⟨free, hs.congr ?_ (fun q hq => ?_) (fun _ _ => rfl) Iff.rfl⟩
    · exact of_not_not fun hne => hv.not_overwritable_header hidx (hheaders _ hne)
    · exact of_not_not fun hne => hv.not_overwritable_freeSlot hidx hs hq (hnext _ hne)
  · intro p layout hp
    obtain ⟨hsize, hplaced⟩ := hv.live p layout hp
    refine ⟨hsize, hplaced.imp (fun _ _ hi _ => hi) fun idx hslab hptr => ?_⟩
    subst hptr
    exact of_not_not fun hne => hv.not_overwritable_info hp hslab (hinfos _ hne)

/-- The rest of the kernel takes or returns physical pages. -/
lemma setOthers {others : Set ℕ} (hinv : Pmm.Inv (registeredPages m.entries) m.len pmm A')
    (howns : Owns (footprint pages { h with others }) A') :
    Valid m pages A' { h with allocator := { h.allocator with pmm }, others } :=
  hv.frame hinv howns rfl rfl rfl (fun _ _ => rfl) fun i layout hp => hv.live (pagePtr i) layout hp

lemma otherAlloc {n : Usize} {flags : AllocFlags}
    (halloc : h.allocator.pmm.alloc n flags = some (.ok addr, pmm)) :
    Valid m pages (A ∪ pageRange addr n.toNat) { h with
      allocator := { h.allocator with pmm }, others := h.others ∪ pageRange addr n.toNat } := by
  obtain ⟨hdisj, hinv⟩ := hv.pmm.of_alloc halloc
  refine hv.setOthers hinv (hv.owns.acquire (o := .other) hdisj ?_ subset_rfl)
  rintro (i | ptr | _) hne
  · exact subset_rfl
  · exact subset_rfl
  · exact absurd rfl hne

lemma otherDealloc {n : ℕ} (hsub : pageRange addr n ⊆ h.others)
    (hdealloc : h.allocator.pmm.deallocInner addr n = some pmm) :
    Valid m pages (A \ pageRange addr n) { h with
      allocator := { h.allocator with pmm }, others := h.others \ pageRange addr n } := by
  obtain ⟨pmm', hpmm', hinv⟩ := hv.pmm.dealloc m.registeredPages_subset
    (hsub.trans (hv.owns.subset .other))
  rw [hdealloc] at hpmm'
  cases hpmm'
  refine hv.setOthers hinv (hv.owns.release (o := .other) hsub ?_ disjoint_sdiff_left)
  rintro (i | ptr | _)
  · exact subset_rfl
  · exact subset_rfl
  · exact sdiff_subset

end

end

end Valid

/-! ### Runs -/

lemma Valid.step (hv : Valid m pages A h) (hstep : Step Guard h h') :
    ∃ pages A, Valid m pages A h' := by
  cases hstep with
  | alloc layout _ hne hcall =>
    rcases hv.alloc layout with hnull | ⟨ptr, a', hok, -, -, hv'⟩
    · rw [hcall] at hnull
      cases hnull
      exact absurd rfl hne
    · rw [hcall] at hok
      cases hok
      exact hv'
  | allocNull layout _ hcall =>
    rcases hv.alloc layout with hnull | ⟨ptr, a', hok, hne, -⟩
    · rw [hcall] at hnull
      cases hnull
      exact ⟨pages, A, hv⟩
    · rw [hcall] at hok
      cases hok
      exact absurd rfl hne
  | dealloc hp hcall =>
    obtain ⟨a', hok, hv'⟩ := hv.dealloc hp
    rw [hcall] at hok
    cases hok
    exact hv'
  | write headers infos next hheaders hinfos hnext =>
    exact ⟨pages, A, hv.write hheaders hinfos hnext⟩
  | otherAlloc n flags halloc => exact ⟨pages, _, hv.otherAlloc halloc⟩
  | otherDealloc n hsub hdealloc => exact ⟨pages, _, hv.otherDealloc hsub hdealloc⟩

lemma Reachable.valid (hinit : m.init = some pmm) (hr : Reachable Guard pmm h) :
    ∃ pages A, Valid m pages A h := by
  induction hr with
  | boot headers infos next =>
    obtain ⟨p, hp, hinv⟩ := Pmm.exists_init m
    obtain rfl := some.inj (hp.symm.trans hinit)
    have hempty : ∀ o, footprint (fun _ => none)
        ⟨⟨p, fun _ => [], headers, infos, next⟩, fun _ => none, ∅⟩ o = ∅ := by
      rintro (i | ptr | _) <;> simp [footprint]
    refine ⟨fun _ => none, ∅, hinv, ⟨?_, ?_⟩, ?_, ?_, ?_, ?_⟩
    · exact fun o => (hempty o).subset
    · intro o o' _
      rw [hempty o]
      exact empty_disjoint _
    · intro idx slab hidx
      cases hidx
    · exact fun slab => List.nodup_nil
    · intro slab page hpage
      cases hpage
    · intro p layout hp
      cases hp
  | step _ hstep ih =>
    obtain ⟨pages, A, hv⟩ := ih
    exact hv.step hstep

/-! ### Soundness -/

/-- A page of a slab, with a free slot or a live allocation. -/
def InSlab (h : Heap) (slab : Fin 8) (page : ℕ) : Prop :=
  page ∈ h.allocator.partialPages slab ∨
    ∃ p layout, h.live p = some layout ∧ layout.slab? = some slab ∧ p / pageSize * pageSize = page

/-- What the callers of the heap, and the heap itself, rely on. -/
structure Sound (m : MemoryMap) (h : Heap) : Prop where
  /-- The counter and the free list of a page agree with its live allocations, and the page is on
  the list of its slab if it has a free slot. -/
  slabPage : ∀ slab page, h.InSlab slab page → ∃ free, SlabPage h slab page free
  disjoint : ∀ p q layout layout', h.live p = some layout → h.live q = some layout' → p ≠ q →
    Disjoint (Set.Ico p (p + layout.size)) (Set.Ico q (q + layout'.size))
  aligned : ∀ p layout, h.live p = some layout → layout.align ∣ p
  slot : ∀ p layout slab, h.live p = some layout → layout.slab? = some slab →
    p ∈ slotList slab (p / pageSize * pageSize) ∧ layout.size ≤ entSize slab
  large : ∀ p layout, h.live p = some layout → layout.slab? = none →
    (h.allocator.infos (p - pageSize)).numPages = layout.pages ∧
      layout.size ≤ layout.pages * pageSize
  /-- Live allocations are in pages that are allocated for the heap. -/
  backed : ∀ i, h.Bytes i → ∃ idx ∈ registeredPages m.entries,
    i / pageSize * pageSize = pagePtr idx ∧ ¬ h.allocator.pmm.IsFree idx ∧ idx ∉ h.others
  /-- The test of `dealloc`. -/
  recognised : ∀ p layout, h.live p = some layout →
    (p = p / pageSize * pageSize ↔ layout.slab? = none)
  alloc : ∀ layout, ∃ ptr a', h.allocator.alloc layout = some (ptr, a') ∧ h.live ptr = none
  dealloc : ∀ p layout, h.live p = some layout → ∃ a', h.allocator.dealloc p = some a'

section

variable (hv : Valid m pages A h)

include hv

lemma Valid.live_zero : h.live 0 = none := by
  cases hlive : h.live 0 with
  | none => rfl
  | some layout =>
    cases hslab : layout.slab? with
    | some slab =>
      obtain ⟨idx, -, hslot⟩ := hv.placed_slab hlive hslab
      exact absurd rfl (slot_ne_zero hslot)
    | none =>
      obtain ⟨idx, hptr, -⟩ := hv.placed_large hlive hslab
      exact absurd hptr.symm (pagePtr_ne_zero _)

lemma Valid.aligned {p : ℕ} {layout : Layout} (hp : h.live p = some layout)
    (hle : layout.align ≤ pageSize) : layout.align ∣ p := by
  cases hslab : layout.slab? with
  | some slab =>
    obtain ⟨idx, -, hslot⟩ := hv.placed_slab hp hslab
    have hent : entSize slab = 2 ^ (4 + slab.val) := by rw [entSize, Nat.pow_add]
    have hdvd := Layout.align_dvd (hent ▸ (Layout.le_of_slab? hslab).2)
    rw [← hent] at hdvd
    exact Nat.dvd_trans hdvd (entSize_dvd_slot (pageSize_dvd_pagePtr idx) hslot)
  | none =>
    obtain ⟨idx, rfl, -⟩ := hv.placed_large hp hslab
    have hdvd : layout.align ∣ 2 ^ 12 := Layout.align_dvd hle
    exact Nat.dvd_trans hdvd (pageSize_dvd_pagePtr _)

lemma Valid.backed {i : ℕ} (hi : h.Bytes i) :
    ∃ idx ∈ registeredPages m.entries, i / pageSize * pageSize = pagePtr idx ∧
      ¬ h.allocator.pmm.IsFree idx ∧ idx ∉ h.others := by
  obtain ⟨p, layout, hp, hlo, hhi⟩ := hi
  obtain ⟨idx, hpage, hcase⟩ := hv.owner_of_byte hp hlo hhi
  obtain ⟨o, hne, hmem⟩ : ∃ o, o ≠ Owner.other ∧ idx ∈ footprint pages h o := by
    rcases hcase with ⟨-, -, -, -, hmem⟩ | ⟨-, -, hmem⟩
    · exact ⟨.slab idx, nofun, hmem⟩
    · exact ⟨.large p, nofun, hmem⟩
  have hA := hv.owns.subset o hmem
  refine ⟨idx, hv.pmm.subset hA, hpage, fun hfree => ?_, fun hother => hne ?_⟩
  · exact ((hv.pmm.isFree_iff idx).mp hfree).2 hA
  · exact hv.owns.eq_of_mem hmem (by exact hother)

lemma Valid.sound (halign : ∀ p layout, h.live p = some layout → layout.align ≤ pageSize) :
    Sound m h where
  slabPage := fun slab page hin => by
    rcases hin with hlist | ⟨p, layout, hp, hslab, rfl⟩
    · obtain ⟨idx, rfl, hidx⟩ := hv.listed slab page hlist
      exact hv.slabs idx slab hidx
    · obtain ⟨idx, hidx, hslot⟩ := hv.placed_slab hp hslab
      rw [slot_page hslot]
      exact hv.slabs idx slab hidx
  disjoint := fun p q layout layout' hp hq hne => by
    rw [disjoint_left]
    rintro i ⟨hlo, hhi⟩ ⟨hlo', hhi'⟩
    exact hne (hv.eq_of_byte hp hlo hhi hq hlo' hhi')
  aligned := fun p layout hp => hv.aligned hp (halign p layout hp)
  slot := fun p layout slab hp hslab => by
    obtain ⟨idx, -, hslot⟩ := hv.placed_slab hp hslab
    exact ⟨by rwa [slot_page hslot], (Layout.le_of_slab? hslab).1⟩
  large := fun p layout hp hslab => by
    obtain ⟨idx, rfl, hnum⟩ := hv.placed_large hp hslab
    have hpages := layout.pages_eq
    rw [pagePtr_succ, Nat.add_sub_cancel, pageSize]
    exact ⟨hnum, by omega⟩
  backed := fun i hi => hv.backed hi
  recognised := fun p layout hp => by
    cases hslab : layout.slab? with
    | some slab =>
      obtain ⟨idx, -, hslot⟩ := hv.placed_slab hp hslab
      exact iff_of_false (slot_ne_page hslot) (by rintro ⟨⟩)
    | none =>
      obtain ⟨idx, rfl, -⟩ := hv.placed_large hp hslab
      exact iff_of_true (Nat.div_mul_cancel (pageSize_dvd_pagePtr _)).symm rfl
  alloc := fun layout => by
    rcases hv.alloc layout with hnull | ⟨ptr, a', hok, -, hdead, -⟩
    · exact ⟨0, _, hnull, hv.live_zero⟩
    · exact ⟨ptr, a', hok, hdead⟩
  dealloc := fun p layout hp => by
    obtain ⟨a', hok, -⟩ := hv.dealloc hp
    exact ⟨a', hok⟩

end

/-- The layouts of live allocations meet the condition of the run. -/
lemma Reachable.guard (hr : Reachable Guard pmm h) {p : ℕ} {layout : Layout}
    (hp : h.live p = some layout) : Guard layout := by
  induction hr with
  | boot => cases hp
  | step _ hstep ih =>
    cases hstep with
    | alloc layout' hguard _ _ =>
      dsimp only at hp
      rw [update_apply] at hp
      split_ifs at hp
      · cases hp
        exact hguard
      · exact ih hp
    | dealloc _ _ =>
      dsimp only at hp
      rw [update_apply] at hp
      split_ifs at hp
      exact ih hp
    | allocNull _ _ _ => exact ih hp
    | write _ _ _ _ _ _ => exact ih hp
    | otherAlloc _ _ _ => exact ih hp
    | otherDealloc _ _ _ => exact ih hp

/-- In every run in which no alignment exceeds the size of a page: the counter, the free list and
the partial list of every page of a slab agree with the live allocations, these do not overlap and
are aligned and as large as requested, and `dealloc` tells slots from whole pages. -/
theorem Reachable.sound_of_align_le {pmm : Pmm} (hinit : m.init = some pmm)
    (hr : Reachable (fun layout => layout.align ≤ pageSize) pmm h) : h.Sound m := by
  obtain ⟨pages, A, hv⟩ := hr.valid hinit
  exact hv.sound fun p layout hp => hr.guard hp

/-- The heap after boot. -/
def boot (pmm : Pmm) : Heap :=
  ⟨⟨pmm, fun _ => [], fun _ => ⟨0, 0, 0⟩, fun _ => ⟨0, 0⟩, fun _ => 0⟩, fun _ => none, ∅⟩

/-- A request for 24 bytes. -/
def smallLayout : Layout := ⟨24, 8, ⟨3, rfl⟩, by decide⟩

/-- A request for two pages. -/
def pagesLayout : Layout := ⟨8192, 4096, ⟨12, rfl⟩, by decide⟩

/-- A request for 16 bytes at an even page. -/
def alignedLayout : Layout := ⟨16, 8192, ⟨13, rfl⟩, by decide⟩

theorem sound_small_and_pages : ∃ pmm h, fivePages.init = some pmm ∧
      Reachable (fun layout => layout.align ≤ pageSize) pmm h ∧
      h.live (pagePtr 5 + 64) = some smallLayout ∧ h.live (pagePtr 3) = some pagesLayout ∧
      h.Sound fivePages := by
  have hrun : (fivePages.init.any fun pmm =>
      ((boot pmm).allocator.alloc smallLayout).any fun r =>
        r.1 == pagePtr 5 + 64 &&
          (r.2.alloc pagesLayout).any fun r' => r'.1 == pagePtr 3) = true := by
    decide +kernel
  obtain ⟨pmm, hinit, hrun⟩ := (any_eq_true _ _).mp hrun
  obtain ⟨⟨ptr, a⟩, hsmall, hrun⟩ := (any_eq_true _ _).mp hrun
  obtain ⟨hptr, hrun⟩ := Bool.and_eq_true_iff.mp hrun
  obtain ⟨⟨ptr', a'⟩, hpages, hptr'⟩ := (any_eq_true _ _).mp hrun
  obtain rfl := beq_iff_eq.mp hptr
  obtain rfl := beq_iff_eq.mp hptr'
  have hreach : Reachable (fun layout => layout.align ≤ pageSize) pmm _ :=
    ((Reachable.boot _ _ _).step (.alloc smallLayout (by decide) (by decide) hsmall)).step
      (.alloc pagesLayout (by decide) (by decide) hpages)
  exact ⟨pmm, _, hinit, hreach, rfl, rfl, hreach.sound_of_align_le hinit⟩

/-- Whole pages are not aligned to more than the size of a page. -/
theorem not_sound_evenPage : ∃ pmm h, fivePages.init = some pmm ∧
      Reachable (fun _ => True) pmm h ∧ h.live (pagePtr 5) = some alignedLayout ∧
      ¬ h.Sound fivePages := by
  have hrun : (fivePages.init.any fun pmm =>
      ((boot pmm).allocator.alloc alignedLayout).any fun r => r.1 == pagePtr 5) = true := by
    decide +kernel
  obtain ⟨pmm, hinit, hrun⟩ := (any_eq_true _ _).mp hrun
  obtain ⟨⟨ptr, a⟩, hcall, hptr⟩ := (any_eq_true _ _).mp hrun
  obtain rfl := beq_iff_eq.mp hptr
  refine ⟨pmm, _, hinit, (Reachable.boot _ _ _).step (.alloc alignedLayout trivial ?_ hcall), rfl,
    fun hsound => ?_⟩
  · decide
  · exact absurd (hsound.aligned (pagePtr 5) alignedLayout rfl) (by decide)

end Heap

end Zinnia
