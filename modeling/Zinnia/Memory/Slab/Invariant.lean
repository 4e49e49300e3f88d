import Mathlib.Data.List.Perm.Subperm
import Zinnia.Lib.Ownership
import Zinnia.Memory.Slab.Slots

/-!
# The invariant of the kernel heap

Every physical page that is allocated for the heap belongs to a page of a slab or to an allocation
of whole pages. In the page of a slab, the slots that are not on the free list hold the live
allocations.
-/

namespace Zinnia

open Function List Option SlabAllocator

/-- The slab that an allocation is made from, or `none` for whole pages. -/
def Layout.slab? (layout : Layout) : Option (Fin 8) := findSize (max layout.size layout.align)

/-- The number of whole pages for an allocation, without the page for its size. -/
def Layout.pages (layout : Layout) : ℕ := pageCount (BitVec.ofNat 64 layout.size)

lemma Layout.pages_eq (layout : Layout) : layout.pages = (layout.size + 4095) / 4096 := by
  have := layout.size_le
  rw [pages, pageCount_eq, BitVec.toNat_ofNat]
  omega

variable {layout : Layout}

lemma Layout.le_of_slab? {slab : Fin 8} (h : layout.slab? = some slab) :
    layout.size ≤ entSize slab ∧ layout.align ≤ entSize slab := by
  rw [slab?, findSize] at h
  have hfound := find?_some h
  rwa [decide_eq_true_eq, Nat.max_le] at hfound

lemma Layout.align_dvd {n : ℕ} (h : layout.align ≤ 2 ^ n) : layout.align ∣ 2 ^ n := by
  obtain ⟨k, hk⟩ := layout.align_eq
  rw [hk] at h ⊢
  exact Nat.pow_dvd_pow 2 ((Nat.pow_le_pow_iff_right (by decide)).mp h)

/-- The allocator after `refill` of a slab. -/
def SlabAllocator.refilled (a : SlabAllocator) (slab : Fin 8) (idx : ℕ) (pmm : Pmm) :
    SlabAllocator :=
  { a with
    pmm
    next := refillLinks slab idx a.next
    headers := update a.headers (pagePtr idx) ⟨slab, pagePtr idx + slotOffset slab, 0⟩ }

namespace Heap

/-- A page of a slab with the free slots `free`. -/
structure SlabPage (h : Heap) (slab : Fin 8) (page : ℕ) (free : List ℕ) : Prop where
  header : (h.allocator.headers page).slab = slab
  chain : Chain h.allocator.next 0 (h.allocator.headers page).free free
  nodup : free.Nodup
  subset : free ⊆ slotList slab page
  live : ∀ p ∈ slotList slab page, (h.live p).isSome ↔ p ∉ free
  used : (h.allocator.headers page).used + free.length = slots slab
  listed : page ∈ h.allocator.partialPages slab ↔ free ≠ []

/-- Where the allocation of a pointer is. -/
def Placed (pages : ℕ → Option (Fin 8)) (h : Heap) (p : ℕ) (layout : Layout) : Prop :=
  match layout.slab? with
  | some slab => ∃ idx, pages idx = some slab ∧ p ∈ slotList slab (pagePtr idx)
  | none => ∃ idx, p = pagePtr (idx + 1) ∧
      (h.allocator.infos (pagePtr idx)).numPages = layout.pages

lemma Placed.imp {pages pages' : ℕ → Option (Fin 8)} {h h' : Heap} {p : ℕ} {layout : Layout}
    (hplaced : Placed pages h p layout)
    (hslot : ∀ slab idx, pages idx = some slab → p ∈ slotList slab (pagePtr idx) →
      pages' idx = some slab)
    (hlarge : ∀ idx, layout.slab? = none → p = pagePtr (idx + 1) →
      h'.allocator.infos (pagePtr idx) = h.allocator.infos (pagePtr idx)) :
    Placed pages' h' p layout := by
  rw [Placed] at hplaced ⊢
  cases hslab : layout.slab? with
  | some slab =>
    rw [hslab] at hplaced
    obtain ⟨idx, hidx, hp⟩ := hplaced
    exact ⟨idx, hslot slab idx hidx hp, hp⟩
  | none =>
    rw [hslab] at hplaced
    obtain ⟨idx, hp, hnum⟩ := hplaced
    exact ⟨idx, hp, by rw [hlarge idx hslab hp, hnum]⟩

/-- Who owns physical pages. -/
inductive Owner
  | slab (idx : ℕ)
  | large (ptr : ℕ)
  | other

/-- The physical pages of an owner. -/
def footprint (pages : ℕ → Option (Fin 8)) (h : Heap) : Owner → Set ℕ
  | .slab idx => {i | i = idx ∧ (pages idx).isSome}
  | .large ptr => {i | ∃ layout idx, h.live ptr = some layout ∧ layout.slab? = none ∧
      ptr = pagePtr (idx + 1) ∧ i ∈ Set.Ico idx (idx + (layout.pages + 1))}
  | .other => h.others

/-- The heap is well formed: `pages` are the pages of the slabs, and `A` are all physical pages that
are allocated. -/
structure Valid (m : MemoryMap) (pages : ℕ → Option (Fin 8)) (A : Set ℕ) (h : Heap) : Prop where
  pmm : Pmm.Inv (registeredPages m.entries) m.len h.allocator.pmm A
  owns : Owns (footprint pages h) A
  slabs : ∀ idx slab, pages idx = some slab → ∃ free, SlabPage h slab (pagePtr idx) free
  nodup : ∀ slab, (h.allocator.partialPages slab).Nodup
  listed : ∀ slab, ∀ page ∈ h.allocator.partialPages slab,
    ∃ idx, page = pagePtr idx ∧ pages idx = some slab
  live : ∀ p layout, h.live p = some layout → 0 < layout.size ∧ Placed pages h p layout

variable {m : MemoryMap} {pages : ℕ → Option (Fin 8)} {A : Set ℕ} {h h' : Heap} {slab : Fin 8}
  {free : List ℕ}

lemma SlabPage.live_eq_none {page p : ℕ} (hs : SlabPage h slab page free) (hp : p ∈ free) :
    h.live p = none := by
  have hnot := (hs.live p (hs.subset hp)).not.mpr (not_not.mpr hp)
  rwa [not_isSome_iff_eq_none] at hnot

lemma SlabPage.congr {page : ℕ} (hs : SlabPage h slab page free)
    (hheader : h'.allocator.headers page = h.allocator.headers page)
    (hnext : ∀ p ∈ free, h'.allocator.next p = h.allocator.next p)
    (hlive : ∀ p ∈ slotList slab page, h'.live p = h.live p)
    (hlist : page ∈ h'.allocator.partialPages slab ↔ page ∈ h.allocator.partialPages slab) :
    SlabPage h' slab page free where
  header := by rw [hheader, hs.header]
  chain := by
    rw [hheader]
    exact hs.chain.congr hnext
  nodup := hs.nodup
  subset := hs.subset
  live := fun p hp => by rw [hlive p hp, hs.live p hp]
  used := by rw [hheader, hs.used]
  listed := hlist.trans hs.listed

namespace Valid

/-! ### Pages and bytes -/

variable {idx : ℕ}

lemma lt_of_mem (hv : Valid m pages A h) (hidx : idx ∈ A) : idx < 2 ^ 52 := by
  exact lt_trans (m.registeredPages_subset (hv.pmm.subset hidx)) m.len_lt

lemma mem_footprint_slab {slab : Fin 8} (h : Heap) (hidx : pages idx = some slab) :
    idx ∈ footprint pages h (.slab idx) :=
  ⟨rfl, by rw [hidx]; rfl⟩

section

variable (hv : Valid m pages A h) {p : ℕ} {layout : Layout}

include hv

section

variable (hp : h.live p = some layout) {slab : Fin 8} {i : ℕ}

include hp

lemma placed_slab (hslab : layout.slab? = some slab) :
    ∃ idx, pages idx = some slab ∧ p ∈ slotList slab (pagePtr idx) := by
  have hplaced := (hv.live p layout hp).2
  rwa [Placed, hslab] at hplaced

lemma placed_large (hslab : layout.slab? = none) :
    ∃ idx, p = pagePtr (idx + 1) ∧
      (h.allocator.infos (pagePtr idx)).numPages = layout.pages := by
  have hplaced := (hv.live p layout hp).2
  rwa [Placed, hslab] at hplaced

/-- The page of a byte of a live allocation, and the owner of this page. -/
lemma owner_of_byte (hlo : p ≤ i) (hhi : i < p + layout.size) :
    ∃ idx, i / pageSize * pageSize = pagePtr idx ∧
      ((∃ slab, pages idx = some slab ∧ p ∈ slotList slab (pagePtr idx) ∧
          layout.size ≤ entSize slab ∧ idx ∈ footprint pages h (.slab idx)) ∨
        (layout.slab? = none ∧ p ≤ pagePtr idx ∧ idx ∈ footprint pages h (.large p))) := by
  cases hslab : layout.slab? with
  | some slab =>
    obtain ⟨idx, hidx, hslot⟩ := hv.placed_slab hp hslab
    obtain ⟨hsize, -⟩ := Layout.le_of_slab? hslab
    obtain ⟨hstart, hend⟩ := slot_bounds hslot
    refine ⟨idx, div_pageSize_eq (by omega) (by omega), Or.inl ?_⟩
    exact ⟨slab, hidx, hslot, hsize, mem_footprint_slab h hidx⟩
  | none =>
    obtain ⟨idx, rfl, -⟩ := hv.placed_large hp hslab
    have hpages := layout.pages_eq
    refine ⟨idx + 1 + (i - pagePtr (idx + 1)) / pageSize, ?_, Or.inr ⟨rfl, ?_, ?_⟩⟩
    · simp only [pagePtr, hhdmBase, pageSize] at *
      omega
    · simp only [pagePtr, hhdmBase, pageSize] at *
      omega
    · refine ⟨layout, idx, hp, hslab, rfl, ?_, ?_⟩ <;>
        simp only [pagePtr, hhdmBase, pageSize] at * <;> omega

/-- A byte of a live allocation in the page of a slab is in a slot of this page. -/
lemma slot_of_byte {idx : ℕ} (hlo : p ≤ i) (hhi : i < p + layout.size)
    (hidx : pages idx = some slab) (hi : i / pageSize * pageSize = pagePtr idx) :
    p ∈ slotList slab (pagePtr idx) ∧ layout.size ≤ entSize slab := by
  obtain ⟨idx', hi', hcase⟩ := hv.owner_of_byte hp hlo hhi
  obtain rfl : idx = idx' := pagePtr_injective (hi.symm.trans hi')
  rcases hcase with ⟨slab', hidx', hslot, hsize, -⟩ | ⟨-, -, hmem⟩
  · obtain rfl : slab = slab' := some.inj (hidx.symm.trans hidx')
    exact ⟨hslot, hsize⟩
  · exact nomatch hv.owns.eq_of_mem hmem (mem_footprint_slab h hidx)

/-- Live allocations do not overlap. -/
lemma eq_of_byte {q : ℕ} {layout' : Layout} (hlo : p ≤ i) (hhi : i < p + layout.size)
    (hq : h.live q = some layout') (hlo' : q ≤ i) (hhi' : i < q + layout'.size) : p = q := by
  obtain ⟨idx, hi, hcase⟩ := hv.owner_of_byte hp hlo hhi
  rcases hcase with ⟨slab, hidx, hslot, hsize, -⟩ | ⟨-, -, hmem⟩
  · obtain ⟨hslot', hsize'⟩ := hv.slot_of_byte hq hlo' hhi' hidx hi
    by_contra hne
    have := slot_apart hslot hslot' hne
    omega
  · obtain ⟨idx', hi', hcase'⟩ := hv.owner_of_byte hq hlo' hhi'
    obtain rfl : idx = idx' := pagePtr_injective (hi.symm.trans hi')
    rcases hcase' with ⟨slab, hidx, hslot, hsize, hmem'⟩ | ⟨-, -, hmem'⟩
    · exact nomatch hv.owns.eq_of_mem hmem hmem'
    · exact Owner.large.inj (hv.owns.eq_of_mem hmem hmem')

end

end

/-! ### Slots -/

section

variable {slab : Fin 8} {idx slot : ℕ} {layout : Layout} {a' : SlabAllocator}

lemma footprint_subset (hlive : ∀ i, h'.live (pagePtr i) = h.live (pagePtr i))
    (hothers : h'.others = h.others) (o : Owner) : footprint pages h' o ⊆ footprint pages h o := by
  cases o with
  | slab idx => exact subset_rfl
  | large ptr =>
    rintro i ⟨layout, idx, hptr, hslab, rfl, hi⟩
    exact ⟨layout, idx, (hlive _).symm.trans hptr, hslab, rfl, hi⟩
  | other => exact hothers.subset

lemma pagePtr_ne_slot (hslot : slot ∈ slotList slab (pagePtr idx)) (i : ℕ) : pagePtr i ≠ slot := by
  rintro rfl
  refine slot_ne_page hslot ?_
  rw [Nat.div_mul_cancel (pageSize_dvd_pagePtr _)]

section

variable (hv : Valid m pages A h)

include hv

/-- An update of one slot, and of the header and the list of its page. -/
lemma updateSlot (hidx : pages idx = some slab) (hslot : slot ∈ slotList slab (pagePtr idx))
    {v : Option Layout} {list : List ℕ}
    (hlayout : ∀ layout ∈ v, 0 < layout.size ∧ layout.slab? = some slab)
    (hpmm : a'.pmm = h.allocator.pmm) (hinfos : a'.infos = h.allocator.infos)
    (hheaders : ∀ p ≠ pagePtr idx, a'.headers p = h.allocator.headers p)
    (hnext : ∀ p ≠ slot, a'.next p = h.allocator.next p)
    (hlists : a'.partialPages = update h.allocator.partialPages slab list)
    (hlist : ∀ page ≠ pagePtr idx, page ∈ list ↔ page ∈ h.allocator.partialPages slab)
    (hnodup : list.Nodup)
    (hpage : ∃ free, SlabPage ⟨a', update h.live slot v, h.others⟩ slab
      (pagePtr idx) free) : Valid m pages A ⟨a', update h.live slot v, h.others⟩ := by
  refine ⟨hpmm ▸ hv.pmm, hv.owns.mono ?_, ?_, ?_, ?_, ?_⟩
  · exact footprint_subset (fun i => update_of_ne (pagePtr_ne_slot hslot i) _ _) rfl
  · intro idx' slab' hidx'
    rcases eq_or_ne idx' idx with rfl | heq
    · obtain rfl := some.inj (hidx.symm.trans hidx')
      exact hpage
    · have hne : pagePtr idx' ≠ pagePtr idx := pagePtr_injective.ne heq
      have hother : ∀ p ∈ slotList slab' (pagePtr idx'), p ≠ slot := by
        rintro p hp rfl
        exact heq (idx_of_slot hp hslot)
      obtain ⟨free, hs⟩ := hv.slabs idx' slab' hidx'
      refine ⟨free, hs.congr (hheaders _ hne) (fun p hp => hnext p (hother p (hs.subset hp)))
        (fun p hp => update_of_ne (hother p hp) _ _) ?_⟩
      rw [hlists]
      rcases eq_or_ne slab' slab with rfl | hslab
      · rw [update_self, hlist _ hne]
      · rw [update_of_ne hslab]
  · intro slab'
    rw [hlists, update_apply]
    split_ifs
    · exact hnodup
    · exact hv.nodup slab'
  · intro slab' page hmem
    rw [hlists, update_apply] at hmem
    split_ifs at hmem with hslab
    · subst hslab
      by_cases hpage : page = pagePtr idx
      · exact ⟨idx, hpage, hidx⟩
      · exact hv.listed slab' page ((hlist page hpage).mp hmem)
    · exact hv.listed slab' page hmem
  · intro p layout hp
    change update h.live slot v p = some layout at hp
    rw [update_apply] at hp
    split_ifs at hp with heq
    · subst heq
      obtain ⟨hsize, hslab⟩ := hlayout layout hp
      refine ⟨hsize, ?_⟩
      rw [Placed, hslab]
      exact ⟨idx, hidx, hslot⟩
    · obtain ⟨hsize, hplaced⟩ := hv.live p layout hp
      exact ⟨hsize, hplaced.imp (fun _ _ hi _ => hi) fun _ _ _ => by rw [hinfos]⟩

/-- A slot is taken from the first page of the list. -/
lemma takeSlot {rest : List ℕ} (hlist : h.allocator.partialPages slab = pagePtr idx :: rest)
    (hsize : 0 < layout.size) (hslab : layout.slab? = some slab)
    (htake : h.allocator.takeSlot slab (pagePtr idx) rest = (slot, a')) :
    slot ≠ 0 ∧ h.live slot = none ∧
      Valid m pages A ⟨a', update h.live slot (some layout), h.others⟩ := by
  obtain ⟨idx', hptr, hidx⟩ := hv.listed slab (pagePtr idx) (hlist ▸ mem_cons_self)
  obtain rfl := pagePtr_injective hptr
  obtain ⟨free, hs⟩ := hv.slabs idx slab hidx
  obtain ⟨first, free', rfl⟩ := exists_cons_of_ne_nil
    (hs.listed.mp (hlist ▸ mem_cons_self))
  obtain ⟨hfirst, hne, hchain⟩ := hs.chain
  obtain ⟨hslot, hsub⟩ := cons_subset.mp hs.subset
  obtain ⟨hnotMem, hnodup⟩ := nodup_cons.mp hs.nodup
  have hnodupList := hv.nodup slab
  rw [hlist, nodup_cons] at hnodupList
  simp only [SlabAllocator.takeSlot, hfirst, Prod.mk.injEq] at htake
  obtain ⟨rfl, rfl⟩ := htake
  have hnil : h.allocator.next first = 0 ↔ free' = [] := hchain.eq_nil_iff
  have hdead := hs.live_eq_none mem_cons_self
  refine ⟨hne, hdead, hv.updateSlot hidx hslot (by simp [hsize, hslab]) rfl rfl
    (fun p hp => update_of_ne hp _ _) (fun _ _ => rfl) rfl ?_ ?_ ⟨free', ?_⟩⟩
  · intro page hpage
    rw [hlist]
    split_ifs <;> simp [hpage]
  · split_ifs
    · exact hnodupList.2
    · exact nodup_cons.mpr hnodupList
  · refine ⟨?_, ?_, hnodup, hsub, ?_, ?_, ?_⟩
    · simp [hs.header]
    · simpa using hchain
    · intro p hp
      rcases eq_or_ne p first with rfl | heq
      · simp [hnotMem]
      · simpa [heq] using hs.live p hp
    · have hused := hs.used
      rw [length_cons] at hused
      simp only [update_self]
      omega
    · simp only [ne_eq, ← hnil]
      split_ifs with hzero
      · simp [hzero, hnodupList.1]
      · simp [hzero]

/-- The pages of live allocations are allocated. -/
lemma mem_of_live {p i : ℕ} (hp : h.live p = some layout) (hlo : p ≤ i) (hhi : i < p + layout.size)
    (hi : i / pageSize * pageSize = pagePtr idx) : idx ∈ A := by
  obtain ⟨idx', hi', hcase⟩ := hv.owner_of_byte hp hlo hhi
  obtain rfl := pagePtr_injective (hi.symm.trans hi')
  rcases hcase with ⟨-, -, -, -, hmem⟩ | ⟨-, -, hmem⟩
  · exact hv.owns.subset _ hmem
  · exact hv.owns.subset _ hmem

lemma live_eq_none {p : ℕ} (hidx : idx ∉ A) (hp : p / pageSize * pageSize = pagePtr idx) :
    h.live p = none := by
  cases hlive : h.live p with
  | none => rfl
  | some layout =>
    have hsize := (hv.live p layout hlive).1
    exact absurd (hv.mem_of_live hlive (le_refl p) (by omega) hp) hidx

lemma pages_eq_none (hidx : idx ∉ A) : pages idx = none := by
  cases hslab : pages idx with
  | none => rfl
  | some slab => exact absurd (hv.owns.subset _ (mem_footprint_slab h hslab)) hidx

/-- A fresh page for a slab, which is put on its list. -/
lemma addPage (hnil : h.allocator.partialPages slab = []) {pmm : Pmm} (hdisj : idx ∉ A)
    (hinv : Pmm.Inv (registeredPages m.entries) m.len pmm (A ∪ {idx})) :
    Valid m (update pages idx (some slab)) (A ∪ {idx})
      ⟨{ h.allocator.refilled slab idx pmm with
          partialPages := update h.allocator.partialPages slab [pagePtr idx] },
        h.live, h.others⟩ := by
  have hpages := hv.pages_eq_none hdisj
  have hold : ∀ {i slab'}, pages i = some slab' → i ≠ idx := by
    rintro i slab' hi rfl
    rw [hpages] at hi
    cases hi
  refine ⟨hinv, hv.owns.acquire (o := .slab idx) ?_ ?_ ?_, ?_, ?_, ?_, ?_⟩
  · exact Set.disjoint_singleton_left.mpr hdisj
  · rintro (i | ptr | _) hne
    · rintro j ⟨rfl, hj⟩
      rw [update_of_ne (fun h => hne (congrArg Owner.slab h))] at hj
      exact ⟨rfl, hj⟩
    · exact subset_rfl
    · exact subset_rfl
  · rintro j ⟨rfl, -⟩
    exact Or.inr rfl
  · intro i slab' hi
    rw [update_apply] at hi
    split_ifs at hi with heq
    · cases hi
      subst heq
      have hslots : (slotList slab (pagePtr i)).length = slots slab := by simp [slotList]
      have hheader : (h.allocator.refilled slab i pmm).headers (pagePtr i) =
          ⟨slab, pagePtr i + slotOffset slab, 0⟩ := update_self _ _ _
      refine ⟨slotList slab (pagePtr i), ?_, ?_,
        nodup_range.map (slotAddr_injective _ _), Subset.refl _, ?_, ?_, ?_⟩
      · dsimp only
        rw [hheader]
      · dsimp only
        rw [hheader]
        exact chain_refillLinks slab i h.allocator.next
      · intro p hp
        simp [hv.live_eq_none hdisj (slot_page hp), hp]
      · dsimp only
        rw [hheader, hslots, Nat.zero_add]
      · have hne : slotList slab (pagePtr i) ≠ [] := by
          rw [← length_pos_iff, hslots]
          exact slots_pos slab
        simp [hne]
    · obtain ⟨free, hs⟩ := hv.slabs i slab' hi
      have hne : pagePtr i ≠ pagePtr idx := pagePtr_injective.ne heq
      have hheader : (h.allocator.refilled slab idx pmm).headers (pagePtr i) =
          h.allocator.headers (pagePtr i) := by
        simp only [refilled, update_of_ne hne]
      refine ⟨free, hs.congr hheader ?_ (fun _ _ => rfl) ?_⟩
      · intro p hp
        refine refillLinks_of_notMem slab idx _ fun hp' => heq ?_
        exact idx_of_slot (hs.subset hp) hp'
      · by_cases hslab : slab' = slab
        · subst hslab
          simp [hnil, hne]
        · simp [hslab]
  · intro slab'
    change (update h.allocator.partialPages slab [pagePtr idx] slab').Nodup
    rw [update_apply]
    split_ifs
    · exact nodup_singleton _
    · exact hv.nodup slab'
  · intro slab' page hpage
    change page ∈ update h.allocator.partialPages slab [pagePtr idx] slab' at hpage
    rw [update_apply] at hpage
    split_ifs at hpage with hslab
    · exact ⟨idx, mem_singleton.mp hpage, by rw [update_self, hslab]⟩
    · obtain ⟨i, hi, hslab'⟩ := hv.listed slab' page hpage
      exact ⟨i, hi, by rw [update_of_ne (hold hslab'), hslab']⟩
  · intro p layout hp
    obtain ⟨hsize, hplaced⟩ := hv.live p layout hp
    refine ⟨hsize, hplaced.imp (fun slab' i hi _ => ?_) fun _ _ _ => rfl⟩
    rw [update_of_ne (hold hi), hi]

lemma refill (hnil : h.allocator.partialPages slab = []) :
    h.allocator.refill slab = some (none, h.allocator) ∨
    ∃ idx pmm, h.allocator.refill slab =
        some (some (pagePtr idx), h.allocator.refilled slab idx pmm) ∧
      Valid m (update pages idx (some slab)) (A ∪ {idx})
        ⟨{ h.allocator.refilled slab idx pmm with
            partialPages := update h.allocator.partialPages slab [pagePtr idx] },
          h.live, h.others⟩ := by
  rcases hv.pmm.alloc 1 {} with herr | ⟨mem, pmm, hok, halign, hdisj, hinv⟩
  · left
    simp only [SlabAllocator.refill, herr]
    rfl
  · right
    rw [show (1 : Usize).toNat = 1 from rfl, pageRange_one] at hdisj hinv
    rw [Set.disjoint_singleton_left] at hdisj
    refine ⟨idxFromAddr mem, pmm, ?_, hv.addPage hnil hdisj hinv⟩
    simp only [SlabAllocator.refill, hok, bind_eq_bind, bind_some, asHhdm_eq halign]
    rfl

lemma slabAlloc (hsize : 0 < layout.size) (hslab : layout.slab? = some slab) :
    h.allocator.slabAlloc slab = some (0, h.allocator) ∨
    ∃ slot a', h.allocator.slabAlloc slab = some (slot, a') ∧ slot ≠ 0 ∧ h.live slot = none ∧
      ∃ pages A, Valid m pages A ⟨a', update h.live slot (some layout), h.others⟩ := by
  cases hlist : h.allocator.partialPages slab with
  | nil =>
    rcases hv.refill hlist with hnone | ⟨idx, pmm, hpage, hv'⟩
    · left
      simp only [SlabAllocator.slabAlloc, hlist, hnone]
      rfl
    · right
      have hlist' : update h.allocator.partialPages slab [pagePtr idx] slab =
          [pagePtr idx] := update_self _ _ _
      obtain ⟨hne, hdead, hv''⟩ := hv'.takeSlot hlist' hsize hslab rfl
      refine ⟨_, _, ?_, hne, hdead, _, _, hv''⟩
      simp only [SlabAllocator.slabAlloc, hlist, hpage, SlabAllocator.takeSlot, update_idem]
      rfl
  | cons page rest =>
    right
    obtain ⟨idx, rfl, -⟩ := hv.listed slab page (hlist ▸ mem_cons_self)
    obtain ⟨hne, hdead, hv'⟩ := hv.takeSlot hlist hsize hslab rfl
    refine ⟨_, _, ?_, hne, hdead, _, _, hv'⟩
    simp only [SlabAllocator.slabAlloc, hlist]
    rfl

end

/-! ### Freeing slots -/

/-- A slot is put back, and its page on the list. -/
lemma putSlot (hv : Valid m pages A h) (hidx : pages idx = some slab)
    (hslot : slot ∈ slotList slab (pagePtr idx)) (hlive : (h.live slot).isSome) :
    Valid m pages A ⟨{ h.allocator.putSlot (pagePtr idx) slot with
        partialPages := update h.allocator.partialPages slab
          (if pagePtr idx ∈ h.allocator.partialPages slab then h.allocator.partialPages slab
            else pagePtr idx :: h.allocator.partialPages slab) },
      update h.live slot none, h.others⟩ := by
  obtain ⟨free, hs⟩ := hv.slabs idx slab hidx
  have hnotMem : slot ∉ free := (hs.live slot hslot).mp hlive
  have hlength : (slot :: free).length ≤ slots slab := by
    have hsub : slot :: free ⊆ slotList slab (pagePtr idx) :=
      cons_subset.mpr ⟨hslot, hs.subset⟩
    have hperm := subperm_of_subset (nodup_cons.mpr ⟨hnotMem, hs.nodup⟩) hsub
    simpa [slotList] using hperm.length_le
  refine hv.updateSlot hidx hslot (by simp) rfl rfl (fun p hp => update_of_ne hp _ _)
    (fun p hp => update_of_ne hp _ _) rfl ?_ ?_ ⟨slot :: free, ?_⟩
  · intro page hpage
    split_ifs <;> simp [hpage]
  · split_ifs with hmem
    · exact hv.nodup slab
    · exact nodup_cons.mpr ⟨hmem, hv.nodup slab⟩
  · refine ⟨?_, ?_, nodup_cons.mpr ⟨hnotMem, hs.nodup⟩,
      List.cons_subset.mpr ⟨hslot, hs.subset⟩, ?_, ?_, ?_⟩
    · simp [SlabAllocator.putSlot, hs.header]
    · simpa [SlabAllocator.putSlot] using hs.chain.push (slot_ne_zero hslot) hnotMem
    · intro p hp
      by_cases heq : p = slot
      · simp [heq]
      · simpa [heq] using hs.live p hp
    · have hused := hs.used
      rw [length_cons] at hlength ⊢
      simp only [SlabAllocator.putSlot, update_self]
      omega
    · simp only [update_self, ne_eq, cons_ne_nil, not_false_eq_true, iff_true]
      split_ifs with hmem
      · exact hmem
      · exact mem_cons_self

/-- A page with no slots in use leaves the list and is handed back. -/
lemma dropPage (hv : Valid m pages A h) (hidx : pages idx = some slab)
    (hused : (h.allocator.headers (pagePtr idx)).used = 0) :
    ∃ pmm, h.allocator.pmm.deallocInner (ofHhdm (pagePtr idx)) 1 = some pmm ∧
      Valid m (update pages idx none) (A \ {idx})
        ⟨{ h.allocator with
            pmm
            partialPages := update h.allocator.partialPages slab
              ((h.allocator.partialPages slab).erase (pagePtr idx)) }, h.live, h.others⟩ := by
  have hmem := mem_footprint_slab h hidx
  have hrange : pageRange (ofHhdm (pagePtr idx)) 1 = {idx} := by
    rw [pageRange_one, idxFromAddr_ofHhdm (hv.lt_of_mem (hv.owns.subset _ hmem))]
  have hsub : ({idx} : Set ℕ) ⊆ footprint pages h (.slab idx) := Set.singleton_subset_iff.mpr hmem
  obtain ⟨pmm, hpmm, hinv⟩ := hv.pmm.dealloc m.registeredPages_subset
    (hrange.subset.trans (hsub.trans (hv.owns.subset _)))
  rw [hrange] at hinv
  -- all slots of the page are on its free list
  obtain ⟨free, hs⟩ := hv.slabs idx slab hidx
  have hall : ∀ p ∈ slotList slab (pagePtr idx), h.live p = none := by
    intro p hp
    have hperm : free.Perm (slotList slab (pagePtr idx)) := by
      refine (subperm_of_subset hs.nodup hs.subset).perm_of_length_le ?_
      have := hs.used
      simp only [slotList, length_map, length_range]
      omega
    exact hs.live_eq_none (hperm.mem_iff.mpr hp)
  have hne : ∀ {i slab'}, update pages idx none i = some slab' →
      i ≠ idx ∧ pages i = some slab' := by
    intro i slab' hi
    rw [update_apply] at hi
    split_ifs at hi with heq
    exact ⟨heq, hi⟩
  refine ⟨pmm, hpmm, hinv, hv.owns.release hsub ?_ ?_, ?_, ?_, ?_, ?_⟩
  · rintro (i | ptr | _)
    · rintro j ⟨rfl, hj⟩
      obtain ⟨slab', hslab'⟩ := isSome_iff_exists.mp hj
      exact ⟨rfl, by rw [(hne hslab').2]; rfl⟩
    · exact subset_rfl
    · exact subset_rfl
  · rw [Set.disjoint_singleton_right]
    rintro ⟨-, hj⟩
    rw [update_self] at hj
    cases hj
  · intro i slab' hi
    obtain ⟨heq, hi⟩ := hne hi
    obtain ⟨free', hs'⟩ := hv.slabs i slab' hi
    refine ⟨free', hs'.congr rfl (fun _ _ => rfl) (fun _ _ => rfl) ?_⟩
    rcases eq_or_ne slab' slab with rfl | hslab
    · simp [mem_erase_of_ne (pagePtr_injective.ne heq)]
    · simp [hslab]
  · intro slab'
    dsimp only
    rw [update_apply]
    split_ifs
    · exact (hv.nodup slab).erase _
    · exact hv.nodup slab'
  · intro slab' page hpage
    dsimp only at hpage
    have hmem' : page ∈ h.allocator.partialPages slab' := by
      rw [update_apply] at hpage
      split_ifs at hpage with hslab
      · exact hslab ▸ mem_of_mem_erase hpage
      · exact hpage
    obtain ⟨i, rfl, hi⟩ := hv.listed slab' page hmem'
    refine ⟨i, rfl, ?_⟩
    rw [update_of_ne, hi]
    rintro rfl
    obtain rfl := some.inj (hidx.symm.trans hi)
    rw [update_self] at hpage
    exact (hv.nodup slab).not_mem_erase hpage
  · intro p layout hp
    obtain ⟨hsize, hplaced⟩ := hv.live p layout hp
    refine ⟨hsize, hplaced.imp (fun slab' i hi hslot => ?_) fun _ _ _ => rfl⟩
    rw [update_of_ne, hi]
    rintro rfl
    obtain rfl := some.inj (hidx.symm.trans hi)
    rw [hall p hslot] at hp
    cases hp

/-- A slot is put back. A page that is then empty is handed back, and a page that was full is put on
the list. -/
lemma slabFree (hv : Valid m pages A h) (hp : h.live slot = some layout)
    (hslab : layout.slab? = some slab) :
    ∃ a', h.allocator.slabFree (slot / pageSize * pageSize) slot = some a' ∧
      ∃ pages A, Valid m pages A ⟨a', update h.live slot none, h.others⟩ := by
  obtain ⟨idx, hidx, hslot⟩ := hv.placed_slab hp hslab
  have hv' := hv.putSlot hidx hslot (by rw [hp]; rfl)
  obtain ⟨free, hs⟩ := hv.slabs idx slab hidx
  rw [SlabAllocator.slabFree, if_neg (slot_ne_zero hslot), slot_page hslot]
  rw [hs.header]
  by_cases hlinked : pagePtr idx ∈ h.allocator.partialPages slab
  · simp only [contains_iff_mem.mpr hlinked, if_pos hlinked, update_eq_self,
      Bool.not_true, Bool.false_eq_true, if_false] at hv' ⊢
    split_ifs with hused
    · obtain ⟨pmm, hpmm, hv''⟩ := hv'.dropPage hidx hused
      exact ⟨_, by rw [map_eq_some_iff]; exact ⟨pmm, hpmm, rfl⟩, _, _, hv''⟩
    · exact ⟨_, rfl, _, _, hv'⟩
  · have hcontains : (h.allocator.partialPages slab).contains (pagePtr idx) = false := by
      simpa using hlinked
    simp only [hcontains, if_neg hlinked, Bool.not_false, Bool.false_eq_true, if_false] at hv' ⊢
    split_ifs with hused
    · obtain ⟨pmm, hpmm, hv''⟩ := hv'.dropPage hidx hused
      simp only [update_self, erase_cons_head, update_idem, update_eq_self] at hv''
      exact ⟨_, by rw [map_eq_some_iff]; exact ⟨pmm, hpmm, rfl⟩, _, _, hv''⟩
    · exact ⟨_, rfl, _, _, hv'⟩

end

end Valid

end Heap

end Zinnia
