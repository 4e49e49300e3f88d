import Zinnia.Memory.Slab

/-!
# Slots and pages

The slots of a page lie behind its header, next to each other, and no slot is at the start of the
page. All entry sizes are powers of two, so that a slot is aligned to its size.
-/

namespace Zinnia

open Function

/-- The pointer to a physical page. -/
def pagePtr (idx : ℕ) : ℕ := hhdmBase + idx * pageSize

/-- The slots of a page of a slab. -/
def slotAddr (slab : Fin 8) (page i : ℕ) : ℕ := page + slotOffset slab + i * entSize slab

def slotList (slab : Fin 8) (page : ℕ) : List ℕ :=
  (List.range (slots slab)).map (slotAddr slab page)

lemma mem_slotList {slab : Fin 8} {page p : ℕ} :
    p ∈ slotList slab page ↔ ∃ i < slots slab, slotAddr slab page i = p := by
  simp only [slotList, List.mem_map, List.mem_range]

/-! ### The geometry of a page -/

lemma le_entSize : ∀ slab, 16 ≤ entSize slab := by decide

lemma le_slotOffset : ∀ slab, sizeOfSlabHeader ≤ slotOffset slab := by decide

lemma slots_pos : ∀ slab, 0 < slots slab := by decide

lemma slots_fit : ∀ slab, slotOffset slab + slots slab * entSize slab ≤ pageSize := by decide

lemma entSize_dvd_slotOffset : ∀ slab, entSize slab ∣ slotOffset slab := by decide

lemma entSize_dvd_pageSize : ∀ slab, entSize slab ∣ pageSize := by decide

section

variable {slab : Fin 8} {page p q : ℕ}

lemma slotAddr_injective (slab : Fin 8) (page : ℕ) : Injective (slotAddr slab page) := by
  intro i j h
  have hpos : 0 < entSize slab := by
    have := le_entSize slab
    omega
  exact Nat.eq_of_mul_eq_mul_right hpos (Nat.add_left_cancel h)

/-- A slot lies in its page, behind the header. -/
lemma slot_bounds (hp : p ∈ slotList slab page) :
    page + sizeOfSlabHeader ≤ p ∧ p + entSize slab ≤ page + pageSize := by
  obtain ⟨i, hi, rfl⟩ := mem_slotList.mp hp
  have hoff := le_slotOffset slab
  have hfit := slots_fit slab
  have hslot : i * entSize slab + entSize slab ≤ slots slab * entSize slab := by
    rw [← Nat.succ_mul]
    exact Nat.mul_le_mul_right _ hi
  rw [slotAddr]
  omega

/-- Two slots of a page do not overlap. -/
lemma slot_apart (hp : p ∈ slotList slab page) (hq : q ∈ slotList slab page) (hne : p ≠ q) :
    p + entSize slab ≤ q ∨ q + entSize slab ≤ p := by
  obtain ⟨i, hi, rfl⟩ := mem_slotList.mp hp
  obtain ⟨j, hj, rfl⟩ := mem_slotList.mp hq
  have hlt : ∀ {i j}, i < j → i * entSize slab + entSize slab ≤ j * entSize slab := by
    intro i j hij
    rw [← Nat.succ_mul]
    exact Nat.mul_le_mul_right _ hij
  simp only [slotAddr]
  rcases Nat.lt_trichotomy i j with hij | rfl | hij
  · have := hlt hij
    omega
  · exact absurd rfl hne
  · have := hlt hij
    omega

lemma entSize_dvd_slot (hpage : pageSize ∣ page) (hp : p ∈ slotList slab page) :
    entSize slab ∣ p := by
  obtain ⟨i, -, rfl⟩ := mem_slotList.mp hp
  have hpage' : entSize slab ∣ page := Nat.dvd_trans (entSize_dvd_pageSize slab) hpage
  exact Nat.dvd_add (Nat.dvd_add hpage' (entSize_dvd_slotOffset slab)) (Nat.dvd_mul_left _ _)

end

/-! ### Pages -/

section

variable {slab slab' : Fin 8} {idx idx' p : ℕ}

lemma pageSize_dvd_pagePtr (idx : ℕ) : pageSize ∣ pagePtr idx :=
  Nat.dvd_add (by decide) (Nat.dvd_mul_left _ _)

lemma pagePtr_succ (idx : ℕ) : pagePtr (idx + 1) = pagePtr idx + pageSize := by
  rw [pagePtr, pagePtr, Nat.succ_mul, Nat.add_assoc]

lemma pagePtr_injective : Injective pagePtr := by
  intro i j h
  exact Nat.eq_of_mul_eq_mul_right (by decide) (Nat.add_left_cancel h)

lemma pagePtr_ne_zero (idx : ℕ) : pagePtr idx ≠ 0 := by
  rw [pagePtr, hhdmBase]
  omega

/-- The page of a byte. -/
lemma div_pageSize_eq (hlo : pagePtr idx ≤ p) (hhi : p < pagePtr idx + pageSize) :
    p / pageSize * pageSize = pagePtr idx := by
  simp only [pagePtr, hhdmBase, pageSize] at *
  omega

section

variable (hp : p ∈ slotList slab (pagePtr idx))

include hp

lemma slot_page : p / pageSize * pageSize = pagePtr idx := by
  obtain ⟨hlo, hhi⟩ := slot_bounds hp
  have hent := le_entSize slab
  exact div_pageSize_eq (by omega) (by omega)

/-- A slot is not at the start of a page. -/
lemma slot_ne_page : p ≠ p / pageSize * pageSize := by
  obtain ⟨hlo, -⟩ := slot_bounds hp
  rw [slot_page hp]
  rw [sizeOfSlabHeader] at hlo
  omega

lemma idx_of_slot (hp' : p ∈ slotList slab' (pagePtr idx')) : idx = idx' :=
  pagePtr_injective ((slot_page hp).symm.trans (slot_page hp'))

lemma slot_ne_zero : p ≠ 0 := by
  rintro rfl
  exact pagePtr_ne_zero idx (slot_page hp).symm

end

lemma asHhdm_eq {mem : PhysAddr} (h : mem.toNat % pageSize = 0) :
    PhysAddr.asHhdm mem = pagePtr (idxFromAddr mem) := by
  rw [PhysAddr.asHhdm, pagePtr, idxFromAddr, Nat.div_mul_cancel (Nat.dvd_of_mod_eq_zero h)]

lemma idxFromAddr_ofHhdm (h : idx < 2 ^ 52) : idxFromAddr (ofHhdm (pagePtr idx)) = idx := by
  rw [idxFromAddr, ofHhdm, pagePtr, BitVec.toNat_ofNat, pageSize]
  omega

end

/-! ### Links -/

section

variable (slab : Fin 8) (idx : ℕ) (next : ℕ → ℕ)

/-- The links of a page after `refill`. -/
def refillLinks : ℕ → ℕ :=
  SlabAllocator.linkSlots next (pagePtr idx + slotOffset slab) (entSize slab) (slots slab)

/-- The loop of `refill` chains all slots of the page. -/
lemma chain_refillLinks :
    Chain (refillLinks slab idx next) 0 (pagePtr idx + slotOffset slab)
      (slotList slab (pagePtr idx)) := by
  have hpos := slots_pos slab
  have hinj := slotAddr_injective slab (pagePtr idx)
  have hstep : ∀ i, i + 1 < slots slab → refillLinks slab idx next (slotAddr slab (pagePtr idx) i) =
      slotAddr slab (pagePtr idx) (i + 1) := by
    intro i hi
    have hne : slotAddr slab (pagePtr idx) i ≠ slotAddr slab (pagePtr idx) (slots slab - 1) :=
      hinj.ne (by omega)
    have hfold := foldl_update_apply hinj (fun i => slotAddr slab (pagePtr idx) (i + 1)) next
      (slots slab - 1) i
    rw [if_pos (by omega)] at hfold
    exact (update_of_ne hne _ _).trans hfold
  have hlast : refillLinks slab idx next (slotAddr slab (pagePtr idx) (slots slab - 1)) = 0 :=
    update_self _ _ _
  have hchain := Chain.map_range'
    (fun i hi => slot_ne_zero (mem_slotList.mpr ⟨i, hi, rfl⟩)) hstep (fun _ => hlast)
    (Nat.zero_add _)
  rw [if_neg hpos.ne', ← List.range_eq_range', slotAddr, Nat.zero_mul] at hchain
  exact hchain

lemma refillLinks_of_notMem {p : ℕ} (hp : p ∉ slotList slab (pagePtr idx)) :
    refillLinks slab idx next p = next p := by
  have hpos := slots_pos slab
  have hne : ∀ i < slots slab, slotAddr slab (pagePtr idx) i ≠ p := by
    intro i hi h
    exact hp (mem_slotList.mpr ⟨i, hi, h⟩)
  have hfold := foldl_update_of_notMem (fun i => slotAddr slab (pagePtr idx) (i + 1)) next
    (n := slots slab - 1) fun i hi => hne i (by omega)
  exact (update_of_ne (hne _ (by omega)).symm _ _).trans hfold

end

end Zinnia
