import Zinnia.Memory.Virt.AddressSpace

/-!
# The pages of an address space

`lookup` reads an address space as a partial function from pages to pages of objects. Every
operation changes this function, and the page table, pointwise.
-/

namespace Zinnia

open Segment List Option PageTableEntry MappedObject

variable {O : Type}

/-- What a virtual page is mapped to. -/
structure PageMapping (O : Type) where
  object : O
  objectPage : ℕ
  flags : VmFlags
  cache : VmCacheType
deriving DecidableEq

/-- What a mapping says about one of its pages. -/
def MappedObject.pageAt (m : MappedObject O) (page : ℕ) : PageMapping O :=
  ⟨m.object, m.offsetPage + (page - m.startPage), m.flags, m.cache⟩

/-- The partial function from pages to pages of objects. -/
abbrev Mappings.lookup (s : Mappings O) (page : ℕ) : Option (PageMapping O) :=
  valueAt MappedObject.pageAt s page

/-! ### Page tables -/

/-- Change the permissions of an entry, if it is present. -/
def PageTableEntry.remap (flags : VmFlags) (e : PageTableEntry) : PageTableEntry :=
  if e.isPresent then .new e.address (flags.asPte true) e.cacheType 0 else e

namespace PageTableEntry

variable (flags : VmFlags) (e : PageTableEntry)

@[simp] lemma isPresent_remap : (e.remap flags).isPresent = e.isPresent := by
  cases h : e.isPresent <;> simp [remap, h]

@[simp] lemma allowsRead_remap : (e.remap flags).allowsRead = e.isPresent := by
  cases h : e.isPresent <;> simp [allowsRead, remap, h]

@[simp] lemma allowsWrite_remap : (e.remap flags).allowsWrite = (e.isPresent && flags.write) := by
  cases h : e.isPresent <;> simp [allowsWrite, remap, h]

@[simp] lemma allowsExec_remap : (e.remap flags).allowsExec = (e.isPresent && flags.exec) := by
  cases h : e.isPresent <;> simp [allowsExec, remap, h]

@[simp] lemma address_remap : (e.remap flags).address = e.address := by
  rw [remap]
  split_ifs
  · rw [address_new, address, BitVec.and_assoc, BitVec.and_self]
  · rfl

end PageTableEntry

namespace PageTable

lemma unmapPages_apply (t : PageTable) (a b page : ℕ) :
    t.unmapPages a b page = if a ≤ page ∧ page < b then .empty else t page := by
  refine Loop.forRange_pointwise a b t (f := fun _ _ => .empty) (fun g i j => ?_) page
  simp [unmapSingle, Function.update_apply]

lemma remapPages_apply (t : PageTable) (a b : ℕ) (flags : VmFlags) (page : ℕ) :
    t.remapPages a b flags page =
      if a ≤ page ∧ page < b then (t page).remap flags else t page := by
  refine Loop.forRange_pointwise a b t (f := fun _ => remap flags) (fun g i j => ?_) page
  by_cases hpresent : (g i).isPresent
  · simp [isMapped, remap, remapSingle, hpresent, Function.update_apply]
  · simp only [isMapped, remap, hpresent]
    by_cases hji : j = i <;> simp [hji]

end PageTable

/-! ### Splitting a mapping -/

namespace MappedObject

/-- The pages of a mapping outside a range. -/
def outside (a b : ℕ) (m : MappedObject O) : List (MappedObject O) :=
  (if m.startPage < a then [{ m with endPage := a }] else []) ++
    if b < m.endPage then
      [{ m with startPage := b, offsetPage := m.offsetPage + (b - m.startPage) }]
    else []

variable {m : MappedObject O}

lemma trims_outside {a b : ℕ} (hle : a ≤ b) (hov : Overlaps a b m) :
    Trims a b pageAt m (m.outside a b) := by
  obtain ⟨hov₁, hov₂⟩ : a < m.endPage ∧ m.startPage < b := hov
  refine Trims.sides hle ⟨hov₁, hov₂⟩ ⟨rfl, rfl⟩ ⟨rfl, rfl⟩ (fun i _ => rfl) fun i hi => ?_
  have hbi : b ≤ i := hi.1
  simp only [pageAt, PageMapping.mk.injEq, true_and, and_true]
  omega

lemma leftmost_append_rightmost {a b : ℕ} :
    m.leftmost a ++ m.rightmost b = m.outside a b := by
  simp only [leftmost, rightmost, outside]
  congr 1
  · by_cases h : m.startPage < a
    · rw [if_pos (show a - m.startPage > 0 by omega), if_pos h,
        show m.startPage + (a - m.startPage) = a by omega]
    · rw [if_neg (show ¬ a - m.startPage > 0 by omega), if_neg h]
  · by_cases h : b < m.endPage
    · rw [if_pos (show m.endPage - b > 0 by omega), if_pos h,
        show m.endPage - (m.endPage - b) = b by omega, min_eq_left h.le]
    · rw [if_neg (show ¬ m.endPage - b > 0 by omega), if_neg h]

lemma outside_of_subset {a b : ℕ} (ha : a ≤ m.startPage) (hb : m.endPage ≤ b) :
    m.outside a b = [] := by
  simp [outside, not_lt.mpr ha, not_lt.mpr hb]

end MappedObject

/-! ### Taking pages out of an address space -/

section

variable {a b : ℕ} {s : Mappings O}

/-- Both `map_object` and `unmap` replace an overlapping mapping by its pages outside the range. -/
def carve (a b : ℕ) (s : Mappings O × PageTable) : Option (Mappings O × PageTable) :=
  (findOverlapping s.1 a b).map fun m =>
    (splice s.1 m (m.outside a b), s.2.unmapPages (max a m.startPage) (min b m.endPage))

lemma shadowStep_eq_carve (s : Mappings O × PageTable) : shadowStep a b s = carve a b s := by
  refine map_congr fun m hm => ?_
  split_ifs with hsub
  · rw [outside_of_subset hsub.1 hsub.2, max_eq_right hsub.1, min_eq_right hsub.2]
    rfl
  · rw [leftmost_append_rightmost]
    rfl

lemma unmapStep_eq_carve (s : Mappings O × PageTable) : unmapStep a b s = carve a b s := by
  refine map_congr fun m hm => ?_
  have hpieces : ((if m.startPage < max a m.startPage then
      [{ m with endPage := max a m.startPage }] else []) ++
      if min b m.endPage < m.endPage then
        [{ m with
            startPage := min b m.endPage
            offsetPage := m.offsetPage + (min b m.endPage - m.startPage) }]
      else []) = m.outside a b := by
    rw [outside]
    congr 1
    · by_cases h : m.startPage < a
      · rw [max_eq_left h.le]
      · rw [if_neg (by omega), if_neg h]
    · by_cases h : b < m.endPage
      · rw [min_eq_left h.le]
      · rw [if_neg (by omega), if_neg h]
  simp only [hpieces]
  rfl

/-- How far `carve` has got from `s` and `t`: pages of the range that are no longer mapped have no
entry, everything else is as before. -/
structure Carving (a b : ℕ) (s : Mappings O) (t : PageTable) (x : Mappings O) (u : PageTable) :
    Prop where
  disjointed : Disjointed x
  lookup : ∀ i, ¬ (a ≤ i ∧ i < b) → x.lookup i = s.lookup i
  isSome : ∀ i, (at? x i).isSome → (at? s i).isSome
  table : ∀ i, u i =
    if (a ≤ i ∧ i < b) ∧ (at? s i).isSome ∧ at? x i = none then .empty else t i

lemma Carving.refl (h : Disjointed s) (t : PageTable) : Carving a b s t s t := by
  refine ⟨h, fun _ _ => rfl, fun _ => id, fun i => ?_⟩
  cases hsi : at? s i <;> simp

lemma Carving.step {x : Mappings O} {t u : PageTable} (h : Carving a b s t x u) (hle : a ≤ b)
    {m : MappedObject O} (hm : m ∈ x) (hov : Overlaps a b m) :
    Carving a b s t (splice x m (m.outside a b))
      (u.unmapPages (max a m.startPage) (min b m.endPage)) := by
  have htrim := trims_outside hle hov
  have hmsome : ∀ i, Covers m i → (at? s i).isSome := fun i hmi =>
    h.isSome i (by rw [h.disjointed.at?_eq_some.mpr ⟨hm, hmi⟩]; rfl)
  refine ⟨h.disjointed.splice hm htrim.toPieces, fun i hi => ?_, fun i hi => ?_, fun i => ?_⟩
  · exact (h.disjointed.valueAt_splice htrim hm hi).trans (h.lookup i hi)
  · rw [h.disjointed.at?_splice hm htrim.toPieces] at hi
    split_ifs at hi with hmi
    · exact hmsome i hmi
    · exact h.isSome i hi
  · rw [PageTable.unmapPages_apply, h.table i]
    by_cases hi : a ≤ i ∧ i < b
    · rw [h.disjointed.at?_splice_of_trims htrim hm hi]
      by_cases hmi : Covers m i
      · have hin : max a m.startPage ≤ i ∧ i < min b m.endPage :=
          ⟨max_le hi.1 hmi.1, lt_min hi.2 hmi.2⟩
        simp [hin, hi, hmsome i hmi, hmi]
      · have hout : ¬ (max a m.startPage ≤ i ∧ i < min b m.endPage) := fun hin =>
          hmi ⟨(le_max_right _ _).trans hin.1, lt_of_lt_of_le hin.2 (min_le_right _ _)⟩
        simp only [hout, hmi, ↓reduceIte]
    · have hout : ¬ (max a m.startPage ≤ i ∧ i < min b m.endPage) := fun hin =>
        hi ⟨(le_max_left _ _).trans hin.1, lt_of_lt_of_le hin.2 (min_le_left _ _)⟩
      simp only [hout, hi, false_and, ↓reduceIte]

/-- The pages of the range leave the address space and the page table. -/
theorem run_carve (h : Disjointed s) (hle : a ≤ b) (t : PageTable) {n : ℕ}
    (hn : s.elems.length < n) :
    ∃ s' t', Loop.run (carve a b) n (s, t) = some (s', t') ∧ Disjointed s' ∧
      (∀ i, s'.lookup i = if a ≤ i ∧ i < b then none else s.lookup i) ∧
      ∀ i, t' i = if (a ≤ i ∧ i < b) ∧ (s.lookup i).isSome then .empty else t i := by
  have hstep : ∀ x x' : Mappings O × PageTable, Carving a b s t x.1 x.2 → carve a b x = some x' →
      Carving a b s t x'.1 x'.2 ∧
        x'.1.countP (Overlaps a b ·) < x.1.countP (Overlaps a b ·) := by
    intro x x' hx hx'
    obtain ⟨m, hm, rfl⟩ := map_eq_some_iff.mp hx'
    obtain ⟨hmx, hov⟩ := mem_of_findOverlapping hm
    exact ⟨hx.step hle hmx hov,
      countP_splice_lt hmx le_rfl hov (trims_outside hle hov).outside⟩
  have hlt : s.countP (Overlaps a b ·) < n := lt_of_le_of_lt countP_le_length hn
  obtain ⟨⟨s', t'⟩, hrun, hcarved, hend⟩ :=
    Loop.run_spec (s := (s, t)) hstep (Carving.refl h t) hlt
  have hnone : findOverlapping s' a b = none := by simpa [carve] using hend
  have hfree : ∀ i, a ≤ i ∧ i < b → at? s' i = none := fun i hi =>
    at?_of_findOverlapping_eq_none hnone hi.1 hi.2
  refine ⟨s', t', hrun, hcarved.disjointed, fun i => ?_, fun i => (hcarved.table i).trans ?_⟩
  · split_ifs with hi
    · rw [Mappings.lookup, valueAt, hfree i hi, map_none]
    · exact hcarved.lookup i hi
  · rw [Mappings.lookup, valueAt, isSome_map]
    by_cases hi : a ≤ i ∧ i < b
    · simp [hfree i hi]
    · simp [hi]

end

/-! ### Changing the permissions of pages -/

/-- `prot | (flags & (Shared | CopyOnWrite))` for a page. -/
def PageMapping.reprotect (prot : VmFlags) (p : PageMapping O) : PageMapping O :=
  { p with flags := p.flags.reprotect prot }

/-- The same page with other permissions. -/
def PageMapping.withPermissions (p : PageMapping O) (prot : Prot) : PageMapping O :=
  { p with flags := p.flags.withPermissions prot }

/-- The permissions of the entry of a page: until it is copied, it is not written to. -/
def VmFlags.forEntry (f : VmFlags) : VmFlags := if f.copyOnWrite then f.withoutWrite else f

/-- `protect` on the entry of a page. -/
def PageTableEntry.reprotect (e : PageTableEntry) (prot : VmFlags) :
    Option (PageMapping O) → PageTableEntry
  | none => e
  | some p => e.remap (p.flags.reprotect prot).forEntry

/-- The part of a mapping inside a range, with new permissions. -/
def MappedObject.inside (a b : ℕ) (prot : VmFlags) (m : MappedObject O) : MappedObject O :=
  { m with
    startPage := max a m.startPage
    endPage := min b m.endPage
    offsetPage := m.offsetPage + (max a m.startPage - m.startPage)
    flags := m.flags.reprotect prot }

section

variable {a b c : ℕ} {prot : VmFlags}

lemma protectStep_eq {x : Mappings O} {u : PageTable} :
    protectStep a b prot ((x, u), c) = (findOverlapping x c b).map fun m =>
      ((splice x m (m.outside a b ++ [m.inside a b prot]),
        u.remapPages (max a m.startPage) (min b m.endPage) (m.flags.reprotect prot).forEntry),
        min b m.endPage) := by
  refine map_congr fun m hm => ?_
  split_ifs with hsub
  · rw [outside_of_subset hsub.1 hsub.2, inside, max_eq_right hsub.1,
      min_eq_right hsub.2, Nat.sub_self]
    rfl
  · rw [leftmost_append_rightmost]
    rfl

/-- How far `protect` has got from `s` and `t`, with the cursor at `c`. -/
structure Protecting (a b : ℕ) (prot : VmFlags) (s : Mappings O) (t : PageTable) (x : Mappings O)
    (u : PageTable) (c : ℕ) : Prop where
  disjointed : Disjointed x
  le : a ≤ c ∧ c ≤ b
  /-- No mapping lies on both sides of the cursor once it has moved. -/
  cut : c = a ∨ ∀ m ∈ x, m.endPage ≤ c ∨ c ≤ m.startPage
  lookup : ∀ i, x.lookup i =
    if a ≤ i ∧ i < c then (s.lookup i).map (·.reprotect prot) else s.lookup i
  table : ∀ i, u i = if a ≤ i ∧ i < c then (t i).reprotect prot (s.lookup i) else t i

/-- A round of `protect` moves the cursor behind the mapping that it changes. -/
lemma Protecting.step {s x : Mappings O} {t u : PageTable} (h : Protecting a b prot s t x u c)
    (hab : a < b) {m : MappedObject O} (hm : findOverlapping x c b = some m) :
    Protecting a b prot s t (splice x m (m.outside a b ++ [m.inside a b prot]))
      (u.remapPages (max a m.startPage) (min b m.endPage) (m.flags.reprotect prot).forEntry)
      (min b m.endPage) := by
  obtain ⟨hac, hcb⟩ := h.le
  obtain ⟨hmx, hov⟩ := mem_of_findOverlapping hm
  obtain ⟨hov₁, hov₂⟩ : c < m.endPage ∧ m.startPage < b := hov
  have hov' : Overlaps a b m := ⟨lt_of_le_of_lt hac hov₁, hov₂⟩
  have hne : m.startPage < m.endPage := h.disjointed.nonempty m hmx
  have hcut : c = a ∨ c ≤ m.startPage := h.cut.imp id fun hcut => by
    rcases hcut m hmx with hle | hle
    · omega
    · exact hle
  have htrim := trims_outside hab.le hov'
  have hpieces := htrim.pieces_concat (x := m.inside a b prot) hab hne hov' rfl rfl
  have hmem := fun {y} => h.disjointed.mem_splice (x := y) hmx hpieces
  -- the pages of the mapping inside the range have not been changed before
  have hfresh : ∀ i, max a m.startPage ≤ i → i < min b m.endPage →
      ¬ (a ≤ i ∧ i < c) ∧ s.lookup i = some (m.pageAt i) := by
    intro i hlo hhi
    have hnew : ¬ (a ≤ i ∧ i < c) := by omega
    have hmi : Covers m i :=
      ⟨(le_max_right _ _).trans hlo, lt_of_lt_of_le hhi (min_le_right _ _)⟩
    have hlook := h.lookup i
    rw [if_neg hnew] at hlook
    exact ⟨hnew, by rw [← hlook, Mappings.lookup, valueAt,
      h.disjointed.at?_eq_some.mpr ⟨hmx, hmi⟩, map_some]⟩
  -- and up to the mapping there is nothing to change
  have hgap : ∀ i, c ≤ i → i < m.startPage → s.lookup i = none := by
    intro i hci him
    have hlook := h.lookup i
    rw [if_neg (by omega)] at hlook
    rw [← hlook, Mappings.lookup, valueAt, at?_of_findOverlapping hm hci him, map_none]
  -- so the pages that are changed are those up to the new cursor
  have hrest : ∀ i, ¬ (max a m.startPage ≤ i ∧ i < min b m.endPage) → s.lookup i = none ∨
      (a ≤ i ∧ i < c) = (a ≤ i ∧ i < min b m.endPage) := by
    intro i hi
    by_cases hgapi : c ≤ i ∧ i < m.startPage
    · exact .inl (hgap i hgapi.1 hgapi.2)
    · exact .inr (propext (by omega))
  refine ⟨h.disjointed.splice hmx hpieces, ⟨by omega, by omega⟩, .inr fun y hy => ?_,
    fun i => ?_, fun i => ?_⟩
  · rcases hmem.mp hy with hy | ⟨hy, hym⟩
    · rcases mem_append.mp hy with hy | hy
      · have hout := htrim.outside y hy
        change ¬ (a < y.endPage ∧ y.startPage < b) at hout
        omega
      · rw [mem_singleton.mp hy]
        exact .inl le_rfl
    · have hap : y.endPage ≤ m.startPage ∨ m.endPage ≤ y.startPage :=
        h.disjointed.apart y hy m hmx hym
      omega
  · refine (h.disjointed.valueAt_splice_concat htrim hmx hab hov' rfl rfl i).trans ?_
    change (if max a m.startPage ≤ i ∧ i < min b m.endPage then _ else x.lookup i) = _
    by_cases hi : max a m.startPage ≤ i ∧ i < min b m.endPage
    · rw [if_pos hi, if_pos ⟨by omega, by omega⟩, (hfresh i hi.1 hi.2).2, map_some]
      simp only [inside, pageAt, PageMapping.reprotect, some.injEq, PageMapping.mk.injEq, true_and,
        and_true]
      omega
    · rw [if_neg hi, h.lookup i]
      rcases hrest i hi with hnone | hsame
      · simp only [hnone, map_none, ite_self]
      · simp only [hsame]
  · rw [PageTable.remapPages_apply, h.table i]
    by_cases hi : max a m.startPage ≤ i ∧ i < min b m.endPage
    · obtain ⟨hnew, hlook⟩ := hfresh i hi.1 hi.2
      rw [if_pos hi, if_neg hnew, if_pos ⟨by omega, by omega⟩, hlook]
      rfl
    · rw [if_neg hi]
      rcases hrest i hi with hnone | hsame
      · simp only [hnone, reprotect, ite_self]
      · simp only [hsame]

/-- Exactly the mapped pages of the range get the new permissions. -/
theorem run_protect (prot : VmFlags) {s : Mappings O} (h : Disjointed s) (hab : a < b)
    (t : PageTable) {n : ℕ} (hn : s.elems.length < n) :
    ∃ s' t' c, Loop.run (protectStep a b prot) n ((s, t), a) = some ((s', t'), c) ∧
      Disjointed s' ∧
      (∀ i, s'.lookup i =
        if a ≤ i ∧ i < b then (s.lookup i).map (·.reprotect prot) else s.lookup i) ∧
      ∀ i, t' i = if a ≤ i ∧ i < b then (t i).reprotect prot (s.lookup i) else t i := by
  have hstep : ∀ x x' : (Mappings O × PageTable) × ℕ, Protecting a b prot s t x.1.1 x.1.2 x.2 →
      protectStep a b prot x = some x' → Protecting a b prot s t x'.1.1 x'.1.2 x'.2 ∧
        x'.1.1.countP (Overlaps x'.2 b ·) < x.1.1.countP (Overlaps x.2 b ·) := by
    intro x x' hx hx'
    rw [protectStep_eq] at hx'
    obtain ⟨m, hm, rfl⟩ := map_eq_some_iff.mp hx'
    obtain ⟨hmx, hov⟩ := mem_of_findOverlapping hm
    have hnext := hx.step hab hm
    obtain ⟨hov₁, hov₂⟩ : x.2 < m.endPage ∧ m.startPage < b := hov
    have hov' : Overlaps a b m := ⟨lt_of_le_of_lt hx.le.1 hov₁, hov₂⟩
    refine ⟨hnext, countP_splice_lt hmx (le_min hx.le.2 hov₁.le) ⟨hov₁, hov₂⟩ fun y hy hyov => ?_⟩
    rcases mem_append.mp hy with hy | hy
    · exact (trims_outside hab.le hov').outside y hy
        ⟨lt_of_le_of_lt hnext.le.1 hyov.1, hyov.2⟩
    · rw [mem_singleton.mp hy] at hyov
      exact lt_irrefl _ hyov.1
  have hinit : Protecting a b prot s t s t a :=
    ⟨h, ⟨le_rfl, hab.le⟩, .inl rfl, fun i => by simp, fun i => by simp⟩
  have hlt : s.countP (Overlaps a b ·) < n := lt_of_le_of_lt countP_le_length hn
  obtain ⟨⟨⟨s', t'⟩, c⟩, hrun, hdone, hend⟩ :=
    Loop.run_spec (s := ((s, t), a)) hstep hinit hlt
  have hnone : findOverlapping s' c b = none := by
    rw [protectStep_eq] at hend
    simpa using hend
  have hfree : ∀ i, c ≤ i → i < b → s.lookup i = none := by
    intro i hci hib
    have hlook := hdone.lookup i
    rw [if_neg (by omega)] at hlook
    rw [← hlook, Mappings.lookup, valueAt, at?_of_findOverlapping_eq_none hnone hci hib, map_none]
  obtain ⟨hac, hcb⟩ := hdone.le
  refine ⟨s', t', c, hrun, hdone.disjointed, fun i => (hdone.lookup i).trans ?_,
    fun i => (hdone.table i).trans ?_⟩
  all_goals
    by_cases hi : c ≤ i ∧ i < b
    · simp only [hfree i hi.1 hi.2, map_none, reprotect, ite_self]
    · congr 1
      exact propext ⟨fun _ => ⟨by omega, by omega⟩, fun _ => ⟨by omega, by omega⟩⟩

end

/-! ### Forking -/

/-- `fork` for a page. -/
def PageMapping.fork (p : PageMapping O) : PageMapping O :=
  if p.flags.shared then p else { p with flags := p.flags.withCopyOnWrite }

/-- `fork` on the entry of a page of the parent. -/
def PageTableEntry.fork (e : PageTableEntry) : Option (PageMapping O) → PageTableEntry
  | none => e
  | some p =>
    if p.flags.shared then e
    else if p.flags.write then e.remap p.flags.withCopyOnWrite.withoutWrite
    else e

namespace AddressSpace

lemma endPage_forkMapping (m : MappedObject O) : (forkMapping m).endPage = m.endPage := by
  rw [forkMapping]
  split_ifs <;> rfl

lemma disjointed_fork {s : Mappings O} (h : Disjointed s) :
    Disjointed (s.map forkMapping startPage_forkMapping) :=
  h.map startPage_forkMapping endPage_forkMapping

lemma lookup_fork (s : Mappings O) (i : ℕ) :
    Mappings.lookup (s.map forkMapping startPage_forkMapping) i = (s.lookup i).map (·.fork) := by
  rw [Mappings.lookup, valueAt, at?_map startPage_forkMapping endPage_forkMapping, Option.map_map,
    Mappings.lookup, valueAt, Option.map_map]
  congr 1
  funext m
  cases hshared : m.flags.shared <;>
    simp [forkMapping, pageAt, PageMapping.fork, hshared]

lemma forkTable_apply (t : PageTable) (m : MappedObject O) (i : ℕ) :
    forkTable t m i = if Covers m i then (t i).fork (some (m.pageAt i)) else t i := by
  cases hshared : m.flags.shared with
  | true => simp [forkTable, PageTableEntry.fork, MappedObject.pageAt, hshared]
  | false =>
    cases hwrite : m.flags.write with
    | true =>
      simp only [forkTable, PageTableEntry.fork, MappedObject.pageAt, hshared, hwrite,
        Bool.false_eq_true, ↓reduceIte, PageTable.remapPages_apply]
      rfl
    | false => simp [forkTable, PageTableEntry.fork, MappedObject.pageAt, hwrite]

/-- Every page belongs to one mapping, so that its entry is changed once. -/
lemma foldl_forkTable_apply {l : List (MappedObject O)} (hl : l.Pairwise Apart) (t : PageTable)
    (i : ℕ) : l.foldl forkTable t i =
      (t i).fork ((l.find? (Covers · i)).map (·.pageAt i)) := by
  induction l generalizing t with
  | nil => rfl
  | cons m l ih =>
    obtain ⟨hm, hl⟩ := pairwise_cons.mp hl
    rw [foldl_cons, ih hl, forkTable_apply]
    by_cases hmi : Covers m i
    · have hrest : l.find? (Covers · i) = none := by
        refine find?_eq_none.mpr fun n hn hni => ?_
        obtain ⟨hn₁, hn₂⟩ : Covers n i := by simpa using hni
        have hap := hm n hn
        simp only [Apart, Covers] at hap hmi
        omega
      simp only [hrest, hmi, find?_cons_of_pos, decide_true, map_none]
      rfl
    · simp only [hmi, ↓reduceIte, decide_false, Bool.false_eq_true, not_false_eq_true,
        find?_cons_of_neg]

end AddressSpace

end Zinnia
