import Zinnia.Syscall.Memory.Properties

/-!
# Dirty entries

What the operations on an address space do to the dirty entries of its shared pages. `fork` and the
accesses of processes keep them, harvesting hands them over to the objects, and `protect`,
`map_object` and the page fault handler lose those that they overwrite.
-/

namespace Zinnia

open Segment Function PageTable List Option

namespace PageTableEntry

variable (e : PageTableEntry)

lemma isDirty_eq : e.isDirty = e.inner.getLsbD 6 := has_shiftLeft e 6 (by decide)

lemma isDirty_touch : (e.touch true).isDirty := by
  rw [isDirty_eq, touch, BitVec.getLsbD_or, getLsbD_bits]
  have hbit : PageFlags.dirty.getLsbD 6 = true := by decide
  simp only [hbit, Bool.and_true, Bool.or_true]

lemma isDirty_clearDirty : e.clearDirty.isDirty = false := by
  rw [isDirty_eq, clearDirty, BitVec.getLsbD_and]
  have hbit : (~~~PageFlags.dirty).getLsbD 6 = false := by decide
  rw [hbit, Bool.and_false]

end PageTableEntry

namespace PageTable

/-- The entry of the page is present, and its dirty bit is set. -/
def isDirtyAt (t : PageTable) (page : ℕ) : Bool := (t page).isPresent && (t page).isDirty

lemma isDirtyAt_congr {t t' : PageTable} {page : ℕ} (h : t' page = t page) :
    t'.isDirtyAt page = t.isDirtyAt page := by
  rw [isDirtyAt, h, isDirtyAt]

lemma takeDirty_eq (t : PageTable) (page : ℕ) : t.takeDirty page =
    (t.isDirtyAt page, if t.isDirtyAt page then update t page (t page).clearDirty else t) := by
  rw [takeDirty, isDirtyAt]
  cases (t page).isPresent <;> cases (t page).isDirty <;> rfl

lemma isDirtyAt_takeDirty (t : PageTable) (page i : ℕ) :
    (t.takeDirty page).2.isDirtyAt i = (decide (i ≠ page) && t.isDirtyAt i) := by
  rw [takeDirty_eq]
  rcases eq_or_ne i page with rfl | hi
  · cases hdirty : t.isDirtyAt i with
    | false => simp [hdirty]
    | true =>
      simp only [↓reduceIte, isDirtyAt, update_self, PageTableEntry.isDirty_clearDirty]
      simp
  · have hsame : (if t.isDirtyAt page then update t page (t page).clearDirty else t) i =
        t i := by
      split_ifs
      · exact update_of_ne hi _ _
      · rfl
    rw [isDirtyAt_congr hsame, decide_eq_true hi, Bool.true_and]

lemma isDirtyAt_touch (t : PageTable) (page i : ℕ) :
    isDirtyAt (update t page ((t page).touch true)) i =
      (decide (i = page) && (t page).isPresent || t.isDirtyAt i) := by
  rcases eq_or_ne i page with rfl | hi
  · have hpresent : ((t i).touch true).isPresent = (t i).isPresent := by
      rw [← PageTableEntry.isPresent_core, PageTableEntry.core_touch, PageTableEntry.isPresent_core]
    simp only [isDirtyAt, update_self, hpresent, PageTableEntry.isDirty_touch]
    cases (t i).isPresent <;> simp
  · rw [isDirtyAt_congr (update_of_ne hi _ _)]
    simp [hi]

end PageTable

namespace AddressSpace

variable {O : Type}

/-! ### Harvesting -/

/-- The round of the loop that harvests a mapping. -/
def harvestPage (m : MappedObject O) (x : PageTable × List (O × ℕ)) (page : ℕ) :
    PageTable × List (O × ℕ) :=
  match x.1.takeDirty page with
  | (true, table) => (table, x.2 ++ [(m.object, m.offsetPage + (page - m.startPage))])
  | (false, _) => x

lemma isDirtyAt_harvestPage (m : MappedObject O) (x : PageTable × List (O × ℕ)) (page i : ℕ) :
    (harvestPage m x page).1.isDirtyAt i = (decide (i ≠ page) && x.1.isDirtyAt i) := by
  rw [harvestPage]
  have htaken := isDirtyAt_takeDirty x.1 page i
  have hdirty : (x.1.takeDirty page).1 = x.1.isDirtyAt page := by rw [takeDirty_eq]
  split
  · rename_i table hcase
    rw [hcase] at htaken
    exact htaken
  · rename_i hcase
    rw [hcase] at hdirty
    by_cases hi : i = page
    · rw [hi, ← hdirty, Bool.and_false]
    · rw [decide_eq_true hi, Bool.true_and]

lemma mem_harvestPage {m : MappedObject O} {x : PageTable × List (O × ℕ)} {page : ℕ} {y : O × ℕ}
    (h : y ∈ x.2 ∨ y = (m.object, m.offsetPage + (page - m.startPage)) ∧ x.1.isDirtyAt page) :
    y ∈ (harvestPage m x page).2 := by
  have hdirty : (x.1.takeDirty page).1 = x.1.isDirtyAt page := by rw [takeDirty_eq]
  rw [harvestPage]
  split
  · rcases h with hmem | ⟨rfl, -⟩
    · exact mem_append_left _ hmem
    · exact mem_append_right _ (mem_singleton_self _)
  · rename_i hcase
    rw [hcase] at hdirty
    rcases h with hmem | ⟨-, htrue⟩
    · exact hmem
    · exact absurd (hdirty.trans htrue) Bool.false_ne_true

/-- The dirty entries of the shared pages are still there, or have been harvested. -/
def Harvesting (s : AddressSpace O) (x : PageTable × List (O × ℕ)) : Prop :=
  ∀ page p, s.lookup page = some p → p.flags.shared → s.table.isDirtyAt page →
    x.1.isDirtyAt page ∨ (p.object, p.objectPage) ∈ x.2

section

variable {s s' : AddressSpace O} {x : PageTable × List (O × ℕ)} {m : MappedObject O}
  {dirtied : List (O × ℕ)} {t : PageTable} {page : ℕ} {r : EResult VirtAddr} {length : Usize}
  {offset : BitVec 64}

lemma Harvesting.harvestPage (hwf : s.Wf) (h : s.Harvesting x) (hm : m ∈ s.mappings)
    (hpage : Covers m page) : s.Harvesting (harvestPage m x page) := by
  intro i p hp hshared hdirty
  rcases h i p hp hshared hdirty with hleft | hmem
  · rw [isDirtyAt_harvestPage]
    rcases eq_or_ne i page with rfl | hi
    · -- the page belongs to the mapping that is being harvested
      rw [AddressSpace.lookup, Mappings.lookup, valueAt,
        hwf.disjointed.at?_eq_some.mpr ⟨hm, hpage⟩] at hp
      cases hp
      exact .inr (mem_harvestPage (.inr ⟨rfl, hleft⟩))
    · exact .inl (by simp [hi, hleft])
  · exact .inr (mem_harvestPage (.inl hmem))

lemma harvestMapping_eq (a b : ℕ) (m : MappedObject O) :
    harvestMapping a b x m = if !m.flags.shared then x
      else Loop.forRange (max a m.startPage) (min b m.endPage) x (harvestPage m) := rfl

lemma Harvesting.harvestMapping (hwf : s.Wf) (h : s.Harvesting x) (hm : m ∈ s.mappings) (a b : ℕ) :
    s.Harvesting (harvestMapping a b x m) := by
  rw [harvestMapping_eq]
  split_ifs
  · exact h
  · refine Loop.forRange_induction_mem h fun x page hlow hhigh hx => hx.harvestPage hwf hm ?_
    exact ⟨(le_max_right _ _).trans hlow, hhigh.trans_le (min_le_right _ _)⟩

/-- Harvesting makes no entry dirty. -/
lemma isDirtyAt_of_harvestMapping {a b : ℕ} {i : ℕ} (h : x.1.isDirtyAt i = false) :
    (harvestMapping a b x m).1.isDirtyAt i = false := by
  rw [harvestMapping_eq]
  split_ifs
  · exact h
  · refine Loop.forRange_induction (P := fun x : PageTable × List (O × ℕ) =>
      x.1.isDirtyAt i = false) h fun x page hx => ?_
    rw [isDirtyAt_harvestPage, hx, Bool.and_false]

lemma isDirtyAt_harvestMapping {a b : ℕ} (hshared : m.flags.shared) {i : ℕ}
    (hlow : max a m.startPage ≤ i) (hhigh : i < min b m.endPage) :
    (harvestMapping a b x m).1.isDirtyAt i = false := by
  rw [harvestMapping_eq, if_neg (by simp [hshared])]
  refine Loop.forRange_forall (Q := fun i (x : PageTable × List (O × ℕ)) =>
    x.1.isDirtyAt i = false) (fun x page => ?_) (fun x page j hj => ?_) hlow hhigh
  · rw [isDirtyAt_harvestPage]
    simp
  · rw [isDirtyAt_harvestPage, hj, Bool.and_false]

/-- The loop over the mappings harvests every dirty entry of a shared page in its range, and loses
none. -/
lemma harvest_spec (hwf : s.Wf) (a b : MappedObject O → ℕ) (l : List (MappedObject O))
    (hl : ∀ m ∈ l, m ∈ s.mappings) (hx : s.Harvesting x) :
    s.Harvesting (l.foldl (fun x m => harvestMapping (a m) (b m) x m) x) ∧
      (∀ i, x.1.isDirtyAt i = false →
        (l.foldl (fun x m => harvestMapping (a m) (b m) x m) x).1.isDirtyAt i = false) ∧
      ∀ m ∈ l, m.flags.shared → ∀ i, max (a m) m.startPage ≤ i → i < min (b m) m.endPage →
        (l.foldl (fun x m => harvestMapping (a m) (b m) x m) x).1.isDirtyAt i = false := by
  induction l generalizing x with
  | nil => exact ⟨hx, fun _ => id, fun m hm => by cases hm⟩
  | cons m l ih =>
    obtain ⟨hharvest, hkeep, hclean⟩ := ih (fun n hn => hl n (mem_cons_of_mem m hn))
      (hx.harvestMapping hwf (hl m mem_cons_self) (a m) (b m))
    refine ⟨hharvest, fun i hi => hkeep i (isDirtyAt_of_harvestMapping hi),
      forall_mem_cons.mpr ⟨fun hshared i hlow hhigh => ?_, hclean⟩⟩
    exact hkeep i (isDirtyAt_harvestMapping hshared hlow hhigh)

/-! ### What the operations keep -/

/-- The dirty entries of the shared pages outside `W` are still there, or have been harvested. -/
def Saves (W : ℕ → Prop) (s s' : AddressSpace O) (dirtied : List (O × ℕ)) : Prop :=
  ∀ page p, s.lookup page = some p → p.flags.shared → s.table.isDirtyAt page → ¬ W page →
    (∃ q, s'.lookup page = some q ∧ q.object = p.object ∧ q.objectPage = p.objectPage ∧
      q.flags.shared ∧ s'.table.isDirtyAt page) ∨ (p.object, p.objectPage) ∈ dirtied

lemma saves_of_eq {W : ℕ → Prop}
    (h : ∀ page, ¬ W page → s'.lookup page = s.lookup page ∧
      (s.table.isDirtyAt page → s'.table.isDirtyAt page)) : Saves W s s' [] := by
  intro page p hp hshared hdirty hW
  obtain ⟨hlook, htable⟩ := h page hW
  exact .inl ⟨p, hlook.trans hp, rfl, rfl, hshared, htable hdirty⟩

lemma Harvesting.saves (h : s.Harvesting (t, dirtied)) :
    Saves (fun _ => False) s { s with table := t } dirtied := by
  intro page p hp hshared hdirty _
  rcases h page p hp hshared hdirty with hleft | hmem
  · exact .inl ⟨p, hp, rfl, rfl, hshared, hleft⟩
  · exact .inr hmem

variable {addr : VirtAddr} {len : NonZeroUsize} {openFiles : BitVec 32 → Option (OpenFile O)}

lemma sameCore_harvestDirtyRange (h : s.harvestDirtyRange addr len = .ok (t, dirtied)) :
    SameCore s.table t := by
  rw [harvestDirtyRange] at h
  split at h
  · cases h
  · rename_i endAddr _
    have hcore := SameCore.foldl_harvestMapping (fun _ => addr.toNat / pageSize)
      (fun _ => pageCount endAddr)
      (s.mappings.elems.filter (Overlaps (addr.toNat / pageSize) (pageCount endAddr) ·))
      (x := (s.table, [])) fun _ => rfl
    rw [Except.ok.inj h] at hcore
    exact hcore

section

variable (hwf : s.Wf)

include hwf

/-- `harvest_dirty_range` harvests the pages up to the end of the range, unless that cannot be
rounded up. -/
lemma harvestDirtyRange_spec (h : s.harvestDirtyRange addr len = .ok (t, dirtied)) :
    s.Harvesting (t, dirtied) ∧ ∀ page p, s.lookup page = some p → p.flags.shared →
      addr.toNat / pageSize ≤ page → page < (addr.toNat + len.1.toNat + 4095) % 2 ^ 64 / pageSize →
      t.isDirtyAt page = false := by
  rw [harvestDirtyRange, checkedAdd] at h
  split_ifs at h with hadd
  have hend : pageCount (addr + len.1) =
      (addr.toNat + len.1.toNat + 4095) % 2 ^ 64 / pageSize := by
    rw [pageCount_eq, BitVec.toNat_add, Nat.mod_add_mod]
  obtain ⟨hharvest, -, hclean⟩ := harvest_spec hwf (fun _ => addr.toNat / pageSize)
    (fun _ => pageCount (addr + len.1))
    (s.mappings.elems.filter (Overlaps (addr.toNat / pageSize) (pageCount (addr + len.1)) ·))
    (fun m hm => mem_of_mem_filter hm) (x := (s.table, []))
    fun page p _ _ hdirty => .inl hdirty
  rw [Except.ok.inj h] at hharvest hclean
  refine ⟨hharvest, fun page p hp hshared hlow hhigh => ?_⟩
  rw [← hend] at hhigh
  obtain ⟨m, hm, rfl⟩ := map_eq_some_iff.mp hp
  obtain ⟨hmem, hstart, hstop⟩ := hwf.disjointed.at?_eq_some.mp hm
  have hover : Overlaps (addr.toNat / pageSize) (pageCount (addr + len.1)) m :=
    ⟨hlow.trans_lt hstop, lt_of_le_of_lt hstart hhigh⟩
  exact hclean m (List.mem_filter.mpr ⟨hmem, decide_eq_true hover⟩) hshared page
    (max_le hlow hstart) (lt_min hhigh hstop)

/-- `unmap` fails at once, or harvests its range and then removes the pages. -/
lemma exists_of_unmap {r : EResult Unit} (hcall : s.unmap addr len = some (r, s', dirtied)) :
    s' = s ∨ isPageAligned addr ∧ ∃ t, s.harvestDirtyRange addr len = .ok (t, dirtied) ∧
      ∀ i, if (addr.toNat / pageSize ≤ i ∧ i < addr.toNat / pageSize + pageCount len) ∧
        (s.lookup i).isSome then s'.table i = .empty
      else s'.table i = t i ∧ s'.lookup i = s.lookup i := by
  rw [unmap] at hcall
  split_ifs at hcall with hadd haddr
  · cases hcall
    exact .inl rfl
  · cases hcall
    exact .inl rfl
  · split at hcall
    · cases hcall
      exact .inl rfl
    · rename_i t d hharvest
      refine .inr ⟨by simpa using haddr, t, ?_⟩
      obtain ⟨x, u, hrun, -, hlook, htable⟩ := run_carve
        (b := addr.toNat / pageSize + pageCount len)
        hwf.disjointed (Nat.le_add_right _ _) t (Nat.lt_succ_self _)
      simp only [funext unmapStep_eq_carve, hrun, bind_eq_bind] at hcall
      have heffect : ∀ a : VirtualAllocator, ∀ i,
          if (addr.toNat / pageSize ≤ i ∧ i < addr.toNat / pageSize + pageCount len) ∧
            (s.lookup i).isSome then u i = .empty
          else u i = t i ∧ lookup ⟨u, a, x⟩ i = s.lookup i := by
        intro a i
        split_ifs with hi
        · exact (htable i).trans (if_pos hi)
        · refine ⟨(htable i).trans (if_neg hi), (hlook i).trans ?_⟩
          split_ifs with hrange
          · exact (not_isSome_iff_eq_none.mp fun hsome => hi ⟨hrange, hsome⟩).symm
          · rfl
      split at hcall
      · cases hcall
        exact ⟨hharvest, heffect s.allocator⟩
      · cases hcall
        exact ⟨hharvest, heffect _⟩

/-- `munmap` saves every dirty entry, unless the end of its range cannot be rounded up. -/
lemma saves_unmap {r : EResult Unit} (hcall : s.unmap addr len = some (r, s', dirtied)) :
    Saves (fun page => InRange addr len page ∧ 2 ^ 64 ≤ addr.toNat + len.1.toNat + (pageSize - 1))
      s s' dirtied := by
  intro page p hp hshared hdirty hW
  obtain rfl | ⟨haddr, t, hharvest, heffect⟩ := exists_of_unmap hwf hcall
  · exact .inl ⟨p, hp, rfl, rfl, hshared, hdirty⟩
  obtain ⟨hsaved, hclean⟩ := harvestDirtyRange_spec hwf hharvest
  have hpage := heffect page
  rcases hsaved page p hp hshared hdirty with hleft | hmem
  · split_ifs at hpage with hi
    · -- a page that is unmapped has been harvested
      have hwraps : ¬ len.Wraps := by
        intro hwraps
        rw [NonZeroUsize.pageCount_of_wraps hwraps] at hi
        omega
      have hin : InRange addr len page := (inRange_iff_of_not_wraps haddr hwraps page).mpr hi.1
      have hnot := hclean page p hp hshared hi.1.1 ?_
      · rw [hnot] at hleft
        cases hleft
      · have hend : addr.toNat + len.1.toNat + (pageSize - 1) < 2 ^ 64 :=
          not_le.mp fun hge => hW ⟨hin, hge⟩
        rw [InRange] at hin
        have hpos := len.toNat_pos
        simp only [pageSize] at *
        omega
    · exact .inl ⟨p, hpage.2.trans hp, rfl, rfl, hshared,
        (isDirtyAt_congr hpage.1).trans hleft⟩
  · exact .inr hmem

lemma saves_mprotect {size : Usize} {prot : BitVec 32} {r : EResult Usize}
    (hcall : s.mprotect addr size prot = some (r, s')) :
    Saves (fun page => ∃ len, NonZeroUsize.new size = some len ∧ InRange addr len page) s s' [] := by
  refine saves_of_eq fun page hW => ?_
  obtain rfl | ⟨-, len, hlen, heff⟩ := mprotect_cases hwf hcall
  · exact ⟨rfl, id⟩
  · have hout : ¬ (InRange addr len page ∧ ¬ len.Wraps) := fun hin => hW ⟨len, hlen, hin.1⟩
    have htable := (heff.table page).trans (if_neg hout)
    exact ⟨(heff.lookup page).trans (if_neg hout), (isDirtyAt_congr htable).trans⟩

lemma saves_mmap [MemoryObject O] {anon : O} {prot flags fd : BitVec 32}
    (hcall : s.mmap openFiles anon addr length prot flags fd offset = some (r, s')) :
    Saves (fun page => ∃ len start, NonZeroUsize.new length = some len ∧
      s.mmapAddr addr len (MmapFlags.ofBits flags) = .ok start ∧ InRange start len page) s s' [] := by
  refine saves_of_eq fun page hW => ?_
  obtain ⟨rfl, -⟩ | ⟨len, start, object, addr', size, vmProt, offset', hlen, hstart, -, hasks, heff,
    -⟩ := mmap_cases hwf hcall
  · exact ⟨rfl, id⟩
  · obtain ⟨htable, hlook⟩ := heff.outside fun hin =>
      hW ⟨len, start, hlen, hstart, hasks.range.inRange hin⟩
    exact ⟨hlook, (isDirtyAt_congr htable).trans⟩

/-- `mmap` makes no entry dirty. -/
lemma isDirtyAt_of_mmap [MemoryObject O] {anon : O} {prot flags fd : BitVec 32}
    (hcall : s.mmap openFiles anon addr length prot flags fd offset = some (r, s'))
    (hdirty : s'.table.isDirtyAt page) : s.table.isDirtyAt page := by
  obtain ⟨rfl, -⟩ | ⟨len, start, object, addr', size, vmProt, offset', -, -, -, -, heff, -⟩ :=
    mmap_cases hwf hcall
  · exact hdirty
  · by_cases hin : InRange addr' size page ∧ (s.lookup page).isSome
    · rw [isDirtyAt, (heff.table page).trans (if_pos hin)] at hdirty
      cases hdirty
    · rwa [isDirtyAt_congr ((heff.table page).trans (if_neg hin))] at hdirty

lemma saves_fork : Saves (fun _ => False) s s.fork.1 [] := by
  intro page p hp hshared hdirty _
  refine .inl ⟨p, ?_, rfl, rfl, hshared, ?_⟩
  · rw [lookup_fork_parent, hp, map_some, PageMapping.fork, if_pos hshared]
  · have htable : s.fork.1.table page = s.table page := by
      rw [table_fork_parent hwf, hp, PageTableEntry.fork, if_pos hshared]
    exact (isDirtyAt_congr htable).trans hdirty

lemma saves_install [MemoryObject O] [DecidableEq O] {info : PageFaultInfo}
    {resolved : ResolvedFault O} {cowObject : Option O} {phys : PhysAddr}
    (hcall : s.install info resolved cowObject phys = some s') :
    Saves (fun page => page = info.faultyPage) s s' [] := by
  refine saves_of_eq fun page hW => ?_
  obtain rfl | ⟨p, heff⟩ := effect_of_install hwf hcall
  · exact ⟨rfl, id⟩
  · have htable := (heff.table page).trans (if_neg hW)
    exact ⟨(heff.lookup page).trans (if_neg hW), (isDirtyAt_congr htable).trans⟩

end

end

end AddressSpace

end Zinnia
