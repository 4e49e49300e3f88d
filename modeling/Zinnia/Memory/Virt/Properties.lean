import Zinnia.Memory.Virt.Effects

/-!
# Properties of address spaces

What holds in every address space that the kernel can reach.
-/

namespace Zinnia

namespace AddressSpace

variable {O : Type} [MemoryObject O] [DecidableEq O]

/-- The address spaces that calls, accesses and page faults lead to. -/
inductive Reachable : AddressSpace O → Prop
  | new {s} : AddressSpace.new = .ok s → Reachable s
  | mapObject {s s' r} (object addr len prot offset) :
    Reachable s → s.mapObject object addr len prot offset = some (r, s') → Reachable s'
  | protect {s s' r} (addr len) (prot : Prot) :
    Reachable s → s.protect addr len prot.toVmFlags = some (r, s') → Reachable s'
  | unmap {s s' r d} (addr len) :
    Reachable s → s.unmap addr len = some (r, s', d) → Reachable s'
  | harvest {s t d} (addr len) :
    Reachable s → s.harvestDirtyRange addr len = .ok (t, d) → Reachable { s with table := t }
  | harvestObject {s} (target : O) :
    Reachable s → Reachable { s with table := (s.harvestDirtyObject target).1 }
  | access {s} (page : ℕ) (write : Bool) : Reachable s → (s.table page).isPresent →
    Reachable { s with table := Function.update s.table page ((s.table page).touch write) }
  | fault {s s'} (info resolved cowObject phys) : Reachable s →
    cowObject.isSome = resolved.cowWrite → s.install info resolved cowObject phys = some s' →
    Reachable s'
  | forkParent {s} : Reachable s → Reachable s.fork.1
  | forkChild {s} : Reachable s → Reachable s.fork.2

theorem Reachable.wf {s : AddressSpace O} (h : Reachable s) : s.Wf := by
  induction h with
  | new hnew => exact Wf.new hnew
  | mapObject object addr len prot offset _ hcall ih =>
    obtain ⟨e, he, -⟩ | ⟨s₁, hs₁, heff, -⟩ := mapObject_cases ih addr len object prot offset
    · rw [he] at hcall
      cases hcall
      exact ih
    · rw [hs₁] at hcall
      cases hcall
      exact ih.map heff
  | protect addr len prot _ hcall ih =>
    obtain ⟨e, he⟩ | ⟨s₁, hs₁, heff⟩ := protect_cases ih addr len prot.toVmFlags
    · rw [he] at hcall
      cases hcall
      exact ih
    · rw [hs₁] at hcall
      cases hcall
      exact ih.protect heff
  | unmap addr len _ hcall ih => exact ih.unmap_call hcall
  | @harvest s t d addr len _ hcall ih =>
    by_cases hadd : (checkedAdd addr len).isNone
    · rw [Option.isNone_iff_eq_none] at hadd
      simp [harvestDirtyRange, hadd] at hcall
    · obtain ⟨t', d', hharvest, hcore⟩ := s.exists_harvestDirtyRange hadd
      rw [hharvest] at hcall
      cases hcall
      exact ih.sameCore hcore
  | @harvestObject s target _ ih => exact ih.sameCore (s.sameCore_harvestDirtyObject target)
  | access page write _ _ ih =>
    refine ih.sameCore fun i => ?_
    by_cases hi : i = page
    · rw [hi, Function.update_self, PageTableEntry.core_touch]
    · rw [Function.update_of_ne hi]
  | fault info resolved cowObject phys _ hcow hcall ih =>
    obtain rfl | ⟨p, heff⟩ := effect_of_install ih hcall
    · exact ih
    · exact ih.fault hcow heff
  | forkParent _ ih => exact ih.fork_parent
  | forkChild _ ih => exact ih.fork_child

/-! ### The pages of an address space -/

/-- The mappings stay disjoint. Every call returns, and a successful one changes the mapped pages
pointwise: `map_object` sets the pages of its range to consecutive pages of the object, `protect`
changes the permissions of its pages, and `unmap` removes its pages. -/
theorem Reachable.pointwise {s : AddressSpace O} (h : Reachable s) :
    (∀ m ∈ s.mappings, ∀ n ∈ s.mappings, m ≠ n →
      m.endPage ≤ n.startPage ∨ n.endPage ≤ m.startPage) ∧
    (∀ object addr len prot offset, ∃ r s',
      s.mapObject object addr len prot offset = some (r, s') ∧ (r = .ok () → ∀ i, s'.lookup i =
        if InRange addr len i then
          some
            { object
              objectPage := offset.toNat / pageSize + (i - addr.toNat / pageSize)
              flags := prot
              cache := MemoryObject.cacheType object }
        else s.lookup i)) ∧
    (∀ addr len, ∀ prot : Prot, ∃ r s', s.protect addr len prot.toVmFlags = some (r, s') ∧
      (r = .ok () → ∀ i, s'.lookup i =
        if InRange addr len i ∧ ¬ len.Wraps then (s.lookup i).map (·.withPermissions prot)
        else s.lookup i)) ∧
    ∀ addr len, ∃ r s' d, s.unmap addr len = some (r, s', d) ∧ (r = .ok () → ∀ i, s'.lookup i =
      if InRange addr len i then none else s.lookup i) := by
  have hwf := h.wf
  refine ⟨hwf.disjointed.apart, fun object addr len prot offset => ?_, fun addr len prot => ?_,
    fun addr len => ?_⟩
  · obtain ⟨e, he, -⟩ | ⟨s', hs', heff, -⟩ := mapObject_cases hwf addr len object prot offset
    · exact ⟨.error e, s, he, nofun⟩
    · exact ⟨.ok (), s', hs', fun _ => heff.lookup⟩
  · obtain ⟨e, he⟩ | ⟨s', hs', heff⟩ := protect_cases hwf addr len prot.toVmFlags
    · exact ⟨.error e, s, he, nofun⟩
    · exact ⟨.ok (), s', hs', fun _ => heff.lookup⟩
  · obtain ⟨e, he, -⟩ | ⟨-, r, s', d, hs', heff, hrel⟩ := unmap_cases hwf addr len
    · exact ⟨.error e, s, [], he, nofun⟩
    · refine ⟨r, s', d, hs', fun hr i => ?_⟩
      obtain ⟨e, -, hre, -⟩ | ⟨range, hrange, -, -⟩ := hrel
      · rw [hr] at hre
        cases hre
      · have huser := (VirtualAllocator.exists_rangeFromAddr_iff hwf.window addr len).mp
          ⟨range, hrange⟩
        rw [heff.lookup i]
        simp only [huser.2.not_wraps, not_false_eq_true, and_true]

/-- The first page that is mapped into a new address space. -/
theorem pointwise_first_page : ∃ s s' : AddressSpace ObjectRef, Reachable s ∧
    s.mapObject ⟨0, .normal⟩ 0x100000000 onePage { read := true } 0x2000 = some (.ok (), s') ∧
    s'.lookup 0x100000 = some ⟨⟨0, .normal⟩, 2, { read := true }, .normal⟩ ∧
    s'.lookup 0x100001 = none := by
  obtain ⟨s', hs'⟩ : ∃ s' : AddressSpace ObjectRef, mapObject
      ⟨fun _ => .empty, ⟨1, 2 ^ 35, 1, BTreeSet.empty⟩, BTreeSet.empty⟩ ⟨0, .normal⟩ 0x100000000
      onePage { read := true } 0x2000 = some (.ok (), s') := ⟨_, rfl⟩
  have hreach := Reachable.new (O := ObjectRef) new_eq
  obtain ⟨r, s₁, hs₁, hlook⟩ :=
    (Reachable.pointwise hreach).2.1 ⟨0, .normal⟩ 0x100000000 onePage { read := true } 0x2000
  rw [hs'] at hs₁
  cases hs₁
  exact ⟨_, s', hreach, hs', hlook rfl 0x100000, hlook rfl 0x100001⟩

end AddressSpace

end Zinnia
