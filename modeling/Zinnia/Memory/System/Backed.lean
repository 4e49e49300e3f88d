import Zinnia.Memory.System.Frames
import Zinnia.Syscall.Memory.Properties

/-!
# Entries of page tables and pages of objects

An entry that is present has the frame of the object page that the virtual page is mapped to. The
calls of a process keep this, as they only take entries away or change their permissions; the page
fault handler is the only one to add entries.
-/

namespace Zinnia

open Option PageTableEntry

variable {O : Type}

/-- The page `q` is the same page of an object as `p`. It may have got other permissions, or have
become copy-on-write if it is not shared. -/
structure PageMapping.Same (p q : PageMapping O) : Prop where
  object : q.object = p.object
  objectPage : q.objectPage = p.objectPage
  shared : q.flags.shared = p.flags.shared
  copyOnWrite : p.flags.copyOnWrite → q.flags.copyOnWrite
  ofCopyOnWrite : q.flags.copyOnWrite → p.flags.copyOnWrite ∨ ¬ p.flags.shared

lemma PageMapping.Same.refl (p : PageMapping O) : p.Same p := ⟨rfl, rfl, rfl, id, Or.inl⟩

lemma PageMapping.same_reprotect (p : PageMapping O) (prot : Prot) :
    p.Same (p.reprotect prot.toVmFlags) :=
  ⟨rfl, rfl, rfl, id, Or.inl⟩

lemma PageMapping.same_fork (p : PageMapping O) : p.Same p.fork := by
  rw [PageMapping.fork]
  split_ifs with hshared
  · exact Same.refl p
  · exact ⟨rfl, rfl, rfl, fun _ => rfl, fun _ => .inr hshared⟩

namespace AddressSpace

/-- What the calls of a process do to its pages: they keep them or take them away. Only objects in
`P` get mapped. -/
structure Keeps (P : O → Prop) (s s' : AddressSpace O) : Prop where
  wf : s'.Wf
  mapped : ∀ i q, s'.lookup i = some q → (∃ p, s.lookup i = some p ∧ p.Same q) ∨ P q.object
  present : ∀ i, (s'.table i).isPresent → (s.table i).isPresent ∧
    (s'.table i).address = (s.table i).address ∧
      ∃ p q, s.lookup i = some p ∧ s'.lookup i = some q ∧ p.Same q

section

variable {P : O → Prop} {s s' : AddressSpace O} {addr : VirtAddr} {len : NonZeroUsize}
  {size : Usize} {r : EResult Usize}

section

variable (h : s.Wf)

include h

lemma exists_lookup_of_present {i : ℕ} (hi : (s.table i).isPresent) : ∃ p, s.lookup i = some p :=
  isSome_iff_exists.mp (h.present i hi)

/-- The accessed and dirty bits do not matter. -/
lemma keeps_sameCore {t : PageTable} (ht : SameCore s.table t) :
    Keeps P s { s with table := t } := by
  refine ⟨h.sameCore ht, fun i q hq => .inl ⟨q, hq, .refl q⟩, fun i hi => ?_⟩
  have hi' : (s.table i).isPresent := by
    rwa [← isPresent_core, ht i, isPresent_core] at hi
  obtain ⟨p, hp⟩ := exists_lookup_of_present h hi'
  refine ⟨hi', ?_, p, p, hp, hp, .refl p⟩
  rw [← address_core, ht i, address_core]

lemma Keeps.refl : Keeps P s s := keeps_sameCore h fun _ => rfl

lemma keeps_map [MemoryObject O] {object : O} (hobject : P object) {prot : VmFlags}
    {offset : BitVec 64} (heff : MapEffect s s' addr len object prot offset) : Keeps P s s' := by
  refine ⟨h.map heff, fun i q hq => ?_, fun i hi => ?_⟩
  · rw [heff.lookup i] at hq
    split_ifs at hq
    · cases hq
      exact .inr hobject
    · exact .inl ⟨q, hq, .refl q⟩
  · by_cases hin : InRange addr len i
    · exact absurd hi (heff.not_present h hin)
    · obtain ⟨htable, hlook⟩ := heff.outside hin
      rw [htable] at hi ⊢
      obtain ⟨p, hp⟩ := exists_lookup_of_present h hi
      exact ⟨hi, rfl, p, p, hp, hlook.trans hp, .refl p⟩

lemma keeps_protect {prot : Prot} (heff : ProtectEffect s s' addr len prot.toVmFlags) :
    Keeps P s s' := by
  refine ⟨h.protect heff, fun i q hq => ?_, fun i hi => ?_⟩
  · rw [heff.lookup i] at hq
    split_ifs at hq
    · obtain ⟨p, hp, rfl⟩ := map_eq_some_iff.mp hq
      exact .inl ⟨p, hp, p.same_reprotect prot⟩
    · exact .inl ⟨q, hq, .refl q⟩
  · have htable := heff.table i
    have hlook := heff.lookup i
    split_ifs at htable hlook
    · cases hp : s.lookup i with
      | none =>
        rw [htable, hp, reprotect] at hi
        have := h.present i hi
        rw [hp] at this
        cases this
      | some p =>
        rw [hp, reprotect] at htable
        rw [htable, isPresent_remap] at hi
        refine ⟨hi, ?_, p, _, rfl, by rw [hlook, hp, map_some], p.same_reprotect prot⟩
        rw [htable, address_remap]
    · rw [htable] at hi ⊢
      obtain ⟨p, hp⟩ := exists_lookup_of_present h hi
      exact ⟨hi, rfl, p, p, hp, hlook.trans hp, .refl p⟩

lemma keeps_unmap (hwf : s'.Wf) (heff : UnmapEffect s s' addr len) : Keeps P s s' := by
  refine ⟨hwf, fun i q hq => ?_, fun i hi => ?_⟩
  · rw [heff.lookup i] at hq
    split_ifs at hq
    exact .inl ⟨q, hq, .refl q⟩
  · obtain ⟨hlook, hcore⟩ := heff.kept h hi
    rw [← isPresent_core, hcore, isPresent_core] at hi
    obtain ⟨p, hp⟩ := exists_lookup_of_present h hi
    refine ⟨hi, ?_, p, p, hp, hlook.trans hp, .refl p⟩
    rw [← address_core, hcore, address_core]

lemma keeps_fork_parent : Keeps P s s.fork.1 := by
  refine ⟨h.fork_parent, fun i q hq => ?_, fun i hi => ?_⟩
  · rw [lookup_fork_parent] at hq
    obtain ⟨p, hp, rfl⟩ := map_eq_some_iff.mp hq
    exact .inl ⟨p, hp, p.same_fork⟩
  · have htable := table_fork_parent h i
    have hsame : (s.fork.1.table i).isPresent = (s.table i).isPresent ∧
        (s.fork.1.table i).address = (s.table i).address := by
      rw [htable]
      cases hp : s.lookup i with
      | none => exact ⟨rfl, rfl⟩
      | some p =>
        rw [PageTableEntry.fork]
        split_ifs
        · exact ⟨rfl, rfl⟩
        · exact ⟨isPresent_remap _ _, address_remap _ _⟩
        · exact ⟨rfl, rfl⟩
    rw [hsame.1] at hi
    obtain ⟨p, hp⟩ := exists_lookup_of_present h hi
    refine ⟨hi, hsame.2, p, p.fork, hp, ?_, p.same_fork⟩
    rw [lookup_fork_parent, hp, map_some]

lemma keeps_fork_child : Keeps P s s.fork.2 := by
  refine ⟨h.fork_child, fun i q hq => ?_, fun i hi => ?_⟩
  · rw [lookup_fork_child] at hq
    obtain ⟨p, hp, rfl⟩ := map_eq_some_iff.mp hq
    exact .inl ⟨p, hp, p.same_fork⟩
  · simp [AddressSpace.fork] at hi

end

/-! ### The system calls -/

lemma MapsOnce.keeps [MemoryObject O] {call : Option (EResult VirtAddr × AddressSpace O)}
    (h : s.MapsOnce P call) (hwf : s.Wf) {r : EResult VirtAddr} (hcall : call = some (r, s')) :
    Keeps P s s' := by
  obtain hnone | ⟨e, he⟩ | ⟨object, addr, len, prot, offset, value, hobject, hmap⟩ := h
  · rw [hnone] at hcall
    cases hcall
  · rw [he] at hcall
    cases hcall
    exact Keeps.refl hwf
  · rw [hmap] at hcall
    obtain ⟨e, he, -⟩ | ⟨s₁, hs₁, heff, -⟩ := mapObject_cases hwf addr len object prot offset
    · rw [he] at hcall
      cases hcall
      exact Keeps.refl hwf
    · rw [hs₁] at hcall
      cases hcall
      exact keeps_map hwf hobject heff

lemma keeps_mprotect (h : s.Wf) {prot : BitVec 32}
    (hcall : s.mprotect addr size prot = some (r, s')) : Keeps P s s' := by
  obtain rfl | ⟨-, len, -, heff⟩ := mprotect_cases h hcall
  · exact Keeps.refl h
  · exact keeps_protect h heff

/-- `munmap` changes nothing, or it removes pages. -/
lemma munmap_cases (h : s.Wf) (hcall : s.munmap addr size = some (r, s')) :
    s' = s ∨ s'.Wf ∧ ∃ len, UnmapEffect s s' addr len := by
  simp only [munmap] at hcall
  split at hcall
  · cases hcall
    exact .inl rfl
  · rename_i len _
    obtain ⟨e, he, -⟩ | ⟨-, r', s₁, d, hs₁, heff, -⟩ := unmap_cases h addr len
    · rw [he] at hcall
      cases hcall
      exact .inl rfl
    · have hwf := h.unmap_call hs₁
      rw [hs₁] at hcall
      cases hcall
      exact .inr ⟨hwf, len, heff⟩

lemma keeps_munmap (h : s.Wf) (hcall : s.munmap addr size = some (r, s')) : Keeps P s s' := by
  obtain rfl | ⟨hwf, len, heff⟩ := munmap_cases h hcall
  · exact Keeps.refl h
  · exact keeps_unmap h hwf heff

end

/-! ### Frames of entries -/

/-- The objects that are mapped exist, and an entry that is present has the frame of its page. -/
structure Backed (frame : ℕ → ℕ → Option PhysAddr) (alive : ℕ → Prop)
    (s : AddressSpace ObjectRef) : Prop where
  wf : s.Wf
  alive : ∀ i p, s.lookup i = some p → alive p.object.id
  present : ∀ i, (s.table i).isPresent → ∃ p a, s.lookup i = some p ∧
    frame p.object.id p.objectPage = some a ∧
      idxFromAddr (s.table i).address = idxFromAddr a

variable {frame frame' : ℕ → ℕ → Option PhysAddr} {alive alive' : ℕ → Prop}
  {s s' : AddressSpace ObjectRef}

lemma Backed.new (h : AddressSpace.new = .ok s) : s.Backed frame alive := by
  refine ⟨Wf.new h, fun i p hp => ?_, fun i hi => ?_⟩
  · rw [new_eq] at h
    cases h
    simp [Segment.valueAt, Segment.at?_empty] at hp
  · rw [new_eq] at h
    cases h
    simp at hi

lemma Backed.mono (h : s.Backed frame alive) (hframe : ∀ i p a, s.lookup i = some p →
    (s.table i).isPresent → frame p.object.id p.objectPage = some a →
      frame' p.object.id p.objectPage = some a)
    (halive : ∀ i p, s.lookup i = some p → alive p.object.id → alive' p.object.id) :
    s.Backed frame' alive' := by
  refine ⟨h.wf, fun i p hp => halive i p hp (h.alive i p hp), fun i hi => ?_⟩
  obtain ⟨p, a, hp, ha, haddr⟩ := h.present i hi
  exact ⟨p, a, hp, hframe i p a hp hi ha, haddr⟩

lemma Backed.keeps (h : s.Backed frame alive) {P : ObjectRef → Prop} (hkeeps : Keeps P s s')
    (hP : ∀ o, P o → alive o.id) : s'.Backed frame alive := by
  refine ⟨hkeeps.wf, fun i q hq => ?_, fun i hi => ?_⟩
  · obtain ⟨p, hp, hsame⟩ | hobject := hkeeps.mapped i q hq
    · rw [hsame.object]
      exact h.alive i p hp
    · exact hP q.object hobject
  · obtain ⟨hpresent, haddress, p, q, hp, hq, hsame⟩ := hkeeps.present i hi
    obtain ⟨p', a, hp', ha, haddr⟩ := h.present i hpresent
    obtain rfl := some.inj (hp.symm.trans hp')
    refine ⟨q, a, hq, ?_, haddress ▸ haddr⟩
    rw [hsame.object, hsame.objectPage]
    exact ha

lemma idxFromAddr_and_addrMask {a : PhysAddr} (ha : idxFromAddr a < 2 ^ 40) :
    idxFromAddr (a &&& PageTableEntry.addrMask) = idxFromAddr a := by
  have hmask : addrMask.toNat >>> 12 = 2 ^ 40 - 1 := by decide
  have hshift : ∀ b : PhysAddr, idxFromAddr b = b.toNat >>> 12 := fun b => by
    rw [idxFromAddr, Nat.shiftRight_eq_div_pow]
  rw [hshift] at ha
  rw [hshift, hshift, BitVec.toNat_and, Nat.shiftRight_and_distrib, hmask,
    Nat.and_two_pow_sub_one_eq_mod, Nat.mod_eq_of_lt ha]

/-- The handler installs the frame of a page that exists. -/
lemma Backed.fault (h : s.Backed frame alive) {info : PageFaultInfo}
    {resolved : ResolvedFault ObjectRef} {cowObject : Option ObjectRef} {phys : PhysAddr}
    {p : PageMapping ObjectRef} (hcow : cowObject.isSome = resolved.cowWrite)
    (heff : FaultEffect s s' info resolved cowObject phys p)
    (hframe : frame (System.faultPage resolved cowObject).1
      (System.faultPage resolved cowObject).2 = some phys)
    (halive : ∀ o, cowObject = some o → alive o.id) (hphys : idxFromAddr phys < 2 ^ 40) :
    s'.Backed frame alive := by
  have hlook := heff.lookup
  refine ⟨h.wf.fault hcow heff, fun i q hq => ?_, fun i hi => ?_⟩
  · rw [hlook i] at hq
    split_ifs at hq
    · cases cowObject with
      | none =>
        cases hq
        exact h.alive _ _ heff.mapped
      | some o =>
        cases hq
        exact halive o rfl
    · exact h.alive i q hq
  · have htable := heff.table i
    have hi' := hlook i
    split_ifs at htable hi' with heq
    · refine ⟨_, phys, hi', ?_, ?_⟩
      · cases cowObject with
        | none =>
          rw [elim_none, heff.object.1, heff.object.2]
          exact hframe
        | some o => exact hframe
      · rw [htable, address_new, idxFromAddr_and_addrMask hphys]
    · rw [htable] at hi ⊢
      obtain ⟨q, a, hq, ha, haddr⟩ := h.present i hi
      exact ⟨q, a, hi'.trans hq, ha, haddr⟩

end AddressSpace

end Zinnia
