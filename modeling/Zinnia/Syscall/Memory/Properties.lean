import Zinnia.Syscall.Memory.Requests

/-!
# Properties of the memory system calls
-/

namespace Zinnia

variable {O : Type}

/-- The entry permits no access that `prot` does not include. -/
def PageTableEntry.Within (e : PageTableEntry) (prot : Prot) : Prop :=
  (e.allowsRead → prot.read) ∧ (e.allowsWrite → prot.write) ∧ (e.allowsExec → prot.exec)

instance (e : PageTableEntry) (prot : Prot) : Decidable (e.Within prot) :=
  inferInstanceAs (Decidable (_ ∧ _))

lemma PageTableEntry.within_of_not_present {e : PageTableEntry} (h : ¬ e.isPresent) (prot : Prot) :
    e.Within prot := by
  simp [Within, allowsRead, allowsWrite, allowsExec, h]

namespace AddressSpace

/-! ### Permissions -/

lemma mprotect_eq (s : AddressSpace O) (addr : VirtAddr) (len : NonZeroUsize) (prot : BitVec 32) :
    s.mprotect addr len prot = answer 0 (s.protect addr len (Prot.ofBits prot).toVmFlags) := by
  simp only [mprotect, show NonZeroUsize.new len = some len from dif_pos len.2]

/-- `mprotect` changes nothing, or it changes permissions. -/
lemma mprotect_cases {s s' : AddressSpace O} (hwf : s.Wf) {addr : VirtAddr} {size : Usize}
    {prot : BitVec 32} {r : EResult Usize} (hcall : s.mprotect addr size prot = some (r, s')) :
    s' = s ∨ r = .ok 0 ∧ ∃ len, NonZeroUsize.new size = some len ∧
      ProtectEffect s s' addr len (Prot.ofBits prot).toVmFlags := by
  rw [mprotect] at hcall
  split at hcall
  · cases hcall
    exact .inl rfl
  · rename_i len hlen
    obtain ⟨e, he⟩ | ⟨s₁, hs₁, heff⟩ := protect_cases hwf addr len (Prot.ofBits prot).toVmFlags
    · rw [he] at hcall
      cases hcall
      exact .inl rfl
    · rw [hs₁] at hcall
      cases hcall
      exact .inr ⟨rfl, len, hlen, heff⟩

/-- A present entry that gets new permissions can always be read. -/
lemma within_remap_iff {e : PageTableEntry} (he : e.isPresent) (flags : VmFlags) (prot : Prot) :
    (e.remap (flags.reprotect prot.toVmFlags).forEntry).Within prot ↔ prot.read := by
  have hexec : (flags.reprotect prot.toVmFlags).forEntry.exec = prot.exec := by
    rw [VmFlags.forEntry]
    split_ifs <;> rfl
  have hwrite : (flags.reprotect prot.toVmFlags).forEntry.write → prot.write := by
    rw [VmFlags.forEntry]
    split_ifs
    · simp [VmFlags.withoutWrite]
    · exact id
  simp only [PageTableEntry.Within, PageTableEntry.allowsRead_remap,
    PageTableEntry.allowsWrite_remap, PageTableEntry.allowsExec_remap, he, hexec]
  exact ⟨fun h => h.1 trivial, fun h => ⟨fun _ => h, hwrite, id⟩⟩

section

variable [MemoryObject O] [DecidableEq O]

/-- After `mprotect`, the present entries of the range permit no more than what was asked for
exactly if reading was asked for or there is no present entry; and if the length wraps around,
exactly if they did so before. -/
theorem mprotect_within_iff {s s' : AddressSpace O} (h : Reachable s) {addr : VirtAddr}
    {len : NonZeroUsize} {prot : BitVec 32} {value : Usize}
    (hcall : s.mprotect addr len prot = some (.ok value, s')) :
    (∀ page, InRange addr len page → (s'.table page).Within (.ofBits prot)) ↔
      if len.Wraps then ∀ page, InRange addr len page → (s.table page).Within (.ofBits prot)
      else (Prot.ofBits prot).read ∨ ∀ page, InRange addr len page → ¬ (s.table page).isPresent := by
  obtain ⟨e, he⟩ | ⟨s₁, hs₁, heff⟩ :=
    protect_cases h.wf addr len (Prot.ofBits prot).toVmFlags
  · rw [mprotect_eq, he] at hcall
    cases hcall
  rw [mprotect_eq, hs₁] at hcall
  cases hcall
  split_ifs with hwrap
  · refine forall_congr' fun page => imp_congr_right fun _ => ?_
    rw [heff.table page, if_neg fun hin => hin.2 hwrap]
  · have hentry : ∀ page, InRange addr len page → (s.table page).isPresent →
        ((s₁.table page).Within (.ofBits prot) ↔ (Prot.ofBits prot).read) := by
      intro page hin hpresent
      obtain ⟨p, hp⟩ := Option.isSome_iff_exists.mp (h.wf.present page hpresent)
      rw [heff.table page, if_pos ⟨hin, hwrap⟩, hp]
      exact within_remap_iff hpresent p.flags _
    constructor
    · intro hall
      by_cases hread : (Prot.ofBits prot).read
      · exact .inl hread
      · exact .inr fun page hin hpresent =>
          hread ((hentry page hin hpresent).mp (hall page hin))
    · intro hcond page hin
      by_cases hpresent : (s.table page).isPresent
      · obtain hread | hnone := hcond
        · exact (hentry page hin hpresent).mpr hread
        · exact absurd hpresent (hnone page hin)
      · refine PageTableEntry.within_of_not_present (fun hpresent' => hpresent ?_) _
        rw [heff.table page, if_pos ⟨hin, hwrap⟩] at hpresent'
        cases hp : s.lookup page with
        | none => rwa [hp] at hpresent'
        | some p =>
          rw [hp] at hpresent'
          exact (PageTableEntry.isPresent_remap _ _).symm.trans hpresent'

end

/-- A page that has been faulted in stays confined to reading. -/
theorem mprotect_within_read : ∃ s s' : AddressSpace ObjectRef, Reachable s ∧
    (s.table 0x100000).isPresent ∧ s.mprotect 0x100000000 onePage 1 = some (.ok 0, s') ∧
    ∀ page, InRange 0x100000000 onePage page → (s'.table page).Within (.ofBits 1) := by
  have hreach : Reachable (O := ObjectRef) _ :=
    .fault ⟨0, 0x100000000, true, false, false, false⟩
      ⟨⟨0, .normal⟩, 0, { read := true, write := true }, .normal, false⟩ none 0x5000
      (.mapObject ⟨0, .normal⟩ 0x100000000 onePage { read := true, write := true } 0
        (.new new_eq) rfl) rfl rfl
  refine ⟨_, _, hreach, by decide, rfl, ?_⟩
  exact (mprotect_within_iff hreach rfl).mpr (by rw [if_neg (by decide)]; exact .inl (by decide))

/-- A page that has been faulted in can still be read after `mprotect` with `PROT_NONE`. -/
theorem protNone_not_within : ∃ s s' : AddressSpace ObjectRef, Reachable s ∧
    s.mprotect 0x100000000 onePage 0 = some (.ok 0, s') ∧
    ¬ ∀ page, InRange 0x100000000 onePage page → (s'.table page).Within (.ofBits 0) := by
  refine ⟨_, _, .fault ⟨0, 0x100000000, true, false, false, false⟩
    ⟨⟨0, .normal⟩, 0, { read := true, write := true }, .normal, false⟩ none 0x5000
    (.mapObject ⟨0, .normal⟩ 0x100000000 onePage { read := true, write := true } 0
      (.new new_eq) rfl) rfl rfl, rfl, fun h => ?_⟩
  have hpage := h 0x100000 (by decide)
  revert hpage
  decide

/-! ### Mapped and allocated pages -/

/-- The pages that are mapped are the pages that the allocator has handed out. -/
def Agree (s : AddressSpace O) : Prop := ∀ i, (s.lookup i).isSome ↔ s.allocator.IsAllocated i

/-- Neither the mapped pages nor the allocated pages differ. -/
def SamePages (s s' : AddressSpace O) : Prop :=
  ∀ i, ((s'.lookup i).isSome ↔ (s.lookup i).isSome) ∧
    (s'.allocator.IsAllocated i ↔ s.allocator.IsAllocated i)

/-- A call of a process on its memory. -/
inductive MemCall (O : Type) where
  | mmap (openFiles : BitVec 32 → Option (OpenFile O)) (anon : O) (addr : VirtAddr)
    (length : Usize) (prot flags fd : BitVec 32) (offset : BitVec 64)
  | mprotect (addr : VirtAddr) (size : Usize) (prot : BitVec 32)
  | munmap (addr : VirtAddr) (size : Usize)

namespace MemCall

def exec [MemoryObject O] (s : AddressSpace O) :
    MemCall O → Option (EResult Usize × AddressSpace O)
  | mmap openFiles anon addr length prot flags fd offset =>
    s.mmap openFiles anon addr length prot flags fd offset
  | mprotect addr size prot => s.mprotect addr size prot
  | munmap addr size => s.munmap addr size

/-- A `munmap` whose arguments are well formed stays inside the user half, or is about no page
that is mapped. -/
def Admissible (s : AddressSpace O) : MemCall O → Prop
  | mmap .. => True
  | mprotect .. => True
  | munmap addr size => ∀ len, NonZeroUsize.new size = some len → isPageAligned addr →
    addr.toNat + size.toNat < 2 ^ 64 →
      VirtualAllocator.UserRange addr len ∨ len.Wraps ∨ ∀ i, InRange addr len i → s.lookup i = none

end MemCall

/-- What is asked of a call: the pages agree afterwards, and an error changes nothing. -/
def Consistent (s : AddressSpace O) (r : EResult Usize) (s' : AddressSpace O) : Prop :=
  s'.Agree ∧ ∀ e, r = .error e → s.SamePages s'

lemma Agree.consistent_error {s : AddressSpace O} (h : s.Agree) (r : EResult Usize) :
    s.Consistent r s :=
  ⟨h, fun _ _ _ => ⟨Iff.rfl, Iff.rfl⟩⟩

lemma Agree.map [MemoryObject O] {s s' : AddressSpace O} (h : s.Agree) {addr : VirtAddr}
    {len : NonZeroUsize} {object : O} {prot : VmFlags} {offset : BitVec 64}
    (heff : MapEffect s s' addr len object prot offset) : s'.Agree := by
  intro i
  rw [heff.lookup i, heff.allocated i, ← h i]
  split_ifs with hi <;> simp [hi]

section

variable [MemoryObject O] {s : AddressSpace O}

/-- The call panics, fails at once, or is one call of `map_object`, on an object in `P`. -/
def MapsOnce (s : AddressSpace O) (P : O → Prop)
    (call : Option (EResult VirtAddr × AddressSpace O)) : Prop :=
  call = none ∨ (∃ e, call = some (.error e, s)) ∨
    ∃ object addr len prot offset value, P object ∧
      call = answer value (s.mapObject object addr len prot offset)

/-- `mmap` maps the object of an anonymous mapping, or one that an open file refers to. -/
lemma mapsOnce_mmap (openFiles : BitVec 32 → Option (OpenFile O)) (anon : O) (addr : VirtAddr)
    (length : Usize) (prot flags fd : BitVec 32) (offset : BitVec 64) :
    s.MapsOnce (fun o => (MmapFlags.ofBits flags).anonymous ∧ o = anon ∨
        ∃ fd f, openFiles fd = some f ∧ OpenFile.Maps f o)
      (s.mmap openFiles anon addr length prot flags fd offset) := by
  cases hcall : s.mmap openFiles anon addr length prot flags fd offset with
  | none => exact .inl rfl
  | some x =>
    obtain ⟨rfl, e, he⟩ | ⟨len, start, object, addr', size, vmProt, offset', -, -, hasks, heq⟩ :=
      exists_of_mmap hcall
    · exact .inr (.inl ⟨e, by rw [← he]⟩)
    · refine .inr (.inr ⟨object, addr', size, vmProt, offset', start, ?_, heq.symm⟩)
      exact hasks.object.imp_right fun ⟨_, hfile⟩ => ⟨fd, hfile⟩

end

lemma consistent_mprotect {s s' : AddressSpace O} (hwf : s.Wf) (hagree : s.Agree) {addr : VirtAddr}
    {size : Usize} {prot : BitVec 32} {r : EResult Usize}
    (hcall : s.mprotect addr size prot = some (r, s')) : s'.Wf ∧ s.Consistent r s' := by
  obtain rfl | ⟨rfl, len, -, heff⟩ := mprotect_cases hwf hcall
  · exact ⟨hwf, hagree.consistent_error _⟩
  · refine ⟨hwf.protect heff, fun i => ?_, nofun⟩
    rw [heff.lookup i, heff.allocator, ← hagree i]
    split_ifs
    · rw [Option.isSome_map]
    · rfl

/-- `munmap` is consistent exactly if it is admissible. -/
lemma consistent_munmap_iff [MemoryObject O] {s s' : AddressSpace O} (hwf : s.Wf)
    (hagree : s.Agree) {addr : VirtAddr} {size : Usize} {r : EResult Usize}
    (hcall : s.munmap addr size = some (r, s')) :
    s'.Wf ∧ (s.Consistent r s' ↔ MemCall.Admissible s (.munmap addr size)) := by
  simp only [munmap] at hcall
  split at hcall
  · rename_i hsize
    cases hcall
    exact ⟨hwf, iff_of_true (hagree.consistent_error _) fun len hlen => by simp [hsize] at hlen⟩
  rename_i len hlen
  have hsize : size = len.1 := by
    rw [NonZeroUsize.new] at hlen
    split_ifs at hlen
    cases hlen
    rfl
  have hadm : MemCall.Admissible s (.munmap addr size) ↔ (isPageAligned addr →
      addr.toNat + len.1.toNat < 2 ^ 64 → VirtualAllocator.UserRange addr len ∨ len.Wraps ∨
        ∀ i, InRange addr len i → s.lookup i = none) := by
    refine ⟨fun h => hsize ▸ h len hlen, fun h len' hlen' => ?_⟩
    obtain rfl := Option.some.inj (hlen.symm.trans hlen')
    exact hsize ▸ h
  obtain ⟨e, he, hbad⟩ | ⟨⟨haddr, hadd⟩, r', s₁, d, hs₁, heff, hrel⟩ := unmap_cases hwf addr len
  · rw [he] at hcall
    cases hcall
    refine ⟨hwf, iff_of_true (hagree.consistent_error _) (hadm.mpr fun haddr hadd => ?_)⟩
    exact absurd ⟨haddr, hadd⟩ hbad
  have hwf' : s₁.Wf := hwf.unmap_call hs₁
  rw [hs₁] at hcall
  obtain ⟨e, hrange, rfl, halloc⟩ | ⟨range, hrange, rfl, halloc⟩ := hrel
  · cases hcall
    refine ⟨hwf', ?_⟩
    have hnouser : ¬ VirtualAllocator.UserRange addr len := fun huser => by
      obtain ⟨range, hok⟩ :=
        (VirtualAllocator.exists_rangeFromAddr_iff hwf.window addr len).mpr ⟨haddr, huser⟩
      rw [hrange] at hok
      cases hok
    rw [hadm]
    constructor
    · intro hcons _ _
      by_cases hwrap : len.Wraps
      · exact .inr (.inl hwrap)
      -- a page that is gone from the mappings is still allocated
      · refine .inr (.inr fun i hi => ?_)
        have hgone : s₁.lookup i = none := by rw [heff.lookup i, if_pos ⟨hi, hwrap⟩]
        have hfree : ¬ s.allocator.IsAllocated i := by
          rw [← halloc, ← hcons.1 i, hgone]
          simp
        rw [← hagree i] at hfree
        simpa using hfree
    · intro hcond
      have hsame : ∀ i, s₁.lookup i = s.lookup i := by
        intro i
        rw [heff.lookup i]
        split_ifs with hi
        · obtain huser | hwrap | hnone := hcond haddr hadd
          · exact absurd huser hnouser
          · exact absurd hwrap hi.2
          · exact (hnone i hi.1).symm
        · rfl
      refine ⟨fun i => ?_, fun _ _ i => ?_⟩
      · rw [hsame i, halloc]
        exact hagree i
      · rw [hsame i, halloc]
        exact ⟨Iff.rfl, Iff.rfl⟩
  · cases hcall
    obtain ⟨-, huser⟩ := (VirtualAllocator.exists_rangeFromAddr_iff hwf.window addr len).mp
      ⟨range, hrange⟩
    obtain ⟨haligned, hlo, hhi, hne, -⟩ :=
      VirtualAllocator.rangeFromAddr_eq_ok (.inl (by rw [hwf.window.1]; decide)) hrange
    refine ⟨hwf', iff_of_true ⟨fun i => ?_, by rintro _ ⟨⟩⟩ (hadm.mpr fun _ _ => .inl huser)⟩
    rw [halloc, (hwf.allocator.releaseRange hne.le).2 i, ← hagree i, heff.lookup i, hlo, hhi]
    simp only [huser.not_wraps, not_false_eq_true, and_true, inRange_iff haligned]
    split_ifs with hi
    · simp [hi]
    · simp [hi]

lemma Agree.new {s : AddressSpace O} (h : AddressSpace.new = .ok s) : s.Agree := by
  cases h
  intro i
  simp [Segment.valueAt, Segment.at?_empty, VirtualAllocator.IsAllocated]

lemma Agree.fault [MemoryObject O] {s s' : AddressSpace O} (h : s.Agree) {info : PageFaultInfo}
    {resolved : ResolvedFault O} {cowObject : Option O} {phys : PhysAddr} {p : PageMapping O}
    (heff : FaultEffect s s' info resolved cowObject phys p) : s'.Agree := by
  intro i
  rw [heff.lookup i, heff.allocated i]
  split_ifs with hi
  · have halloc : s.allocator.IsAllocated i := (h i).mp (by rw [hi, heff.mapped]; rfl)
    simp [halloc]
  · simp [hi, h i]

section

variable [MemoryObject O] [DecidableEq O]

/-- The address spaces that page faults and admissible calls lead to. -/
inductive AdmissibleRun : AddressSpace O → Prop
  | new {s} : AddressSpace.new = .ok s → AdmissibleRun s
  | call {s s' r} (c : MemCall O) :
    AdmissibleRun s → c.Admissible s → c.exec s = some (r, s') → AdmissibleRun s'
  | fault {s s'} (info resolved cowObject phys) : AdmissibleRun s →
    cowObject.isSome = resolved.cowWrite → s.install info resolved cowObject phys = some s' →
    AdmissibleRun s'

omit [DecidableEq O] in
/-- One call: it is consistent exactly if it is admissible. -/
lemma MemCall.consistent_iff {s s' : AddressSpace O} (hwf : s.Wf) (hagree : s.Agree)
    {c : MemCall O} {r : EResult Usize} (hcall : c.exec s = some (r, s')) :
    s'.Wf ∧ (s.Consistent r s' ↔ c.Admissible s) := by
  cases c with
  | mmap openFiles anon addr length prot flags fd offset =>
    obtain ⟨rfl, -⟩ | ⟨_, _, _, _, _, _, _, -, -, rfl, -, heff, -⟩ := mmap_cases hwf hcall
    · exact ⟨hwf, iff_of_true (hagree.consistent_error _) trivial⟩
    · exact ⟨hwf.map heff, iff_of_true ⟨hagree.map heff, nofun⟩ trivial⟩
  | mprotect addr size prot =>
    obtain ⟨hwf', hcons⟩ := consistent_mprotect hwf hagree hcall
    exact ⟨hwf', iff_of_true hcons trivial⟩
  | munmap addr size => exact consistent_munmap_iff hwf hagree hcall

lemma AdmissibleRun.inv {s : AddressSpace O} (h : AdmissibleRun s) : s.Wf ∧ s.Agree := by
  induction h with
  | new hnew => exact ⟨Wf.new hnew, Agree.new hnew⟩
  | call c _ hadm hcall ih =>
    obtain ⟨hwf, hcons⟩ := MemCall.consistent_iff ih.1 ih.2 hcall
    exact ⟨hwf, (hcons.mpr hadm).1⟩
  | fault info resolved cowObject phys _ hcow hcall ih =>
    obtain rfl | ⟨p, heff⟩ := effect_of_install ih.1 hcall
    · exact ih
    · exact ⟨ih.1.fault hcow heff, ih.2.fault heff⟩

/-- As long as all calls are admissible, the mapped pages are the allocated pages; and the next
call keeps it so and changes no page when it fails exactly if it is admissible, too. -/
theorem AdmissibleRun.consistent_iff_admissible {s : AddressSpace O} (h : AdmissibleRun s) :
    s.Agree ∧ ∀ (c : MemCall O) (r : EResult Usize) (s' : AddressSpace O),
      c.exec s = some (r, s') → (s.Consistent r s' ↔ c.Admissible s) :=
  ⟨h.inv.2, fun _ _ _ hcall => (MemCall.consistent_iff h.inv.1 h.inv.2 hcall).2⟩

end

/-- The first anonymous page of a process. -/
theorem consistent_first_page : ∃ s s' : AddressSpace ObjectRef, AdmissibleRun s ∧
    s.mmap (fun _ => none) ⟨0, .normal⟩ 0x1000 0x1000 3 0x32 0 0 = some (.ok 0x1000, s') ∧
    s.Consistent (.ok 0x1000) s' := by
  have hrun : AdmissibleRun (O := ObjectRef) _ := .new new_eq
  exact ⟨_, _, hrun, rfl, (hrun.consistent_iff_admissible.2
    (.mmap (fun _ => none) ⟨0, .normal⟩ 0x1000 0x1000 3 0x32 0 0) _ _ rfl).mpr trivial⟩

/-- A `munmap` that begins at page zero removes the page behind it, and fails. -/
theorem munmap_zero_not_consistent : ∃ s s' : AddressSpace ObjectRef, AdmissibleRun s ∧
    s.munmap 0 0x2000 = some (.error .enomem, s') ∧ (s.lookup 1).isSome ∧ s'.lookup 1 = none ∧
    s'.allocator.IsAllocated 1 ∧ ¬ s.Consistent (.error .enomem) s' := by
  have hrun : AdmissibleRun (O := ObjectRef) _ :=
    .call (.mmap (fun _ => none) ⟨0, .normal⟩ 0x1000 0x1000 3 0x32 0 0) (.new new_eq) trivial rfl
  refine ⟨_, _, hrun, rfl, by decide, by decide, rfl, fun hcons => ?_⟩
  have hmapped := (hcons.1 1).mpr rfl
  revert hmapped
  decide

end AddressSpace

end Zinnia
