import Zinnia.Memory.System.Properties
import Zinnia.Memory.User

/-!
# What user pointers reach

The copy routines trust the page table to tell user memory from kernel memory, and it does not: an
address of the kernel half is accessed like any other. A call with such an address reports failure
only if it comes to a page that the kernel itself may not access, or past the end of the address
space, as the first page is never mapped.
-/

namespace Zinnia

open Comp Cpu AddressSpace List Machine Nat Prod Zinnia.System

/-- The accesses of a system call through its pointers: to one of the values that a pointer points
to, or to a string. -/
inductive UserCall where
  | read (p : UserPtr) (index : Usize)
  | write (p : UserPtr) (index : Usize) (value : List (BitVec 8))
  | readSlice (p : UserPtr) (index : Usize) (value : List (BitVec 8))
  | writeSlice (p : UserPtr) (index : Usize) (value : List (BitVec 8))
  | asVec (s : UserCStr) (maxLen : Usize)
  | asCstring (s : UserCStr) (maxLen : Usize)

namespace UserCall

/-- Whether the call succeeds. -/
def run : UserCall → Cpu Bool
  | .read p index => Option.isSome <$> (p.offset index).read
  | .write p index value => Option.isSome <$> (p.offset index).write value
  | .readSlice p index value => (fun r => r.1.isSome) <$> (p.offset index).readSlice value
  | .writeSlice p index value => Option.isSome <$> (p.offset index).writeSlice value
  | .asVec s maxLen => Option.isSome <$> s.asVec maxLen
  | .asCstring s maxLen => Option.isSome <$> s.asCstring maxLen

def addr : UserCall → VirtAddr
  | .read p index => (p.offset index).addr
  | .write p index _ => (p.offset index).addr
  | .readSlice p index _ => (p.offset index).addr
  | .writeSlice p index _ => (p.offset index).addr
  | .asVec s _ => s.addr
  | .asCstring s _ => s.addr

/-- The number of bytes that the call accesses at most. -/
def length : UserCall → ℕ
  | .read p _ => p.size.toNat
  | .write _ _ value => value.length
  | .readSlice _ _ value => value.length
  | .writeSlice _ _ value => value.length
  | .asVec _ maxLen => maxLen.toNat
  | .asCstring _ maxLen => maxLen.toNat

def writes : UserCall → Bool
  | .write _ _ _ => true
  | .writeSlice _ _ _ => true
  | _ => false

/-- The call goes on after the byte: a string ends with the first zero. -/
def Continues : UserCall → Machine → VirtAddr → Prop
  | .asVec _ _, m, a => m.byteAt a ≠ 0
  | .asCstring _ _, m, a => m.byteAt a ≠ 0
  | _, _, _ => True

end UserCall

/-- The addresses that the computation accesses are of the user half, or it reports failure. -/
def Confined (c : Cpu Bool) (m : Machine) : Prop :=
  let r := c.run { m with accessed := [] }
  (∃ m', r = .ok false m') ∨ ∀ a ∈ (final r).accessed, isUserAddr a

variable {α β : Type} {m m' : Machine} {addr : VirtAddr} {write : Bool}
  {f : α → VirtAddr → Cpu (Option β)} {c : Cpu Bool}

namespace Machine

/-- The addresses that have been accessed in between satisfy `S`. -/
def Accesses (S : VirtAddr → Prop) (m m' : Machine) : Prop :=
  ∀ a ∈ m'.accessed, a ∈ m.accessed ∨ S a

instance (S : VirtAddr → Prop) : Std.Refl (Accesses S) := ⟨fun _ _ => Or.inl⟩

instance (S : VirtAddr → Prop) : IsTrans Machine (Accesses S) :=
  ⟨fun _ _ _ h h' a ha => (h' a ha).elim (h a) Or.inr⟩

variable {S : VirtAddr → Prop}

lemma Accesses.of_eq (h : m'.accessed = m.accessed) : m.Accesses S m' :=
  fun _ ha => .inl (h ▸ ha)

lemma Accesses.of_cons (h : m'.accessed = addr :: m.accessed) (haddr : S addr) :
    m.Accesses S m' := by
  intro a ha
  rw [h, mem_cons] at ha
  rcases ha with rfl | ha
  · exact .inr haddr
  · exact .inl ha

end Machine

/-! ### Accessing a single byte -/

/-- The computation accesses the byte at `addr` if it succeeds, and nothing else. -/
def OneByte (addr : VirtAddr) (c : Cpu (Option β)) : Prop :=
  ∀ m, (∃ m', c.run m = .error () m' ∧ m'.accessed = m.accessed) ∨
    (∃ m', c.run m = .ok none m' ∧ m'.accessed = m.accessed) ∨
    ∃ y m', c.run m = .ok (some y) m' ∧ m'.accessed = addr :: m.accessed ∧ isCanonical addr

lemma access_cases (addr : VirtAddr) (write : Bool) (m : Machine) :
    (∃ m', (access addr write).run m = .error () m' ∧ m'.accessed = m.accessed) ∨
      (∃ m', (access addr write).run m = .ok false m' ∧ m'.accessed = m.accessed) ∨
      ∃ m', (access addr write).run m = .ok true m' ∧ m'.accessed = addr :: m.accessed ∧
        isCanonical addr := by
  simp only [EStateM.run, access]
  split_ifs with hcanonical hpermits
  · exact .inl ⟨m, rfl, rfl⟩
  · exact .inr (.inr ⟨_, rfl, rfl, by simpa using hcanonical⟩)
  · split
    · exact .inl ⟨m, rfl, rfl⟩
    · split_ifs
      · exact .inr (.inl ⟨_, rfl, rfl⟩)
      · exact .inr (.inr ⟨_, rfl, rfl, by simpa using hcanonical⟩)
      · exact .inl ⟨_, rfl, rfl⟩

lemma accessed_setByte (m : Machine) (addr : VirtAddr) (byte : BitVec 8) :
    (m.setByte addr byte).accessed = m.accessed := by
  simp only [setByte]
  split <;> rfl

lemma oneByte_loadByte (addr : VirtAddr) : OneByte addr (loadByte addr) := by
  intro m
  obtain ⟨m', hrun, hacc⟩ | ⟨m', hrun, hacc⟩ | ⟨m', hrun, hacc⟩ := access_cases addr false m
  · exact .inl ⟨m', run_bind_error hrun, hacc⟩
  · exact .inr (.inl ⟨m', run_bind_ok hrun, hacc⟩)
  · exact .inr (.inr ⟨_, m', run_bind_ok hrun, hacc⟩)

lemma oneByte_storeByte (byte : BitVec 8) (addr : VirtAddr) :
    OneByte addr (storeByte byte addr) := by
  intro m
  obtain ⟨m', hrun, hacc⟩ | ⟨m', hrun, hacc⟩ | ⟨m', hrun, hacc⟩ := access_cases addr true m
  · exact .inl ⟨m', run_bind_error hrun, hacc⟩
  · exact .inr (.inl ⟨m', run_bind_ok hrun, hacc⟩)
  · refine .inr (.inr ⟨(), m'.setByte addr byte, run_bind_ok hrun, ?_⟩)
    rwa [accessed_setByte]

/-! ### Addresses of the user half -/

/-- The addresses from which only the user half can be reached: the next half is not adjacent. -/
def UserOrGap (addr : VirtAddr) : Prop := isUserAddr addr ∨ ¬ isCanonical addr

lemma UserOrGap.user (h : UserOrGap addr) (hcanonical : isCanonical addr) : isUserAddr addr :=
  h.resolve_right (not_not.mpr hcanonical)

lemma kernel_of_not_user (huser : ¬ isUserAddr addr) (hcanonical : isCanonical addr) :
    0xFFFF800000000000#64 ≤ addr := by
  rw [isCanonical, Bool.or_eq_true] at hcanonical
  exact of_decide_eq_true (hcanonical.resolve_left huser)

lemma UserOrGap.next (h : isUserAddr addr) : UserOrGap (addr + 1) := by
  simp only [UserOrGap, isCanonical, isUserAddr, Bool.or_eq_true, decide_eq_true_eq] at *
  bv_omega

lemma OneByte.spec {S : VirtAddr → Prop} {c : Cpu (Option β)} (h : OneByte addr c)
    (haddr : isCanonical addr → S addr) :
    Spec (Machine.Accesses S) (fun r => r.isSome → isCanonical addr) c := by
  intro m
  obtain ⟨m', hrun, hacc⟩ | ⟨m', hrun, hacc⟩ | ⟨y, m', hrun, hacc, hcanonical⟩ := h m
  · rw [hrun]
    exact ⟨.of_eq hacc, nofun⟩
  · rw [hrun]
    refine ⟨.of_eq hacc, fun r m'' heq => ?_⟩
    cases heq
    nofun
  · rw [hrun]
    exact ⟨.of_cons hacc (haddr hcanonical), fun _ _ _ _ => hcanonical⟩

lemma spec_repMovsb_user (hf : ∀ x a, OneByte a (f x a)) (xs : List α) (haddr : UserOrGap addr) :
    Spec (Machine.Accesses fun a => isUserAddr a) (fun _ => True) (repMovsb f xs addr) := by
  induction xs generalizing addr with
  | nil => exact spec_pure trivial
  | cons x xs ih =>
    refine ((hf x addr).spec haddr.user).bind fun r hcanonical => ?_
    cases r with
    | none => exact spec_pure trivial
    | some y =>
      exact (ih (.next (haddr.user (hcanonical rfl)))).bind fun _ _ => spec_pure trivial

lemma spec_cstrLoop_user (src : VirtAddr) (n count : ℕ)
    (haddr : UserOrGap (src + BitVec.ofNat 64 count)) :
    Spec (Machine.Accesses fun a => isUserAddr a) (fun _ => True) (cstrLoop src n count) := by
  induction n generalizing count with
  | zero => exact spec_pure trivial
  | succ n ih =>
    refine ((oneByte_loadByte _).spec haddr.user).bind fun r hcanonical => ?_
    cases r with
    | none => exact spec_pure trivial
    | some byte =>
      dsimp only
      split_ifs
      · exact spec_pure trivial
      · refine ih (count + 1) ?_
        rw [BitVec.ofNat_add, ← BitVec.add_assoc]
        exact .next (haddr.user (hcanonical rfl))

/-! ### Addresses of the kernel half -/

/-- The addresses that can be reached from the kernel half without passing the first page. -/
def KernelOrNull (addr : VirtAddr) : Prop := addr = 0 ∨ 0xFFFF800000000000#64 ≤ addr

lemma KernelOrNull.next (h : KernelOrNull addr) (hne : addr ≠ 0) : KernelOrNull (addr + 1) := by
  have hkernel := h.resolve_left hne
  simp only [KernelOrNull]
  bv_omega

namespace Machine

/-- The process exists, and its address space satisfies the invariant. -/
def Ready (m : Machine) : Prop := ∃ s, m.sys.spaces m.pid = some s ∧ s.Wf

/-- The kernel cannot access the byte. -/
def refuses (m : Machine) (addr : VirtAddr) (write : Bool) : Bool :=
  addr = 0 || !(m.kernelTable (addr.toNat / pageSize)).permits write

/-- One of the bytes cannot be accessed, and all bytes before it satisfy `q`. -/
def Stops (m : Machine) (write : Bool) (q : VirtAddr → Prop) (addr : VirtAddr) (n : ℕ) : Prop :=
  ∃ i < n, m.refuses (addr + BitVec.ofNat 64 i) write ∧ ∀ j < i, q (addr + BitVec.ofNat 64 j)

variable {q : VirtAddr → Prop}

lemma not_stops_zero : ¬ m.Stops write q addr 0 :=
  fun ⟨_, hi, _⟩ => absurd hi (not_lt_zero _)

lemma add_ofNat_succ (addr : VirtAddr) (i : ℕ) :
    addr + BitVec.ofNat 64 (i + 1) = addr + 1 + BitVec.ofNat 64 i := by
  rw [Nat.add_comm, BitVec.ofNat_add, ← BitVec.add_assoc]
  rfl

lemma stops_succ {n : ℕ} : m.Stops write q addr (n + 1) ↔
    m.refuses addr write ∨ q addr ∧ m.Stops write q (addr + 1) n := by
  constructor
  · rintro ⟨i, hi, hrefuses, hq⟩
    cases i with
    | zero => exact .inl (by simpa using hrefuses)
    | succ i =>
      refine .inr ⟨by simpa using hq 0 (succ_pos i), i, lt_of_succ_lt_succ hi, ?_, ?_⟩
      · rwa [← add_ofNat_succ]
      · intro j hj
        rw [← add_ofNat_succ]
        exact hq (j + 1) (succ_lt_succ hj)
  · rintro (hrefuses | ⟨hq, i, hi, hrefuses, hall⟩)
    · exact ⟨0, succ_pos n, by simpa using hrefuses, nofun⟩
    · refine ⟨i + 1, succ_lt_succ hi, by rwa [add_ofNat_succ], fun j hj => ?_⟩
      cases j with
      | zero => simpa using hq
      | succ j =>
        rw [add_ofNat_succ]
        exact hall j (lt_of_succ_lt_succ hj)

/-- The page tables are the same. -/
structure SameTables (m m' : Machine) : Prop where
  spaces : m'.sys.spaces = m.sys.spaces
  pid : m'.pid = m.pid
  kernelTable : m'.kernelTable = m.kernelTable

lemma SameTables.ready (h : m.SameTables m') (hm : m.Ready) : m'.Ready := by
  obtain ⟨s, hs, hwf⟩ := hm
  exact ⟨s, by rw [h.spaces, h.pid, hs], hwf⟩

lemma SameTables.stops (h : m.SameTables m') {n : ℕ} :
    m'.Stops write q addr n ↔ m.Stops write q addr n := by
  simp only [Stops, refuses, h.kernelTable]

lemma SameTables.trans {m'' : Machine} (h : m.SameTables m') (h' : m'.SameTables m'') :
    m.SameTables m'' :=
  ⟨h'.spaces.trans h.spaces, h'.pid.trans h.pid, h'.kernelTable.trans h.kernelTable⟩

lemma sameTables_record (m : Machine) (addr : VirtAddr) : m.SameTables (m.record addr) :=
  ⟨rfl, rfl, rfl⟩

/-- Nothing is mapped at the addresses of the kernel half, nor at the first page. -/
lemma Ready.handler_eq (h : m.Ready) (haddr : KernelOrNull addr) (write : Bool) :
    m.sys.handler m.pid m.next (m.faultInfo addr write) = some (false, m.sys) := by
  obtain ⟨s, hs, hwf⟩ := h
  have hlook : s.lookup (addr.toNat / pageSize) = none := by
    refine Option.not_isSome_iff_eq_none.mp fun hsome => ?_
    have hwindow := hwf.inWindow _ hsome
    rw [pageSize] at hwindow
    rcases haddr with rfl | hkernel
    · simp at hwindow
    · bv_omega
  have hresolve : s.resolve (m.faultInfo addr write) = none := by
    refine Option.eq_none_iff_forall_ne_some.mpr fun resolved hr => ?_
    obtain ⟨p, hp, -⟩ := exists_of_resolve hr
    cases hlook.symm.trans hp
  simp only [handler, hs, hresolve, Option.bind_eq_bind, Option.bind_some]

end Machine

lemma KernelOrNull.kernel (h : KernelOrNull addr) (hne : addr ≠ 0) : ¬ isUserAddr addr := by
  have hkernel := h.resolve_left hne
  simp only [isUserAddr, decide_eq_true_eq]
  bv_omega

lemma KernelOrNull.canonical (h : KernelOrNull addr) : isCanonical addr := by
  rcases h with rfl | hkernel
  · rfl
  · rw [isCanonical, decide_eq_true hkernel, Bool.or_true]

section

variable (hm : m.Ready) (haddr : KernelOrNull addr)

include hm haddr

lemma access_kernel (write : Bool) :
    (access addr write).run m =
      if m.refuses addr write then .ok false { m with next := m.next + 1 }
      else .ok true (m.record addr) := by
  have hcanonical := haddr.canonical
  have hhandler := hm.handler_eq haddr write
  have hpermits : (m.entry addr).permits write = !m.refuses addr write := by
    rcases eq_or_ne addr 0 with rfl | hnull
    · obtain ⟨s, hs, hwf⟩ := hm
      have hpresent : ¬ (s.table 0).isPresent := fun hpresent =>
        absurd (hwf.inWindow 0 (hwf.present 0 hpresent)).1 (by decide)
      have hentry : m.entry 0 = s.table 0 := by
        rw [entry, hs]
        rfl
      rw [hentry, PageTableEntry.permits, Bool.eq_false_iff.mpr hpresent]
      rfl
    · rw [entry, if_neg (haddr.kernel hnull), refuses, decide_eq_false hnull,
        Bool.false_or, Bool.not_not]
  simp only [EStateM.run, access, hcanonical, hpermits, hhandler]
  cases m.refuses addr write <;> rfl

lemma loadByte_kernel :
    (loadByte addr).run m =
      if m.refuses addr false then .ok none { m with next := m.next + 1 }
      else .ok (some (m.byteAt addr)) (m.record addr) := by
  have hrun := access_kernel hm haddr false
  split_ifs at hrun ⊢
  · exact run_bind_ok hrun
  · exact run_bind_ok hrun

end

/-- What a transfer of a byte does in the kernel half. -/
def KernelTransfer (write : Bool) (f : VirtAddr → Cpu (Option β)) : Prop :=
  ∀ (m : Machine) (addr : VirtAddr), m.Ready → KernelOrNull addr →
    if m.refuses addr write then ∃ m', (f addr).run m = .ok none m'
    else ∃ y m', (f addr).run m = .ok (some y) m' ∧ m'.accessed = addr :: m.accessed ∧
      m.SameTables m'

lemma ne_zero_of_not_refuses (h : ¬ m.refuses addr write) : addr ≠ 0 := by
  rintro rfl
  exact h rfl

lemma kernelTransfer_loadByte : KernelTransfer false loadByte := by
  intro m addr hm haddr
  have hrun := loadByte_kernel hm haddr
  split_ifs at hrun ⊢
  · exact ⟨_, hrun⟩
  · exact ⟨_, _, hrun, rfl, m.sameTables_record addr⟩

lemma kernelTransfer_storeByte (byte : BitVec 8) : KernelTransfer true (storeByte byte) := by
  intro m addr hm haddr
  have hrun := access_kernel hm haddr true
  split_ifs at hrun ⊢ with hrefuses
  · exact ⟨_, run_bind_ok hrun⟩
  · have hkernel := haddr.kernel (ne_zero_of_not_refuses hrefuses)
    refine ⟨(), (m.record addr).setByte addr byte, run_bind_ok hrun, accessed_setByte _ _ _,
      (m.sameTables_record addr).trans ?_⟩
    rw [setByte, if_neg hkernel]
    exact ⟨rfl, rfl, rfl⟩

/-- A copy in the kernel half fails exactly if it comes to a byte that cannot be accessed. -/
lemma repMovsb_kernel (hf : ∀ x, KernelTransfer write (f x)) (xs : List α) (hm : m.Ready)
    (haddr : KernelOrNull addr) :
    (m.Stops write (fun _ => True) addr xs.length →
      ∃ ys m', (repMovsb f xs addr).run m = .ok (ys, false) m') ∧
    (¬ m.Stops write (fun _ => True) addr xs.length →
      ∃ ys m', (repMovsb f xs addr).run m = .ok (ys, true) m' ∧ m.accessed ⊆ m'.accessed ∧
        (xs ≠ [] → addr ∈ m'.accessed)) := by
  induction xs generalizing m addr with
  | nil =>
    refine ⟨fun hstops => absurd hstops not_stops_zero, fun _ => ?_⟩
    exact ⟨[], m, rfl, Subset.refl _, fun h => absurd rfl h⟩
  | cons x xs ih =>
    rw [length_cons, stops_succ]
    have hx := hf x m addr hm haddr
    split_ifs at hx with hrefuses
    · obtain ⟨m', hrun⟩ := hx
      refine ⟨fun _ => ⟨[], m', run_bind_ok hrun⟩, fun hnot => ?_⟩
      exact absurd (.inl hrefuses) hnot
    · obtain ⟨y, m₁, hrun, hacc, htables⟩ := hx
      obtain ⟨hfail, hdone⟩ := ih (htables.ready hm)
        (haddr.next (ne_zero_of_not_refuses hrefuses))
      rw [htables.stops] at hfail hdone
      have hnext : ∀ {ys m' done}, (repMovsb f xs (addr + 1)).run m₁ = .ok (ys, done) m' →
          (repMovsb f (x :: xs) addr).run m = .ok (y :: ys, done) m' :=
        fun hrest => (run_bind_ok hrun).trans (run_bind_ok hrest)
      simp only [hrefuses, Bool.false_eq_true, false_or, true_and]
      constructor
      · intro hstops
        obtain ⟨ys, m', hrest⟩ := hfail hstops
        exact ⟨y :: ys, m', hnext hrest⟩
      · intro hnot
        obtain ⟨ys, m', hrest, hsub, -⟩ := hdone hnot
        rw [hacc] at hsub
        refine ⟨y :: ys, m', hnext hrest, ?_, fun _ => hsub mem_cons_self⟩
        exact fun a ha => hsub (mem_cons_of_mem _ ha)

/-- A scan in the kernel half fails exactly if it comes to a byte that cannot be accessed. Otherwise
all bytes of the string can be accessed. -/
lemma cstrLoop_kernel {src : VirtAddr} {n count : ℕ} (hm : m.Ready)
    (haddr : KernelOrNull (src + BitVec.ofNat 64 count)) :
    (m.Stops false (m.byteAt · ≠ 0) (src + BitVec.ofNat 64 count) n →
      ∃ m', (cstrLoop src n count).run m = .ok none m') ∧
    (¬ m.Stops false (m.byteAt · ≠ 0) (src + BitVec.ofNat 64 count) n →
      ∃ len m', (cstrLoop src n count).run m = .ok (some (count + len)) m' ∧ m.SameTables m' ∧
        m.accessed ⊆ m'.accessed ∧ (0 < n → src + BitVec.ofNat 64 count ∈ m'.accessed) ∧
        ¬ m.Stops false (fun _ => True) (src + BitVec.ofNat 64 count) len) := by
  induction n generalizing m count with
  | zero =>
    refine ⟨fun hstops => absurd hstops not_stops_zero, fun _ => ?_⟩
    exact ⟨0, m, rfl, ⟨rfl, rfl, rfl⟩, Subset.refl _, fun h => absurd h (lt_irrefl 0),
      not_stops_zero⟩
  | succ n ih =>
    rw [stops_succ]
    have hx := loadByte_kernel hm haddr
    split_ifs at hx with hrefuses
    · refine ⟨fun _ => ⟨_, run_bind_ok hx⟩, fun hnot => absurd (.inl hrefuses) hnot⟩
    have hrun : (cstrLoop src (n + 1) count).run m =
        if m.byteAt (src + BitVec.ofNat 64 count) = 0 then
          .ok (some count) (m.record (src + BitVec.ofNat 64 count))
        else (cstrLoop src n (count + 1)).run (m.record (src + BitVec.ofNat 64 count)) := by
      refine (run_bind_ok hx).trans ?_
      dsimp only
      split_ifs <;> rfl
    have hmem : src + BitVec.ofNat 64 count ∈
        (m.record (src + BitVec.ofNat 64 count)).accessed := mem_cons_self
    have hnext : src + BitVec.ofNat 64 (count + 1) = src + BitVec.ofNat 64 count + 1 := by
      rw [BitVec.ofNat_add, ← BitVec.add_assoc]
      rfl
    rw [hrun]
    by_cases hbyte : m.byteAt (src + BitVec.ofNat 64 count) = 0
    · rw [if_pos hbyte]
      refine ⟨fun hstops => ?_, fun _ => ?_⟩
      · exact (hstops.resolve_left hrefuses).1.elim hbyte
      · exact ⟨0, _, rfl, m.sameTables_record _, subset_cons_self _ _, fun _ => hmem,
          not_stops_zero⟩
    · rw [if_neg hbyte]
      have htables := m.sameTables_record (src + BitVec.ofNat 64 count)
      obtain ⟨hfail, hdone⟩ := @ih (m.record (src + BitVec.ofNat 64 count)) (count + 1)
        (htables.ready hm) (hnext ▸ haddr.next (ne_zero_of_not_refuses hrefuses))
      rw [hnext] at hfail hdone
      simp only [hrefuses, Bool.false_eq_true, false_or, ne_eq, hbyte, not_false_eq_true, true_and]
      refine ⟨hfail, fun hnot => ?_⟩
      obtain ⟨len, m', hrest, htables', hsub, -, hlen⟩ := hdone hnot
      refine ⟨len + 1, m', ?_, htables.trans htables', ?_, fun _ => hsub hmem, ?_⟩
      · rw [hrest, Nat.add_assoc, Nat.add_comm 1 len]
      · exact fun a ha => hsub (mem_cons_of_mem _ ha)
      · rw [stops_succ]
        rintro (h | h)
        · exact hrefuses h
        · exact hlen h.2

/-! ### The calls -/

/-- What the accesses to `n` bytes do that go on as long as `q` holds. -/
structure Copies (write : Bool) (q : Machine → VirtAddr → Prop) (addr : VirtAddr) (n : ℕ)
    (c : Cpu Bool) : Prop where
  nothing : n = 0 → ∀ m, c.run m = .ok true m
  user : UserOrGap addr → Spec (Machine.Accesses fun a => isUserAddr a) (fun _ => True) c
  kernel : 0xFFFF800000000000#64 ≤ addr → 0 < n → ∀ m : Machine, m.Ready →
    (m.Stops write (q m) addr n → ∃ m', c.run m = .ok false m') ∧
    (¬ m.Stops write (q m) addr n → ∃ m', c.run m = .ok true m' ∧ addr ∈ m'.accessed)

/-- Pointers of the user half are safe; others are if they do not work. -/
lemma Copies.confined_run_iff {q : Machine → VirtAddr → Prop} {n : ℕ} (h : Copies write q addr n c)
    (hm : m.Ready) (hq : q { m with accessed := [] } = q m) :
    Confined c m ↔
      n = 0 ∨ isUserAddr addr ∨ ¬ isCanonical addr ∨ m.Stops write (q m) addr n := by
  have hready : Ready { m with accessed := [] } := hm
  constructor
  · intro hconf
    by_contra hnot
    simp only [not_or, not_not] at hnot
    obtain ⟨hn, huser, hcanonical, hstops⟩ := hnot
    have hkernel := kernel_of_not_user huser hcanonical
    have hnstops : ¬ Stops { m with accessed := [] } write
        (q { m with accessed := [] }) addr n := by
      rw [hq]
      exact hstops
    obtain ⟨m', hrun, hmem⟩ := (h.kernel hkernel (Nat.pos_of_ne_zero hn) _ hready).2 hnstops
    obtain ⟨m'', hfail⟩ | hall := hconf
    · cases hrun.symm.trans hfail
    · rw [hrun] at hall
      exact huser (hall addr hmem)
  · intro hcond
    by_cases hn : n = 0
    · refine .inr fun a ha => ?_
      rw [h.nothing hn] at ha
      cases ha
    by_cases hgap : UserOrGap addr
    · refine .inr fun a ha => ?_
      exact ((h.user hgap { m with accessed := [] }).1 a ha).resolve_left not_mem_nil
    · obtain ⟨huser, hcanonical⟩ := not_or.mp hgap
      have hstops := ((hcond.resolve_left hn).resolve_left huser).resolve_left hcanonical
      have hkernel := kernel_of_not_user huser (not_not.mp hcanonical)
      refine .inl ((h.kernel hkernel (Nat.pos_of_ne_zero hn) _ hready).1 ?_)
      rw [hq]
      exact hstops

/-- The copy routines do nothing for no bytes; otherwise they report whether all bytes have been
transferred. -/
lemma copies_repMovsb (hone : ∀ x a, OneByte a (f x a)) (hkernel : ∀ x, KernelTransfer write (f x))
    (xs : List α) (addr : VirtAddr)
    (hc : c = if xs.isEmpty then pure true else snd <$> repMovsb f xs addr) :
    Copies write (fun _ _ => True) addr xs.length c := by
  subst hc
  refine ⟨fun hn m => ?_, fun hgap => ?_, fun hk hn m hm => ?_⟩
  · rw [if_pos (isEmpty_iff_length_eq_zero.mpr hn)]
    rfl
  · split_ifs
    · exact spec_pure trivial
    · exact (spec_repMovsb_user hone xs hgap).map fun _ _ => trivial
  · have hne : xs ≠ [] := List.length_pos_iff.mp hn
    rw [if_neg (mt List.isEmpty_iff.mp hne)]
    obtain ⟨hfail, hdone⟩ := repMovsb_kernel hkernel xs hm (.inr hk)
    refine ⟨fun hstops => ?_, fun hnot => ?_⟩
    · obtain ⟨ys, m', hrun⟩ := hfail hstops
      exact ⟨m', run_bind_ok hrun⟩
    · obtain ⟨ys, m', hrun, -, hmem⟩ := hdone hnot
      exact ⟨m', run_bind_ok hrun, hmem hne⟩

lemma copies_copyFromUser (dest : List (BitVec 8)) (src : VirtAddr) :
    Copies false (fun _ _ => True) src dest.length (snd <$> copyFromUser dest src) := by
  refine copies_repMovsb (fun _ => oneByte_loadByte) (fun _ => kernelTransfer_loadByte) dest src ?_
  rw [copyFromUser]
  split_ifs
  · rfl
  · simp only [bind_pure_comp, Functor.map_map]

lemma copies_copyToUser (dest : VirtAddr) (src : List (BitVec 8)) :
    Copies true (fun _ _ => True) dest src.length (copyToUser dest src) := by
  refine copies_repMovsb oneByte_storeByte kernelTransfer_storeByte src dest ?_
  rw [copyToUser]
  split_ifs
  · rfl
  · simp only [bind_pure_comp]

lemma isSome_copyFromUser (value : List (BitVec 8)) (src : VirtAddr) :
    Option.isSome <$> (do
      let (buf, done) ← copyFromUser value src
      return if done then some buf else none : Cpu (Option (List (BitVec 8)))) =
        snd <$> copyFromUser value src := by
  simp only [bind_pure_comp, Functor.map_map]
  congr 1
  funext x
  cases x.2 <;> rfl

lemma copies_asVec (s : UserCStr) (maxLen : Usize) :
    Copies false (fun m a => m.byteAt a ≠ 0) s.addr maxLen.toNat
      (Option.isSome <$> s.asVec maxLen) := by
  have hsrc : s.addr + BitVec.ofNat 64 0 = s.addr := BitVec.add_zero _
  refine ⟨fun hn m => ?_, fun hgap => ?_, fun hk hn m hm => ?_⟩
  · have hzero : maxLen = 0 := BitVec.eq_of_toNat_eq hn
    rw [UserCStr.asVec, cstrLenUser, hzero]
    split_ifs <;> rfl
  · rw [UserCStr.asVec, cstrLenUser]
    split_ifs
    · exact spec_pure trivial
    · simp only [pure_bind, isSome_copyFromUser]
      exact (copies_copyFromUser _ _).user hgap
    · rw [map_bind]
      refine (spec_cstrLoop_user s.addr _ 0 (hsrc.symm ▸ hgap)).bind fun r _ => ?_
      cases r with
      | none => exact spec_pure trivial
      | some len =>
        rw [isSome_copyFromUser]
        exact (copies_copyFromUser _ _).user hgap
  · have hnull : ¬ s.isNull := by
      simp only [UserCStr.isNull, decide_eq_true_eq]
      bv_omega
    have hlen : maxLen ≠ 0 := by
      rintro rfl
      exact absurd hn (lt_irrefl 0)
    rw [UserCStr.asVec, if_neg hnull, cstrLenUser, if_neg hlen, map_bind]
    obtain ⟨hfail, hdone⟩ := cstrLoop_kernel hm (hsrc.symm ▸ Or.inr hk)
    rw [hsrc] at hfail hdone
    refine ⟨fun hstops => ?_, fun hnot => ?_⟩
    · obtain ⟨m', hrun⟩ := hfail hstops
      exact ⟨m', run_bind_ok hrun⟩
    · obtain ⟨len, m₁, hrun, htables, -, hmem, hall⟩ := hdone hnot
      rw [Nat.zero_add] at hrun
      have hcopies := copies_copyFromUser (replicate len 0) s.addr
      rw [length_replicate] at hcopies
      rw [run_bind_ok hrun]
      rw [isSome_copyFromUser]
      by_cases hzero : len = 0
      · exact ⟨m₁, hcopies.nothing hzero m₁, hmem hn⟩
      · refine (hcopies.kernel hk (Nat.pos_of_ne_zero hzero) m₁ (htables.ready hm)).2 ?_
        rwa [htables.stops]

namespace UserCall

lemma copies (call : UserCall) :
    Copies call.writes call.Continues call.addr call.length call.run := by
  have hread : ∀ p : UserPtr, Option.isSome <$> p.read =
      snd <$> copyFromUser (replicate p.size.toNat 0) p.addr :=
    fun _ => isSome_copyFromUser _ _
  have hslice : ∀ (p : UserPtr) value, (fun r => r.1.isSome) <$> p.readSlice value =
      snd <$> copyFromUser value p.addr := by
    intro p value
    simp only [UserPtr.readSlice, bind_pure_comp, Functor.map_map]
    congr 1
    funext x
    cases x.2 <;> rfl
  have hwrite : ∀ (p : UserPtr) value, Option.isSome <$> p.write value =
      copyToUser p.addr value := by
    intro p value
    simp only [UserPtr.write, bind_pure_comp, Functor.map_map]
    refine Eq.trans ?_ (id_map _)
    congr 1
    funext done
    cases done <;> rfl
  cases call with
  | read p index =>
    have hcopies := copies_copyFromUser (replicate p.size.toNat 0) (p.offset index).addr
    rw [length_replicate] at hcopies
    rw [run, hread]
    exact hcopies
  | write p index value =>
    rw [run, hwrite]
    exact copies_copyToUser _ _
  | readSlice p index value =>
    rw [run, hslice]
    exact copies_copyFromUser _ _
  | writeSlice p index value =>
    rw [run, show (p.offset index).writeSlice value = (p.offset index).write value from rfl, hwrite]
    exact copies_copyToUser _ _
  | asVec s maxLen => exact copies_asVec s maxLen
  | asCstring s maxLen =>
    have heq : Option.isSome <$> s.asCstring maxLen = Option.isSome <$> s.asVec maxLen := by
      simp only [UserCStr.asCstring, bind_pure_comp, Functor.map_map, Option.isSome_map]
    rw [run, heq]
    exact copies_asVec s maxLen

/-- A call reports failure or accesses the user half only, if and only if it accesses nothing, its
address is not of the kernel half, or it comes to a page that the kernel cannot access. -/
theorem confined_iff {map : MemoryMap} (hlen : map.len ≤ 2 ^ 40) {pmm : Pmm}
    (hinit : map.init = some pmm) {m : Machine}
    (h : System.Reachable pmm m.sys) (hpid : (m.sys.spaces m.pid).isSome) (call : UserCall) :
    Confined call.run m ↔ call.length = 0 ∨ isUserAddr call.addr ∨ ¬ isCanonical call.addr ∨
      m.Stops call.writes (call.Continues m) call.addr call.length := by
  obtain ⟨s, hs⟩ := Option.isSome_iff_exists.mp hpid
  have hwf := ((h.inv hlen hinit).2.spaces m.pid s hs).wf
  refine call.copies.confined_run_iff ⟨s, hs, hwf⟩ ?_
  cases call <;> rfl

/-- The kernel half begins with all of the physical memory. -/
def directMap : PageTable := fun page =>
  .new (addrFromIdx (page - 0xFFFF800000000))
    (VmFlags.asPte ⟨true, true, false, false, false⟩ false)
    .normal 0

/-- A process that has just been created makes a system call. -/
def freshCall (pmm : Pmm) : Machine := ⟨System.oneFile pmm, 1, directMap, 1, []⟩

/-- A pointer of the user half is safe. -/
theorem confined_user : ∃ pmm, System.smallMap.init = some pmm ∧
      Confined (read ⟨0x1000, 8⟩ 0).run (freshCall pmm) := by
  obtain ⟨pmm, hpmm⟩ := exists_init_smallMap
  refine ⟨pmm, hpmm, ?_⟩
  exact (confined_iff (by decide) hpmm (System.Reachable.oneFile pmm) rfl
    (read ⟨0x1000, 8⟩ 0)).mpr (.inr (.inl rfl))

/-- Eight bytes of the second frame are read through the mapping of the kernel. -/
theorem not_confined_directMap : ∃ pmm, System.smallMap.init = some pmm ∧
    System.Reachable pmm (freshCall pmm).sys ∧
      ¬ Confined (read ⟨0xFFFF800000001000, 8⟩ 0).run (freshCall pmm) := by
  obtain ⟨pmm, hpmm⟩ := exists_init_smallMap
  have hreach := System.Reachable.oneFile pmm
  refine ⟨pmm, hpmm, hreach, fun hconf => ?_⟩
  have hready : (freshCall pmm).Ready := ⟨_, rfl, Wf.new new_eq⟩
  rw [(copies _).confined_run_iff hready rfl] at hconf
  rcases hconf with hlength | huser | hcanonical | ⟨i, hi, hrefuses, -⟩
  · exact absurd hlength (by decide)
  · exact absurd huser (by decide)
  · exact absurd rfl hcanonical
  · have hall : ∀ i < 8, (decide (0xFFFF800000001000#64 + BitVec.ofNat 64 i = 0) ||
        !(directMap ((0xFFFF800000001000#64 + BitVec.ofNat 64 i).toNat / pageSize)).permits false) =
          false := by
      decide
    exact Bool.false_ne_true ((hall i hi).symm.trans hrefuses)

end UserCall

end Zinnia
