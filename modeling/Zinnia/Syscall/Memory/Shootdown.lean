import Zinnia.Memory.Virt.Shootdown
import Zinnia.Syscall.Memory.Requests

/-!
# The shootdowns of the memory system calls

A node is invalidated page by page from its address on, or altogether if it is long. This misses
the last page when the address and the length together cross one more page boundary than the length
alone. Only `mmap` of a file submits an address that is not page aligned.
-/

namespace Zinnia

/-! ### The pages that are invalidated -/

/-- The page holds one of the `size` bytes from `address` on. -/
def Intersects (address size : Usize) (page : ℕ) : Prop :=
  address.toNat < (page + 1) * pageSize ∧ page * pageSize < address.toNat + size.toNat

/-- The page is no longer in the TLB. -/
def Flushed (flushes : List Flush) (page : ℕ) : Prop :=
  .all ∈ flushes ∨ ∃ addr, .page addr ∈ flushes ∧ addr.toNat / pageSize = page

/-- A CPU invalidates every page of the range, for its user binding. -/
def Invalidates (address size : Usize) : Prop :=
  ∃ flushes, invalidateNode false address size = some flushes ∧
    ∀ page, Intersects address size page → Flushed flushes page

/-- The bytes of the range reach into no more pages than as many bytes from a page boundary on. -/
def Snug (address size : Usize) : Prop :=
  address.toNat % pageSize + (size.toNat - 1) % pageSize < pageSize

instance (address size : Usize) : Decidable (Snug address size) :=
  inferInstanceAs (Decidable (_ < _))

/-- The pages that a short node invalidates are as many as its length takes from a page boundary
on. -/
lemma invalidateNode_spec {address size : Usize} (hsize : 0 < size.toNat)
    (hfit : address.toNat + size.toNat ≤ 2 ^ 64) (hshort : ¬ FullFlush size) :
    ∃ flushes, invalidateNode false address size = some flushes ∧ ∀ page,
      Flushed flushes page ↔ address.toNat / pageSize ≤ page ∧
        page ≤ address.toNat / pageSize + (size.toNat - 1) / pageSize := by
  have hlt : size.toNat + pageSize ≤ 2 ^ 64 := by
    simp only [FullFlush, fullFlushPages, pageSize] at *
    omega
  obtain ⟨flushes, hloop, hall, hpages⟩ := flushLoop_spec address hlt 0
    (Nat.succ_pos (size.toNat / pageSize + 1)) (by simp only [pageSize]; omega)
  refine ⟨flushes, ?_, fun page => ?_⟩
  · rw [invalidateNode, if_neg]
    · exact hloop
    · rw [Bool.not_false, Bool.true_and, decide_eq_true_eq, fullFlush_iff]
      exact hshort
  · have haddr : ∀ k, k * pageSize < size.toNat →
        (address + BitVec.ofNat 64 (0 + k * pageSize)).toNat / pageSize =
          address.toNat / pageSize + k := by
      intro k hk
      rw [BitVec.toNat_add, BitVec.toNat_ofNat, Nat.mod_eq_of_lt (by omega),
        Nat.mod_eq_of_lt (by omega), Nat.zero_add, Nat.add_mul_div_right _ _ (by decide)]
    simp only [Flushed, hall, hpages, BitVec.ofNat_eq_ofNat, BitVec.toNat_zero, false_or]
    constructor
    · rintro ⟨addr, ⟨k, hk, rfl⟩, hpage⟩
      rw [haddr k (by omega)] at hpage
      have hle : k ≤ (size.toNat - 1) / pageSize :=
        (Nat.le_div_iff_mul_le (by decide)).mpr (by omega)
      omega
    · rintro ⟨hlow, hhigh⟩
      have hk : (page - address.toNat / pageSize) * pageSize < size.toNat := by
        have hle := Nat.mul_le_of_le_div _ _ _ (Nat.sub_le_iff_le_add'.mpr hhigh)
        omega
      refine ⟨_, ⟨page - address.toNat / pageSize, by omega, rfl⟩, ?_⟩
      rw [haddr _ hk]
      omega

/-- Every page of a range is invalidated exactly if the node is long or the range is snug. -/
lemma covered_iff {address size : Usize} (hsize : 0 < size.toNat)
    (hfit : FullFlush size ∨ address.toNat + size.toNat ≤ 2 ^ 64) :
    Invalidates address size ↔ FullFlush size ∨ Snug address size := by
  by_cases hfull : FullFlush size
  · refine iff_of_true ⟨[.all], ?_, fun page _ => .inl (List.mem_singleton_self _)⟩ (.inl hfull)
    rw [invalidateNode, if_pos]
    rw [Bool.not_false, Bool.true_and, decide_eq_true_eq]
    exact (fullFlush_iff size).mpr hfull
  · obtain ⟨flushes, hinv, hpages⟩ := invalidateNode_spec hsize (hfit.resolve_left hfull) hfull
    simp only [Invalidates, hinv, Option.some.injEq, exists_eq_left', hpages, hfull, false_or]
    simp only [Intersects, Snug, pageSize]
    constructor
    · intro hcover
      by_contra hlong
      have hlast := hcover ((address.toNat + size.toNat - 1) / 4096)
      omega
    · intro hsnug page hpage
      omega

/-! ### The requests -/

namespace AddressSpace

open Segment

variable {O : Type} [MemoryObject O] [DecidableEq O]

/-- The shootdowns that the memory system calls and the fault handler submit. -/
inductive Submits (s : AddressSpace O) : Usize → Usize → Prop
  | mmap {openFiles : BitVec 32 → Option (OpenFile O)} {anon : O} {addr mapped : VirtAddr}
    {length : Usize} {prot flags fd : BitVec 32} {offset : BitVec 64} {s' : AddressSpace O}
    (hcall : s.mmap openFiles anon addr length prot flags fd offset = some (.ok mapped, s')) :
    Submits s mapped length
  | mprotect {addr : VirtAddr} {size : Usize} {prot : BitVec 32} {s' : AddressSpace O}
    (hcall : s.mprotect addr size prot = some (.ok 0, s')) : Submits s addr size
  | munmap {addr : VirtAddr} {size : Usize} {s' : AddressSpace O}
    (hcall : s.munmap addr size = some (.ok 0, s')) : Submits s addr size
  /-- `munmap` calls `unmap_single` for every page. -/
  | unmapSingle {page : ℕ} (hmapped : (at? s.mappings page).isSome) :
    Submits s (BitVec.ofNat 64 (page * pageSize)) (BitVec.ofNat 64 pageSize)
  | fault {info : PageFaultInfo} {resolved : ResolvedFault O} {cowObject : Option O}
    {phys : PhysAddr} {s' : AddressSpace O} (hvalid : s.stillValid info resolved)
    (hcow : resolved.cowWrite) (hcall : s.install info resolved cowObject phys = some s') :
    Submits s (BitVec.ofNat 64 (info.faultyPage * pageSize)) (BitVec.ofNat 64 pageSize)

/-- The bytes of a request that is not too long do not wrap around. -/
def Fits (address size : Usize) : Prop :=
  0 < size.toNat ∧ (FullFlush size ∨ address.toNat + size.toNat ≤ 2 ^ 64)

lemma fits_of_checkedAdd {addr : VirtAddr} {len : NonZeroUsize}
    (h : ¬ (checkedAdd addr len).isNone) : Fits addr len := by
  rw [checkedAdd_isNone, decide_eq_true_eq, Nat.not_le] at h
  exact ⟨len.toNat_pos, .inr h.le⟩

/-- A page ends where the next one begins. -/
lemma fits_page (page : ℕ) : Fits (BitVec.ofNat 64 (page * pageSize)) (BitVec.ofNat 64 pageSize) := by
  refine ⟨by decide, .inr ?_⟩
  rw [BitVec.toNat_ofNat, show (BitVec.ofNat 64 pageSize).toNat = pageSize from rfl]
  simp only [pageSize]
  omega

section

variable {s s' : AddressSpace O} {offset : BitVec 64}

/-- The range that is mapped ends at or behind the range that was asked for. -/
lemma Backs.fits {start addr : VirtAddr} {len size : NonZeroUsize} (h : Backs start len addr size)
    (hadd : ¬ (checkedAdd addr size).isNone) : Fits start len := by
  cases h with
  | same => exact fits_of_checkedAdd hadd
  | rounded hsize =>
    refine ⟨len.toNat_pos, or_iff_not_imp_left.mpr fun hshort => ?_⟩
    rw [FullFlush, fullFlushPages] at hshort
    rw [checkedAdd_isNone, decide_eq_true_eq, toNat_pageStart, toNat_rounded hsize] at hadd
    simp only [pageSize] at *
    omega

/-- The requests of `mprotect` and `munmap` have been checked to be in the address space. -/
lemma Submits.fits {address size : Usize} (h : s.Submits address size) : Fits address size := by
  cases h with
  | mmap hcall =>
    obtain ⟨-, e, he⟩ | ⟨len, start, object, addr', size, vmProt, offset', hlen, -, hasks, hcall⟩ :=
      exists_of_mmap hcall
    · cases he
    · obtain ⟨rfl, hmap⟩ := answer_eq_ok hcall
      rw [← NonZeroUsize.eq_of_new hlen]
      refine hasks.range.fits fun hnone => ?_
      rw [mapObject, if_pos hnone] at hmap
      cases hmap
  | mprotect hcall =>
    rw [AddressSpace.mprotect] at hcall
    split at hcall
    · cases hcall
    · rename_i len hlen
      obtain ⟨-, hprotect⟩ := answer_eq_ok hcall
      rw [← NonZeroUsize.eq_of_new hlen]
      refine fits_of_checkedAdd fun hnone => ?_
      rw [protect, if_pos hnone] at hprotect
      cases hprotect
  | munmap hcall =>
    rw [AddressSpace.munmap] at hcall
    split at hcall
    · cases hcall
    · rename_i len hlen
      obtain ⟨-, hunmap⟩ := answer_eq_ok hcall
      rw [← NonZeroUsize.eq_of_new hlen]
      refine fits_of_checkedAdd fun hnone => ?_
      rw [unmap, if_pos hnone] at hunmap
      cases hunmap
  | unmapSingle hmapped => exact fits_page _
  | fault hvalid hcow hcall => exact fits_page _

/-- A CPU that services a request invalidates every page of its range exactly if the request is
long enough for all pages to be invalidated, or its range is snug. -/
theorem Submits.invalidates_iff {address size : Usize} (h : s.Submits address size) :
    Invalidates address size ↔ FullFlush size ∨ Snug address size :=
  covered_iff h.fits.1 h.fits.2

end

/-- The first anonymous page of a process is invalidated. -/
theorem invalidates_first_page : ∃ s s' : AddressSpace ObjectRef, AddressSpace.new = .ok s ∧
    s.mmap (fun _ => none) ⟨0, .normal⟩ 0x1000 0x1000 3 0x32 0 0 = some (.ok 0x1000, s') ∧
    Invalidates 0x1000 0x1000 := by
  have hcall : ∃ s s' : AddressSpace ObjectRef, AddressSpace.new = .ok s ∧
      s.mmap (fun _ => none) ⟨0, .normal⟩ 0x1000 0x1000 3 0x32 0 0 = some (.ok 0x1000, s') :=
    ⟨_, _, new_eq, rfl⟩
  obtain ⟨s, s', hnew, hmmap⟩ := hcall
  exact ⟨s, s', hnew, hmmap, (Submits.mmap hmmap).invalidates_iff.mpr (.inr (by decide))⟩

/-- A file is mapped at an address in the middle of a page, with an offset that fits. The second
page of the range is not invalidated. -/
theorem not_invalidates_second_page : ∃ s s' : AddressSpace ObjectRef, AddressSpace.new = .ok s ∧
    s.mmap (fun _ => some (.tmpfs ⟨0, .normal⟩)) ⟨1, .normal⟩ 0x100800 0x1000 3 0x11 3 0x800 =
      some (.ok 0x100800, s') ∧
    Intersects 0x100800 0x1000 0x101 ∧ (s'.lookup 0x101).isSome ∧
    invalidateNode false 0x100800 0x1000 = some [.page 0x100800] ∧
    ¬ Flushed [.page 0x100800] 0x101 ∧ ¬ Invalidates 0x100800 0x1000 := by
  have hnot : ¬ Flushed [.page 0x100800] 0x101 := by
    rintro (hall | ⟨addr, haddr, hpage⟩)
    · simp at hall
    · simp only [List.mem_singleton, Flush.page.injEq] at haddr
      subst haddr
      exact absurd hpage (by decide)
  have hcross : Intersects 0x100800 0x1000 0x101 := by
    constructor <;> decide
  refine ⟨_, _, new_eq, rfl, hcross, by decide, by decide, hnot, ?_⟩
  rintro ⟨flushes, hinv, hcover⟩
  cases hinv
  exact hnot (hcover 0x101 hcross)

end AddressSpace

end Zinnia
