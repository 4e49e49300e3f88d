import Zinnia.Util
import Zinnia.Lib.Segments
import Mathlib.Data.Prod.Lex

/-!
# The allocator of virtual page ranges

A `VirtualAllocator` hands out the pages of a window. Its allocated ranges are disjoint; `reserve`
adds a range that overlaps none of them and `release` takes a range out of them, splitting those
that stick out.
-/

namespace Zinnia

open Segment List

structure VirtRange where
  startPage : ℕ
  endPage : ℕ
deriving DecidableEq

namespace VirtRange

/-- Ranges are ordered by their start, then by their end. -/
def key (r : VirtRange) : ℕ ×ₗ ℕ := toLex (r.startPage, r.endPage)

def probeMin (startPage : ℕ) : VirtRange := ⟨startPage, 0⟩

def probeMax (startPage : ℕ) : VirtRange := ⟨startPage, 2 ^ 64 - 1⟩

instance : Segment VirtRange := ⟨startPage, endPage⟩

instance : Keyed key := ⟨fun a b h => by
  rcases Prod.Lex.toLex_le_toLex.mp h with h | h
  · exact h.le
  · exact h.1.le⟩

end VirtRange

structure VirtualAllocator where
  startPage : ℕ
  endPage : ℕ
  nextFit : ℕ
  allocated : BTreeSet VirtRange VirtRange.key

namespace VirtualAllocator

def new (start «end» : VirtAddr) : EResult VirtualAllocator :=
  if !isPageAligned start || !isPageAligned «end» then .error .einval
  else
    let startPage := start.toNat / pageSize
    let endPage := «end».toNat / pageSize
    if startPage ≥ endPage then .error .einval
    else .ok ⟨startPage, endPage, startPage, BTreeSet.empty⟩

/-- The loop of `find_free_from`: the first gap of `count` pages from `candidate` on. -/
def scanFree (count : ℕ) : List VirtRange → ℕ → EResult ℕ
  | [], candidate => .ok candidate
  | range :: rest, candidate =>
    if range.endPage ≤ candidate then scanFree count rest candidate
    else if 2 ^ 64 ≤ candidate + count then .error .enomem
    else if candidate + count ≤ range.startPage then .ok candidate
    else scanFree count rest range.endPage

def findFreeFrom (a : VirtualAllocator) (base : VirtAddr) (len : NonZeroUsize) :
    EResult VirtAddr := do
  let count := pageCount len
  let base := (alignUp base (BitVec.ofNat 64 pageSize)).toNat / pageSize
  let candidate := max a.startPage base
  -- the scan begins at the last range that starts at or below the candidate
  let below := a.allocated.elems.filter fun r => r.key ≤ (VirtRange.probeMax candidate).key
  let ranges :=
    match below.getLast? with
    | some pred => a.allocated.elems.filter fun r => pred.key ≤ r.key
    | none => a.allocated.elems
  let candidate ← scanFree count ranges candidate
  if 2 ^ 64 ≤ candidate + count then .error .enomem
  else if candidate + count > a.endPage then .error .enomem
  else .ok (BitVec.ofNat 64 (candidate * pageSize))

def rangeFromAddr (a : VirtualAllocator) (addr : VirtAddr) (len : NonZeroUsize) :
    EResult VirtRange :=
  if !isPageAligned addr then .error .einval
  else if (checkedAdd addr len).isNone then .error .enomem
  else
    let startPage := addr.toNat / pageSize
    let endPage := startPage + pageCount len
    if 2 ^ 64 ≤ endPage then .error .enomem
    else if startPage < a.startPage || endPage > a.endPage then .error .enomem
    else .ok ⟨startPage, endPage⟩

def reserve (a : VirtualAllocator) (addr : VirtAddr) (len : NonZeroUsize) :
    EResult VirtualAllocator := do
  let range ← a.rangeFromAddr addr len
  let probe := (VirtRange.probeMin range.startPage).key
  let pred := (a.allocated.elems.filter fun r => r.key < probe).getLast?
  let succ := (a.allocated.elems.filter fun r => probe ≤ r.key).head?
  if pred.any fun r => range.startPage < r.endPage then .error .enomem
  else if succ.any fun r => r.startPage < range.endPage then .error .enomem
  else .ok { a with allocated := a.allocated.insert range }

/-- What is left of `old` outside `range`. -/
def remainder (range old : VirtRange) : List VirtRange :=
  (if old.startPage < range.startPage then [⟨old.startPage, range.startPage⟩] else []) ++
    if range.endPage < old.endPage then [⟨range.endPage, old.endPage⟩] else []

/-- The ranges that overlap `range`, from the last to the first. -/
def overlapping (a : VirtualAllocator) (range : VirtRange) : List VirtRange :=
  (a.allocated.elems.filter fun r => r.key < (VirtRange.probeMin range.endPage).key).reverse.takeWhile
    fun r => range.startPage < r.endPage

def releaseRange (a : VirtualAllocator) (range : VirtRange) : VirtualAllocator :=
  { a with allocated := trimAll a.allocated (remainder range) (a.overlapping range) }

def release (a : VirtualAllocator) (addr : VirtAddr) (len : NonZeroUsize) :
    EResult VirtualAllocator := do
  let range ← a.rangeFromAddr addr len
  .ok (a.releaseRange range)

/-- The search of `allocate` begins where the last allocation ended, and then at the start of the
window. -/
def findNext (a : VirtualAllocator) (len : NonZeroUsize) : EResult VirtAddr :=
  let hint := max a.startPage (min a.nextFit a.endPage)
  match a.findFreeFrom (BitVec.ofNat 64 (hint * pageSize)) len with
  | .ok virt => .ok virt
  | .error _ => a.findFreeFrom (BitVec.ofNat 64 (a.startPage * pageSize)) len

def allocate (a : VirtualAllocator) (len : NonZeroUsize) :
    EResult (VirtAddr × VirtualAllocator) := do
  let virt ← a.findNext len
  let range ← a.rangeFromAddr virt len
  .ok (virt, { a with allocated := a.allocated.insert range, nextFit := range.endPage })

def allocateFrom (a : VirtualAllocator) (base : VirtAddr) (len : NonZeroUsize) :
    EResult (VirtAddr × VirtualAllocator) := do
  let virt ← a.findFreeFrom base len
  let a ← a.reserve virt len
  .ok (virt, a)

/-- The derived `Clone`. -/
def clone (a : VirtualAllocator) : VirtualAllocator :=
  ⟨a.startPage, a.endPage, a.nextFit, a.allocated⟩

/-! ### The allocated pages -/

/-- The page lies in an allocated range. -/
def IsAllocated (a : VirtualAllocator) (i : ℕ) : Prop := (at? a.allocated i).isSome

/-- The allocated ranges are disjoint and lie in the window. -/
structure Wf (a : VirtualAllocator) : Prop where
  disjointed : Disjointed a.allocated
  inWindow : ∀ i, a.IsAllocated i → a.startPage ≤ i ∧ i < a.endPage

variable {a : VirtualAllocator} {range r : VirtRange} {addr : VirtAddr} {len : NonZeroUsize}

lemma isAllocated_iff {i : ℕ} : a.IsAllocated i ↔ (valueAt (fun _ _ => ()) a.allocated i).isSome := by
  simp [IsAllocated, valueAt]

lemma key_lt_probeMin {n : ℕ} : r.key < (VirtRange.probeMin n).key ↔ r.startPage < n := by
  simp [VirtRange.key, VirtRange.probeMin, Prod.Lex.toLex_lt_toLex]

/-- In the order of the set, disjoint ranges end before the next one begins. -/
lemma Wf.endPage_le (h : a.Wf) {s : VirtRange} (hr : r ∈ a.allocated) (hs : s ∈ a.allocated)
    (hrs : r.key < s.key) : r.endPage ≤ s.startPage := by
  have hne : r ≠ s := fun heq => by simp [heq] at hrs
  have hstart : r.startPage ≤ s.startPage := by
    simp only [VirtRange.key, Prod.Lex.toLex_lt_toLex] at hrs
    omega
  have hs' : s.startPage < s.endPage := h.disjointed.nonempty s hs
  rcases h.disjointed.apart r hr s hs hne with hap | hap
  · exact hap
  · change s.endPage ≤ r.startPage at hap
    omega

lemma takeWhile_eq_filter {α : Type*} {p : α → Bool} {l : List α}
    (h : l.Pairwise fun x y => p y → p x) : l.takeWhile p = l.filter p := by
  induction l with
  | nil => rfl
  | cons x l ih =>
    obtain ⟨hx, hl⟩ := pairwise_cons.mp h
    cases hpx : p x with
    | true => rw [takeWhile_cons_of_pos hpx, filter_cons_of_pos hpx, ih hl]
    | false =>
      have : l.filter p = [] := filter_eq_nil_iff.mpr fun y hy hpy => by
        simp [hx y hy hpy] at hpx
      simp [hpx, this]

/-- The walk from the right finds exactly the ranges that overlap. -/
lemma Wf.mem_overlapping (h : a.Wf) (range r : VirtRange) :
    r ∈ a.overlapping range ↔ r ∈ a.allocated ∧ Overlaps range.startPage range.endPage r := by
  have hsorted : (a.allocated.elems.filter fun r =>
      decide (r.key < (VirtRange.probeMin range.endPage).key)).reverse.Pairwise
      fun x y => decide (range.startPage < y.endPage) → decide (range.startPage < x.endPage) := by
    refine pairwise_reverse.mpr ((a.allocated.sorted.imp_of_mem ?_).filter _)
    intro x y hx hy hxy
    have hle := h.endPage_le hx hy hxy
    have hne : y.startPage < y.endPage := h.disjointed.nonempty y hy
    simp only [decide_eq_true_eq]
    omega
  rw [overlapping, takeWhile_eq_filter hsorted]
  simp only [mem_filter, mem_reverse, decide_eq_true_eq, key_lt_probeMin, Overlaps, and_assoc]
  exact and_congr_right fun _ => and_comm

lemma trims_remainder {old : VirtRange} (hle : range.startPage ≤ range.endPage)
    (hov : Overlaps range.startPage range.endPage old) :
    Trims range.startPage range.endPage (fun _ _ => ()) old (remainder range old) :=
  Trims.sides hle hov ⟨rfl, rfl⟩ ⟨rfl, rfl⟩ (fun _ _ => rfl) fun _ _ => rfl

lemma nodup_overlapping (a : VirtualAllocator) (range : VirtRange) :
    (a.overlapping range).Nodup := by
  refine Nodup.sublist (takeWhile_sublist _) (nodup_reverse.mpr ?_)
  exact (a.allocated.sorted.imp fun h heq => by simp [heq] at h).filter _

/-- Releasing a range takes its pages out of the allocated ones. -/
lemma Wf.releaseRange (h : a.Wf) (hle : range.startPage ≤ range.endPage) :
    (a.releaseRange range).Wf ∧ ∀ i, (a.releaseRange range).IsAllocated i ↔
      a.IsAllocated i ∧ ¬ (range.startPage ≤ i ∧ i < range.endPage) := by
  obtain ⟨hd, hval⟩ := h.disjointed.trimAll (fun m _ hov => trims_remainder hle hov)
    (a.nodup_overlapping range) (h.mem_overlapping range)
  have hiff : ∀ i, (a.releaseRange range).IsAllocated i ↔
      a.IsAllocated i ∧ ¬ (range.startPage ≤ i ∧ i < range.endPage) := by
    intro i
    rw [isAllocated_iff, isAllocated_iff, VirtualAllocator.releaseRange, hval]
    split_ifs with hi
    · simp [hi]
    · simp [hi]
  exact ⟨⟨hd, fun i hi => h.inWindow i ((hiff i).mp hi).1⟩, hiff⟩

/-- A range that is accepted is a nonempty range of the window, unless its length wraps. A length
that wraps is only accepted together with the address zero. -/
lemma rangeFromAddr_eq_ok (hlen : 0 < a.startPage ∨ ¬ len.Wraps)
    (h : a.rangeFromAddr addr len = .ok range) :
    addr.toNat % 4096 = 0 ∧ range.startPage = addr.toNat / 4096 ∧
      range.endPage = addr.toNat / 4096 + (len.1.toNat + 4095) / 4096 ∧
      range.startPage < range.endPage ∧ a.startPage ≤ range.startPage ∧
      range.endPage ≤ a.endPage := by
  have hpos := len.toNat_pos
  have hwraps : ¬ len.Wraps := by
    refine hlen.elim (fun hstart hwraps => ?_) id
    simp only [rangeFromAddr, isPageAligned, checkedAdd_isNone] at h
    split_ifs at h with halign hadd hbig hwindow
    simp only [NonZeroUsize.Wraps, pageSize, Bool.or_eq_true, decide_eq_true_eq]
      at hwraps hadd hwindow
    omega
  simp only [rangeFromAddr, isPageAligned, len.pageCount_of_not_wraps hwraps, pageSize] at h
  split_ifs at h with halign hadd hbig hwindow
  cases h
  have haligned : addr.toNat % 4096 = 0 := by simpa using halign
  simp only [Bool.or_eq_true, decide_eq_true_eq] at hwindow
  refine ⟨haligned, rfl, rfl, ?_, ?_, ?_⟩ <;> simp only <;> omega

/-- The bytes lie between the first page and the end of the user half. -/
def UserRange (addr : VirtAddr) (len : NonZeroUsize) : Prop :=
  pageSize ≤ addr.toNat ∧ addr.toNat + len.1.toNat ≤ 2 ^ 47

instance (addr : VirtAddr) (len : NonZeroUsize) : Decidable (UserRange addr len) :=
  inferInstanceAs (Decidable (_ ∧ _))

lemma UserRange.not_wraps (h : UserRange addr len) : ¬ len.Wraps := by
  have hle := h.2
  simp only [NonZeroUsize.Wraps, pageSize]
  omega

/-- The allocator of a process accepts the page-aligned ranges of the user half. -/
lemma exists_rangeFromAddr_iff (hwindow : a.startPage = 1 ∧ a.endPage = 2 ^ 35) (addr : VirtAddr)
    (len : NonZeroUsize) : (∃ range, a.rangeFromAddr addr len = .ok range) ↔
      isPageAligned addr ∧ UserRange addr len := by
  obtain ⟨hstart, hend⟩ := hwindow
  constructor
  · rintro ⟨range, h⟩
    obtain ⟨haddr, hlo, hhi, -, hmin, hmax⟩ := rangeFromAddr_eq_ok (.inl (by omega)) h
    refine ⟨by simpa [isPageAligned] using haddr, ?_, ?_⟩
    · simp only [pageSize]
      omega
    · omega
  · rintro ⟨haddr, hlo, hhi⟩
    simp only [pageSize] at hlo
    have hwrap : (len.1.toNat + 4095) % 2 ^ 64 = len.1.toNat + 4095 := Nat.mod_eq_of_lt (by omega)
    refine ⟨⟨addr.toNat / 4096, addr.toNat / 4096 + (len.1.toNat + 4095) / 4096⟩, ?_⟩
    simp only [rangeFromAddr, haddr, checkedAdd_isNone, pageCount_eq, pageSize, hwrap,
      Bool.not_true, Bool.false_eq_true, Bool.or_eq_true, decide_eq_true_eq, ↓reduceIte]
    rw [if_neg (by omega), if_neg (by omega), if_neg (by omega)]

lemma release_eq (hrange : a.rangeFromAddr addr len = .ok range) :
    a.release addr len = .ok (a.releaseRange range) := by
  rw [release, hrange]
  rfl

/-- A range without an allocated page can be reserved. -/
lemma Wf.reserve_eq (h : a.Wf) (hrange : a.rangeFromAddr addr len = .ok range)
    (hne : range.startPage < range.endPage)
    (hfree : ∀ i, range.startPage ≤ i → i < range.endPage → ¬ a.IsAllocated i) :
    a.reserve addr len = .ok { a with allocated := a.allocated.insert range } := by
  have hapart : ∀ r ∈ a.allocated, Apart r range := by
    refine h.disjointed.apart_of_at?_eq_none hne fun i hi => ?_
    simpa [IsAllocated] using hfree i hi.1 hi.2
  have hpred : ∀ r ∈ (a.allocated.elems.filter fun r =>
      r.key < (VirtRange.probeMin range.startPage).key).getLast?, r.endPage ≤ range.startPage := by
    intro r hr
    obtain ⟨hra, hrs⟩ := mem_filter.mp (mem_of_getLast? hr)
    rw [decide_eq_true_eq, key_lt_probeMin] at hrs
    rcases hapart r hra with hap | hap
    · exact hap
    · change range.endPage ≤ r.startPage at hap
      omega
  have hsucc : ∀ r ∈ (a.allocated.elems.filter fun r =>
      (VirtRange.probeMin range.startPage).key ≤ r.key).head?, range.endPage ≤ r.startPage := by
    intro r hr
    obtain ⟨hra, hrs⟩ := mem_filter.mp (mem_of_head? hr)
    rw [decide_eq_true_eq, ← not_lt, key_lt_probeMin] at hrs
    have hr' : r.startPage < r.endPage := h.disjointed.nonempty r hra
    rcases hapart r hra with hap | hap
    · change r.endPage ≤ range.startPage at hap
      omega
    · exact hap
  simp only [reserve, hrange, bind, Except.bind]
  rw [if_neg, if_neg]
  · simp only [Option.any_eq_true, not_exists]
    rintro r ⟨hr, hlt⟩
    have := hsucc r hr
    simp only [decide_eq_true_eq] at hlt
    omega
  · simp only [Option.any_eq_true, not_exists]
    rintro r ⟨hr, hlt⟩
    have := hpred r hr
    simp only [decide_eq_true_eq] at hlt
    omega

/-- Inserting a range without an allocated page allocates its pages. -/
lemma Wf.insert (h : a.Wf) (hne : range.startPage < range.endPage)
    (hlo : a.startPage ≤ range.startPage) (hhi : range.endPage ≤ a.endPage)
    (hfree : ∀ i, range.startPage ≤ i → i < range.endPage → ¬ a.IsAllocated i) (nextFit : ℕ) :
    (VirtualAllocator.mk a.startPage a.endPage nextFit (a.allocated.insert range)).Wf ∧
      ∀ i, (VirtualAllocator.mk a.startPage a.endPage nextFit
        (a.allocated.insert range)).IsAllocated i ↔
          range.startPage ≤ i ∧ i < range.endPage ∨ a.IsAllocated i := by
  have hap : ∀ r ∈ a.allocated, Apart r range := by
    refine h.disjointed.apart_of_at?_eq_none hne fun i hi => ?_
    simpa [IsAllocated] using hfree i hi.1 hi.2
  have hiff : ∀ i, (at? (a.allocated.insert range) i).isSome ↔
      range.startPage ≤ i ∧ i < range.endPage ∨ a.IsAllocated i := by
    intro i
    rw [h.disjointed.at?_insert hne hap]
    split_ifs with hi
    · exact ⟨fun _ => Or.inl hi, fun _ => rfl⟩
    · exact ⟨Or.inr, fun hor => hor.resolve_left hi⟩
  refine ⟨⟨h.disjointed.insert hne hap, fun i hi => ?_⟩, hiff⟩
  rcases (hiff i).mp hi with hi | hi
  · exact ⟨hlo.trans hi.1, lt_of_lt_of_le hi.2 hhi⟩
  · exact h.inWindow i hi

/-- Releasing a range and reserving it again allocates its pages. -/
lemma Wf.exists_reserve (h : a.Wf) (hstart : 0 < a.startPage)
    (hrange : a.rangeFromAddr addr len = .ok range) :
    ∃ a', (a.releaseRange range).reserve addr len = .ok a' ∧ a'.Wf ∧
      a'.startPage = a.startPage ∧ a'.endPage = a.endPage ∧
      ∀ i, a'.IsAllocated i ↔
        range.startPage ≤ i ∧ i < range.endPage ∨ a.IsAllocated i := by
  obtain ⟨-, -, -, hne, hlo, hhi⟩ := rangeFromAddr_eq_ok (.inl hstart) hrange
  obtain ⟨hwf, halloc⟩ := h.releaseRange hne.le
  have hfree : ∀ i, range.startPage ≤ i → i < range.endPage →
      ¬ (a.releaseRange range).IsAllocated i :=
    fun i hi₁ hi₂ hi => ((halloc i).mp hi).2 ⟨hi₁, hi₂⟩
  obtain ⟨hwf', hiff⟩ := hwf.insert hne hlo hhi hfree a.nextFit
  refine ⟨_, hwf.reserve_eq hrange hne hfree, hwf', rfl, rfl, fun i => (hiff i).trans ?_⟩
  rw [halloc]
  tauto

end VirtualAllocator

end Zinnia
