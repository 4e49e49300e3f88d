import Zinnia.Memory.Virt.Allocator

/-!
# Properties of the allocator of virtual page ranges

`find_free_from` goes through the allocated ranges from left to right and stops at the first gap
that is wide enough. Rounding up to pages overflows for addresses and lengths in the last page of
the address space; then the search begins at the start of the window, or looks for no page at all.
-/

namespace Zinnia

open Segment List VirtualAllocator VirtRange Nat

/-- The number of pages that hold `len` bytes from a page boundary on. -/
def NonZeroUsize.pages (len : NonZeroUsize) : ℕ := (len.1.toNat + 4095) / pageSize

lemma NonZeroUsize.pages_pos (len : NonZeroUsize) : 0 < len.pages := by
  have hpos := len.toNat_pos
  simp only [pages, pageSize]
  omega

namespace VirtualAllocator

/-- Pages of the window that are not allocated. -/
structure FreeRun (a : VirtualAllocator) (page count : ℕ) : Prop where
  lo : a.startPage ≤ page
  hi : page + count ≤ a.endPage
  free : ∀ i, page ≤ i → i < page + count → ¬ a.IsAllocated i

/-- The result of a search for the lowest free run from `base` on. -/
def FindsLowest (a : VirtualAllocator) (base : VirtAddr) (len : NonZeroUsize) :
    EResult VirtAddr → Prop
  | .ok addr => addr.toNat % pageSize = 0 ∧ base.toNat ≤ addr.toNat ∧
      a.FreeRun (addr.toNat / pageSize) len.pages ∧
      ∀ page, base.toNat ≤ page * pageSize → a.FreeRun page len.pages →
        addr.toNat / pageSize ≤ page
  | .error _ => ∀ page, base.toNat ≤ page * pageSize → ¬ a.FreeRun page len.pages

/-- The pages of a range are allocated, in addition to those that already were. -/
def Allocates (a a' : VirtualAllocator) (addr : VirtAddr) (len : NonZeroUsize) : Prop :=
  a.FreeRun (addr.toNat / pageSize) len.pages ∧
    ∀ i, a'.IsAllocated i ↔ InRange addr len i ∨ a.IsAllocated i

/-- The pages of a range are released. A range that reaches into it keeps what sticks out, on
either side. -/
def Releases (a a' : VirtualAllocator) (addr : VirtAddr) (len : NonZeroUsize) : Prop :=
  (∀ i, a'.IsAllocated i ↔ a.IsAllocated i ∧ ¬ InRange addr len i) ∧
    ∀ r : VirtRange, r ∈ a'.allocated ↔
      r ∈ a.allocated ∧ (∀ i, Covers r i → ¬ InRange addr len i) ∨
      ∃ old ∈ a.allocated, (∃ i, Covers old i ∧ InRange addr len i) ∧
        (r.startPage = old.startPage ∧ r.startPage < r.endPage ∧
            r.endPage * pageSize = addr.toNat ∨
          r.startPage = addr.toNat / pageSize + len.pages ∧ r.startPage < r.endPage ∧
            r.endPage = old.endPage)

/-- The allocated ranges are disjoint ranges of pages of the window. -/
structure Ranges (a : VirtualAllocator) : Prop where
  inWindow : ∀ r ∈ a.allocated, a.startPage ≤ r.startPage ∧ r.endPage ≤ a.endPage
  nonempty : ∀ r ∈ a.allocated, r.startPage < r.endPage
  apart : ∀ r ∈ a.allocated, ∀ s ∈ a.allocated, r ≠ s →
    r.endPage ≤ s.startPage ∨ s.endPage ≤ r.startPage

/-! ### Calls -/

inductive Call where
  | allocate (len : NonZeroUsize)
  | allocateFrom (base : VirtAddr) (len : NonZeroUsize)
  | findFreeFrom (base : VirtAddr) (len : NonZeroUsize)
  | reserve (addr : VirtAddr) (len : NonZeroUsize)
  | release (addr : VirtAddr) (len : NonZeroUsize)

/-- The allocator after a call. A call that fails leaves it as it is. -/
def call (a : VirtualAllocator) : Call → VirtualAllocator
  | .allocate len => (a.allocate len).toOption.elim a (·.2)
  | .allocateFrom base len => (a.allocateFrom base len).toOption.elim a (·.2)
  | .findFreeFrom _ _ => a
  | .reserve addr len => (a.reserve addr len).toOption.getD a
  | .release addr len => (a.release addr len).toOption.getD a

/-- A call does what it is for. -/
def Correct (a : VirtualAllocator) : Call → Prop
  | .allocate len =>
    match a.allocate len with
    | .ok (addr, a') => a.Allocates a' addr len
    | .error _ => ∀ page, ¬ a.FreeRun page len.pages
  | .allocateFrom base len =>
    match a.allocateFrom base len with
    | .ok (addr, a') => a.FindsLowest base len (.ok addr) ∧ a.Allocates a' addr len
    | .error e => a.FindsLowest base len (.error e)
  | .findFreeFrom base len => a.FindsLowest base len (a.findFreeFrom base len)
  | .reserve addr len => ∀ a', a.reserve addr len = .ok a' → a.Allocates a' addr len
  | .release addr len => ∀ a', a.release addr len = .ok a' → a.Releases a' addr len

/-- Rounding the address up to pages overflows. -/
def AddrWraps (addr : VirtAddr) : Prop := 2 ^ 64 ≤ addr.toNat + (pageSize - 1)

/-- Neither the length nor the address where the search begins is in the last page of the address
space. -/
def Call.Admissible : Call → Prop
  | .allocate len => ¬ len.Wraps
  | .allocateFrom base len => ¬ len.Wraps ∧ ¬ AddrWraps base
  | .findFreeFrom base len => ¬ len.Wraps ∧ ¬ AddrWraps base
  | .reserve _ len => ¬ len.Wraps
  | .release _ len => ¬ len.Wraps

/-- The allocators that arise from calls that meet a condition. -/
inductive Arises (Guard : Call → Prop) : VirtualAllocator → Prop
  | new {start stop : VirtAddr} {a : VirtualAllocator} (h : VirtualAllocator.new start stop = .ok a) :
    Arises Guard a
  | clone {a : VirtualAllocator} (h : Arises Guard a) : Arises Guard a.clone
  | call {a : VirtualAllocator} (h : Arises Guard a) {c : Call} (hc : Guard c) :
    Arises Guard (a.call c)

variable {a a' : VirtualAllocator} {base addr : VirtAddr} {len : NonZeroUsize} {range r : VirtRange}

/-! ### The search -/

/-- The loop ends at the lowest place where no range of the list is in the way, or where the
pages can no longer be counted. -/
lemma scanFree_spec (count : ℕ) {l : List VirtRange}
    (hl : l.Pairwise fun r s => r.endPage ≤ s.startPage)
    (hne : ∀ r ∈ l, r.startPage < r.endPage) (candidate : ℕ) :
    ∃ c, candidate ≤ c ∧
      (∀ p, candidate ≤ p → p < c → ∃ r ∈ l, p < r.endPage ∧ r.startPage < p + count) ∧
      (scanFree count l candidate = .ok c ∧
          (∀ r ∈ l, c + count ≤ r.startPage ∨ r.endPage ≤ c) ∨
        scanFree count l candidate = .error .enomem ∧ 2 ^ 64 ≤ c + count) := by
  induction l generalizing candidate with
  | nil =>
    refine ⟨candidate, le_rfl, fun p hp hpc => absurd hpc (not_lt.mpr hp), .inl ⟨rfl, ?_⟩⟩
    intro r hr
    cases hr
  | cons r l ih =>
    obtain ⟨hr, hl⟩ := pairwise_cons.mp hl
    have hrne := hne r mem_cons_self
    have hlne : ∀ s ∈ l, s.startPage < s.endPage := fun s hs => hne s (mem_cons_of_mem r hs)
    rw [scanFree]
    split_ifs with hend hbig hgap
    · -- the range lies before the candidate
      obtain ⟨c, hle, hbelow, hres⟩ := ih hl hlne candidate
      refine ⟨c, hle, fun p hp hpc => ?_, ?_⟩
      · obtain ⟨s, hs, hblock⟩ := hbelow p hp hpc
        exact ⟨s, mem_cons_of_mem r hs, hblock⟩
      · exact hres.imp_left fun hok =>
          ⟨hok.1, forall_mem_cons.mpr ⟨.inr (hend.trans hle), hok.2⟩⟩
    · exact ⟨candidate, le_rfl, fun p hp hpc => absurd hpc (not_lt.mpr hp), .inr ⟨rfl, hbig⟩⟩
    · refine ⟨candidate, le_rfl, fun p hp hpc => absurd hpc (not_lt.mpr hp), .inl ⟨rfl, ?_⟩⟩
      exact forall_mem_cons.mpr ⟨.inl hgap, fun s hs =>
        .inl (hgap.trans (hrne.le.trans (hr s hs)))⟩
    · -- the range is in the way of every run that begins before its end
      obtain ⟨c, hle, hbelow, hres⟩ := ih hl hlne r.endPage
      refine ⟨c, (Nat.le_of_not_le hend).trans hle, fun p hp hpc => ?_, ?_⟩
      · by_cases hpr : p < r.endPage
        · exact ⟨r, mem_cons_self, hpr, by omega⟩
        · obtain ⟨s, hs, hblock⟩ := hbelow p (not_lt.mp hpr) hpc
          exact ⟨s, mem_cons_of_mem r hs, hblock⟩
      · exact hres.imp_left fun hok => ⟨hok.1, forall_mem_cons.mpr ⟨.inr hle, hok.2⟩⟩

/-- The ranges that the search goes through. -/
def scanned (a : VirtualAllocator) (candidate : ℕ) : List VirtRange :=
  match (a.allocated.elems.filter fun r => r.key ≤ (VirtRange.probeMax candidate).key).getLast? with
  | some pred => a.allocated.elems.filter fun r => pred.key ≤ r.key
  | none => a.allocated.elems

/-- The search goes through allocated ranges, and leaves out only those before the candidate. -/
lemma Wf.scanned (h : a.Wf) (candidate : ℕ) :
    (a.scanned candidate).Sublist a.allocated.elems ∧
      ∀ r ∈ a.allocated, r ∈ a.scanned candidate ∨ r.endPage ≤ candidate := by
  rw [VirtualAllocator.scanned]
  cases hpred : (a.allocated.elems.filter fun r =>
      r.key ≤ (VirtRange.probeMax candidate).key).getLast? with
  | none => exact ⟨Sublist.refl _, fun r hr => .inl hr⟩
  | some pred =>
    refine ⟨filter_sublist, fun r hr => ?_⟩
    obtain ⟨hmem, hkey⟩ := mem_filter.mp (mem_of_getLast? hpred)
    by_cases hle : pred.key ≤ r.key
    · exact .inl (mem_filter.mpr ⟨hr, decide_eq_true hle⟩)
    · have hstart := Keyed.lo_le pred (probeMax _) (of_decide_eq_true hkey)
      exact .inr ((h.endPage_le hr hmem (not_le.mp hle)).trans hstart)

lemma Wf.not_isAllocated_iff {i : ℕ} :
    ¬ a.IsAllocated i ↔ ∀ r ∈ a.allocated, r.endPage ≤ i ∨ i < r.startPage := by
  rw [IsAllocated, Bool.not_eq_true, Option.isSome_eq_false_iff, Option.isNone_iff_eq_none,
    at?_eq_none]
  refine forall₂_congr fun r _ => ?_
  change ¬ (r.startPage ≤ i ∧ i < r.endPage) ↔ _
  omega

/-- Pages are free if no range is in their way. -/
lemma Wf.freeRun_iff (h : a.Wf) {page count : ℕ} (hcount : 0 < count) :
    a.FreeRun page count ↔ a.startPage ≤ page ∧ page + count ≤ a.endPage ∧
      ∀ r ∈ a.allocated, page + count ≤ r.startPage ∨ r.endPage ≤ page := by
  constructor
  · rintro ⟨hlo, hhi, hfree⟩
    refine ⟨hlo, hhi, fun r hr => ?_⟩
    have hrne : r.startPage < r.endPage := h.disjointed.nonempty r hr
    have hfirst := Wf.not_isAllocated_iff.mp (hfree page le_rfl (by omega)) r hr
    by_contra hcon
    have hstart := Wf.not_isAllocated_iff.mp (hfree r.startPage (by omega) (by omega)) r hr
    omega
  · rintro ⟨hlo, hhi, hapart⟩
    refine ⟨hlo, hhi, fun i hi hi' => Wf.not_isAllocated_iff.mpr fun r hr => ?_⟩
    have hr' := hapart r hr
    omega

lemma alignUp_page (hbase : ¬ AddrWraps base) :
    (alignUp base (BitVec.ofNat 64 pageSize)).toNat / pageSize = (base.toNat + 4095) / pageSize := by
  have hlt : base.toNat + 4095 < 2 ^ 64 := not_le.mp hbase
  rw [alignUp_toNat, Nat.mod_eq_of_lt hlt]
  exact Nat.mul_div_cancel _ (by decide)

/-- The ranges are well formed, and the window ends before the last page of the address space. -/
structure Inv (a : VirtualAllocator) : Prop extends a.Wf where
  start_le : a.startPage ≤ a.endPage
  end_lt : a.endPage < 2 ^ 52

lemma Inv.findFreeFrom (h : a.Inv) (hlen : ¬ len.Wraps) (hbase : ¬ AddrWraps base) :
    a.FindsLowest base len (a.findFreeFrom base len) := by
  have hend := h.end_lt
  have hpos := len.pages_pos
  obtain ⟨first, hfirst⟩ : ∃ first, first = max a.startPage ((base.toNat + 4095) / pageSize) :=
    ⟨_, rfl⟩
  obtain ⟨hsub, hrest⟩ := h.toWf.scanned first
  have hpairwise : a.allocated.elems.Pairwise fun r s => r.endPage ≤ s.startPage :=
    a.allocated.sorted.imp_of_mem fun hr hs hrs => h.toWf.endPage_le hr hs hrs
  obtain ⟨c, hle, hbelow, hres⟩ := scanFree_spec len.pages (hpairwise.sublist hsub)
    (fun r hr => h.disjointed.nonempty r (hsub.subset hr)) first
  have hlowest : ∀ page, base.toNat ≤ page * pageSize → a.FreeRun page len.pages → c ≤ page := by
    intro page hpage hrun
    obtain ⟨hlo, hhi, hapart⟩ := (h.toWf.freeRun_iff hpos).mp hrun
    have hge : first ≤ page := by
      simp only [hfirst, pageSize] at hpage ⊢
      omega
    by_contra hlt
    obtain ⟨r, hr, hblock⟩ := hbelow page hge (not_le.mp hlt)
    have hr' := hapart r (hsub.subset hr)
    omega
  have hnone : a.endPage < c + len.pages → a.FindsLowest base len (.error .enomem) := by
    intro hbig page hpage hrun
    have hcp := hlowest page hpage hrun
    have hhi := hrun.hi
    omega
  have hcount : pageCount len = len.pages := len.pageCount_of_not_wraps hlen
  rw [VirtualAllocator.findFreeFrom, hcount, alignUp_page hbase, ← hfirst]
  change a.FindsLowest base len (scanFree len.pages (a.scanned first) first >>= _)
  rcases hres with ⟨hok, hapart⟩ | ⟨herr, hbig⟩
  · simp only [hok, bind, Except.bind]
    split_ifs with hbig hout
    · exact hnone (by omega)
    · exact hnone hout
    · have hrun : a.FreeRun c len.pages := by
        refine (h.toWf.freeRun_iff hpos).mpr ⟨by omega, not_lt.mp hout, fun r hr => ?_⟩
        rcases hrest r hr with hr | hr
        · exact hapart r hr
        · exact .inr (hr.trans hle)
      have haddr : (BitVec.ofNat 64 (c * pageSize)).toNat = c * pageSize := by
        exact mod_eq_of_lt (by simp only [pageSize]; omega)
      rw [FindsLowest, haddr, Nat.mul_div_cancel _ (by decide)]
      refine ⟨mul_mod_left _ _, ?_, hrun, hlowest⟩
      simp only [hfirst, pageSize] at hle ⊢
      omega
  · simp only [herr, bind, Except.bind]
    exact hnone (by omega)

/-! ### Reserving and releasing -/

/-- The range of pages that a call is about. -/
def rangeOf (addr : VirtAddr) (len : NonZeroUsize) : VirtRange :=
  ⟨addr.toNat / pageSize, addr.toNat / pageSize + len.pages⟩

lemma inRange_iff_rangeOf (haddr : addr.toNat % pageSize = 0) {i : ℕ} :
    InRange addr len i ↔ (rangeOf addr len).startPage ≤ i ∧ i < (rangeOf addr len).endPage :=
  inRange_iff haddr

lemma rangeOf_nonempty (addr : VirtAddr) (len : NonZeroUsize) :
    (rangeOf addr len).startPage < (rangeOf addr len).endPage :=
  Nat.lt_add_of_pos_right len.pages_pos

/-- Without overflow, a range is accepted if it is one of the window. -/
lemma Inv.rangeFromAddr_iff (h : a.Inv) (hlen : ¬ len.Wraps) :
    a.rangeFromAddr addr len = .ok range ↔ addr.toNat % pageSize = 0 ∧ range = rangeOf addr len ∧
      a.startPage ≤ range.startPage ∧ range.endPage ≤ a.endPage := by
  constructor
  · intro hrange
    obtain ⟨haddr, hlo, hhi, -, hmin, hmax⟩ := rangeFromAddr_eq_ok (.inr hlen) hrange
    refine ⟨haddr, ?_, hmin, hmax⟩
    obtain ⟨startPage, endPage⟩ := range
    cases hlo
    cases hhi
    rfl
  · rintro ⟨haddr, rfl, hmin, hmax⟩
    have hend := h.end_lt
    have halign : isPageAligned addr = true := decide_eq_true haddr
    simp only [rangeOf, NonZeroUsize.pages, pageSize] at haddr hmin hmax
    simp only [rangeFromAddr, halign, len.pageCount_of_not_wraps hlen, checkedAdd_isNone, rangeOf,
      NonZeroUsize.pages, pageSize, Bool.not_true, Bool.false_eq_true, Bool.or_eq_true,
      decide_eq_true_eq, ↓reduceIte]
    rw [if_neg (by omega), if_neg (by omega), if_neg (by omega)]

/-- Free pages are allocated when their range is inserted. -/
lemma Inv.insertRun (h : a.Inv) (haddr : addr.toNat % pageSize = 0)
    (hrun : a.FreeRun (addr.toNat / pageSize) len.pages) (nextFit : ℕ) :
    (VirtualAllocator.mk a.startPage a.endPage nextFit
        (a.allocated.insert (rangeOf addr len))).Inv ∧
      a.Allocates (VirtualAllocator.mk a.startPage a.endPage nextFit
        (a.allocated.insert (rangeOf addr len))) addr len := by
  obtain ⟨hwf, hiff⟩ := h.toWf.insert (rangeOf_nonempty addr len) hrun.lo hrun.hi hrun.free nextFit
  refine ⟨⟨hwf, h.start_le, h.end_lt⟩, hrun, fun i => ?_⟩
  rw [hiff, inRange_iff_rangeOf haddr]

/-- The neighbours of a range leave room for it, so the others do as well. -/
lemma Wf.free_of_neighbours (h : a.Wf)
    (hpred : ∀ r ∈ (a.allocated.elems.filter fun r =>
      r.key < (VirtRange.probeMin range.startPage).key).getLast?, r.endPage ≤ range.startPage)
    (hsucc : ∀ r ∈ (a.allocated.elems.filter fun r =>
      (VirtRange.probeMin range.startPage).key ≤ r.key).head?, range.endPage ≤ r.startPage) :
    ∀ r ∈ a.allocated, range.endPage ≤ r.startPage ∨ r.endPage ≤ range.startPage := by
  intro r hr
  by_cases hlt : r.key < (probeMin range.startPage).key
  · have hmem : r ∈ a.allocated.elems.filter fun r =>
        r.key < (probeMin range.startPage).key :=
      mem_filter.mpr ⟨hr, decide_eq_true hlt⟩
    obtain ⟨pred, hlast⟩ := Option.isSome_iff_exists.mp
      (getLast?_isSome.mpr (ne_nil_of_mem hmem))
    have hend := hpred pred hlast
    obtain ⟨front, hfront⟩ := getLast?_eq_some_iff.mp hlast
    have hsorted := a.allocated.sorted.filter fun r =>
      decide (r.key < (probeMin range.startPage).key)
    rw [hfront] at hmem hsorted
    rcases mem_append.mp hmem with hmem' | hmem'
    · have hkey := (pairwise_append.mp hsorted).2.2 r hmem' pred mem_cons_self
      have hpredMem : pred ∈ a.allocated := (mem_filter.mp (mem_of_getLast? hlast)).1
      have hle := h.endPage_le hr hpredMem hkey
      have hne : pred.startPage < pred.endPage := h.disjointed.nonempty pred hpredMem
      exact .inr (by omega)
    · cases mem_singleton.mp hmem'
      exact .inr hend
  · have hmem : r ∈ a.allocated.elems.filter fun r =>
        (probeMin range.startPage).key ≤ r.key :=
      mem_filter.mpr ⟨hr, decide_eq_true (not_lt.mp hlt)⟩
    have hsorted := a.allocated.sorted.filter fun r =>
      decide ((probeMin range.startPage).key ≤ r.key)
    cases hlist : a.allocated.elems.filter fun r =>
        (probeMin range.startPage).key ≤ r.key with
    | nil =>
      rw [hlist] at hmem
      cases hmem
    | cons succ rest =>
      have hstart := hsucc succ (by rw [hlist]; rfl)
      rw [hlist] at hmem hsorted
      rcases mem_cons.mp hmem with rfl | hmem
      · exact .inl hstart
      · have hkey := (pairwise_cons.mp hsorted).1 r hmem
        exact .inl (hstart.trans (Keyed.lo_le succ r hkey.le))

lemma Inv.reserve (h : a.Inv) (hlen : ¬ len.Wraps) (hres : a.reserve addr len = .ok a') :
    a'.Inv ∧ a.Allocates a' addr len := by
  cases hrange : a.rangeFromAddr addr len with
  | error e =>
    simp only [VirtualAllocator.reserve, hrange, bind, Except.bind] at hres
    cases hres
  | ok range =>
    obtain ⟨haddr, rfl, hlo, hhi⟩ := (h.rangeFromAddr_iff hlen).mp hrange
    simp only [VirtualAllocator.reserve, hrange, bind, Except.bind] at hres
    split_ifs at hres with hpred hsucc
    cases hres
    simp only [Option.any_eq_true, not_exists, not_and, decide_eq_true_eq, not_lt] at hpred hsucc
    apply h.insertRun haddr
    exact (h.toWf.freeRun_iff len.pages_pos).mpr ⟨hlo, hhi, h.toWf.free_of_neighbours hpred hsucc⟩

lemma mem_remainder {old : VirtRange} :
    r ∈ remainder range old ↔
      r.startPage = old.startPage ∧ r.endPage = range.startPage ∧ r.startPage < r.endPage ∨
      r.startPage = range.endPage ∧ r.endPage = old.endPage ∧ r.startPage < r.endPage := by
  obtain ⟨startPage, endPage⟩ := r
  simp only [remainder, mem_append, mem_ite_nil_right, mem_singleton, VirtRange.mk.injEq]
  constructor
  · rintro (⟨hlt, rfl, rfl⟩ | ⟨hlt, rfl, rfl⟩)
    · exact .inl ⟨rfl, rfl, hlt⟩
    · exact .inr ⟨rfl, rfl, hlt⟩
  · rintro (⟨rfl, rfl, hlt⟩ | ⟨rfl, rfl, hlt⟩)
    · exact .inl ⟨hlt, rfl, rfl⟩
    · exact .inr ⟨hlt, rfl, rfl⟩

lemma overlaps_iff (hr : r.startPage < r.endPage) (haddr : addr.toNat % pageSize = 0) :
    Overlaps (rangeOf addr len).startPage (rangeOf addr len).endPage r ↔
      ∃ i, Covers r i ∧ InRange addr len i := by
  have hne := rangeOf_nonempty addr len
  constructor
  · rintro ⟨hlo, hhi⟩
    refine ⟨max r.startPage (rangeOf addr len).startPage, ⟨le_max_left _ _, max_lt hr hlo⟩, ?_⟩
    exact (inRange_iff_rangeOf haddr).mpr ⟨le_max_right _ _, max_lt hhi hne⟩
  · rintro ⟨i, ⟨hlo, hhi⟩, hi⟩
    obtain ⟨hlo', hhi'⟩ := (inRange_iff_rangeOf haddr).mp hi
    exact ⟨lt_of_le_of_lt hlo' hhi, lt_of_le_of_lt hlo hhi'⟩

lemma Inv.release (h : a.Inv) (hlen : ¬ len.Wraps) (hrel : a.release addr len = .ok a') :
    a'.Inv ∧ a.Releases a' addr len := by
  cases hrange : a.rangeFromAddr addr len with
  | error e =>
    rw [VirtualAllocator.release, hrange] at hrel
    cases hrel
  | ok range =>
    obtain ⟨haddr, rfl, -, -⟩ := (h.rangeFromAddr_iff hlen).mp hrange
    rw [release_eq hrange] at hrel
    cases hrel
    obtain ⟨hwf, hiff⟩ := h.toWf.releaseRange (rangeOf_nonempty addr len).le
    refine ⟨⟨hwf, h.start_le, h.end_lt⟩, fun i => ?_, fun r => ?_⟩
    · rw [hiff, inRange_iff_rangeOf haddr]
    · have hstart : (rangeOf addr len).startPage * pageSize = addr.toNat :=
        Nat.div_mul_cancel (Nat.dvd_of_mod_eq_zero haddr)
      rw [releaseRange, h.disjointed.mem_trimAll
        (fun m _ hov => trims_remainder (rangeOf_nonempty addr len).le hov) (a.nodup_overlapping _)
        (h.toWf.mem_overlapping _)]
      refine or_congr (and_congr_right fun hr => ?_) (exists_congr fun old =>
        and_congr_right fun hold =>
          and_congr (overlaps_iff (h.disjointed.nonempty old hold) haddr) ?_)
      · rw [overlaps_iff (h.disjointed.nonempty r hr) haddr]
        push Not
        rfl
      · rw [mem_remainder]
        refine or_congr (and_congr_right fun _ => ?_) (and_congr_right fun _ => and_comm)
        rw [← hstart, Nat.mul_left_inj (by decide)]
        exact and_comm

/-! ### Allocating -/

lemma Inv.not_addrWraps (h : a.Inv) {page : ℕ} (hpage : page ≤ a.endPage) :
    (BitVec.ofNat 64 (page * pageSize)).toNat = page * pageSize ∧
      ¬ AddrWraps (BitVec.ofNat 64 (page * pageSize)) := by
  have hend := h.end_lt
  have heq : (BitVec.ofNat 64 (page * pageSize)).toNat = page * pageSize := by
    exact mod_eq_of_lt (by simp only [pageSize]; omega)
  refine ⟨heq, ?_⟩
  rw [AddrWraps, heq]
  simp only [pageSize]
  omega

/-- A free run can be inserted. -/
lemma Inv.rangeFromAddr_of_freeRun (h : a.Inv) (hlen : ¬ len.Wraps)
    (haddr : addr.toNat % pageSize = 0) (hrun : a.FreeRun (addr.toNat / pageSize) len.pages) :
    a.rangeFromAddr addr len = .ok (rangeOf addr len) :=
  (h.rangeFromAddr_iff hlen).mpr ⟨haddr, rfl, hrun.lo, hrun.hi⟩

/-- The address of a free run, or none. -/
def FindsSome (a : VirtualAllocator) (len : NonZeroUsize) : EResult VirtAddr → Prop
  | .ok addr => addr.toNat % pageSize = 0 ∧ a.FreeRun (addr.toNat / pageSize) len.pages
  | .error _ => ∀ page, ¬ a.FreeRun page len.pages

lemma Inv.findNext (h : a.Inv) (hlen : ¬ len.Wraps) : a.FindsSome len (a.findNext len) := by
  have hhint : max a.startPage (min a.nextFit a.endPage) ≤ a.endPage :=
    max_le h.start_le (min_le_right _ _)
  have hfirst := h.findFreeFrom hlen (h.not_addrWraps hhint).2
  simp only [VirtualAllocator.findNext]
  split
  · rename_i virt hfind
    rw [hfind] at hfirst
    exact ⟨hfirst.1, hfirst.2.2.1⟩
  · obtain ⟨hstart, hwraps⟩ := h.not_addrWraps h.start_le
    have hsecond := h.findFreeFrom hlen hwraps
    revert hsecond
    cases a.findFreeFrom (BitVec.ofNat 64 (a.startPage * pageSize)) len with
    | ok virt => exact fun hsecond => ⟨hsecond.1, hsecond.2.2.1⟩
    | error e =>
      intro hsecond page hrun
      refine hsecond page ?_ hrun
      rw [hstart]
      exact mul_le_mul_right pageSize hrun.lo

lemma Inv.allocate (h : a.Inv) (hlen : ¬ len.Wraps) :
    match a.allocate len with
    | .ok (addr, a') => a'.Inv ∧ a.Allocates a' addr len
    | .error _ => ∀ page, ¬ a.FreeRun page len.pages := by
  have hfinds := h.findNext hlen
  rw [VirtualAllocator.allocate]
  cases hfind : a.findNext len with
  | error e =>
    rw [hfind] at hfinds
    exact hfinds
  | ok addr =>
    rw [hfind] at hfinds
    have hrange := h.rangeFromAddr_of_freeRun hlen hfinds.1 hfinds.2
    simp only [bind, Except.bind, hrange]
    exact h.insertRun hfinds.1 hfinds.2 _

lemma Inv.allocateFrom (h : a.Inv) (hlen : ¬ len.Wraps) (hbase : ¬ AddrWraps base) :
    match a.allocateFrom base len with
    | .ok (addr, a') => a'.Inv ∧ a.FindsLowest base len (.ok addr) ∧ a.Allocates a' addr len
    | .error e => a.FindsLowest base len (.error e) := by
  have hfinds := h.findFreeFrom hlen hbase
  rw [VirtualAllocator.allocateFrom]
  cases hfind : a.findFreeFrom base len with
  | error e =>
    rw [hfind] at hfinds
    exact hfinds
  | ok addr =>
    rw [hfind] at hfinds
    have hrun := hfinds.2.2.1
    have hrange := h.rangeFromAddr_of_freeRun hlen hfinds.1 hrun
    have hreserve := h.toWf.reserve_eq hrange (rangeOf_nonempty addr len) hrun.free
    simp only [bind, Except.bind, hreserve]
    obtain ⟨hinv, hallocates⟩ := h.insertRun hfinds.1 hrun a.nextFit
    exact ⟨hinv, hfinds, hallocates⟩

/-! ### Runs -/

/-- An admissible call keeps the invariant and does what it is to do. -/
lemma Inv.call (h : a.Inv) {c : Call} (hc : c.Admissible) : (a.call c).Inv ∧ a.Correct c := by
  cases c with
  | allocate len =>
    have hspec := h.allocate hc
    rw [VirtualAllocator.call, Correct]
    revert hspec
    cases a.allocate len with
    | error e => exact fun hspec => ⟨h, hspec⟩
    | ok res => exact id
  | allocateFrom base len =>
    have hspec := h.allocateFrom hc.1 hc.2
    rw [VirtualAllocator.call, Correct]
    revert hspec
    cases a.allocateFrom base len with
    | error e => exact fun hspec => ⟨h, hspec⟩
    | ok res => exact id
  | findFreeFrom base len => exact ⟨h, h.findFreeFrom hc.1 hc.2⟩
  | reserve addr len =>
    refine ⟨?_, fun a' hres => (h.reserve hc hres).2⟩
    rw [VirtualAllocator.call]
    cases hres : a.reserve addr len with
    | error e => exact h
    | ok a' => exact (h.reserve hc hres).1
  | release addr len =>
    refine ⟨?_, fun a' hres => (h.release hc hres).2⟩
    rw [VirtualAllocator.call]
    cases hres : a.release addr len with
    | error e => exact h
    | ok a' => exact (h.release hc hres).1

lemma Inv.new {start stop : VirtAddr} (h : VirtualAllocator.new start stop = .ok a) : a.Inv := by
  rw [VirtualAllocator.new] at h
  split_ifs at h with halign
  simp only at h
  split_ifs at h with hle
  cases h
  refine ⟨⟨disjointed_empty, fun i hi => ?_⟩, (not_le.mp hle).le, ?_⟩
  · rw [IsAllocated] at hi
    cases hi
  · simp only [pageSize]
    omega

lemma Arises.inv (h : Arises Call.Admissible a) : a.Inv := by
  induction h with
  | new h => exact Inv.new h
  | clone h ih => exact ih
  | call h hc ih => exact (ih.call hc).1

lemma Inv.ranges (h : a.Inv) : a.Ranges := by
  refine ⟨fun r hr => ?_, h.disjointed.nonempty, h.disjointed.apart⟩
  have hne : r.startPage < r.endPage := h.disjointed.nonempty r hr
  have hallocated : ∀ i, r.startPage ≤ i → i < r.endPage → a.IsAllocated i := by
    intro i hlo hhi
    rw [IsAllocated, h.disjointed.at?_eq_some.mpr ⟨hr, hlo, hhi⟩]
    rfl
  have hfirst := h.inWindow r.startPage (hallocated _ le_rfl hne)
  have hlast := h.inWindow (r.endPage - 1) (hallocated _ (by omega) (by omega))
  omega

/-- If no length and no base of a search is in the last page of the address space, the allocated
ranges are disjoint ranges of the window, and every call does what it is for. -/
theorem Arises.correct (h : Arises Call.Admissible a) :
    a.Ranges ∧ ∀ c : Call, c.Admissible → a.Correct c :=
  ⟨h.inv.ranges, fun _ hc => (h.inv.call hc).2⟩

/-- The allocator of fifteen pages. -/
def fifteenPages : VirtualAllocator := ⟨1, 16, 1, BTreeSet.empty⟩

lemma arises_fifteenPages (Guard : Call → Prop) : Arises Guard fifteenPages :=
  .new (show new 0x1000 0x10000 = .ok fifteenPages by rfl)

/-- A page of fifteen is allocated, and released again. -/
theorem correct_fifteenPages : (fifteenPages.call (.allocate onePage)).Ranges ∧
    (fifteenPages.call (.allocate onePage)).Correct (.release 0x1000 onePage) := by
  have hadmissible : ¬ onePage.Wraps := by decide
  obtain ⟨hranges, hcorrect⟩ := Arises.correct
    (.call (arises_fifteenPages _) (c := .allocate onePage) hadmissible)
  exact ⟨hranges, hcorrect (.release 0x1000 onePage) hadmissible⟩

/-- A search from the last page of the address space on finds a page below it. -/
theorem not_correct_last_page : Arises (fun _ => True) fifteenPages ∧
    ¬ fifteenPages.Correct (.findFreeFrom 0xFFFFFFFFFFFFF001 onePage) := by
  refine ⟨arises_fifteenPages _, fun h => ?_⟩
  rw [Correct] at h
  exact absurd h.2.1 (by decide)

end VirtualAllocator

end Zinnia
