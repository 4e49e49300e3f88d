import Zinnia.Memory.Pmm.FreeList

/-!
# Properties of the physical page allocator

Along every run of allocations and of deallocations of allocated pages, the free list stays
increasing and coalesced, and the free and the allocated pages partition the pages given to
`init`. The address limit of an allocation is not always respected: `alloc` tests the start of a
free region against the limit, but hands out its end.
-/

namespace Zinnia

open Regions Set Region

/-- The pages of `count` consecutive frames from the address `addr` on. -/
def pageRange (addr : PhysAddr) (count : ℕ) : Set ℕ :=
  Set.Ico (idxFromAddr addr) (idxFromAddr addr + count)

lemma pageRange_one (addr : PhysAddr) : pageRange addr 1 = {idxFromAddr addr} := by
  ext i
  rw [pageRange, mem_Ico, mem_singleton_iff]
  omega

/-- The pages that `init` takes from an entry. -/
def PhysMemory.pages (e : PhysMemory) : Set ℕ := pageRange e.address (e.length.toNat / pageSize)

/-- A memory map whose registered entries are disjoint ranges of pages with metadata. -/
structure MemoryMap where
  entries : List PhysMemory
  len : ℕ
  len_lt : len < 2 ^ 52
  inBounds : ∀ e ∈ entries, e.registered → e.pages ⊆ Set.Iio len
  disjoint : entries.Pairwise fun e f => e.registered → f.registered → Disjoint e.pages f.pages

/-- `pmm::init` with the entries. -/
abbrev MemoryMap.init (m : MemoryMap) : Option Pmm := Pmm.init m.entries m.len m.len_lt

/-- At most fifteen pages of memory, which start at page 1. -/
def MemoryMap.small (length : BitVec 64) (h : length.toNat / pageSize ≤ 15) : MemoryMap where
  entries := [⟨0x1000, length, .usable⟩]
  len := 16
  len_lt := by decide
  inBounds := by
    intro e he _ i hi
    rw [List.mem_singleton.mp he] at hi
    exact lt_of_lt_of_le hi.2 (Nat.add_le_add (show idxFromAddr 0x1000 ≤ 1 by decide) h)
  disjoint := List.pairwise_singleton _ _

/-- Five pages of memory. -/
def fivePages : MemoryMap := .small 0x5000 (by decide)

/-- The pages given to the allocator by a list of entries. -/
def registeredPages (entries : List PhysMemory) : Set ℕ :=
  {i | ∃ e ∈ entries, e.registered ∧ i ∈ e.pages}

lemma MemoryMap.registeredPages_subset (m : MemoryMap) :
    registeredPages m.entries ⊆ Iio m.len := by
  rintro i ⟨e, he, hreg, hi⟩
  exact m.inBounds e he hreg hi

namespace Pmm

/-- One call, on a state with the set of pages that are currently allocated. Only allocated pages
are deallocated. -/
inductive Step : Pmm × Set ℕ → Pmm × Set ℕ → Prop
  | alloc {p p' : Pmm} {A : Set ℕ} {addr : PhysAddr} (pages : Usize) (flags : AllocFlags)
      (h : p.alloc pages flags = some (.ok addr, p')) :
      Step (p, A) (p', A ∪ pageRange addr pages.toNat)
  | allocError {p p' : Pmm} {A : Set ℕ} {e : AllocError} (pages : Usize) (flags : AllocFlags)
      (h : p.alloc pages flags = some (.error e, p')) : Step (p, A) (p', A)
  | dealloc {p p' : Pmm} {A : Set ℕ} (addr : PhysAddr) (pages : Usize)
      (hA : pageRange addr pages.toNat ⊆ A)
      (h : p.deallocInner addr pages.toNat = some p') :
      Step (p, A) (p', A \ pageRange addr pages.toNat)

/-- The free and the allocated pages partition `total`. -/
structure Partition (total free A : Set ℕ) : Prop where
  disjoint : Disjoint free A
  union : free ∪ A = total

/-- `p` is a well-formed free list, whose pages and `A` partition `total`. -/
def Inv (total : Set ℕ) (len : ℕ) (p : Pmm) (A : Set ℕ) : Prop :=
  ∃ rs, FreeList p rs ∧ p.len = len ∧ Partition total (cells rs) A

variable {p p' : Pmm} {rs : List Region} {A total : Set ℕ} {len n : ℕ} {r : Region}
  {addr : PhysAddr} {flags : AllocFlags}

/-! ### Initialisation -/

lemma registeredPages_cons (e : PhysMemory) (es : List PhysMemory) :
    registeredPages (e :: es) = (if e.registered then e.pages else ∅) ∪ registeredPages es := by
  ext i
  by_cases he : e.registered <;> simp [registeredPages]

/-- Freeing pages that are not free adds exactly these pages to the free list. -/
lemma FreeList.exists_freeRegion (h : FreeList p rs) {idx count : ℕ} (hpos : 0 < count)
    (hin : Ico idx (idx + count) ⊆ Iio p.len)
    (hd : Disjoint (Ico idx (idx + count)) (cells rs)) :
    ∃ p' rs', p.freeRegion idx count = some p' ∧ p'.len = p.len ∧ FreeList p' rs' ∧
      cells rs' = cells rs ∪ Ico idx (idx + count) := by
  obtain ⟨p', hp', hlen', hfree⟩ :=
    h.freeRegion_eq ⟨idx, count, hpos⟩ (stop_le_of_cells_subset hin) hd
  refine ⟨p', _, hp', hlen', hfree, ?_⟩
  rw [cells_coalesce, union_comm]
  rfl

/-- Registering one more entry adds its pages to the free list. -/
lemma FreeList.exists_register (h : FreeList p rs) {e : PhysMemory}
    (hin : e.registered → e.pages ⊆ Iio p.len)
    (hd : e.registered → Disjoint e.pages (cells rs)) :
    ∃ p' rs', p.register e = some p' ∧ p'.len = p.len ∧ FreeList p' rs' ∧
      cells rs' = cells rs ∪ if e.registered then e.pages else ∅ := by
  simp only [register]
  split_ifs with hreg
  · have hpos : 0 < e.length.toNat / pageSize := by
      simp only [PhysMemory.registered, Bool.not_or, Bool.and_eq_true, Bool.not_eq_true',
        decide_eq_false_iff_not] at hreg
      exact Nat.div_pos (by omega) (by decide)
    exact h.exists_freeRegion hpos (hin hreg) (hd hreg)
  · exact ⟨p, rs, rfl, rfl, h, by simp⟩

lemma FreeList.exists_foldlM_register (h : FreeList p rs) {es : List PhysMemory}
    (hin : ∀ e ∈ es, e.registered → e.pages ⊆ Iio p.len)
    (hd : ∀ e ∈ es, e.registered → Disjoint e.pages (cells rs))
    (hes : es.Pairwise fun e f => e.registered → f.registered → Disjoint e.pages f.pages) :
    ∃ p' rs', es.foldlM register p = some p' ∧ p'.len = p.len ∧ FreeList p' rs' ∧
      cells rs' = cells rs ∪ registeredPages es := by
  induction es generalizing p rs with
  | nil => exact ⟨p, rs, rfl, rfl, h, by simp [registeredPages]⟩
  | cons e es ih =>
    rw [List.forall_mem_cons] at hin hd
    rw [List.pairwise_cons] at hes
    obtain ⟨p₁, rs₁, hp₁, hlen₁, hfree₁, hcells₁⟩ := h.exists_register hin.1 hd.1
    have hd₁ : ∀ f ∈ es, f.registered → Disjoint f.pages (cells rs₁) := by
      intro f hf hreg
      rw [hcells₁, disjoint_union_right]
      refine ⟨hd.2 f hf hreg, ?_⟩
      split_ifs with he
      · exact (hes.1 f hf he hreg).symm
      · exact disjoint_empty _
    obtain ⟨p', rs', hp', hlen', hfree', hcells'⟩ := ih hfree₁ (hlen₁ ▸ hin.2) hd₁ hes.2
    refine ⟨p', rs', ?_, hlen'.trans hlen₁, hfree', ?_⟩
    · rw [List.foldlM_cons, hp₁]
      exact hp'
    · rw [hcells', hcells₁, registeredPages_cons, union_assoc]

lemma exists_init (m : MemoryMap) :
    ∃ p, m.init = some p ∧ Inv (registeredPages m.entries) m.len p ∅ := by
  have hempty : FreeList (empty m.len m.len_lt) [] := ⟨⟨rfl, fun _ _ => rfl⟩, by simp, separated_nil⟩
  obtain ⟨p, rs, hp, hlen, hfree, hcells⟩ := hempty.exists_foldlM_register m.inBounds (by simp)
    m.disjoint
  exact ⟨p, hp, rs, hfree, hlen, disjoint_empty _, by simpa using hcells⟩

/-! ### Allocating and deallocating -/

lemma Partition.take {free S : Set ℕ} (h : Partition total free A) (hS : S ⊆ free) :
    Partition total (free \ S) (A ∪ S) := by
  constructor
  · rw [disjoint_union_right]
    exact ⟨h.disjoint.mono_left sdiff_subset, disjoint_sdiff_left⟩
  · rw [union_comm A, ← union_assoc, sdiff_union_of_subset hS, h.union]

lemma Partition.give {free S : Set ℕ} (h : Partition total free A) (hS : S ⊆ A) :
    Partition total (free ∪ S) (A \ S) := by
  constructor
  · rw [disjoint_union_left]
    exact ⟨h.disjoint.mono_right sdiff_subset, disjoint_sdiff_right⟩
  · rw [union_assoc, union_sdiff_cancel hS, h.union]

/-- The pages of an allocation are the last pages of a free region. -/
lemma pageRange_eq (h : addr.toNat = (r.stop - n) * pageSize) (hn : n ≤ r.count) :
    pageRange addr n = Ico (r.stop - n) r.stop := by
  have hstop : r.start + r.count = r.stop := rfl
  rw [pageRange, idxFromAddr, h, Nat.mul_div_cancel _ (by decide),
    Nat.sub_add_cancel (by omega)]

lemma pageRange_subset {pre post : List Region} (hn : n ≤ r.count) :
    Ico (r.stop - n) r.stop ⊆ cells (pre ++ r :: post) := by
  intro i hi
  have hstop : r.start + r.count = r.stop := rfl
  refine ⟨r, by simp, mem_cells.mpr ?_⟩
  have := hi.1
  have := hi.2
  omega

section

variable (h : Inv total len p A)

include h

/-- An allocation moves free pages to the allocated ones. -/
lemma Inv.alloc (pages : Usize) (flags : AllocFlags) :
    p.alloc pages flags = some (.error .allocError, p) ∨
    ∃ addr p', p.alloc pages flags = some (.ok addr, p') ∧ addr.toNat % pageSize = 0 ∧
      Disjoint (pageRange addr pages.toNat) A ∧
      Inv total len p' (A ∪ pageRange addr pages.toNat) := by
  obtain ⟨rs, hfree, hlen, hpart⟩ := h
  rcases hfree.alloc_cases pages flags with ⟨herr, -⟩ |
    ⟨pre, r, post, addr, p', rfl, hok, hlen', haddr, hfits, -, hfree'⟩
  · exact .inl herr
  · have hn := FreeList.count_of_fits hfits
    have hsub : pageRange addr pages.toNat ⊆ cells (pre ++ r :: post) :=
      pageRange_eq haddr hn ▸ pageRange_subset hn
    refine .inr ⟨addr, p', hok, by rw [haddr, Nat.mul_mod_left],
      hpart.disjoint.mono_left hsub, _, hfree', hlen'.trans hlen, ?_⟩
    rw [cells_append_shrink hfree.separated hn, ← pageRange_eq haddr hn]
    exact hpart.take hsub

lemma Inv.of_alloc {pages : Usize}
    (hok : p.alloc pages flags = some (.ok addr, p')) : Disjoint (pageRange addr pages.toNat) A ∧
      Inv total len p' (A ∪ pageRange addr pages.toNat) := by
  rcases h.alloc pages flags with herr | ⟨addr', p'', hok', -, h'⟩
  · cases hok.symm.trans herr
  · cases hok.symm.trans hok'
    exact h'

/-- Deallocating allocated pages moves them to the free ones. -/
lemma Inv.dealloc (htotal : total ⊆ Iio len) {pages : ℕ} (hA : pageRange addr pages ⊆ A) :
    ∃ p', p.deallocInner addr pages = some p' ∧ Inv total len p' (A \ pageRange addr pages) := by
  obtain ⟨rs, hfree, hlen, hpart⟩ := h
  simp only [deallocInner]
  split_ifs with hzero
  · refine ⟨p, rfl, rs, hfree, hlen, ?_⟩
    simpa [pageRange, hzero] using hpart
  · have hin : pageRange addr pages ⊆ Iio p.len := by
      rw [hlen]
      exact (hA.trans (hpart.union ▸ subset_union_right)).trans htotal
    obtain ⟨p', rs', hp', hlen', hfree', hcells'⟩ := hfree.exists_freeRegion
      (Nat.pos_of_ne_zero hzero) hin (hpart.disjoint.symm.mono_left hA)
    refine ⟨p', hp', rs', hfree', hlen'.trans hlen, ?_⟩
    rw [hcells']
    exact hpart.give hA

/-- Single pages are given back one after the other. -/
lemma Inv.foldlM_dealloc (htotal : total ⊆ Iio len) {addrs : List PhysAddr}
    (hnodup : (addrs.map idxFromAddr).Nodup) (hA : ∀ i ∈ addrs.map idxFromAddr, i ∈ A) :
    ∃ p', addrs.foldlM (fun p addr => p.deallocInner addr 1) p = some p' ∧
      Inv total len p' (A \ {i | i ∈ addrs.map idxFromAddr}) := by
  induction addrs generalizing p A with
  | nil => exact ⟨p, rfl, by simpa using h⟩
  | cons addr addrs ih =>
    obtain ⟨hnot, hnodup⟩ := List.nodup_cons.mp hnodup
    have hpage : pageRange addr 1 ⊆ A := by
      rw [pageRange_one, singleton_subset_iff]
      exact hA _ List.mem_cons_self
    obtain ⟨p₁, hp₁, h₁⟩ := h.dealloc htotal hpage
    obtain ⟨p', hp', h'⟩ := ih h₁ hnodup fun i hi => by
      rw [pageRange_one]
      refine ⟨hA i (List.mem_cons_of_mem _ hi), fun heq => hnot ?_⟩
      rwa [← mem_singleton_iff.mp heq]
    refine ⟨p', by rw [List.foldlM_cons, hp₁]; exact hp', ?_⟩
    convert h' using 1
    rw [pageRange_one]
    ext i
    simp only [List.map_cons, List.mem_cons, mem_sdiff, mem_ofPred_eq]
    tauto

/-- A page is in a region of the free list. Only the head pages of these regions have a count. -/
def IsFree (p : Pmm) (i : ℕ) : Prop := ∃ h < p.len, h ≤ i ∧ i < h + (p.pages h).count

omit h in
lemma FreeList.isFree_iff (h : FreeList p rs) (i : ℕ) : p.IsFree i ↔ i ∈ cells rs := by
  constructor
  · rintro ⟨head, hlt, hle, hi⟩
    have hcount : (p.pages head).count ≠ 0 := by omega
    rw [h.pages head hlt, count_pageOf_ne_zero] at hcount
    obtain ⟨r, hr, rfl⟩ := hcount
    obtain ⟨pre, post, rfl⟩ := List.append_of_mem hr
    rw [h.pages_start] at hi
    exact ⟨r, hr, mem_cells.mpr ⟨hle, hi⟩⟩
  · rintro ⟨r, hr, hi⟩
    obtain ⟨pre, post, rfl⟩ := List.append_of_mem hr
    refine ⟨r.start, h.start_lt hr, ?_⟩
    rw [h.pages_start]
    exact mem_cells.mp hi

/-- The pages of `total` that are not allocated are on the free list. -/
lemma Inv.isFree_iff (i : ℕ) : p.IsFree i ↔ i ∈ total ∧ i ∉ A := by
  obtain ⟨rs, hfree, -, hpart⟩ := h
  rw [hfree.isFree_iff, ← hpart.union]
  constructor
  · intro hi
    exact ⟨.inl hi, disjoint_left.mp hpart.disjoint hi⟩
  · rintro ⟨hi | hi, hA⟩
    · exact hi
    · exact absurd hi hA

/-- A page that stays allocated does not become free. -/
lemma Inv.not_isFree {A' : Set ℕ} (h' : Inv total len p' A') {i : ℕ} (hi : i ∈ A → i ∈ A')
    (hfree : ¬ p.IsFree i) : ¬ p'.IsFree i := by
  rw [h.isFree_iff] at hfree
  rw [h'.isFree_iff]
  exact fun hfree' => hfree ⟨hfree'.1, fun hA => hfree'.2 (hi hA)⟩

/-- The allocated pages are pages of `total`. -/
lemma Inv.subset : A ⊆ total := by
  obtain ⟨rs, -, -, hpart⟩ := h
  exact hpart.union ▸ subset_union_right

end

/-! ### Runs -/

lemma Inv.step (htotal : total ⊆ Iio len) {s t : Pmm × Set ℕ} (hst : Step s t)
    (h : Inv total len s.1 s.2) : Inv total len t.1 t.2 := by
  cases hst with
  | alloc pages flags hok => exact (h.of_alloc hok).2
  | allocError pages flags herr =>
    rcases h.alloc pages flags with herr' | ⟨addr, p', hok', -, -, h'⟩
    · obtain rfl : _ = _ := by simpa [herr] using herr'
      exact h
    · simp [herr] at hok'
  | dealloc addr pages hA hp =>
    obtain ⟨p', hp', h'⟩ := h.dealloc htotal hA
    obtain rfl : _ = p' := by simpa [hp] using hp'
    exact h'

lemma Inv.run (htotal : total ⊆ Iio len) {s t : Pmm × Set ℕ}
    (hst : Relation.ReflTransGen Step s t) (h : Inv total len s.1 s.2) : Inv total len t.1 t.2 := by
  induction hst with
  | refl => exact h
  | tail _ hstep ih => exact ih.step htotal hstep

/-- After `init` and any number of calls, none of which stops the kernel: the free list is strictly
increasing, its regions neither overlap nor touch, exactly their head pages carry a page count,
the free and the allocated pages partition the initial ones, and an allocation hands out free
pages only. -/
theorem run_partition (m : MemoryMap) :
    ∃ p₀, m.init = some p₀ ∧
      ∀ p A, Relation.ReflTransGen Step (p₀, ∅) (p, A) →
        (∃ rs, FreeList p rs ∧
          rs.Pairwise (fun r s => r.start < s.start) ∧
          rs.Pairwise (fun r s => Disjoint r.cells s.cells ∧ r.stop ≠ s.start ∧ s.stop ≠ r.start) ∧
          (∀ i < p.len, (p.pages i).count ≠ 0 ↔ ∃ r ∈ rs, i = r.start) ∧
          (∀ r ∈ rs, (p.pages r.start).count = r.count) ∧
          Disjoint (cells rs) A ∧ cells rs ∪ A = registeredPages m.entries) ∧
        (∀ pages flags, ∃ result p', p.alloc pages flags = some (result, p') ∧
          ∀ addr, result = .ok addr → Disjoint (pageRange addr pages.toNat) A) ∧
        ∀ addr (pages : Usize), pageRange addr pages.toNat ⊆ A →
          ∃ p', p.deallocInner addr pages.toNat = some p' := by
  obtain ⟨p₀, hinit, hinv₀⟩ := exists_init m
  have htotal := m.registeredPages_subset
  refine ⟨p₀, hinit, fun p A hrun => ?_⟩
  have hinv : Inv (registeredPages m.entries) m.len p A := Inv.run htotal hrun hinv₀
  refine ⟨?_, fun pages flags => ?_, fun addr pages hA => ?_⟩
  · obtain ⟨rs, hfree, hlen, hpart⟩ := hinv
    refine ⟨rs, hfree, ?_, ?_, fun i hi => ?_, fun r hr => ?_, hpart.disjoint, hpart.union⟩
    · exact hfree.separated.imp fun {r s} h => r.start_lt_stop.trans h
    · refine hfree.separated.imp fun {r s} h => ⟨disjoint_cells h.le, h.ne, ?_⟩
      have := r.start_lt_stop
      have := s.start_lt_stop
      omega
    · rw [hfree.pages i hi, count_pageOf_ne_zero]
    · obtain ⟨pre, post, rfl⟩ := List.append_of_mem hr
      rw [hfree.pages_start]
  · rcases hinv.alloc pages flags with herr | ⟨addr, p', hok, -, hd, -⟩
    · exact ⟨_, _, herr, fun addr h => by cases h⟩
    · refine ⟨_, _, hok, fun addr' h => ?_⟩
      cases h
      exact hd
  · obtain ⟨p', hp', -⟩ := hinv.dealloc htotal hA
    exact ⟨p', hp'⟩

/-! ### The address limit -/

/-- The first byte that a request for low memory may not reach. -/
def lowMemoryEnd (flags : AllocFlags) : ℕ := if flags.kernel20 then 2 ^ 20 else 2 ^ 32

/-- A region of enough pages that starts low enough for `pages` pages below `bound`. -/
def StartsLow (pages bound : ℕ) (r : Region) : Prop :=
  pages ≤ r.count ∧ r.start * pageSize + pages * pageSize < bound

instance (pages bound : ℕ) (r : Region) : Decidable (StartsLow pages bound r) :=
  inferInstanceAs (Decidable (_ ∧ _))

/-- Inside the metadata array the test of `alloc` does not overflow. -/
lemma FreeList.fits_iff (h : FreeList p rs) (hr : r ∈ rs) (pages : Usize) (limit : PhysAddr) :
    fits pages limit r.start r.count ↔ StartsLow pages.toNat limit.toNat r := by
  have hstop : r.start + r.count ≤ p.len := h.inBounds r hr
  have hlen := p.len_lt
  simp only [fits, StartsLow, Bool.and_eq_true, decide_eq_true_eq, and_congr_right_iff,
    BitVec.lt_def]
  intro hcount
  rw [BitVec.toNat_add, BitVec.toNat_mul, addrFromIdx_toNat (by omega), BitVec.toNat_ofNat]
  simp only [pageSize]
  omega

/-- After any run, an allocation without a limit succeeds exactly if there are so many free pages in
a row: what is freed is merged with the free regions that it touches. -/
theorem run_alloc_ok_iff (m : MemoryMap) :
    ∃ p₀, m.init = some p₀ ∧
      ∀ p A, Relation.ReflTransGen Step (p₀, ∅) (p, A) → ∀ pages : Usize, pages ≠ 0 →
        ((∃ addr p', p.alloc pages {} = some (.ok addr, p')) ↔
          ∃ addr, pageRange addr pages.toNat ⊆ registeredPages m.entries \ A) := by
  obtain ⟨p₀, hinit, hinv⟩ := exists_init m
  refine ⟨p₀, hinit, fun p A hrun pages hpages => ?_⟩
  obtain ⟨rs, hfree, -, hpart⟩ := hinv.run m.registeredPages_subset hrun
  rw [← hpart.union, union_sdiff_right, hpart.disjoint.sdiff_eq_left]
  rcases hfree.alloc_cases pages {} with ⟨herr, hnone⟩ |
    ⟨pre, r, post, addr, p', rfl, hok, -, haddr, hfits, -, -⟩
  · refine iff_of_false (by simp [herr]) fun ⟨addr, hsub⟩ => ?_
    obtain ⟨r, hr, hstart, hstop⟩ :=
      hfree.separated.exists_of_Ico (Nat.lt_add_of_pos_right (by bv_omega)) hsub
    have hle := hfree.inBounds r hr
    have hlen := p.len_lt
    refine Bool.false_ne_true ((hnone r hr).symm.trans ((hfree.fits_iff hr pages _).mpr ?_))
    simp only [Region.stop, StartsLow, limit, pageSize] at hle hstop ⊢
    exact ⟨by omega, by simp; omega⟩
  · have hn := FreeList.count_of_fits hfits
    exact iff_of_true ⟨addr, p', hok⟩ ⟨addr, pageRange_eq haddr hn ▸ pageRange_subset hn⟩

lemma limit_of_low (h : flags.kernel20 ∨ flags.kernel32) :
    limit flags ≠ BitVec.allOnes 64 ∧ (limit flags).toNat = lowMemoryEnd flags := by
  simp only [limit, lowMemoryEnd]
  rcases h with h | h
  · simp [h]
  · split_ifs <;> simp

/-- With a limit, `alloc` takes the end of the first region that starts low enough. -/
lemma FreeList.alloc_low (h : FreeList p rs) (hlow : flags.kernel20 ∨ flags.kernel32)
    (pages : Usize) :
    (∃ p', p.alloc pages flags = some (.error .allocError, p') ∧
      rs.find? (StartsLow pages.toNat (lowMemoryEnd flags) ·) = none) ∨
    ∃ addr p' r, p.alloc pages flags = some (.ok addr, p') ∧
      rs.find? (StartsLow pages.toNat (lowMemoryEnd flags) ·) = some r ∧
      addr.toNat + pages.toNat * pageSize = r.stop * pageSize := by
  obtain ⟨hmax, hlimit⟩ := limit_of_low hlow
  rcases h.alloc_cases pages flags with ⟨herr, hnone⟩ |
    ⟨pre, r, post, addr, p', rfl, hok, -, haddr, hfits, hfirst, -⟩
  · refine .inl ⟨p, herr, List.find?_eq_none.mpr fun s hs => ?_⟩
    rw [decide_eq_true_eq, ← hlimit, ← h.fits_iff hs, hnone s hs]
    simp
  · refine .inr ⟨addr, p', r, hok, List.find?_eq_some_iff_append.mpr ⟨?_, pre, post, rfl, ?_⟩, ?_⟩
    · rw [decide_eq_true_eq, ← hlimit, ← h.fits_iff (by simp)]
      exact hfits
    · intro s hs
      rw [Bool.not_eq_true', decide_eq_false_iff_not, ← hlimit, ← h.fits_iff (by simp [hs]),
        hfirst hmax s hs]
      simp
    · have hcount := count_of_fits hfits
      rw [haddr, ← Nat.add_mul, Nat.sub_add_cancel]
      simp only [stop]
      omega

/-- Every byte of a successful allocation lies below the limit of each flag. -/
def RespectsLimit (p : Pmm) (pages : Usize) (flags : AllocFlags) : Prop :=
  ∀ addr p', p.alloc pages flags = some (.ok addr, p') →
    ∀ b, addr.toNat ≤ b → b < addr.toNat + pages.toNat * pageSize →
      (flags.kernel20 → b < 2 ^ 20) ∧ (flags.kernel32 → b < 2 ^ 32)

/-- The pages are cut from the end of the first region that starts low enough, so the limit is
respected exactly if that region also ends low enough. -/
theorem respectsLimit_iff (h : FreeList p rs) (pages : Usize) (flags : AllocFlags) :
    RespectsLimit p pages flags ↔
      (flags.kernel20 ∨ flags.kernel32 → pages ≠ 0 →
        ∀ r, rs.find? (StartsLow pages.toNat (lowMemoryEnd flags) ·) = some r →
          r.stop * pageSize ≤ lowMemoryEnd flags) := by
  constructor
  · intro hresp hlow hpages r hr
    have hpos : 0 < pages.toNat * pageSize := by
      refine Nat.mul_pos (Nat.pos_of_ne_zero fun hzero => hpages ?_) (by decide)
      exact BitVec.eq_of_toNat_eq hzero
    rcases h.alloc_low hlow pages with ⟨p', -, hnone⟩ | ⟨addr, p', r', hok, hr', haddr⟩
    · simp [hnone] at hr
    · obtain rfl : r' = r := by simpa [hr'] using hr
      obtain ⟨h20, h32⟩ := hresp addr p' hok (r'.stop * pageSize - 1) (by omega) (by omega)
      simp only [lowMemoryEnd]
      split_ifs with hflag
      · have := h20 hflag
        omega
      · have := h32 (hlow.resolve_left hflag)
        omega
  · intro hends addr p' hok b hb₁ hb₂
    by_cases hlow : flags.kernel20 ∨ flags.kernel32
    · have hpages : pages ≠ 0 := by
        rintro rfl
        simp at hb₂
        omega
      rcases h.alloc_low hlow pages with ⟨p'', herr, -⟩ | ⟨addr', p'', r, hok', hr, haddr⟩
      · simp [hok] at herr
      · obtain ⟨rfl, rfl⟩ : addr = addr' ∧ p' = p'' := by simpa [hok] using hok'
        have hend := hends hlow hpages r hr
        simp only [lowMemoryEnd] at hend
        refine ⟨fun h20 => ?_, fun _ => ?_⟩
        · rw [if_pos h20] at hend
          omega
        · split_ifs at hend <;> omega
    · rw [not_or] at hlow
      exact ⟨fun h20 => absurd h20 hlow.1, fun h32 => absurd h32 hlow.2⟩

/-- Two pages at 2 MiB: a request below 4 GiB is respected. -/
theorem respectsLimit_two_pages :
    RespectsLimit (ofRegions 1024 (by decide) [⟨512, 2, by decide⟩]) 1 { kernel32 := true } :=
  (respectsLimit_iff (freeList_ofRegions (by decide) (by simp)) 1 { kernel32 := true }).mpr (by
    decide)

/-- One free region from 2 GiB to 6 GiB. -/
def sixGiB : Pmm := ofRegions 0x180000 (by decide) [⟨0x80000, 0x100000, by decide⟩]

/-- A page requested below 4 GiB is the last page below 6 GiB. -/
theorem sixGiB_not_respectsLimit :
    FreeList sixGiB [⟨0x80000, 0x100000, by decide⟩] ∧
    (sixGiB.alloc 1 { kernel32 := true }).map Prod.fst = some (.ok 0x17FFFF000) ∧
    ¬ RespectsLimit sixGiB 1 { kernel32 := true } := by
  have halloc : (sixGiB.alloc 1 { kernel32 := true }).map Prod.fst = some (.ok 0x17FFFF000) := by
    decide
  refine ⟨freeList_ofRegions (by decide) (by simp), halloc, fun h => ?_⟩
  obtain ⟨⟨_, p'⟩, hp', rfl⟩ := Option.map_eq_some_iff.mp halloc
  have := (h _ p' hp' 0x17FFFF000 (by decide) (by decide)).2 rfl
  simp at this

end Pmm

end Zinnia
