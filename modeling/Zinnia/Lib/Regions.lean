import Mathlib.Order.CompletePartialOrder
import Mathlib.Data.Set.Lattice

/-!
# Lists of coalesced regions

A region is a nonempty run of consecutive cells. A list of regions is *separated* when it is
increasing and every two of its regions leave a gap between them, so that no region could be
merged with a neighbour. `coalesce` inserts a region and merges it with the neighbours it
touches; `shrink` gives up the last cells of a region.
-/

namespace Regions

open List Set

/-- A nonempty run of `count` consecutive cells from `start` on. -/
structure Region where
  start : ℕ
  count : ℕ
  pos : 0 < count
deriving DecidableEq

/-- The first cell behind the region. -/
def Region.stop (r : Region) : ℕ := r.start + r.count

/-- The cells of a region. -/
def Region.cells (r : Region) : Set ℕ := Set.Ico r.start r.stop

/-- The cells of a list of regions. -/
def cells (rs : List Region) : Set ℕ := {i | ∃ r ∈ rs, i ∈ r.cells}

/-- Increasing, and with a gap between every two regions. -/
def Separated (rs : List Region) : Prop := rs.Pairwise fun r s => r.stop < s.start

lemma Region.start_lt_stop (r : Region) : r.start < r.stop := by
  have := r.pos
  simp only [Region.stop]
  omega

variable {r new s : Region} {rs : List Region}

lemma Region.mem_cells {i : ℕ} : i ∈ r.cells ↔ r.start ≤ i ∧ i < r.stop := Iff.rfl

lemma Region.stop_le_of_cells_subset {b : ℕ} (h : r.cells ⊆ Set.Iio b) : r.stop ≤ b := by
  have hlt := r.start_lt_stop
  have hmem : r.stop - 1 ∈ r.cells := Region.mem_cells.mpr (by omega)
  have : r.stop - 1 < b := h hmem
  omega

lemma Region.disjoint_cells (h : r.stop ≤ s.start) : Disjoint r.cells s.cells := by
  rw [Set.disjoint_left]
  rintro i ⟨-, hir⟩ ⟨his, -⟩
  omega

/-- Disjoint runs lie on either side of each other. -/
lemma Region.stop_le_or_stop_le (h : Disjoint r.cells s.cells) :
    s.stop ≤ r.start ∨ r.stop ≤ s.start := by
  have hr := r.start_lt_stop
  have hs := s.start_lt_stop
  by_contra hc
  rw [Set.disjoint_left] at h
  refine h (a := max r.start s.start) ?_ ?_ <;> simp only [Region.mem_cells] <;> omega

@[simp] lemma cells_nil : cells [] = ∅ := by simp [cells]

@[simp] lemma cells_cons (r : Region) (rs : List Region) :
    cells (r :: rs) = r.cells ∪ cells rs := by
  ext i
  simp [cells]

@[simp] lemma cells_append (rs ss : List Region) : cells (rs ++ ss) = cells rs ∪ cells ss := by
  ext i
  simp [cells, or_and_right, exists_or]

lemma cells_mono_of_mem (hr : r ∈ rs) : r.cells ⊆ cells rs :=
  fun _ hi => ⟨r, hr, hi⟩

@[simp] lemma separated_nil : Separated [] := Pairwise.nil

@[simp] lemma separated_cons :
    Separated (r :: rs) ↔ (∀ s ∈ rs, r.stop < s.start) ∧ Separated rs := pairwise_cons

lemma separated_append {ss : List Region} :
    Separated (rs ++ ss) ↔
      Separated rs ∧ Separated ss ∧ ∀ r ∈ rs, ∀ s ∈ ss, r.stop < s.start :=
  pairwise_append

section

variable {pre post : List Region} {r s : Region}

lemma Separated.start_lt_of_mem_left (h : Separated (pre ++ r :: post)) (hs : s ∈ pre) :
    s.start < r.start :=
  s.start_lt_stop.trans ((separated_append.mp h).2.2 s hs r mem_cons_self)

lemma Separated.start_lt_of_mem_right (h : Separated (pre ++ r :: post)) (hs : s ∈ post) :
    r.start < s.start :=
  r.start_lt_stop.trans ((separated_cons.mp (separated_append.mp h).2.1).1 s hs)

end

/-- A separated list splits at every cell. -/
lemma Separated.exists_split (h : Separated rs) (a : ℕ) :
    ∃ pre post, rs = pre ++ post ∧ (∀ r ∈ pre, r.start < a) ∧ ∀ r ∈ post, a ≤ r.start := by
  induction rs with
  | nil => exact ⟨[], [], rfl, by simp, by simp⟩
  | cons r rs ih =>
    obtain ⟨hr, hrs⟩ := separated_cons.mp h
    by_cases hra : r.start < a
    · obtain ⟨pre, post, rfl, hpre, hpost⟩ := ih hrs
      exact ⟨r :: pre, post, rfl, by simpa [hra] using hpre, hpost⟩
    · refine ⟨[], r :: rs, rfl, by simp, fun s hs => ?_⟩
      rcases mem_cons.mp hs with rfl | hs
      · omega
      · have := hr s hs
        have := r.start_lt_stop
        omega

/-! ### Joining neighbours -/

/-- The region that covers `r` and a region `s` that starts where `r` stops. -/
def Region.join (r s : Region) : Region := ⟨r.start, r.count + s.count, by have := r.pos; omega⟩

@[simp] lemma Region.join_start (r s : Region) : (r.join s).start = r.start := rfl

@[simp] lemma Region.join_count (r s : Region) : (r.join s).count = r.count + s.count := rfl

lemma Region.join_stop (h : r.stop = s.start) : (r.join s).stop = s.stop := by
  simp only [Region.stop, Region.join] at h ⊢
  omega

lemma Region.cells_join (h : r.stop = s.start) : (r.join s).cells = r.cells ∪ s.cells := by
  have hr := r.start_lt_stop
  have hs := s.start_lt_stop
  ext i
  simp only [mem_union, Region.mem_cells, Region.join_stop h, Region.join_start]
  omega

/-- Put `r` in front of a list, merging it with the first region if the two touch. -/
def absorb (r : Region) : List Region → List Region
  | [] => [r]
  | s :: ss => if r.stop = s.start then r.join s :: ss else r :: s :: ss

lemma cells_absorb (r : Region) (rs : List Region) : cells (absorb r rs) = r.cells ∪ cells rs := by
  cases rs with
  | nil => simp [absorb]
  | cons s ss =>
    simp only [absorb]
    split_ifs with h
    · rw [cells_cons, Region.cells_join h, cells_cons, union_assoc]
    · simp

lemma Separated.absorb (hrs : Separated rs) (h : ∀ s ∈ rs, r.stop ≤ s.start) :
    Separated (absorb r rs) := by
  cases rs with
  | nil => simp [Regions.absorb]
  | cons s ss =>
    obtain ⟨hs, hss⟩ := separated_cons.mp hrs
    simp only [Regions.absorb]
    split_ifs with hrs'
    · refine separated_cons.mpr ⟨fun t ht => ?_, hss⟩
      rw [Region.join_stop hrs']
      exact hs t ht
    · refine separated_cons.mpr ⟨fun t ht => ?_, hrs⟩
      have hlt : r.stop < s.start := lt_of_le_of_ne (h s mem_cons_self) hrs'
      rcases mem_cons.mp ht with rfl | ht
      · exact hlt
      · have := hs t ht
        have := s.start_lt_stop
        omega

/-! ### Inserting a region -/

/-- Insert a region into an increasing list, merging it with the neighbours it touches. -/
def coalesce : List Region → Region → List Region
  | [], new => [new]
  | r :: rs, new =>
    if r.stop = new.start then absorb (r.join new) rs
    else if r.start < new.start then r :: coalesce rs new
    else absorb new (r :: rs)

/-- Regions left of the new one that do not touch it stay as they are. -/
lemma coalesce_append (pre post : List Region) (new : Region)
    (hlt : ∀ r ∈ pre, r.start < new.start) (hne : ∀ r ∈ pre, r.stop ≠ new.start) :
    coalesce (pre ++ post) new = pre ++ coalesce post new := by
  induction pre with
  | nil => rfl
  | cons r pre ih =>
    simp only [forall_mem_cons] at hlt hne
    simp only [cons_append, coalesce, if_neg hne.1, if_pos hlt.1, ih hlt.2 hne.2]

/-- Nothing left of the new region touches it: it is put in front of the list. -/
lemma coalesce_eq_absorb (h : ∀ r ∈ rs, new.start < r.start) : coalesce rs new = absorb new rs := by
  cases rs with
  | nil => rfl
  | cons r rs =>
    have hr := h r mem_cons_self
    have := r.start_lt_stop
    simp only [coalesce, if_neg (show ¬ r.stop = new.start by omega),
      if_neg (show ¬ r.start < new.start by omega)]

lemma cells_coalesce (rs : List Region) (new : Region) :
    cells (coalesce rs new) = new.cells ∪ cells rs := by
  induction rs with
  | nil => simp [coalesce]
  | cons r rs ih =>
    simp only [coalesce]
    split_ifs with hstop hstart
    · rw [cells_absorb, Region.cells_join hstop, cells_cons, union_assoc, union_left_comm]
    · rw [cells_cons, ih, cells_cons, union_left_comm]
    · rw [cells_absorb]

/-- `a` is not above the starts of the list nor of the inserted region. -/
lemma le_start_of_mem_coalesce {a : ℕ} (h : ∀ r ∈ rs, a ≤ r.start) (hnew : a ≤ new.start) :
    ∀ t ∈ coalesce rs new, a ≤ t.start := by
  intro t ht
  have hmem : t.start ∈ new.cells ∪ cells rs :=
    cells_coalesce rs new ▸ cells_mono_of_mem ht ⟨le_rfl, t.start_lt_stop⟩
  rcases hmem with hmem | ⟨r, hr, hmem⟩
  · exact hnew.trans hmem.1
  · exact (h r hr).trans hmem.1

/-- Inserting a region without a cell in the list keeps the list separated. -/
lemma Separated.coalesce (hrs : Separated rs) (hd : Disjoint new.cells (cells rs)) :
    Separated (coalesce rs new) := by
  induction rs with
  | nil => simp [Regions.coalesce]
  | cons r rs ih =>
    obtain ⟨hr, hsep⟩ := separated_cons.mp hrs
    rw [cells_cons, disjoint_union_right] at hd
    obtain ⟨hdr, hdrs⟩ := hd
    have hnew := new.start_lt_stop
    have hrlt := r.start_lt_stop
    have hsides : ∀ s ∈ rs, s.stop ≤ new.start ∨ new.stop ≤ s.start := fun s hs =>
      Region.stop_le_or_stop_le (hdrs.mono_right (cells_mono_of_mem hs))
    simp only [Regions.coalesce]
    split_ifs with hstop hstart
    · refine hsep.absorb fun s hs => ?_
      rw [Region.join_stop hstop]
      have := hr s hs
      rcases hsides s hs with h | h
      · have := s.start_lt_stop
        omega
      · exact h
    · refine separated_cons.mpr ⟨fun s hs => ?_, ih hsep hdrs⟩
      refine le_start_of_mem_coalesce (fun t ht => hr t ht) ?_ s hs
      rcases Region.stop_le_or_stop_le hdr with h | h <;> omega
    · refine hrs.absorb fun s hs => ?_
      have hrnew : new.stop ≤ r.start := by
        rcases Region.stop_le_or_stop_le hdr with h | h
        · omega
        · exact h
      rcases mem_cons.mp hs with rfl | hs
      · exact hrnew
      · have := hr s hs
        omega

/-- Cells in a row are cells of one region. -/
lemma Separated.exists_of_Ico (h : Separated rs) {a b : ℕ} (hab : a < b)
    (hsub : Set.Ico a b ⊆ cells rs) : ∃ r ∈ rs, r.start ≤ a ∧ b ≤ r.stop := by
  obtain ⟨r, hr, hle, hlt⟩ := hsub ⟨le_refl a, hab⟩
  refine ⟨r, hr, hle, not_lt.mp fun hstop => ?_⟩
  -- the cell behind the region is in a region that touches it
  obtain ⟨s, hs, hsle, hslt⟩ := hsub ⟨hlt.le, hstop⟩
  obtain ⟨pre, post, rfl⟩ := append_of_mem hr
  obtain ⟨-, hrpost, hcross⟩ := separated_append.mp h
  rcases mem_append.mp hs with hs | hs
  · exact lt_asymm hslt ((hcross s hs r mem_cons_self).trans r.start_lt_stop)
  · rcases mem_cons.mp hs with rfl | hs
    · exact lt_irrefl _ hslt
    · exact not_le.mpr ((separated_cons.mp hrpost).1 s hs) hsle

/-! ### Giving up the last cells of a region -/

/-- What remains of a region without its last `n` cells. -/
def shrink (r : Region) (n : ℕ) : List Region :=
  if h : n < r.count then [⟨r.start, r.count - n, by omega⟩] else []

lemma cells_shrink {n : ℕ} (hn : n ≤ r.count) :
    cells (shrink r n) = Set.Ico r.start (r.stop - n) := by
  simp only [shrink]
  split_ifs with h
  · ext i
    simp only [cells_cons, cells_nil, union_empty, Region.mem_cells, Region.stop, mem_Ico]
    omega
  · ext i
    simp only [cells_nil, Region.stop, mem_Ico, mem_empty_iff_false, false_iff]
    omega

/-- Shrinking a region in place keeps the list separated. -/
lemma Separated.shrink {pre post : List Region} (h : Separated (pre ++ r :: post)) (n : ℕ) :
    Separated (pre ++ shrink r n ++ post) := by
  obtain ⟨hpre, hrpost, hcross⟩ := separated_append.mp h
  obtain ⟨hr, hpost⟩ := separated_cons.mp hrpost
  simp only [Regions.shrink]
  split_ifs with hn
  · rw [append_assoc]
    refine separated_append.mpr ⟨hpre, separated_cons.mpr ⟨fun s hs => ?_, hpost⟩, ?_⟩
    · have := hr s hs
      simp only [Region.stop] at this ⊢
      omega
    · intro s hs t ht
      rcases mem_cons.mp ht with rfl | ht
      · exact hcross s hs r mem_cons_self
      · exact hcross s hs t (mem_cons_of_mem _ ht)
  · rw [append_nil]
    exact h.sublist ((sublist_cons_self r post).append_left pre)

/-- The cells that remain after shrinking one region: all but its last `n`. -/
lemma cells_append_shrink {pre post : List Region} (h : Separated (pre ++ r :: post)) {n : ℕ}
    (hn : n ≤ r.count) :
    cells (pre ++ shrink r n ++ post) =
      cells (pre ++ r :: post) \ Set.Ico (r.stop - n) r.stop := by
  obtain ⟨-, hrpost, hcross⟩ := separated_append.mp h
  obtain ⟨hr, -⟩ := separated_cons.mp hrpost
  have hcount : r.start + r.count = r.stop := rfl
  ext i
  rw [cells_append, cells_append, cells_shrink hn, cells_append, cells_cons]
  simp only [mem_union, mem_sdiff, mem_Ico, Region.mem_cells]
  constructor
  · rintro ((⟨s, hs, hi⟩ | hi) | ⟨s, hs, hi⟩)
    · have := hcross s hs r mem_cons_self
      exact ⟨.inl ⟨s, hs, hi⟩, by simp only [Region.mem_cells] at hi; omega⟩
    · exact ⟨.inr (.inl ⟨hi.1, by omega⟩), by omega⟩
    · have := hr s hs
      exact ⟨.inr (.inr ⟨s, hs, hi⟩), by simp only [Region.mem_cells] at hi; omega⟩
  · rintro ⟨hi | hi | hi, hni⟩
    · exact .inl (.inl hi)
    · exact .inl (.inr (by omega))
    · exact .inr hi

end Regions
