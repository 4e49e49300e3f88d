import Zinnia.Lib.BTreeSet
import Mathlib.Data.List.Pairwise

/-!
# Sets of disjoint segments

A segment covers the points from `lo` up to, not including, `hi`. A set of disjoint nonempty
segments, ordered by their lower ends, is a partial function on the points: `at?` gives the
segment that covers a point. Replacing one segment by pieces of itself (`splice`) changes the
function only on the points of that segment.
-/

/-- Elements that cover the points from `lo` up to `hi`. -/
class Segment (α : Type*) where
  lo : α → ℕ
  hi : α → ℕ

namespace Segment

open List Option BTreeSet

variable {α β κ : Type*} [Segment α] [LinearOrder κ] {key : α → κ} {s : BTreeSet α key} {m : α}
  {i : ℕ} {val : α → ℕ → β}

/-- The segment covers the point `i`. -/
def Covers (m : α) (i : ℕ) : Prop := lo m ≤ i ∧ i < hi m

instance (m : α) (i : ℕ) : Decidable (Covers m i) := inferInstanceAs (Decidable (_ ∧ _))

/-- The segment reaches into the range from `a` to `b`. -/
def Overlaps (a b : ℕ) (m : α) : Prop := a < hi m ∧ lo m < b

instance (a b : ℕ) (m : α) : Decidable (Overlaps a b m) := inferInstanceAs (Decidable (_ ∧ _))

/-- One of the two segments ends before the other begins. -/
def Apart (m n : α) : Prop := hi m ≤ lo n ∨ hi n ≤ lo m

instance : Std.Symm (Apart : α → α → Prop) := ⟨fun _ _ => Or.symm⟩

/-- The segments of a set are nonempty and disjoint. -/
structure Disjointed (s : BTreeSet α key) : Prop where
  nonempty : ∀ m ∈ s, lo m < hi m
  apart : ∀ m ∈ s, ∀ n ∈ s, m ≠ n → Apart m n

/-- The segment of a set that covers a point. -/
def at? (s : BTreeSet α key) (i : ℕ) : Option α := s.elems.find? (Covers · i)

lemma disjointed_empty : Disjointed (BTreeSet.empty : BTreeSet α key) := ⟨by simp, by simp⟩

lemma at?_empty (i : ℕ) : at? (BTreeSet.empty : BTreeSet α key) i = none := rfl

lemma Disjointed.eq_of_covers (h : Disjointed s) {n : α} (hm : m ∈ s) (hn : n ∈ s)
    (hmi : Covers m i) (hni : Covers n i) : m = n := by
  by_contra hne
  have := h.apart m hm n hn hne
  simp only [Covers, Apart] at *
  omega

lemma Disjointed.at?_eq_some (h : Disjointed s) : at? s i = some m ↔ m ∈ s ∧ Covers m i := by
  constructor
  · intro hm
    exact ⟨mem_of_find?_eq_some hm, by simpa using find?_some hm⟩
  · rintro ⟨hm, hi⟩
    obtain ⟨n, hn⟩ : ∃ n, at? s i = some n :=
      isSome_iff_exists.mp (find?_isSome.mpr ⟨m, hm, by simpa using hi⟩)
    have hni : n ∈ s ∧ Covers n i :=
      ⟨mem_of_find?_eq_some hn, by simpa using find?_some hn⟩
    rw [hn, h.eq_of_covers hm hni.1 hi hni.2]

lemma at?_eq_none : at? s i = none ↔ ∀ m ∈ s, ¬ Covers m i := by
  simp [at?, BTreeSet.mem_def]

/-- A segment whose points are not covered is apart from the others. -/
lemma Disjointed.apart_of_at?_eq_none (h : Disjointed s) (hm : lo m < hi m)
    (hfree : ∀ i, Covers m i → at? s i = none) : ∀ n ∈ s, Apart n m := by
  intro n hn
  by_contra hap
  have hne := h.nonempty n hn
  simp only [Apart] at hap
  refine at?_eq_none.mp (hfree (max (lo n) (lo m)) ?_) n hn ?_ <;>
    simp only [Covers] <;> omega

/-! ### Replacing a segment by pieces of itself -/

/-- Nonempty, disjoint pieces of the segment `m`. -/
structure Pieces (m : α) (ps : List α) : Prop where
  nonempty : ∀ x ∈ ps, lo x < hi x
  inside : ∀ x ∈ ps, lo m ≤ lo x ∧ hi x ≤ hi m
  apart : ps.Pairwise Apart

/-- Replace the segment `m` by the segments `ps`. -/
def splice (s : BTreeSet α key) (m : α) (ps : List α) : BTreeSet α key := (s.remove m).insertAll ps

/-- The keys order the segments by their lower ends. -/
class Keyed (key : α → κ) : Prop where
  lo_le : ∀ a b : α, key a ≤ key b → lo a ≤ lo b

lemma Keyed.lo_eq [Keyed key] (a b : α) (h : key a = key b) : lo a = lo b :=
  le_antisymm (lo_le a b h.le) (lo_le b a h.ge)

section

variable [Keyed key] {s : BTreeSet α key} {m : α} {ps : List α}

section

variable (h : Disjointed s) (hm : m ∈ s) (hps : Pieces m ps)

include h hm hps

/-- Pieces of `m` do not clash with the other segments. -/
lemma Disjointed.mem_splice {x : α} : x ∈ splice s m ps ↔ x ∈ ps ∨ x ∈ s ∧ x ≠ m := by
  have hne : ∀ x, x ∈ s.remove m ↔ x ∈ s ∧ x ≠ m := by
    intro x
    rw [mem_remove]
    constructor
    · rintro ⟨hx, hk⟩
      exact ⟨hx, fun h => hk (by rw [h])⟩
    · rintro ⟨hx, hxm⟩
      exact ⟨hx, fun hk => hxm (eq_of_key_eq hx hm hk)⟩
  rw [splice, mem_insertAll, hne]
  · intro b hb a ha hk
    obtain ⟨hbs, hbm⟩ := (hne b).mp hb
    have := Keyed.lo_eq b a hk
    have := h.nonempty b hbs
    have := hps.nonempty a ha
    have := hps.inside a ha
    have := h.apart b hbs m hm hbm
    simp only [Apart] at this
    omega
  · refine hps.apart.imp_of_mem fun {a b} ha hb hab hk => ?_
    have := Keyed.lo_eq a b hk
    have := hps.nonempty a ha
    have := hps.nonempty b hb
    simp only [Apart] at hab
    omega

lemma Disjointed.splice : Disjointed (splice s m ps) := by
  have hmixed : ∀ x ∈ ps, ∀ y ∈ s, y ≠ m → Apart x y := by
    intro x hx y hy hym
    have := hps.inside x hx
    have := h.apart y hy m hm hym
    simp only [Apart] at this ⊢
    omega
  constructor
  · intro x hx
    rcases (h.mem_splice hm hps).mp hx with hx | ⟨hx, -⟩
    · exact hps.nonempty x hx
    · exact h.nonempty x hx
  · intro x hx y hy hxy
    rcases (h.mem_splice hm hps).mp hx with hx | ⟨hx, hxm⟩
    · rcases (h.mem_splice hm hps).mp hy with hy | ⟨hy, hym⟩
      · exact hps.apart.forall hx hy hxy
      · exact hmixed x hx y hy hym
    · rcases (h.mem_splice hm hps).mp hy with hy | ⟨hy, -⟩
      · exact symm (hmixed y hy x hx hxm)
      · exact h.apart x hx y hy hxy

/-- Splicing changes the covering segments inside `m` only. -/
lemma Disjointed.at?_splice (i : ℕ) :
    at? (Segment.splice s m ps) i = if Covers m i then ps.find? (Covers · i) else at? s i := by
  have hd := h.splice hm hps
  split_ifs with hmi
  · cases hx : ps.find? (Covers · i) with
    | none =>
      rw [find?_eq_none] at hx
      refine at?_eq_none.mpr fun y hy hyi => ?_
      rcases (h.mem_splice hm hps).mp hy with hy | ⟨hy, hym⟩
      · exact hx y hy (by simpa using hyi)
      · exact hym (h.eq_of_covers hy hm hyi hmi)
    | some x =>
      refine hd.at?_eq_some.mpr ⟨(h.mem_splice hm hps).mpr (.inl ?_), ?_⟩
      · exact mem_of_find?_eq_some hx
      · simpa using find?_some hx
  · cases hy : at? s i with
    | none =>
      rw [at?_eq_none] at hy ⊢
      intro x hx hxi
      rcases (h.mem_splice hm hps).mp hx with hx | ⟨hx, -⟩
      · have := hps.inside x hx
        simp only [Covers] at hxi hmi
        omega
      · exact hy x hx hxi
    | some y =>
      obtain ⟨hy, hyi⟩ := h.at?_eq_some.mp hy
      refine hd.at?_eq_some.mpr ⟨(h.mem_splice hm hps).mpr (.inr ⟨hy, ?_⟩), hyi⟩
      rintro rfl
      exact hmi hyi

end

end

/-! ### Adding a segment -/

section

variable [Keyed key] {s : BTreeSet α key} {m : α}

section

variable (h : Disjointed s) (hm : lo m < hi m) (hap : ∀ n ∈ s, Apart n m)

include h hm hap

lemma Disjointed.mem_insert {x : α} : x ∈ s.insert m ↔ x = m ∨ x ∈ s := by
  refine BTreeSet.mem_insert fun n hn hk => ?_
  have := Keyed.lo_eq n m hk
  have := h.nonempty n hn
  have := hap n hn
  simp only [Apart] at this
  omega

lemma Disjointed.insert : Disjointed (s.insert m) := by
  constructor
  · intro x hx
    rcases (h.mem_insert hm hap).mp hx with rfl | hx
    · exact hm
    · exact h.nonempty x hx
  · intro x hx y hy hxy
    rw [h.mem_insert hm hap] at hx hy
    rcases hx with rfl | hx
    · rcases hy with rfl | hy
      · exact absurd rfl hxy
      · exact symm (hap y hy)
    · rcases hy with rfl | hy
      · exact hap x hx
      · exact h.apart x hx y hy hxy

lemma Disjointed.at?_insert (i : ℕ) :
    at? (s.insert m) i = if Covers m i then some m else at? s i := by
  have hd := h.insert hm hap
  split_ifs with hmi
  · exact hd.at?_eq_some.mpr ⟨(h.mem_insert hm hap).mpr (.inl rfl), hmi⟩
  · cases hy : at? s i with
    | none =>
      rw [at?_eq_none] at hy ⊢
      intro x hx
      rcases (h.mem_insert hm hap).mp hx with rfl | hx
      · exact hmi
      · exact hy x hx
    | some y =>
      obtain ⟨hy, hyi⟩ := h.at?_eq_some.mp hy
      exact hd.at?_eq_some.mpr ⟨(h.mem_insert hm hap).mpr (.inr hy), hyi⟩

end

end

/-! ### Changing segments in place -/

section

variable {s : BTreeSet α key} {f : α → α} {hf : ∀ a, key (f a) = key a}

lemma at?_map (hlo : ∀ m, lo (f m) = lo m) (hhi : ∀ m, hi (f m) = hi m) (i : ℕ) :
    at? (s.map f hf) i = (at? s i).map f := by
  rw [at?, BTreeSet.map, List.find?_map, at?]
  congr 2
  funext m
  exact decide_eq_decide.mpr (by rw [Covers, hlo, hhi, Covers])

lemma Disjointed.map (h : Disjointed s) (hlo : ∀ m, lo (f m) = lo m) (hhi : ∀ m, hi (f m) = hi m) :
    Disjointed (s.map f hf) := by
  constructor
  · intro x hx
    obtain ⟨m, hm, rfl⟩ := BTreeSet.mem_map.mp hx
    rw [hlo, hhi]
    exact h.nonempty m hm
  · intro x hx y hy hxy
    obtain ⟨m, hm, rfl⟩ := BTreeSet.mem_map.mp hx
    obtain ⟨n, hn, rfl⟩ := BTreeSet.mem_map.mp hy
    rw [Apart, hlo, hhi, hlo, hhi]
    exact h.apart m hm n hn fun hmn => hxy (by rw [hmn])

end

/-- The segments of a set, in order, are pairwise apart. -/
lemma Disjointed.pairwise (h : Disjointed s) : s.elems.Pairwise Apart :=
  s.sorted.imp_of_mem fun {a b} ha hb hab => h.apart a ha b hb fun heq => by simp [heq] at hab

/-! ### Searching for a segment inside a range -/

/-- The first segment that reaches into the range from `a` to `b`. -/
def findOverlapping (s : BTreeSet α key) (a b : ℕ) : Option α := s.elems.find? (Overlaps a b ·)

lemma mem_of_findOverlapping {a b : ℕ} (h : findOverlapping s a b = some m) :
    m ∈ s ∧ Overlaps a b m :=
  ⟨mem_of_find?_eq_some h, by simpa using find?_some h⟩

lemma at?_of_findOverlapping_eq_none {a b : ℕ} (h : findOverlapping s a b = none) (ha : a ≤ i)
    (hb : i < b) : at? s i = none := by
  refine at?_eq_none.mpr fun m hm hmi => ?_
  exact find?_eq_none.mp h m hm
    (decide_eq_true ⟨lt_of_le_of_lt ha hmi.2, lt_of_le_of_lt hmi.1 hb⟩)

/-- The search finds the leftmost segment. -/
lemma at?_of_findOverlapping [Keyed key] {a b : ℕ} (h : findOverlapping s a b = some m) (ha : a ≤ i)
    (hi : i < lo m) : at? s i = none := by
  have hov := (mem_of_findOverlapping h).2
  refine at?_eq_none.mpr fun x hx hxi => ?_
  have hxov : Overlaps a b x :=
    ⟨lt_of_le_of_lt ha hxi.2, lt_of_le_of_lt hxi.1 (hi.trans hov.2)⟩
  have hle := Keyed.lo_le m x (key_le_of_find? h hx (by simpa using hxov))
  exact absurd (hle.trans hxi.1) (not_le.mpr hi)

/-- Replacing a segment by pieces outside a range leaves fewer segments that reach into it, also
if the range begins further right afterwards. -/
lemma countP_splice_lt {a a' b : ℕ} {ps : List α} (hm : m ∈ s) (hle : a ≤ a') (hov : Overlaps a b m)
    (hps : ∀ x ∈ ps, ¬ Overlaps a' b x) :
    (splice s m ps).countP (Overlaps a' b ·) < s.countP (Overlaps a b ·) := by
  rw [splice, countP_insertAll_of_not _ fun x hx => by simpa using hps x hx]
  refine lt_of_le_of_lt (countP_mono_left fun x _ hx => ?_)
    (countP_remove_lt hm (by simpa using hov))
  rw [decide_eq_true_eq] at hx ⊢
  exact ⟨lt_of_le_of_lt hle hx.1, hx.2⟩

/-! ### Cutting a range out of a set -/

/-- The value of a set of segments at a point. -/
def valueAt (val : α → ℕ → β) (s : BTreeSet α key) (i : ℕ) : Option β := (at? s i).map (val · i)

/-- The pieces `ps` are what is left of `m` outside the range from `a` to `b`, with the same
values. -/
structure Trims (a b : ℕ) (val : α → ℕ → β) (m : α) (ps : List α) : Prop extends Pieces m ps where
  outside : ∀ x ∈ ps, ¬ Overlaps a b x
  value : ∀ i, Covers m i → ¬ (a ≤ i ∧ i < b) →
    (ps.find? (Covers · i)).map (val · i) = some (val m i)

/-- The two sides of a segment outside a range trim it. -/
lemma Trims.sides {a b : ℕ} {x y : α} (hle : a ≤ b) (hov : Overlaps a b m)
    (hx : lo x = lo m ∧ hi x = a) (hy : lo y = b ∧ hi y = hi m)
    (hvx : ∀ i, Covers x i → val x i = val m i) (hvy : ∀ i, Covers y i → val y i = val m i) :
    Trims a b val m ((if lo m < a then [x] else []) ++ if b < hi m then [y] else []) := by
  obtain ⟨hxlo, hxhi⟩ := hx
  obtain ⟨hylo, hyhi⟩ := hy
  obtain ⟨hov₁, hov₂⟩ : a < hi m ∧ lo m < b := hov
  have hmem : ∀ z ∈ (if lo m < a then [x] else []) ++ (if b < hi m then [y] else []),
      z = x ∧ lo m < a ∨ z = y ∧ b < hi m := by
    intro z hz
    rcases mem_append.mp hz with hz | hz
    · split_ifs at hz with h
      · exact .inl ⟨mem_singleton.mp hz, h⟩
      · cases hz
    · split_ifs at hz with h
      · exact .inr ⟨mem_singleton.mp hz, h⟩
      · cases hz
  refine ⟨⟨fun z hz => ?_, fun z hz => ?_, ?_⟩, fun z hz => ?_, fun i hmi hni => ?_⟩
  · rcases hmem z hz with ⟨rfl, h⟩ | ⟨rfl, h⟩ <;> omega
  · rcases hmem z hz with ⟨rfl, h⟩ | ⟨rfl, h⟩ <;> omega
  · split_ifs <;> simp [Apart, hxhi, hylo, hle]
  · rcases hmem z hz with ⟨rfl, h⟩ | ⟨rfl, h⟩ <;> simp only [Overlaps] <;> omega
  · simp only [Covers] at hmi hvx hvy
    by_cases hia : i < a
    · simp [Covers, hxlo, hxhi, show lo m < a by omega, hmi.1, hia, hvx i (by omega)]
    · have hleft : (if lo m < a then [x] else []).find? (Covers · i) = none := by
        split_ifs <;> simp [Covers, hxhi, hia]
      have hright : (if b < hi m then [y] else []).find? (Covers · i) = some y := by
        simp [Covers, hylo, hyhi, show b < hi m by omega, show b ≤ i by omega, hmi.2]
      rw [find?_append, hleft, hright, none_or, map_some, hvy i (by omega)]

section

variable [Keyed key] {s : BTreeSet α key} {val : α → ℕ → β} {a b : ℕ} {m x : α} {ps : List α}

section

variable (hps : Trims a b val m ps)

include hps

lemma Disjointed.valueAt_splice (h : Disjointed s) (hm : m ∈ s)
    (hi : ¬ (a ≤ i ∧ i < b)) : valueAt val (Segment.splice s m ps) i = valueAt val s i := by
  rw [valueAt, valueAt, h.at?_splice hm hps.toPieces]
  split_ifs with hmi
  · rw [hps.value i hmi hi, h.at?_eq_some.mpr ⟨hm, hmi⟩, map_some]
  · rfl

lemma Disjointed.at?_splice_of_trims (h : Disjointed s) (hm : m ∈ s) (hi : a ≤ i ∧ i < b) :
    at? (Segment.splice s m ps) i = if Covers m i then none else at? s i := by
  rw [h.at?_splice hm hps.toPieces]
  split_ifs with hmi
  · refine find?_eq_none.mpr fun x hx hxi => hps.outside x hx ?_
    obtain ⟨hx₁, hx₂⟩ : Covers x i := by simpa using hxi
    exact ⟨lt_of_le_of_lt hi.1 hx₂, lt_of_le_of_lt hx₁ hi.2⟩
  · rfl

/-- The part of a segment inside the range fits between its sides. -/
lemma Trims.pieces_concat (hab : a < b) (hm : lo m < hi m) (hov : Overlaps a b m)
    (hlo : lo x = max a (lo m)) (hhi : hi x = min b (hi m)) : Pieces m (ps ++ [x]) := by
  obtain ⟨hov₁, hov₂⟩ : a < hi m ∧ lo m < b := hov
  have hx : lo x < hi x := by omega
  refine ⟨forall_mem_append.mpr ⟨hps.nonempty, forall_mem_singleton.mpr hx⟩,
    forall_mem_append.mpr ⟨hps.inside, forall_mem_singleton.mpr ?_⟩,
    pairwise_append.mpr ⟨hps.apart, pairwise_singleton _ _, ?_⟩⟩
  · omega
  · intro y hy z hz
    have hout := hps.outside y hy
    rw [mem_singleton.mp hz]
    simp only [Overlaps, Apart] at hout ⊢
    omega

/-- Replacing the part of a segment inside a range changes the values there. -/
lemma Disjointed.valueAt_splice_concat (h : Disjointed s) (hm : m ∈ s) (hab : a < b)
    (hov : Overlaps a b m) (hlo : lo x = max a (lo m)) (hhi : hi x = min b (hi m)) (i : ℕ) :
    valueAt val (Segment.splice s m (ps ++ [x])) i =
      if lo x ≤ i ∧ i < hi x then some (val x i) else valueAt val s i := by
  have hpieces := hps.pieces_concat hab (h.nonempty m hm) hov hlo hhi
  rw [valueAt, valueAt, h.at?_splice hm hpieces, find?_append]
  by_cases hxi : lo x ≤ i ∧ i < hi x
  · have hmi : Covers m i := by
      simp only [Covers]
      omega
    have hnone : ps.find? (Covers · i) = none := by
      refine find?_eq_none.mpr fun y hy hyi => hps.outside y hy ?_
      obtain ⟨hy₁, hy₂⟩ : Covers y i := by simpa using hyi
      exact ⟨by omega, by omega⟩
    have hxi' : Covers x i := hxi
    simp [hmi, hxi, hnone, hxi']
  · have hxi' : ¬ Covers x i := hxi
    have hsingle : [x].find? (Covers · i) = none := by simp [hxi']
    rw [hsingle, or_none]
    split_ifs with hmi
    · have hout : ¬ (a ≤ i ∧ i < b) := fun hi => hxi <| by
        simp only [Covers] at hmi
        omega
      rw [hps.value i hmi hout, h.at?_eq_some.mpr ⟨hm, hmi⟩, map_some]
    · rfl

/-- Trim the segments of a list, one after the other. -/
def trimAll (s : BTreeSet α key) (trim : α → List α) (l : List α) : BTreeSet α key :=
  l.foldl (fun s m => Segment.splice s m (trim m)) s

/-- The other segments that reach into the range are still there once one is trimmed. -/
lemma Disjointed.mem_of_trim {l : List α} (h : Disjointed s) (hml : m ∉ l)
    (hl : ∀ x, x ∈ m :: l ↔ x ∈ s ∧ Overlaps a b x) (x : α) :
    x ∈ l ↔ x ∈ Segment.splice s m ps ∧ Overlaps a b x := by
  have hlx := hl x
  rw [mem_cons] at hlx
  rw [h.mem_splice ((hl m).mp mem_cons_self).1 hps.toPieces]
  constructor
  · intro hx
    obtain ⟨hxs, hxov⟩ := hlx.mp (.inr hx)
    exact ⟨.inr ⟨hxs, fun hxm => hml (hxm ▸ hx)⟩, hxov⟩
  · rintro ⟨hx | ⟨hx, hxm⟩, hxov⟩
    · exact absurd hxov (hps.outside x hx)
    · exact (hlx.mpr ⟨hx, hxov⟩).resolve_left hxm

end

section

variable {trim : α → List α} {l : List α} (h : Disjointed s)
  (htrim : ∀ m, lo m < hi m → Overlaps a b m → Trims a b val m (trim m))
  (hnodup : l.Nodup) (hl : ∀ m, m ∈ l ↔ m ∈ s ∧ Overlaps a b m)

include h htrim hnodup hl

/-- Trimming exactly the segments that reach into a range cuts it out. -/
lemma Disjointed.trimAll :
    Disjointed (trimAll s trim l) ∧ ∀ i, valueAt val (Segment.trimAll s trim l) i =
      if a ≤ i ∧ i < b then none else valueAt val s i := by
  induction l generalizing s with
  | nil =>
    refine ⟨h, fun i => ?_⟩
    split_ifs with hi
    · have hnone : findOverlapping s a b = none :=
        find?_eq_none.mpr fun m hm hov => by simpa using (hl m).mpr ⟨hm, by simpa using hov⟩
      simp only [Segment.trimAll, foldl_nil, valueAt,
        at?_of_findOverlapping_eq_none hnone hi.1 hi.2, map_none]
    · rfl
  | cons m l ih =>
    obtain ⟨hml, hnodup⟩ := nodup_cons.mp hnodup
    obtain ⟨hm, hov⟩ := (hl m).mp mem_cons_self
    have hps := htrim m (h.nonempty m hm) hov
    obtain ⟨hd, hval⟩ := ih (h.splice hm hps.toPieces) hnodup (h.mem_of_trim hps hml hl)
    refine ⟨hd, fun i => (hval i).trans ?_⟩
    split_ifs with hi
    · rfl
    · exact h.valueAt_splice hps hm hi

/-- The segments that do not reach into the range stay as they are, the others are trimmed. -/
lemma Disjointed.mem_trimAll {x : α} :
    x ∈ Segment.trimAll s trim l ↔
      x ∈ s ∧ ¬ Overlaps a b x ∨ ∃ m ∈ s, Overlaps a b m ∧ x ∈ trim m := by
  induction l generalizing s with
  | nil =>
    have hnone : ∀ m ∈ s, ¬ Overlaps a b m := fun m hm hov => by simpa using (hl m).mpr ⟨hm, hov⟩
    constructor
    · intro hx
      exact .inl ⟨hx, hnone x hx⟩
    · rintro (hx | ⟨m, hm, hov, -⟩)
      · exact hx.1
      · exact absurd hov (hnone m hm)
  | cons m l ih =>
    obtain ⟨hml, hnodup⟩ := nodup_cons.mp hnodup
    obtain ⟨hm, hov⟩ := (hl m).mp mem_cons_self
    have hps := htrim m (h.nonempty m hm) hov
    have hsplice : ∀ y, y ∈ Segment.splice s m (trim m) ↔ y ∈ trim m ∨ y ∈ s ∧ y ≠ m :=
      fun y => h.mem_splice hm hps.toPieces
    change x ∈ Segment.trimAll (Segment.splice s m (trim m)) trim l ↔ _
    rw [ih (h.splice hm hps.toPieces) hnodup (h.mem_of_trim hps hml hl), hsplice]
    constructor
    · rintro (⟨hx | ⟨hx, -⟩, hxov⟩ | ⟨n, hn, hnov, hx⟩)
      · exact .inr ⟨m, hm, hov, hx⟩
      · exact .inl ⟨hx, hxov⟩
      · rcases (hsplice n).mp hn with hn | ⟨hn, -⟩
        · exact absurd hnov (hps.outside n hn)
        · exact .inr ⟨n, hn, hnov, hx⟩
    · rintro (⟨hx, hxov⟩ | ⟨n, hn, hnov, hx⟩)
      · exact .inl ⟨.inr ⟨hx, fun hxm => hxov (hxm ▸ hov)⟩, hxov⟩
      · rcases eq_or_ne n m with rfl | hnm
        · exact .inl ⟨.inl hx, hps.outside x hx⟩
        · exact .inr ⟨n, (hsplice n).mpr (.inr ⟨hn, hnm⟩), hnov, hx⟩

end

end

end Segment
