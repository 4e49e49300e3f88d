import Mathlib.Data.List.Nodup
import Mathlib.Order.Lattice

/-!
# Ordered sets

A `BTreeSet` keeps its elements in increasing order of a key. Two elements with the same key
count as equal: inserting an element whose key is present changes nothing, and removing an
element removes the one with its key.
-/

/-- A set of elements in strictly increasing order of their keys. -/
@[ext]
structure BTreeSet (α : Type*) {κ : Type*} [LinearOrder κ] (key : α → κ) where
  elems : List α
  sorted : elems.Pairwise fun a b => key a < key b

namespace BTreeSet

open List

variable {α κ : Type*} [LinearOrder κ] {key : α → κ} {s : BTreeSet α key} {a x b : α} {l : List α}
  {p : α → Bool}

instance : Membership α (BTreeSet α key) := ⟨fun s a => a ∈ s.elems⟩

lemma mem_def : a ∈ s ↔ a ∈ s.elems := Iff.rfl

/-- `BTreeSet::new`. -/
def empty : BTreeSet α key := ⟨[], List.Pairwise.nil⟩

@[simp] lemma not_mem_empty (a : α) : a ∉ (empty : BTreeSet α key) := by simp [mem_def, empty]

lemma nodup (s : BTreeSet α key) : s.elems.Nodup :=
  s.sorted.imp fun {a b} hlt heq => absurd hlt (by rw [heq]; exact lt_irrefl _)

/-- An element is determined by its key. -/
lemma eq_of_key_eq (ha : a ∈ s) (hb : b ∈ s) (h : key a = key b) : a = b := by
  have hnodup : (s.elems.map key).Nodup := pairwise_map.mpr (s.sorted.imp ne_of_lt)
  exact inj_on_of_nodup_map hnodup ha hb h

/-! ### Insertion -/

/-- Insertion into a sorted list; an element with the same key stays in place. -/
def insertElem (key : α → κ) (a : α) : List α → List α
  | [] => [a]
  | b :: l =>
    if key a < key b then a :: b :: l
    else if key a = key b then b :: l
    else b :: insertElem key a l

lemma mem_of_mem_insertElem (h : x ∈ insertElem key a l) : x = a ∨ x ∈ l := by
  induction l with
  | nil => simpa [insertElem] using h
  | cons b l ih =>
    simp only [insertElem] at h
    split_ifs at h
    · simpa using h
    · exact Or.inr h
    · rcases mem_cons.mp h with rfl | h
      · simp
      · rcases ih h with rfl | h
        · simp
        · exact Or.inr (mem_cons_of_mem _ h)

lemma sorted_insertElem (a : α) (h : l.Pairwise fun a b => key a < key b) :
    (insertElem key a l).Pairwise fun a b => key a < key b := by
  induction l with
  | nil => simp [insertElem]
  | cons b l ih =>
    obtain ⟨hb, hl⟩ := pairwise_cons.mp h
    simp only [insertElem]
    split_ifs with hlt heq
    · refine pairwise_cons.mpr ⟨fun c hc => ?_, h⟩
      rcases mem_cons.mp hc with rfl | hc
      · exact hlt
      · exact lt_trans hlt (hb c hc)
    · exact h
    · refine pairwise_cons.mpr ⟨fun c hc => ?_, ih hl⟩
      rcases mem_of_mem_insertElem hc with rfl | hc
      · exact lt_of_le_of_ne (not_lt.mp hlt) (Ne.symm heq)
      · exact hb c hc

/-- A key that is not present is inserted between smaller and larger keys. -/
lemma insertElem_perm (h : ∀ b ∈ l, key b ≠ key a) : (insertElem key a l).Perm (a :: l) := by
  induction l with
  | nil => rfl
  | cons b l ih =>
    rw [forall_mem_cons] at h
    simp only [insertElem, if_neg (Ne.symm h.1)]
    split_ifs
    · rfl
    · exact ((ih h.2).cons b).trans (Perm.swap a b l)

/-- `BTreeSet::insert`. -/
def insert (s : BTreeSet α key) (a : α) : BTreeSet α key :=
  ⟨insertElem key a s.elems, sorted_insertElem a s.sorted⟩

lemma mem_insert (h : ∀ b ∈ s, key b ≠ key a) : x ∈ s.insert a ↔ x = a ∨ x ∈ s := by
  simp only [mem_def, insert, (insertElem_perm h).mem_iff, mem_cons]

lemma mem_insert_self (hkey : Function.Injective key) : a ∈ s.insert a := by
  change a ∈ insertElem key a s.elems
  induction s.elems with
  | nil => exact mem_singleton_self a
  | cons b l ih =>
    simp only [insertElem]
    split_ifs with hlt heq
    · exact mem_cons_self
    · exact hkey heq ▸ mem_cons_self
    · exact mem_cons_of_mem b ih

lemma mem_insert_of_mem (hx : x ∈ s) : x ∈ s.insert a := by
  change x ∈ insertElem key a s.elems
  rw [mem_def] at hx
  revert hx
  induction s.elems with
  | nil => intro hx; cases hx
  | cons b l ih =>
    intro hx
    simp only [insertElem]
    split_ifs
    · exact mem_cons_of_mem a hx
    · exact hx
    · rcases mem_cons.mp hx with rfl | hl
      · exact mem_cons_self
      · exact mem_cons_of_mem b (ih hl)

/-- Insert several elements, one after the other. -/
def insertAll (s : BTreeSet α key) (l : List α) : BTreeSet α key := l.foldl insert s

@[simp] lemma insertAll_nil (s : BTreeSet α key) : s.insertAll [] = s := rfl

@[simp] lemma insertAll_cons (s : BTreeSet α key) (a : α) (l : List α) :
    s.insertAll (a :: l) = (s.insert a).insertAll l := rfl

/-- Inserting elements with new keys only adds them. -/
lemma mem_insertAll (hs : ∀ b ∈ s, ∀ a ∈ l, key b ≠ key a)
    (hl : l.Pairwise fun a b => key a ≠ key b) : x ∈ s.insertAll l ↔ x ∈ l ∨ x ∈ s := by
  induction l generalizing s with
  | nil => simp
  | cons a l ih =>
    obtain ⟨ha, hl⟩ := pairwise_cons.mp hl
    have hnew : ∀ b ∈ s, key b ≠ key a := fun b hb => hs b hb a mem_cons_self
    rw [insertAll_cons, ih _ hl, mem_insert hnew, mem_cons]
    · tauto
    · intro b hb c hc
      rcases (mem_insert hnew).mp hb with rfl | hb
      · exact ha c hc
      · exact hs b hb c (mem_cons_of_mem _ hc)

lemma insertElem_of_forall_lt (h : ∀ b ∈ l, key b < key a) : insertElem key a l = l ++ [a] := by
  induction l with
  | nil => rfl
  | cons b l ih =>
    rw [forall_mem_cons] at h
    rw [insertElem, if_neg (lt_asymm h.1), if_neg (ne_of_gt h.1), ih h.2, cons_append]

/-- Inserting the elements of a set in their order copies it. -/
lemma insertAll_elems (s : BTreeSet α key) : (empty : BTreeSet α key).insertAll s.elems = s := by
  have happend : ∀ (l : List α) (t : BTreeSet α key),
      (t.elems ++ l).Pairwise (fun a b => key a < key b) →
        (t.insertAll l).elems = t.elems ++ l := by
    intro l
    induction l with
    | nil => simp
    | cons a l ih =>
      intro t ht
      have hlt : ∀ b ∈ t.elems, key b < key a := fun b hb =>
        (pairwise_append.mp ht).2.2 b hb a mem_cons_self
      have hins : (t.insert a).elems = t.elems ++ [a] := insertElem_of_forall_lt hlt
      rw [insertAll_cons, ih (t.insert a) (by simpa [hins] using ht), hins, append_assoc,
        singleton_append]
  exact BTreeSet.ext (happend s.elems empty s.sorted)

/-! ### Removal -/

/-- `BTreeSet::remove`. -/
def remove (s : BTreeSet α key) (a : α) : BTreeSet α key :=
  ⟨s.elems.filter (fun b => key b ≠ key a), s.sorted.filter _⟩

lemma mem_remove : x ∈ s.remove a ↔ x ∈ s ∧ key x ≠ key a := by
  simp [mem_def, remove]

/-- `BTreeSet::retain`. -/
def filter (s : BTreeSet α key) (p : α → Bool) : BTreeSet α key :=
  ⟨s.elems.filter p, s.sorted.filter _⟩

lemma mem_filter :
    x ∈ s.filter p ↔ x ∈ s ∧ p x := List.mem_filter

/-! ### Changing elements in place -/

/-- Change every element, but not its key. -/
def map (s : BTreeSet α key) (f : α → α) (hf : ∀ a, key (f a) = key a) : BTreeSet α key :=
  ⟨s.elems.map f, List.pairwise_map.mpr (s.sorted.imp fun h => by rwa [hf, hf])⟩

lemma mem_map {f : α → α} {hf : ∀ a, key (f a) = key a} :
    x ∈ s.map f hf ↔ ∃ a ∈ s, f a = x := List.mem_map

/-! ### Searching -/

/-- A search from the left finds the least element with a property. -/
lemma key_le_of_find? (ha : s.elems.find? p = some a) (hb : b ∈ s) (hp : p b) : key a ≤ key b := by
  obtain ⟨-, pre, post, h, hpre⟩ := find?_eq_some_iff_append.mp ha
  have hsorted := s.sorted
  rw [mem_def, h] at hb
  rw [h] at hsorted
  rcases mem_append.mp hb with hb | hb
  · have := hpre b hb
    simp [hp] at this
  · rcases mem_cons.mp hb with rfl | hb
    · exact le_rfl
    · exact le_of_lt ((pairwise_cons.mp (pairwise_append.mp hsorted).2.1).1 b hb)

/-! ### Counting -/

/-- The number of elements with a property. -/
def countP (p : α → Bool) (s : BTreeSet α key) : ℕ := s.elems.countP p

lemma countP_insert_of_not (s : BTreeSet α key) (ha : p a = false) :
    (s.insert a).countP p = s.countP p := by
  simp only [countP, insert]
  induction s.elems with
  | nil => simp [insertElem, ha]
  | cons b l ih =>
    simp only [insertElem]
    split_ifs
    · simp [ha]
    · rfl
    · simp [countP_cons, ih]

lemma countP_insertAll_of_not (s : BTreeSet α key) (h : ∀ a ∈ l, p a = false) :
    (s.insertAll l).countP p = s.countP p := by
  induction l generalizing s with
  | nil => rfl
  | cons a l ih =>
    rw [forall_mem_cons] at h
    rw [insertAll_cons, ih _ h.2, countP_insert_of_not _ h.1]

lemma countP_remove_lt (ha : a ∈ s) (hp : p a) : (s.remove a).countP p < s.countP p := by
  obtain ⟨pre, post, h⟩ := append_of_mem ha
  have hle : ∀ l : List α, (l.filter fun b => decide (key b ≠ key a)).countP p ≤ l.countP p :=
    fun l => filter_sublist.countP_le
  have hpre := hle pre
  have hpost := hle post
  have hcons : (a :: post).filter (fun b => decide (key b ≠ key a)) =
      post.filter fun b => decide (key b ≠ key a) := by simp
  change (s.elems.filter fun b => decide (key b ≠ key a)).countP p < s.elems.countP p
  rw [h, filter_append, hcons, countP_append, countP_append, countP_cons_of_pos hp]
  omega

end BTreeSet
