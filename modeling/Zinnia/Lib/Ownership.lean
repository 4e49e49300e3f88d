import Mathlib.Order.CompletePartialOrder
import Mathlib.Data.Set.Lattice

/-!
# Ownership

A family of owners that hold disjoint parts of a set of resources.
-/

namespace Zinnia

variable {ι α : Type*}

/-- The owners hold disjoint parts of `A`. -/
structure Owns (f : ι → Set α) (A : Set α) : Prop where
  subset : ∀ i, f i ⊆ A
  disjoint : Pairwise fun i j => Disjoint (f i) (f j)

namespace Owns

variable {f f' g : ι → Set α} {A A' : Set α}

section

variable (h : Owns f A)

include h

lemma eq_of_mem {i j : ι} {a : α} (hi : a ∈ f i) (hj : a ∈ f j) : i = j := by
  by_contra hne
  exact Set.disjoint_left.mp (h.disjoint hne) hi hj

/-- Owners can take resources from outside `A`, if no two of them take the same. -/
lemma take (hsub : ∀ i, f' i ⊆ f i ∪ g i) (hA' : ∀ i, f' i ⊆ A') (hnew : ∀ i, Disjoint A (g i))
    (hdisj : Pairwise fun i j => Disjoint (g i) (g j)) : Owns f' A' := by
  refine ⟨hA', fun i j hij => ?_⟩
  have hmixed : ∀ i j, Disjoint (f i) (g j) := fun i j => (hnew j).mono_left (h.subset i)
  refine Disjoint.mono (hsub i) (hsub j) ?_
  rw [Set.disjoint_union_left, Set.disjoint_union_right, Set.disjoint_union_right]
  exact ⟨⟨h.disjoint hij, hmixed i j⟩, (hmixed j i).symm, hdisj hij⟩

/-- Owners can give up resources. -/
lemma give (hsub : ∀ i, f' i ⊆ f i) {S : Set α} (hS : ∀ i, Disjoint (f' i) S) : Owns f' (A \ S) :=
  ⟨fun i => Set.subset_sdiff.mpr ⟨(hsub i).trans (h.subset i), hS i⟩,
    fun _ _ hij => (h.disjoint hij).mono (hsub _) (hsub _)⟩

lemma mono (hsub : ∀ i, f' i ⊆ f i) : Owns f' A :=
  ⟨fun i => (hsub i).trans (h.subset i), fun _ _ hij => (h.disjoint hij).mono (hsub _) (hsub _)⟩

variable {S : Set α} {o : ι}

/-- One owner takes resources from outside `A`. -/
lemma acquire (hnew : Disjoint S A) (hsub : ∀ i ≠ o, f' i ⊆ f i)
    (ho : f' o ⊆ f o ∪ S) : Owns f' (A ∪ S) := by
  have hall : ∀ i, f' i ⊆ A ∪ S := by
    intro i
    rcases eq_or_ne i o with rfl | hi
    · exact ho.trans (Set.union_subset_union_left S (h.subset i))
    · exact ((hsub i hi).trans (h.subset i)).trans Set.subset_union_left
  have hne : ∀ i ≠ o, Disjoint (f' o) (f' i) := by
    intro i hi
    refine Disjoint.mono ho (hsub i hi) (Set.disjoint_union_left.mpr ⟨h.disjoint hi.symm, ?_⟩)
    exact hnew.mono_right (h.subset i)
  refine ⟨hall, fun i j hij => ?_⟩
  rcases eq_or_ne i o with rfl | hi
  · exact hne j hij.symm
  · rcases eq_or_ne j o with rfl | hj
    · exact (hne i hi).symm
    · exact (h.disjoint hij).mono (hsub i hi) (hsub j hj)

/-- One owner gives up resources. -/
lemma release (hS : S ⊆ f o) (hsub : ∀ i, f' i ⊆ f i) (ho : Disjoint (f' o) S) :
    Owns f' (A \ S) := by
  refine h.give hsub fun i => ?_
  rcases eq_or_ne i o with rfl | hi
  · exact ho
  · exact (h.disjoint hi).mono (hsub i) hS

end

end Owns

end Zinnia
