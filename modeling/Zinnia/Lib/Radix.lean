import Mathlib.Algebra.Group.Nat.Defs
import Mathlib.Data.List.Nodup
import Mathlib.Data.List.Pairwise
import Mathlib.Data.List.Perm.Basic

/-!
# Radix trees in memory

A memory of nodes, each of which has entries. The entries of a node of a level above 0 can refer to
nodes of the level below. What the entries of a node of level 0 mean is left open.
-/

namespace Zinnia

open Function List Option Nat

/-- The format of the nodes. -/
structure Radix (F E : Type*) where
  /-- The node that an entry refers to. -/
  child : E → Option F
  /-- The number of entries of a node, by level. -/
  fanout : ℕ → ℕ

namespace Radix

variable {F E : Type*} (R : Radix F E)

section

variable (mem : F → ℕ → E)

/-- All nodes of a tree, the root after the nodes below it. -/
def nodes : ℕ → F → List F
  | 0, f => [f]
  | n + 1, f => ((List.range (R.fanout (n + 1))).flatMap fun i =>
      match R.child (mem f i) with
      | none => []
      | some c => nodes n c) ++ [f]

/-- The nodes that an entry refers to. -/
def sub (n : ℕ) (e : E) : List F :=
  match R.child e with
  | none => []
  | some c => R.nodes mem n c

/-- The nodes of level 0 of a tree. -/
def leaves : ℕ → F → List F
  | 0, f => [f]
  | n + 1, f => (List.range (R.fanout (n + 1))).flatMap fun i =>
      match R.child (mem f i) with
      | none => []
      | some c => leaves n c

/-- The nodes of level 0 that an entry refers to. -/
def subLeaves (n : ℕ) (e : E) : List F :=
  match R.child e with
  | none => []
  | some c => R.leaves mem n c

/-- The node of level 0 on a path. The path has an index for every level. -/
def leaf (idx : ℕ → ℕ) : ℕ → F → Option F
  | 0, f => some f
  | n + 1, f => (R.child (mem f (idx (n + 1)))).bind (leaf idx n)

/-- The entries of all nodes above level 0 satisfy `P`. -/
def Inner (P : E → Prop) : ℕ → F → Prop
  | 0, _ => True
  | n + 1, f => ∀ i < R.fanout (n + 1), P (mem f i) ∧ ∀ c ∈ R.child (mem f i), Inner P n c

/-- The indices of a path are in range. -/
def InRange (idx : ℕ → ℕ) (n : ℕ) : Prop := ∀ k, 0 < k → k ≤ n → idx k < R.fanout k

end

variable {R} {mem mem' : F → ℕ → E} {n i j : ℕ} {f g c : F} {idx : ℕ → ℕ} {P : E → Prop} {e : E}

lemma nodes_succ : R.nodes mem (n + 1) f =
    (List.range (R.fanout (n + 1))).flatMap (fun i => R.sub mem n (mem f i)) ++ [f] := rfl

lemma sub_of_child (h : R.child e = some c) : R.sub mem n e = R.nodes mem n c := by
  rw [sub, h]

lemma sub_of_none (h : R.child e = none) : R.sub mem n e = [] := by
  rw [sub, h]

lemma self_mem_nodes : f ∈ R.nodes mem n f := by
  cases n with
  | zero => exact mem_singleton_self f
  | succ n => exact mem_append_right _ (mem_singleton_self f)

lemma mem_nodes_of_sub (hi : i < R.fanout (n + 1)) (hg : g ∈ R.sub mem n (mem f i)) :
    g ∈ R.nodes mem (n + 1) f :=
  mem_append_left _ (mem_flatMap.mpr ⟨i, mem_range.mpr hi, hg⟩)

lemma mem_nodes_of_child (hi : i < R.fanout (n + 1)) (hc : R.child (mem f i) = some c)
    (hg : g ∈ R.nodes mem n c) : g ∈ R.nodes mem (n + 1) f :=
  mem_nodes_of_sub hi (sub_of_child hc ▸ hg)

lemma subLeaves_of_child (h : R.child e = some c) : R.subLeaves mem n e = R.leaves mem n c := by
  rw [subLeaves, h]

lemma subLeaves_of_none (h : R.child e = none) : R.subLeaves mem n e = [] := by
  rw [subLeaves, h]

lemma mem_leaves_succ : g ∈ R.leaves mem (n + 1) f ↔
    ∃ i < R.fanout (n + 1), g ∈ R.subLeaves mem n (mem f i) := by
  rw [show R.leaves mem (n + 1) f = (range (R.fanout (n + 1))).flatMap
    (fun i => R.subLeaves mem n (mem f i)) from rfl, mem_flatMap]
  simp only [mem_range]

lemma leaves_subset_nodes : R.leaves mem n f ⊆ R.nodes mem n f := by
  induction n generalizing f with
  | zero => exact Subset.refl _
  | succ n ih =>
    intro g hg
    obtain ⟨i, hi, hg⟩ := mem_leaves_succ.mp hg
    cases hc : R.child (mem f i) with
    | none =>
      rw [subLeaves_of_none hc] at hg
      cases hg
    | some c =>
      rw [subLeaves_of_child hc] at hg
      exact mem_nodes_of_child hi hc (ih hg)

lemma subLeaves_subset_sub : R.subLeaves mem n e ⊆ R.sub mem n e := by
  cases hc : R.child e with
  | none =>
    rw [subLeaves_of_none hc]
    exact nil_subset _
  | some c =>
    rw [subLeaves_of_child hc, sub_of_child hc]
    exact leaves_subset_nodes

/-! ### Trees without shared nodes -/

lemma notMem_of_nodup_flatMap {ι α : Type*} {l : List ι} {t : ι → List α} (h : (l.flatMap t).Nodup)
    {i j : ι} (hi : i ∈ l) (hj : j ∈ l) (hij : i ≠ j) {a : α} (ha : a ∈ t i) : a ∉ t j := by
  have hsymm : Std.Symm (onFun Disjoint t) := ⟨fun _ _ hd _ hx hy => hd hy hx⟩
  exact fun ha' => (nodup_flatMap.mp h).2.forall hi hj hij ha ha'

section

variable (h : (R.nodes mem (n + 1) f).Nodup)

include h

section

variable (hi : i < R.fanout (n + 1))

include hi

lemma nodup_sub : (R.sub mem n (mem f i)).Nodup := by
  rw [nodes_succ, nodup_append] at h
  exact (nodup_flatMap.mp h.1).1 i (mem_range.mpr hi)

lemma nodup_child {c : F} (hc : R.child (mem f i) = some c) : (R.nodes mem n c).Nodup :=
  sub_of_child hc ▸ nodup_sub h hi

lemma notMem_sub : f ∉ R.sub mem n (mem f i) := by
  intro hf
  rw [nodes_succ, nodup_append] at h
  exact h.2.2 f (mem_flatMap.mpr ⟨i, mem_range.mpr hi, hf⟩) f
    (mem_singleton_self f) rfl

lemma disjoint_sub (hj : j < R.fanout (n + 1)) (hij : i ≠ j) (hg : g ∈ R.sub mem n (mem f i)) :
    g ∉ R.sub mem n (mem f j) := by
  rw [nodes_succ, nodup_append] at h
  exact notMem_of_nodup_flatMap h.1 (mem_range.mpr hi) (mem_range.mpr hj) hij hg

end

end

/-- The digits of a number determine it. -/
lemma eq_of_digits {b n p q : ℕ} (hb : 0 < b) (hp : p < b ^ (n + 1)) (hq : q < b ^ (n + 1))
    (h : ∀ k ≤ n, p / b ^ k % b = q / b ^ k % b) : p = q := by
  induction n generalizing p q with
  | zero =>
    have h0 := h 0 (Nat.le_refl 0)
    rw [Nat.pow_one] at hp hq
    rwa [Nat.pow_zero, Nat.div_one, Nat.div_one, Nat.mod_eq_of_lt hp, Nat.mod_eq_of_lt hq] at h0
  | succ n ih =>
    have hrest : p / b = q / b := by
      refine ih ?_ ?_ fun k hk => ?_
      · rwa [div_lt_iff_lt_mul hb]
      · rwa [div_lt_iff_lt_mul hb]
      · have hk' := h (k + 1) (succ_le_succ hk)
        rwa [Nat.pow_succ', ← Nat.div_div_eq_div_mul, ← Nat.div_div_eq_div_mul] at hk'
    have hlast : p % b = q % b := by
      have h0 := h 0 (zero_le _)
      rwa [Nat.pow_zero, Nat.div_one, Nat.div_one] at h0
    rw [← div_add_mod p b, ← div_add_mod q b, hrest, hlast]

/-! ### Reading only the nodes of a tree -/

lemma InRange.last (h : R.InRange idx (n + 1)) : idx (n + 1) < R.fanout (n + 1) :=
  h _ n.succ_pos (Nat.le_refl _)

lemma InRange.below (h : R.InRange idx (n + 1)) : R.InRange idx n :=
  fun k hpos hk => h k hpos (Nat.le_succ_of_le hk)

section

variable (h : ∀ g ∈ R.nodes mem n f, mem' g = mem g)

include h

lemma nodes_congr : R.nodes mem' n f = R.nodes mem n f := by
  induction n generalizing f with
  | zero => rfl
  | succ n ih =>
    rw [nodes_succ, nodes_succ, h f self_mem_nodes]
    congr 1
    refine flatMap_congr fun i hi => ?_
    cases hc : R.child (mem f i) with
    | none => rw [sub_of_none hc, sub_of_none hc]
    | some c =>
      rw [sub_of_child hc, sub_of_child hc]
      exact ih fun g hg => h g (mem_nodes_of_child (mem_range.mp hi) hc hg)

omit h in
lemma sub_congr (h : ∀ g ∈ R.sub mem n e, mem' g = mem g) : R.sub mem' n e = R.sub mem n e := by
  cases hc : R.child e with
  | none => rw [sub_of_none hc, sub_of_none hc]
  | some c =>
    rw [sub_of_child hc] at h
    rw [sub_of_child hc, sub_of_child hc, nodes_congr h]

lemma leaves_congr : R.leaves mem' n f = R.leaves mem n f := by
  induction n generalizing f with
  | zero => rfl
  | succ n ih =>
    rw [leaves, leaves, h f self_mem_nodes]
    refine flatMap_congr fun i hi => ?_
    cases hc : R.child (mem f i) with
    | none => rfl
    | some c => exact ih fun g hg => h g (mem_nodes_of_child (mem_range.mp hi) hc hg)

omit h in
lemma subLeaves_congr (h : ∀ g ∈ R.sub mem n e, mem' g = mem g) :
    R.subLeaves mem' n e = R.subLeaves mem n e := by
  cases hc : R.child e with
  | none => rw [subLeaves_of_none hc, subLeaves_of_none hc]
  | some c =>
    rw [sub_of_child hc] at h
    rw [subLeaves_of_child hc, subLeaves_of_child hc, leaves_congr h]

lemma leaf_congr (hidx : R.InRange idx n) : R.leaf mem' idx n f = R.leaf mem idx n f := by
  induction n generalizing f with
  | zero => rfl
  | succ n ih =>
    rw [leaf, leaf, h f self_mem_nodes]
    refine bind_congr fun c hc => ?_
    refine ih (fun g hg => h g ?_) hidx.below
    exact mem_nodes_of_child hidx.last hc hg

lemma inner_congr (hf : R.Inner mem P n f) : R.Inner mem' P n f := by
  induction n generalizing f with
  | zero => trivial
  | succ n ih =>
    intro i hi
    rw [h f self_mem_nodes]
    refine ⟨(hf i hi).1, fun c hc => ih (fun g hg => h g ?_) ((hf i hi).2 c hc)⟩
    exact mem_nodes_of_child hi hc hg

end

lemma mem_nodes_of_leaf (hidx : R.InRange idx n) (h : R.leaf mem idx n f = some g) :
    g ∈ R.nodes mem n f := by
  induction n generalizing f with
  | zero =>
    cases h
    exact self_mem_nodes
  | succ n ih =>
    obtain ⟨c, hc, hg⟩ := bind_eq_some_iff.mp h
    refine mem_nodes_of_child hidx.last hc ?_
    exact ih hidx.below hg

/-! ### Writing the nodes of level 0 -/

section

variable (hnodup : (R.nodes mem (n + 1) f).Nodup)

include hnodup

lemma self_notMem_leaves : f ∉ R.leaves mem (n + 1) f := by
  intro hf
  obtain ⟨i, hi, hf⟩ := mem_leaves_succ.mp hf
  exact notMem_sub hnodup hi (subLeaves_subset_sub hf)

lemma notMem_leaves_of_child (hi : i < R.fanout (n + 1)) {c : F} (hc : R.child (mem f i) = some c)
    (hg : g ∈ R.nodes mem n c) (hleaf : g ∉ R.leaves mem n c) : g ∉ R.leaves mem (n + 1) f := by
  intro hmem
  obtain ⟨j, hj, hmem⟩ := mem_leaves_succ.mp hmem
  rcases eq_or_ne j i with rfl | hij
  · rw [subLeaves_of_child hc] at hmem
    exact hleaf hmem
  · refine disjoint_sub hnodup hj hi hij (subLeaves_subset_sub hmem) ?_
    rwa [sub_of_child hc]

end

/-- What the nodes of level 0 hold does not matter. -/
lemma nodes_congr_leaves (hnodup : (R.nodes mem n f).Nodup)
    (h : ∀ g ∈ R.nodes mem n f, g ∉ R.leaves mem n f → mem' g = mem g) :
    R.nodes mem' n f = R.nodes mem n f ∧ R.leaves mem' n f = R.leaves mem n f := by
  induction n generalizing f with
  | zero => exact ⟨rfl, rfl⟩
  | succ n ih =>
    have hself := h f self_mem_nodes (self_notMem_leaves hnodup)
    have hchild : ∀ i < R.fanout (n + 1), ∀ c, R.child (mem f i) = some c →
        R.nodes mem' n c = R.nodes mem n c ∧ R.leaves mem' n c = R.leaves mem n c := by
      refine fun i hi c hc => ih (nodup_child hnodup hi hc) fun g hg hleaf => ?_
      exact h g (mem_nodes_of_child hi hc hg) (notMem_leaves_of_child hnodup hi hc hg hleaf)
    rw [nodes, nodes, leaves, leaves, hself]
    refine ⟨congrArg (· ++ [f]) (flatMap_congr fun i hi => ?_),
      flatMap_congr fun i hi => ?_⟩
    all_goals
      cases hc : R.child (mem f i) with
      | none => rfl
      | some c => simp only [hchild i (mem_range.mp hi) c hc]

lemma sub_congr_leaves (hnodup : (R.sub mem n e).Nodup)
    (h : ∀ g ∈ R.sub mem n e, g ∉ R.subLeaves mem n e → mem' g = mem g) :
    R.sub mem' n e = R.sub mem n e ∧ R.subLeaves mem' n e = R.subLeaves mem n e := by
  cases hc : R.child e with
  | none =>
    rw [sub_of_none hc, sub_of_none hc, subLeaves_of_none hc, subLeaves_of_none hc]
    exact ⟨rfl, rfl⟩
  | some c =>
    rw [sub_of_child hc] at hnodup
    rw [sub_of_child hc, subLeaves_of_child hc] at h
    rw [sub_of_child hc, sub_of_child hc, subLeaves_of_child hc, subLeaves_of_child hc]
    exact nodes_congr_leaves hnodup h

/-! ### Changes below one entry -/

/-- The tree below entry `i` of a node changes: it gains the nodes `new` and loses `gone`. Nothing
else changes. -/
structure Edit (R : Radix F E) (mem mem' : F → ℕ → E) (n : ℕ) (f : F) (i : ℕ)
    (new gone : List F) : Prop where
  lt : i < R.fanout (n + 1)
  row : ∀ j ≠ i, mem' f j = mem f j
  frame : ∀ g ≠ f, g ∉ R.sub mem n (mem f i) → g ∉ new → mem' g = mem g
  perm : (R.sub mem' n (mem' f i) ++ gone).Perm (R.sub mem n (mem f i) ++ new)

lemma perm_flatMap {ι α : Type*} {l : List ι} (s s' new gone : ι → List α)
    (h : ∀ j ∈ l, (s' j ++ gone j).Perm (s j ++ new j)) :
    (l.flatMap s' ++ l.flatMap gone).Perm (l.flatMap s ++ l.flatMap new) :=
  calc (l.flatMap s' ++ l.flatMap gone).Perm (l.flatMap fun j => s' j ++ gone j) :=
        flatMap_append_perm l s' gone
    _ |>.Perm (l.flatMap fun j => s j ++ new j) := Perm.flatMap_left l h
    _ |>.Perm (l.flatMap s ++ l.flatMap new) := (flatMap_append_perm l s new).symm

lemma flatMap_ite {ι α : Type*} [DecidableEq ι] {l : List ι} (hl : l.Nodup) {i : ι} (hi : i ∈ l)
    (x : List α) : (l.flatMap fun j => if j = i then x else []) = x := by
  induction l with
  | nil => cases hi
  | cons a l ih =>
    obtain ⟨ha, hl⟩ := nodup_cons.mp hl
    rw [flatMap_cons]
    rcases mem_cons.mp hi with rfl | hi
    · have hnil : (l.flatMap fun j => if j = i then x else []) = [] := by
        refine flatMap_eq_nil_iff.mpr fun j hj => if_neg ?_
        rintro rfl
        exact ha hj
      rw [if_pos rfl, hnil, append_nil]
    · rw [if_neg, ih hl hi, nil_append]
      rintro rfl
      exact ha hi

namespace Edit

variable {new gone : List F} (h : R.Edit mem mem' n f i new gone)
  (hnodup : (R.nodes mem (n + 1) f).Nodup) (hnew : ∀ g ∈ new, g ∉ R.nodes mem (n + 1) f)

include h

lemma frame_nodes (hg : g ∉ R.nodes mem (n + 1) f) (hgnew : g ∉ new) : mem' g = mem g := by
  rw [nodes_succ, mem_append, mem_flatMap, mem_singleton] at hg
  push Not at hg
  exact h.frame g hg.2 (hg.1 i (mem_range.mpr h.lt)) hgnew

include hnodup hnew

lemma frame_sub (hj : j < R.fanout (n + 1)) (hij : j ≠ i) (hg : g ∈ R.sub mem n (mem f j)) :
    mem' g = mem g := by
  refine h.frame g ?_ (disjoint_sub hnodup hj h.lt hij hg) fun hgnew => ?_
  · rintro rfl
    exact notMem_sub hnodup hj hg
  · exact hnew g hgnew (mem_nodes_of_sub hj hg)

lemma perm_nodes : (R.nodes mem' (n + 1) f ++ gone).Perm (R.nodes mem (n + 1) f ++ new) := by
  have hi := mem_range.mpr h.lt
  have hperm := perm_flatMap (l := range (R.fanout (n + 1)))
    (fun j => R.sub mem n (mem f j)) (fun j => R.sub mem' n (mem' f j))
    (fun j => if j = i then new else []) (fun j => if j = i then gone else []) ?_
  · rw [flatMap_ite nodup_range hi, flatMap_ite nodup_range hi] at hperm
    rw [nodes_succ, nodes_succ, append_assoc, append_assoc]
    exact perm_middle.trans ((hperm.cons f).trans perm_middle.symm)
  · intro j hj
    split_ifs with hij
    · rw [hij]
      exact h.perm
    · rw [h.row j hij, sub_congr fun g hg => h.frame_sub hnodup hnew (mem_range.mp hj) hij hg]

lemma inner (hinner : R.Inner mem P (n + 1) f) (hP : P (mem' f i))
    (hsub : ∀ c ∈ R.child (mem' f i), R.Inner mem' P n c) : R.Inner mem' P (n + 1) f := by
  intro j hj
  by_cases hij : j = i
  · rw [hij]
    exact ⟨hP, hsub⟩
  · obtain ⟨hPj, hsubj⟩ := hinner j hj
    rw [h.row j hij]
    refine ⟨hPj, fun c hc => inner_congr (fun g hg => ?_) (hsubj c hc)⟩
    exact h.frame_sub hnodup hnew hj hij (sub_of_child hc ▸ hg)

end Edit

/-! ### Entries at the end of a path -/

/-- The entry of a node of level 0, or `d` where there is none. -/
def read (R : Radix F E) (d : E) (mem : F → ℕ → E) (idx : ℕ → ℕ) (n : ℕ) (f : F) : E :=
  ((R.leaf mem idx n f).map fun g => mem g (idx 0)).getD d

variable {d : E}

lemma read_of_leaf (h : R.leaf mem idx n f = some g) : R.read d mem idx n f = mem g (idx 0) := by
  rw [read, h]
  rfl

lemma read_of_none (h : R.leaf mem idx n f = none) : R.read d mem idx n f = d := by
  rw [read, h]
  rfl

lemma read_succ (hc : R.child (mem f (idx (n + 1))) = some c) :
    R.read d mem idx (n + 1) f = R.read d mem idx n c := by
  rw [read, leaf, hc]
  rfl

lemma read_succ_of_none (hc : R.child (mem f (idx (n + 1))) = none) :
    R.read d mem idx (n + 1) f = d := by
  rw [read, leaf, hc]
  rfl

lemma read_congr (hidx : R.InRange idx n) (h : ∀ g ∈ R.nodes mem n f, mem' g = mem g) :
    R.read d mem' idx n f = R.read d mem idx n f := by
  have hleaf := leaf_congr h hidx
  cases hg : R.leaf mem idx n f with
  | none => rw [read_of_none hg, read_of_none (hleaf.trans hg)]
  | some g =>
    rw [read_of_leaf hg, read_of_leaf (hleaf.trans hg), h g (mem_nodes_of_leaf hidx hg)]

lemma Edit.read_of_ne {new gone : List F} (h : R.Edit mem mem' n f i new gone)
    (hnodup : (R.nodes mem (n + 1) f).Nodup) (hnew : ∀ g ∈ new, g ∉ R.nodes mem (n + 1) f)
    (hidx : R.InRange idx (n + 1)) (hi : idx (n + 1) ≠ i) :
    R.read d mem' idx (n + 1) f = R.read d mem idx (n + 1) f := by
  cases hc : R.child (mem f (idx (n + 1))) with
  | none => rw [read_succ_of_none hc, read_succ_of_none (h.row _ hi ▸ hc)]
  | some c =>
    rw [read_succ hc, read_succ (h.row _ hi ▸ hc)]
    refine read_congr hidx.below fun g hg => ?_
    exact h.frame_sub hnodup hnew hidx.last hi (sub_of_child hc ▸ hg)

/-! ### Growing -/

/-- The tree gains the nodes `new`, and keeps what it has. -/
structure Grows (R : Radix F E) (d : E) (P : E → Prop) (mem mem' : F → ℕ → E) (n : ℕ) (f : F)
    (new : List F) : Prop where
  perm : (R.nodes mem' n f).Perm (R.nodes mem n f ++ new)
  frame : ∀ g, g ∉ R.nodes mem n f → g ∉ new → mem' g = mem g
  inner : R.Inner mem' P n f
  read : ∀ idx, R.InRange idx n → R.read d mem' idx n f = R.read d mem idx n f

namespace Grows

variable {new new' : List F} {mem'' : F → ℕ → E}

lemma refl (h : R.Inner mem P n f) : R.Grows d P mem mem n f [] :=
  ⟨by rw [append_nil], fun _ _ _ => rfl, h, fun _ _ => rfl⟩

lemma trans (h : R.Grows d P mem mem' n f new) (h' : R.Grows d P mem' mem'' n f new') :
    R.Grows d P mem mem'' n f (new ++ new') := by
  refine ⟨?_, fun g hg hgnew => ?_, h'.inner, fun idx hidx => ?_⟩
  · rw [← append_assoc]
    exact h'.perm.trans (h.perm.append_right new')
  · rw [mem_append, not_or] at hgnew
    have hg' : g ∉ R.nodes mem' n f := by
      rw [h.perm.mem_iff, mem_append, not_or]
      exact ⟨hg, hgnew.1⟩
    rw [h'.frame g hg' hgnew.2, h.frame g hg hgnew.1]
  · rw [h'.read idx hidx, h.read idx hidx]

lemma nodup (h : R.Grows d P mem mem' n f new) (hnodup : (R.nodes mem n f).Nodup)
    (hnodup' : new.Nodup) (hnew : ∀ g ∈ new, g ∉ R.nodes mem n f) : (R.nodes mem' n f).Nodup := by
  rw [h.perm.nodup_iff, nodup_append]
  refine ⟨hnodup, hnodup', fun g hg g' hg' heq => ?_⟩
  subst heq
  exact hnew g hg' hg

section

variable {c : F} (hi : i < R.fanout (n + 1)) (hc : R.child (mem f i) = some c)
  (h : R.Grows d P mem mem' n c new) (hnodup : (R.nodes mem (n + 1) f).Nodup)
  (hnew : ∀ g ∈ new, g ∉ R.nodes mem (n + 1) f)

include hi hc h hnodup hnew

/-- What grows below a node keeps its own entries. -/
lemma frame_parent : mem' f = mem f := by
  refine h.frame f ?_ fun hf => hnew f hf self_mem_nodes
  have hnotMem := notMem_sub hnodup hi
  rwa [sub_of_child hc] at hnotMem

/-- The tree grows below a node. -/
lemma descend (hinner : R.Inner mem P (n + 1) f) : R.Grows d P mem mem' (n + 1) f new := by
  have hsub : R.sub mem n (mem f i) = R.nodes mem n c := sub_of_child hc
  have hf := frame_parent hi hc h hnodup hnew
  have hedit : R.Edit mem mem' n f i new [] := by
    refine ⟨hi, fun j _ => by rw [hf], fun g _ hg hgnew => h.frame g (hsub ▸ hg) hgnew, ?_⟩
    rw [hf, hsub, sub_of_child hc, append_nil]
    exact h.perm
  refine ⟨?_, fun g => hedit.frame_nodes, hedit.inner hnodup hnew hinner ?_ ?_, fun idx hidx => ?_⟩
  · simpa using hedit.perm_nodes hnodup hnew
  · rw [hf]
    exact (hinner i hi).1
  · intro c' hc'
    rw [hf, hc] at hc'
    cases hc'
    exact h.inner
  · rcases eq_or_ne (idx (n + 1)) i with rfl | heq
    · rw [read_succ hc, read_succ (hf ▸ hc)]
      exact h.read idx hidx.below
    · exact hedit.read_of_ne hnodup hnew hidx heq

end

end Grows

/-! ### Empty nodes -/

section

variable {c : F}

/-- A node without children. -/
lemma nodes_of_none (hc : ∀ j < R.fanout (n + 1), R.child (mem c j) = none) :
    R.nodes mem (n + 1) c = [c] := by
  have hnil : (range (R.fanout (n + 1))).flatMap (fun i => R.sub mem n (mem c i)) = [] :=
    flatMap_eq_nil_iff.mpr fun j hj => sub_of_none (hc j (mem_range.mp hj))
  rw [nodes_succ, hnil, nil_append]

lemma nodes_of_empty (hd : R.child d = none) (hc : ∀ j, mem c j = d) : R.nodes mem n c = [c] := by
  cases n with
  | zero => rfl
  | succ n => exact nodes_of_none fun j _ => by rw [hc j, hd]

lemma inner_of_none (hc : ∀ j < R.fanout (n + 1), R.child (mem c j) = none)
    (hP : ∀ j < R.fanout (n + 1), P (mem c j)) : R.Inner mem P (n + 1) c := by
  intro j hj
  rw [hc j hj]
  exact ⟨hP j hj, nofun⟩

lemma inner_of_empty (hd : R.child d = none) (hP : P d) (hc : ∀ j, mem c j = d) :
    R.Inner mem P n c := by
  cases n with
  | zero => trivial
  | succ n => exact inner_of_none (fun j _ => by rw [hc j, hd]) fun j _ => by rwa [hc j]

lemma read_of_empty (hd : R.child d = none) (hc : ∀ j, mem c j = d) :
    R.read d mem idx n c = d := by
  cases n with
  | zero => exact hc _
  | succ n => exact read_succ_of_none (by rw [hc, hd])

end

section

variable [DecidableEq F] {e : E} {c : F} {idx' : ℕ → ℕ}

/-- The memory with an entry written. -/
def write (mem : F → ℕ → E) (g : F) (i : ℕ) (e : E) : F → ℕ → E :=
  update mem g (update (mem g) i e)

lemma write_of_ne (h : f ≠ g) : write mem g i e f = mem f := update_of_ne h _ _

lemma write_self : write mem g i e g = update (mem g) i e := update_self _ _ _

/-- The memory with an empty node `c`, and an entry that refers to it. -/
def linkNode (d : E) (mem : F → ℕ → E) (f : F) (i : ℕ) (e : E) (c : F) : F → ℕ → E :=
  write (update mem c fun _ => d) f i e

lemma linkNode_new (h : c ≠ f) (j : ℕ) : linkNode d mem f i e c c j = d := by
  rw [linkNode, write_of_ne h, update_self]

/-- A new empty node. -/
lemma grows_linkNode (hi : i < R.fanout (n + 1)) (hnone : R.child (mem f i) = none)
    (hchild : R.child e = some c) (hd : R.child d = none) (hPd : P d) (hPe : P e)
    (hfresh : c ∉ R.nodes mem (n + 1) f) (hnodup : (R.nodes mem (n + 1) f).Nodup)
    (hinner : R.Inner mem P (n + 1) f) :
    R.Grows d P mem (linkNode d mem f i e c) (n + 1) f [c] := by
  have hcf : c ≠ f := by
    rintro rfl
    exact hfresh self_mem_nodes
  have hrow : linkNode d mem f i e c f = update (mem f) i e := by
    rw [linkNode, write_self, update_of_ne hcf.symm]
  have hempty : ∀ j, linkNode d mem f i e c c j = d := linkNode_new hcf
  have hnew : ∀ g ∈ [c], g ∉ R.nodes mem (n + 1) f := by
    intro g hg
    rw [mem_singleton.mp hg]
    exact hfresh
  have hchild' : R.child (linkNode d mem f i e c f i) = some c := by
    rw [hrow, update_self, hchild]
  have hedit : R.Edit mem (linkNode d mem f i e c) n f i [c] [] := by
    refine ⟨hi, fun j hj => by rw [hrow, update_of_ne hj], fun g hgf _ hg => ?_, ?_⟩
    · rw [linkNode, write_of_ne hgf, update_of_ne (ne_of_not_mem_cons hg)]
    · rw [sub_of_child hchild', nodes_of_empty hd hempty, sub_of_none hnone]
      exact Perm.refl _
  refine ⟨?_, fun g => hedit.frame_nodes, hedit.inner hnodup hnew hinner ?_ ?_, fun idx hidx => ?_⟩
  · simpa using hedit.perm_nodes hnodup hnew
  · rw [hrow, update_self]
    exact hPe
  · intro c' hc'
    obtain rfl := some.inj (hchild'.symm.trans hc')
    exact inner_of_empty hd hPd hempty
  · rcases eq_or_ne (idx (n + 1)) i with rfl | heq
    · rw [read_succ_of_none hnone, read_succ hchild', read_of_empty hd hempty]
    · exact hedit.read_of_ne hnodup hnew hidx heq

/-! ### Writing the entry at the end of a path -/

/-- Two paths are the same down to level 0. -/
def SamePath (idx idx' : ℕ → ℕ) (n : ℕ) : Prop := ∀ k ≤ n, idx k = idx' k

lemma samePath_succ :
    SamePath idx idx' (n + 1) ↔ idx (n + 1) = idx' (n + 1) ∧ SamePath idx idx' n := by
  constructor
  · intro h
    exact ⟨h _ (Nat.le_refl _), fun k hk => h k (Nat.le_succ_of_le hk)⟩
  · rintro ⟨hlast, h⟩ k hk
    rcases le_succ_iff.mp hk with hk | rfl
    · exact h k hk
    · exact hlast

/-- The tree is kept. -/
lemma edit_write (hidx : R.InRange idx (n + 1)) {c : F}
    (hc : R.child (mem f (idx (n + 1))) = some c) (hg : R.leaf mem idx n c = some g)
    (hnodup : (R.nodes mem (n + 1) f).Nodup)
    (hperm : (R.nodes (write mem g i e) n c).Perm (R.nodes mem n c)) :
    write mem g i e f = mem f ∧ R.Edit mem (write mem g i e) n f (idx (n + 1)) [] [] := by
  have hlt := hidx.last
  have hsub : R.sub mem n (mem f (idx (n + 1))) = R.nodes mem n c := sub_of_child hc
  have hmem : g ∈ R.sub mem n (mem f (idx (n + 1))) :=
    hsub ▸ mem_nodes_of_leaf hidx.below hg
  have hf : write mem g i e f = mem f := by
    refine write_of_ne ?_
    rintro rfl
    exact notMem_sub hnodup hlt hmem
  refine ⟨hf, hlt, fun j _ => by rw [hf], fun g' _ hg' _ => write_of_ne ?_, ?_⟩
  · rintro rfl
    exact hg' hmem
  · rw [hf, hsub, sub_of_child hc, append_nil, append_nil]
    exact hperm

lemma perm_nodes_write (hidx : R.InRange idx n) (hg : R.leaf mem idx n f = some g)
    (hnodup : (R.nodes mem n f).Nodup) :
    (R.nodes (write mem g i e) n f).Perm (R.nodes mem n f) := by
  induction n generalizing f with
  | zero => exact Perm.refl _
  | succ n ih =>
    obtain ⟨c, hc, hg⟩ := bind_eq_some_iff.mp hg
    have hlt := hidx.last
    have hperm := ih hidx.below hg (nodup_child hnodup hlt hc)
    have hedit := (edit_write hidx hc hg hnodup hperm).2
    simpa using hedit.perm_nodes hnodup (by simp)

lemma inner_write (hidx : R.InRange idx n) (hg : R.leaf mem idx n f = some g)
    (hnodup : (R.nodes mem n f).Nodup) (hinner : R.Inner mem P n f) :
    R.Inner (write mem g i e) P n f := by
  induction n generalizing f with
  | zero => trivial
  | succ n ih =>
    obtain ⟨c, hc, hg⟩ := bind_eq_some_iff.mp hg
    have hlt := hidx.last
    have hidx' : R.InRange idx n := hidx.below
    have hnodup' := nodup_child hnodup hlt hc
    obtain ⟨hf, hedit⟩ := edit_write hidx hc hg hnodup (perm_nodes_write hidx' hg hnodup')
    refine hedit.inner hnodup (by simp) hinner ?_ ?_
    · rw [hf]
      exact (hinner _ hlt).1
    · intro c' hc'
      rw [hf, hc] at hc'
      cases hc'
      exact ih hidx' hg hnodup' ((hinner _ hlt).2 c hc)

lemma read_write (hidx : R.InRange idx n) (hidx' : R.InRange idx' n)
    (hg : R.leaf mem idx n f = some g) (hnodup : (R.nodes mem n f).Nodup) :
    (SamePath idx' idx n → R.read d (write mem g (idx 0) e) idx' n f = e) ∧
      (¬ SamePath idx' idx n →
        R.read d (write mem g (idx 0) e) idx' n f = R.read d mem idx' n f) := by
  induction n generalizing f with
  | zero =>
    obtain rfl := some.inj hg
    have hread : R.read d (write mem f (idx 0) e) idx' 0 f =
        update (mem f) (idx 0) e (idx' 0) := congrFun write_self _
    rw [hread]
    constructor
    · intro h
      rw [h 0 (Nat.le_refl 0), update_self]
    · intro h
      refine update_of_ne (fun heq => h fun k hk => ?_) _ _
      rw [le_zero.mp hk, heq]
  | succ n ih =>
    obtain ⟨c, hc, hg⟩ := bind_eq_some_iff.mp hg
    have hlt := hidx.last
    have hbelow : R.InRange idx n := hidx.below
    have hbelow' : R.InRange idx' n := hidx'.below
    have hnodup' := nodup_child hnodup hlt hc
    obtain ⟨hf, hedit⟩ := edit_write hidx hc hg hnodup
      (perm_nodes_write hbelow hg hnodup')
    rw [samePath_succ]
    by_cases heq : idx' (n + 1) = idx (n + 1)
    · have hc' : R.child (mem f (idx' (n + 1))) = some c := heq ▸ hc
      rw [read_succ hc', read_succ (hf ▸ hc')]
      simpa only [heq, true_and] using ih hbelow hbelow' hg hnodup'
    · refine ⟨fun h => absurd h.1 heq, fun _ => hedit.read_of_ne hnodup (by simp) hidx' heq⟩

end

end Radix

end Zinnia
