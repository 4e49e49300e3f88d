import Mathlib.Algebra.BigOperators.Fin
import Mathlib.Tactic.Linarith
import Zinnia.Memory.Virt.Shootdown

/-!
# The queue of a page table

The counter of a node in the queue is the number of CPUs that owe it an acknowledgement: those that
are bound to the page table and have not come to the node yet, and those that have left the table
but still have to go through its queue.
-/

namespace Zinnia

open Function List Finset ShootdownState Bool Nat

/-- How a CPU stands to a page table. -/
inductive Standing where
  | out
  /-- It is bound and has shot the nodes up to a sequence number. -/
  | member (already : ℕ)
  /-- It is no longer bound, but has not acknowledged the nodes of a range yet. -/
  | draining (after upTo : ℕ)

namespace Standing

def isMember : Standing → Bool
  | member _ => true
  | _ => false

variable {C : Type} [DecidableEq C]

/-- The CPU still has to acknowledge the node. -/
def owes (x : Standing) (c : C) (node : ShootdownNode C) : Bool :=
  node.initiatorCpu ≠ c &&
    match x with
    | out => false
    | member already => already < node.sequence
    | draining after upTo => after < node.sequence && node.sequence ≤ upTo

end Standing

/-! ### Acknowledging -/

namespace ShootdownState

section

variable {C : Type}

/-- What becomes of a node that may be acknowledged. -/
def ack (owes : ShootdownNode C → Bool) (node : ShootdownNode C) : Option (ShootdownNode C) :=
  if owes node then
    if node.bindingsToShoot = 1 then none
    else some { node with bindingsToShoot := node.bindingsToShoot - 1 }
  else some node

/-- The node is acknowledged for the last time. -/
def finished (owes : ShootdownNode C → Bool) (node : ShootdownNode C) : Bool :=
  owes node && node.bindingsToShoot = 1

/-- The identities of the nodes of a list. -/
def ids (l : List (ShootdownNode C)) : List ℕ := l.map (·.id)

/-- A loop acknowledges the nodes of a list that are owed. -/
def Shot.Acks (shot : Shot C) (owes : ShootdownNode C → Bool) (l : List (ShootdownNode C)) : Prop :=
  shot.kept = l.filterMap (ack owes) ∧ ids shot.toComplete = ids (l.filter (finished owes))

variable {owes : ShootdownNode C → Bool} {shot : Shot C} {node : ShootdownNode C}
  {l : List (ShootdownNode C)}

lemma ack_eq_none : ack owes node = none ↔ finished owes node = true := by
  rw [ack, finished, and_eq_true, decide_eq_true_eq]
  split_ifs with howes hone
  · exact iff_of_true rfl ⟨howes, hone⟩
  · exact iff_of_false nofun fun h => hone h.2
  · exact iff_of_false nofun fun h => howes h.1

lemma Shot.Acks.fetchSub (h : shot.Acks owes l) (hnode : owes node) :
    (Shot.fetchSub node shot).Acks owes (node :: l) := by
  obtain ⟨hkept, hdone⟩ := h
  rw [Shot.fetchSub]
  split_ifs with hone
  · have hack : ack owes node = none := by rw [ack, if_pos hnode, if_pos hone]
    have hfin := ack_eq_none.mp hack
    refine ⟨by rw [filterMap_cons_none hack]; exact hkept, ?_⟩
    rw [List.filter_cons_of_pos hfin, ids, List.map_cons, ← ids, hdone]
    rfl
  · have hack : ack owes node = some { node with bindingsToShoot := node.bindingsToShoot - 1 } := by
      rw [ack, if_pos hnode, if_neg hone]
    have hfin : ¬ finished owes node = true := by
      rw [finished, hnode, decide_eq_false hone]
      exact Bool.false_ne_true
    exact ⟨by rw [filterMap_cons_some hack, ← hkept],
      by rw [filter_cons_of_neg hfin, hdone]⟩

lemma Shot.Acks.skip (h : shot.Acks owes l) (hnode : owes node = false) :
    Shot.Acks { shot with kept := node :: shot.kept } owes (node :: l) := by
  obtain ⟨hkept, hdone⟩ := h
  have hne : ¬ owes node = true := by rw [hnode]; exact Bool.false_ne_true
  have hack : ack owes node = some node := by rw [ack, if_neg hne]
  have hfin : ¬ finished owes node = true := by
    rw [finished, hnode]
    exact Bool.false_ne_true
  exact ⟨by rw [filterMap_cons_some hack, ← hkept],
    by rw [filter_cons_of_neg hfin, hdone]⟩

lemma ack_eq_some {node' : ShootdownNode C} (h : ack owes node = some node') :
    node' = node ∧ owes node = false ∨
      node' = { node with bindingsToShoot := node.bindingsToShoot - 1 } ∧ owes node = true ∧
        node.bindingsToShoot ≠ 1 := by
  rw [ack] at h
  split_ifs at h with howes hone
  · cases h
    exact Or.inr ⟨rfl, howes, hone⟩
  · cases h
    exact Or.inl ⟨rfl, not_eq_true _ ▸ howes⟩

lemma exists_of_ack {node' : ShootdownNode C} (h : ack owes node = some node') :
    ∃ n, node' = { node with bindingsToShoot := n } := by
  rcases ack_eq_some h with ⟨rfl, -⟩ | ⟨rfl, -⟩
  · exact ⟨node'.bindingsToShoot, rfl⟩
  · exact ⟨node.bindingsToShoot - 1, rfl⟩

/-- Nodes go from a list, and the counters of others change. -/
def Shrinks (l' l : List (ShootdownNode C)) : Prop :=
  l'.length ≤ l.length ∧
    ∀ node' ∈ l', ∃ node ∈ l, ∃ n, node' = { node with bindingsToShoot := n }

lemma Shrinks.refl (l : List (ShootdownNode C)) : Shrinks l l :=
  ⟨le_rfl, fun node hnode => ⟨node, hnode, node.bindingsToShoot, rfl⟩⟩

lemma Shot.Acks.shrinks (h : shot.Acks owes l) : Shrinks shot.kept l := by
  rw [h.1]
  refine ⟨length_filterMap_le _ _, fun node' hnode' => ?_⟩
  obtain ⟨node, hnode, hack⟩ := mem_filterMap.mp hnode'
  exact ⟨node, hnode, exists_of_ack hack⟩

lemma Shot.Acks.length_toComplete (h : shot.Acks owes l) : shot.toComplete.length ≤ l.length := by
  have hlength := congrArg length h.2
  rw [ids, ids, length_map, length_map] at hlength
  exact hlength.trans_le (length_filter_le _ _)

/-- Nothing is owed to the nodes of a list. -/
lemma filterMap_ack_of_not_owes (h : ∀ node ∈ l, owes node = false) :
    l.filterMap (ack owes) = l ∧ l.filter (finished owes) = [] := by
  refine ⟨?_, filter_eq_nil_iff.mpr fun node hnode => ?_⟩
  · rw [filterMap_congr (g := some) fun node hnode => by rw [ack, h node hnode]; rfl,
      List.filterMap_some]
  · rw [finished, h node hnode]
    exact Bool.false_ne_true

lemma count_ids_cons (node : ShootdownNode C) (l : List (ShootdownNode C)) (id : ℕ) :
    (ids (node :: l)).count id = (ids l).count id + if node.id = id then 1 else 0 := by
  rw [ids, List.map_cons, count_cons, ← ids]
  simp

/-- Every node of the list is kept or completed. -/
lemma Shot.Acks.count (h : shot.Acks owes l) (id : ℕ) :
    (ids shot.kept).count id + (ids shot.toComplete).count id = (ids l).count id := by
  rw [h.1, h.2]
  clear h
  induction l with
  | nil => rfl
  | cons node l ih =>
    cases hack : ack owes node with
    | none =>
      rw [filterMap_cons_none hack, filter_cons_of_pos (ack_eq_none.mp hack), count_ids_cons,
        count_ids_cons]
      omega
    | some node' =>
      have hid : node'.id = node.id := by
        rcases ack_eq_some hack with ⟨rfl, -⟩ | ⟨rfl, -⟩ <;> rfl
      have hfin : ¬ finished owes node = true := by
        rw [← ack_eq_none, hack]
        exact nofun
      rw [filterMap_cons_some hack, filter_cons_of_neg hfin, count_ids_cons, count_ids_cons, hid]
      omega

lemma le_foldl_max (l : List (ShootdownNode C)) (a : ℕ) :
    a ≤ l.foldl (fun seq node => max seq node.sequence) a ∧
      (∀ node ∈ l, node.sequence ≤ l.foldl (fun seq node => max seq node.sequence) a) ∧
      ∀ b, a ≤ b → (∀ node ∈ l, node.sequence ≤ b) →
        l.foldl (fun seq node => max seq node.sequence) a ≤ b := by
  induction l generalizing a with
  | nil => exact ⟨le_rfl, (by intro node hnode; cases hnode), fun b hb _ => hb⟩
  | cons n l ih =>
    obtain ⟨hle, hmem, hmin⟩ := ih (max a n.sequence)
    refine ⟨(le_max_left _ _).trans hle, fun node hnode => ?_, fun b hb hl => ?_⟩
    · rcases mem_cons.mp hnode with rfl | hnode
      · exact (le_max_right _ _).trans hle
      · exact hmem node hnode
    · obtain ⟨hn, hl⟩ := forall_mem_cons.mp hl
      exact hmin b (max_le hb hn) hl

variable [DecidableEq C] {c : C}

lemma acks_shootLoop {a : ℕ} (hl : ∀ node ∈ l, a < node.sequence) :
    (shootLoop c l).Acks ((Standing.member a).owes c) l := by
  induction l with
  | nil => exact ⟨rfl, rfl⟩
  | cons node l ih =>
    obtain ⟨hnode, hl⟩ := forall_mem_cons.mp hl
    rw [shootLoop]
    split_ifs with hcpu
    · exact (ih hl).fetchSub (by simp [Standing.owes, hcpu, hnode])
    · exact (ih hl).skip (by simp [Standing.owes, not_not.mp hcpu])

lemma acks_drainLoop {a u : ℕ} (hl : ∀ node ∈ l, a < node.sequence)
    (hsorted : l.Pairwise fun a b => a.sequence < b.sequence) :
    (drainLoop c u l).Acks ((Standing.draining a u).owes c) l := by
  induction l with
  | nil => exact ⟨rfl, rfl⟩
  | cons node l ih =>
    obtain ⟨hnode, hl⟩ := forall_mem_cons.mp hl
    obtain ⟨hlt, hsorted⟩ := pairwise_cons.mp hsorted
    rw [drainLoop]
    split_ifs with hseq hcpu
    · have hnone : ∀ n ∈ node :: l, (Standing.draining a u).owes c n = false := by
        intro n hn
        have hgt : u < n.sequence := by
          rcases mem_cons.mp hn with rfl | hn
          · exact hseq
          · exact lt_trans hseq (hlt n hn)
        simp [Standing.owes, not_le.mpr hgt]
      obtain ⟨hkept, hdone⟩ := filterMap_ack_of_not_owes hnone
      exact ⟨hkept.symm, by rw [hdone]⟩
    · exact (ih hl hsorted).fetchSub (by simp [Standing.owes, hcpu, hnode, not_lt.mp hseq])
    · exact (ih hl hsorted).skip (by simp [Standing.owes, not_not.mp hcpu])

end

end ShootdownState

/-! ### Counting -/

section

variable {C : Type} [Fintype C] [DecidableEq C]

/-- Changing a function at one element changes its sum by the difference. -/
lemma sum_of_eq_off {f g : C → ℕ} (h : ∀ d, d ≠ c → f d = g d) :
    ∑ d, f d + g c = ∑ d, g d + f c := by
  have hrest : ∑ d ∈ univ.erase c, f d = ∑ d ∈ univ.erase c, g d :=
    sum_congr rfl fun d hd => h d (ne_of_mem_erase hd)
  rw [← add_sum_erase _ f (mem_univ c), ← add_sum_erase _ g (mem_univ c)]
  omega

/-- Changing a predicate at one element changes the number of elements by at most one. -/
lemma card_filter_of_eq_off {p q : C → Bool} (h : ∀ d, d ≠ c → p d = q d) :
    ((Finset.univ.filter (p ·)).card : ℤ) + (if q c then 1 else 0) =
      (Finset.univ.filter (q ·)).card + if p c then 1 else 0 := by
  rw [card_filter, card_filter]
  have hsum := sum_of_eq_off (f := fun d => if p d then 1 else 0)
    fun d hd => by rw [h d hd]
  exact_mod_cast hsum

/-- The number of CPUs that owe a node an acknowledgement. -/
def debtors (stand : C → Standing) (node : ShootdownNode C) : Finset C :=
  Finset.univ.filter fun c => (stand c).owes c node

def members (stand : C → Standing) : Finset C := Finset.univ.filter fun c => (stand c).isMember

/-- The state of a page table agrees with how the CPUs stand to it. -/
structure ShootdownState.Inv (st : ShootdownState C) (stand : C → Standing) : Prop where
  bindings : st.numBindings = (members stand).card
  sorted : st.queue.Pairwise fun a b => a.sequence < b.sequence
  bounded : ∀ node ∈ st.queue, node.sequence ≤ st.shootSequence
  already : ∀ c a, stand c = .member a → a ≤ st.shootSequence
  upTo : ∀ c a u, stand c = .draining a u → u ≤ st.shootSequence
  pending : ∀ node ∈ st.queue, 0 < node.bindingsToShoot
  outstanding : ∀ node ∈ st.queue, node.bindingsToShoot = (debtors stand node).card

variable {st : ShootdownState C} {stand : C → Standing} {c : C} {node : ShootdownNode C}
  {owes : ShootdownNode C → Bool} {shot : ShootdownState.Shot C}

lemma debtors_update (stand : C → Standing) (c : C) (y : Standing) (node : ShootdownNode C) :
    ((debtors (update stand c y) node).card : ℤ) =
      (debtors stand node).card + (if y.owes c node then 1 else 0) -
        if (stand c).owes c node then 1 else 0 := by
  have h := card_filter_of_eq_off (p := fun d => (update stand c y d).owes d node)
    (fun d hd => by rw [update_of_ne hd])
  simp only [update_self] at h
  rw [debtors, debtors]
  linarith

lemma members_update (stand : C → Standing) (c : C) (y : Standing) :
    ((members (update stand c y)).card : ℤ) =
      (members stand).card + (if y.isMember then 1 else 0) -
        if (stand c).isMember then 1 else 0 := by
  have h := card_filter_of_eq_off (p := fun d => (update stand c y d).isMember)
    (fun d hd => by rw [update_of_ne hd])
  simp only [update_self] at h
  rw [members, members]
  linarith

namespace ShootdownState

section

variable (h : st.Inv stand) {a : ℕ} {y : Standing}

include h

/-- A CPU that enters owes nothing. -/
lemma Inv.enter (hc : stand c = .out) :
    st.enter.Inv (update stand c (.member st.shootSequence)) where
  bindings := by
    rw [members_update, hc, ShootdownState.enter, h.bindings]
    simp [Standing.isMember]
  sorted := h.sorted
  bounded := h.bounded
  already := (forall_update_iff stand fun _ x => ∀ a, x = .member a → a ≤ _).mpr
    ⟨by rintro a ⟨⟩; exact le_rfl, fun d _ => h.already d⟩
  upTo := (forall_update_iff stand fun _ x => ∀ a u, x = .draining a u → u ≤ _).mpr
    ⟨nofun, fun d _ => h.upTo d⟩
  pending := h.pending
  outstanding node hnode := by
    have hle := h.bounded node hnode
    have hlt : ¬ st.shootSequence < node.sequence := not_lt.mpr hle
    rw [debtors_update, hc, h.outstanding node hnode]
    simp [Standing.owes, hlt]

/-- A CPU that exits owes what it owed before, but no node that is submitted later. -/
lemma Inv.exit (hc : stand c = .member a) :
    st.exit.Inv (update stand c (.draining a st.shootSequence)) where
  bindings := by
    rw [members_update, hc, ShootdownState.exit, h.bindings]
    simp [Standing.isMember]
  sorted := h.sorted
  bounded := h.bounded
  already := (forall_update_iff stand fun _ x => ∀ a, x = .member a → a ≤ _).mpr
    ⟨nofun, fun d _ => h.already d⟩
  upTo := (forall_update_iff stand fun _ x => ∀ a u, x = .draining a u → u ≤ _).mpr
    ⟨by rintro a u ⟨⟩; exact le_rfl, fun d _ => h.upTo d⟩
  pending := h.pending
  outstanding node hnode := by
    have hle := h.bounded node hnode
    rw [debtors_update, hc, h.outstanding node hnode]
    simp [Standing.owes, hle]

/-- The cursor splits a sorted queue at a sequence number. -/
lemma Inv.older_newer (a : ℕ) :
    st.queue = st.older a ++ st.newer a ∧ (∀ node ∈ st.older a, node.sequence ≤ a) ∧
      ∀ node ∈ st.newer a, a < node.sequence := by
  have hsplit : st.queue = st.older a ++ st.newer a := (rdropWhile_append_rtakeWhile).symm
  refine ⟨hsplit, fun node hnode => ?_, fun node hnode => ?_⟩
  · have hsorted := h.sorted
    rw [hsplit] at hsorted
    have hne : st.older a ≠ [] := ne_nil_of_mem hnode
    have hlast := rdropWhile_last_not (fun node : ShootdownNode C => decide (a < node.sequence))
      st.queue hne
    rw [decide_eq_true_eq, not_lt] at hlast
    have hsorted' := (pairwise_append.mp hsorted).1
    rw [← dropLast_append_getLast hne] at hnode hsorted'
    rcases mem_append.mp hnode with hnode | hnode
    · have hlt := (pairwise_append.mp hsorted').2.2 node hnode _ mem_cons_self
      exact hlt.le.trans hlast
    · rw [List.mem_singleton.mp hnode]
      exact hlast
  · have hp := mem_rtakeWhile_imp hnode
    exact of_decide_eq_true hp

/-- The section that acknowledges nodes, on the whole queue. -/
lemma Inv.acks (hshot : shot.Acks owes (st.newer a))
    (howes : ∀ node, owes node → a < node.sequence) :
    (Shot.mk (st.older a ++ shot.kept) shot.toComplete).Acks owes st.queue := by
  obtain ⟨hsplit, hold, -⟩ := h.older_newer a
  have hnone : ∀ node ∈ st.older a, owes node = false := by
    intro node hnode
    rw [← not_eq_true]
    exact fun howed => absurd (howes node howed) (not_lt.mpr (hold node hnode))
  obtain ⟨hkept, hdone⟩ := filterMap_ack_of_not_owes hnone
  refine ⟨?_, ?_⟩
  · rw [hsplit, filterMap_append, hkept, ← hshot.1]
  · rw [hsplit, filter_append, hdone, nil_append, ← hshot.2]

/-- A CPU acknowledges what it owes, and then owes nothing. -/
lemma Inv.ack (hshot : shot.Acks ((stand c).owes c) st.queue)
    (hy : ∀ node ∈ st.queue, y.owes c node = false) (hmember : y.isMember = (stand c).isMember)
    (halready : ∀ a, y = .member a → a ≤ st.shootSequence) (hupTo : ∀ a u, y ≠ .draining a u) :
    Inv { st with queue := shot.kept } (update stand c y) := by
  have hkept : ∀ node' ∈ shot.kept, ∃ node ∈ st.queue,
      ShootdownState.ack ((stand c).owes c) node = some node' := by
    intro node' hnode'
    rw [hshot.1] at hnode'
    exact mem_filterMap.mp hnode'
  constructor
  · rw [members_update, hmember, h.bindings]
    omega
  · rw [hshot.1]
    refine Pairwise.filterMap _ ?_ h.sorted
    intro a b hab a' ha' b' hb'
    obtain ⟨m, rfl⟩ := exists_of_ack ha'
    obtain ⟨n, rfl⟩ := exists_of_ack hb'
    exact hab
  · intro node' hnode'
    obtain ⟨node, hnode, n, rfl⟩ := hshot.shrinks.2 node' hnode'
    exact h.bounded node hnode
  · exact (forall_update_iff stand fun _ x => ∀ a, x = .member a → a ≤ _).mpr
      ⟨halready, fun d _ => h.already d⟩
  · exact (forall_update_iff stand fun _ x => ∀ a u, x = .draining a u → u ≤ _).mpr
      ⟨fun a u hy => absurd hy (hupTo a u), fun d _ => h.upTo d⟩
  · intro node' hnode'
    obtain ⟨node, hnode, hack⟩ := hkept node' hnode'
    have hpos := h.pending node hnode
    rcases ack_eq_some hack with ⟨rfl, -⟩ | ⟨rfl, -, hone⟩
    · exact hpos
    · simp only
      omega
  · intro node' hnode'
    obtain ⟨node, hnode, hack⟩ := hkept node' hnode'
    have hcount := debtors_update stand c y node
    rw [hy node hnode, ← h.outstanding node hnode] at hcount
    rcases ack_eq_some hack with ⟨rfl, howes⟩ | ⟨rfl, howes, -⟩
    · rw [hcount, howes]
      simp
    · -- the number of debtors does not depend on the counter of the node
      change node.bindingsToShoot - 1 = (debtors (update stand c y) node).card
      rw [hcount, howes]
      simp

/-- A node that is acknowledged for the last time has no debtors left. -/
lemma Inv.debtors_of_finished (hnode : node ∈ st.queue) (hy : y.owes c node = false)
    (hfin : finished ((stand c).owes c) node) : debtors (update stand c y) node = ∅ := by
  rw [finished, and_eq_true, decide_eq_true_eq] at hfin
  have hcount := debtors_update stand c y node
  rw [hy, hfin.1, ← h.outstanding node hnode, hfin.2] at hcount
  rw [← Finset.card_eq_zero]
  simpa using hcount

/-- A node that somebody else owes stays in the queue. -/
lemma Inv.exists_kept {d : C} (hshot : shot.Acks ((stand c).owes c) st.queue)
    (hnode : node ∈ st.queue) (hy : y.owes c node = false) (hdc : d ≠ c)
    (howes : (stand d).owes d node) :
    ∃ node' ∈ shot.kept, node'.id = node.id ∧ (stand d).owes d node' := by
  have hnot : ¬ finished ((stand c).owes c) node = true := by
    intro hfin
    have hempty := h.debtors_of_finished hnode hy hfin
    have hdebtor : d ∈ debtors (update stand c y) node := by
      rw [debtors, Finset.mem_filter, update_of_ne hdc]
      exact ⟨mem_univ d, howes⟩
    rw [hempty] at hdebtor
    exact absurd hdebtor (notMem_empty d)
  obtain ⟨node', hack⟩ := Option.ne_none_iff_exists'.mp (ack_eq_none.not.mpr hnot)
  have hmem : node' ∈ shot.kept := by
    rw [hshot.1]
    exact List.mem_filterMap.mpr ⟨node, hnode, hack⟩
  obtain ⟨n, rfl⟩ := exists_of_ack hack
  exact ⟨_, hmem, rfl, howes⟩

/-- `do_shootdown`, for a CPU that is bound. -/
lemma Inv.doShootdown (hc : stand c = .member a) :
    (st.doShootdown c a).1.Inv (update stand c (.member (st.doShootdown c a).2.2)) ∧
      Shot.Acks ⟨(st.doShootdown c a).1.queue, (st.doShootdown c a).2.1⟩ ((stand c).owes c)
        st.queue ∧
      ∀ node ∈ st.queue, node.sequence ≤ (st.doShootdown c a).2.2 := by
  obtain ⟨hsplit, hold, hnew⟩ := h.older_newer a
  obtain ⟨hle, hmem, hmin⟩ := le_foldl_max (st.newer a) a
  have hseq : ∀ node ∈ st.queue, node.sequence ≤ (st.doShootdown c a).2.2 := by
    rw [hsplit]
    exact forall_mem_append.mpr ⟨fun node hnode => (hold node hnode).trans hle, hmem⟩
  have hbound : (st.doShootdown c a).2.2 ≤ st.shootSequence := by
    refine hmin _ (h.already c a hc) fun node hnode => h.bounded node ?_
    rw [hsplit]
    exact mem_append_right _ hnode
  have hacks : Shot.Acks ⟨(st.doShootdown c a).1.queue, (st.doShootdown c a).2.1⟩
      ((stand c).owes c) st.queue := by
    rw [hc]
    refine h.acks (acks_shootLoop hnew) fun node howes => ?_
    simp only [Standing.owes, and_eq_true, decide_eq_true_eq] at howes
    exact howes.2
  refine ⟨h.ack hacks (fun node hnode => ?_) (by rw [hc]; rfl) ?_ nofun, hacks, hseq⟩
  · simp [Standing.owes, not_lt.mpr (hseq node hnode)]
  · intro b hb
    cases hb
    exact hbound

/-- `drain_shootdown`, for a CPU that has left. -/
lemma Inv.drainShootdown {u : ℕ} (hc : stand c = .draining a u) :
    (st.drainShootdown c a u).1.Inv (update stand c .out) ∧
      Shot.Acks ⟨(st.drainShootdown c a u).1.queue, (st.drainShootdown c a u).2⟩
        ((stand c).owes c) st.queue := by
  obtain ⟨hsplit, hold, hnew⟩ := h.older_newer a
  have hsorted : (st.newer a).Pairwise fun a b => a.sequence < b.sequence := by
    have hsorted := h.sorted
    rw [hsplit] at hsorted
    exact (pairwise_append.mp hsorted).2.1
  have hacks : Shot.Acks ⟨(st.drainShootdown c a u).1.queue, (st.drainShootdown c a u).2⟩
      ((stand c).owes c) st.queue := by
    rw [hc]
    refine h.acks (acks_drainLoop hnew hsorted) fun node howes => ?_
    simp only [Standing.owes, and_eq_true, decide_eq_true_eq] at howes
    exact howes.2.1
  refine ⟨h.ack hacks (fun node _ => ?_) (by rw [hc]; rfl) nofun nofun, hacks⟩
  simp [Standing.owes]

end

section

variable {id : ℕ} {address size : Usize} {localBindings : ℕ}

/-- A new node is owed by the CPUs that are bound, except the one that has submitted it. -/
lemma Inv.owes_node (h : st.Inv stand) {d : C} (hd : d ≠ c) :
    (stand d).owes d (st.node id address size c localBindings) = (stand d).isMember := by
  cases hstand : stand d with
  | out => simp [Standing.owes, Standing.isMember]
  | member a =>
    have hlt := lt_succ_of_le (h.already d a hstand)
    simp [Standing.owes, Standing.isMember, node, Ne.symm hd, hlt]
  | draining a u =>
    have hlt := lt_succ_of_le (h.upTo d a u hstand)
    simp [Standing.owes, Standing.isMember, node, not_le.mpr hlt]

lemma Inv.card_debtors_node (h : st.Inv stand) (id : ℕ) (address size : Usize)
    (hlocal : localBindings = if (stand c).isMember then 1 else 0) :
    ((debtors stand (st.node id address size c localBindings)).card : ℤ) =
      st.numBindings - localBindings := by
  have hcount := card_filter_of_eq_off
    (p := fun d => (stand d).owes d (st.node id address size c localBindings))
    fun d hd => h.owes_node hd
  have hself : (stand c).owes c (st.node id address size c localBindings) = false := by
    simp [Standing.owes, node]
  have hcast : (localBindings : ℤ) = if (stand c).isMember then 1 else 0 := by
    rw [hlocal]
    split_ifs <;> rfl
  rw [hself] at hcount
  rw [debtors, h.bindings, members, hcast, eq_sub_iff_add_eq]
  simpa using hcount

lemma Inv.push (h : st.Inv stand) (hlocal : localBindings = if (stand c).isMember then 1 else 0)
    (hne : (st.node id address size c localBindings).bindingsToShoot ≠ 0) :
    (st.push (st.node id address size c localBindings)).Inv stand := by
  have hdebtors := h.card_debtors_node id address size hlocal
  have hpos : 0 < (st.node id address size c localBindings).bindingsToShoot :=
    lt_of_le_of_ne (le_max_left _ _) (Ne.symm hne)
  have hunshot : (st.node id address size c localBindings).bindingsToShoot =
      st.numBindings - localBindings := by
    rcases max_choice 0 (st.numBindings - (localBindings : ℤ)) with hmax | hmax
    · exact absurd hmax hne
    · exact hmax
  constructor
  · exact h.bindings
  · refine List.pairwise_append.mpr ⟨h.sorted, pairwise_singleton _ _, fun a ha b hb => ?_⟩
    rw [List.mem_singleton.mp hb]
    exact lt_succ_of_le (h.bounded a ha)
  · refine forall_mem_append.mpr ⟨fun node hnode => ?_, forall_mem_singleton.mpr le_rfl⟩
    exact (h.bounded node hnode).trans (le_succ _)
  · exact fun d a hd => (h.already d a hd).trans (le_succ _)
  · exact fun d a u hd => (h.upTo d a u hd).trans (le_succ _)
  · exact forall_mem_append.mpr ⟨h.pending, forall_mem_singleton.mpr hpos⟩
  · refine forall_mem_append.mpr ⟨h.outstanding, forall_mem_singleton.mpr ?_⟩
    exact hunshot.trans hdebtors.symm

end

end ShootdownState

end

end Zinnia
