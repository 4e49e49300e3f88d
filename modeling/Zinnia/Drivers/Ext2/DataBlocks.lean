import Zinnia.Drivers.Ext2.Truncate

/-!
# The data blocks of an inode

A data block belongs to one logical block only, and what it holds does not matter for the tree.
-/

namespace Zinnia

open Radix List

namespace Ext2

section

variable {s s' : Super} {n d off off' : ℕ} {e : BitVec 32}

lemma mem_subLeaves_of_walk (hoff : off < s.ptrs ^ n) (hd : d ≠ 0)
    (h : s.walk n e.toNat off = .ok d) : d ∈ s.subLeaves n e := by
  induction n generalizing e off with
  | zero =>
    cases h
    have he : e ≠ 0 := fun he => hd (by rw [he]; rfl)
    rw [subLeaves_of_ne he]
    exact mem_singleton_self _
  | succ n ih =>
    rcases eq_or_ne e 0 with rfl | he
    · exact absurd (Except.ok.inj (walk_zero.symm.trans h)).symm hd
    rw [walk_succ (toNat_ne_zero he) hoff] at h
    split_ifs at h
    rw [subLeaves_of_ne he]
    exact mem_leaves_succ.mpr ⟨_, div_lt_ptrs hoff, ih (mod_lt_ptrs hoff) h⟩

/-- Different offsets lead to different data blocks. -/
lemma walk_injective (hnodup : (s.sub n e).Nodup) (hoff : off < s.ptrs ^ n)
    (hoff' : off' < s.ptrs ^ n) (hd : d ≠ 0) (h : s.walk n e.toNat off = .ok d)
    (h' : s.walk n e.toNat off' = .ok d) : off = off' := by
  induction n generalizing e off off' with
  | zero =>
    rw [pow_zero, Nat.lt_one_iff] at hoff hoff'
    rw [hoff, hoff']
  | succ n ih =>
    rcases eq_or_ne e 0 with rfl | he
    · exact absurd (Except.ok.inj (walk_zero.symm.trans h)).symm hd
    rw [walk_succ (toNat_ne_zero he) hoff] at h
    rw [walk_succ (toNat_ne_zero he) hoff'] at h'
    split_ifs at h h'
    rw [sub_of_ne he] at hnodup
    have hi := div_lt_ptrs hoff
    have hmem := subLeaves_subset_sub (mem_subLeaves_of_walk (mod_lt_ptrs hoff) hd h)
    have hmem' := subLeaves_subset_sub (mem_subLeaves_of_walk (mod_lt_ptrs hoff') hd h')
    have hdiv : off / s.ptrs ^ n = off' / s.ptrs ^ n := by
      by_contra hne
      exact disjoint_sub hnodup hi (div_lt_ptrs hoff') hne hmem hmem'
    rw [← hdiv] at h'
    have hmod := ih (nodup_sub hnodup hi) (mod_lt_ptrs hoff) (mod_lt_ptrs hoff') h h'
    rw [← Nat.div_add_mod off (s.ptrs ^ n), ← Nat.div_add_mod off' (s.ptrs ^ n), hdiv, hmod]

/-- What the data blocks hold does not matter. -/
lemma walk_congr_leaves (hnodup : (s.sub n e).Nodup) (hptrs : s'.ptrs = s.ptrs)
    (hunreadable : s'.unreadable = s.unreadable) (hoff : off < s.ptrs ^ n)
    (h : ∀ g ∈ s.sub n e, g ∉ s.subLeaves n e → s'.view g = s.view g) :
    s'.walk n e.toNat off = s.walk n e.toNat off := by
  induction n generalizing e off with
  | zero => rfl
  | succ n ih =>
    by_cases he : e = 0
    · rw [he]
      rfl
    have hi := div_lt_ptrs hoff
    rw [sub_of_ne he] at hnodup h
    rw [subLeaves_of_ne he] at h
    have hself := h _ self_mem_nodes (self_notMem_leaves hnodup)
    have hoff' : off < s'.ptrs ^ (n + 1) := by rwa [hptrs]
    rw [walk_succ (toNat_ne_zero he) hoff, walk_succ (toNat_ne_zero he) hoff', hunreadable, hptrs,
      hself]
    congr 1
    refine ih (nodup_sub hnodup hi) (mod_lt_ptrs hoff) fun g hg hleaf => ?_
    refine h g (mem_nodes_of_sub hi hg) fun hmem => hleaf ?_
    obtain ⟨j, hj, hmem⟩ := mem_leaves_succ.mp hmem
    by_cases hij : j = off / s.ptrs ^ n
    · rwa [hij] at hmem
    · exact absurd hg (disjoint_sub hnodup hj hi hij (subLeaves_subset_sub hmem))

end

section

variable {s s' : Super} {raw raw' : Inode} {lb lb' d : ℕ}

lemma mem_dataBlocks_of_resolveBlock (hd : d ≠ 0) (h : s.resolveBlock raw lb = .ok d) :
    d ∈ s.dataBlocks raw := by
  obtain ⟨slot, off, hoff, -, hwalk⟩ := resolveBlock_eq_ok h
  exact mem_flatMap.mpr ⟨slot, mem_finRange slot, mem_subLeaves_of_walk hoff hd hwalk⟩

/-- Different logical blocks are different blocks. -/
lemma resolveBlock_injective (hnodup : (s.inodeBlocks raw).Nodup) (hd : d ≠ 0)
    (h : s.resolveBlock raw lb = .ok d) (h' : s.resolveBlock raw lb' = .ok d) : lb = lb' := by
  obtain ⟨slot, off, hoff, rfl, hwalk⟩ := resolveBlock_eq_ok h
  obtain ⟨slot', off', hoff', rfl, hwalk'⟩ := resolveBlock_eq_ok h'
  have hmem := subLeaves_subset_sub (mem_subLeaves_of_walk hoff hd hwalk)
  have hmem' := subLeaves_subset_sub (mem_subLeaves_of_walk hoff' hd hwalk')
  have hslot : slot = slot' := by
    by_contra hne
    exact notMem_of_nodup_flatMap hnodup (mem_finRange _) (mem_finRange _) hne
      hmem hmem'
  subst hslot
  have hslotNodup := (nodup_flatMap.mp hnodup).1 slot (mem_finRange _)
  rw [walk_injective hslotNodup hoff hoff' hd hwalk hwalk']

/-- Only data blocks of the inode, and blocks of other inodes, are written. -/
structure DataWritten (s s' : Super) (raw raw' : Inode) : Prop where
  row : raw'.iBlock = raw.iBlock
  layout : SameLayout s s'
  nodup : (s.inodeBlocks raw).Nodup
  blocks : ∀ g ∈ s.inodeBlocks raw, g ∉ s.dataBlocks raw → s'.blocks g = s.blocks g

namespace DataWritten

variable (h : DataWritten s s' raw raw')

include h

lemma view_of_sub {slot : Fin nBlocks} {g : ℕ} (hg : g ∈ s.sub (slotLevel slot) (raw.iBlock slot))
    (hleaf : g ∉ s.subLeaves (slotLevel slot) (raw.iBlock slot)) : s'.view g = s.view g := by
  refine view_congr (h.blocks g (mem_inodeBlocks hg) fun hmem => hleaf ?_)
  obtain ⟨slot', -, hmem⟩ := mem_flatMap.mp hmem
  by_cases hne : slot' = slot
  · rwa [hne] at hmem
  · exact absurd hg (notMem_of_nodup_flatMap h.nodup (mem_finRange _)
      (mem_finRange _) hne (subLeaves_subset_sub hmem))

lemma nodup_slot (slot : Fin nBlocks) : (s.sub (slotLevel slot) (raw.iBlock slot)).Nodup :=
  (nodup_flatMap.mp h.nodup).1 slot (mem_finRange _)

lemma resolveBlock (lb : ℕ) : s'.resolveBlock raw' lb = s.resolveBlock raw lb := by
  refine resolveBlock_congr_walk h.layout.ptrs fun slot off hoff _ => ?_
  rw [h.row]
  exact walk_congr_leaves (h.nodup_slot slot) h.layout.ptrs h.layout.unreadable hoff
    fun g hg hleaf => h.view_of_sub hg hleaf

lemma inodeBlocks : s'.inodeBlocks raw' = s.inodeBlocks raw := by
  refine flatMap_congr fun slot _ => ?_
  rw [Super.sub, h.layout.ptrs, h.row]
  exact (sub_congr_leaves (h.nodup_slot slot) fun g hg hleaf => h.view_of_sub hg hleaf).1

end DataWritten

end

end Ext2

end Zinnia
