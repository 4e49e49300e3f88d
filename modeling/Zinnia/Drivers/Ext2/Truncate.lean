import Zinnia.Drivers.Ext2.Tree

/-!
# Truncation of an inode

`truncate_blocks` frees the data blocks from a logical block on, and the indirect blocks that only
lead to them.
-/

namespace Zinnia

open Comp Radix Function List Nat

namespace Ext2

/-! ### Freed blocks -/

/-- The filesystem after `free_block`. -/
def Super.freed (s : Super) (block : ℕ) : Super :=
  let relative := (BitVec.ofNat 64 block - s.raw.sFirstDataBlock.setWidth 64).toNat
  s.release .blocks (relative / s.blocksPerGroup.toNat) (relative % s.blocksPerGroup.toNat)

/-- The filesystem after blocks are freed one after the other. -/
def Super.releaseAll (s : Super) (freed : List ℕ) : Super := freed.foldl Super.freed s

/-- The blocks `freed` are freed one after the other, and blocks may be written. -/
def Shrunk (s s' : Super) (freed : List ℕ) : Prop :=
  s' = { s.releaseAll freed with blocks := s'.blocks }

section

variable {s s' s'' : Super} {freed freed' : List ℕ} {n : ℕ}

lemma releaseAll_blocks (s : Super) (freed : List ℕ) (blocks : ℕ → Block) :
    Super.releaseAll { s with blocks } freed = { s.releaseAll freed with blocks } := by
  induction freed generalizing s with
  | nil => rfl
  | cons n freed ih => exact ih (s.freed n)

lemma sameLayout_freed (s : Super) (n : ℕ) : SameLayout s (s.freed n) :=
  ⟨rfl, rfl, Super.bitmapBlock_release, rfl, rfl, rfl, rfl, rfl, rfl⟩

lemma sameLayout_releaseAll (s : Super) (freed : List ℕ) : SameLayout s (s.releaseAll freed) :=
  foldlRecOn (motive := SameLayout s) freed _ (.refl s) fun t h n _ =>
    h.trans (sameLayout_freed t n)

lemma freed_eq (hn : s.InRange .blocks n) : s.freed n = s.releaseNumber .blocks n := by
  rw [Super.freed, hn.relative_eq]
  rfl

lemma used_freed (hn : s.InRange .blocks n) {n' : ℕ} :
    (s.freed n).Used .blocks n' ↔ s.Used .blocks n' ∧ n' ≠ n := by
  rw [Super.Used, Super.Used, (sameLayout_freed s n).inRange_iff, and_assoc]
  refine and_congr_right fun hrange => ?_
  rw [freed_eq hn, Super.isMarked_releaseNumber hn hrange]
  split_ifs with heq
  · exact iff_of_false (by rintro ⟨⟩) fun hne => hne.2 heq.2
  · exact ⟨fun hmarked => ⟨hmarked, fun hne => heq ⟨rfl, hne⟩⟩, And.left⟩

lemma used_releaseAll (hrange : ∀ n ∈ freed, s.InRange .blocks n) :
    (s.releaseAll freed).Used .blocks n ↔ s.Used .blocks n ∧ n ∉ freed := by
  induction freed generalizing s with
  | nil => exact ⟨fun h => ⟨h, not_mem_nil⟩, And.left⟩
  | cons m freed ih =>
    have hm := hrange m mem_cons_self
    have hfreed := ih fun n hn => (sameLayout_freed s m).inRange_iff.mpr
      (hrange n (mem_cons_of_mem _ hn))
    rw [used_freed hm, and_assoc, ← not_or, ← mem_cons] at hfreed
    exact hfreed

lemma agree_releaseAll (hagree : s.Agree) (hused : ∀ n ∈ freed, s.Used .blocks n)
    (hnodup : freed.Nodup) (hfits : ∀ g, s.groupLen .blocks g < 2 ^ 16) :
    (s.releaseAll freed).Agree := by
  induction freed generalizing s with
  | nil => exact hagree
  | cons m freed ih =>
    obtain ⟨hm, hnodup⟩ := nodup_cons.mp hnodup
    have hmused := hused m mem_cons_self
    have hreleased := hagree.release hmused.1.2 hmused.2 (hfits _)
    refine ih (freed_eq hmused.1 ▸ hreleased) (fun n hn => ?_) hnodup hfits
    rw [used_freed hmused.1]
    refine ⟨hused n (mem_cons_of_mem _ hn), ?_⟩
    rintro rfl
    exact hm hn

namespace Shrunk

lemma refl (s : Super) : Shrunk s s [] := rfl

section

variable (h : Shrunk s s' freed)

include h

lemma layout : SameLayout s s' := by
  rw [h]
  exact (sameLayout_releaseAll s freed).trans ⟨rfl, rfl, rfl, rfl, rfl, rfl, rfl, rfl, rfl⟩

lemma used (hrange : ∀ n ∈ freed, s.InRange .blocks n) :
    s'.Used .blocks n ↔ s.Used .blocks n ∧ n ∉ freed := by
  rw [h]
  exact used_releaseAll hrange

lemma agree (hagree : s.Agree) (hused : ∀ n ∈ freed, s.Used .blocks n) (hnodup : freed.Nodup)
    (hfits : ∀ g, s.groupLen .blocks g < 2 ^ 16) : s'.Agree := by
  have hreleased := agree_releaseAll hagree hused hnodup hfits
  rw [h]
  exact ⟨⟨hreleased.group, hreleased.total⟩, hreleased.pos, hreleased.dvd, hreleased.bitmaps⟩

lemma trans (h' : Shrunk s' s'' freed') : Shrunk s s'' (freed ++ freed') := by
  rw [Shrunk, Super.releaseAll, foldl_append]
  rw [Shrunk, h, releaseAll_blocks] at h'
  exact h'

lemma write (blocks : ℕ → Block) : Shrunk s { s' with blocks } freed := by
  rw [Shrunk]
  rw [h]

end

end Shrunk

lemma freeBlock_spec (hapart : s.Apart) {u : Unit} (h : (freeBlock n).run s = .ok u s') :
    s' = s.freed n := by
  rw [freeBlock, run_get_bind] at h
  split_ifs at h
  · cases h
  · exact (freeIn_eq_ok hapart h).2.2

end

/-! ### Cut trees -/

/-- The tree below a pointer ends before the logical block `keep` now, and loses the blocks
`gone`. -/
structure Pruned (s s' : Super) (keep n base : ℕ) (e e' : BitVec 32) (gone : List ℕ) : Prop where
  perm : (s'.sub n e' ++ gone).Perm (s.sub n e)
  data : ∀ g ∈ s.subLeaves n e, s'.blocks g = s.blocks g
  zero : keep ≤ base → 0 < s.ptrs → e' = 0
  walk_of_lt : ∀ off < s.ptrs ^ n, base + off < keep →
    s'.walk n e'.toNat off = s.walk n e.toNat off
  walk_of_le : ∀ off < s.ptrs ^ n, keep ≤ base + off → s'.walk n e'.toNat off = .ok 0

/-- The tree below a pointer is cut. -/
structure Trimmed (s s' : Super) (keep n base : ℕ) (e e' : BitVec 32) (gone : List ℕ) : Prop where
  shrunk : Shrunk s s' gone
  pruned : Pruned s s' keep n base e e' gone
  frame : ∀ g ∉ s.sub n e, s'.blocks g = s.blocks g

/-- The blocks below a pointer are not shared. -/
structure Owned (s : Super) (n : ℕ) (e : BitVec 32) : Prop where
  apart : s.Apart
  nodup : (s.sub n e).Nodup

section

variable {s s₀ s₁ s' : Super} {keep n base : ℕ} {e e' : BitVec 32} {gone : List ℕ}

/-- What other blocks hold does not matter. -/
lemma Pruned.congr (h : Pruned s s' keep n base e e' gone) (hs : SameLayout s₀ s)
    (hs' : SameLayout s s') (hs₁ : SameLayout s' s₁)
    (hblocks : ∀ g ∈ s₀.sub n e, s.blocks g = s₀.blocks g)
    (hblocks' : ∀ g ∈ s₀.sub n e, s₁.blocks g = s'.blocks g) :
    Pruned s₀ s₁ keep n base e e' gone := by
  have hview : ∀ g ∈ s₀.sub n e, s.view g = s₀.view g := fun g hg => view_congr (hblocks g hg)
  have hsub : s.sub n e = s₀.sub n e := by
    rw [Super.sub, hs.ptrs]
    exact sub_congr hview
  have hleaves : s.subLeaves n e = s₀.subLeaves n e := by
    rw [Super.subLeaves, hs.ptrs]
    exact subLeaves_congr hview
  have hmem : ∀ g ∈ s'.sub n e', g ∈ s₀.sub n e := fun g hg =>
    hsub ▸ h.perm.subset (mem_append_left _ hg)
  have hview' : ∀ g ∈ s'.sub n e', s₁.view g = s'.view g := fun g hg =>
    view_congr (hblocks' g (hmem g hg))
  have hsub' : s₁.sub n e' = s'.sub n e' := by
    rw [Super.sub, hs₁.ptrs]
    exact sub_congr hview'
  have hptrs : s'.ptrs = s₀.ptrs := hs'.ptrs.trans hs.ptrs
  have hwalk : ∀ off < s₀.ptrs ^ n, s₁.walk n e'.toNat off = s'.walk n e'.toNat off :=
    fun off hoff => walk_congr hs₁.ptrs hs₁.unreadable (hptrs ▸ hoff) hview'
  refine ⟨?_, fun g hg => ?_, fun hkeep hpos => h.zero hkeep (hs.ptrs ▸ hpos),
    fun off hoff hlt => ?_, fun off hoff hle => ?_⟩
  · rw [hsub', ← hsub]
    exact h.perm
  · have hg' := subLeaves_subset_sub hg
    rw [hblocks' g hg', h.data g (hleaves ▸ hg), hblocks g hg']
  · rw [hwalk off hoff, h.walk_of_lt off (hs.ptrs ▸ hoff) hlt]
    exact walk_congr hs.ptrs hs.unreadable hoff hview
  · rw [hwalk off hoff, h.walk_of_le off (hs.ptrs ▸ hoff) hle]

namespace Trimmed

/-- No tree at all. -/
lemma none : Trimmed s s keep n base 0 0 [] := by
  refine ⟨.refl s, ⟨?_, fun _ _ => rfl, fun _ _ => rfl, fun _ _ _ => rfl, fun _ _ _ => walk_zero⟩,
    fun _ _ => rfl⟩
  rw [append_nil]

/-- The whole tree is kept. -/
lemma kept (h : base + s.ptrs ^ n ≤ keep) : Trimmed s s keep n base e e [] := by
  refine ⟨.refl s, ⟨?_, fun _ _ => rfl, fun hkeep hpos => ?_, fun _ _ _ => rfl,
    fun off hoff hle => ?_⟩, fun _ _ => rfl⟩
  · rw [append_nil]
  · have := Nat.pow_pos (n := n) hpos
    omega
  · omega

/-- A data block is freed. -/
lemma leaf (hkeep : keep ≤ base) (he : e ≠ 0) :
    Trimmed s (s.freed e.toNat) keep 0 base e 0 [e.toNat] := by
  have hsub : s.sub 0 e = [e.toNat] := sub_of_ne he
  refine ⟨rfl, ⟨?_, fun _ _ => rfl, fun _ _ => rfl, fun off hoff hlt => ?_, fun _ _ _ => rfl⟩,
    fun _ _ => rfl⟩
  · rw [hsub]
    rfl
  · omega

end Trimmed

end

/-! ### Rows of pointers -/

/-- The trees below the pointers `done` of a row are cut. -/
structure RowTrimmed {ι : Type} (s s' : Super) (keep : ℕ) (level base : ι → ℕ)
    (row row' : ι → BitVec 32) (done : List ι) (gone : ι → List ℕ) : Prop where
  shrunk : Shrunk s s' (done.flatMap gone)
  pruned : ∀ i ∈ done, Pruned s s' keep (level i) (base i) (row i) (row' i) (gone i)
  rest : ∀ i ∉ done, row' i = row i
  frame : ∀ g, (∀ i ∈ done, g ∉ s.sub (level i) (row i)) → s'.blocks g = s.blocks g

/-- The blocks below a row of pointers are not shared. -/
structure RowOwned {ι : Type} (s : Super) (level : ι → ℕ) (row : ι → BitVec 32) (l : List ι) :
    Prop where
  apart : s.Apart
  nodup : (l.flatMap fun i => s.sub (level i) (row i)).Nodup

section

variable {ι : Type} {s s' s'' : Super} {keep : ℕ} {level base : ι → ℕ}
  {row row' row'' : ι → BitVec 32}
  {done l : List ι} {gone : ι → List ℕ} {i : ι}

lemma flatMap_update [DecidableEq ι] (hi : i ∉ done) (freed : List ℕ) :
    (done ++ [i]).flatMap (update gone i freed) = done.flatMap gone ++ freed := by
  have hsame : ∀ j ∈ done, update gone i freed j = gone j := by
    refine fun j hj => update_of_ne ?_ _ _
    rintro rfl
    exact hi hj
  rw [flatMap_append, flatMap_singleton, update_self, flatMap_congr hsame]

lemma RowTrimmed.nil : RowTrimmed s s keep level base row row [] gone :=
  ⟨.refl s, by simp, fun _ _ => rfl, fun _ _ => rfl⟩

lemma RowOwned.notMem (h : RowOwned s level row l) (hi : i ∈ l) {j : ι} (hj : j ∈ l) (hij : i ≠ j)
    {g : ℕ} (hg : g ∈ s.sub (level i) (row i)) : g ∉ s.sub (level j) (row j) :=
  notMem_of_nodup_flatMap h.nodup hi hj hij hg

namespace RowTrimmed

variable (h : RowTrimmed s s' keep level base row row' done gone) {g : ℕ}

include h

variable (howned : RowOwned s level row l) (hdone : ∀ j ∈ done, j ∈ l) (hi : i ∈ l)
  (hidone : i ∉ done)

include howned hdone hi hidone

/-- The tree below the next pointer is still as it was. -/
lemma frame_next (hg : g ∈ s.sub (level i) (row i)) : s'.blocks g = s.blocks g := by
  refine h.frame g fun j hj => howned.notMem hi (hdone j hj) ?_ hg
  rintro rfl
  exact hidone hj

lemma sub_next : s'.sub (level i) (row i) = s.sub (level i) (row i) := by
  rw [Super.sub, h.shrunk.layout.ptrs]
  exact sub_congr fun g hg => view_congr (h.frame_next howned hdone hi hidone hg)

lemma owned_next : Owned s' (level i) (row i) := by
  refine ⟨h.shrunk.layout.apart howned.apart, ?_⟩
  rw [h.sub_next howned hdone hi hidone]
  exact (nodup_flatMap.mp howned.nodup).1 i hi

/-- The tree below one more pointer is cut. -/
lemma step [DecidableEq ι] {e' : BitVec 32} {freed : List ℕ}
    (htrim : Trimmed s' s'' keep (level i) (base i) (row i) e' freed) (hself : row'' i = e')
    (hothers : ∀ j ≠ i, row'' j = row' j) :
    RowTrimmed s s'' keep level base row row'' (done ++ [i]) (update gone i freed) := by
  have hsub := h.sub_next howned hdone hi hidone
  have hne : ∀ j ∈ done, j ≠ i := by
    rintro j hj rfl
    exact hidone hj
  refine ⟨?_, fun j hj => ?_, fun j hj => ?_, fun g hg => ?_⟩
  · rw [flatMap_update hidone]
    exact h.shrunk.trans htrim.shrunk
  · rcases mem_append.mp hj with hj | hj
    · rw [hothers j (hne j hj), update_of_ne (hne j hj)]
      refine (h.pruned j hj).congr (.refl s) h.shrunk.layout htrim.shrunk.layout (fun _ _ => rfl)
        fun g hg => htrim.frame g ?_
      rw [hsub]
      exact howned.notMem (hdone j hj) hi (hne j hj) hg
    · obtain rfl := mem_singleton.mp hj
      rw [hself, update_self]
      exact htrim.pruned.congr h.shrunk.layout htrim.shrunk.layout (.refl s'')
        (fun g hg => h.frame_next howned hdone hi hidone hg) fun _ _ => rfl
  · rw [mem_append, mem_singleton, not_or] at hj
    rw [hothers j hj.2, h.rest j hj.1]
  · rw [htrim.frame g, h.frame g fun j hj => hg j (mem_append_left _ hj)]
    rw [hsub]
    exact hg i (mem_append_right _ (mem_singleton_self i))

end RowTrimmed

end

section

variable {s s₁ s₂ : Super} {keep n base : ℕ} {bases : ℕ → ℕ} {e : BitVec 32} {row' : ℕ → BitVec 32}
  {gone : ℕ → List ℕ}

lemma sub_succ (he : e ≠ 0) : s.sub (n + 1) e =
    (List.range s.ptrs).flatMap (fun i => s.sub n (s.view e.toNat i)) ++ [e.toNat] :=
  (sub_of_ne he).trans nodes_succ

lemma Owned.row (h : Owned s (n + 1) e) (he : e ≠ 0) :
    RowOwned s (fun _ => n) (s.view e.toNat) (List.range s.ptrs) := by
  have hnodup := h.nodup
  rw [sub_succ he] at hnodup
  exact ⟨h.apart, (nodup_append.mp hnodup).1⟩

/-- The block itself is not among the blocks below it. -/
lemma RowTrimmed.frame_parent (he : e ≠ 0) (howned : Owned s (n + 1) e)
    (h : RowTrimmed s s₁ keep (fun _ => n) bases (s.view e.toNat) row' (List.range s.ptrs) gone) :
    s₁.blocks e.toNat = s.blocks e.toNat := by
  have hnodup := howned.nodup
  rw [sub_of_ne he] at hnodup
  exact h.frame _ fun i hi => notMem_sub hnodup (mem_range.mp hi)

/-- All trees below the pointers of a block are cut. -/
structure Below (s s₁ s₂ : Super) (keep n base : ℕ) (e : BitVec 32) (row' : ℕ → BitVec 32)
    (gone : ℕ → List ℕ) : Prop where
  ne : e ≠ 0
  owned : Owned s (n + 1) e
  row : RowTrimmed s s₁ keep (fun _ => n) (fun i => base + i * s.ptrs ^ n) (s.view e.toNat) row'
    (List.range s.ptrs) gone
  layout : SameLayout s₁ s₂
  blocks : ∀ g ≠ e.toNat, s₂.blocks g = s₁.blocks g

namespace Below

variable (h : Below s s₁ s₂ keep n base e row' gone) {g i : ℕ}

include h

lemma nodup : (s.nodes (n + 1) e.toNat).Nodup := sub_of_ne h.ne ▸ h.owned.nodup

/-- The entries are also cut in the last state. -/
lemma pruned (hi : i < s.ptrs) :
    Pruned s s₂ keep n (base + i * s.ptrs ^ n) (s.view e.toNat i) (row' i) (gone i) :=
  (h.row.pruned i (mem_range.mpr hi)).congr (.refl s) h.row.shrunk.layout h.layout
    (fun _ _ => rfl) fun _ hg => h.blocks _ fun heq => notMem_sub h.nodup hi (heq ▸ hg)

lemma data (hg : g ∈ s.subLeaves (n + 1) e) : s₂.blocks g = s.blocks g := by
  rw [subLeaves_of_ne h.ne] at hg
  obtain ⟨i, hi, hg⟩ := mem_leaves_succ.mp hg
  exact (h.pruned hi).data g hg

lemma frame (hg : g ∉ s.sub (n + 1) e) : s₂.blocks g = s.blocks g := by
  rw [sub_of_ne h.ne] at hg
  have hne : g ≠ e.toNat := by
    rintro rfl
    exact hg self_mem_nodes
  rw [h.blocks g hne]
  refine h.row.frame g fun i hi hmem => hg ?_
  exact mem_nodes_of_sub (mem_range.mp hi) hmem

/-- All the trees, with what they have lost. -/
lemma perm : ((List.range s.ptrs).flatMap (fun i => s₂.sub n (row' i)) ++
    (List.range s.ptrs).flatMap gone).Perm
      ((List.range s.ptrs).flatMap fun i => s.sub n (s.view e.toNat i)) :=
  (flatMap_append_perm _ _ _).trans
    (Perm.flatMap_left _ fun _ hi => (h.pruned (mem_range.mp hi)).perm)

/-- The block is freed as well. -/
lemma dropped (hkeep : keep ≤ base) (hshrunk : Shrunk s₁ s₂ [e.toNat]) :
    Trimmed s s₂ keep (n + 1) base e 0 ((List.range s.ptrs).flatMap gone ++ [e.toNat]) := by
  have hzero : ∀ i < s.ptrs, row' i = 0 := fun i hi =>
    (h.pruned hi).zero (le_trans hkeep (le_add_right _ _)) (zero_lt_of_lt hi)
  have hperm := h.perm
  rw [flatMap_eq_nil_iff.mpr fun i hi => ?_] at hperm
  · refine ⟨h.row.shrunk.trans hshrunk, ⟨?_, fun g hg => h.data hg, fun _ _ => rfl,
      fun off hoff hlt => ?_, fun _ _ _ => walk_zero⟩, fun g hg => h.frame hg⟩
    · rw [sub_succ h.ne, sub_none]
      exact hperm.append_right _
    · omega
  · rw [hzero i (mem_range.mp hi)]
    exact sub_none

/-- The block is kept, with the new row. -/
lemma cut (hkeep : base < keep) (hreadable : s.unreadable (.block e.toNat) = false)
    (hshrunk : Shrunk s₁ s₂ []) (hview : ∀ i < s.ptrs, s₂.view e.toNat i = row' i) :
    Trimmed s s₂ keep (n + 1) base e e ((List.range s.ptrs).flatMap gone) := by
  have hlayout : SameLayout s s₂ := h.row.shrunk.layout.trans h.layout
  have hne : e.toNat ≠ 0 := fun heq => h.ne (BitVec.eq_of_toNat_eq heq)
  have hwalk : ∀ off < s.ptrs ^ (n + 1), s₂.walk (n + 1) e.toNat off =
      s₂.walk n (row' (off / s.ptrs ^ n)).toNat (off % s.ptrs ^ n) := by
    intro off hoff
    rw [walk_succ hne (hlayout.ptrs.symm ▸ hoff), hlayout.unreadable, hreadable, hlayout.ptrs,
      hview _ (div_lt_ptrs hoff)]
    rfl
  have hdigits : ∀ off, base + off / s.ptrs ^ n * s.ptrs ^ n + off % s.ptrs ^ n = base + off := by
    intro off
    rw [add_assoc, div_add_mod']
  refine ⟨?_, ⟨?_, fun g hg => h.data hg, fun hle => absurd hkeep (not_lt.mpr hle),
    fun off hoff hlt => ?_, fun off hoff hle => ?_⟩, fun g hg => h.frame hg⟩
  · have htrans := h.row.shrunk.trans hshrunk
    rwa [append_nil] at htrans
  · rw [sub_succ h.ne, sub_succ h.ne, hlayout.ptrs,
      flatMap_congr fun i hi => by rw [hview i (mem_range.mp hi)],
      append_assoc]
    exact (perm_append_comm.append_left _).trans (by
      rw [← append_assoc]
      exact h.perm.append_right _)
  · rw [hwalk off hoff, walk_succ hne hoff, hreadable]
    exact (h.pruned (div_lt_ptrs hoff)).walk_of_lt _ (mod_lt_ptrs hoff) (hdigits off ▸ hlt)
  · rw [hwalk off hoff]
    exact (h.pruned (div_lt_ptrs hoff)).walk_of_le _ (mod_lt_ptrs hoff) (hdigits off ▸ hle)

end Below

end

/-! ### The functions -/

/-- The count of freed blocks, as the code has it. -/
def blockCount (freed : List ℕ) : BitVec 32 := BitVec.ofNat 32 freed.length

lemma blockCount_append (freed freed' : List ℕ) :
    blockCount (freed ++ freed') = blockCount freed + blockCount freed' := by
  rw [blockCount, length_append, BitVec.ofNat_add]
  rfl

section

variable {s s' : Super} {keep n base : ℕ} {e freed : BitVec 32}

/-- An index of a loop that was not met before. -/
lemma notMem_done {ι : Type} {l done rest : List ι} {i : ι} (hl : l.Nodup)
    (h : done ++ i :: rest = l) :
    (∀ j ∈ done, j ∈ l) ∧ i ∈ l ∧ i ∉ done := by
  subst h
  refine ⟨fun j hj => mem_append_left _ hj, by simp, fun hi => ?_⟩
  exact (nodup_append.mp hl).2.2 i hi i mem_cons_self rfl

lemma toNat_ne_zero (he : e ≠ 0) : e.toNat ≠ 0 := fun heq => he (BitVec.eq_of_toNat_eq heq)

lemma readBlock_eq_ok {block : ℕ} {buf : Block} (h : s.readBlock block = .ok buf) :
    s.unreadable (.block block) = false ∧ buf = s.blocks block := by
  rw [Super.readBlock] at h
  split_ifs at h with hunreadable
  exact ⟨Bool.not_eq_true _ ▸ hunreadable, (Except.ok.inj h).symm⟩

lemma freeSubtree_spec (howned : Owned s n e) (hkeep : keep ≤ base)
    (hrun : (freeSubtree n e.toNat).run s = .ok freed s') :
    ∃ gone, Trimmed s s' keep n base e 0 gone ∧ freed = blockCount gone := by
  induction n generalizing s s' e base freed with
  | zero =>
    rw [freeSubtree] at hrun
    by_cases he : e = 0
    · subst he
      cases hrun
      exact ⟨[], .none, rfl⟩
    rw [if_neg (toNat_ne_zero he)] at hrun
    obtain ⟨u, hfree, ⟨⟩⟩ := run_bind_pure_eq_ok.mp hrun
    obtain rfl := freeBlock_spec howned.apart hfree
    exact ⟨_, .leaf hkeep he, rfl⟩
  | succ n ih =>
    rw [freeSubtree] at hrun
    by_cases he : e = 0
    · subst he
      cases hrun
      exact ⟨[], .none, rfl⟩
    rw [if_neg (toNat_ne_zero he)] at hrun
    obtain ⟨buf, hread, hrest⟩ := run_reading_bind_eq_ok.mp hrun
    obtain ⟨-, rfl⟩ := readBlock_eq_ok hread
    rw [run_get_bind] at hrest
    obtain ⟨count, s₂, hloop, hrest⟩ := run_bind_eq_ok.mp hrest
    obtain ⟨u, hfree, ⟨⟩⟩ := run_bind_pure_eq_ok.mp hrest
    -- the loop frees the trees of the pointers one after the other
    have hinv := foldlM_induct
      (I := fun done count s₀ => ∃ row' gone, RowTrimmed s s₀ keep (fun _ => n)
        (fun i => base + i * s.ptrs ^ n) (s.view e.toNat) row' done gone ∧
          count = blockCount (done.flatMap gone)) ⟨_, fun _ => [], .nil, rfl⟩ ?_ hloop
    · obtain ⟨row', gone, hrow, rfl⟩ := hinv
      have hlayout := hrow.shrunk.layout
      obtain rfl := freeBlock_spec (hlayout.apart howned.apart) hfree
      have hbelow : Below s s₂ (s₂.freed e.toNat) keep n base e row' gone :=
        ⟨he, howned, hrow, sameLayout_freed _ _, fun _ _ => rfl⟩
      refine ⟨_, hbelow.dropped hkeep rfl, ?_⟩
      rw [blockCount_append]
      rfl
    · rintro done i rest count s₃ count' s₄ hl ⟨row', gone, hrow, rfl⟩ hstep
      obtain ⟨hdone, hi, hidone⟩ := notMem_done nodup_range hl
      have hrowOwned := howned.row he
      obtain ⟨k, hsub, ⟨⟩⟩ := run_bind_pure_eq_ok.mp hstep
      have hkeep' : keep ≤ base + i * s.ptrs ^ n := le_trans hkeep (le_add_right _ _)
      obtain ⟨freed, htrim, rfl⟩ := ih (hrow.owned_next hrowOwned hdone hi hidone) hkeep' hsub
      refine ⟨update row' i 0, _, hrow.step hrowOwned hdone hi hidone htrim
        (update_self _ _ _) fun j hj => update_of_ne hj _ _, ?_⟩
      rw [flatMap_update hidone, blockCount_append]

/-- One round of the loop of `truncate_indirect`. -/
lemma truncateEntry_spec {i : ℕ} {cut cut' : Cut} (howned : Owned s n (ptr cut.buf i))
    (ih : ∀ {e' freed s'}, 0 < n →
      (truncateIndirect keep n (ptr cut.buf i) base).run s = .ok (e', freed) s' →
      ∃ gone, Trimmed s s' keep n base (ptr cut.buf i) e' gone ∧ freed = blockCount gone)
    (hrun : EStateM.run (if ptr cut.buf i = 0 then pure cut
      else if keep ≤ base then do
        let k ← freeSubtree n (ptr cut.buf i).toNat
        pure { buf := setPtr cut.buf i 0, freed := cut.freed + k, dirty := true }
      else if 0 < n then do
        let result ← truncateIndirect keep n (ptr cut.buf i) base
        if result.1 ≠ ptr cut.buf i then
          pure { buf := setPtr cut.buf i result.1, freed := cut.freed + result.2, dirty := true }
        else pure { cut with freed := cut.freed + result.2 }
      else pure cut) s = .ok cut' s') :
    ∃ e' gone, Trimmed s s' keep n base (ptr cut.buf i) e' gone ∧
      (∀ j, ptr cut'.buf j = if j = i then e' else ptr cut.buf j) ∧
      cut'.freed = cut.freed + blockCount gone ∧
      (cut'.dirty = false → cut.dirty = false ∧ cut'.buf = cut.buf) := by
  have hsame : ∀ j, ptr cut.buf j = if j = i then ptr cut.buf i else ptr cut.buf j := by
    intro j
    split_ifs with hj
    · rw [hj]
    · rfl
  have hnil : cut.freed = cut.freed + blockCount [] := (BitVec.add_zero _).symm
  by_cases hzero : ptr cut.buf i = 0
  · rw [if_pos hzero] at hrun
    cases hrun
    refine ⟨_, [], ?_, hsame, hnil, fun h => ⟨h, rfl⟩⟩
    rw [hzero]
    exact .none
  rw [if_neg hzero] at hrun
  by_cases hkeep : keep ≤ base
  · rw [if_pos hkeep] at hrun
    obtain ⟨k, hfree, ⟨⟩⟩ := run_bind_pure_eq_ok.mp hrun
    obtain ⟨gone, htrim, rfl⟩ := freeSubtree_spec howned hkeep hfree
    exact ⟨0, gone, htrim, ptr_setPtr _ _ _, rfl, nofun⟩
  rw [if_neg hkeep] at hrun
  by_cases hpos : 0 < n
  · rw [if_pos hpos] at hrun
    obtain ⟨⟨e', k⟩, s₁, htruncate, hrest⟩ := run_bind_eq_ok.mp hrun
    obtain ⟨gone, htrim, rfl⟩ := ih hpos htruncate
    by_cases heq : e' = ptr cut.buf i
    · rw [if_neg (not_not_intro heq)] at hrest
      cases hrest
      exact ⟨e', gone, htrim, heq ▸ hsame, rfl, fun h => ⟨h, rfl⟩⟩
    · rw [if_pos heq] at hrest
      cases hrest
      exact ⟨e', gone, htrim, ptr_setPtr _ _ _, rfl, nofun⟩
  · rw [if_neg hpos] at hrun
    cases hrun
    obtain rfl : n = 0 := Nat.eq_zero_of_not_pos hpos
    exact ⟨_, [], .kept (not_le.mp hkeep), hsame, hnil, fun h => ⟨h, rfl⟩⟩

/-- The block is written back if it has changed. -/
lemma writeCut_spec {α : Type} {f : ℕ} {cut : Cut} {k : Unit → Ext2M α} {a : α}
    (hapart : s.Apart) (hclean : cut.dirty = false → s.blocks f = cut.buf)
    (hrun : (if cut.dirty then writeBlock f cut.buf >>= k else k ()).run s = .ok a s') :
    ∃ s₁, Shrunk s s₁ [] ∧ (∀ g ≠ f, s₁.blocks g = s.blocks g) ∧ s₁.view f = ptr cut.buf ∧
      (k ()).run s₁ = .ok a s' := by
  by_cases hdirty : cut.dirty
  · rw [if_pos hdirty] at hrun
    obtain ⟨u, s₁, hwrite, hrest⟩ := run_bind_eq_ok.mp hrun
    obtain ⟨-, rfl⟩ := (run_writeBlock_eq_ok hapart).mp hwrite
    refine ⟨_, (Shrunk.refl s).write _, fun g hg => update_of_ne hg _ _, ?_, hrest⟩
    funext i
    rw [Super.view]
    dsimp only
    rw [update_self]
  · rw [if_neg hdirty] at hrun
    refine ⟨s, rfl, fun _ _ => rfl, ?_, hrun⟩
    rw [← hclean (Bool.not_eq_true _ ▸ hdirty)]
    rfl

lemma truncateIndirect_spec {e' : BitVec 32} (hpos : 0 < n) (howned : Owned s n e)
    (hrun : (truncateIndirect keep n e base).run s = .ok (e', freed) s') :
    ∃ gone, Trimmed s s' keep n base e e' gone ∧ freed = blockCount gone := by
  induction n generalizing s s' e e' base freed with
  | zero => exact absurd hpos (lt_irrefl 0)
  | succ n ih =>
    rw [truncateIndirect] at hrun
    by_cases he : e = 0
    · rw [if_pos he] at hrun
      cases hrun
      exact ⟨[], he ▸ .none, rfl⟩
    rw [if_neg he, run_get_bind] at hrun
    by_cases hkept : base + s.ptrs ^ n * s.ptrs ≤ keep
    · rw [if_pos hkept] at hrun
      cases hrun
      exact ⟨[], .kept (by rwa [pow_succ]), rfl⟩
    rw [if_neg hkept] at hrun
    obtain ⟨buf, hread, hrest⟩ := run_reading_bind_eq_ok.mp hrun
    obtain ⟨hreadable, rfl⟩ := readBlock_eq_ok hread
    obtain ⟨cut, s₂, hloop, hrest⟩ := run_bind_eq_ok.mp hrest
    -- the loop cuts the trees of the pointers one after the other
    have hinv := foldlM_induct
      (I := fun done cut s₀ => ∃ gone, RowTrimmed s s₀ keep (fun _ => n)
        (fun i => base + i * s.ptrs ^ n) (s.view e.toNat) (ptr cut.buf) done gone ∧
          cut.freed = blockCount (done.flatMap gone) ∧
          (cut.dirty = false → cut.buf = s.blocks e.toNat))
      ?_ ?_ hloop
    · obtain ⟨gone, hrow, hfreed, hdirty⟩ := hinv
      have hparent := hrow.frame_parent he howned
      obtain ⟨s₃, hshrunk, hblocks, hview, hrest⟩ :=
        writeCut_spec (hrow.shrunk.layout.apart howned.apart)
          (fun hclean => hparent.trans (hdirty hclean).symm) hrest
      have hlayout := hrow.shrunk.layout.trans hshrunk.layout
      by_cases hkeep : keep ≤ base
      · rw [if_pos hkeep] at hrest
        obtain ⟨u, hfree, ⟨⟩⟩ := run_bind_pure_eq_ok.mp hrest
        obtain rfl := freeBlock_spec (hlayout.apart howned.apart) hfree
        have hbelow : Below s s₂ (s₃.freed e.toNat) keep n base e (ptr cut.buf)
            gone := ⟨he, howned, hrow, hshrunk.layout.trans (sameLayout_freed _ _), hblocks⟩
        refine ⟨_, hbelow.dropped hkeep (hshrunk.trans rfl), ?_⟩
        rw [blockCount_append, hfreed]
        rfl
      · rw [if_neg hkeep] at hrest
        cases hrest
        have hbelow : Below s s₂ s' keep n base e (ptr cut.buf) gone :=
          ⟨he, howned, hrow, hshrunk.layout, hblocks⟩
        exact ⟨_, hbelow.cut (not_le.mp hkeep) hreadable hshrunk fun i _ => congrFun hview i,
          hfreed⟩
    · exact ⟨fun _ => [], .nil, rfl, fun _ => rfl⟩
    · rintro done i rest cut s₃ cut' s₄ hl ⟨gone, hrow, hfreed, hdirty⟩ hstep
      obtain ⟨hdone, hi, hidone⟩ := notMem_done nodup_range hl
      have hrowOwned := howned.row he
      have hnext := hrow.owned_next hrowOwned hdone hi hidone
      have hentry := hrow.rest i hidone
      rw [← hentry] at hnext
      obtain ⟨e₁, freed, htrim, hptr, hcount, hclean⟩ :=
        truncateEntry_spec hnext (fun hpos => ih hpos hnext) hstep
      rw [hentry] at htrim
      refine ⟨_, hrow.step hrowOwned hdone hi hidone htrim ((hptr i).trans (if_pos rfl))
        fun j hj => (hptr j).trans (if_neg hj), ?_, fun h => ?_⟩
      · rw [flatMap_update hidone, blockCount_append, hcount, hfreed]
      · rw [(hclean h).2, hdirty (hclean h).1]

end

/-! ### Inodes -/

/-- The inode ends before the logical block `keep` now, and loses the blocks `freed`. -/
structure Truncated (s s' : Super) (raw raw' : Inode) (keep : ℕ) (freed : List ℕ) : Prop where
  shrunk : Shrunk s s' freed
  perm : (s'.inodeBlocks raw' ++ freed).Perm (s.inodeBlocks raw)
  frame : ∀ g ∉ s.inodeBlocks raw, s'.blocks g = s.blocks g
  data : ∀ g ∈ s.dataBlocks raw, s'.blocks g = s.blocks g
  resolve_of_lt : ∀ lb < keep, s'.resolveBlock raw' lb = s.resolveBlock raw lb
  resolve_of_le : ∀ lb, keep ≤ lb → (s.place lb).isSome → s'.resolveBlock raw' lb = .ok 0

section

variable {s s' : Super} {raw raw' : Inode} {keep : ℕ} {gone : Fin nBlocks → List ℕ}

lemma Truncated.of_row (h : RowTrimmed s s' keep slotLevel s.slotBase raw.iBlock raw'.iBlock
    (finRange nBlocks) gone) :
    Truncated s s' raw raw' keep ((finRange nBlocks).flatMap gone) := by
  have hlayout := h.shrunk.layout
  have hpruned := fun slot => h.pruned slot (mem_finRange slot)
  refine ⟨h.shrunk, ?_, fun g hg => h.frame g fun slot _ hmem => hg (mem_inodeBlocks hmem),
    fun g hg => ?_, fun lb hlt => ?_, fun lb hle hsome => ?_⟩
  · exact (flatMap_append_perm _ _ _).trans (Perm.flatMap_left _ fun slot _ => (hpruned slot).perm)
  · obtain ⟨slot, -, hg⟩ := mem_flatMap.mp hg
    exact (hpruned slot).data g hg
  · refine resolveBlock_congr_walk hlayout.ptrs fun slot off hoff hlb => ?_
    subst hlb
    exact (hpruned slot).walk_of_lt off hoff hlt
  · obtain ⟨⟨slot, level, off⟩, hplaced⟩ := Option.isSome_iff_exists.mp hsome
    obtain ⟨rfl, hoff, rfl⟩ := place_spec hplaced
    rw [resolveBlock_eq, place_congr hlayout.ptrs, hplaced]
    exact (hpruned slot).walk_of_le off hoff hle

/-- Block 0 is not a block of an inode. -/
lemma zero_notMem_sub {n : ℕ} {e : BitVec 32} : 0 ∉ s.sub n e := by
  induction n generalizing e with
  | zero =>
    rcases eq_or_ne e 0 with rfl | he
    · exact not_mem_nil
    · rw [sub_of_ne he]
      exact fun hmem => toNat_ne_zero he (mem_singleton.mp hmem).symm
  | succ n ih =>
    rcases eq_or_ne e 0 with rfl | he
    · exact not_mem_nil
    · rw [sub_succ he, mem_append, not_or, mem_flatMap]
      refine ⟨fun hmem => ih hmem.choose_spec.2, fun hmem => ?_⟩
      exact toNat_ne_zero he (mem_singleton.mp hmem).symm

lemma Truncated.healthy {freed : List ℕ} (h : Truncated s s' raw raw' keep freed)
    (hs : Healthy s raw) (hfits : ∀ g, s.groupLen .blocks g < 2 ^ 16) : Healthy s' raw' := by
  obtain ⟨hnodup, hfreed, hdisjoint⟩ := nodup_append.mp (h.perm.nodup_iff.mpr hs.nodup)
  have hmem : ∀ g ∈ freed, g ∈ s.inodeBlocks raw := fun g hg =>
    h.perm.subset (mem_append_right _ hg)
  have hused : ∀ g, s'.Used .blocks g ↔ s.Used .blocks g ∧ g ∉ freed := fun g =>
    h.shrunk.used fun n hn => (hs.used n (hmem n hn)).1
  refine ⟨h.shrunk.agree hs.agree (fun n hn => hs.used n (hmem n hn)) hfreed hfits, fun hfree => ?_,
    fun g hg => ?_, hnodup⟩
  · have hrange := h.shrunk.layout.inRange_iff.mp hfree.1
    have hmarked : s.isMarked .blocks 0 = true := by
      rw [← Bool.not_eq_false]
      exact fun hmarked => hs.zero ⟨hrange, hmarked⟩
    have hzero := (hused 0).mpr ⟨⟨hrange, hmarked⟩, fun hg => by
      obtain ⟨slot, -, hsub⟩ := mem_flatMap.mp (hmem 0 hg)
      exact zero_notMem_sub hsub⟩
    exact nomatch hfree.2.symm.trans hzero.2
  · refine (hused g).mpr ⟨hs.used g (h.perm.subset (mem_append_left _ hg)), fun hgone => ?_⟩
    exact hdisjoint g hg g hgone rfl

/-- The slot of a direct block. -/
def directSlot (i : Fin nDirBlocks) : Fin nBlocks := i.castLE nDirBlocks_le

lemma directSlot_injective : Injective directSlot :=
  Fin.castLE_injective nDirBlocks_le

end

section

variable {s s' : Super} {raw raw' : Inode} {keep : ℕ} {done : List (Fin nBlocks)}
  {count : BitVec 32} {slot : Fin nBlocks} {freed : List ℕ}

/-- The slots that are cut already, with the number of freed blocks. -/
def SlotsTrimmed (s s' : Super) (raw raw' : Inode) (keep : ℕ) (done : List (Fin nBlocks))
    (count : BitVec 32) : Prop :=
  ∃ gone, RowTrimmed s s' keep slotLevel s.slotBase raw.iBlock raw'.iBlock done gone ∧
    count = blockCount (done.flatMap gone) ∧ raw' = { raw with iBlock := raw'.iBlock }

section

variable (howned : RowOwned s slotLevel raw.iBlock (finRange nBlocks))

include howned

lemma SlotsTrimmed.step {s'' : Super} {raw'' : Inode} {e' : BitVec 32}
    (h : SlotsTrimmed s s' raw raw' keep done count) (hslot : slot ∉ done)
    (htrim : Trimmed s' s'' keep (slotLevel slot) (s.slotBase slot) (raw.iBlock slot) e' freed)
    (hraw : raw'' = { raw' with iBlock := update raw'.iBlock slot e' }) :
    SlotsTrimmed s s'' raw raw'' keep (done ++ [slot]) (count + blockCount freed) := by
  subst hraw
  obtain ⟨gone, hrow, rfl, hfields⟩ := h
  refine ⟨_, hrow.step howned (fun _ _ => mem_finRange _) (mem_finRange slot) hslot htrim
    (update_self _ _ _) fun j hj => update_of_ne hj _ _, ?_, ?_⟩
  · rw [flatMap_update hslot, blockCount_append]
  · rw [hfields]

lemma SlotsTrimmed.owned (h : SlotsTrimmed s s' raw raw' keep done count) (hslot : slot ∉ done) :
    raw'.iBlock slot = raw.iBlock slot ∧ Owned s' (slotLevel slot) (raw.iBlock slot) := by
  obtain ⟨gone, hrow, -, -⟩ := h
  exact ⟨hrow.rest slot hslot, hrow.owned_next howned (fun _ _ => mem_finRange _)
    (mem_finRange slot) hslot⟩

lemma truncateDirect_spec (hrun : (truncateDirect keep raw).run s = .ok (count, raw') s') :
    SlotsTrimmed s s' raw raw' keep ((finRange nDirBlocks).map directSlot) count := by
  have hinv := foldlM_induct
    (I := fun done acc s' => SlotsTrimmed s s' raw acc.2 keep (done.map directSlot) acc.1)
    ?_ ?_ hrun
  · exact hinv
  · exact ⟨fun _ => [], .nil, rfl, rfl⟩
  · rintro done i rest acc s₁ acc' s₂ hl hdone hstep
    obtain ⟨-, -, hidone⟩ := notMem_done (nodup_finRange _) hl
    have hslot : directSlot i ∉ done.map directSlot := by
      rwa [mem_map_of_injective directSlot_injective]
    obtain ⟨hentry, hnext⟩ := hdone.owned howned hslot
    have hlevel : slotLevel (directSlot i) = 0 :=
      Nat.sub_eq_zero_of_le (Nat.le_of_lt_succ i.isLt)
    have hbase : s.slotBase (directSlot i) = i :=
      if_pos (Fin.lt_def.mpr (lt_succ_of_lt i.isLt))
    rw [map_append]
    rw [show Fin.castLE _ i = directSlot i from rfl] at hstep
    by_cases hfree : keep ≤ i ∧ acc.2.iBlock (directSlot i) ≠ 0
    · rw [if_pos hfree] at hstep
      obtain ⟨u, hrun, ⟨⟩⟩ := run_bind_pure_eq_ok.mp hstep
      rw [hentry] at hrun hfree
      obtain rfl := freeBlock_spec hnext.apart hrun
      have htrim : Trimmed s₁ (s₁.freed (raw.iBlock (directSlot i)).toNat) keep
          (slotLevel (directSlot i)) (s.slotBase (directSlot i)) (raw.iBlock (directSlot i)) 0
          [(raw.iBlock (directSlot i)).toNat] := by
        rw [hlevel, hbase]
        exact .leaf hfree.1 hfree.2
      exact hdone.step howned hslot htrim rfl
    · rw [if_neg hfree] at hstep
      cases hstep
      have hsame : acc = (acc.1 + blockCount [], { acc.2 with
          iBlock := update acc.2.iBlock (directSlot i) (raw.iBlock (directSlot i)) }) := by
        rw [← hentry, update_eq_self]
        exact Prod.ext (BitVec.add_zero _).symm rfl
      rw [hsame]
      refine hdone.step howned hslot ?_ rfl
      rw [hlevel, hbase]
      by_cases hzero : raw.iBlock (directSlot i) = 0
      · rw [hzero]
        exact .none
      · refine .kept (not_le.mp fun hle => hfree ⟨hle, ?_⟩)
        rwa [hentry]

lemma truncateSlot_spec {level base : ℕ} {s₁ s₂ : Super} {raw₁ raw₂ : Inode} {count₁ : BitVec 32}
    (h : SlotsTrimmed s s₁ raw raw₁ keep done count)
    (hrun : (truncateSlot keep slot level base raw₁).run s₁ = .ok (count₁, raw₂) s₂)
    (hslot : slot ∉ done) (hlevel : slotLevel slot = level) (hpos : 0 < level)
    (hbase : s.slotBase slot = base) :
    SlotsTrimmed s s₂ raw raw₂ keep (done ++ [slot]) (count + count₁) := by
  obtain ⟨hentry, hnext⟩ := h.owned howned hslot
  obtain ⟨⟨e', k⟩, htruncate, ⟨⟩⟩ := run_bind_pure_eq_ok.mp hrun
  rw [hentry, ← hlevel, ← hbase] at htruncate
  obtain ⟨freed, htrim, rfl⟩ := truncateIndirect_spec (hlevel ▸ hpos) hnext htruncate
  exact h.step howned hslot htrim rfl

end

lemma truncateBlocks_spec (hapart : s.Apart) (hnodup : (s.inodeBlocks raw).Nodup)
    (hrun : (truncateBlocks raw keep).run s = .ok raw' s') :
    ∃ freed, Truncated s s' raw raw' keep freed ∧ raw' = { raw with
      iBlock := raw'.iBlock
      iBlocks := if blockCount freed * s.sectorsPerBlock ≤ raw.iBlocks
        then raw.iBlocks - blockCount freed * s.sectorsPerBlock else 0 } := by
  have howned : RowOwned s slotLevel raw.iBlock (finRange nBlocks) := ⟨hapart, hnodup⟩
  rw [truncateBlocks, run_get_bind] at hrun
  obtain ⟨⟨direct, raw₁⟩, s₁, hdirect, hrest⟩ := run_bind_eq_ok.mp hrun
  obtain ⟨⟨ind, raw₂⟩, s₂, hind, hrest⟩ := run_bind_eq_ok.mp hrest
  obtain ⟨⟨dind, raw₃⟩, s₃, hdind, hrest⟩ := run_bind_eq_ok.mp hrest
  obtain ⟨⟨tind, raw₄⟩, htind, ⟨⟩⟩ := run_bind_pure_eq_ok.mp hrest
  have h₁ := truncateDirect_spec howned hdirect
  have h₂ := truncateSlot_spec howned h₁ hind (by decide) rfl one_pos rfl
  have h₃ := truncateSlot_spec howned h₂ hdind (by decide) rfl Nat.two_pos rfl
  have h₄ := truncateSlot_spec howned h₃ htind (by decide) rfl (succ_pos 2) rfl
  obtain ⟨gone, hrow, hcount, hfields⟩ := h₄
  have hdone : (finRange nDirBlocks).map directSlot ++ [12] ++ [13] ++ [14] =
      finRange nBlocks := by decide
  rw [hdone] at hrow hcount
  refine ⟨_, .of_row hrow, ?_⟩
  rw [← hcount, hfields]

/-- The new count of sectors, if the inode has counted the freed blocks. -/
lemma iBlocks_of_le {iBlocks : BitVec 32}
    (hle : freed.length * (s.blockSize / 512) ≤ iBlocks.toNat) :
    (if blockCount freed * s.sectorsPerBlock ≤ iBlocks
      then iBlocks - blockCount freed * s.sectorsPerBlock else 0).toNat +
      freed.length * (s.blockSize / 512) = iBlocks.toNat := by
  have hprod : (blockCount freed * s.sectorsPerBlock).toNat =
      freed.length * (s.blockSize / 512) := by
    rw [blockCount, Super.sectorsPerBlock, ← BitVec.ofNat_mul, BitVec.toNat_ofNat,
      mod_eq_of_lt (lt_of_le_of_lt hle iBlocks.isLt)]
  rw [if_pos (by rwa [BitVec.le_def, hprod]), BitVec.toNat_sub_of_le (by rwa [BitVec.le_def, hprod]),
    hprod, Nat.sub_add_cancel hle]

end

/-- `truncate_blocks` keeps what is below `keep` and nothing else of the file. It frees the blocks
that are not reachable any more, each of them once, and subtracts them from `i_blocks` if they were
counted there. -/
theorem resolveBlock_truncateBlocks {s s' : Super} {raw raw' : Inode} {keep : ℕ}
    (hapart : s.Apart) (hnodup : (s.inodeBlocks raw).Nodup)
    (hrun : (truncateBlocks raw keep).run s = .ok raw' s') :
    (∀ lb < keep, s'.resolveBlock raw' lb = s.resolveBlock raw lb) ∧
    (∀ lb, keep ≤ lb → (s.place lb).isSome → s'.resolveBlock raw' lb = .ok 0) ∧
    ∃ freed : List ℕ, freed.Nodup ∧
      (∀ g, g ∈ freed ↔ g ∈ s.inodeBlocks raw ∧ g ∉ s'.inodeBlocks raw') ∧
      s' = { s.releaseAll freed with blocks := s'.blocks } ∧
      (freed.length * (s.blockSize / 512) ≤ raw.iBlocks.toNat →
        raw'.iBlocks.toNat + freed.length * (s.blockSize / 512) = raw.iBlocks.toNat) := by
  obtain ⟨freed, htruncated, hraw⟩ := truncateBlocks_spec hapart hnodup hrun
  obtain ⟨-, hfreed, hdisjoint⟩ := nodup_append.mp (htruncated.perm.nodup_iff.mpr hnodup)
  refine ⟨htruncated.resolve_of_lt, htruncated.resolve_of_le, freed, hfreed, fun g => ?_,
    htruncated.shrunk, fun hle => ?_⟩
  · rw [← htruncated.perm.mem_iff, mem_append]
    constructor
    · exact fun hg => ⟨Or.inr hg, fun hmem => hdisjoint g hmem g hg rfl⟩
    · exact fun hg => hg.1.resolve_left hg.2
  · rw [hraw]
    exact iBlocks_of_le hle

/-- An inode with one block. -/
def singleInode (iBlocks : BitVec 32) : Inode :=
  ⟨0x8180, 1024, 1, iBlocks, update (fun _ => 0) 0 2, 0⟩

theorem resolveBlock_truncated_sample : ∃ raw' s',
    (truncateBlocks (singleInode 2) 0).run sample = .ok raw' s' ∧ s'.resolveBlock raw' 0 = .ok 0 := by
  have hresult : (result ((truncateBlocks (singleInode 2) 0).run sample)).isSome := by
    decide +kernel
  obtain ⟨raw', hresult⟩ := Option.isSome_iff_exists.mp hresult
  obtain ⟨s', hrun⟩ := exists_of_result hresult
  obtain ⟨-, hgone, -⟩ :=
    resolveBlock_truncateBlocks agree_sample.toApart (by exact nodup_singleton 2) hrun
  exact ⟨raw', s', hrun, hgone 0 (le_refl 0) rfl⟩

/-- The freed block was not counted in `i_blocks`, and not every logical block has an address. If
two groups have the same bitmap, a block of the other group is freed too. -/
theorem iBlocks_truncated_sample :
    sample.inodeBlocks (singleInode 0) = [2] ∧
    (ends ((truncateBlocks (singleInode 0) 0).run sample) fun raw' s' =>
      s'.inodeBlocks raw' = [] ∧ raw'.iBlocks = (singleInode 0).iBlocks ∧
        s'.resolveBlock raw' (2 ^ 30) = .error (.errno .efbig)) ∧
    oneBitmap.inodeBlocks (singleInode 2) = [2] ∧ oneBitmap.isMarked .blocks 10 ∧
    ends ((truncateBlocks (singleInode 2) 0).run oneBitmap) fun _ s' =>
      ¬ s'.isMarked .blocks 10 := by
  refine ⟨rfl, ?_, rfl, ?_, ?_⟩
  all_goals
    decide +kernel

end Ext2

end Zinnia
