import Zinnia.Drivers.Ext2.Allocation
import Zinnia.Lib.Radix

/-!
# The block tree of an inode

The blocks of a file are the leaves of trees of block pointers, whose roots are the slots of the
inode.
-/

namespace Zinnia

open Comp Radix Function List

namespace Ext2

/-! ### Pointers -/

lemma ptr_setPtr (buf : Block) (i : ℕ) (value : BitVec 32) (j : ℕ) :
    ptr (setPtr buf i value) j = if j = i then value else ptr buf j := by
  have hdiv : ∀ k < 4, (j * 4 + k) / 4 = j := fun k hk => by omega
  have hmod : ∀ k < 4, (j * 4 + k) % 4 = k := fun k hk => by omega
  have hbyte : ∀ k < 4, setPtr buf i value (j * 4 + k) =
      if j = i then value.extractLsb' (8 * k) 8 else buf (j * 4 + k) := by
    intro k hk
    rw [setPtr, hdiv k hk, hmod k hk]
  rw [ptr, hbyte 3 (by decide), hbyte 2 (by decide), hbyte 1 (by decide),
    show j * 4 = j * 4 + 0 from rfl, hbyte 0 (by decide)]
  split_ifs
  · refine BitVec.eq_of_getLsbD_eq fun k hk => ?_
    grind
  · rfl

lemma ptr_zeros (j : ℕ) : ptr zeros j = 0 := by
  unfold ptr zeros
  decide

/-! ### Trees -/

/-- The format of blocks of pointers. -/
def format (ptrs : ℕ) : Radix ℕ (BitVec 32) where
  child e := if e = 0 then none else some e.toNat
  fanout _ := ptrs

lemma child_zero {ptrs : ℕ} : (format ptrs).child 0 = none := rfl

lemma child_of_ne {ptrs : ℕ} {e : BitVec 32} (he : e ≠ 0) : (format ptrs).child e = some e.toNat :=
  if_neg he

lemma ofNat_block {b : ℕ} (hlt : b < 2 ^ 32) : (BitVec.ofNat 32 b).toNat = b := by
  rw [BitVec.toNat_ofNat, Nat.mod_eq_of_lt hlt]

lemma child_ofNat {ptrs b : ℕ} (hb : b ≠ 0) (hlt : b < 2 ^ 32) :
    (format ptrs).child (BitVec.ofNat 32 b) = some b := by
  have hne : BitVec.ofNat 32 b ≠ 0 := fun h => by
    have := congrArg BitVec.toNat h
    rw [ofNat_block hlt] at this
    exact hb this
  rw [child_of_ne hne, ofNat_block hlt]

namespace Super

/-- The pointers of all blocks. -/
def view (s : Super) : ℕ → ℕ → BitVec 32 := fun block i => ptr (s.blocks block) i

/-- The blocks of a tree, from a block of a level on. -/
def nodes (s : Super) (n f : ℕ) : List ℕ := (format s.ptrs).nodes s.view n f

/-- The blocks that a pointer refers to. -/
def sub (s : Super) (n : ℕ) (e : BitVec 32) : List ℕ := (format s.ptrs).sub s.view n e

/-- The data blocks of a tree. -/
def leaves (s : Super) (n f : ℕ) : List ℕ := (format s.ptrs).leaves s.view n f

/-- The data blocks that a pointer refers to. -/
def subLeaves (s : Super) (n : ℕ) (e : BitVec 32) : List ℕ :=
  (format s.ptrs).subLeaves s.view n e

/-- Follow the pointers from a block of a level on. -/
def walk (s : Super) : ℕ → ℕ → ℕ → Except Fault ℕ
  | 0, block, _ => .ok block
  | n + 1, block, offset =>
    if block = 0 then .ok 0
    else do
      let child ← s.readBlockPtr block (offset / s.ptrs ^ n)
      walk s n child (offset % s.ptrs ^ n)

/-- The slot of a logical block, its level and the offset in its tree. -/
def place (s : Super) (lb : ℕ) : Option (Fin nBlocks × ℕ × ℕ) :=
  if h : lb < nDirBlocks then some (⟨lb, Nat.lt_of_lt_of_le h nDirBlocks_le⟩, 0, 0)
  else s.indirectSlot (lb - nDirBlocks)

end Super

section

variable {s : Super} {n b : ℕ} {e : BitVec 32}

lemma sub_none : s.sub n 0 = [] := sub_of_none child_zero

lemma sub_of_ne (he : e ≠ 0) : s.sub n e = s.nodes n e.toNat := sub_of_child (child_of_ne he)

lemma sub_ofNat (hb : b ≠ 0) (hlt : b < 2 ^ 32) : s.sub n (BitVec.ofNat 32 b) = s.nodes n b :=
  sub_of_child (child_ofNat hb hlt)

lemma subLeaves_of_ne (he : e ≠ 0) : s.subLeaves n e = s.leaves n e.toNat :=
  subLeaves_of_child (child_of_ne he)

end

section

variable {s s' : Super} {n f i off : ℕ}

lemma readBlockPtr_eq (hi : i < s.ptrs) : s.readBlockPtr f i =
    if s.unreadable (.block f) then .error (.errno .eio) else .ok (s.view f i).toNat := by
  rw [Super.ptrs] at hi
  have hle : ¬ i * 4 + 4 > s.blockSize := by omega
  simp only [Super.readBlockPtr, Super.readBlock]
  split_ifs <;> rfl

lemma div_lt_ptrs (hoff : off < s.ptrs ^ (n + 1)) : off / s.ptrs ^ n < s.ptrs :=
  Nat.div_lt_of_lt_mul (by rwa [pow_succ] at hoff)

lemma mod_lt_ptrs (hoff : off < s.ptrs ^ (n + 1)) : off % s.ptrs ^ n < s.ptrs ^ n := by
  refine Nat.mod_lt _ (Nat.pos_of_ne_zero fun hzero => ?_)
  rw [Nat.pow_succ, hzero, Nat.zero_mul] at hoff
  exact Nat.not_lt_zero _ hoff

lemma walk_zero : s.walk n 0 off = .ok 0 := by
  cases n with
  | zero => rfl
  | succ n => exact if_pos rfl

lemma walk_succ (hf : f ≠ 0) (hoff : off < s.ptrs ^ (n + 1)) : s.walk (n + 1) f off =
    if s.unreadable (.block f) then .error (.errno .eio)
    else s.walk n (s.view f (off / s.ptrs ^ n)).toNat (off % s.ptrs ^ n) := by
  rw [Super.walk, if_neg hf, readBlockPtr_eq (div_lt_ptrs hoff)]
  split_ifs <;> rfl

/-- A walk reads the blocks of the tree only. -/
lemma walk_congr {e : BitVec 32} (hptrs : s'.ptrs = s.ptrs)
    (hunreadable : s'.unreadable = s.unreadable) (hoff : off < s.ptrs ^ n)
    (h : ∀ g ∈ s.sub n e, s'.view g = s.view g) :
    s'.walk n e.toNat off = s.walk n e.toNat off := by
  induction n generalizing e off with
  | zero => rfl
  | succ n ih =>
    by_cases he : e = 0
    · rw [he]
      rfl
    · have hne : e.toNat ≠ 0 := fun hzero => he (BitVec.eq_of_toNat_eq hzero)
      rw [sub_of_ne he] at h
      have hview : s'.view e.toNat = s.view e.toNat := h _ self_mem_nodes
      have hoff' : off < s'.ptrs ^ (n + 1) := by rwa [hptrs]
      rw [walk_succ hne hoff, walk_succ hne hoff', hunreadable, hptrs, hview]
      congr 1
      refine ih (mod_lt_ptrs hoff) fun g hg => h g ?_
      exact mem_nodes_of_sub (div_lt_ptrs hoff) hg

lemma bind_ok (x : Except Fault ℕ) : (do let block ← x; .ok block) = x := by
  cases x <;> rfl

lemma resolveBlock_eq (s : Super) (raw : Inode) (lb : ℕ) : s.resolveBlock raw lb =
    match s.place lb with
    | none => .error (.errno .efbig)
    | some (slot, level, off) => s.walk level (raw.iBlock slot).toNat off := by
  rw [Super.resolveBlock, Super.place]
  by_cases hdirect : lb < nDirBlocks
  · rw [dif_pos hdirect, dif_pos hdirect]
    rfl
  rw [dif_neg hdirect, dif_neg hdirect, Super.indirectSlot]
  generalize lb - nDirBlocks = lb
  by_cases hsingle : lb < s.ptrs
  · rw [if_pos hsingle, if_pos hsingle]
    simp only [Super.walk, pow_zero, Nat.div_one, bind_ok]
  rw [if_neg hsingle, if_neg hsingle]
  by_cases hdouble : lb - s.ptrs < s.ptrs * s.ptrs
  · rw [if_pos hdouble, if_pos (show lb < s.ptrs + s.ptrs * s.ptrs by omega)]
    simp only [Super.walk, pow_zero, pow_one, Nat.div_one, bind_ok]
  rw [if_neg hdouble, if_neg (show ¬ lb < s.ptrs + s.ptrs * s.ptrs by omega)]
  by_cases htriple : lb - s.ptrs - s.ptrs * s.ptrs < s.ptrs * s.ptrs * s.ptrs
  · rw [if_pos htriple,
      if_pos (show lb < s.ptrs + s.ptrs * s.ptrs + s.ptrs * s.ptrs * s.ptrs by omega)]
    simp only [Super.walk, pow_zero, pow_one, Nat.div_one, Nat.pow_two, bind_ok]
  · rw [if_neg htriple,
      if_neg (show ¬ lb < s.ptrs + s.ptrs * s.ptrs + s.ptrs * s.ptrs * s.ptrs by omega)]

end

/-! ### Allocation -/

/-- The parts of a filesystem that do not change. -/
structure SameLayout (s s' : Super) : Prop where
  blockSize : s'.blockSize = s.blockSize
  lbaSize : s'.lbaSize = s.lbaSize
  bitmapBlock : s'.bitmapBlock = s.bitmapBlock
  groupCount : s'.groupCount = s.groupCount
  perGroup : s'.perGroup = s.perGroup
  firstNumber : s'.firstNumber = s.firstNumber
  total : s'.total = s.total
  unreadable : s'.unreadable = s.unreadable
  unwritable : s'.unwritable = s.unwritable

namespace SameLayout

variable {s s' s'' : Super} {pool : Pool} {n : ℕ}

lemma refl (s : Super) : SameLayout s s := ⟨rfl, rfl, rfl, rfl, rfl, rfl, rfl, rfl, rfl⟩

lemma trans (h : SameLayout s s') (h' : SameLayout s' s'') : SameLayout s s'' :=
  ⟨h'.blockSize.trans h.blockSize, h'.lbaSize.trans h.lbaSize, h'.bitmapBlock.trans h.bitmapBlock,
    h'.groupCount.trans h.groupCount, h'.perGroup.trans h.perGroup,
    h'.firstNumber.trans h.firstNumber, h'.total.trans h.total, h'.unreadable.trans h.unreadable,
    h'.unwritable.trans h.unwritable⟩

lemma apart (h : SameLayout s s') (hs : s.Apart) : s'.Apart :=
  hs.congr h.blockSize h.lbaSize h.groupCount h.bitmapBlock

lemma ptrs (h : SameLayout s s') : s'.ptrs = s.ptrs := by
  rw [Super.ptrs, Super.ptrs, h.blockSize]

lemma inRange_iff (h : SameLayout s s') : s'.InRange pool n ↔ s.InRange pool n := by
  simp only [Super.InRange, Super.Slot, Super.slotOf, Super.groupLen, h.blockSize, h.groupCount,
    h.perGroup, h.firstNumber, h.total]

end SameLayout

/-- The blocks `new` were free, and are in use now. -/
structure Grown (s s' : Super) (new : List ℕ) : Prop where
  layout : SameLayout s s'
  agree : s'.Agree
  nodup : new.Nodup
  free : ∀ n ∈ new, s.Free .blocks n
  used : ∀ n, s'.Used .blocks n ↔ s.Used .blocks n ∨ n ∈ new

namespace Grown

variable {s s' s'' : Super} {new new' : List ℕ} {n : ℕ}

lemma refl (h : s.Agree) : Grown s s [] :=
  ⟨.refl s, h, nodup_nil, by simp, fun n => by simp⟩

lemma not_used (h : Grown s s' new) (hn : n ∈ new) : ¬ s.Used .blocks n :=
  fun hused => nomatch (h.free n hn).2.symm.trans hused.2

/-- What is free afterwards was free before. -/
lemma free_of_free (h : Grown s s' new) (hn : s'.Free .blocks n) :
    s.Free .blocks n ∧ n ∉ new := by
  have hrange := h.layout.inRange_iff.mp hn.1
  have hnot : ¬ s'.Used .blocks n := fun hused => nomatch hn.2.symm.trans hused.2
  rw [h.used, not_or] at hnot
  refine ⟨⟨hrange, ?_⟩, hnot.2⟩
  rw [← Bool.not_eq_true]
  exact fun hmarked => hnot.1 ⟨hrange, hmarked⟩

lemma trans (h : Grown s s' new) (h' : Grown s' s'' new') : Grown s s'' (new ++ new') := by
  refine ⟨h.layout.trans h'.layout, h'.agree, ?_, fun n hn => ?_, fun n => ?_⟩
  · refine nodup_append.mpr ⟨h.nodup, h'.nodup, fun a ha b hb heq => ?_⟩
    subst heq
    exact (h.free_of_free (h'.free a hb)).2 ha
  · rcases mem_append.mp hn with hn | hn
    · exact h.free n hn
    · exact (h.free_of_free (h'.free n hn)).1
  · rw [h'.used, h.used, mem_append, or_assoc]

/-- Writes to blocks and inodes do not matter for the bitmaps. -/
lemma write (h : Grown s s' new) (blocks : ℕ → Block) (inodes : BitVec 32 → Inode) :
    Grown s { s' with blocks, inodes } new :=
  ⟨h.layout.trans ⟨rfl, rfl, rfl, rfl, rfl, rfl, rfl, rfl, rfl⟩,
    h.agree.write _ _, h.nodup, h.free,
    h.used⟩

end Grown

section

variable {s s' : Super} {n : ℕ}

lemma grown_reserveNumber (hagree : s.Agree) (hfree : s.Free .blocks n) :
    Grown s (s.reserveNumber .blocks n) [n] := by
  have hclear : (s.slotOf .blocks n).2 ∈ s.clear .blocks (s.slotOf .blocks n).1 :=
    Super.mem_clear.mpr ⟨hfree.1.2.2, hfree.2⟩
  have hlayout : SameLayout s (s.reserveNumber .blocks n) :=
    ⟨rfl, rfl, Super.bitmapBlock_reserve, rfl, rfl, rfl, rfl, rfl, rfl⟩
  refine ⟨hlayout, hagree.reserve hfree.1.2.1 hclear, nodup_singleton n, ?_, fun n' => ?_⟩
  · intro n' hn'
    rw [mem_singleton.mp hn']
    exact hfree
  · rw [Super.Used, Super.Used, hlayout.inRange_iff, mem_singleton]
    constructor
    · rintro ⟨hrange, hmarked⟩
      rw [Super.isMarked_reserveNumber hfree.1 hrange] at hmarked
      split_ifs at hmarked with heq
      · exact .inr heq.2
      · exact .inl ⟨hrange, hmarked⟩
    · rintro (⟨hrange, hmarked⟩ | rfl)
      · refine ⟨hrange, ?_⟩
        rw [Super.isMarked_reserveNumber hfree.1 hrange, hmarked, ite_self]
      · refine ⟨hfree.1, ?_⟩
        rw [Super.isMarked_reserveNumber hfree.1 hfree.1, if_pos ⟨rfl, rfl⟩]

lemma allocZeroed_spec (hagree : s.Agree) {preferredGroup : ℕ}
    (h : (allocZeroed preferredGroup).run s = .ok n s') :
    Grown s s' [n] ∧ s'.blocks = update s.blocks n zeros ∧ s'.inodes = s.inodes := by
  rw [allocZeroed, run_bind_eq_ok] at h
  obtain ⟨b, s₁, halloc, h⟩ := h
  obtain ⟨hfree, rfl⟩ := allocBlock_spec hagree halloc
  obtain ⟨u, s₂, hwrite, h⟩ := run_bind_eq_ok.mp h
  have hgrown := grown_reserveNumber hagree hfree
  obtain ⟨-, rfl⟩ := (run_writeBlock_eq_ok hgrown.agree.toApart).mp hwrite
  cases h
  exact ⟨hgrown.write _ _, rfl, rfl⟩

lemma writeBlockPtr_spec (hapart : s.Apart) {f i value : ℕ} {u : Unit}
    (h : (writeBlockPtr f i value).run s = .ok u s') :
    s.unreadable (.block f) = false ∧ s' = { s with
      blocks := update s.blocks f (setPtr (s.blocks f) i (BitVec.ofNat 32 value)) } := by
  rw [writeBlockPtr] at h
  obtain ⟨buf, hread, h⟩ := run_reading_bind_eq_ok.mp h
  rw [run_get_bind] at h
  rw [Super.readBlock] at hread
  split_ifs at hread with hunreadable
  cases hread
  split_ifs at h
  · cases h
  · obtain ⟨-, rfl⟩ := (run_writeBlock_eq_ok hapart).mp h
    exact ⟨Bool.not_eq_true _ ▸ hunreadable, rfl⟩

lemma view_setPtr (s : Super) (f i : ℕ) (e : BitVec 32) :
    Super.view { s with blocks := update s.blocks f (setPtr (s.blocks f) i e) } =
      write s.view f i e := by
  funext g j
  rw [Super.view, write]
  dsimp only
  rcases eq_or_ne g f with rfl | hg
  · rw [update_self, update_self, ptr_setPtr, update_apply]
    rfl
  · rw [update_of_ne hg, update_of_ne hg]
    rfl

lemma view_zeros (h : s'.blocks = update s.blocks n zeros) :
    s'.view = update s.view n fun _ => 0 := by
  funext g j
  rw [Super.view, h]
  rcases eq_or_ne g n with rfl | hg
  · rw [update_self, update_self, ptr_zeros]
  · rw [update_of_ne hg, update_of_ne hg]
    rfl

end

/-! ### Mapping a data block -/

/-- A block `b` that can be entered at an offset of a tree. -/
structure Target (s : Super) (n f off b : ℕ) : Prop where
  ne_zero : b ≠ 0
  lt : b < 2 ^ 32
  agree : s.Agree
  zero : ¬ s.Free .blocks 0
  block_used : s.Used .blocks b
  root : f ≠ 0
  off : off < s.ptrs ^ n
  nodup : (s.nodes n f).Nodup
  used : ∀ g ∈ s.nodes n f, s.Used .blocks g
  notMem : b ∉ s.nodes n f

/-- The block `b` is entered in a tree, with the new indirect blocks `new`. -/
structure Mapped (s s' : Super) (n f off b : ℕ) (new gone : List ℕ) : Prop where
  grown : Grown s s' new
  inodes : s'.inodes = s.inodes
  readable : s.unreadable (.block f) = false
  perm : (s'.nodes n f ++ gone).Perm (s.nodes n f ++ b :: new)
  frame : ∀ g ∉ s.nodes n f, g ∉ new → s'.blocks g = s.blocks g
  data : ∀ g ∈ s.leaves n f, s'.blocks g = s.blocks g
  walk : s'.walk n f off = .ok b
  walk_of_ne : ∀ off' < s.ptrs ^ n, off' ≠ off → s'.walk n f off' = s.walk n f off'

/-- The pointer `e` becomes `e'`, and the block `b` is entered in the tree below it. -/
structure MappedAt (s s' : Super) (n : ℕ) (e e' : BitVec 32) (off b : ℕ) (new gone : List ℕ) :
    Prop where
  grown : Grown s s' new
  inodes : s'.inodes = s.inodes
  perm : (s'.sub n e' ++ gone).Perm (s.sub n e ++ b :: new)
  data : ∀ g ∈ s.subLeaves n e, s'.blocks g = s.blocks g
  walk : s'.walk n e'.toNat off = .ok b
  walk_of_ne : ∀ off' < s.ptrs ^ n, off' ≠ off → s'.walk n e'.toNat off' = s.walk n e.toNat off'

section

variable {s s' s₁ : Super} {n f off b c : ℕ} {e : BitVec 32} {new gone : List ℕ}

lemma view_congr {g : ℕ} (h : s'.blocks g = s.blocks g) : s'.view g = s.view g := by
  funext j
  rw [Super.view, Super.view, h]

lemma MappedAt.leaf (hb : b ≠ 0) (hlt : b < 2 ^ 32) (hgrown : Grown s s' [])
    (hinodes : s'.inodes = s.inodes) (hdata : ∀ g ∈ s.subLeaves 0 e, s'.blocks g = s.blocks g) :
    MappedAt s s' 0 e (BitVec.ofNat 32 b) 0 b [] (s.sub 0 e) := by
  refine ⟨hgrown, hinodes, ?_, hdata, ?_, fun off' hoff' hne => ?_⟩
  · rw [sub_ofNat hb hlt]
    exact perm_append_comm
  · rw [ofNat_block hlt]
    rfl
  · rw [pow_zero, Nat.lt_one_iff] at hoff'
    exact absurd hoff' hne

lemma MappedAt.child (hne : e ≠ 0) (h : Mapped s s' n e.toNat off b new gone) :
    MappedAt s s' n e e off b new gone := by
  refine ⟨h.grown, h.inodes, ?_, fun g hg => h.data g ?_, h.walk, h.walk_of_ne⟩
  · rw [sub_of_ne hne, sub_of_ne hne]
    exact h.perm
  · rwa [subLeaves_of_ne hne] at hg

/-- A free block is not block 0, which stands for no block. -/
lemma Super.Free.ne_zero (h : s.Free .blocks n) (hzero : ¬ s.Free .blocks 0) : n ≠ 0 :=
  fun heq => hzero (heq ▸ h)

/-- A block is entered in a tree whose root is new. -/
lemma MappedAt.link (hpos : 0 < n) (hzero : ¬ s.Free .blocks 0) (hgrown : Grown s s₁ [c])
    (hinodes : s₁.inodes = s.inodes) (hempty : ∀ j, s₁.view c j = 0)
    (h : Mapped s₁ s' n c off b new gone) :
    MappedAt s s' n 0 (BitVec.ofNat 32 c) off b (c :: new) gone ∧
      ∀ g, g ∉ c :: new → s'.blocks g = s₁.blocks g := by
  obtain ⟨n, rfl⟩ : ∃ m, n = m + 1 := ⟨_, (Nat.sub_add_cancel hpos).symm⟩
  have hfree := hgrown.free c mem_cons_self
  have hc := hfree.ne_zero hzero
  have hlt := hfree.1.block_lt
  have hnodes : s₁.nodes (n + 1) c = [c] := nodes_of_empty child_zero hempty
  refine ⟨⟨hgrown.trans h.grown, h.inodes.trans hinodes, ?_, fun g hg => ?_, ?_,
    fun off' hoff hne => ?_⟩, fun g hg => ?_⟩
  · have hperm := h.perm
    rw [hnodes] at hperm
    rw [sub_ofNat hc hlt]
    exact hperm.trans (Perm.swap b c new)
  · rw [Super.subLeaves] at hg
    cases hg
  · rw [ofNat_block hlt, h.walk]
  · rw [← hgrown.layout.ptrs] at hoff
    rw [ofNat_block hlt, h.walk_of_ne off' hoff hne, walk_succ hc hoff, h.readable, hempty]
    exact walk_zero.trans walk_zero.symm
  · rw [mem_cons, not_or] at hg
    exact h.frame g (by rw [hnodes, mem_singleton]; exact hg.1) hg.2

section

variable (hreadable : s.unreadable (.block f) = false)

include hreadable

/-- The tree below one pointer of a block changes. -/
lemma Mapped.of_change (ht : Target s (n + 1) f off b)
    (hrow : ∀ j ≠ off / s.ptrs ^ n, s'.view f j = s.view f j)
    (hblocks : ∀ g ≠ f, g ∉ s.sub n (s.view f (off / s.ptrs ^ n)) → g ∉ new →
      s'.blocks g = s.blocks g)
    (h : MappedAt s s' n (s.view f (off / s.ptrs ^ n)) (s'.view f (off / s.ptrs ^ n))
      (off % s.ptrs ^ n) b new gone) : Mapped s s' (n + 1) f off b new gone := by
  obtain ⟨-, -, -, -, -, hf, hoff, hnodup, hused, hbf⟩ := ht
  obtain ⟨hgrown, hinodes, hperm, hdata, hwalk, hwalk'⟩ := h
  have hi := div_lt_ptrs hoff
  have hptrs := hgrown.layout.ptrs
  have hunreadable := hgrown.layout.unreadable
  have hpos : 0 < s.ptrs ^ n := lt_of_le_of_lt (Nat.zero_le _) (mod_lt_ptrs hoff)
  have hnew : ∀ g ∈ new, g ∉ s.nodes (n + 1) f :=
    fun g hg hnode => hgrown.not_used hg (hused g hnode)
  have hnew' : ∀ g ∈ b :: new, g ∉ s.nodes (n + 1) f := by
    intro g hg
    rcases mem_cons.mp hg with rfl | hg
    · exact hbf
    · exact hnew g hg
  have hedit : (format s.ptrs).Edit s.view s'.view n f (off / s.ptrs ^ n) (b :: new) gone := by
    refine ⟨hi, hrow, fun g hg hsub hgnew => view_congr (hblocks g hg hsub ?_), ?_⟩
    · exact fun hmem => hgnew (mem_cons_of_mem _ hmem)
    · rwa [Super.sub, hptrs] at hperm
  -- the trees of the other pointers
  have hothers : ∀ j < s.ptrs, j ≠ off / s.ptrs ^ n → ∀ g ∈ s.sub n (s.view f j),
      s'.blocks g = s.blocks g := by
    intro j hj hne g hg
    refine hblocks g ?_ (disjoint_sub hnodup hj hi hne hg) fun hgnew => hnew g hgnew ?_
    · rintro rfl
      exact notMem_sub hnodup hj hg
    · exact mem_nodes_of_sub hj hg
  have hwalk_eq : ∀ off' < s.ptrs ^ (n + 1), s'.walk (n + 1) f off' =
      s'.walk n (s'.view f (off' / s.ptrs ^ n)).toNat (off' % s.ptrs ^ n) := by
    intro off' hoff'
    rw [walk_succ hf (hptrs.symm ▸ hoff'), hunreadable, hreadable, hptrs]
    rfl
  refine ⟨hgrown, hinodes, hreadable, ?_, fun g hg hgnew => ?_, fun g hg => ?_, ?_,
    fun off' hoff' hne => ?_⟩
  · rw [Super.nodes, hptrs]
    exact hedit.perm_nodes hnodup hnew'
  · refine hblocks g ?_ (fun hsub => hg (mem_nodes_of_sub hi hsub)) hgnew
    rintro rfl
    exact hg self_mem_nodes
  · obtain ⟨j, hj, hg⟩ := mem_leaves_succ.mp hg
    by_cases hji : j = off / s.ptrs ^ n
    · subst hji
      exact hdata g hg
    · exact hothers j hj hji g (subLeaves_subset_sub hg)
  · rw [hwalk_eq off hoff, hwalk]
  · rw [hwalk_eq off' hoff', walk_succ hf hoff', hreadable]
    by_cases hindex : off' / s.ptrs ^ n = off / s.ptrs ^ n
    · rw [hindex]
      refine hwalk' _ (Nat.mod_lt _ hpos) fun hmod => hne ?_
      rw [← Nat.div_add_mod off' (s.ptrs ^ n), ← Nat.div_add_mod off (s.ptrs ^ n), hindex, hmod]
    · rw [hrow _ hindex]
      refine walk_congr hptrs hunreadable (Nat.mod_lt _ hpos) fun g hg => view_congr ?_
      exact hothers _ (div_lt_ptrs hoff') hindex g hg

lemma Mapped.leaf (ht : Target s 1 f off b) :
    Mapped s { s with
      blocks := update s.blocks f (setPtr (s.blocks f) off (BitVec.ofNat 32 b)) } 1 f off b
      [] (s.sub 0 (s.view f off)) := by
  have hview := view_setPtr s f off (BitVec.ofNat 32 b)
  have hgrown := (Grown.refl ht.agree).write
    (update s.blocks f (setPtr (s.blocks f) off (BitVec.ofNat 32 b))) s.inodes
  generalize hs' : ({ s with blocks := _ } : Super) = s' at hview hgrown ⊢
  have hindex : off / s.ptrs ^ 0 = off := by rw [pow_zero, Nat.div_one]
  have hentry : s'.view f off = BitVec.ofNat 32 b := by
    rw [hview, write_self, update_self]
  have hframe : ∀ g ≠ f, s'.blocks g = s.blocks g := fun g hg => by
    rw [← hs']
    exact update_of_ne hg _ _
  have hinodes : s'.inodes = s.inodes := by rw [← hs']
  refine .of_change hreadable ht (fun j hj => ?_) (fun g hg _ _ => hframe g hg) ?_
  · rw [hindex] at hj
    rw [hview, write_self, update_of_ne hj]
  · have hnotMem := notMem_sub ht.nodup (div_lt_ptrs ht.off)
    rw [hindex] at hnotMem
    rw [hindex, hentry, pow_zero, Nat.mod_one]
    refine .leaf ht.ne_zero ht.lt hgrown hinodes fun g hg => hframe g ?_
    rintro rfl
    exact hnotMem (subLeaves_subset_sub hg)

/-- A walk goes on in the tree of an indirect block. -/
lemma Mapped.child (ht : Target s (n + 1) f off b) (hne : s.view f (off / s.ptrs ^ n) ≠ 0)
    (h : Mapped s s' n (s.view f (off / s.ptrs ^ n)).toNat (off % s.ptrs ^ n) b new gone) :
    Mapped s s' (n + 1) f off b new gone := by
  have hsub := sub_of_ne (s := s) (n := n) hne
  have hrow : s'.view f = s.view f := by
    refine view_congr (h.frame f ?_ fun hmem => ?_)
    · rw [← hsub]
      exact notMem_sub ht.nodup (div_lt_ptrs ht.off)
    · exact h.grown.not_used hmem (ht.used f self_mem_nodes)
  refine .of_change hreadable ht (fun j _ => by rw [hrow]) (fun g _ hg hgnew => ?_) ?_
  · rw [hsub] at hg
    exact h.frame g hg hgnew
  · rw [hrow]
    exact .child hne h

omit hreadable in
/-- A block can be entered below a new root. -/
lemma Target.of_empty (hgrown : Grown s s₁ [c]) (hempty : ∀ j, s₁.view c j = 0) (hb : b ≠ 0)
    (hlt : b < 2 ^ 32) (hzero : ¬ s.Free .blocks 0) (hbused : s.Used .blocks b)
    (hoff : off < s.ptrs ^ (n + 1)) : Target s₁ (n + 1) c off b := by
  have hnodes : s₁.nodes (n + 1) c = [c] := nodes_of_empty child_zero hempty
  refine ⟨hb, hlt, hgrown.agree, fun hfree => hzero (hgrown.free_of_free hfree).1,
    (hgrown.used b).mpr (.inl hbused), (hgrown.free c mem_cons_self).ne_zero hzero,
    by rwa [hgrown.layout.ptrs], hnodes ▸ nodup_singleton c,
    fun g hg => (hgrown.used g).mpr (.inr (hnodes ▸ hg)), ?_⟩
  rw [hnodes, mem_singleton]
  rintro rfl
  exact hgrown.not_used mem_cons_self hbused

/-- A walk goes on in a new indirect block. -/
lemma Mapped.link (ht : Target s (n + 2) f off b) (hgrown : Grown s s₁ [c])
    (hzero : s.view f (off / s.ptrs ^ (n + 1)) = 0) (hcf : c ≠ f)
    (hview : s₁.view =
      linkNode 0 s.view f (off / s.ptrs ^ (n + 1)) (BitVec.ofNat 32 c) c)
    (hblocks : ∀ g, g ≠ f → g ≠ c → s₁.blocks g = s.blocks g) (hinodes : s₁.inodes = s.inodes)
    (h : Mapped s₁ s' (n + 1) c (off % s.ptrs ^ (n + 1)) b new gone) :
    Mapped s s' (n + 2) f off b (c :: new) gone := by
  obtain ⟨hmapped, hframe⟩ := MappedAt.link n.succ_pos ht.zero hgrown hinodes
    (fun j => by rw [hview, linkNode_new hcf]) h
  have hrow : s'.view f = s₁.view f := view_congr (hframe f fun hmem =>
    hmapped.grown.not_used hmem (ht.used f self_mem_nodes))
  have hlink : s₁.view f =
      update (s.view f) (off / s.ptrs ^ (n + 1)) (BitVec.ofNat 32 c) := by
    rw [hview, linkNode, write_self, update_of_ne hcf.symm]
  refine .of_change hreadable ht (fun j hj => ?_) (fun g hg _ hgnew => ?_) ?_
  · rw [hrow, hlink, update_of_ne hj]
  · rw [hframe g hgnew, hblocks g hg (ne_of_not_mem_cons hgnew)]
  · rw [hzero, hrow, hlink, update_self]
    exact hmapped

end

/-- A new indirect block. -/
lemma link_spec (hagree : s.Agree) {preferredGroup i : ℕ} {u : Unit} {s₂ : Super}
    (halloc : (allocZeroed preferredGroup).run s = .ok c s₁)
    (hwrite : (writeBlockPtr f i c).run s₁ = .ok u s₂) :
    Grown s s₂ [c] ∧ s₂.view = linkNode 0 s.view f i (BitVec.ofNat 32 c) c ∧
      (∀ g, g ≠ f → g ≠ c → s₂.blocks g = s.blocks g) ∧ s₂.inodes = s.inodes := by
  obtain ⟨hgrown, hblocks, hinodes⟩ := allocZeroed_spec hagree halloc
  obtain ⟨-, rfl⟩ := writeBlockPtr_spec hgrown.agree.toApart hwrite
  refine ⟨hgrown.write _ _, ?_, fun g hgf hgc => ?_, hinodes⟩
  · rw [view_setPtr, view_zeros hblocks, ← linkNode]
  · dsimp only
    rw [update_of_ne hgf, hblocks, update_of_ne hgc]

lemma mapIndirect_spec {preferredGroup : ℕ} {iBlocks iBlocks' : BitVec 32}
    (ht : Target s (n + 1) f off b)
    (hrun : (mapIndirect b preferredGroup (n + 1) f off iBlocks).run s = .ok iBlocks' s') :
    ∃ new gone, Mapped s s' (n + 1) f off b new gone := by
  induction n generalizing s f off iBlocks with
  | zero =>
    obtain ⟨u, hwrite, ⟨⟩⟩ := run_bind_pure_eq_ok.mp hrun
    obtain ⟨hreadable, rfl⟩ := writeBlockPtr_spec ht.agree.toApart hwrite
    exact ⟨[], _, .leaf hreadable ht⟩
  | succ n ih =>
    rw [mapIndirect, run_get_bind] at hrun
    obtain ⟨child, hread, hrun⟩ := run_reading_bind_eq_ok.mp hrun
    have hi := div_lt_ptrs ht.off
    rw [readBlockPtr_eq hi] at hread
    split_ifs at hread with hunreadable
    cases hread
    have hreadable : s.unreadable (.block f) = false := Bool.not_eq_true _ ▸ hunreadable
    split_ifs at hrun with hchild
    · have hentry : s.view f (off / s.ptrs ^ (n + 1)) = 0 := BitVec.eq_of_toNat_eq hchild
      obtain ⟨c, s₂, halloc, hrun⟩ := run_bind_eq_ok.mp hrun
      obtain ⟨u, s₃, hwrite, hrun⟩ := run_bind_eq_ok.mp hrun
      obtain ⟨hgrown, hview, hblocks, hinodes⟩ := link_spec ht.agree halloc hwrite
      have hcf : c ≠ f := fun heq =>
        hgrown.not_used mem_cons_self (ht.used c (heq ▸ self_mem_nodes))
      obtain ⟨new, gone, hmapped⟩ := ih (.of_empty hgrown
        (fun j => by rw [hview, linkNode_new hcf]) ht.ne_zero ht.lt ht.zero ht.block_used
        (mod_lt_ptrs ht.off)) hrun
      exact ⟨c :: new, gone, .link hreadable ht hgrown hentry hcf hview hblocks hinodes hmapped⟩
    · have hne : s.view f (off / s.ptrs ^ (n + 1)) ≠ 0 := fun heq => hchild (by rw [heq]; rfl)
      have hc := (child_of_ne hne : (format s.ptrs).child _ = _)
      have hchildTarget : Target s (n + 1) (s.view f (off / s.ptrs ^ (n + 1))).toNat
          (off % s.ptrs ^ (n + 1)) b :=
        { ht with
          root := hchild
          off := mod_lt_ptrs ht.off
          nodup := nodup_child ht.nodup hi hc
          used := fun g hg => ht.used g (mem_nodes_of_child hi hc hg)
          notMem := fun hmem => ht.notMem (mem_nodes_of_child hi hc hmem) }
      obtain ⟨new, gone, hmapped⟩ := ih hchildTarget hrun
      exact ⟨new, gone, .child hreadable ht hne hmapped⟩

end

/-! ### Inodes -/

/-- The level of the tree of a slot. -/
def slotLevel (slot : Fin nBlocks) : ℕ := slot - 11

/-- The data blocks and the indirect blocks of an inode. -/
def Super.inodeBlocks (s : Super) (raw : Inode) : List ℕ :=
  (List.finRange nBlocks).flatMap fun slot => s.sub (slotLevel slot) (raw.iBlock slot)

/-- The data blocks of an inode. -/
def Super.dataBlocks (s : Super) (raw : Inode) : List ℕ :=
  (List.finRange nBlocks).flatMap fun slot => s.subLeaves (slotLevel slot) (raw.iBlock slot)

/-- The first logical block of the tree of a slot. -/
def Super.slotBase (s : Super) (slot : Fin nBlocks) : ℕ :=
  if slot < 13 then slot
  else if slot = 13 then nDirBlocks + s.ptrs
  else nDirBlocks + s.ptrs + s.ptrs * s.ptrs

section

variable {s s' : Super} {raw raw' : Inode} {slot : Fin nBlocks} {lb lb' level off : ℕ}

lemma place_spec (h : s.place lb = some (slot, level, off)) :
    level = slotLevel slot ∧ off < s.ptrs ^ level ∧ lb = s.slotBase slot + off := by
  rw [Super.place] at h
  by_cases hdirect : lb < nDirBlocks
  · rw [dif_pos hdirect] at h
    cases h
    refine ⟨?_, one_pos, ?_⟩
    · exact (Nat.sub_eq_zero_of_le (Nat.le_of_lt_succ hdirect)).symm
    · rw [Super.slotBase, if_pos (by rw [Fin.lt_def]; exact Nat.lt_succ_of_lt hdirect)]
      rfl
  rw [Super.indirectSlot] at h
  split_ifs at h with hsingle hdouble htriple
  · cases h
    refine ⟨rfl, by rwa [pow_one], ?_⟩
    rw [Super.slotBase]
    exact (Nat.add_sub_cancel' (not_lt.mp hdirect)).symm
  · cases h
    refine ⟨rfl, by rw [Nat.pow_two]; omega, ?_⟩
    rw [Super.slotBase, if_neg (by decide), if_pos rfl]
    omega
  · cases h
    refine ⟨rfl, by rw [pow_succ, Nat.pow_two]; omega, ?_⟩
    rw [Super.slotBase, if_neg (by decide), if_neg (by decide)]
    omega

lemma place_congr (hptrs : s'.ptrs = s.ptrs) (lb : ℕ) : s'.place lb = s.place lb := by
  rw [Super.place, Super.place, Super.indirectSlot, Super.indirectSlot, hptrs]

lemma resolveBlock_eq_ok {d : ℕ} (h : s.resolveBlock raw lb = .ok d) :
    ∃ slot off, off < s.ptrs ^ slotLevel slot ∧ lb = s.slotBase slot + off ∧
      s.walk (slotLevel slot) (raw.iBlock slot).toNat off = .ok d := by
  rw [resolveBlock_eq] at h
  cases hplaced : s.place lb with
  | none =>
    rw [hplaced] at h
    cases h
  | some x =>
    obtain ⟨slot, level, off⟩ := x
    obtain ⟨rfl, hoff, hlb⟩ := place_spec hplaced
    rw [hplaced] at h
    exact ⟨slot, off, hoff, hlb, h⟩

/-- A block is resolved by one walk. -/
lemma resolveBlock_congr_walk (hptrs : s'.ptrs = s.ptrs)
    (h : ∀ slot off, off < s.ptrs ^ slotLevel slot → lb = s.slotBase slot + off →
      s'.walk (slotLevel slot) (raw'.iBlock slot).toNat off =
        s.walk (slotLevel slot) (raw.iBlock slot).toNat off) :
    s'.resolveBlock raw' lb = s.resolveBlock raw lb := by
  rw [resolveBlock_eq, resolveBlock_eq, place_congr hptrs]
  cases hplaced : s.place lb with
  | none => rfl
  | some x =>
    obtain ⟨slot, level, off⟩ := x
    obtain ⟨rfl, hoff, hlb⟩ := place_spec hplaced
    exact h slot off hoff hlb

lemma mem_inodeBlocks {g : ℕ} (h : g ∈ s.sub (slotLevel slot) (raw.iBlock slot)) :
    g ∈ s.inodeBlocks raw :=
  mem_flatMap.mpr ⟨slot, mem_finRange slot, h⟩

/-- The tree of one slot changes. -/
structure SlotEdit (s s' : Super) (raw raw' : Inode) (slot : Fin nBlocks) (new gone : List ℕ) :
    Prop where
  ptrs : s'.ptrs = s.ptrs
  unreadable : s'.unreadable = s.unreadable
  row : ∀ slot' ≠ slot, raw'.iBlock slot' = raw.iBlock slot'
  frame : ∀ g, g ∉ s.sub (slotLevel slot) (raw.iBlock slot) → g ∉ new → s'.blocks g = s.blocks g
  perm : (s'.sub (slotLevel slot) (raw'.iBlock slot) ++ gone).Perm
    (s.sub (slotLevel slot) (raw.iBlock slot) ++ new)

section

variable {new gone : List ℕ} (h : SlotEdit s s' raw raw' slot new gone)
  (hnodup : (s.inodeBlocks raw).Nodup) (hnew : ∀ g ∈ new, g ∉ s.inodeBlocks raw)
  {slot' : Fin nBlocks}

include h hnodup hnew

lemma SlotEdit.blocks_of_ne (hne : slot' ≠ slot) {g : ℕ}
    (hg : g ∈ s.sub (slotLevel slot') (raw.iBlock slot')) : s'.blocks g = s.blocks g := by
  refine h.frame g ?_ fun hgnew => hnew g hgnew (mem_inodeBlocks hg)
  exact notMem_of_nodup_flatMap hnodup (mem_finRange _) (mem_finRange _) hne hg

lemma SlotEdit.perm_inodeBlocks :
    (s'.inodeBlocks raw' ++ gone).Perm (s.inodeBlocks raw ++ new) := by
  have hslot := mem_finRange slot
  have hperm := perm_flatMap (l := finRange nBlocks)
    (fun slot => s.sub (slotLevel slot) (raw.iBlock slot))
    (fun slot => s'.sub (slotLevel slot) (raw'.iBlock slot))
    (fun slot' => if slot' = slot then new else []) (fun slot' => if slot' = slot then gone else [])
    ?_
  · rwa [flatMap_ite (nodup_finRange _) hslot, flatMap_ite (nodup_finRange _) hslot] at hperm
  · intro slot' _
    split_ifs with heq
    · rw [heq]
      exact h.perm
    · rw [h.row slot' heq, append_nil, append_nil, Super.sub, h.ptrs,
        sub_congr fun g hg => view_congr (h.blocks_of_ne hnodup hnew heq hg)]
      rfl

lemma SlotEdit.walk_of_ne (hne : slot' ≠ slot) (hoff : off < s.ptrs ^ slotLevel slot') :
    s'.walk (slotLevel slot') (raw'.iBlock slot').toNat off =
      s.walk (slotLevel slot') (raw.iBlock slot').toNat off := by
  rw [h.row slot' hne]
  refine walk_congr h.ptrs h.unreadable hoff fun g hg => view_congr ?_
  exact h.blocks_of_ne hnodup hnew hne hg

end

end

/-! ### Allocation of a block for an inode -/

/-- The counters agree with the bitmaps, block 0 is not free, and the blocks of the inode are in use
and not shared. -/
structure Healthy (s : Super) (raw : Inode) : Prop where
  agree : s.Agree
  zero : ¬ s.Free .blocks 0
  used : ∀ g ∈ s.inodeBlocks raw, s.Used .blocks g
  nodup : (s.inodeBlocks raw).Nodup

/-- The block `b` is entered in an inode, with the new indirect blocks `new`. -/
structure Entered (s s' : Super) (raw raw' : Inode) (lb b : ℕ) (new gone : List ℕ) : Prop where
  grown : Grown s s' new
  inodes : s'.inodes = s.inodes
  perm : (s'.inodeBlocks raw' ++ gone).Perm (s.inodeBlocks raw ++ b :: new)
  frame : ∀ g ∉ s.inodeBlocks raw, g ∉ new → s'.blocks g = s.blocks g
  data : ∀ g ∈ s.dataBlocks raw, s'.blocks g = s.blocks g
  resolve : s'.resolveBlock raw' lb = .ok b
  resolve_of_ne : ∀ lb' ≠ lb, s'.resolveBlock raw' lb' = s.resolveBlock raw lb'

section

variable {s s' : Super} {raw raw' : Inode} {slot : Fin nBlocks} {lb off b : ℕ} {new gone : List ℕ}
  {ino : BitVec 32}

lemma slot_pos_of_indirectSlot {x : Fin nBlocks × ℕ × ℕ} (h : s.indirectSlot lb = some x) :
    0 < x.2.1 := by
  rw [Super.indirectSlot] at h
  split_ifs at h
  all_goals
    cases h
    exact Nat.succ_pos _

section

variable (hs : Healthy s raw) (hbnew : b ∉ s.inodeBlocks raw)

include hs hbnew

section

variable (hplace : s.place lb = some (slot, slotLevel slot, off))

include hplace

/-- The tree of the slot of a logical block changes. -/
lemma Entered.of_mappedAt (hrow : ∀ slot' ≠ slot, raw'.iBlock slot' = raw.iBlock slot')
    (hframe : ∀ g, g ∉ s.sub (slotLevel slot) (raw.iBlock slot) → g ∉ new →
      s'.blocks g = s.blocks g)
    (h : MappedAt s s' (slotLevel slot) (raw.iBlock slot) (raw'.iBlock slot) off b new gone) :
    Entered s s' raw raw' lb b new gone := by
  obtain ⟨hgrown, hinodes, hperm, hdata, hwalk, hwalk'⟩ := h
  have hedit : SlotEdit s s' raw raw' slot (b :: new) gone :=
    ⟨hgrown.layout.ptrs, hgrown.layout.unreadable, hrow,
      fun g hg hgnew => hframe g hg (not_mem_of_not_mem_cons hgnew), hperm⟩
  have hnew : ∀ g ∈ b :: new, g ∉ s.inodeBlocks raw := by
    intro g hg hmem
    rcases mem_cons.mp hg with rfl | hg
    · exact hbnew hmem
    · exact hgrown.not_used hg (hs.used g hmem)
  refine ⟨hgrown, hinodes, hedit.perm_inodeBlocks hs.nodup hnew,
    fun g hg => hframe g fun hmem => hg (mem_inodeBlocks hmem), fun g hg => ?_, ?_,
    fun lb' hne => ?_⟩
  · obtain ⟨slot', -, hg⟩ := mem_flatMap.mp hg
    rcases eq_or_ne slot' slot with rfl | hslot
    · exact hdata g hg
    · exact hedit.blocks_of_ne hs.nodup hnew hslot (subLeaves_subset_sub hg)
  · rw [resolveBlock_eq, place_congr hedit.ptrs, hplace]
    exact hwalk
  · refine resolveBlock_congr_walk hedit.ptrs fun slot' off' hoff hlb => ?_
    rcases eq_or_ne slot' slot with rfl | hslot
    · refine hwalk' off' hoff fun heq => hne ?_
      rw [hlb, heq, ← (place_spec hplace).2.2]
    · exact hedit.walk_of_ne hs.nodup hnew hslot hoff

omit hplace in
/-- A direct block. -/
lemma Entered.direct (hlb : lb < nDirBlocks) (hb : b ≠ 0) (hlt : b < 2 ^ 32)
    (hslot : slot = ⟨lb, lt_trans hlb (by decide)⟩)
    (hrow : raw'.iBlock = update raw.iBlock slot (BitVec.ofNat 32 b)) :
    Entered s s raw raw' lb b [] (s.sub 0 (raw.iBlock slot)) := by
  have hlevel : slotLevel slot = 0 := by
    rw [hslot]
    exact Nat.sub_eq_zero_of_le (Nat.le_of_lt_succ hlb)
  have hplace : s.place lb = some (slot, slotLevel slot, 0) := by
    rw [Super.place, dif_pos hlb, hlevel, hslot]
  refine .of_mappedAt hs hbnew hplace (fun slot' hne => by rw [hrow, update_of_ne hne])
    (fun _ _ _ => rfl) ?_
  rw [hrow, update_self, hlevel]
  exact .leaf hb hlt (.refl hs.agree) rfl fun _ _ => rfl

/-- A block in a tree that exists. -/
lemma Entered.child (hne : raw.iBlock slot ≠ 0) (hrow : raw'.iBlock = raw.iBlock)
    (h : Mapped s s' (slotLevel slot) (raw.iBlock slot).toNat off b new gone) :
    Entered s s' raw raw' lb b new gone := by
  refine .of_mappedAt hs hbnew hplace (fun _ _ => by rw [hrow])
    (fun g hg hgnew => h.frame g ?_ hgnew) ?_
  · rwa [sub_of_ne hne] at hg
  · rw [hrow]
    exact .child hne h

/-- A block in a tree with a new root. -/
lemma Entered.link {s₁ : Super} {ind : ℕ} (hlevel : 0 < slotLevel slot)
    (hzero : raw.iBlock slot = 0)
    (hrow : raw'.iBlock = update raw.iBlock slot (BitVec.ofNat 32 ind)) (hgrown : Grown s s₁ [ind])
    (hblocks : s₁.blocks = update s.blocks ind zeros) (hinodes : s₁.inodes = s.inodes)
    (h : Mapped s₁ s' (slotLevel slot) ind off b new gone) :
    Entered s s' raw raw' lb b (ind :: new) gone := by
  obtain ⟨hmapped, hframe⟩ := MappedAt.link hlevel hs.zero hgrown hinodes
    (fun j => by rw [view_zeros hblocks, update_self]) h
  refine .of_mappedAt hs hbnew hplace (fun slot' hne => ?_) (fun g _ hgnew => ?_) ?_
  · rw [hrow, update_of_ne hne]
  · rw [hframe g hgnew, hblocks, update_of_ne (ne_of_not_mem_cons hgnew)]
  · rw [hzero, hrow, update_self]
    exact hmapped

end

end

lemma mapBlock_spec {preferredGroup : ℕ} (h : Healthy s raw) (hb : b ≠ 0) (hlt : b < 2 ^ 32)
    (hbused : s.Used .blocks b) (hbnew : b ∉ s.inodeBlocks raw)
    (hrun : (mapBlock preferredGroup b raw lb).run s = .ok raw' s') :
    ∃ new gone, Entered s s' raw raw' lb b new gone ∧
      raw' = { raw with iBlock := raw'.iBlock, iBlocks := raw'.iBlocks } := by
  rw [mapBlock] at hrun
  by_cases hdirect : lb < nDirBlocks
  · rw [dif_pos hdirect] at hrun
    cases hrun
    exact ⟨[], _, .direct h hbnew hdirect hb hlt rfl rfl, rfl⟩
  rw [dif_neg hdirect, run_get_bind] at hrun
  have hplaces : s.place lb = s.indirectSlot (lb - nDirBlocks) := dif_neg hdirect
  cases hplaced : s.indirectSlot (lb - nDirBlocks) with
  | none =>
    rw [hplaced] at hrun
    cases hrun
  | some x =>
    obtain ⟨slot, level, off⟩ := x
    rw [hplaced] at hrun hplaces
    obtain ⟨rfl, hoff, -⟩ := place_spec hplaces
    have hlevel : 0 < slotLevel slot := slot_pos_of_indirectSlot hplaced
    obtain ⟨n, hn⟩ : ∃ n, slotLevel slot = n + 1 := ⟨_, (Nat.sub_add_cancel hlevel).symm⟩
    obtain ⟨raw₁, s₁, hensure, hrun⟩ := run_bind_eq_ok.mp hrun
    obtain ⟨iBlocks, hmap, ⟨⟩⟩ := run_bind_pure_eq_ok.mp hrun
    rw [ensureSlot] at hensure
    by_cases hzero : raw.iBlock slot = 0
    · rw [if_pos hzero] at hensure
      obtain ⟨ind, halloc, ⟨⟩⟩ := run_bind_pure_eq_ok.mp hensure
      obtain ⟨hgrown, hblocks, hinodes⟩ := allocZeroed_spec h.agree halloc
      have hlt' := (hgrown.free ind (mem_singleton_self ind)).1.block_lt
      dsimp only at hmap
      rw [update_self, ofNat_block hlt', hn] at hmap
      rw [hn] at hoff
      obtain ⟨new, gone, hmapped⟩ := mapIndirect_spec (.of_empty hgrown (fun j => by
        rw [view_zeros hblocks, update_self]) hb hlt h.zero hbused hoff) hmap
      rw [← hn] at hmapped
      exact ⟨ind :: new, gone,
        .link h hbnew hplaces hlevel hzero rfl hgrown hblocks hinodes hmapped, rfl⟩
    · rw [if_neg hzero] at hensure
      cases hensure
      have hsub := sub_of_ne (s := s) (n := slotLevel slot) hzero
      have hmem : ∀ g ∈ s.nodes (slotLevel slot) (raw.iBlock slot).toNat, g ∈ s.inodeBlocks raw :=
        fun g hg => mem_inodeBlocks (hsub ▸ hg)
      have hnodup : (s.nodes (slotLevel slot) (raw.iBlock slot).toNat).Nodup :=
        hsub ▸ (nodup_flatMap.mp h.nodup).1 slot (mem_finRange slot)
      rw [hn] at hmap hoff hmem hnodup
      obtain ⟨new, gone, hmapped⟩ := mapIndirect_spec ⟨hb, hlt, h.agree, h.zero, hbused,
        fun heq => hzero (BitVec.eq_of_toNat_eq heq), hoff, hnodup,
        fun g hg => h.used g (hmem g hg), fun hg => hbnew (hmem b hg)⟩ hmap
      rw [← hn] at hmapped
      exact ⟨new, gone, .child h hbnew hplaces hzero rfl hmapped, rfl⟩

/-- The same blocks hold the same file. -/
lemma resolveBlock_congr (hrow : raw'.iBlock = raw.iBlock) (hptrs : s'.ptrs = s.ptrs)
    (hunreadable : s'.unreadable = s.unreadable)
    (h : ∀ g ∈ s.inodeBlocks raw, s'.blocks g = s.blocks g) (lb : ℕ) :
    s'.resolveBlock raw' lb = s.resolveBlock raw lb := by
  refine resolveBlock_congr_walk hptrs fun slot off hoff _ => ?_
  rw [hrow]
  exact walk_congr hptrs hunreadable hoff fun g hg => view_congr (h g (mem_inodeBlocks hg))

lemma inodeBlocks_congr (hrow : raw'.iBlock = raw.iBlock) (hptrs : s'.ptrs = s.ptrs)
    (h : ∀ g ∈ s.inodeBlocks raw, s'.blocks g = s.blocks g) :
    s'.inodeBlocks raw' = s.inodeBlocks raw := by
  refine flatMap_congr fun slot _ => ?_
  rw [Super.sub, hptrs, hrow]
  exact sub_congr fun g hg => view_congr (h g (mem_inodeBlocks hg))

/-- Other blocks are allocated. -/
lemma Healthy.grown (h : Healthy s raw) (hgrown : Grown s s' new)
    (hframe : ∀ g ∈ s.inodeBlocks raw, s'.blocks g = s.blocks g) : Healthy s' raw := by
  have hinode := inodeBlocks_congr rfl hgrown.layout.ptrs hframe
  refine ⟨hgrown.agree, fun hfree => h.zero (hgrown.free_of_free hfree).1, fun g hg => ?_, ?_⟩
  · exact (hgrown.used g).mpr (.inl (h.used g (hinode ▸ hg)))
  · exact hinode ▸ h.nodup

lemma run_onError_eq_ok {α : Type} {c : Ext2M α} {handler : Errno → Ext2M α} {a : α}
    (hhandler : ∀ e s s', (handler e).run s ≠ .ok a s')
    (h : (onError c handler).run s = .ok a s') : c.run s = .ok a s' := by
  rw [EStateM.run, onError] at h
  split at h
  · exact absurd h (hhandler _ _ _)
  · exact h

lemma readInode_eq (h : s.readInode ino = .ok raw) : raw = s.inodes ino := by
  rw [Super.readInode] at h
  obtain ⟨span, -, hread⟩ := bind_eq_ok.mp h
  split_ifs at hread
  cases hread
  rfl

lemma writeInode_spec {u : Unit} (h : (writeInode ino raw).run s = .ok u s') :
    s' = { s with inodes := update s.inodes ino raw } := by
  rw [writeInode] at h
  obtain ⟨_, -, hwrite⟩ := run_reading_bind_eq_ok.mp h
  exact (run_writing_eq_ok.mp hwrite).2

/-- A block `b` is allocated for an inode, and `new` are all new blocks. -/
structure Allocated (s s' : Super) (raw raw' : Inode) (lb b : ℕ) (new gone : List ℕ) : Prop where
  mem : b ∈ new
  grown : Grown s s' new
  perm : (s'.inodeBlocks raw' ++ gone).Perm (s.inodeBlocks raw ++ new)
  frame : ∀ g ∉ s.inodeBlocks raw, g ∉ new → s'.blocks g = s.blocks g
  data : ∀ g ∈ s.dataBlocks raw, s'.blocks g = s.blocks g
  zeroed : s'.blocks b = zeros
  resolve : s'.resolveBlock raw' lb = .ok b
  resolve_of_ne : ∀ lb' ≠ lb, s'.resolveBlock raw' lb' = s.resolveBlock raw lb'

lemma dataBlocks_subset : s.dataBlocks raw ⊆ s.inodeBlocks raw := by
  intro g hg
  obtain ⟨slot, -, hg⟩ := mem_flatMap.mp hg
  exact mem_inodeBlocks (subLeaves_subset_sub hg)

/-- The blocks of an inode after an allocation. -/
lemma Allocated.mem_inodeBlocks {g : ℕ} (h : Allocated s s' raw raw' lb b new gone)
    (hg : g ∈ s'.inodeBlocks raw') : g ∈ s.inodeBlocks raw ∨ g ∈ new :=
  mem_append.mp (h.perm.subset (mem_append_left _ hg))

lemma Allocated.healthy (hs : Healthy s raw) (h : Allocated s s' raw raw' lb b new gone) :
    Healthy s' raw' := by
  refine ⟨h.grown.agree, fun hfree => hs.zero (h.grown.free_of_free hfree).1, fun g hg => ?_, ?_⟩
  · exact (h.grown.used g).mpr ((h.mem_inodeBlocks hg).imp_left (hs.used g))
  · refine (nodup_append.mp (h.perm.nodup_iff.mpr ?_)).1
    refine nodup_append.mpr ⟨hs.nodup, h.grown.nodup, fun g hg g' hg' heq => ?_⟩
    subst heq
    exact h.grown.not_used hg' (hs.used g hg)

/-- A new block is entered in the inode. -/
lemma Allocated.of_entered {s₁ : Super} {raw₁ : Inode} {inodes : BitVec 32 → Inode}
    (hgrown : Grown s s₁ [b])
    (hblocks : s₁.blocks = update s.blocks b zeros) (hb : b ∉ s.inodeBlocks raw)
    (hframe : ∀ g ∈ s.inodeBlocks raw, s₁.blocks g = s.blocks g)
    (h : Entered s₁ s' raw raw₁ lb b new gone) (hrow : raw'.iBlock = raw₁.iBlock) :
    Allocated s { s' with inodes } raw raw' lb b (b :: new) gone := by
  have hinode : s₁.inodeBlocks raw = s.inodeBlocks raw :=
    inodeBlocks_congr rfl hgrown.layout.ptrs hframe
  have hdata : s₁.dataBlocks raw = s.dataBlocks raw := by
    refine flatMap_congr fun slot _ => ?_
    rw [Super.subLeaves, hgrown.layout.ptrs]
    exact subLeaves_congr fun g hg => view_congr (hframe g (Ext2.mem_inodeBlocks hg))
  have hbnew : b ∉ new := fun hmem =>
    h.grown.not_used hmem ((hgrown.used b).mpr (.inr (mem_singleton_self b)))
  have hraw : ∀ lb, Super.resolveBlock { s' with inodes } raw' lb = s'.resolveBlock raw₁ lb :=
    resolveBlock_congr hrow rfl rfl fun _ _ => rfl
  refine ⟨mem_cons_self, ?_, ?_, fun g hg hgnew => ?_, fun g hg => ?_, ?_, ?_,
    fun lb' hne => ?_⟩
  · exact (hgrown.trans h.grown).write s'.blocks inodes
  · have hperm := h.perm
    rw [hinode] at hperm
    rw [Super.inodeBlocks, hrow]
    exact hperm
  · rw [mem_cons, not_or] at hgnew
    exact (h.frame g (hinode ▸ hg) hgnew.2).trans
      (by rw [hblocks, update_of_ne hgnew.1])
  · exact (h.data g (hdata ▸ hg)).trans (hframe g (dataBlocks_subset hg))
  · refine (h.frame b (hinode ▸ hb) hbnew).trans ?_
    rw [hblocks, update_self]
  · rw [hraw, h.resolve]
  · rw [hraw, h.resolve_of_ne lb' hne]
    exact resolveBlock_congr rfl hgrown.layout.ptrs hgrown.layout.unreadable hframe lb'

lemma allocBlockForInode_spec (h : Healthy s raw)
    (hrun : (allocBlockForInode ino raw lb).run s = .ok (b, raw') s') :
    ∃ new gone, Allocated s s' raw raw' lb b new gone ∧
      s'.inodes = update s.inodes ino raw' ∧
      raw' = { raw with iBlock := raw'.iBlock, iBlocks := raw'.iBlocks } := by
  rw [allocBlockForInode] at hrun
  obtain ⟨slot, -, hrest⟩ := run_reading_bind_eq_ok.mp hrun
  obtain ⟨b₁, s₁, halloc, hrest⟩ := run_bind_eq_ok.mp hrest
  obtain ⟨raw₁, s₂, hmap, hrest⟩ := run_bind_eq_ok.mp hrest
  obtain ⟨u, hwrite, ⟨⟩⟩ := run_bind_pure_eq_ok.mp hrest
  obtain rfl := writeInode_spec hwrite
  obtain ⟨hgrown, hblocks, hinodes⟩ := allocZeroed_spec h.agree halloc
  have hfree := hgrown.free b (mem_singleton_self b)
  have hb : b ∉ s.inodeBlocks raw := fun hmem =>
    hgrown.not_used (mem_singleton_self b) (h.used b hmem)
  have hframe : ∀ g ∈ s.inodeBlocks raw, s₁.blocks g = s.blocks g := by
    intro g hg
    have hne : g ≠ b := fun heq => hb (heq ▸ hg)
    rw [hblocks, update_of_ne hne]
  have hinode : s₁.inodeBlocks raw = s.inodeBlocks raw :=
    inodeBlocks_congr rfl hgrown.layout.ptrs hframe
  have hthrow : ∀ e s s', EStateM.run (do freeBlock b; throw (Fault.errno e)) s ≠ .ok raw₁ s' := by
    intro e s s' hrun
    obtain ⟨_, _, -, hthrow⟩ := run_bind_eq_ok.mp hrun
    cases hthrow
  obtain ⟨new, gone, hentered, hraw⟩ := mapBlock_spec (h.grown hgrown hframe) (hfree.ne_zero h.zero)
    hfree.1.block_lt ((hgrown.used b).mpr (.inr (mem_singleton_self b))) (hinode ▸ hb)
    (run_onError_eq_ok hthrow hmap)
  refine ⟨b :: new, gone, .of_entered hgrown hblocks hb hframe hentered rfl, ?_, ?_⟩
  · dsimp only
    rw [hentered.inodes, hinodes]
  · rw [hraw]

end

/-- Two groups of eight blocks and inodes, with their bitmaps and counters. The bitmaps of the second
group are `stride` blocks behind those of the first. -/
def twoGroups (stride : ℕ) (bits : ℕ → BitVec 8) (free : ℕ → BitVec 16) : Super :=
  { sample with
    raw := { sample.raw with sBlocksCount := 16, sInodesCount := 16, sFreeCount := fun _ => 2 }
    groupCount := 2
    bgdt := fun g => ⟨fun
      | .blocks => .ofNat 32 (2 + stride * g)
      | .inodes => .ofNat 32 (3 + stride * g), 2, fun _ => free g, 0⟩
    bitmaps := fun _ g => update zeros 0 (bits g) }

/-- The groups have the same bitmaps. -/
def oneBitmap : Super := twoGroups 0 (fun _ => 127) fun _ => 1

end Ext2

end Zinnia
