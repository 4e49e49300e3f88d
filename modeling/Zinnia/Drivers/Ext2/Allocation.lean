import Zinnia.Drivers.Ext2.Bitmap

/-!
# Runs of the allocator of blocks and inodes

`free_block` and `free_inode` do not check that the bit is set: the counters stay correct only if
what is freed is in use.
-/

namespace Zinnia

open Comp Function Ext2.Super

namespace Ext2

/-! ### Runs -/

/-- The numbers that were allocated and not freed since. -/
abbrev Live := Pool → Set ℕ

/-- A call of the allocator. -/
inductive Call where
  | allocBlock (preferredGroup : ℕ)
  | freeBlock (block : ℕ)
  | allocInode (preferredGroup : ℕ)
  | freeInode (ino : BitVec 32)

namespace Call

/-- A call, with what it does to the numbers that are allocated. -/
def run : Call → Ext2M (Live → Live)
  | allocBlock preferredGroup => do
    let n ← Ext2.allocBlock preferredGroup
    pure fun live => update live .blocks (insert n (live .blocks))
  | freeBlock block => do
    Ext2.freeBlock block
    pure fun live => update live .blocks (live .blocks \ {block})
  | allocInode preferredGroup => do
    let ino ← Ext2.allocInode preferredGroup
    pure fun live => update live .inodes (insert ino.toNat (live .inodes))
  | freeInode ino => do
    Ext2.freeInode ino
    pure fun live => update live .inodes (live .inodes \ {ino.toNat})

/-- Only numbers that are in use are freed. -/
def FreesUsed (s : Super) : Call → Prop
  | freeBlock block => s.Used .blocks block
  | freeInode ino => s.Used .inodes ino.toNat
  | _ => True

end Call

/-- A call that succeeds, or fails without a panic. -/
inductive Step (Guard : Super → Call → Prop) : Super × Live → Super × Live → Prop
  | ok {s s' : Super} {live : Live} {f : Live → Live} (call : Call) :
    Guard s call → call.run.run s = .ok f s' → Step Guard (s, live) (s', f live)
  | error {s s' : Super} {live : Live} {e : Errno} (call : Call) :
    Guard s call → call.run.run s = .error (.errno e) s' → Step Guard (s, live) (s', live)

/-- The bitmaps and the counters agree, and new numbers are free ones. -/
structure Sound (s : Super) (live : Live) : Prop where
  counted : s.Counted
  allocBlock : ∀ preferredGroup n s', (allocBlock preferredGroup).run s = .ok n s' →
    s.Free .blocks n ∧ n ∉ live .blocks
  allocInode : ∀ preferredGroup ino s', (allocInode preferredGroup).run s = .ok ino s' →
    s.Free .inodes ino.toNat ∧ ino.toNat ∉ live .inodes

/-- The invariant of runs. -/
structure Valid (s : Super) (live : Live) : Prop where
  agree : s.Agree
  fits : ∀ pool g, s.groupLen pool g < 2 ^ 16
  used : ∀ pool, ∀ n ∈ live pool, s.Used pool n

section

variable {s s' : Super} {live : Live} {pool : Pool} {n : ℕ} {call : Call}

lemma Super.Free.notMem (h : s.Free pool n) (hv : Valid s live) : n ∉ live pool :=
  fun hn => nomatch h.2.symm.trans (hv.used pool n hn).2

lemma Valid.sound (h : Valid s live) : Sound s live := by
  refine ⟨h.agree.toCounted, fun preferredGroup n s' hrun => ?_, fun preferredGroup ino s' hrun => ?_⟩
  · have hfree := (allocBlock_spec h.agree hrun).1
    exact ⟨hfree, hfree.notMem h⟩
  · have hfree := (allocInode_spec h.agree hrun).1
    exact ⟨hfree, hfree.notMem h⟩

lemma Valid.reserve (h : Valid s live) (hfree : s.Free pool n) :
    Valid (s.reserveNumber pool n) (update live pool (insert n (live pool))) := by
  have hclear : (s.slotOf pool n).2 ∈ s.clear pool (s.slotOf pool n).1 :=
    mem_clear.mpr ⟨hfree.1.2.2, hfree.2⟩
  refine ⟨h.agree.reserve hfree.1.2.1 hclear, h.fits, fun pool' n' hn' => ?_⟩
  have hn : pool' = pool ∧ n' = n ∨ n' ∈ live pool' := by
    rcases eq_or_ne pool' pool with rfl | hpool
    · rw [update_self] at hn'
      exact hn'.imp (fun heq => ⟨rfl, heq⟩) id
    · rw [update_of_ne hpool] at hn'
      exact Or.inr hn'
  have hrange : s.InRange pool' n' := by
    rcases hn with ⟨rfl, rfl⟩ | hn
    · exact hfree.1
    · exact (h.used pool' n' hn).1
  refine ⟨hrange, ?_⟩
  rw [isMarked_reserveNumber hfree.1 hrange]
  split_ifs with heq
  · rfl
  · exact (h.used pool' n' (hn.resolve_left heq)).2

lemma Valid.release (h : Valid s live) (hused : s.Used pool n) :
    Valid (s.releaseNumber pool n) (update live pool (live pool \ {n})) := by
  refine ⟨h.agree.release hused.1.2 hused.2 (h.fits _ _), h.fits, fun pool' n' hn' => ?_⟩
  have hn : ¬ (pool' = pool ∧ n' = n) ∧ n' ∈ live pool' := by
    rcases eq_or_ne pool' pool with rfl | hpool
    · rw [update_self] at hn'
      exact ⟨fun heq => hn'.2 heq.2, hn'.1⟩
    · rw [update_of_ne hpool] at hn'
      exact ⟨fun heq => hpool heq.1, hn'⟩
  have hrange := (h.used pool' n' hn.2).1
  refine ⟨hrange, ?_⟩
  rw [isMarked_releaseNumber hused.1 hrange, if_neg hn.1]
  exact (h.used pool' n' hn.2).2

lemma Valid.run_ok (h : Valid s live) (hfrees : call.FreesUsed s) {f : Live → Live}
    (hrun : call.run.run s = .ok f s') : Valid s' (f live) := by
  cases call with
  | allocBlock preferredGroup =>
    obtain ⟨n, halloc, ⟨⟩⟩ := run_bind_pure_eq_ok.mp hrun
    obtain ⟨hfree, rfl⟩ := allocBlock_spec h.agree halloc
    exact h.reserve hfree
  | freeBlock block =>
    obtain ⟨u, hfree, ⟨⟩⟩ := run_bind_pure_eq_ok.mp hrun
    rw [freeBlock_eq hfrees.1] at hfree
    obtain ⟨-, -, rfl⟩ := freeIn_eq_ok h.agree.toApart hfree
    exact h.release hfrees
  | allocInode preferredGroup =>
    obtain ⟨ino, halloc, ⟨⟩⟩ := run_bind_pure_eq_ok.mp hrun
    obtain ⟨hfree, rfl⟩ := allocInode_spec h.agree halloc
    exact h.reserve hfree
  | freeInode ino =>
    obtain ⟨u, hfree, ⟨⟩⟩ := run_bind_pure_eq_ok.mp hrun
    rw [freeInode_eq hfrees.1] at hfree
    obtain ⟨-, -, rfl⟩ := freeIn_eq_ok h.agree.toApart hfree
    exact h.release hfrees

/-- A call that fails changes nothing. -/
lemma Call.run_eq_error (hfrees : call.FreesUsed s) {e : Fault}
    (hrun : call.run.run s = .error e s') : s' = s := by
  cases call with
  | allocBlock preferredGroup =>
    exact (allocIn_eq_error (run_bind_pure_eq_error.mp (run_bind_pure_eq_error.mp hrun))).1
  | freeBlock block =>
    exact (freeIn_eq_error (freeBlock_eq hfrees.1 ▸ run_bind_pure_eq_error.mp hrun)).1
  | allocInode preferredGroup =>
    exact (allocIn_eq_error (run_bind_pure_eq_error.mp (run_bind_pure_eq_error.mp hrun))).1
  | freeInode ino =>
    exact (freeIn_eq_error (freeInode_eq hfrees.1 ▸ run_bind_pure_eq_error.mp hrun)).1

lemma Valid.step {t t' : Super × Live} (h : Valid t.1 t.2)
    (hstep : Step (fun s call => call.FreesUsed s) t t') : Valid t'.1 t'.2 := by
  cases hstep with
  | ok call hfrees hrun => exact h.run_ok hfrees hrun
  | error call hfrees hrun =>
    obtain rfl := call.run_eq_error hfrees hrun
    exact h

/-- In every run in which only numbers in use are freed, on a device whose blocks are made of whole
sectors and where every bitmap has a block of its own: the counters of the groups and of the
superblock agree with the bitmaps, and a number that is allocated was free, in range and is not
returned again until it is freed. A group has less than 2^16 blocks and inodes, which its counters
can hold. -/
theorem sound_of_freesUsed {s₀ : Super} (hagree : s₀.Agree)
    (hfits : ∀ pool g, s₀.groupLen pool g < 2 ^ 16)
    (hrun : Relation.ReflTransGen (Step fun s call => call.FreesUsed s) (s₀, fun _ => ∅) (s, live)) :
    Sound s live := by
  have hvalid : ∀ t, Relation.ReflTransGen (Step fun s call => call.FreesUsed s) (s₀, fun _ => ∅) t →
      Valid t.1 t.2 := by
    intro t hrun
    induction hrun with
    | refl => exact ⟨hagree, hfits, fun _ _ => nofun⟩
    | tail _ hstep ih => exact ih.step hstep
  exact (hvalid (s, live) hrun).sound

end

/-- A filesystem of one group with eight blocks and eight inodes, three of each in use. -/
def sample : Super where
  raw :=
    { sInodesCount := 8, sBlocksCount := 8, sFreeCount := fun _ => 5, sFirstDataBlock := 0
      sLogBlockSize := 0, sBlocksPerGroup := 8, sInodesPerGroup := 8, sMagic := 0xEF53
      sRevLevel := 0, sInodeSize := 128, sFeatureIncompat := 0, sFeatureRoCompat := 0 }
  blockSize := 1024
  inodesPerGroup := 8
  blocksPerGroup := 8
  inodeSize := 128
  groupCount := 1
  bgdt := fun _ => ⟨fun | .blocks => 2 | .inodes => 3, 2, fun _ => 5, 0⟩
  lbaSize := 512
  blocks := fun _ => zeros
  bitmaps := fun _ _ => update zeros 0 7
  inodes := fun _ => ⟨0, 0, 0, 0, fun _ => 0, 0⟩
  unreadable := fun _ => false
  unwritable := fun _ => false

lemma agree_sample : sample.Agree := by
  refine ⟨⟨fun pool g hg => ?_, fun pool => ?_⟩, by decide, ⟨2, rfl⟩,
    fun pool pool' g g' hg hg' => ?_⟩
  · obtain rfl : g = 0 := Nat.lt_one_iff.mp hg
    cases pool <;> decide +kernel
  · cases pool <;> decide +kernel
  · obtain rfl : g = 0 := Nat.lt_one_iff.mp hg
    obtain rfl : g' = 0 := Nat.lt_one_iff.mp hg'
    cases pool <;> cases pool' <;> decide

lemma groupLen_sample_le (pool : Pool) (g : ℕ) : sample.groupLen pool g ≤ 8 := by
  rw [groupLen]
  cases pool <;> exact le_trans (min_le_left _ _) (min_le_left _ _)

/-- The result of a call. -/
def result {σ α : Type} : EStateM.Result Fault σ α → Option α
  | .ok a _ => some a
  | .error _ _ => none

lemma exists_of_result {σ α : Type} {c : EStateM Fault σ α} {s : σ} {a : α}
    (h : result (c.run s) = some a) : ∃ s', c.run s = .ok a s' := by
  cases hrun : c.run s with
  | ok b s' =>
    rw [hrun] at h
    cases h
    exact ⟨s', rfl⟩
  | error e s' =>
    rw [hrun] at h
    cases h

/-- A run succeeds and passes a test. -/
def ends {σ α : Type} (r : EStateM.Result Fault σ α) (test : α → σ → Bool) : Bool :=
  match r with
  | .ok a s => test a s
  | .error _ _ => false

lemma exists_of_ends {σ α : Type} {r : EStateM.Result Fault σ α} {test : α → σ → Bool}
    (h : ends r test = true) : ∃ a s, r = .ok a s ∧ test a s = true := by
  cases r with
  | ok a s => exact ⟨a, s, rfl, h⟩
  | error e s => cases h

theorem sound_sample : ∃ s live,
    Relation.ReflTransGen (Step fun s call => call.FreesUsed s) (sample, fun _ => ∅) (s, live) ∧
      live .blocks = {3} ∧ Sound s live := by
  have hresult : result ((allocBlock 0).run sample) = some 3 := by decide +kernel
  obtain ⟨s', halloc⟩ := exists_of_result hresult
  have hrun : Relation.ReflTransGen (Step fun s call => call.FreesUsed s) (sample, fun _ => ∅) _ :=
    .single (.ok (.allocBlock 0) trivial (run_bind_ok halloc))
  refine ⟨s', _, hrun, ?_, sound_of_freesUsed agree_sample (fun pool g => ?_) hrun⟩
  · rw [update_self, insert_empty_eq]
  · exact lt_of_le_of_lt (groupLen_sample_le pool g) (by decide)

/-- The filesystem with sectors of another size, or with its inode bitmap in another block. -/
def crowded (lbaSize : ℕ) (bitmap : BitVec 32) : Super :=
  { sample with lbaSize, bgdt := fun _ => ⟨fun | .blocks => 2 | .inodes => bitmap, 2, fun _ => 5, 0⟩ }

/-- A group of 2^16 blocks, of which the first one is in use. -/
def large : Super :=
  { sample with
    raw := { sample.raw with
      sBlocksCount := 65536
      sFreeCount := fun | .blocks => 65535 | .inodes => 5 }
    blockSize := 8192
    blocksPerGroup := 65536
    bgdt := fun _ => ⟨(sample.bgdt 0).bgBitmap, 2, fun | .blocks => 65535 | .inodes => 5, 0⟩
    bitmaps := fun | .blocks => fun _ => update zeros 0 1 | .inodes => sample.bitmaps .inodes }

lemma card_clear_large : (large.clear .blocks 0).card = 65535 := by
  have hclear : large.clear .blocks 0 = (Finset.range 65536).erase 0 := by
    ext i
    have hlen : large.groupLen .blocks 0 = 65536 := rfl
    have hmarked : large.marked .blocks 0 i = if i = 0 then true else bit zeros i :=
      bit_setBit zeros 0 i
    have hzeros : bit zeros i = false := BitVec.getLsbD_zero
    rw [mem_clear, hlen, hmarked, hzeros, Finset.mem_erase, Finset.mem_range, and_comm]
    simp
  rw [hclear, Finset.card_erase_of_mem (by simp), Finset.card_range]

lemma agree_large : large.Agree := by
  refine ⟨⟨fun pool g hg => ?_, fun pool => ?_⟩, by decide, ⟨16, rfl⟩, agree_sample.bitmaps⟩
  · obtain rfl : g = 0 := Nat.lt_one_iff.mp hg
    cases pool with
    | blocks => exact card_clear_large.symm
    | inodes => decide +kernel
  · cases pool with
    | blocks =>
      rw [show large.groupCount = 1 from rfl, Finset.sum_range_one, card_clear_large]
      rfl
    | inodes => decide +kernel

/-- A block that is free is freed: its group has five clear bits, and the counter is six. A group of
2^16 blocks is freed completely: the counter wraps around. The bitmaps share a sector or a block: a
block is allocated, and an inode with it. -/
theorem not_sound_sample :
    (∃ s live, Relation.ReflTransGen (Step fun _ _ => True) (sample, fun _ => ∅) (s, live) ∧
      ¬ Sound s live) ∧
    (∃ s live, large.Agree ∧ Relation.ReflTransGen (Step fun s call => call.FreesUsed s)
      (large, fun _ => ∅) (s, live) ∧ ¬ Sound s live) ∧
    ∀ v ∈ [(4096, 3), (512, 2)], ∃ s live, (crowded v.1 v.2).Counted ∧
      Relation.ReflTransGen (Step fun s call => call.FreesUsed s)
        (crowded v.1 v.2, fun _ => ∅) (s, live) ∧ ¬ Sound s live := by
  refine ⟨?_, ?_, ?_⟩
  · have htest : ends ((freeBlock 3).run sample) fun _ s' => 0 < s'.groupCount ∧
        ((s'.bgdt 0).bgFreeCount .blocks).toNat ≠ (s'.clear .blocks 0).card := by
      decide +kernel
    obtain ⟨_, s', hrun, htest⟩ := exists_of_ends htest
    obtain ⟨hpos, hne⟩ := of_decide_eq_true htest
    refine ⟨s', _, .single (.ok (.freeBlock 3) trivial (run_bind_ok hrun)), fun hsound => ?_⟩
    exact hne (hsound.counted.group .blocks 0 hpos)
  · have hresult : result ((freeBlock 0).run large) = some () := by decide +kernel
    obtain ⟨s', hfree⟩ := exists_of_result hresult
    have hused : large.Used .blocks 0 := ⟨⟨by decide, by decide, by decide⟩, by decide⟩
    refine ⟨s', _, agree_large, .single (.ok (.freeBlock 0) hused (run_bind_ok hfree)),
      fun hsound => ?_⟩
    rw [freeBlock_eq hused.1] at hfree
    obtain ⟨-, -, rfl⟩ := freeIn_eq_ok agree_large.toApart hfree
    have hzero : 0 ∈ (large.release .blocks 0 0).clear .blocks 0 := by
      rw [clear_release (by decide), if_pos ⟨rfl, rfl⟩]
      exact Finset.mem_insert_self _ _
    exact Finset.card_ne_zero_of_mem hzero (hsound.counted.group .blocks 0 (by decide)).symm
  · intro v hv
    have htest : ends ((allocBlock 0).run (crowded v.1 v.2)) fun _ s' => 0 < s'.groupCount ∧
        ((s'.bgdt 0).bgFreeCount .inodes).toNat ≠ (s'.clear .inodes 0).card := by
      revert v
      decide +kernel
    obtain ⟨n, s', hrun, htest⟩ := exists_of_ends htest
    obtain ⟨hpos, hne⟩ := of_decide_eq_true htest
    refine ⟨s', _, ⟨agree_sample.group, agree_sample.total⟩,
      .single (.ok (.allocBlock 0) trivial (run_bind_ok hrun)), fun hsound => ?_⟩
    exact hne (hsound.counted.group .inodes 0 hpos)

end Ext2

end Zinnia
