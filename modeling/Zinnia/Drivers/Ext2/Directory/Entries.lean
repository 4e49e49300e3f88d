import Zinnia.Drivers.Ext2.Directory.Records

/-!
# The entries of a directory

The loops over the blocks of a directory edit the first block that can be edited. A name that is
removed is in one block only, and a name is added to the first block with room or in a new block.
-/

namespace Zinnia

open Comp Function List Prod Ext2.Super

namespace Ext2

/-! ### Blocks -/

section

variable {s s' fs : Super} {raw raw' : Inode} {b k : ℕ} {d : BitVec 32}

lemma walk_readable {n f off : ℕ} (h : s.walk n f off = .ok k) :
    walk { s with unreadable := fun _ => false } n f off = .ok k := by
  induction n generalizing f off with
  | zero => exact h
  | succ n ih =>
    rw [walk] at h ⊢
    split_ifs at h ⊢ with hf
    · exact h
    · obtain ⟨child, hread, hrest⟩ := bind_eq_ok.mp h
      obtain ⟨buf, hblock, hptr⟩ := bind_eq_ok.mp hread
      refine bind_eq_ok.mpr ⟨child, bind_eq_ok.mpr ⟨buf, ?_, hptr⟩, ih hrest⟩
      rw [(readBlock_eq_ok hblock).2]
      rfl

/-- A block that is looked up is the block on the device. -/
lemma diskBlock_of_resolveBlock (h : s.resolveBlock raw b = .ok k) : s.diskBlock raw b = k := by
  have hread : resolveBlock { s with unreadable := fun _ => false } raw b = .ok k := by
    rw [resolveBlock_eq] at h ⊢
    rw [show place { s with unreadable := fun _ => false } b = s.place b from rfl]
    cases hplace : s.place b with
    | none =>
      rw [hplace] at h
      cases h
    | some x =>
      rw [hplace] at h
      exact walk_readable h
  rw [diskBlock, hread]

lemma walk_ne_panic {n f off : ℕ} : s.walk n f off ≠ .error .panic := by
  induction n generalizing f off with
  | zero => rintro ⟨⟩
  | succ n ih =>
    rw [walk]
    split_ifs
    · rintro ⟨⟩
    · refine bind_ne_error (bind_ne_error ?_ fun buf _ => ?_) fun _ _ => ih
      · rw [readBlock]
        split_ifs <;> rintro ⟨⟩
      · split_ifs <;> rintro ⟨⟩

lemma resolveBlock_ne_panic (raw : Inode) (b : ℕ) : s.resolveBlock raw b ≠ .error .panic := by
  rw [resolveBlock_eq]
  cases s.place b with
  | none => rintro ⟨⟩
  | some x => exact walk_ne_panic

lemma readInode_inodes (fs : Super) (inodes : BitVec 32 → Inode) (ino : BitVec 32) :
    readInode { fs with inodes } ino = (fs.readInode ino).map fun _ => inodes ino := by
  rw [readInode, readInode]
  change (fs.findInode ino >>= _) = _
  cases fs.findInode ino with
  | error e => rfl
  | ok span =>
    rw [ok_bind, ok_bind]
    split_ifs <;> rfl

lemma readInode_of_isOk (h : (fs.readInode d).isOk) : fs.readInode d = .ok (fs.inodes d) := by
  cases hraw : fs.readInode d with
  | error e =>
    rw [hraw] at h
    cases h
  | ok raw => rw [readInode_eq hraw]

lemma run_writeInode (hread : (fs.readInode d).isOk) (raw : Inode) :
    (writeInode d raw).run fs = if fs.unwritable (.inode d) then .error (.errno .eio) fs
      else .ok () { fs with inodes := update fs.inodes d raw } := by
  rw [writeInode, run_bind_ok (run_reading_eq_ok.mpr ⟨readInode_of_isOk hread, rfl⟩)]
  rfl

end

/-! ### Edits -/

section

variable {α : Type} {s s' : DirFs} {raw : Inode} {b k n : ℕ}
  {edit : ℕ → List DirEntry → Option (α × List DirEntry)} {blocks : List ℕ} {a : α} {e : Fault}
  {f : Super → Except Fault α} {x : Ext2M α}

lemma run_onFs_eq_ok :
    (onFs x).run s = .ok a s' ↔ ∃ fs, x.run s.fs = .ok a fs ∧ s' = { s with fs } := by
  rw [EStateM.run, onFs]
  constructor
  · intro h
    split at h
    · next fs hrun =>
      cases h
      exact ⟨fs, hrun, rfl⟩
    · cases h
  · rintro ⟨fs, hrun, rfl⟩
    rw [show x s.fs = .ok a fs from hrun]

lemma run_onFs_eq_error :
    (onFs x).run s = .error e s' ↔ ∃ fs, x.run s.fs = .error e fs ∧ s' = { s with fs } := by
  rw [EStateM.run, onFs]
  constructor
  · intro h
    split at h
    · cases h
    · next fs hrun =>
      cases h
      exact ⟨fs, hrun, rfl⟩
  · rintro ⟨fs, hrun, rfl⟩
    rw [show x s.fs = .error e fs from hrun]

lemma run_onFs_reading_ok (h : f s.fs = .ok a) : (onFs (reading f)).run s = .ok a s :=
  run_onFs_eq_ok.mpr ⟨s.fs, run_reading_eq_ok.mpr ⟨h, rfl⟩, rfl⟩

lemma run_onFs_reading_error (h : f s.fs = .error e) : (onFs (reading f)).run s = .error e s :=
  run_onFs_eq_error.mpr ⟨s.fs, run_reading_eq_error.mpr ⟨h, rfl⟩, rfl⟩

lemma records_setRecords (h : s.fs.Apart) (k : ℕ) (records : List DirEntry) :
    (s.setRecords k records).records = update s.records k records := by
  funext b
  simp only [DirFs.setRecords, h.blockStart, Nat.mul_left_inj h.pos.ne', update_apply]

lemma records_setRecords_self (records : List DirEntry) :
    (s.setRecords k records).records k = records := if_pos rfl

lemma records_setRecords_of_ne (h : s.fs.Apart) (hne : b ≠ k) (records : List DirEntry) :
    (s.setRecords k records).records b = s.records b := by
  rw [records_setRecords h, update_of_ne hne]

lemma run_writeRecords (k : ℕ) (records : List DirEntry) : (writeRecords k records).run s =
    if s.fs.unwritable (.block k) then .error (.errno .eio) s
    else .ok () (s.setRecords k records) := by
  rw [writeRecords]
  split_ifs with hfail
  · have hwrite : (writing (.block k) id).run s.fs = .error (.errno .eio) s.fs := if_pos hfail
    rw [run_bind_error (run_onFs_eq_error.mpr ⟨s.fs, hwrite, rfl⟩)]
  · have hwrite : (writing (.block k) id).run s.fs = .ok () s.fs := if_neg hfail
    rw [run_bind_ok (run_onFs_eq_ok.mpr ⟨s.fs, hwrite, rfl⟩)]
    rfl

/-- The block is passed over. -/
def DirFs.Skips (s : DirFs) (raw : Inode) (edit : ℕ → List DirEntry → Option (α × List DirEntry))
    (b : ℕ) : Prop :=
  s.BlockReadable raw b ∧ (s.fs.diskBlock raw b = 0 ∨
    edit s.fs.blockSize (s.records (s.fs.diskBlock raw b)) = none)

/-- How the loop over the blocks of a directory ends at a block. -/
inductive EditStop (s : DirFs) (raw : Inode)
    (edit : ℕ → List DirEntry → Option (α × List DirEntry)) (b : ℕ) :
    EStateM.Result Fault DirFs (Option α) → Prop
  | unreadable {e : Fault} : ¬ s.BlockReadable raw b → e ≠ .panic →
    EditStop s raw edit b (.error e s)
  | unwritable {r} : s.fs.diskBlock raw b ≠ 0 →
    edit s.fs.blockSize (s.records (s.fs.diskBlock raw b)) = some r →
    s.fs.unwritable (.block (s.fs.diskBlock raw b)) = true →
    EditStop s raw edit b (.error (.errno .eio) s)
  | write {r} : s.BlockReadable raw b → s.fs.diskBlock raw b ≠ 0 →
    edit s.fs.blockSize (s.records (s.fs.diskBlock raw b)) = some r →
    s.fs.unwritable (.block (s.fs.diskBlock raw b)) = false →
    EditStop s raw edit b (.ok (some r.1) (s.setRecords (s.fs.diskBlock raw b) r.2))

lemma EditStop.not_skips {result : EStateM.Result Fault DirFs (Option α)}
    (h : EditStop s raw edit b result) : ¬ s.Skips raw edit b := by
  rintro ⟨hreadable, hskip⟩
  cases h with
  | unreadable hnot => exact hnot hreadable
  | unwritable hne hsome | write _ hne hsome =>
    rw [or_iff_right hne, hsome] at hskip
    cases hskip

/-- A block is passed over, or the loop ends there. -/
lemma editBlocks_cons (raw : Inode) (edit : ℕ → List DirEntry → Option (α × List DirEntry))
    (b : ℕ) (blocks : List ℕ) (s : DirFs) :
    (s.Skips raw edit b ∧
      (editBlocks raw edit (b :: blocks)).run s = (editBlocks raw edit blocks).run s) ∨
    EditStop s raw edit b ((editBlocks raw edit (b :: blocks)).run s) := by
  rw [editBlocks]
  cases hresolve : s.fs.resolveBlock raw b with
  | error e =>
    rw [run_bind_error (run_onFs_reading_error hresolve)]
    refine .inr (.unreadable ?_ ?_)
    · rintro ⟨k, hk, -⟩
      rw [hresolve] at hk
      cases hk
    · rintro rfl
      exact resolveBlock_ne_panic _ _ hresolve
  | ok k =>
    obtain rfl := diskBlock_of_resolveBlock hresolve
    rw [run_bind_ok (run_onFs_reading_ok hresolve)]
    by_cases hzero : s.fs.diskBlock raw b = 0
    · rw [if_pos hzero]
      exact .inl ⟨⟨⟨_, hresolve, .inl hzero⟩, .inl hzero⟩, rfl⟩
    rw [if_neg hzero]
    cases hunreadable : s.fs.unreadable (.block (s.fs.diskBlock raw b)) with
    | true =>
      have hread : s.fs.readBlock (s.fs.diskBlock raw b) = .error (.errno .eio) :=
        if_pos hunreadable
      rw [readRecords, run_bind_error (run_bind_error (run_onFs_reading_error hread))]
      refine .inr (.unreadable ?_ nofun)
      rintro ⟨k, hk, hor⟩
      rw [hresolve] at hk
      cases hk
      rw [or_iff_right hzero, hunreadable] at hor
      cases hor
    | false =>
      have hreadable : s.BlockReadable raw b := ⟨_, hresolve, .inr hunreadable⟩
      have hread : s.fs.readBlock (s.fs.diskBlock raw b) =
          .ok (s.fs.blocks (s.fs.diskBlock raw b)) := if_neg (Bool.eq_false_iff.mp hunreadable)
      have hrecords : (readRecords (s.fs.diskBlock raw b)).run s =
          .ok (s.records (s.fs.diskBlock raw b)) s := by
        rw [readRecords, run_bind_ok (run_onFs_reading_ok hread)]
        rfl
      rw [run_bind_ok hrecords, run_get_bind]
      cases hedit : edit s.fs.blockSize (s.records (s.fs.diskBlock raw b)) with
      | none => exact .inl ⟨⟨hreadable, .inr hedit⟩, rfl⟩
      | some r =>
        refine .inr ?_
        cases hwrite : s.fs.unwritable (.block (s.fs.diskBlock raw b)) with
        | true =>
          rw [run_bind_error ((run_writeRecords _ _).trans (if_pos hwrite))]
          exact .unwritable hzero hedit hwrite
        | false =>
          rw [run_bind_ok ((run_writeRecords _ _).trans (if_neg (Bool.eq_false_iff.mp hwrite)))]
          exact .write hreadable hzero hedit hwrite

/-- All blocks are passed over, or those before the block where the loop ends. -/
lemma editBlocks_cases (raw : Inode) (edit : ℕ → List DirEntry → Option (α × List DirEntry))
    (n : ℕ) (s : DirFs) :
    ((∀ b < n, s.Skips raw edit b) ∧ (editBlocks raw edit (List.range n)).run s = .ok none s) ∨
    ∃ b < n, (∀ b' < b, s.Skips raw edit b') ∧
      EditStop s raw edit b ((editBlocks raw edit (List.range n)).run s) := by
  suffices h : ∀ n a, (∀ b < a, s.Skips raw edit b) →
      ((∀ b < a + n, s.Skips raw edit b) ∧
        (editBlocks raw edit (range' a n)).run s = .ok none s) ∨
      ∃ b < a + n, (∀ b' < b, s.Skips raw edit b') ∧
        EditStop s raw edit b ((editBlocks raw edit (range' a n)).run s) by
    rw [range_eq_range']
    simpa using h n 0 nofun
  intro n
  induction n with
  | zero => exact fun a hskips => .inl ⟨hskips, rfl⟩
  | succ n ih =>
    intro a hskips
    rw [range'_succ]
    rcases editBlocks_cons raw edit a (range' (a + 1) n) s with ⟨hskip, hrun⟩ | hstop
    · rw [hrun, add_comm n, ← add_assoc]
      refine ih (a + 1) fun b hb => ?_
      rcases Nat.lt_succ_iff_lt_or_eq.mp hb with hb | rfl
      · exact hskips b hb
      · exact hskip
    · exact .inr ⟨a, by omega, hskips, hstop⟩

lemma editBlocks_error (h : (editBlocks raw edit (List.range n)).run s = .error e s') :
    s' = s ∧ e ≠ .panic := by
  rcases editBlocks_cases raw edit n s with ⟨-, hrun⟩ | ⟨b, -, -, hstop⟩
  · cases hrun.symm.trans h
  · rw [h] at hstop
    cases hstop with
    | unreadable _ hne => exact ⟨rfl, hne⟩
    | unwritable => exact ⟨rfl, nofun⟩

lemma editBlocks_none (h : (editBlocks raw edit (List.range n)).run s = .ok none s') :
    s' = s ∧ ∀ b < n, s.Skips raw edit b := by
  rcases editBlocks_cases raw edit n s with ⟨hskips, hrun⟩ | ⟨b, -, -, hstop⟩
  · cases hrun.symm.trans h
    exact ⟨rfl, hskips⟩
  · rw [h] at hstop
    cases hstop

/-- The block that is written comes after blocks that are passed over. -/
lemma editBlocks_some (h : (editBlocks raw edit (List.range n)).run s = .ok (some a) s') :
    ∃ b < n, ∃ records, (∀ b' < b, s.Skips raw edit b') ∧
      s.BlockReadable raw b ∧ s.fs.diskBlock raw b ≠ 0 ∧
      edit s.fs.blockSize (s.records (s.fs.diskBlock raw b)) = some (a, records) ∧
      s.fs.unwritable (.block (s.fs.diskBlock raw b)) = false ∧
      s' = s.setRecords (s.fs.diskBlock raw b) records := by
  rcases editBlocks_cases raw edit n s with ⟨-, hrun⟩ | ⟨b, hb, hskips, hstop⟩
  · cases hrun.symm.trans h
  · rw [h] at hstop
    cases hstop with
    | @write r hreadable hzero hedit hwrite =>
      exact ⟨b, hb, r.2, hskips, hreadable, hzero, hedit, hwrite, rfl⟩

/-- The loop does not stop before a block that can be edited. -/
lemma exists_editBlocks_some (hb : b < n) (hskips : ∀ b' < b, s.Skips raw edit b')
    (hreadable : s.BlockReadable raw b) (hzero : s.fs.diskBlock raw b ≠ 0)
    (hedit : edit s.fs.blockSize (s.records (s.fs.diskBlock raw b)) ≠ none)
    (hwrite : s.fs.unwritable (.block (s.fs.diskBlock raw b)) = false) :
    ∃ a s', (editBlocks raw edit (List.range n)).run s = .ok (some a) s' := by
  have hnot : ¬ s.Skips raw edit b := fun hskip => hskip.2.elim hzero hedit
  rcases editBlocks_cases raw edit n s with ⟨hall, -⟩ | ⟨b', -, hskips', hstop⟩
  · exact absurd (hall b hb) hnot
  generalize (editBlocks raw edit (range n)).run s = result at hstop ⊢
  have heq : b' = b := by
    rcases lt_trichotomy b' b with hlt | heq | hlt
    · exact absurd (hskips b' hlt) hstop.not_skips
    · exact heq
    · exact absurd (hskips' b hlt) hnot
  subst heq
  cases hstop with
  | unreadable hunreadable => exact absurd hreadable hunreadable
  | unwritable _ _ hfail =>
    rw [hwrite] at hfail
    cases hfail
  | write => exact ⟨_, _, rfl⟩

end

/-! ### The entries of a directory -/

/-- The number of blocks of a directory. -/
abbrev DirFs.count (s : DirFs) (d : BitVec 32) : ℕ := s.fs.dirBlocks (s.fs.inodes d)

/-- A block of a directory, or zero. -/
abbrev DirFs.block (s : DirFs) (d : BitVec 32) : ℕ → ℕ := s.fs.diskBlock (s.fs.inodes d)

section

variable {s s' : DirFs} {dirs : Finset (BitVec 32)} {d d' i : BitVec 32} {name : Name}
  {b k blockSize : ℕ} {l : List DirEntry} {e : Fault} {fileType : BitVec 8} {u : Unit}

lemma resolveBlock_of_diskBlock {fs : Super} {raw : Inode} (h : fs.diskBlock raw b ≠ 0) :
    resolveBlock { fs with unreadable := fun _ => false } raw b =
      .ok (fs.diskBlock raw b) := by
  rw [diskBlock] at h ⊢
  split at h
  · next hok => rw [hok]
  · exact absurd rfl h

lemma mem_blocksOf : k ∈ s.blocksOf d ↔ k ≠ 0 ∧
    ∃ b < s.count d, s.block d b = k := by
  simp only [DirFs.blocksOf, mem_filter, mem_map, mem_range, decide_eq_true_eq, and_comm]

/-- The blocks of a directory are blocks of its inode. -/
lemma mem_inodeBlocks_of_mem_blocksOf (h : k ∈ s.blocksOf d) :
    k ∈ s.fs.inodeBlocks (s.fs.inodes d) := by
  obtain ⟨hk, b, -, rfl⟩ := mem_blocksOf.mp h
  have hdata := mem_dataBlocks_of_resolveBlock hk
    (resolveBlock_of_diskBlock hk)
  exact dataBlocks_subset hdata

lemma WellFormed.apart (h : WellFormed s dirs) (hd : d ∈ dirs) : s.fs.Apart :=
  (h.healthy d hd).agree.toApart

lemma WellFormed.not_mem_blocksOf (h : WellFormed s dirs) (hd : d ∈ dirs) (hd' : d' ∈ dirs)
    (hne : d' ≠ d) (hk : k ∈ s.blocksOf d) : k ∉ s.blocksOf d' := fun hk' =>
  h.disjoint d hd d' hd' hne.symm (mem_inodeBlocks_of_mem_blocksOf hk)
    (mem_inodeBlocks_of_mem_blocksOf hk')

lemma diskBlock_injective (h : Healthy s.fs (s.fs.inodes d)) {b' : ℕ} (hb : s.block d b ≠ 0)
    (heq : s.block d b' = s.block d b) : b' = b := by
  have hb' := resolveBlock_of_diskBlock (heq ▸ hb)
  rw [show s.fs.diskBlock _ b' = _ from heq] at hb'
  exact resolveBlock_injective (s := { s.fs with unreadable := fun _ => false }) h.nodup hb hb'
    (resolveBlock_of_diskBlock hb)

lemma nodup_blocksOf (h : Healthy s.fs (s.fs.inodes d)) : (s.blocksOf d).Nodup := by
  rw [DirFs.blocksOf, filter_map]
  refine Nodup.map_on (fun b _ b' hb' heq => ?_) (nodup_range.filter _)
  have hne : s.block d b' ≠ 0 := of_decide_eq_true (mem_filter.mp hb').2
  exact diskBlock_injective h hne heq

lemma mem_entries {entry : Name × BitVec 32} :
    entry ∈ s.entries d ↔ ∃ k ∈ s.blocksOf d, entry ∈ live (s.records k) := mem_flatMap

lemma map_fst_entries : (s.entries d).map fst =
    (s.blocksOf d).flatMap fun k => (live (s.records k)).map fst := map_flatMap

/-- A name is in one block only. -/
lemma WellFormed.block_eq (h : WellFormed s dirs) (hd : d ∈ dirs) {k' : ℕ} (hk : k ∈ s.blocksOf d)
    (hk' : k' ∈ s.blocksOf d) (hname : name ∈ (live (s.records k)).map fst)
    (hname' : name ∈ (live (s.records k')).map fst) : k = k' := by
  have hnodup := h.unique d hd
  rw [map_fst_entries, nodup_flatMap] at hnodup
  by_contra hne
  have hsymm : Std.Symm (onFun Disjoint fun k =>
      (live (s.records k)).map fst) := ⟨fun _ _ hdis => hdis.symm⟩
  exact hnodup.2.forall hk hk' hne hname hname'

lemma Chain.map_fst_live (h : Chain blockSize l) :
    name ∈ (live l).map fst ↔ ∃ e ∈ l, e.Matches name := by
  constructor
  · intro hname
    obtain ⟨entry, hentry, rfl⟩ := mem_map.mp hname
    obtain ⟨e, he, hinode, -, rfl⟩ := mem_live.mp hentry
    exact ⟨e, he, hinode, rfl⟩
  · rintro ⟨e, he, hinode, rfl⟩
    exact mem_map.mpr ⟨(e.name, e.inode), mem_live.mpr ⟨e, he, hinode,
      (h.names e he hinode).1, rfl⟩, rfl⟩

lemma removeRecord_eq_none (h : Chain blockSize l) :
    removeRecord blockSize name l = none ↔ name ∉ (live l).map fst := by
  rw [h.map_fst_live]
  rcases removeRecord_spec name h with ⟨hnone, hall⟩ | ⟨i, l', hsome, hremoval⟩
  · exact iff_of_true hnone fun ⟨e, he, hmatch⟩ => hall e he hmatch
  · refine iff_of_false (by rw [hsome]; exact nofun) (not_not.mpr ?_)
    cases hremoval with
    | @first e back hmatch => exact ⟨e, mem_cons_self, hmatch⟩
    | @merge front p e back hmatch => exact ⟨e, by simp, hmatch⟩

/-- The entries of a directory, with those of one block in front. -/
lemma exists_perm_entries (h : s.fs.Apart) (hk : k ∈ s.blocksOf d) (hnodup : (s.blocksOf d).Nodup) :
    ∃ rest, ∀ l, ((s.setRecords k l).entries d).Perm (live l ++ rest) := by
  obtain ⟨front, back, hblocks⟩ := append_of_mem hk
  rw [hblocks, nodup_middle, nodup_cons, mem_append, not_or] at hnodup
  have hothers : ∀ blocks : List ℕ, k ∉ blocks → ∀ l, (blocks.flatMap fun k' =>
      live ((s.setRecords k l).records k')) = blocks.flatMap fun k' => live (s.records k') :=
    fun blocks hnot l => flatMap_congr fun k' hk' => by
      rw [records_setRecords_of_ne h (ne_of_mem_of_not_mem hk' hnot)]
  refine ⟨(front ++ back).flatMap fun k => live (s.records k), fun l => ?_⟩
  have hentries : (s.setRecords k l).entries d =
      (s.blocksOf d).flatMap fun k' => live ((s.setRecords k l).records k') := rfl
  rw [hentries, hblocks, flatMap_append, flatMap_cons, hothers front hnodup.1.1,
    hothers back hnodup.1.2, records_setRecords_self, flatMap_append, ← append_assoc,
    ← append_assoc]
  exact Perm.append_right _ perm_append_comm

lemma entries_setRecords_of_notMem (h : s.fs.Apart) (hk : k ∉ s.blocksOf d)
    (l : List DirEntry) : (s.setRecords k l).entries d = s.entries d :=
  flatMap_congr fun k' hk' => by
    rw [records_setRecords_of_ne h (ne_of_mem_of_not_mem hk' hk)]

lemma setRecords_self (h : s.fs.Apart) : s.setRecords k (s.records k) = s := by
  have hrecords := records_setRecords h k (s.records k)
  rw [update_eq_self] at hrecords
  exact congrArg (DirFs.mk s.fs) hrecords

/-- The directories of `s` have one entry more than those of `s'`. -/
structure OneMore (dirs : Finset (BitVec 32)) (d : BitVec 32) (name : Name) (i : BitVec 32)
    (s s' : DirFs) : Prop where
  perm : (s.entries d).Perm ((name, i) :: s'.entries d)
  others : ∀ d' ∈ dirs, d' ≠ d → s'.entries d' = s.entries d'

namespace OneMore

section

variable (h : OneMore dirs d name i s s')

include h

lemma mem_iff (hd' : d' ∈ dirs) {entry : Name × BitVec 32} :
    entry ∈ s.entries d' ↔ (d' = d ∧ entry = (name, i)) ∨ entry ∈ s'.entries d' := by
  rcases eq_or_ne d' d with rfl | hne
  · rw [h.perm.mem_iff]
    simp
  · rw [h.others d' hd' hne]
    simp [hne]

lemma notMem (hunique : ((s.entries d).map fst).Nodup) :
    name ∉ (s'.entries d).map fst := by
  have hnodup := (h.perm.map fst).nodup_iff.mp hunique
  rw [map_cons, nodup_cons] at hnodup
  exact hnodup.1

lemma unique (hd' : d' ∈ dirs) (hunique : ((s.entries d').map fst).Nodup) :
    ((s'.entries d').map fst).Nodup := by
  rcases eq_or_ne d' d with rfl | hne
  · have hnodup := (h.perm.map fst).nodup_iff.mp hunique
    rw [map_cons, nodup_cons] at hnodup
    exact hnodup.2
  · rw [h.others d' hd' hne]
    exact hunique

lemma linksTo (hd : d ∈ dirs) (j : BitVec 32) :
    s.linksTo dirs j = s'.linksTo dirs j + if i = j then 1 else 0 := by
  have hsum : ∀ s : DirFs, s.linksTo dirs j =
      (s.entries d).countP (fun entry => entry.2 = j) +
        ∑ d' ∈ dirs.erase d, (s.entries d').countP fun entry => entry.2 = j := fun s =>
    (Finset.add_sum_erase dirs _ hd).symm
  have hrest : ∀ d' ∈ dirs.erase d, ((s.entries d').countP fun entry => entry.2 = j) =
      (s'.entries d').countP fun entry => entry.2 = j := fun d' hd' => by
    rw [h.others d' (Finset.mem_of_mem_erase hd') (Finset.ne_of_mem_erase hd')]
  rw [hsum s, hsum s', Finset.sum_congr rfl hrest, h.perm.countP_eq, countP_cons,
    add_right_comm]
  simp only [decide_eq_true_eq]

end

end OneMore

/-! ### Removal -/

section

variable (h : WellFormed s dirs) (hd : d ∈ dirs)

include h hd

/-- The entry with the name is in one block, from which it is removed. -/
lemma WellFormed.exists_removal (hname : name ∈ (s.entries d).map fst) :
    ∃ k ∈ s.blocksOf d, ∃ i l, removeRecord s.fs.blockSize name (s.records k) = some (i, l) ∧
      Removal name (s.records k) i l ∧ (live (s.records k)).Perm ((name, i) :: live l) ∧
      s.without d name = s.setRecords k l := by
  rw [map_fst_entries] at hname
  obtain ⟨k, hk, hname⟩ := mem_flatMap.mp hname
  rcases removeRecord_spec name (h.chain d hd k hk) with ⟨hnone, -⟩ | ⟨i, l, hsome, hrem⟩
  · exact absurd hname ((removeRecord_eq_none (h.chain d hd k hk)).mp hnone)
  refine ⟨k, hk, i, l, hsome, hrem,
    hrem.perm fun e he hinode => ((h.chain d hd k hk).names e he hinode).1, ?_⟩
  have hrecords : (s.without d name).records = update s.records k l := by
    funext k'
    change (if k' ∈ s.blocksOf d then _ else _) = _
    rcases eq_or_ne k' k with rfl | heq
    · rw [if_pos hk, hsome, update_self]
      rfl
    rw [update_of_ne heq]
    split_ifs with hk'
    · -- the name is in no other block
      rw [(removeRecord_eq_none (h.chain d hd k' hk')).mpr fun hname' =>
        heq (h.block_eq hd hk' hk hname' hname)]
      rfl
    · rfl
  rw [← records_setRecords (h.apart hd)] at hrecords
  exact congrArg (DirFs.mk s.fs) hrecords

lemma WellFormed.oneMore_without (hentry : (name, i) ∈ s.entries d) :
    OneMore dirs d name i s (s.without d name) := by
  obtain ⟨k, hk, j, l, -, -, hlive, hwithout⟩ :=
    h.exists_removal hd (mem_map.mpr ⟨_, hentry, rfl⟩)
  have hmore : OneMore dirs d name j s (s.without d name) := by
    obtain ⟨rest, hrest⟩ :=
      exists_perm_entries (h.apart hd) hk (nodup_blocksOf (h.healthy d hd))
    rw [hwithout]
    refine ⟨?_, fun d' hd' hne => entries_setRecords_of_notMem (h.apart hd)
      (h.not_mem_blocksOf hd hd' hne hk) l⟩
    have hs := hrest (s.records k)
    rw [setRecords_self (h.apart hd)] at hs
    refine hs.trans ((Perm.append_right rest hlive).trans ?_)
    exact Perm.cons _ (hrest l).symm
  rcases (hmore.mem_iff hd).mp hentry with ⟨-, heq⟩ | hmem
  · cases heq
    exact hmore
  · exact absurd (mem_map.mpr ⟨_, hmem, rfl⟩) (hmore.notMem (h.unique d hd))

lemma WellFormed.without (hentry : (name, i) ∈ s.entries d) :
    WellFormed (s.without d name) dirs where
  blockSize := h.blockSize
  readInode := h.readInode
  healthy := h.healthy
  disjoint := h.disjoint
  isDir := h.isDir
  size := h.size
  chain := by
    intro d' hd' k' hk'
    have hchain := h.chain d' hd' k' hk'
    obtain ⟨k, hk, j, l, -, hrem, -, hwithout⟩ :=
      h.exists_removal hd (mem_map.mpr ⟨_, hentry, rfl⟩)
    rw [hwithout]
    rcases eq_or_ne k' k with rfl | heq
    · rw [records_setRecords_self]
      exact hrem.chain hchain h.blockSize.2
    · rw [records_setRecords_of_ne (h.apart hd) heq]
      exact hchain
  unique := fun d' hd' => (h.oneMore_without hd hentry).unique hd' (h.unique d' hd')

end

section

variable (h : WellFormed s dirs) (hd : d ∈ dirs)

include h hd

end

/-! ### Addition -/

/-- An entry is added to a directory. -/
structure Added (dirs : Finset (BitVec 32)) (d i : BitVec 32) (name : Name) (s s' : DirFs) :
    Prop where
  perm : (s'.entries d).Perm (newLive i name ++ s.entries d)
  others : ∀ d' ∈ dirs, d' ≠ d → s'.entries d' = s.entries d'
  links : ∀ j, (s'.fs.inodes j).iLinksCount = (s.fs.inodes j).iLinksCount

lemma Added.oneMore (h : Added dirs d i name s s') (hname : name ≠ []) (hlt : name.length < 256) :
    OneMore dirs d name i s' s := by
  refine ⟨?_, fun d' hd' hne => (h.others d' hd' hne).symm⟩
  have hperm := h.perm
  rwa [newLive, storedName, Nat.mod_eq_of_lt hlt, take_length, if_neg hname] at hperm

/-- Names that are too long or empty are not stored. -/
lemma Added.notMem (h : Added dirs d i name s s') (hname : name = [] ∨ 256 ≤ name.length)
    (hnot : name ∉ (s.entries d).map fst) : (name, i) ∉ s'.entries d := by
  intro hmem
  rcases mem_append.mp (h.perm.mem_iff.mp hmem) with hmem | hmem
  · rw [newLive] at hmem
    split_ifs at hmem with hstored
    · cases hmem
    · have heq : name = storedName name := (Prod.ext_iff.mp (mem_singleton.mp hmem)).1
      have hlength := length_storedName name
      rw [← heq] at hlength hstored
      rcases hname with hname | hname
      · exact hstored hname
      · omega
  · exact hnot (mem_map.mpr ⟨_, hmem, rfl⟩)

/-- The loop of `add_entry` over the records of a block. -/
def insertion (i : BitVec 32) (fileType : BitVec 8) (name : Name) (blockSize : ℕ)
    (records : List DirEntry) : Option (Unit × List DirEntry) :=
  (insertRecord blockSize i fileType name 0 records).map (((), ·))

lemma insertion_eq_none (h : Chain blockSize l) : insertion i fileType name blockSize l = none ↔
      ¬ ∃ e ∈ l, recordLen name ≤ e.recLen.toNat - e.actualLen := by
  obtain ⟨hroomy, hsum⟩ := chain_iff.mp h
  rw [insertion]
  rcases insertRecord_spec i fileType name hroomy
    ((zero_add _).trans hsum) with ⟨hnone, hall⟩ | ⟨front, e, back, rfl, he, hsome⟩
  · rw [hnone]
    exact iff_of_true rfl fun ⟨e, he, hle⟩ => absurd (hall e he) (not_lt.mpr hle)
  · rw [hsome]
    exact iff_of_false nofun (not_not.mpr ⟨e, by simp, he⟩)

lemma live_insertion {l' : List DirEntry} (h : Chain blockSize l) (hi : i ≠ 0)
    (hsome : insertion i fileType name blockSize l = some (u, l')) :
    (live l').Perm (newLive i name ++ live l) := by
  obtain ⟨hroomy, hsum⟩ := chain_iff.mp h
  rw [insertion] at hsome
  rcases insertRecord_spec i fileType name hroomy
    ((zero_add _).trans hsum) with ⟨hnone, hall⟩ | ⟨front, e, back, rfl, he, hinsert⟩
  · rw [hnone] at hsome
    cases hsome
  · rw [hinsert] at hsome
    cases hsome
    exact live_insert hi

/-- The blocks without room are passed over. -/
lemma WellFormed.skips_iff (h : WellFormed s dirs) (hd : d ∈ dirs) (hb : b < s.count d) :
    s.Skips (s.fs.inodes d) (insertion i fileType name) b ↔
      s.BlockReadable (s.fs.inodes d) b ∧ ¬ s.HasRoom (s.fs.inodes d) name b := by
  refine and_congr_right fun _ => ?_
  rw [DirFs.HasRoom, not_and, or_iff_not_imp_left]
  exact imp_congr_right fun hzero =>
    insertion_eq_none (h.chain d hd _ (mem_blocksOf.mpr ⟨hzero, b, hb, rfl⟩))

/-- The loop of `add_entry` over the blocks of a directory. -/
def adding (s : DirFs) (d i : BitVec 32) (fileType : BitVec 8) (name : Name) :
    EStateM.Result Fault DirFs (Option Unit) :=
  (editBlocks (s.fs.inodes d) (insertion i fileType name)
    (List.range (s.fs.dirBlocks (s.fs.inodes d)))).run s

section

variable (h : WellFormed s dirs) (hd : d ∈ dirs)

include h hd

lemma WellFormed.exists_adding (hcan : s.CanInsert d name) (i : BitVec 32) (fileType : BitVec 8) :
    ∃ s', adding s d i fileType name = .ok (some ()) s' := by
  obtain ⟨b, hb, hreadable, hfull, hroom, hwrite⟩ := hcan
  have hk := mem_blocksOf.mpr ⟨hroom.1, b, hb, rfl⟩
  have hskips : ∀ b' < b, s.Skips (s.fs.inodes d) (insertion i fileType name) b' := fun b' hlt =>
    (h.skips_iff hd (lt_trans hlt hb)).mpr ⟨hreadable b' (le_of_lt hlt), hfull b' hlt⟩
  obtain ⟨_, s', hok⟩ := exists_editBlocks_some hb hskips (hreadable b (le_refl b)) hroom.1
    (fun hnone => (insertion_eq_none (h.chain d hd _ hk)).mp hnone hroom.2) hwrite
  exact ⟨s', hok⟩

/-- The entry is added to the first block with room. -/
lemma WellFormed.of_adding (hi : i ≠ 0) (hrun : adding s d i fileType name = .ok (some ()) s') :
    s.CanInsert d name ∧ Added dirs d i name s s' := by
  obtain ⟨b, hb, records, hfront, hreadable, hzero, hedit, hwrite, rfl⟩ := editBlocks_some hrun
  have hk := mem_blocksOf.mpr ⟨hzero, b, hb, rfl⟩
  have hchain := h.chain d hd _ hk
  have hskips : ∀ b' < b, s.BlockReadable (s.fs.inodes d) b' ∧
      ¬ s.HasRoom (s.fs.inodes d) name b' := fun b' hb' =>
    (h.skips_iff hd (lt_trans hb' hb)).mp (hfront b' hb')
  refine ⟨⟨b, hb, fun b' hb' => ?_, fun b' hb' => (hskips b' hb').2, ⟨hzero, ?_⟩, hwrite⟩, ?_⟩
  · rcases Nat.lt_or_eq_of_le hb' with hb' | rfl
    · exact (hskips b' hb').1
    · exact hreadable
  · by_contra hfull
    rw [(insertion_eq_none hchain).mpr hfull] at hedit
    cases hedit
  · obtain ⟨rest, hrest⟩ :=
      exists_perm_entries (h.apart hd) hk (nodup_blocksOf (h.healthy d hd))
    have hs := hrest (s.records (s.block d b))
    rw [setRecords_self (h.apart hd)] at hs
    refine ⟨?_, fun d' hd' hne => entries_setRecords_of_notMem (h.apart hd)
      (h.not_mem_blocksOf hd hd' hne hk) records, fun _ => rfl⟩
    have hlive := live_insertion hchain hi hedit
    refine (hrest records).trans ((Perm.append_right rest hlive).trans ?_)
    rw [append_assoc]
    exact Perm.append_left _ hs.symm

lemma dirBlocks_mul : s.count d * s.fs.blockSize = (s.fs.inodes d).size := by
  have hpos : 0 < s.fs.blockSize := lt_of_lt_of_le (by decide) h.blockSize.1
  obtain ⟨n, hn⟩ := Nat.dvd_of_mod_eq_zero (h.size d hd)
  rw [DirFs.count, dirBlocks, hn, Nat.mul_add_div hpos,
    Nat.div_eq_of_lt (Nat.sub_lt hpos one_pos), add_zero, mul_comm]

end

/-- The state after a block is added to a directory. -/
structure BlockAdded (s s' : DirFs) (d i : BitVec 32) (fileType : BitVec 8) (name : Name)
    (b : ℕ) (raw : Inode) (fs : Super) (new gone : List ℕ) : Prop where
  alloc : (allocBlockForInode d (s.fs.inodes d) (s.fs.dirBlocks (s.fs.inodes d))).run s.fs =
    .ok (b, raw) fs
  allocated : Allocated s.fs fs (s.fs.inodes d) raw (s.fs.dirBlocks (s.fs.inodes d)) b new gone
  inodes : fs.inodes = update s.fs.inodes d raw
  kept : raw = { s.fs.inodes d with iBlock := raw.iBlock, iBlocks := raw.iBlocks }
  eq : s' = ⟨{ fs with inodes := update fs.inodes d { raw with
      iSize := BitVec.ofNat 32 ((s.fs.dirBlocks (s.fs.inodes d) + 1) * s.fs.blockSize) } },
    update s.records b
      [newEntry i (BitVec.ofNat 16 s.fs.blockSize) fileType name]⟩

lemma addBlock_spec (h : WellFormed s dirs) (hd : d ∈ dirs)
    (hrun : (addBlock d (s.fs.inodes d) i fileType name).run s = .ok u s') :
    ∃ b raw fs new gone, BlockAdded s s' d i fileType name b raw fs new gone := by
  rw [addBlock, run_get_bind] at hrun
  obtain ⟨⟨b, raw⟩, s₁, hcall, hrest₂⟩ := run_bind_eq_ok.mp hrun
  obtain ⟨fs, halloc, rfl⟩ := run_onFs_eq_ok.mp hcall
  dsimp only at hrest₂
  split at hrest₂
  · cases hrest₂
  obtain ⟨_, s₂, hwrite, hrest₃⟩ := run_bind_eq_ok.mp hrest₂
  rw [run_writeRecords] at hwrite
  split_ifs at hwrite
  cases hwrite
  obtain ⟨fs', hinode, rfl⟩ := run_onFs_eq_ok.mp hrest₃
  obtain rfl := writeInode_spec hinode
  obtain ⟨new, gone, hallocated, hinodes, hraw⟩ := allocBlockForInode_spec (h.healthy d hd) halloc
  refine ⟨b, raw, fs, new, gone, halloc, hallocated, hinodes, hraw, ?_⟩
  exact congrArg (DirFs.mk _)
    (records_setRecords (s := ⟨fs, s.records⟩) (hallocated.grown.layout.apart (h.apart hd)) b _)

namespace BlockAdded

variable {fileType : BitVec 8} {raw : Inode} {fs : Super} {new gone : List ℕ}
  (hadd : BlockAdded s s' d i fileType name b raw fs new gone)

include hadd

lemma ne_zero (h : WellFormed s dirs) (hd : d ∈ dirs) : b ≠ 0 :=
  (hadd.allocated.grown.free b hadd.allocated.mem).ne_zero (h.healthy d hd).zero

lemma records_of_mem (h : WellFormed s dirs) (hd' : d' ∈ dirs) (hk : k ∈ s.blocksOf d') :
    s'.records k = s.records k := by
  have hused := (h.healthy d' hd').used k (mem_inodeBlocks_of_mem_blocksOf hk)
  have hne : k ≠ b := fun heq => hadd.allocated.grown.not_used hadd.allocated.mem (heq ▸ hused)
  rw [hadd.eq]
  exact update_of_ne hne _ _

lemma blockSize_eq : s'.fs.blockSize = s.fs.blockSize := by
  rw [hadd.eq]
  exact hadd.allocated.grown.layout.blockSize

lemma inodes_of_ne (hne : d' ≠ d) : s'.fs.inodes d' = s.fs.inodes d' := by
  rw [hadd.eq]
  dsimp only
  rw [update_of_ne hne, hadd.inodes, update_of_ne hne]

lemma inodes_self : s'.fs.inodes d = { raw with
    iSize := BitVec.ofNat 32 ((s.count d + 1) * s.fs.blockSize) } := by
  rw [hadd.eq]
  exact update_self d _ fs.inodes

lemma links (j : BitVec 32) : (s'.fs.inodes j).iLinksCount = (s.fs.inodes j).iLinksCount := by
  by_cases hj : j = d
  · rw [hj, hadd.inodes_self, hadd.kept]
  · rw [hadd.inodes_of_ne hj]

lemma resolveBlock (b' : ℕ) :
    s'.fs.resolveBlock (s'.fs.inodes d) b' = fs.resolveBlock raw b' := by
  rw [hadd.inodes_self, hadd.eq]
  exact resolveBlock_congr rfl rfl rfl (fun _ _ => rfl) b'

lemma diskBlock_last : s'.block d (s.count d) = b :=
  diskBlock_of_resolveBlock ((hadd.resolveBlock _).trans hadd.allocated.resolve)

lemma diskBlock_of_readable {b' : ℕ} (hne : b' ≠ s.count d)
    (hreadable : s.BlockReadable (s.fs.inodes d) b') : s'.block d b' = s.block d b' := by
  obtain ⟨k, hk, -⟩ := hreadable
  rw [DirFs.block, DirFs.block, diskBlock_of_resolveBlock hk]
  exact diskBlock_of_resolveBlock ((hadd.resolveBlock b').trans
    ((hadd.allocated.resolve_of_ne b' hne).trans hk))

section

variable (h : WellFormed s dirs) (hd : d ∈ dirs)

include h hd

/-- The other directories have the blocks that they had. -/
lemma blocksOf_of_ne (hd' : d' ∈ dirs) (hne : d' ≠ d) : s'.blocksOf d' = s.blocksOf d' := by
  have hlayout := hadd.allocated.grown.layout
  have hdisk : ∀ b, s'.fs.diskBlock (s.fs.inodes d') b = s.fs.diskBlock (s.fs.inodes d') b := by
    intro b
    suffices hresolve : Super.resolveBlock { s'.fs with unreadable := fun _ => false }
        (s.fs.inodes d') b = Super.resolveBlock { s.fs with unreadable := fun _ => false } _ b by
      rw [Super.diskBlock, Super.diskBlock, hresolve]
    refine resolveBlock_congr rfl ?_ ?_ (fun g hg => ?_) b
    · rw [hadd.eq]
      exact hlayout.ptrs
    · rfl
    · rw [hadd.eq]
      have hnotMem : g ∉ s.fs.inodeBlocks (s.fs.inodes d) := fun hmem =>
        h.disjoint d hd d' hd' hne.symm hmem hg
      refine hadd.allocated.frame g hnotMem fun hmem => ?_
      exact hadd.allocated.grown.not_used hmem ((h.healthy d' hd').used g hg)
  rw [DirFs.blocksOf, DirFs.blocksOf, hadd.inodes_of_ne hne, Super.dirBlocks, Super.dirBlocks,
    hadd.blockSize_eq, map_congr_left fun b _ => hdisk b]

lemma entries_of_ne (hd' : d' ∈ dirs) (hne : d' ≠ d) : s'.entries d' = s.entries d' := by
  rw [DirFs.entries, hadd.blocksOf_of_ne h hd hd' hne]
  exact flatMap_congr fun k hk => by rw [hadd.records_of_mem h hd' hk]

/-- The size is kept in 32 bits. -/
lemma size_eq : (s'.fs.inodes d).size = (s.count d + 1) * s.fs.blockSize % 2 ^ 32 := by
  have hreg : (s'.fs.inodes d).isReg = false := by
    rw [hadd.inodes_self, hadd.kept]
    exact h.isDir d hd
  rw [Inode.size, hreg, hadd.inodes_self]
  rfl

section

variable (hreadable : ∀ b < s.count d, s.BlockReadable (s.fs.inodes d) b)

include hreadable

/-- The new block is the last one, if the size fits. -/
lemma blocksOf_self (hfits : (s.count d + 1) * s.fs.blockSize < 2 ^ 32) :
    s'.blocksOf d = s.blocksOf d ++ [b] := by
  have hpos : 0 < s.fs.blockSize := lt_of_lt_of_le (by decide) h.blockSize.1
  have hcount : s'.count d = s.count d + 1 := by
    rw [DirFs.count, dirBlocks, hadd.size_eq h hd, Nat.mod_eq_of_lt hfits, hadd.blockSize_eq,
      mul_comm, Nat.mul_add_div hpos, Nat.div_eq_of_lt (Nat.sub_lt hpos one_pos)]
  rw [DirFs.blocksOf, ← DirFs.count, ← DirFs.block, hcount, range_succ, map_append, filter_append,
    map_singleton, hadd.diskBlock_last, filter_cons_of_pos (by
      rw [decide_eq_true_eq]
      exact hadd.ne_zero h hd), filter_nil]
  rw [DirFs.blocksOf, map_congr_left fun b' hb' => hadd.diskBlock_of_readable
    (ne_of_lt (mem_range.mp hb')) (hreadable b' (mem_range.mp hb'))]

/-- If the size does not fit, there is no block behind the old ones. -/
lemma blocksOf_subset (hfull : 2 ^ 32 ≤ (s.count d + 1) * s.fs.blockSize) :
    s'.blocksOf d ⊆ s.blocksOf d := by
  have hsmall := h.blockSize.2
  have hmul := dirBlocks_mul h hd
  have hsize : (s.fs.inodes d).size < 2 ^ 32 := by
    rw [Inode.size, h.isDir d hd]
    exact (s.fs.inodes d).iSize.isLt
  have hwrapped : (s'.fs.inodes d).size < s.fs.blockSize := by
    rw [hadd.size_eq h hd]
    rw [Nat.succ_mul] at hfull ⊢
    omega
  have hcount : s'.count d ≤ 1 := by
    rw [DirFs.count, dirBlocks, hadd.blockSize_eq]
    refine Nat.lt_succ_iff.mp (Nat.div_lt_of_lt_mul ?_)
    omega
  have hpos : 1 ≤ s.count d := by
    by_contra hzero
    rw [Nat.lt_one_iff.mp (not_le.mp hzero)] at hfull
    omega
  intro k hk
  obtain ⟨hk, b', hb', rfl⟩ := mem_blocksOf.mp hk
  have hlt : b' < s.count d := by omega
  rw [hadd.diskBlock_of_readable (ne_of_lt hlt) (hreadable b' hlt)] at hk ⊢
  exact mem_blocksOf.mpr ⟨hk, b', hlt, rfl⟩

/-- The entry is the only one of the new block. -/
lemma added (hi : i ≠ 0) (hfits : (s.count d + 1) * s.fs.blockSize < 2 ^ 32) :
    Added dirs d i name s s' := by
  refine ⟨?_, fun d' hd' hne => hadd.entries_of_ne h hd hd' hne, hadd.links⟩
  have hnew : s'.records b = [newEntry i (BitVec.ofNat 16 s.fs.blockSize) fileType name] := by
    rw [hadd.eq]
    exact update_self b _ s.records
  rw [DirFs.entries, hadd.blocksOf_self h hd hreadable hfits, flatMap_append,
    flatMap_cons, flatMap_nil, append_nil, hnew, live_newEntry hi]
  rw [flatMap_congr fun k hk => by
    rw [hadd.records_of_mem h hd hk]]
  exact perm_append_comm

lemma entries_subset (hfull : 2 ^ 32 ≤ (s.count d + 1) * s.fs.blockSize) :
    s'.entries d ⊆ s.entries d := by
  intro entry hentry
  obtain ⟨k, hk, hlive⟩ := mem_entries.mp hentry
  have hk := hadd.blocksOf_subset h hd hreadable hfull hk
  rw [hadd.records_of_mem h hd hk] at hlive
  exact mem_entries.mpr ⟨k, hk, hlive⟩

end

end

end BlockAdded

/-- Records of blocks in use are kept if no block can be added. -/
lemma addBlock_error (h : WellFormed s dirs) (hd : d ∈ dirs)
    (hrun : (addBlock d (s.fs.inodes d) i fileType name).run s = .error e s')
    (hk : s.fs.Used .blocks k) : s'.records k = s.records k := by
  rw [addBlock, run_get_bind] at hrun
  rcases run_bind_eq_error.mp hrun with hcall | ⟨⟨b, raw⟩, s₁, hcall, hrest⟩
  · obtain ⟨fs, -, rfl⟩ := run_onFs_eq_error.mp hcall
    rfl
  obtain ⟨fs, halloc, rfl⟩ := run_onFs_eq_ok.mp hcall
  obtain ⟨new, gone, hallocated, -, -⟩ := allocBlockForInode_spec (h.healthy d hd) halloc
  have hne : k ≠ b := fun heq => hallocated.grown.not_used hallocated.mem (heq ▸ hk)
  dsimp only at hrest
  split at hrest
  · cases hrest
    rfl
  rcases run_bind_eq_error.mp hrest with hwrite | ⟨u, s₂, hwrite, hrest⟩
  · rw [run_writeRecords] at hwrite
    split_ifs at hwrite
    cases hwrite
    rfl
  · rw [run_writeRecords] at hwrite
    split_ifs at hwrite
    cases hwrite
    obtain ⟨fs', -, rfl⟩ := run_onFs_eq_error.mp hrest
    exact records_setRecords_of_ne (s := ⟨fs, s.records⟩)
      (hallocated.grown.layout.apart (h.apart hd)) hne _

/-- The block and the inode were written by the allocation. -/
lemma allocBlockForInode_writable {fs fs' : Super} {raw raw' : Inode} {lb : ℕ}
    (hs : Healthy fs raw) (hrun : (allocBlockForInode d raw lb).run fs = .ok (b, raw') fs') :
    fs'.unwritable (.block b) = false ∧ (fs'.readInode d).isOk ∧
      fs'.unwritable (.inode d) = false := by
  obtain ⟨_, _, hallocated, -, -⟩ := allocBlockForInode_spec hs hrun
  rw [allocBlockForInode] at hrun
  obtain ⟨slot, -, hrest₁⟩ := run_reading_bind_eq_ok.mp hrun
  obtain ⟨b₁, s₁, hzeroed, hrest₂⟩ := run_bind_eq_ok.mp hrest₁
  obtain ⟨raw₁, s₂, -, hrest₃⟩ := run_bind_eq_ok.mp hrest₂
  obtain ⟨u, hinode, ⟨⟩⟩ := run_bind_pure_eq_ok.mp hrest₃
  refine ⟨?_, ?_⟩
  · rw [hallocated.grown.layout.unwritable]
    rw [allocZeroed] at hzeroed
    obtain ⟨b₂, s₄, halloc, hrest₆⟩ := run_bind_eq_ok.mp hzeroed
    obtain ⟨-, rfl⟩ := allocBlock_spec hs.agree halloc
    obtain ⟨_, hwrite, ⟨⟩⟩ := run_bind_pure_eq_ok.mp hrest₆
    exact (run_writing_eq_ok.mp hwrite).1
  · rw [writeInode] at hinode
    obtain ⟨_, hread, hwrite⟩ := run_reading_bind_eq_ok.mp hinode
    obtain ⟨hwritable, rfl⟩ := run_writing_eq_ok.mp hwrite
    refine ⟨?_, hwritable⟩
    rw [readInode_inodes, hread]
    rfl

/-- The writes that follow the allocation of a block cannot fail. -/
lemma exists_addBlock (h : WellFormed s dirs) (hd : d ∈ dirs) (hcan : s.CanGrow d name)
    (hname : name.length < 256) (i : BitVec 32) (fileType : BitVec 8) :
    ∃ s', (addBlock d (s.fs.inodes d) i fileType name).run s = .ok () s' := by
  obtain ⟨-, ⟨⟨b, raw⟩, fs, halloc⟩, -⟩ := hcan
  obtain ⟨hblock, hread, hinode⟩ := allocBlockForInode_writable (h.healthy d hd) halloc
  have hsmall : ¬ sizeOfDirEntry + name.length > s.fs.blockSize := by
    have hle := h.blockSize.1
    rw [sizeOfDirEntry]
    omega
  rw [addBlock, run_get_bind, run_bind_ok (run_onFs_eq_ok.mpr ⟨fs, halloc, rfl⟩)]
  dsimp only
  rw [if_neg hsmall, run_bind_ok ((run_writeRecords _ _).trans
    (if_neg (Bool.eq_false_iff.mp hblock)))]
  exact ⟨_, run_onFs_eq_ok.mpr ⟨_, (run_writeInode hread _).trans
    (if_neg (Bool.eq_false_iff.mp hinode)), rfl⟩⟩

/-- `add_entry`, after the inode is read. -/
lemma run_addEntry (hread : (s.fs.readInode d).isOk) :
    (addEntry d i fileType name).run s = match adding s d i fileType name with
      | .ok (some _) s' => .ok () s'
      | .ok none s' => (addBlock d (s.fs.inodes d) i fileType name).run s'
      | .error e s' => .error e s' := by
  rw [addEntry, run_bind_ok (run_onFs_reading_ok (readInode_of_isOk hread)), run_get_bind]
  cases hloop : adding s d i fileType name with
  | error e s' => exact run_bind_error hloop
  | ok result s' =>
    refine (run_bind_ok hloop).trans ?_
    cases result <;> rfl

/-- How `add_entry` ends. -/
lemma addEntry_cases (s : DirFs) (d i : BitVec 32) (fileType : BitVec 8) (name : Name) :
    (∃ e, (addEntry d i fileType name).run s = .error e s) ∨
    (s.fs.readInode d).isOk ∧
      ((∃ s', adding s d i fileType name = .ok (some ()) s' ∧
        (addEntry d i fileType name).run s = .ok () s') ∨
      adding s d i fileType name = .ok none s ∧ (addEntry d i fileType name).run s =
        (addBlock d (s.fs.inodes d) i fileType name).run s) := by
  cases hraw : s.fs.readInode d with
  | error e => exact .inl ⟨e, run_bind_error (run_onFs_reading_error hraw)⟩
  | ok raw =>
    rw [run_addEntry (by rw [hraw]; rfl)]
    cases hloop : adding s d i fileType name with
    | error e s₁ =>
      obtain ⟨rfl, -⟩ := editBlocks_error hloop
      exact .inl ⟨e, rfl⟩
    | ok result s₁ =>
      cases result with
      | some _ => exact .inr ⟨rfl, .inl ⟨s₁, rfl, rfl⟩⟩
      | none =>
        obtain ⟨rfl, -⟩ := editBlocks_none hloop
        exact .inr ⟨rfl, .inr ⟨rfl, rfl⟩⟩

section

variable (h : WellFormed s dirs) (hd : d ∈ dirs)

include h hd

/-- `add_entry` adds the entry to a block with room or in a new one. -/
lemma WellFormed.addEntry_ok (hi : i ≠ 0) (hrun : (addEntry d i fileType name).run s = .ok u s') :
    (s.CanAdd d name ∧ Added dirs d i name s s') ∨
      (¬ s.CanAdd d name ∧ s'.entries d ⊆ s.entries d) := by
  rcases addEntry_cases s d i fileType name with
    ⟨e, herror⟩ | ⟨hok, ⟨s₁, hloop, heq⟩ | ⟨hloop, heq⟩⟩
  · cases herror.symm.trans hrun
  · cases heq.symm.trans hrun
    obtain ⟨hinsert, hadded⟩ := h.of_adding hd hi hloop
    exact .inl ⟨⟨hok, .inl hinsert⟩, hadded⟩
  · obtain ⟨-, hskips⟩ := editBlocks_none hloop
    have hfull : ∀ b < s.count d, s.BlockReadable (s.fs.inodes d) b ∧
        ¬ s.HasRoom (s.fs.inodes d) name b := fun b hb =>
      (h.skips_iff hd hb).mp (hskips b hb)
    obtain ⟨b, raw, fs, new, gone, hadd⟩ := addBlock_spec h hd (heq.symm.trans hrun)
    by_cases hfits : (s.count d + 1) * s.fs.blockSize < 2 ^ 32
    · exact .inl ⟨⟨hok, .inr ⟨hfull, ⟨_, _, hadd.alloc⟩, hfits⟩⟩,
        hadd.added h hd (fun b hb => (hfull b hb).1) hi hfits⟩
    · refine .inr ⟨?_, hadd.entries_subset h hd (fun b hb => (hfull b hb).1)
        (not_lt.mp hfits)⟩
      rintro ⟨-, hinsert | hgrow⟩
      · obtain ⟨_, hsome⟩ := h.exists_adding hd hinsert i fileType
        cases hloop.symm.trans hsome
      · exact hfits hgrow.2.2

/-- The records of blocks in use are kept if no entry is added. -/
lemma WellFormed.addEntry_error (hrun : (addEntry d i fileType name).run s = .error e s')
    (hk : s.fs.Used .blocks k) : s'.records k = s.records k := by
  rcases addEntry_cases s d i fileType name with ⟨e, herror⟩ | ⟨-, ⟨s₁, -, heq⟩ | ⟨-, heq⟩⟩
  · cases herror.symm.trans hrun
    rfl
  · cases heq.symm.trans hrun
  · exact addBlock_error h hd (heq.symm.trans hrun) hk

lemma WellFormed.exists_addEntry (hcan : s.CanAdd d name) (hname : name.length < 256)
    (i : BitVec 32) (fileType : BitVec 8) :
    ∃ s', (addEntry d i fileType name).run s = .ok () s' := by
  obtain ⟨hok, hcan⟩ := hcan
  rw [run_addEntry hok]
  rcases hcan with hinsert | hgrow
  · obtain ⟨s', hloop⟩ := h.exists_adding hd hinsert i fileType
    exact ⟨s', by rw [hloop]⟩
  · have hloop : adding s d i fileType name = .ok none s := by
      rcases editBlocks_cases _ _ _ s with ⟨-, hrun⟩ | ⟨b, hb, -, hstop⟩
      · exact hrun
      · exact absurd ((h.skips_iff hd hb).mpr (hgrow.1 b hb)) hstop.not_skips
    rw [hloop]
    exact exists_addBlock h hd hgrow hname i fileType

end

end

end Ext2

end Zinnia
