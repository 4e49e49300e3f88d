import Zinnia.Drivers.Ext2.Directory.Entries

/-!
# Renaming

A rename removes the new name, removes the old one and then adds the new one. The steps cannot be
undone: a rename is atomic if and only if its first step fails, or no later one does.
-/

namespace Zinnia

open Comp Function Prod List Ext2.Super Ext2.DirFs

namespace Ext2

/-! ### Links -/

section

variable {s s' s₁ : DirFs} {dirs : Finset (BitVec 32)} {d i : BitVec 32} {name : Name} {r : Rename}
  {entry : Name × BitVec 32}

/-- The link count of an inode does not matter for other parts of it. -/
lemma inodes_unlink {β : Type} (f : Inode → β) (hf : ∀ raw, f raw.unlinked = f raw)
    (d : BitVec 32) : f ((s.unlink i).fs.inodes d) = f (s.fs.inodes d) := by
  rcases eq_or_ne d i with rfl | heq
  · simp only [unlink, update_self, hf]
  · simp only [unlink, update_of_ne heq]

lemma blocksOf_unlink (d : BitVec 32) : (s.unlink i).blocksOf d = s.blocksOf d :=
  inodes_unlink (fun raw =>
    ((range (s.fs.dirBlocks raw)).map (s.fs.diskBlock raw)).filter fun k => decide (k ≠ 0))
    (fun _ => rfl) d

lemma entries_unlink (d : BitVec 32) : (s.unlink i).entries d = s.entries d := by
  rw [entries, blocksOf_unlink]
  rfl

lemma linksTo_unlink (j : BitVec 32) : (s.unlink i).linksTo dirs j = s.linksTo dirs j := by
  simp only [linksTo, entries_unlink]

section

variable (h : WellFormed s dirs)

include h

lemma WellFormed.unlink (i : BitVec 32) : WellFormed (s.unlink i) dirs where
  blockSize := h.blockSize
  readInode := by
    intro ino hpanic
    rw [DirFs.unlink, readInode_inodes] at hpanic
    cases hread : s.fs.readInode ino with
    | error e =>
      rw [hread] at hpanic
      cases hpanic
      exact h.readInode ino hread
    | ok raw =>
      rw [hread] at hpanic
      cases hpanic
  healthy := fun d hd => by
    have hblocks : s.fs.inodeBlocks ((s.unlink i).fs.inodes d) = s.fs.inodeBlocks (s.fs.inodes d) :=
      inodes_unlink s.fs.inodeBlocks (fun _ => rfl) d
    have hd := h.healthy d hd
    exact ⟨hd.agree.write _ _, hd.zero, fun g hg => hd.used g (hblocks ▸ hg),
      hblocks ▸ hd.nodup⟩
  disjoint := fun d hd d' hd' hne => by
    have hdis := h.disjoint d hd d' hd' hne
    rwa [← inodes_unlink s.fs.inodeBlocks (fun _ => rfl) d,
      ← inodes_unlink s.fs.inodeBlocks (fun _ => rfl) d'] at hdis
  isDir := fun d hd => (inodes_unlink Inode.isReg (fun _ => rfl) d).trans (h.isDir d hd)
  size := fun d hd =>
    (inodes_unlink (fun raw => raw.size % s.fs.blockSize) (fun _ => rfl) d).trans (h.size d hd)
  chain := fun d hd k hk => h.chain d hd k (blocksOf_unlink d ▸ hk)
  unique := fun d hd => by
    rw [entries_unlink]
    exact h.unique d hd

/-- The new entry is missing, or the records are kept and there is an error. -/
def Lost (s : DirFs) (d : BitVec 32) (entry : Name × BitVec 32) :
    EStateM.Result Fault DirFs Unit → Prop
  | .ok () s' => entry ∉ s'.entries d
  | .error _ s' => ∀ k, s.fs.Used .blocks k → s'.records k = s.records k

/-- A new name is added, or it is lost. -/
lemma WellFormed.addEntry_cases (hd : d ∈ dirs) (hi : i ≠ 0) (hnew : name ∉ (s.entries d).map fst)
    (fileType : BitVec 8) :
    ((s.CanAdd d name ∧ name ≠ [] ∧ name.length < 256) ∧ ∃ s',
      (addEntry d i fileType name).run s = .ok () s' ∧ OneMore dirs d name i s' s ∧
      ∀ j, (s'.fs.inodes j).iLinksCount = (s.fs.inodes j).iLinksCount) ∨
    (¬ (s.CanAdd d name ∧ name ≠ [] ∧ name.length < 256) ∧
      Lost s d (name, i) ((addEntry d i fileType name).run s)) := by
  by_cases hcan : s.CanAdd d name ∧ name ≠ [] ∧ name.length < 256
  · obtain ⟨s', hrun⟩ := h.exists_addEntry hd hcan.1 hcan.2.2 i fileType
    rcases h.addEntry_ok hd hi hrun with ⟨-, hadded⟩ | ⟨hnot, -⟩
    · exact .inl ⟨hcan, s', hrun, hadded.oneMore hcan.2.1 hcan.2.2, hadded.links⟩
    · exact absurd hcan.1 hnot
  · refine .inr ⟨hcan, ?_⟩
    cases hrun : (addEntry d i fileType name).run s with
    | ok u s' =>
      rcases h.addEntry_ok hd hi hrun with ⟨hadd, hadded⟩ | ⟨-, hsubset⟩
      · refine hadded.notMem ?_ hnew
        by_contra hname
        rw [not_or, not_le] at hname
        exact hcan ⟨hadd, hname⟩
      · exact fun hmem => hnew (mem_map.mpr ⟨_, hsubset hmem, rfl⟩)
    | error e s' => exact fun k hk => h.addEntry_error hd hrun hk

end

/-- The links after the removal of a target. -/
lemma Linked.unlink (h : Linked s dirs) (hd : d ∈ dirs)
    (hmore : OneMore dirs d name i s (s.without d name)) :
    Linked ((s.without d name).unlink i) dirs := by
  intro j
  have hlinks := h j
  rw [hmore.linksTo hd] at hlinks
  rw [linksTo_unlink]
  change (update s.fs.inodes i (s.fs.inodes i).unlinked j).iLinksCount.toNat = _
  rcases eq_or_ne i j with rfl | hj
  · rw [if_pos rfl] at hlinks
    rw [update_self, Inode.unlinked]
    have hne : (s.fs.inodes i).iLinksCount ≠ 0 := by
      intro hzero
      rw [hzero] at hlinks
      exact absurd hlinks (Nat.succ_ne_zero _).symm
    rw [if_neg hne]
    bv_omega
  · rw [if_neg hj] at hlinks
    rw [update_of_ne (Ne.symm hj)]
    exact hlinks

/-- The last two steps of a rename. -/
def Rename.move (r : Rename) : DirM Unit := do
  let _ ← removeEntry r.dir r.oldName
  addEntry r.targetDir r.inode r.fileType r.newName

lemma Unchanged.refl (s : DirFs) : Unchanged s s := ⟨fun _ => rfl, rfl⟩

namespace Rename

variable {r : Rename}

section

variable {existing : BitVec 32}

section

variable (h : r.Valid dirs s) (hr : r.existing = some existing)

include h hr

end

end

end Rename

end

end Ext2

end Zinnia
