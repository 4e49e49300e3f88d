import Zinnia.Drivers.Ext2.Directory

/-!
# The records of a directory block

A name is added by splitting a record or by reusing a dead one. A name is removed by merging its
record with the previous one, or by marking it as dead. The chain stays well formed, and the other
names stay.
-/

namespace Zinnia

open List Nat

namespace Ext2

/-- The records of a chain after a removal. -/
inductive Removal (name : Name) : List DirEntry → BitVec 32 → List DirEntry → Prop
  | first {e : DirEntry} {back : List DirEntry} : e.Matches name →
    Removal name (e :: back) e.inode ({ e with inode := 0 } :: back)
  | merge {front : List DirEntry} {p e : DirEntry} {back : List DirEntry} : e.Matches name →
    Removal name (front ++ p :: e :: back) e.inode
      (front ++ { p with recLen := p.recLen + e.recLen } :: back)

section

variable {e : DirEntry} {l l' front back : List DirEntry} {name : Name} {blockSize pos : ℕ}
  {i : BitVec 32} {fileType : BitVec 8}

lemma live_append (l l' : List DirEntry) : live (l ++ l') = live l ++ live l' := by
  rw [live, filter_append, map_append, live, live]

lemma live_cons (e : DirEntry) (l : List DirEntry) : live (e :: l) = live [e] ++ live l :=
  live_append [e] l

lemma live_dead (h : e.inode = 0) : live [e] = [] := by
  rw [live, filter_cons_of_neg (by rw [decide_eq_true_eq]; exact fun hlive => hlive.1 h)]
  rfl

lemma live_nameless (h : e.name = []) : live [e] = [] := by
  rw [live, filter_cons_of_neg (by rw [decide_eq_true_eq]; exact fun hlive => hlive.2 h)]
  rfl

lemma live_singleton (h : e.inode ≠ 0) (hname : e.name ≠ []) : live [e] = [(e.name, e.inode)] := by
  rw [live, filter_cons_of_pos (by rw [decide_eq_true_eq]; exact ⟨h, hname⟩)]
  rfl

/-- The length of a record does not matter. -/
lemma live_setLen (recLen : BitVec 16) : live [{ e with recLen }] = live [e] := by
  simp only [live, filter_cons, filter_nil]
  split_ifs <;> rfl

lemma mem_live {entry : Name × BitVec 32} :
    entry ∈ live l ↔ ∃ e ∈ l, e.inode ≠ 0 ∧ e.name ≠ [] ∧ (e.name, e.inode) = entry := by
  simp only [live, mem_map, mem_filter, decide_eq_true_eq, and_assoc]

/-- What the chain of a block needs of its records. -/
def Roomy (e : DirEntry) : Prop :=
  (sizeOfDirEntry ≤ e.recLen.toNat ∧ e.actualLen ≤ e.recLen.toNat) ∧
    (e.inode ≠ 0 → e.name ≠ [] ∧ e.name.length < 256)

lemma chain_iff : Chain blockSize l ↔
    (∀ e ∈ l, Roomy e) ∧ (l.map fun e => e.recLen.toNat).sum = blockSize :=
  ⟨fun h => ⟨fun e he => ⟨h.room e he, h.names e he⟩, h.sum⟩,
    fun h => ⟨fun e he => (h.1 e he).1, fun e he => (h.1 e he).2, h.2⟩⟩

lemma Roomy.freeSpace (h : Roomy e) : e.freeSpace = e.recLen.toNat - e.actualLen := by
  have hle := h.1.2
  rw [DirEntry.freeSpace, mod_eq_sub_mod (by omega)]
  omega

/-- A record of a chain is not the end. -/
lemma Roomy.not_atEnd (h : Roomy e) {rest : List DirEntry}
    (hsum : pos + ((e :: rest).map fun e => e.recLen.toNat).sum = blockSize) :
    ¬ e.AtEnd blockSize pos := by
  rw [map_cons, sum_cons] at hsum
  have hle := h.1.1
  rintro (hend | hzero)
  · omega
  · rw [hzero] at hle
    exact absurd hle (by decide)

/-! ### Insertion -/

/-- The records that replace one with room. -/
def splitRecord (i : BitVec 32) (fileType : BitVec 8) (name : Name) (e : DirEntry) :
    List DirEntry :=
  if e.inode ≠ 0 then
    [{ e with recLen := BitVec.ofNat 16 e.actualLen },
      newEntry i (e.recLen - BitVec.ofNat 16 e.actualLen) fileType name]
  else [newEntry i e.recLen fileType name]

lemma insertRecord_spec (i : BitVec 32) (fileType : BitVec 8) (name : Name)
    (hroomy : ∀ e ∈ l, Roomy e)
    (hsum : pos + (l.map fun e => e.recLen.toNat).sum = blockSize) :
    (insertRecord blockSize i fileType name pos l = none ∧
      ∀ e ∈ l, e.recLen.toNat - e.actualLen < recordLen name) ∨
    ∃ front e back, l = front ++ e :: back ∧
      recordLen name ≤ e.recLen.toNat - e.actualLen ∧
      insertRecord blockSize i fileType name pos l =
        some (front ++ splitRecord i fileType name e ++ back) := by
  induction l generalizing pos with
  | nil => exact .inl ⟨rfl, nofun⟩
  | cons e l ih =>
    obtain ⟨he, hroomy⟩ := forall_mem_cons.mp hroomy
    rw [insertRecord, if_neg (he.not_atEnd hsum), he.freeSpace]
    by_cases hfree : e.recLen.toNat - e.actualLen ≥ recordLen name
    · rw [if_pos hfree]
      refine .inr ⟨[], e, l, rfl, hfree, ?_⟩
      rw [splitRecord]
      split_ifs <;> rfl
    · rw [if_neg hfree]
      rw [map_cons, sum_cons, ← add_assoc] at hsum
      rcases ih hroomy hsum with
        ⟨hnone, hall⟩ | ⟨front, x, back, rfl, hx, hsome⟩
      · rw [hnone]
        exact .inl ⟨rfl, forall_mem_cons.mpr ⟨not_le.mp hfree, hall⟩⟩
      · rw [hsome]
        exact .inr ⟨e :: front, x, back, rfl, hx, rfl⟩

/-- The name that is stored. -/
def storedName (name : Name) : Name := name.take (name.length % 256)

lemma length_storedName (name : Name) : (storedName name).length = name.length % 256 := by
  rw [storedName, length_take, min_eq_left (mod_le _ _)]

/-- The entry that is added. -/
def newLive (i : BitVec 32) (name : Name) : List (Name × BitVec 32) :=
  if storedName name = [] then [] else [(storedName name, i)]

lemma live_newEntry (hi : i ≠ 0) (recLen : BitVec 16) :
    live [newEntry i recLen fileType name] = newLive i name := by
  rw [newLive]
  split_ifs with hname
  · exact live_nameless hname
  · exact live_singleton hi hname

lemma live_splitRecord (hi : i ≠ 0) :
    (live (splitRecord i fileType name e)).Perm (newLive i name ++ live [e]) := by
  rw [splitRecord]
  split_ifs with hinode
  · rw [live_cons, live_setLen, live_newEntry hi]
    exact perm_append_comm
  · rw [live_newEntry hi, live_dead (not_not.mp hinode), append_nil]

/-- The entry is added to the names of the chain. -/
lemma live_insert (hi : i ≠ 0) :
    (live (front ++ splitRecord i fileType name e ++ back)).Perm
      (newLive i name ++ live (front ++ e :: back)) := by
  rw [live_append, live_append, live_append, live_cons e back, ← append_assoc, ← append_assoc]
  refine Perm.append_right _ ?_
  refine (Perm.append_left _ (live_splitRecord hi)).trans ?_
  rw [← append_assoc]
  exact Perm.append_right _ perm_append_comm

/-! ### Removal -/

lemma removeAfter_spec (prev : DirEntry) (hroomy : ∀ e ∈ l, Roomy e)
    (hsum : pos + (l.map fun e => e.recLen.toNat).sum = blockSize) :
    (removeAfter blockSize name prev pos l = none ∧ ∀ e ∈ l, ¬ e.Matches name) ∨
    ∃ front p e back, prev :: l = front ++ p :: e :: back ∧ e.Matches name ∧
      removeAfter blockSize name prev pos l =
        some (e.inode, front ++ { p with recLen := p.recLen + e.recLen } :: back) := by
  induction l generalizing prev pos with
  | nil => exact .inl ⟨rfl, nofun⟩
  | cons e l ih =>
    obtain ⟨he, hroomy⟩ := forall_mem_cons.mp hroomy
    rw [removeAfter, if_neg (he.not_atEnd hsum)]
    by_cases hmatch : e.Matches name
    · rw [if_pos hmatch]
      exact .inr ⟨[], prev, e, l, rfl, hmatch, rfl⟩
    · rw [if_neg hmatch]
      rw [map_cons, sum_cons, ← add_assoc] at hsum
      rcases ih e hroomy hsum with
        ⟨hnone, hall⟩ | ⟨front, p, x, back, heq, hx, hsome⟩
      · rw [hnone]
        exact .inl ⟨rfl, forall_mem_cons.mpr ⟨hmatch, hall⟩⟩
      · rw [hsome]
        exact .inr ⟨prev :: front, p, x, back, by rw [heq]; rfl, hx, rfl⟩

lemma removeRecord_spec (name : Name) (h : Chain blockSize l) :
    (removeRecord blockSize name l = none ∧ ∀ e ∈ l, ¬ e.Matches name) ∨
    ∃ i l', removeRecord blockSize name l = some (i, l') ∧ Removal name l i l' := by
  obtain ⟨hroomy, hsum⟩ := chain_iff.mp h
  cases l with
  | nil => exact .inl ⟨rfl, nofun⟩
  | cons e l =>
    obtain ⟨he, hroomy⟩ := forall_mem_cons.mp hroomy
    rw [removeRecord, if_neg (he.not_atEnd (by rw [zero_add, hsum]))]
    by_cases hmatch : e.Matches name
    · rw [if_pos hmatch]
      exact .inr ⟨_, _, rfl, .first hmatch⟩
    · rw [if_neg hmatch]
      rcases removeAfter_spec e hroomy hsum with
        ⟨hnone, hall⟩ | ⟨front, p, x, back, heq, hx, hsome⟩
      · rw [hnone]
        exact .inl ⟨rfl, forall_mem_cons.mpr ⟨hmatch, hall⟩⟩
      · rw [hsome, heq]
        exact .inr ⟨_, _, rfl, .merge hx⟩

/-- One entry is removed. -/
lemma Removal.perm (h : Removal name l i l') (hnames : ∀ e ∈ l, e.inode ≠ 0 → e.name ≠ []) :
    (live l).Perm ((name, i) :: live l') := by
  cases h with
  | @first e back hmatch =>
    have hname := hnames e mem_cons_self hmatch.1
    rw [live_cons, live_singleton hmatch.1 hname, hmatch.2]
    exact Perm.refl _
  | @merge front p e back hmatch =>
    have hname := hnames e (by simp) hmatch.1
    rw [live_append, live_cons p, live_cons e, live_singleton hmatch.1 hname, live_append,
      live_cons _ back, live_setLen (p.recLen + e.recLen), hmatch.2]
    have hperm : (live front ++ live [p] ++ (name, e.inode) :: live back).Perm
        ((name, e.inode) :: (live front ++ live [p] ++ live back)) := perm_middle
    rwa [append_assoc, append_assoc] at hperm

lemma Removal.chain (h : Removal name l i l') (hchain : Chain blockSize l)
    (hsize : blockSize < 2 ^ 16) : Chain blockSize l' := by
  rw [chain_iff] at hchain ⊢
  obtain ⟨hroomy, hsum⟩ := hchain
  cases h with
  | @first e back hmatch =>
    obtain ⟨he, hroomy⟩ := forall_mem_cons.mp hroomy
    refine ⟨forall_mem_cons.mpr ⟨⟨⟨he.1.1, zero_le _⟩, fun hne => absurd rfl hne⟩, hroomy⟩, hsum⟩
  | @merge front p e back hmatch =>
    simp only [map_append, map_cons, List.sum_append, sum_cons] at hsum ⊢
    have hadd : (p.recLen + e.recLen).toNat = p.recLen.toNat + e.recLen.toNat := by
      rw [BitVec.toNat_add, mod_eq_of_lt (by omega)]
    refine ⟨fun x hx => ?_, by omega⟩
    rcases mem_append.mp hx with hx | hx
    · exact hroomy x (mem_append_left _ hx)
    rcases mem_cons.mp hx with rfl | hx
    · have hp := hroomy p (by simp)
      have hle : p.recLen.toNat ≤ (p.recLen + e.recLen).toNat := by omega
      exact ⟨⟨le_trans hp.1.1 hle, le_trans hp.1.2 hle⟩, hp.2⟩
    · exact hroomy x (by simp [hx])

end

end Ext2

end Zinnia
