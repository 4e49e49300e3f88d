import Zinnia.Memory.Virt.Mmu

/-!
# Walks through a page table

A page table is a radix tree whose nodes are the tables, and the page number of an address is the
path to its entry.
-/

namespace Zinnia

open Radix List BitVec Option

namespace Mmu

open PageTableEntry

/-! ### Paths -/

lemma index_eq (virt : VirtAddr) (level : ℕ) :
    index virt level = pageOf virt / 512 ^ level % 512 := by
  have hmask : ((allOnes 64 : Usize) >>> (64 - levelBits)).toNat = 2 ^ 9 - 1 := by decide
  rw [index, toNat_and, hmask, Nat.and_two_pow_sub_one_eq_mod, toNat_ushiftRight,
    Nat.shiftRight_eq_div_pow, pageOf, Nat.div_div_eq_div_mul, pageBits, levelBits, pageSize,
    Nat.pow_add, Nat.pow_mul]

lemma UserPage.pageOf_lt {virt : VirtAddr} (h : UserPage virt) : pageOf virt < 2 ^ 35 := by
  have hlt : virt.toNat < 0x800000000000 := by
    have := of_decide_eq_true h.1
    rwa [lt_def] at this
  rw [pageOf, pageSize]
  omega

/-! ### The tree -/

/-- The tables of a page table. Only the entries of the user half of the root count. -/
def format (rootLevel : ℕ) : Radix ℕ PageTableEntry where
  child e := if e.isPresent && !e.has PageFlags.size then some (idxFromAddr e.address) else none
  fanout level := if level = rootLevel - 1 then 256 else 512

/-- The level of the root table: 4 or 5 levels of tables. -/
def Levels (rootLevel : ℕ) : Prop := rootLevel = 4 ∨ rootLevel = 5

section

variable {rootLevel : ℕ} {virt virt' : VirtAddr}

lemma inRange_index (hroot : Levels rootLevel) (hvirt : UserPage virt) {n : ℕ} :
    (format rootLevel).InRange (index virt) n := by
  intro k hpos _
  have hlt := hvirt.pageOf_lt
  rw [format, index_eq]
  dsimp only
  split_ifs with hk
  · rcases hroot with rfl | rfl <;> subst hk <;> omega
  · exact Nat.mod_lt _ (by decide)

lemma samePath_iff (hroot : Levels rootLevel) (hvirt : UserPage virt) (hvirt' : UserPage virt') :
    SamePath (index virt) (index virt') (rootLevel - 1) ↔ pageOf virt = pageOf virt' := by
  have hlt := hvirt.pageOf_lt
  have hlt' := hvirt'.pageOf_lt
  constructor
  · intro h
    have hpow : 2 ^ 35 ≤ 512 ^ (rootLevel - 1 + 1) := by
      rcases hroot with rfl | rfl <;> decide
    refine eq_of_digits (by decide) (hlt.trans_le hpow) (hlt'.trans_le hpow) fun k hk => ?_
    rw [← index_eq, ← index_eq, h k hk]
  · intro h k _
    rw [index_eq, index_eq, h]

end

/-- A table has no large pages. -/
def NoLarge (e : PageTableEntry) : Prop := e.isPresent → e.has PageFlags.size = false

section

variable {rootLevel : ℕ} {e : PageTableEntry}

lemma child_eq (rootLevel : ℕ) (he : NoLarge e) : (format rootLevel).child e =
    if e.isPresent then some (idxFromAddr e.address) else none := by
  rw [format]
  dsimp only
  cases hpresent : e.isPresent with
  | false => rfl
  | true => rw [he hpresent]; rfl

lemma isDirectory_of_noLarge (he : NoLarge e) (hpresent : e.isPresent) {level : ℕ} :
    e.isDirectory (level + 1) := by
  rw [isDirectory, he hpresent]
  rfl

@[simp] lemma child_empty : (format rootLevel).child .empty = none := by
  rw [format]
  rfl

lemma noLarge_empty : NoLarge .empty := by
  intro h
  cases h

lemma and_addrMask {phys : PhysAddr} (h : FrameAddr phys) : phys &&& addrMask = phys := by
  have hmask : addrMask.toNat = (2 ^ 40 - 1) * 2 ^ 12 := by decide
  obtain ⟨halign, hlt⟩ := h
  have hphys : phys.toNat = phys.toNat / 2 ^ 12 * 2 ^ 12 := by
    rw [pageSize] at halign
    omega
  refine eq_of_toNat_eq ?_
  rw [toNat_and, hmask, hphys, ← Nat.shiftLeft_eq, ← Nat.shiftLeft_eq,
    ← Nat.shiftLeft_and_distrib, Nat.and_two_pow_sub_one_eq_mod]
  omega

variable {phys : PhysAddr} {user : Bool} {level : ℕ}

lemma noLarge_newDirectory : NoLarge (.new phys { directory := true, user } .normal level) :=
  fun _ => has_size_newDirectory phys user level

end

/-! ### Walks -/

section

variable {t : PageTable} {virt : VirtAddr} {m : Memory} {level table : ℕ}

/-- The result of a walk, from the leaf table of its path. -/
def found (virt : VirtAddr) : Option ℕ → Except PageTableError PtePtr
  | none => .error .needAllocation
  | some table => .ok (table, index virt 0)

/-- A walk that allocates nothing is the loop of `unmap_single_inner`. -/
lemma getPteFrom_false : t.getPteFrom virt false level table m =
    some (PageTable.findPte m virt level table, m) := by
  induction level generalizing table with
  | zero => rfl
  | succ level ih =>
    rw [PageTable.getPteFrom, PageTable.findPte]
    split_ifs <;> simp_all

/-- It ends at the leaf table of the path, if there is one. -/
lemma findPte_eq (hvirt : (format t.rootLevel).InRange (index virt) level)
    (hinner : (format t.rootLevel).Inner m.entries NoLarge level table) :
    PageTable.findPte m virt level table =
      found virt ((format t.rootLevel).leaf m.entries (index virt) level table) := by
  induction level generalizing table with
  | zero => rfl
  | succ level ih =>
    obtain ⟨hlarge, hbelow⟩ := hinner _ (hvirt _ level.succ_pos le_rfl)
    rw [PageTable.findPte, leaf]
    dsimp only [Memory.read]
    rw [child_eq _ hlarge] at hbelow ⊢
    by_cases hpresent : (m.entries table (index virt (level + 1))).isPresent
    · rw [if_pos hpresent] at hbelow
      simp only [hpresent, isDirectory_of_noLarge hlarge hpresent]
      exact ih hvirt.below (hbelow _ rfl)
    · simp only [hpresent, Bool.false_eq_true, if_false, Bool.not_false, if_true, bind_none,
        found]

variable {total A : Set ℕ} {len : ℕ}

/-- A fresh table. -/
lemma Memory.allocTable_cases (htotal : total ⊆ Set.Iio len) (hlen : len ≤ 2 ^ 40)
    (hinv : Pmm.Inv total len m.pmm A) :
    m.allocTable = some (.error .allocError, m) ∨
    ∃ addr pmm, m.allocTable =
        some (.ok addr, ⟨pmm, Function.update m.entries (idxFromAddr addr) fun _ => .empty⟩) ∧
      FrameAddr addr ∧ idxFromAddr addr ∉ A ∧
      Pmm.Inv total len pmm (A ∪ {idxFromAddr addr}) := by
  rcases hinv.alloc 1 {} with herr | ⟨addr, pmm, hok, halign, hdisj, hinv'⟩
  · left
    simp only [Memory.allocTable, herr]
    rfl
  · right
    rw [show (1 : Usize).toNat = 1 from rfl, pageRange_one] at hdisj hinv'
    have hlt : idxFromAddr addr < len :=
      htotal (hinv'.subset (Set.mem_union_right _ (Set.mem_singleton _)))
    refine ⟨addr, pmm, ?_, ⟨halign, ?_⟩, Set.disjoint_singleton_left.mp hdisj, hinv'⟩
    · simp only [Memory.allocTable, hok]
      rfl
    · rw [idxFromAddr, pageSize] at hlt
      omega

/-- The outcome of a walk that allocates the tables `new`, with the allocated pages before it. -/
structure Walked (t : PageTable) (virt : VirtAddr) (total : Set ℕ) (len : ℕ) (A : Set ℕ)
    (level table : ℕ) (m : Memory) (result : Except PageTableError PtePtr) (m' : Memory)
    (new : List ℕ) : Prop where
  grows : (format t.rootLevel).Grows .empty NoLarge m.entries m'.entries level table new
  nodup : new.Nodup
  fresh : ∀ i ∈ new, i ∉ A
  inv : Pmm.Inv total len m'.pmm (A ∪ {i | i ∈ new})
  result : result = .error .outOfMemory ∨ ∃ table', result = .ok (table', index virt 0) ∧
    (format t.rootLevel).leaf m'.entries (index virt) level table = some table'

section

variable {m' m₁ : Memory} {result : Except PageTableError PtePtr} {new : List ℕ} {c : ℕ}
  (hi : index virt (level + 1) < (format t.rootLevel).fanout (level + 1))
  (hinner : (format t.rootLevel).Inner m.entries NoLarge (level + 1) table)
  (hnodup : ((format t.rootLevel).nodes m.entries (level + 1) table).Nodup)
  (hA : ∀ i ∈ (format t.rootLevel).nodes m.entries (level + 1) table, i ∈ A)

include hi hinner hnodup hA

/-- A walk goes on in the table below. -/
lemma Walked.descend (h : Walked t virt total len A level c m result m' new)
    (hc : (format t.rootLevel).child (m.entries table (index virt (level + 1))) = some c) :
    Walked t virt total len A (level + 1) table m result m' new := by
  have hnew : ∀ i ∈ new, i ∉ (format t.rootLevel).nodes m.entries (level + 1) table :=
    fun i hmem hnode => h.fresh i hmem (hA i hnode)
  refine ⟨h.grows.descend hi hc hnodup hnew hinner, h.nodup, h.fresh, h.inv, ?_⟩
  rw [leaf, h.grows.frame_parent hi hc hnodup hnew, hc]
  exact h.result

/-- A walk goes on in a new table. -/
lemma Walked.link {e : PageTableEntry} {pmm : Pmm}
    (hnone : (format t.rootLevel).child (m.entries table (index virt (level + 1))) = none)
    (hdir : (format t.rootLevel).child e = some c) (he : NoLarge e) (hc : c ∉ A)
    (h : Walked t virt total len (A ∪ {c}) level c
      ⟨pmm, linkNode .empty m.entries table (index virt (level + 1)) e c⟩ result m' new) :
    Walked t virt total len A (level + 1) table m result m' (c :: new) := by
  have hfresh : c ∉ (format t.rootLevel).nodes m.entries (level + 1) table :=
    fun hnode => hc (hA c hnode)
  have hlink := grows_linkNode hi hnone hdir child_empty noLarge_empty he hfresh hnodup hinner
  have h' := h.descend hi hlink.inner ?_ ?_ ?_
  · refine ⟨hlink.trans h'.grows, ?_, ?_, ?_, h'.result⟩
    · exact List.nodup_cons.mpr ⟨fun hmem => h.fresh c hmem (.inr rfl), h.nodup⟩
    · intro i hi hA
      rcases List.mem_cons.mp hi with rfl | hi
      · exact hc hA
      · exact h.fresh i hi (.inl hA)
    · have hset : A ∪ {i | i ∈ c :: new} = A ∪ {c} ∪ {i | i ∈ new} := by
        ext i
        grind
      rw [hset]
      exact h.inv
  · exact hlink.nodup hnodup (nodup_singleton c) (by simpa using hfresh)
  · intro i hnode
    rw [hlink.perm.mem_iff, mem_append, mem_singleton] at hnode
    exact hnode.imp (hA i) id
  · dsimp only
    rw [linkNode, write_self, Function.update_self, hdir]

end

/-- A walk that allocates tables ends at the leaf table of the path, or without memory. -/
lemma getPteFrom_true (htotal : total ⊆ Set.Iio len) (hlen : len ≤ 2 ^ 40)
    (hvirt : (format t.rootLevel).InRange (index virt) level)
    (hinv : Pmm.Inv total len m.pmm A)
    (hinner : (format t.rootLevel).Inner m.entries NoLarge level table)
    (hnodup : ((format t.rootLevel).nodes m.entries level table).Nodup)
    (hA : ∀ i ∈ (format t.rootLevel).nodes m.entries level table, i ∈ A) :
    ∃ result m' new, t.getPteFrom virt true level table m = some (result, m') ∧
      Walked t virt total len A level table m result m' new := by
  induction level generalizing table m A with
  | zero =>
    refine ⟨_, m, [], rfl, .refl trivial, nodup_nil, by simp, by simpa using hinv, ?_⟩
    exact .inr ⟨table, rfl, rfl⟩
  | succ level ih =>
    have hi := hvirt _ level.succ_pos le_rfl
    obtain ⟨hlarge, hinner'⟩ := hinner _ hi
    rw [PageTable.getPteFrom]
    dsimp only [Memory.read]
    by_cases hpresent : (m.entries table (index virt (level + 1))).isPresent
    · have hchild := (child_eq t.rootLevel hlarge).trans (if_pos hpresent)
      simp only [hpresent, isDirectory_of_noLarge hlarge hpresent]
      obtain ⟨result, m', new, hcall, hwalked⟩ := ih hvirt.below hinv (hinner' _ hchild)
        (nodup_child hnodup hi hchild)
        fun i hmem => hA i (mem_nodes_of_child hi hchild hmem)
      exact ⟨result, m', new, hcall, hwalked.descend hi hinner hnodup hA hchild⟩
    · have hchild := (child_eq t.rootLevel hlarge).trans (if_neg hpresent)
      simp only [hpresent]
      rcases Memory.allocTable_cases htotal hlen hinv with
        herr | ⟨addr, pmm, hok, haddr, hfresh, hinv₁⟩
      · simp only [herr, bind_eq_bind]
        exact ⟨_, m, [], rfl, .refl hinner, nodup_nil, by simp, by simpa using hinv, .inl rfl⟩
      · simp only [hok, bind_eq_bind, bind_some]
        have hne : idxFromAddr addr ≠ table := fun heq =>
          hfresh (hA _ (heq ▸ self_mem_nodes))
        have hdir : (format t.rootLevel).child
            (.new addr t.directoryFlags .normal (level + 1)) = some (idxFromAddr addr) := by
          rw [PageTable.directoryFlags, child_eq _ noLarge_newDirectory,
            if_pos (isPresent_newDirectory ..), address_newDirectory, and_addrMask haddr]
        have he : NoLarge (.new addr t.directoryFlags .normal (level + 1)) := noLarge_newDirectory
        generalize PageTableEntry.new addr t.directoryFlags .normal (level + 1) = e at hdir he ⊢
        generalize idxFromAddr addr = c at hfresh hinv₁ hne hdir ⊢
        let entries := linkNode .empty m.entries table (index virt (level + 1)) e c
        have hempty : ∀ j, entries c j = .empty := linkNode_new hne
        have hnodes := nodes_of_empty (R := format t.rootLevel) (n := level) child_empty hempty
        obtain ⟨result, m', new, hcall, hwalked⟩ := ih (m := ⟨pmm, entries⟩) hvirt.below hinv₁
          (inner_of_empty child_empty noLarge_empty hempty)
          (hnodes ▸ nodup_singleton c)
          fun i hmem => .inr (List.mem_singleton.mp (hnodes ▸ hmem))
        exact ⟨result, m', _, hcall, hwalked.link hi hinner hnodup hA hchild hdir he hfresh⟩

end

end Mmu

end Zinnia
