import Zinnia.Memory.Iovec
import Zinnia.Memory.User.Properties

/-!
# What lists of buffers reach

The iterator is a cursor in the list of the addresses of all bytes. That these are of the user half
is checked for the end of each buffer, which is computed modulo `2 ^ 64`: a buffer that wraps around
passes the check, and its addresses of the kernel half are then taken for a buffer of the kernel.
-/

namespace Zinnia

open Comp Cpu List
open BitVec hiding not_and not_or

/-- The operations on an iterator. -/
inductive IovecOp where
  | skip (count : Usize)
  | setOffset (offset : Usize)
  | fill (value : BitVec 8)
  | copyFromSlice (slice : List (BitVec 8))
  | copyToSlice (slice : List (BitVec 8))

def IovecOp.run : IovecOp → IovecIter → Cpu IovecIter
  | .skip count, it => do return (← unwrap (it.skip count)).2
  | .setOffset offset, it => do return (← unwrap (it.setOffset offset)).2
  | .fill value, it => do return (← it.fill value).2
  | .copyFromSlice slice, it => do return (← it.copyFromSlice slice).2
  | .copyToSlice slice, it => do return (← it.copyToSlice slice).2.1

def IovecIter.run : List IovecOp → IovecIter → Cpu IovecIter
  | [], it => return it
  | op :: ops, it => do IovecIter.run ops (← op.run it)

/-- The addresses that an iterator over the buffers accesses are of the user half, whatever is done
with it during a system call. -/
def IovecIter.Confined (pmm : Pmm) (iovecs : List Iovec) : Prop :=
  ∀ it, IovecIter.new iovecs = .ok it → ∀ m : Machine, System.Reachable pmm m.sys →
    m.accessed = [] → ∀ ops, ∀ a ∈ (final ((IovecIter.run ops it).run m)).accessed, isUserAddr a

/-- The addresses of the bytes of a buffer. -/
def Iovec.bytes (v : Iovec) : List VirtAddr :=
  (List.range v.len.toNat).map fun i => v.base + BitVec.ofNat 64 i

@[simp] lemma Iovec.length_bytes (v : Iovec) : v.bytes.length = v.len.toNat := by
  simp [Iovec.bytes]

namespace IovecIter

/-- The addresses of the bytes that are left. -/
def rest (it : IovecIter) : List VirtAddr :=
  ((it.iovecs.drop it.currentIdx).flatMap Iovec.bytes).drop it.currentOffset.toNat

/-- The iterator is in one of the buffers, and the offset is the number of the bytes before. -/
structure Inv (it : IovecIter) : Prop where
  all : it.totalLen.toNat = (it.iovecs.flatMap Iovec.bytes).length
  idx : it.currentIdx < it.iovecs.length
  offset : ∀ v, it.iovecs[it.currentIdx]? = some v → it.currentOffset.toNat ≤ v.len.toNat
  total : it.totalLen.toNat = it.totalOffset.toNat + it.rest.length

section

variable {it it' : IovecIter} {v : Iovec} {count : Usize}

lemma rest_eq (hv : it.iovecs[it.currentIdx]? = some v) :
    it.rest = (v.bytes ++ (it.iovecs.drop (it.currentIdx + 1)).flatMap Iovec.bytes).drop
      it.currentOffset.toNat := by
  obtain ⟨hlt, hget⟩ := List.getElem?_eq_some_iff.mp hv
  rw [rest, drop_eq_getElem_cons hlt, hget, flatMap_cons]

lemma Inv.isFinished_iff (h : it.Inv) : it.isFinished ↔ it.rest = [] := by
  have htotal := h.total
  rw [isFinished, decide_eq_true_eq, ← toNat_inj, ← length_eq_zero_iff]
  omega

lemma Inv.exists_current (h : it.Inv) : ∃ v, it.iovecs[it.currentIdx]? = some v :=
  ⟨_, getElem?_eq_getElem h.idx⟩

/-- The bytes of the current buffer that are left. -/
lemma Inv.remaining_toNat (h : it.Inv) (hv : it.iovecs[it.currentIdx]? = some v) :
    (v.len - it.currentOffset).toNat = v.len.toNat - it.currentOffset.toNat :=
  toNat_sub_of_le (h.offset v hv)

/-- The result of an operation that moves on by `n` bytes. -/
structure Moves (it it' : IovecIter) (n : ℕ) : Prop where
  inv : it'.Inv
  iovecs : it'.iovecs = it.iovecs
  rest : it'.rest = it.rest.drop n
  idx : it.currentIdx ≤ it'.currentIdx

section

variable (h : it.Inv) (hv : it.iovecs[it.currentIdx]? = some v)

include h hv

/-- Moving on within the current buffer. -/
lemma Inv.consume (hcount : count.toNat ≤ v.len.toNat - it.currentOffset.toNat) :
    it.Moves ⟨it.iovecs, it.totalLen, it.totalOffset + count, it.currentIdx,
      it.currentOffset + count⟩ count.toNat := by
  have hoffset := h.offset v hv
  have htotal := h.total
  have hsum : (it.currentOffset + count).toNat = it.currentOffset.toNat + count.toNat := by
    rw [toNat_add]
    omega
  have hle : count.toNat ≤ it.rest.length := by
    rw [rest_eq hv, length_drop, length_append, Iovec.length_bytes]
    omega
  have hoff : (it.totalOffset + count).toNat = it.totalOffset.toNat + count.toNat := by
    rw [toNat_add]
    omega
  have hrest : IovecIter.rest ⟨it.iovecs, it.totalLen, it.totalOffset + count, it.currentIdx,
      it.currentOffset + count⟩ = it.rest.drop count.toNat := by
    simp only [IovecIter.rest, hsum, drop_drop]
  refine ⟨⟨h.all, h.idx, fun w hw => ?_, ?_⟩, rfl, hrest, le_rfl⟩
  · cases hw.symm.trans hv
    simp only [hsum]
    omega
  · rw [hrest, length_drop]
    simp only [hoff]
    omega

/-- Going to the next buffer. -/
lemma Inv.nextBuffer (hend : it.currentOffset = v.len) (hne : it.rest ≠ []) :
    it.Moves { it with currentIdx := it.currentIdx + 1, currentOffset := 0 } 0 := by
  have hrest : it.rest = (it.iovecs.drop (it.currentIdx + 1)).flatMap Iovec.bytes := by
    rw [rest_eq hv, hend, ← Iovec.length_bytes, drop_left]
  have hidx : it.currentIdx + 1 < it.iovecs.length := by
    refine Nat.lt_of_not_le fun hle => hne ?_
    rw [hrest, drop_eq_nil_of_le hle, flatMap_nil]
  refine ⟨⟨h.all, hidx, fun w _ => Nat.zero_le _, ?_⟩, rfl, ?_, Nat.le_succ _⟩
  · rw [h.total, hrest]
    rfl
  · rw [hrest]
    rfl

lemma Inv.advance (hcount : count.toNat ≤ v.len.toNat - it.currentOffset.toNat) :
    it.Moves (it.advance v count) count.toNat ∧
      (it.currentOffset + count = v.len → (it.advance v count).rest ≠ [] →
        it.currentIdx < (it.advance v count).currentIdx) := by
  have hmid := h.consume hv hcount
  simp only [IovecIter.advance, Bool.and_eq_true, decide_eq_true_eq, Bool.not_eq_true',
    Bool.eq_false_iff, ne_eq, hmid.inv.isFinished_iff]
  split_ifs with hnext
  · have hlast := hmid.inv.nextBuffer hv hnext.1 hnext.2
    refine ⟨⟨hlast.inv, rfl, ?_, Nat.le_succ _⟩, fun _ _ => Nat.lt_succ_self _⟩
    rw [hlast.rest, hmid.rest]
    rfl
  · exact ⟨hmid, fun hend hne => absurd ⟨hend, hne⟩ hnext⟩

end

/-- `skip` moves on by the given number of bytes, or to the end. It leaves a buffer of which there
is nothing left. -/
lemma Inv.exists_skipLoop {n : ℕ} (h : it.Inv) (hn : it.iovecs.length - it.currentIdx < n)
    (count : Usize) :
    ∃ it', skipLoop n it count = some it' ∧ it.Moves it' count.toNat ∧
      (∀ v, it.iovecs[it.currentIdx]? = some v → it.currentOffset = v.len → it'.rest ≠ [] →
        it.currentIdx < it'.currentIdx) := by
  induction n generalizing it count with
  | zero => exact absurd hn (Nat.not_lt_zero _)
  | succ n ih =>
    obtain ⟨v, hv⟩ := h.exists_current
    have hremaining := h.remaining_toNat hv
    have hmin := minUsize_toNat (v.len - it.currentOffset) count
    obtain ⟨skipped, hskipped⟩ : ∃ skipped, skipped = minUsize (v.len - it.currentOffset) count :=
      ⟨_, rfl⟩
    rw [← hskipped] at hmin
    have hle : skipped.toNat ≤ v.len.toNat - it.currentOffset.toNat := by omega
    obtain ⟨hmoves, hlt⟩ := h.advance hv hle
    have hleft : (count - skipped).toNat = count.toNat - skipped.toNat :=
      toNat_sub_of_le (by rw [le_def]; omega)
    have hrun : skipLoop (n + 1) it count =
        if count - skipped = 0 || (it.advance v skipped).isFinished then some (it.advance v skipped)
        else skipLoop n (it.advance v skipped) (count - skipped) := by
      simp only [skipLoop, hv, Option.bind_eq_bind, Option.bind_some, ← hskipped]
    have hend : it.currentOffset = v.len → (it.advance v skipped).rest ≠ [] →
        it.currentIdx < (it.advance v skipped).currentIdx := by
      intro hoffset
      refine hlt (eq_of_toNat_eq ?_)
      rw [hoffset] at hmin
      have hzero : skipped = 0 := eq_of_toNat_eq (by simpa using hmin)
      rw [hzero, hoffset]
      exact congrArg BitVec.toNat (BitVec.add_zero _)
    have hwend : ∀ w, it.iovecs[it.currentIdx]? = some w → it.currentOffset = w.len →
        it.currentOffset = v.len := by
      intro w hw hoffset
      cases hw.symm.trans hv
      exact hoffset
    rw [hrun]
    split_ifs with hstop
    · refine ⟨_, rfl, ⟨hmoves.inv, hmoves.iovecs, ?_, hmoves.idx⟩, fun w hw h => hend (hwend w hw h)⟩
      rw [Bool.or_eq_true, decide_eq_true_eq, hmoves.inv.isFinished_iff, hmoves.rest] at hstop
      rw [hmoves.rest]
      rcases hstop with hzero | hnil
      · rw [hzero] at hleft
        rw [show skipped.toNat = count.toNat by simp at hleft; omega]
      · have hle := drop_eq_nil_iff.mp hnil
        rw [hnil, drop_eq_nil_of_le (by omega)]
    · rw [Bool.or_eq_true, decide_eq_true_eq, hmoves.inv.isFinished_iff, not_or] at hstop
      have hall : skipped = v.len - it.currentOffset := by
        rw [hskipped, minUsize] at hstop ⊢
        split_ifs at hstop ⊢
        · rfl
        · exact absurd (BitVec.sub_self _) hstop.1
      have hlt' := hlt (by rw [hall, BitVec.add_comm, BitVec.sub_add_cancel]) hstop.2
      have hidx := hmoves.inv.idx
      rw [hmoves.iovecs] at hidx
      obtain ⟨it', hit', hmoves', -⟩ := ih hmoves.inv (by rw [hmoves.iovecs]; omega)
        (count - skipped)
      refine ⟨it', hit', ⟨hmoves'.inv, ?_, ?_, hmoves.idx.trans hmoves'.idx⟩, fun w hw h hne => ?_⟩
      · rw [hmoves'.iovecs, hmoves.iovecs]
      · rw [hmoves'.rest, hmoves.rest, drop_drop]
        congr 1
        omega
      · exact lt_of_lt_of_le hlt' hmoves'.idx

lemma Inv.exists_skip (h : it.Inv) (count : Usize) :
    ∃ left it', it.skip count = some (left, it') ∧ it.Moves it' count.toNat ∧
      (∀ v, it.iovecs[it.currentIdx]? = some v → it.currentOffset = v.len → it'.rest ≠ [] →
        it.currentIdx < it'.currentIdx) := by
  obtain ⟨it', hrun, hit'⟩ := h.exists_skipLoop
    (Nat.lt_succ_of_le (Nat.sub_le it.iovecs.length it.currentIdx)) count
  exact ⟨_, it', by rw [skip, hrun]; rfl, hit'⟩

/-- The iterator at the beginning. -/
lemma Inv.start {iovecs : List Iovec} {totalLen : Usize}
    (hlen : totalLen.toNat = (iovecs.flatMap Iovec.bytes).length) (hne : iovecs ≠ []) :
    Inv ⟨iovecs, totalLen, 0, 0, 0⟩ :=
  ⟨hlen, length_pos_iff.mpr hne, fun _ _ => Nat.zero_le _, hlen.trans (Nat.zero_add _).symm⟩

lemma Inv.exists_setOffset (h : it.Inv) (offset : Usize) :
    ∃ left it', it.setOffset offset = some (left, it') ∧ it'.Inv ∧ it'.iovecs = it.iovecs ∧
      it'.rest = (it.iovecs.flatMap Iovec.bytes).drop offset.toNat := by
  have hne : it.iovecs ≠ [] := length_pos_iff.mp (Nat.zero_lt_of_lt h.idx)
  obtain ⟨left, it', hskip, hmoves, -⟩ := (Inv.start h.all hne).exists_skip offset
  exact ⟨left, it', hskip, hmoves.inv, hmoves.iovecs, hmoves.rest⟩

end

/-! ### Accesses to a part of a buffer -/

section

variable {α β : Type} {it : IovecIter} {v : Iovec} {a addr : VirtAddr} {S : VirtAddr → Prop}
  {f : α → VirtAddr → Cpu (Option β)} {part : VirtAddr → ℕ → ℕ → Cpu (List (BitVec 8) × Bool)}

/-- The address is one of the `n` ones from `addr` on. -/
def Within (addr : VirtAddr) (n : ℕ) (a : VirtAddr) : Prop := ∃ j < n, a = addr + BitVec.ofNat 64 j

lemma Within.succ {n : ℕ} (h : Within (addr + 1) n a) : Within addr (n + 1) a := by
  obtain ⟨j, hj, rfl⟩ := h
  exact ⟨j + 1, Nat.succ_lt_succ hj, (Machine.add_ofNat_succ addr j).symm⟩

lemma Within.mono {n n' : ℕ} (hn : n ≤ n') (h : Within addr n a) : Within addr n' a := by
  obtain ⟨j, hj, ha⟩ := h
  exact ⟨j, lt_of_lt_of_le hj hn, ha⟩

lemma accesses_mono {T : VirtAddr → Prop} (h : ∀ a, S a → T a) (m m' : Machine)
    (hm : m.Accesses S m') : m.Accesses T m' :=
  fun a ha => (hm a ha).imp_right (h a)

lemma spec_repMovsb (hf : ∀ x a, OneByte a (f x a)) (xs : List α) (addr : VirtAddr) :
    Spec (Machine.Accesses (Within addr xs.length)) (fun _ => True) (repMovsb f xs addr) := by
  induction xs generalizing addr with
  | nil => exact spec_pure trivial
  | cons x xs ih =>
    have hself : Within addr (xs.length + 1) addr :=
      ⟨0, Nat.succ_pos _, (BitVec.add_zero addr).symm⟩
    refine ((hf x addr).spec fun _ => hself).bind fun r _ => ?_
    cases r with
    | none => exact spec_pure trivial
    | some y =>
      have hxs := (ih (addr + 1)).mono (accesses_mono fun _ => Within.succ) fun _ => id
      exact hxs.bind fun _ _ => spec_pure trivial

lemma spec_rawCopy (hf : ∀ x a, OneByte a (f x a)) (xs : List α) (addr : VirtAddr) :
    Spec (Machine.Accesses (Within addr xs.length)) (fun _ => True) (rawCopy f xs addr) := by
  refine (spec_repMovsb hf xs addr).bind fun r _ => ?_
  split
  split_ifs
  · exact spec_pure trivial
  · exact spec_throw _

lemma spec_copyToUser (addr : VirtAddr) (src : List (BitVec 8)) :
    Spec (Machine.Accesses (Within addr src.length)) (fun _ => True) (copyToUser addr src) := by
  rw [copyToUser]
  split_ifs
  · exact spec_pure trivial
  · exact (spec_repMovsb oneByte_storeByte src addr).bind fun _ _ => spec_pure trivial

lemma spec_fillUser (value : BitVec 8) (n : ℕ) (addr : VirtAddr) :
    Spec (Machine.Accesses (Within addr n)) (fun _ => True) (fillUser value n addr) := by
  induction n generalizing addr with
  | zero => exact spec_pure trivial
  | succ n ih =>
    have hone := (spec_copyToUser addr [value]).mono
      (accesses_mono fun _ => Within.mono (Nat.succ_le_succ n.zero_le)) fun _ => id
    refine hone.bind fun ok _ => ?_
    split_ifs
    · exact (ih (addr + 1)).mono (accesses_mono fun _ => Within.succ) fun _ => id
    · exact spec_pure trivial

lemma spec_subslice (slice : List (BitVec 8)) (start count : ℕ) :
    Spec (Machine.Accesses S) (fun src => src.length = count) (subslice slice start count) := by
  rw [subslice]
  split_ifs with h
  · apply spec_pure
    rw [length_take, length_drop]
    omega
  · exact spec_throw _

/-- What is done with a part of a buffer accesses the bytes of the part only. -/
def PartSpec (part : VirtAddr → ℕ → ℕ → Cpu (List (BitVec 8) × Bool)) : Prop :=
  ∀ addr done count,
    Spec (Machine.Accesses (Within addr count)) (fun _ => True) (part addr done count)

lemma partSpec_fillPart (value : BitVec 8) : PartSpec (fillPart value) := by
  intro addr done count
  rw [fillPart]
  split_ifs
  · exact (spec_fillUser value count addr).bind fun _ _ => spec_pure trivial
  · have hraw := spec_rawCopy oneByte_storeByte (replicate count value) addr
    rw [length_replicate] at hraw
    exact hraw.bind fun _ _ => spec_pure trivial

lemma partSpec_copyFromPart (slice : List (BitVec 8)) : PartSpec (copyFromPart slice) := by
  intro addr done count
  refine (spec_subslice slice done count).bind fun src hsrc => ?_
  subst hsrc
  split_ifs
  · exact (spec_copyToUser addr src).bind fun _ _ => spec_pure trivial
  · exact (spec_rawCopy oneByte_storeByte src addr).bind fun _ _ => spec_pure trivial

lemma partSpec_copyToPart (slice : List (BitVec 8)) : PartSpec (copyToPart slice) := by
  intro addr done count
  refine (spec_subslice slice done count).bind fun dest hdest => ?_
  subst hdest
  split_ifs
  · rw [copyFromUser]
    split_ifs
    · exact spec_pure trivial
    · exact (spec_repMovsb (fun _ => oneByte_loadByte) dest addr).bind fun _ _ => spec_pure trivial
  · exact (spec_rawCopy (fun _ => oneByte_loadByte) dest addr).bind fun _ _ => spec_pure trivial

/-- The rest of the current buffer comes first. -/
lemma mem_rest (hv : it.iovecs[it.currentIdx]? = some v) {n : ℕ}
    (hn : n ≤ v.len.toNat - it.currentOffset.toNat) (ha : Within (v.base + it.currentOffset) n a) :
    a ∈ it.rest := by
  obtain ⟨j, hj, rfl⟩ := ha
  have hlt : it.currentOffset.toNat + j < v.bytes.length := by
    rw [Iovec.length_bytes]
    omega
  rw [rest_eq hv, drop_append_of_le_length (by omega)]
  refine mem_append_left _ (mem_drop_iff_getElem.mpr ⟨j, by omega, ?_⟩)
  simp only [Iovec.bytes, getElem_map, getElem_range]
  rw [ofNat_add, ofNat_toNat, setWidth_eq, BitVec.add_assoc]

lemma spec_transferLoop (hpart : PartSpec part) (oldOffset : Usize) (n : ℕ) (h : it.Inv)
    (remainingTotal totalDone : Usize) (bytes : List (BitVec 8)) :
    Spec (Machine.Accesses (· ∈ it.rest)) (fun r => r.2.1.Inv ∧ r.2.1.iovecs = it.iovecs)
      (transferLoop part oldOffset n it remainingTotal totalDone bytes) := by
  induction n generalizing it remainingTotal totalDone bytes with
  | zero => exact spec_throw _
  | succ n ih =>
    obtain ⟨left₁, it₁, hskip₁, hmoves₁, -⟩ := h.exists_skip 0
    have hrest₁ : it₁.rest = it.rest := hmoves₁.rest
    obtain ⟨v, hv⟩ := hmoves₁.inv.exists_current
    have hremaining := hmoves₁.inv.remaining_toNat hv
    have hmin := minUsize_toNat (v.len - it₁.currentOffset) remainingTotal
    simp only [transferLoop, hskip₁, hv, Cpu.unwrap, pure_bind]
    refine ((hpart _ _ _).mono (accesses_mono fun a ha => ?_) fun _ => id).bind fun r _ => ?_
    · rw [← hrest₁]
      exact mem_rest hv (by omega) ha
    split_ifs
    · obtain ⟨left₂, it₂, hset, hinv₂, hiovecs₂, -⟩ := hmoves₁.inv.exists_setOffset oldOffset
      simp only [hset]
      exact spec_pure ⟨hinv₂, hiovecs₂.trans hmoves₁.iovecs⟩
    obtain ⟨left₂, it₂, hskip₂, hmoves₂, -⟩ :=
      hmoves₁.inv.exists_skip (minUsize (v.len - it₁.currentOffset) remainingTotal)
    have hiovecs := hmoves₂.iovecs.trans hmoves₁.iovecs
    simp only [hskip₂, pure_bind]
    split_ifs
    · exact spec_pure ⟨hmoves₂.inv, hiovecs⟩
    · refine (ih hmoves₂.inv _ _ _).mono (accesses_mono fun a ha => ?_)
        fun r hr => ⟨hr.1, hr.2.trans hiovecs⟩
      rw [hmoves₂.rest, hrest₁] at ha
      exact mem_of_mem_drop ha

lemma spec_transfer (hpart : PartSpec part) (h : it.Inv) (remainingTotal : Usize) :
    Spec (Machine.Accesses (· ∈ it.iovecs.flatMap Iovec.bytes))
      (fun r => r.2.1.Inv ∧ r.2.1.iovecs = it.iovecs) (it.transfer part remainingTotal) := by
  refine (spec_transferLoop hpart _ _ h _ _ _).mono (accesses_mono fun a ha => ?_) fun _ => id
  obtain ⟨v, hv, hav⟩ := mem_flatMap.mp (mem_of_mem_drop ha)
  exact mem_flatMap.mpr ⟨v, mem_of_mem_drop hv, hav⟩

/-- An operation accesses bytes of the buffers only. -/
lemma spec_op (op : IovecOp) (h : it.Inv) :
    Spec (Machine.Accesses (· ∈ it.iovecs.flatMap Iovec.bytes))
      (fun it' => it'.Inv ∧ it'.iovecs = it.iovecs) (op.run it) := by
  cases op with
  | skip count =>
    obtain ⟨left, it', hskip, hmoves, -⟩ := h.exists_skip count
    simp only [IovecOp.run, hskip, Cpu.unwrap]
    exact spec_pure ⟨hmoves.inv, hmoves.iovecs⟩
  | setOffset offset =>
    obtain ⟨left, it', hset, hinv, hiovecs, -⟩ := h.exists_setOffset offset
    simp only [IovecOp.run, hset, Cpu.unwrap]
    exact spec_pure ⟨hinv, hiovecs⟩
  | fill value =>
    refine Spec.bind ?_ fun r hr => spec_pure hr
    exact (spec_transfer (partSpec_fillPart value) h _).bind fun r hr => spec_pure hr
  | copyFromSlice slice =>
    refine Spec.bind ?_ fun r hr => spec_pure hr
    exact (spec_transfer (partSpec_copyFromPart slice) h _).bind fun r hr => spec_pure hr
  | copyToSlice slice =>
    refine Spec.bind ?_ fun r hr => spec_pure hr
    exact (spec_transfer (partSpec_copyToPart slice) h _).bind fun r hr => spec_pure hr

lemma spec_run (ops : List IovecOp) (h : it.Inv) :
    Spec (Machine.Accesses (· ∈ it.iovecs.flatMap Iovec.bytes)) (fun _ => True) (run ops it) := by
  induction ops generalizing it with
  | nil => exact spec_pure trivial
  | cons op ops ih =>
    refine (spec_op op h).bind fun it' hit' => ?_
    rw [← hit'.2]
    exact ih hit'.1

/-- Every operation fails if there are no buffers. -/
lemma spec_op_nil (op : IovecOp) (hnil : it.iovecs = []) :
    Spec (Machine.Accesses S) (fun _ => False) (op.run it) := by
  have hskip : ∀ (it : IovecIter) count, it.iovecs = [] → it.skip count = none := by
    intro it count h
    rw [skip]
    simp [skipLoop, h]
  have hset : ∀ offset, it.setOffset offset = none := fun offset => hskip _ offset hnil
  have htransfer : ∀ part remainingTotal, it.transfer part remainingTotal = throw () := by
    intro part remainingTotal
    simp only [transfer, transferLoop, hskip it 0 hnil, Cpu.unwrap]
    rfl
  cases op
  all_goals
    simp only [IovecOp.run, fill, copyFromSlice, copyToSlice, hskip it _ hnil, hset, htransfer,
      Cpu.unwrap]
    exact (spec_throw (P := fun _ => False) ()).bind fun _ h => h.elim

lemma spec_run_nil (ops : List IovecOp) (hnil : it.iovecs = []) :
    Spec (Machine.Accesses S) (fun _ => True) (run ops it) := by
  cases ops with
  | nil => exact spec_pure trivial
  | cons op ops => exact (spec_op_nil op hnil).bind fun _ hfalse => hfalse.elim

end

/-! ### Accepted lists -/

section

variable {iovecs : List Iovec} {it : IovecIter} {v : Iovec} {a : VirtAddr} {m : Machine}

lemma sumLen_toNat {init total : Usize}
    (h : iovecs.foldlM (fun totalLen i => checkedAdd totalLen i.len) init = some total) :
    total.toNat = init.toNat + (iovecs.flatMap Iovec.bytes).length := by
  induction iovecs generalizing init with
  | nil =>
    cases h
    rfl
  | cons v iovecs ih =>
    obtain ⟨next, hnext, hrest⟩ := Option.bind_eq_some_iff.mp h
    simp only [checkedAdd] at hnext
    split_ifs at hnext with hfits
    cases hnext
    rw [ih hrest, flatMap_cons, length_append, Iovec.length_bytes, toNat_add,
      Nat.mod_eq_of_lt hfits, Nat.add_assoc]

/-- What `new` has checked. -/
lemma exists_of_new (h : new iovecs = .ok it) :
    (∀ v ∈ iovecs, v.len ≠ 0 → isUserAddr (v.base + v.len)) ∧
      ∃ totalLen, it = ⟨iovecs, totalLen, 0, 0, 0⟩ ∧
        totalLen.toNat = (iovecs.flatMap Iovec.bytes).length := by
  rw [new] at h
  split_ifs at h with hany
  split at h
  · cases h
  · rename_i totalLen hsum
    cases h
    refine ⟨fun v hv hlen => ?_, totalLen, rfl, (sumLen_toNat hsum).trans (Nat.zero_add _)⟩
    simp only [any_eq_true, Bool.and_eq_true, decide_eq_true_eq, not_exists, not_and] at hany
    simpa using hany v hv hlen

/-- The buffer ends before the end of the address space. -/
def Fits (v : Iovec) : Prop := v.len ≠ 0 → v.base.toNat + v.len.toNat < 2 ^ 64

instance (v : Iovec) : Decidable (Fits v) := inferInstanceAs (Decidable (_ → _))

/-- All bytes of a buffer that ends in the user half are of the user half. -/
lemma isUserAddr_of_mem_bytes (hfits : Fits v) (hend : v.len ≠ 0 → isUserAddr (v.base + v.len))
    (ha : a ∈ v.bytes) : isUserAddr a := by
  obtain ⟨i, hi, rfl⟩ := mem_map.mp ha
  rw [mem_range] at hi
  have hlen : v.len ≠ 0 := by
    intro hzero
    rw [hzero] at hi
    exact absurd hi (Nat.not_lt_zero i)
  have hsum := hfits hlen
  have huser := hend hlen
  simp only [isUserAddr, decide_eq_true_eq, lt_def, toNat_add,
    toNat_ofNat] at huser ⊢
  omega

/-- The last address of the address space is one of the bytes of a buffer that wraps around. -/
lemma last_mem_bytes (hfits : ¬ Fits v) : 0xFFFFFFFFFFFFFFFF#64 ∈ v.bytes := by
  rw [Fits] at hfits
  refine mem_map.mpr ⟨2 ^ 64 - 1 - v.base.toNat, mem_range.mpr (by omega), ?_⟩
  refine eq_of_toNat_eq ?_
  rw [toNat_add, toNat_ofNat, toNat_ofNat]
  omega

/-- A byte of the kernel half is read if the kernel may read it. -/
lemma copyToPart_kernel (hkernel : 0xFFFF800000000000#64 ≤ a) (hpermits : (m.entry a).permits false)
    (byte : BitVec 8) :
    (copyToPart [byte] a 0 1).run m = .ok ([m.byteAt a], true) (m.record a) := by
  have huser : ¬ isUserAddr a := by
    simp only [isUserAddr, decide_eq_true_eq]
    bv_omega
  have hcanonical : isCanonical a := by
    rw [isCanonical, decide_eq_true hkernel, Bool.or_true]
  have haccess : (access a false).run m = .ok true (m.record a) := by
    simp only [EStateM.run, access, hcanonical, hpermits]
    rfl
  have hload : (loadByte a).run m = .ok (some (m.byteAt a)) (m.record a) := run_bind_ok haccess
  have hmovs : (repMovsb (fun _ => loadByte) [byte] a).run m =
      .ok ([m.byteAt a], true) (m.record a) := run_bind_ok hload
  have hraw : (rawCopy (fun _ => loadByte) [byte] a).run m = .ok [m.byteAt a] (m.record a) :=
    run_bind_ok hmovs
  have hsub : subslice [byte] 0 1 = pure [byte] := rfl
  rw [copyToPart, hsub, pure_bind, if_neg huser]
  exact run_bind_ok hraw

/-- The next byte is read, once the empty buffers before it have been passed. -/
lemma accessed_transferLoop {l : List VirtAddr} {n : ℕ} (h : it.Inv) (hrest : it.rest = a :: l)
    (hkernel : 0xFFFF800000000000#64 ≤ a) (hpermits : (m.entry a).permits false)
    (hn : it.iovecs.length - it.currentIdx < n) (oldOffset : Usize) (byte : BitVec 8)
    (bytes : List (BitVec 8)) :
    a ∈ (final ((transferLoop (copyToPart [byte]) oldOffset n it 1 0 bytes).run m)).accessed := by
  induction n generalizing it bytes with
  | zero => exact absurd hn (Nat.not_lt_zero _)
  | succ n ih =>
    obtain ⟨left₁, it₁, hskip₁, hmoves₁, -⟩ := h.exists_skip 0
    have hrest₁ : it₁.rest = a :: l := hmoves₁.rest.trans hrest
    obtain ⟨v, hv⟩ := hmoves₁.inv.exists_current
    simp only [transferLoop, hskip₁, hv, Cpu.unwrap, pure_bind]
    by_cases hend : it₁.currentOffset = v.len
    · have hzero : minUsize (v.len - it₁.currentOffset) 1 = 0 := by
        rw [hend, BitVec.sub_self]
        rfl
      obtain ⟨left₂, it₂, hskip₂, hmoves₂, hlt⟩ := hmoves₁.inv.exists_skip 0
      have hrest₂ : it₂.rest = a :: l := hmoves₂.rest.trans hrest₁
      have hne : it₂.rest ≠ [] := hrest₂ ▸ cons_ne_nil a l
      have hfinished : it₂.isFinished = false :=
        Bool.eq_false_iff.mpr fun hfin => hne (hmoves₂.inv.isFinished_iff.mp hfin)
      have hidx := hlt v hv hend hne
      have hlast := hmoves₂.inv.idx
      rw [hmoves₂.iovecs, hmoves₁.iovecs] at hlast
      have hle := hmoves₁.idx
      simp only [hzero]
      have hpart : (copyToPart [byte] (v.base + it₁.currentOffset) (0 : Usize).toNat
          (0 : Usize).toNat).run m = .ok ([], true) m := by
        have hsub : subslice [byte] (0 : Usize).toNat (0 : Usize).toNat = pure [] := by
          simp [subslice]
        rw [copyToPart, hsub]
        split_ifs <;> rfl
      rw [run_bind_ok hpart]
      simp only [hskip₂, pure_bind, hfinished]
      refine ih hmoves₂.inv hrest₂ ?_ (bytes ++ [])
      rw [hmoves₂.iovecs, hmoves₁.iovecs]
      omega
    · have haddr : v.base + it₁.currentOffset = a := by
        have hlt : it₁.currentOffset.toNat < v.bytes.length := by
          rw [Iovec.length_bytes]
          exact lt_of_le_of_ne (hmoves₁.inv.offset v hv) fun heq => hend (eq_of_toNat_eq heq)
        have hhead := rest_eq hv
        rw [hrest₁, drop_append_of_le_length hlt.le, drop_eq_getElem_cons hlt] at hhead
        rw [(cons.inj hhead).1]
        simp [Iovec.bytes]
      have hone : minUsize (v.len - it₁.currentOffset) 1 = 1 := by
        refine eq_of_toNat_eq ?_
        have hoffset := hmoves₁.inv.offset v hv
        have hne : it₁.currentOffset.toNat ≠ v.len.toNat :=
          fun heq => hend (eq_of_toNat_eq heq)
        rw [minUsize_toNat, hmoves₁.inv.remaining_toNat hv]
        change min _ 1 = 1
        omega
      obtain ⟨left₂, it₂, hskip₂, -⟩ := hmoves₁.inv.exists_skip 1
      simp only [hone, haddr]
      have hpart : (copyToPart [byte] a (0 : Usize).toNat (1 : Usize).toNat).run m =
          .ok ([m.byteAt a], true) (m.record a) := copyToPart_kernel hkernel hpermits byte
      have hdone : (it₂.isFinished || decide ((1 : Usize) - 1 = 0)) = true := Bool.or_true _
      rw [run_bind_ok hpart]
      simp only [hskip₂, pure_bind, hdone]
      exact mem_cons_self

/-- The iterator of an accepted list reads the last byte of the address space if that is one of the
bytes of the buffers. -/
lemma exists_accessed (h : it.Inv) (hmem : 0xFFFFFFFFFFFFFFFF#64 ∈ it.iovecs.flatMap Iovec.bytes)
    (hpermits : (m.entry 0xFFFFFFFFFFFFFFFF#64).permits false) :
    ∃ ops, 0xFFFFFFFFFFFFFFFF#64 ∈ (final ((run ops it).run m)).accessed := by
  obtain ⟨i, hi, hget⟩ := getElem_of_mem hmem
  have hlt : i < 2 ^ 64 := by
    rw [← h.all] at hi
    exact hi.trans it.totalLen.isLt
  obtain ⟨left, it₁, hset, hinv, -, hrest⟩ := h.exists_setOffset (BitVec.ofNat 64 i)
  rw [toNat_ofNat, Nat.mod_eq_of_lt hlt, drop_eq_getElem_cons hi, hget] at hrest
  have hone : it₁.remaining [0] = 1 := by
    refine eq_of_toNat_eq ?_
    have htotal := hinv.total
    rw [hrest, length_cons] at htotal
    rw [remaining, minUsize_toNat, toNat_sub_of_le (by rw [le_def]; omega)]
    change min 1 _ = 1
    omega
  refine ⟨[.setOffset (BitVec.ofNat 64 i), .copyToSlice [0]], ?_⟩
  have hread := accessed_transferLoop hinv hrest (by decide) hpermits
    (Nat.lt_succ_of_le (Nat.sub_le _ _)) it₁.totalOffset 0 []
  simp only [run, IovecOp.run, hset, Cpu.unwrap, pure_bind]
  simp only [copyToSlice, transfer, hone, bind_pure_comp, bind_pure, final_map]
  exact hread

/-- A process whose kernel half maps all of the physical memory reads the last byte of it. -/
lemma not_confined_of_not_fits {pmm : Pmm} (hnew : new iovecs = .ok it) (hv : v ∈ iovecs)
    (hfits : ¬ Fits v) : ¬ Confined pmm iovecs := by
  intro hconf
  obtain ⟨-, totalLen, rfl, hlen⟩ := exists_of_new hnew
  have hmem : 0xFFFFFFFFFFFFFFFF#64 ∈ iovecs.flatMap Iovec.bytes :=
    mem_flatMap.mpr ⟨v, hv, last_mem_bytes hfits⟩
  have hpermits : ((UserCall.freshCall pmm).entry 0xFFFFFFFFFFFFFFFF#64).permits false := by
    rw [Machine.entry]
    change (UserCall.directMap _).permits false
    decide
  obtain ⟨ops, hacc⟩ := exists_accessed (Inv.start hlen (ne_nil_of_mem hv)) hmem hpermits
  have huser := hconf _ hnew (UserCall.freshCall pmm) (System.Reachable.oneFile pmm) rfl ops _ hacc
  exact absurd huser (by decide)

/-- The list is safe if and only if it is not accepted or none of its buffers wraps around. -/
theorem confined_iff_fits (pmm : Pmm) (iovecs : List Iovec) :
    Confined pmm iovecs ↔ (∃ e, new iovecs = .error e) ∨ ∀ v ∈ iovecs, Fits v := by
  constructor
  · intro hconf
    cases hnew : new iovecs with
    | error e => exact Or.inl ⟨e, rfl⟩
    | ok it =>
      refine Or.inr fun v hv => ?_
      by_contra hfits
      exact not_confined_of_not_fits hnew hv hfits hconf
  · rintro (⟨e, he⟩ | hfits) it hnew m - hacc ops a ha
    · rw [hnew] at he
      cases he
    · obtain ⟨huser, totalLen, rfl, hlen⟩ := exists_of_new hnew
      have hnew : a ∉ m.accessed := hacc ▸ not_mem_nil
      by_cases hnil : iovecs = []
      · have hmem := (spec_run_nil (S := fun _ => False) ops hnil m).1 a ha
        exact (hmem.resolve_left hnew).elim
      · have hmem := (spec_run ops (Inv.start hlen hnil) m).1 a ha
        obtain ⟨v, hv, hav⟩ := mem_flatMap.mp (hmem.resolve_left hnew)
        exact isUserAddr_of_mem_bytes (hfits v hv) (huser v hv) hav

/-- The last page of the address space is accepted as a buffer of a process. -/
theorem not_confined_last_page : ∃ pmm, System.smallMap.init = some pmm ∧
    ¬ Confined pmm [⟨0xFFFFFFFFFFFFF000, 0x1000⟩] := by
  obtain ⟨pmm, hpmm⟩ := System.exists_init_smallMap
  refine ⟨pmm, hpmm, not_confined_of_not_fits rfl
    (mem_singleton_self _) (by decide)⟩

end

end IovecIter

end Zinnia
