import Zinnia.Util

/-!
# Bulk transfers of an xHCI controller

A transfer with a physical buffer is cut into chunks that cross no boundary of 64 KiB, with a TRB
for each of them. They share one completion, which keeps what is reported first.
-/

namespace Zinnia.Xhci

open List

/-- The chunks of a buffer from an offset on. -/
def chunks (base : BitVec 64) (length off : ℕ) : List (BitVec 64 × ℕ) :=
  if off < length then
    let addr := base + .ofNat 64 off
    let toBoundary := 0x10000 - addr.toNat % 0x10000
    let chunk := min (min (length - off) 0x10000) toBoundary
    (addr, chunk) :: chunks base length (off + chunk)
  else []
termination_by length - off
decreasing_by omega

structure Completion where
  code : BitVec 8
  value : BitVec 32

/-- `CompletionCell::complete`. -/
def complete (result : Option Completion) (c : Completion) : Option Completion := result.or (some c)

inductive Status where
  | stall
  | error

def statusFromCode (code : BitVec 8) : Except Status Unit :=
  if code = 1 ∨ code = 13 then .ok () else if code = 6 then .error .stall else .error .error

/-- The result of `data` with a physical buffer after the events for its TRBs, if there is one. -/
def data (length : ℕ) (events : List Completion) : Option (Except Status ℕ) :=
  if length = 0 then some (.ok 0)
  else
    (events.foldl complete none).map fun c =>
      (statusFromCode c.code).map fun _ => length - c.value.toNat

/-- The data end after `n` bytes in a chunk of which `residue` bytes are left. The lengths of the
chunks behind it are `after`. -/
def Ends (base : BitVec 64) (length n residue : ℕ) (after : List ℕ) : Prop :=
  ∃ before l, (chunks base length 0).map Prod.snd = before ++ l :: after ∧
    residue ≤ l ∧ n + residue = before.sum + l

section

variable (base : BitVec 64) (length off : ℕ)

lemma sum_chunks : ((chunks base length off).map Prod.snd).sum = length - off := by
  fun_induction chunks with
  | case1 off h addr toBoundary chunk ih =>
    rw [map_cons, sum_cons, ih]
    omega
  | case2 off h => simp [Nat.sub_eq_zero_of_le (not_lt.mp h)]

lemma pos_of_mem_chunks : ∀ l ∈ (chunks base length off).map Prod.snd, 0 < l := by
  fun_induction chunks with
  | case1 off h addr toBoundary chunk ih =>
    rw [map_cons, forall_mem_cons]
    exact ⟨by omega, ih⟩
  | case2 off h => simp

variable {base length} {n : ℕ} {after : List ℕ} {c : Completion}

/-- The first event is the one that counts. -/
lemma foldl_complete (c : Completion) (events : List Completion) :
    (c :: events).foldl complete none = some c := by
  suffices h : events.foldl complete (some c) = some c from h
  induction events with
  | nil => rfl
  | cons e events ih => exact ih

/-- The result is the number of bytes exactly if the data end in the last chunk. -/
theorem data_eq_iff (h : Ends base length n c.value.toNat after)
    (hcode : c.code = 1 ∨ c.code = 13) (events : List Completion) :
    data length (c :: events) = some (.ok n) ↔ after = [] := by
  obtain ⟨before, l, hchunks, hresidue, hn⟩ := h
  have hsum := sum_chunks base length 0
  have hpos := pos_of_mem_chunks base length 0
  rw [hchunks, sum_append, sum_cons] at hsum
  have hl : 0 < l := hpos l (by simp [hchunks])
  have hdata : data length (c :: events) = some (.ok (length - c.value.toNat)) := by
    rw [data, if_neg (by omega), foldl_complete, Option.map_some, statusFromCode, if_pos hcode]
    rfl
  have hafter : after.sum = 0 ↔ after = [] := by
    cases after with
    | nil => simp
    | cons a after =>
      have := hpos a (by simp [hchunks])
      simp only [sum_cons, reduceCtorEq, iff_false]
      omega
  rw [hdata, ← hafter]
  simp only [Option.some.injEq, Except.ok.injEq]
  omega

end

theorem data_eq_short :
    ∃ c, Ends 0 0x8000 100 c.value.toNat [] ∧ data 0x8000 [c] = some (.ok 100) := by
  have hends : Ends 0 0x8000 100 0x7f9c [] := by
    refine ⟨[], 0x8000, ?_⟩
    simp [chunks]
  exact ⟨⟨13, 0x7f9c⟩, hends, (data_eq_iff (c := ⟨13, 0x7f9c⟩) hends (.inr rfl) []).mpr rfl⟩

/-- The data end after 100 bytes, in the first one of two chunks. -/
theorem data_ne_short : ∃ c, Ends 0 0x20000 100 c.value.toNat [0x10000] ∧
    c.code = 13 ∧ data 0x20000 [c] = some (.ok 65636) := by
  refine ⟨⟨13, 0xff9c⟩, ⟨[], 0x10000, ?_⟩, rfl, rfl⟩
  simp [chunks]

end Zinnia.Xhci
