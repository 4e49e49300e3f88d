import Mathlib.Algebra.Ring.Nat
import Mathlib.Tactic.Common

/-!
# Machine words, addresses and pages

The kernel is built for 64-bit targets with `overflow-checks = false`, so `usize` arithmetic
wraps. Words and addresses are bit vectors; page numbers and counters that cannot overflow are
natural numbers.
-/

namespace Zinnia

open BitVec

/-- `usize` on the supported targets. -/
abbrev Usize := BitVec 64

/-- `NonZeroUsize`. -/
abbrev NonZeroUsize := {n : Usize // n ≠ 0}

/-- `NonZeroUsize::new`. -/
def NonZeroUsize.new (n : Usize) : Option NonZeroUsize := if h : n ≠ 0 then some ⟨n, h⟩ else none

abbrev PhysAddr := BitVec 64

abbrev VirtAddr := BitVec 64

/-- `arch::virt::get_page_bits`. -/
abbrev pageBits : ℕ := 12

/-- `arch::virt::get_page_size`. -/
abbrev pageSize : ℕ := 4096

instance : NeZero pageSize := ⟨by decide⟩

/-- The errors that the modelled functions report. -/
inductive Errno where
  | eacces
  | eaddrinuse
  | eaddrnotavail
  | eagain
  | ealready
  | ebadf
  | econnaborted
  | econnreset
  | eexist
  | efault
  | efbig
  | eilseq
  | einprogress
  | eintr
  | einval
  | eio
  | eisconn
  | eisdir
  | eloop
  | emsgsize
  | enetunreach
  | enodata
  | enodev
  | enoent
  | enomem
  | enospc
  | enotconn
  | enotdir
  | enotempty
  | enotty
  | eoverflow
  | eperm
  | epipe
  | erestart
  | esrch
  | etimedout
  | exdev
deriving DecidableEq

/-- The number of an error in the user interface. -/
def Errno.number : Errno → Usize
  | eacces => 13
  | eaddrinuse => 98
  | eaddrnotavail => 99
  | eagain => 11
  | ealready => 114
  | ebadf => 9
  | econnaborted => 103
  | econnreset => 104
  | eexist => 17
  | efault => 14
  | efbig => 27
  | eilseq => 84
  | einprogress => 115
  | eintr => 4
  | einval => 22
  | eio => 5
  | eisconn => 106
  | eisdir => 21
  | eloop => 40
  | emsgsize => 90
  | enetunreach => 101
  | enodata => 61
  | enodev => 19
  | enoent => 2
  | enomem => 12
  | enospc => 28
  | enotconn => 107
  | enotdir => 20
  | enotempty => 39
  | enotty => 25
  | eoverflow => 75
  | eperm => 1
  | epipe => 32
  | erestart => 85
  | esrch => 3
  | etimedout => 110
  | exdev => 18

/-- `EResult`. -/
abbrev EResult (α : Type) := Except Errno α

/-- `usize::checked_add`. -/
def checkedAdd (a b : Usize) : Option Usize :=
  if a.toNat + b.toNat < 2 ^ 64 then some (a + b) else none

/-- `usize::min`. -/
def minUsize (a b : Usize) : Usize := if a ≤ b then a else b

/-- `util::align_up`. -/
def alignUp (value alignment : Usize) : Usize :=
  (value + (alignment - 1)) &&& ~~~(alignment - 1)

/-- `util::divide_up`. -/
def divideUp (value alignment : Usize) : Usize := alignUp value alignment / alignment

/-- `usize::is_multiple_of`, for the page size. -/
def isPageAligned (addr : VirtAddr) : Bool := addr.toNat % pageSize = 0

/-- The number of pages that `len` bytes from a page boundary on take. -/
def pageCount (len : Usize) : ℕ := (divideUp len (BitVec.ofNat 64 pageSize)).toNat

lemma checkedAdd_isNone (a b : Usize) :
    (checkedAdd a b).isNone = decide (2 ^ 64 ≤ a.toNat + b.toNat) := by
  simp only [checkedAdd]
  split_ifs with h
  · rw [Option.isNone_some, decide_eq_false (Nat.not_le.mpr h)]
  · rw [Option.isNone_none, decide_eq_true (Nat.not_lt.mp h)]

lemma minUsize_toNat (a b : Usize) : (minUsize a b).toNat = min a.toNat b.toNat := by
  rw [minUsize, Nat.min_def]
  simp only [le_def]
  split_ifs <;> rfl

lemma NonZeroUsize.toNat_pos (n : NonZeroUsize) : 0 < n.1.toNat :=
  Nat.pos_of_ne_zero fun h => n.2 (eq_of_toNat_eq h)

variable {len : NonZeroUsize}

lemma NonZeroUsize.eq_of_new {n : Usize} (h : NonZeroUsize.new n = some len) : len.1 = n := by
  rw [NonZeroUsize.new] at h
  split_ifs at h
  cases h
  rfl

lemma and_pageMask (x : Usize) : (x &&& 4095#64).toNat = x.toNat % 4096 := by
  exact Nat.and_two_pow_sub_one_eq_mod x.toNat 12

/-- Clearing the low bits rounds down to a page boundary. -/
lemma and_not_pageMask (x : Usize) : (x &&& ~~~4095#64).toNat = x.toNat / 4096 * 4096 := by
  have hmask : ∀ i < 64, (4095#64).getLsbD i = decide (i < 12) := by decide
  have h : x &&& ~~~4095#64 = (x >>> 12) <<< 12 := by
    refine eq_of_getLsbD_eq fun i hi => ?_
    simp only [getLsbD_and, getLsbD_not, hmask i hi]
    by_cases h12 : i < 12
    · simp [h12]
    · simp [h12, hi, show 12 + (i - 12) = i by omega]
  rw [h, toNat_shiftLeft, toNat_ushiftRight, Nat.shiftLeft_eq]
  omega

/-- Rounding up to pages wraps around for the last page of the address space. -/
lemma alignUp_toNat (x : Usize) : (alignUp x (BitVec.ofNat 64 pageSize)).toNat =
    (x.toNat + 4095) % 2 ^ 64 / 4096 * 4096 := by
  have hone : (BitVec.ofNat 64 pageSize - 1 : Usize) = 4095#64 := by decide
  rw [alignUp, hone, and_not_pageMask]
  rfl

lemma pageCount_eq (len : Usize) : pageCount len = (len.toNat + 4095) % 2 ^ 64 / 4096 := by
  rw [pageCount, divideUp, BitVec.toNat_udiv, alignUp_toNat]
  exact Nat.mul_div_cancel _ (by decide)

/-! ### The pages of a range of bytes -/

/-- The length of a page. -/
def onePage : NonZeroUsize := ⟨BitVec.ofNat 64 pageSize, by decide⟩

lemma onePage_toNat : onePage.1.toNat = pageSize := rfl

/-- The page holds one of the `len` bytes from `addr` on. -/
def InRange (addr : VirtAddr) (len : NonZeroUsize) (page : ℕ) : Prop :=
  addr.toNat / pageSize ≤ page ∧ page ≤ (addr.toNat + len.1.toNat - 1) / pageSize

instance (addr : VirtAddr) (len : NonZeroUsize) (page : ℕ) : Decidable (InRange addr len page) :=
  inferInstanceAs (Decidable (_ ∧ _))

/-- Rounding the length up to pages overflows. -/
def NonZeroUsize.Wraps (len : NonZeroUsize) : Prop := 2 ^ 64 ≤ len.1.toNat + (pageSize - 1)

instance (len : NonZeroUsize) : Decidable len.Wraps := inferInstanceAs (Decidable (_ ≤ _))

lemma inRange_iff {addr : VirtAddr} (haddr : addr.toNat % pageSize = 0) {page : ℕ} :
    InRange addr len page ↔
      addr.toNat / pageSize ≤ page ∧
        page < addr.toNat / pageSize + (len.1.toNat + 4095) / pageSize := by
  have hlen := len.toNat_pos
  simp only [InRange, pageSize] at *
  omega

lemma NonZeroUsize.pageCount_of_wraps (h : len.Wraps) : pageCount len = 0 := by
  simp only [Wraps, pageSize] at h
  rw [pageCount_eq]
  omega

lemma NonZeroUsize.pageCount_of_not_wraps (h : ¬ len.Wraps) :
    pageCount len = (len.1.toNat + 4095) / pageSize := by
  simp only [Wraps, pageSize] at h
  rw [pageCount_eq, Nat.mod_eq_of_lt (by omega)]

/-! ### Bits of a word -/

lemma decide_and_bit_ne_zero (x : BitVec 64) (i : ℕ) :
    decide (x &&& 1#64 <<< i ≠ 0) = x.getLsbD i := by
  rw [← twoPow_eq, and_twoPow]
  cases hbit : x.getLsbD i with
  | true =>
    rw [decide_eq_true_eq]
    intro hzero
    have hget := congrArg (getLsbD · i) hzero
    have hi := lt_of_getLsbD hbit
    simp [hi] at hget
  | false => simp

/-! ### Tables -/

lemma update_eq_some_iff {ι α : Type} [DecidableEq ι] {f : ι → Option α} {i j : ι} {v : Option α}
    {a : α} : Function.update f i v j = some a ↔ (j = i ∧ v = some a) ∨ (j ≠ i ∧ f j = some a) := by
  rcases eq_or_ne j i with rfl | hne
  · simp
  · simp [hne]

end Zinnia
