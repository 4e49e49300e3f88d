import Zinnia.Memory.Virt.Flags

/-!
# Paging on x86_64
-/

namespace Zinnia

open BitVec

/-- `arch::virt::get_level_bits`. -/
def levelBits : ℕ := 9

/-- `arch::virt::is_user_addr`. -/
def isUserAddr (addr : VirtAddr) : Bool := addr < 0x0000800000000000#64

/-- A page table entry, in the format of the processor. -/
@[ext]
structure PageTableEntry where
  inner : BitVec 64
deriving DecidableEq

namespace PageFlags

def present : BitVec 64 := 1 <<< 0

def readWrite : BitVec 64 := 1 <<< 1

def userMode : BitVec 64 := 1 <<< 2

def writeThrough : BitVec 64 := 1 <<< 3

def cacheDisable : BitVec 64 := 1 <<< 4

def accessed : BitVec 64 := 1 <<< 5

def dirty : BitVec 64 := 1 <<< 6

def size : BitVec 64 := 1 <<< 7

def pat : BitVec 64 := 1 <<< 7

def largePat : BitVec 64 := 1 <<< 12

def executeDisable : BitVec 64 := 1 <<< 63

end PageFlags

namespace PageTableEntry

open PageFlags

/-- Masks only the address bits of an entry. -/
def addrMask : BitVec 64 := 0x000FFFFFFFFFF000

def empty : PageTableEntry := ⟨0⟩

/-- `mask` if the flag is set. -/
def bits (flag : Bool) (mask : BitVec 64) : BitVec 64 := if flag then mask else 0

/-- The bits that select the caching mode of a leaf entry. -/
def cacheBits (large : Bool) : VmCacheType → BitVec 64
  | .normal => 0
  | .writeThrough => writeThrough
  | .writeCombine => (if large then largePat else pat) ||| writeThrough
  | .uncacheable => cacheDisable

/-- `PageTableEntry::new`. -/
def new (address : PhysAddr) (flags : PteFlags) (cache : VmCacheType) (_level : ℕ) :
    PageTableEntry :=
  ⟨(address &&& addrMask) ||| present ||| bits flags.user userMode |||
    if flags.directory then readWrite
    else bits flags.write readWrite ||| bits (!flags.exec) executeDisable |||
      bits flags.large size ||| cacheBits flags.large cache⟩

/-- `flags.contains(mask)`, for a mask of one bit. -/
def has (e : PageTableEntry) (mask : BitVec 64) : Bool := e.inner &&& mask = mask

/-- `PageTableEntry::cache_type`. -/
def cacheType (e : PageTableEntry) : VmCacheType :=
  match e.has pat, e.has cacheDisable, e.has writeThrough with
  | true, false, true => .writeCombine
  | false, true, _ => .uncacheable
  | false, false, true => .writeThrough
  | _, _, _ => .normal

def isPresent (e : PageTableEntry) : Bool := e.has present

/-- `PageTableEntry::is_directory`. -/
def isDirectory (e : PageTableEntry) (level : ℕ) : Bool := 0 < level && !e.has size

def isDirty (e : PageTableEntry) : Bool := e.has dirty

/-- `PageTableEntry::clear_dirty`. -/
def clearDirty (e : PageTableEntry) : PageTableEntry := ⟨e.inner &&& ~~~dirty⟩

def address (e : PageTableEntry) : PhysAddr := e.inner &&& addrMask

/-! ### Access rights

What the processor lets user mode do through an entry. A present entry can always be read: the
format has no bit that forbids it. -/

def allowsRead (e : PageTableEntry) : Bool := e.isPresent && e.has userMode

def allowsWrite (e : PageTableEntry) : Bool := e.isPresent && e.has userMode && e.has readWrite

def allowsExec (e : PageTableEntry) : Bool := e.isPresent && e.has userMode && !e.has executeDisable

lemma isPresent_of_allowsWrite {e : PageTableEntry} (h : e.allowsWrite) : e.isPresent := by
  simp only [allowsWrite, Bool.and_eq_true] at h
  exact h.1.1

/-! ### Reading back an entry -/

section

variable (e : PageTableEntry)

include e

/-- A mask of one bit is contained exactly if that bit is set. -/
lemma has_shiftLeft (n : ℕ) (hn : n < 64) : e.has (1#64 <<< n) = e.inner.getLsbD n := by
  rw [has, ← twoPow_eq, and_twoPow]
  split_ifs with h
  · simp [h]
  · have hne : (0#64 = twoPow 64 n) = False := by
      refine eq_false fun h0 => ?_
      have := congrArg (getLsbD · n) h0
      simp [hn] at this
    simp [h, hne]

lemma isPresent_eq : e.isPresent = e.inner.getLsbD 0 :=
  has_shiftLeft e 0 (by decide)

lemma has_readWrite : e.has readWrite = e.inner.getLsbD 1 :=
  has_shiftLeft e 1 (by decide)

lemma has_userMode : e.has userMode = e.inner.getLsbD 2 :=
  has_shiftLeft e 2 (by decide)

lemma has_executeDisable : e.has executeDisable = e.inner.getLsbD 63 :=
  has_shiftLeft e 63 (by decide)

lemma has_writeThrough : e.has writeThrough = e.inner.getLsbD 3 :=
  has_shiftLeft e 3 (by decide)

lemma has_cacheDisable : e.has cacheDisable = e.inner.getLsbD 4 :=
  has_shiftLeft e 4 (by decide)

lemma has_size : e.has size = e.inner.getLsbD 7 :=
  has_shiftLeft e 7 (by decide)

lemma has_pat : e.has pat = e.inner.getLsbD 7 :=
  has_shiftLeft e 7 (by decide)

end

lemma getLsbD_bits (flag : Bool) (mask : BitVec 64) (i : ℕ) :
    (bits flag mask).getLsbD i = (flag && mask.getLsbD i) := by
  cases flag <;> simp [bits]

@[simp] lemma isPresent_empty : empty.isPresent = false := by decide

section

variable (address : PhysAddr) (flags : VmFlags) (user : Bool) (cache : VmCacheType) (level : ℕ)

/-- The bits of a leaf entry. -/
lemma getLsbD_new (i : ℕ) : (new address (flags.asPte user) cache level).inner.getLsbD i =
    (address.getLsbD i && addrMask.getLsbD i || present.getLsbD i || user && userMode.getLsbD i ||
      (flags.write && readWrite.getLsbD i || !flags.exec && executeDisable.getLsbD i ||
        (cacheBits false cache).getLsbD i)) := by
  simp only [new, VmFlags.asPte, getLsbD_or, getLsbD_and, getLsbD_bits,
    Bool.false_eq_true, ↓reduceIte, Bool.false_and, Bool.or_false]

/-- The bits that decide about an access. -/
lemma getLsbD_new_of_mem {i : ℕ} (hi : i ∈ [0, 1, 2, 63]) :
    (new address (flags.asPte user) cache level).inner.getLsbD i =
      (decide (i = 0) || user && decide (i = 2) ||
        (flags.write && decide (i = 1) || !flags.exec && decide (i = 63))) := by
  have hmask : ∀ i ∈ [0, 1, 2, 63], addrMask.getLsbD i = false ∧
      present.getLsbD i = decide (i = 0) ∧ userMode.getLsbD i = decide (i = 2) ∧
      readWrite.getLsbD i = decide (i = 1) ∧ executeDisable.getLsbD i = decide (i = 63) := by
    decide
  have hcache : ∀ i ∈ [0, 1, 2, 63], (cacheBits false cache).getLsbD i = false := by
    cases cache <;> decide
  obtain ⟨haddr, hpresent, huser, hwrite, hexec⟩ := hmask i hi
  rw [getLsbD_new, haddr, hpresent, huser, hwrite, hexec, hcache i hi, Bool.and_false,
    Bool.false_or, Bool.or_false]

@[simp] lemma isPresent_new : (new address (flags.asPte user) cache level).isPresent := by
  rw [isPresent_eq, getLsbD_new_of_mem _ _ _ _ _ (by simp)]
  simp

@[simp] lemma has_userMode_new :
    (new address (flags.asPte user) cache level).has userMode = user := by
  rw [has_userMode, getLsbD_new_of_mem _ _ _ _ _ (by simp)]
  simp

@[simp] lemma has_readWrite_new :
    (new address (flags.asPte user) cache level).has readWrite = flags.write := by
  rw [has_readWrite, getLsbD_new_of_mem _ _ _ _ _ (by simp)]
  simp

@[simp] lemma has_executeDisable_new :
    (new address (flags.asPte user) cache level).has executeDisable = !flags.exec := by
  rw [has_executeDisable, getLsbD_new_of_mem _ _ _ _ _ (by simp)]
  simp

/-- An entry keeps the address bits that the processor has. -/
lemma address_new :
    (new address (flags.asPte user) cache level).address = address &&& addrMask := by
  have hmask : ∀ i < 64, addrMask.getLsbD i = true → present.getLsbD i = false ∧
      userMode.getLsbD i = false ∧ readWrite.getLsbD i = false ∧
      executeDisable.getLsbD i = false := by
    decide
  have hcache : ∀ i < 64, addrMask.getLsbD i = true → (cacheBits false cache).getLsbD i = false := by
    cases cache <;> decide
  refine eq_of_getLsbD_eq fun i hi => ?_
  rw [PageTableEntry.address, getLsbD_and, getLsbD_and, getLsbD_new]
  cases haddr : addrMask.getLsbD i with
  | false => simp only [Bool.and_false]
  | true =>
    obtain ⟨hpresent, huser, hwrite, hexec⟩ := hmask i hi haddr
    simp only [hpresent, huser, hwrite, hexec, hcache i hi haddr, Bool.and_true, Bool.and_false,
      Bool.or_false]

/-- The caching mode is read back. -/
lemma cacheType_new : (new address (flags.asPte user) cache level).cacheType = cache := by
  have hmask : ∀ i ∈ [3, 4, 7], addrMask.getLsbD i = false ∧ present.getLsbD i = false ∧
      userMode.getLsbD i = false ∧ readWrite.getLsbD i = false ∧
      executeDisable.getLsbD i = false := by
    decide
  have hbit : ∀ i ∈ [3, 4, 7], (new address (flags.asPte user) cache level).inner.getLsbD i =
      (cacheBits false cache).getLsbD i := by
    intro i hi
    obtain ⟨haddr, hpresent, huser, hwrite, hexec⟩ := hmask i hi
    rw [getLsbD_new, haddr, hpresent, huser, hwrite, hexec]
    simp only [Bool.and_false, Bool.false_or]
  rw [cacheType, has_pat, has_cacheDisable, has_writeThrough, hbit 7 (by decide),
    hbit 4 (by decide), hbit 3 (by decide)]
  cases cache <;> decide

end

/-! ### Entries that refer to tables -/

section

variable (address : PhysAddr) (user : Bool) (level : ℕ)

lemma getLsbD_newDirectory (i : ℕ) :
    (new address { directory := true, user } .normal level).inner.getLsbD i =
      (address.getLsbD i && addrMask.getLsbD i || present.getLsbD i ||
        user && userMode.getLsbD i || readWrite.getLsbD i) := by
  simp only [new, getLsbD_or, getLsbD_and, getLsbD_bits, ↓reduceIte]

lemma isPresent_newDirectory :
    (new address { directory := true, user } .normal level).isPresent := by
  rw [isPresent_eq, getLsbD_newDirectory]
  simp [present]

lemma has_size_newDirectory :
    (new address { directory := true, user } .normal level).has size = false := by
  have hmask : addrMask.getLsbD 7 = false ∧ present.getLsbD 7 = false ∧
      userMode.getLsbD 7 = false ∧ readWrite.getLsbD 7 = false := by
    decide
  obtain ⟨haddr, hpresent, huser, hwrite⟩ := hmask
  rw [has_size, getLsbD_newDirectory, haddr, hpresent, huser, hwrite]
  simp only [Bool.and_false, Bool.or_false]

lemma address_newDirectory :
    (new address { directory := true, user } .normal level).address = address &&& addrMask := by
  have hmask : ∀ i < 64, addrMask.getLsbD i = true → present.getLsbD i = false ∧
      userMode.getLsbD i = false ∧ readWrite.getLsbD i = false := by
    decide
  refine eq_of_getLsbD_eq fun i hi => ?_
  rw [PageTableEntry.address, getLsbD_and, getLsbD_and, getLsbD_newDirectory]
  cases haddr : addrMask.getLsbD i with
  | false => simp only [Bool.and_false]
  | true =>
    obtain ⟨hpresent, huser, hwrite⟩ := hmask i hi haddr
    simp only [hpresent, huser, hwrite, Bool.and_true, Bool.and_false, Bool.or_false]

end

/-! ### The bits that the processor sets

An access through an entry sets its accessed bit, and a write also its dirty bit. -/

/-- What an access leaves in an entry. -/
def touch (write : Bool) (e : PageTableEntry) : PageTableEntry :=
  ⟨e.inner ||| accessed ||| bits write dirty⟩

/-- An entry without its accessed and dirty bits. -/
def core (e : PageTableEntry) : PageTableEntry := ⟨e.inner &&& ~~~(accessed ||| dirty)⟩

section

variable (e : PageTableEntry)

lemma getLsbD_core {i : ℕ} (hi : i < 64) :
    e.core.inner.getLsbD i = (e.inner.getLsbD i && decide (i ≠ 5 ∧ i ≠ 6)) := by
  have hmask : ∀ i < 64, (~~~(accessed ||| dirty)).getLsbD i = decide (i ≠ 5 ∧ i ≠ 6) := by decide
  rw [core, getLsbD_and, hmask i hi]

@[simp] lemma core_clearDirty : e.clearDirty.core = e.core := by
  have hmask : ∀ i < 64, (~~~dirty).getLsbD i = decide (i ≠ 6) := by decide
  refine PageTableEntry.ext (eq_of_getLsbD_eq fun i hi => ?_)
  rw [getLsbD_core _ hi, getLsbD_core _ hi, clearDirty, getLsbD_and, hmask i hi]
  by_cases h6 : i = 6 <;> simp [h6]

@[simp] lemma core_touch (write : Bool) : (e.touch write).core = e.core := by
  have hmask : ∀ i < 64, accessed.getLsbD i = decide (i = 5) ∧ dirty.getLsbD i = decide (i = 6) := by
    decide
  refine PageTableEntry.ext (eq_of_getLsbD_eq fun i hi => ?_)
  obtain ⟨haccessed, hdirty⟩ := hmask i hi
  rw [getLsbD_core _ hi, getLsbD_core _ hi, touch, getLsbD_or, getLsbD_or,
    getLsbD_bits, haccessed, hdirty]
  by_cases h5 : i = 5
  · simp [h5]
  · by_cases h6 : i = 6 <;> simp [h5, h6]

@[simp] lemma isPresent_core : e.core.isPresent = e.isPresent := by
  rw [isPresent_eq, isPresent_eq, getLsbD_core e (by decide)]
  simp

@[simp] lemma allowsWrite_core : e.core.allowsWrite = e.allowsWrite := by
  have hbits : ∀ i ∈ [0, 1, 2], e.core.inner.getLsbD i = e.inner.getLsbD i := by
    intro i hi
    have : ∀ i ∈ [0, 1, 2], i < 64 ∧ i ≠ 5 ∧ i ≠ 6 := by decide
    rw [getLsbD_core e (this i hi).1, decide_eq_true (this i hi).2, Bool.and_true]
  simp only [allowsWrite, isPresent_eq, has_userMode, has_readWrite]
  rw [hbits 0 (by decide), hbits 1 (by decide), hbits 2 (by decide)]

@[simp] lemma address_core : e.core.address = e.address := by
  have hmask : ∀ i < 64, addrMask.getLsbD i = true → i ≠ 5 ∧ i ≠ 6 := by decide
  refine eq_of_getLsbD_eq fun i hi => ?_
  rw [PageTableEntry.address, PageTableEntry.address, getLsbD_and, getLsbD_and, getLsbD_core e hi]
  cases haddr : addrMask.getLsbD i with
  | false => simp only [Bool.and_false]
  | true => rw [decide_eq_true (hmask i hi haddr), Bool.and_true]

end

end PageTableEntry

end Zinnia
