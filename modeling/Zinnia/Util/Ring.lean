import Mathlib.Data.List.GetD
import Mathlib.Data.ZMod.Basic

/-!
# Ring buffers

A ring buffer of a capacity holds up to one byte less, from the read cursor up to the write cursor.
-/

namespace Zinnia

open List Nat

structure RingBuffer (capacity : ℕ) where
  buf : Fin capacity → BitVec 8
  readCursor : Fin capacity
  writeCursor : Fin capacity

namespace RingBuffer

variable {capacity : ℕ}

/-- `RingBuffer::new`. -/
def new (capacity : ℕ) [NeZero capacity] : RingBuffer capacity := ⟨fun _ => 0, 0, 0⟩

variable (rb : RingBuffer capacity)

/-- `RingBuffer::get_data_len`. -/
def getDataLen : ℕ :=
  if rb.readCursor ≤ rb.writeCursor then rb.writeCursor.val - rb.readCursor.val
  else capacity - (rb.readCursor.val - rb.writeCursor.val)

/-- `RingBuffer::get_available_len`. -/
def getAvailableLen : ℕ := capacity - rb.getDataLen - 1

/-- Copy bytes to a position of the buffer. -/
def copyTo (buf : Fin capacity → BitVec 8) (pos : ℕ) (data : List (BitVec 8)) :
    Fin capacity → BitVec 8 := fun i =>
  if pos ≤ i.val ∧ i.val < pos + data.length then data.getD (i.val - pos) 0 else buf i

/-- Copy bytes from a position of the buffer. -/
def copyFrom (buf : Fin capacity → BitVec 8) (pos len : ℕ) : List (BitVec 8) :=
  (List.range len).map fun k => if h : pos + k < capacity then buf ⟨pos + k, h⟩ else 0

section

variable [NeZero capacity]

/-- `RingBuffer::write`, with the number of bytes written. -/
def write (data : List (BitVec 8)) : RingBuffer capacity × ℕ :=
  let cursor := rb.writeCursor.val
  let len := min data.length rb.getAvailableLen
  let l0 := min (cursor + len) capacity - cursor
  let buf := copyTo rb.buf cursor (data.take l0)
  let l1 := len - l0
  let buf := if l1 > 0 then copyTo buf 0 ((data.drop l0).take l1) else buf
  (⟨buf, rb.readCursor, Fin.ofNat capacity (cursor + len)⟩, len)

/-- `RingBuffer::peek`, into a buffer of a length: the bytes that are copied. -/
def peek (n : ℕ) : List (BitVec 8) :=
  let cursor := rb.readCursor.val
  let len := min n rb.getDataLen
  let l0 := min (cursor + len) capacity - cursor
  let l1 := len - l0
  copyFrom rb.buf cursor l0 ++ if l1 > 0 then copyFrom rb.buf 0 l1 else []

/-- `RingBuffer::read`, into a buffer of a length. -/
def read (n : ℕ) : List (BitVec 8) × RingBuffer capacity :=
  let data := rb.peek n
  (data, { rb with readCursor := Fin.ofNat capacity (rb.readCursor.val + data.length) })

/-- `RingBuffer::clear`. -/
def clear : RingBuffer capacity := { rb with readCursor := 0, writeCursor := 0 }

/-- The bytes in the buffer. -/
def contents : List (BitVec 8) :=
  (List.range rb.getDataLen).map fun k => rb.buf (Fin.ofNat capacity (rb.readCursor.val + k))

end

/-! ### Properties -/

section

variable {rb}

lemma getDataLen_lt (rb : RingBuffer capacity) : rb.getDataLen < capacity := by
  rw [getDataLen]
  split_ifs with h
  · omega
  · rw [Fin.le_def] at h
    omega

lemma getDataLen_add (rb : RingBuffer capacity) :
    rb.getDataLen + rb.getAvailableLen + 1 = capacity := by
  have hlt := getDataLen_lt rb
  rw [getAvailableLen]
  omega

/-- The write cursor is behind the bytes. -/
lemma writeCursor_eq :
    rb.writeCursor.val = (rb.readCursor.val + rb.getDataLen) % capacity := by
  have hwrite := rb.writeCursor.isLt
  rw [getDataLen]
  split_ifs with h
  · rw [Fin.le_def] at h
    rw [Nat.add_sub_cancel' h, Nat.mod_eq_of_lt hwrite]
  · rw [Fin.le_def] at h
    rw [show rb.readCursor.val + (capacity - (rb.readCursor.val - rb.writeCursor.val)) =
      rb.writeCursor.val + capacity by omega, add_mod_right, mod_eq_of_lt hwrite]

/-- The cursors determine the number of bytes. -/
lemma getDataLen_eq {d : ℕ} (hd : d < capacity)
    (h : rb.writeCursor.val = (rb.readCursor.val + d) % capacity) : rb.getDataLen = d := by
  have hmod : rb.readCursor.val + rb.getDataLen ≡ rb.readCursor.val + d [MOD capacity] :=
    writeCursor_eq.symm.trans h
  have hcancel := Nat.ModEq.add_left_cancel' rb.readCursor.val hmod
  rwa [Nat.ModEq, mod_eq_of_lt (getDataLen_lt rb), mod_eq_of_lt hd] at hcancel

end

section

variable {rb} [NeZero capacity]

omit [NeZero capacity] in
lemma mod_of_lt_two_mul {x : ℕ} (h : x < 2 * capacity) :
    x % capacity = if x < capacity then x else x - capacity := by
  split_ifs with hlt
  · exact mod_eq_of_lt hlt
  · rw [mod_eq_sub_mod (not_lt.mp hlt), mod_eq_of_lt (by omega)]

lemma getD_drop {data : List (BitVec 8)} {k n : ℕ} :
    (data.drop n).getD k 0 = data.getD (n + k) 0 := by
  rw [getD_eq_getElem?_getD, getElem?_drop, ← getD_eq_getElem?_getD]

lemma ofNat_congr {m n : ℕ} (h : m % capacity = n % capacity) :
    Fin.ofNat capacity m = Fin.ofNat capacity n := Fin.ext h

lemma length_contents : rb.contents.length = rb.getDataLen := by
  rw [contents, length_map, length_range]

lemma contents_new : (new capacity).contents = [] := rfl

lemma copyFrom_eq {buf : Fin capacity → BitVec 8} {pos len : ℕ} (h : pos + len ≤ capacity) :
    copyFrom buf pos len = (List.range len).map fun k => buf (Fin.ofNat capacity (pos + k)) := by
  refine map_congr_left fun k hk => ?_
  have hlt : pos + k < capacity := by
    have hk := mem_range.mp hk
    omega
  rw [dif_pos hlt]
  exact congrArg buf (Fin.ext (mod_eq_of_lt hlt).symm)

/-- The bytes that are read are the first ones. -/
lemma peek_eq (n : ℕ) : rb.peek n = rb.contents.take n := by
  have hread := rb.readCursor.isLt
  have hlt := getDataLen_lt rb
  have htake : rb.contents.take n = (range (min n rb.getDataLen)).map fun k =>
      rb.buf (Fin.ofNat capacity (rb.readCursor.val + k)) := by
    rw [contents, ← map_take, take_range]
  rw [htake, peek]
  by_cases hfit : rb.readCursor.val + min n rb.getDataLen ≤ capacity
  · rw [min_eq_left hfit, Nat.add_sub_cancel_left, Nat.sub_self, if_neg (lt_irrefl 0),
      append_nil, copyFrom_eq hfit]
  · -- the bytes wrap around
    have hcap : capacity ≤ rb.readCursor.val + min n rb.getDataLen := Nat.le_of_not_le hfit
    have hsplit : min n rb.getDataLen = capacity - rb.readCursor.val +
        (min n rb.getDataLen - (capacity - rb.readCursor.val)) := by omega
    rw [min_eq_right hcap, if_pos (by omega), copyFrom_eq (by omega), copyFrom_eq (by omega)]
    conv_rhs => rw [hsplit, range_add, map_append, map_map]
    refine congrArg _ (map_congr_left fun k _ => congrArg rb.buf (ofNat_congr ?_))
    rw [zero_add, ← add_assoc, Nat.add_sub_cancel' (le_of_lt hread), Nat.add_mod_left]

lemma length_peek (n : ℕ) : (rb.peek n).length = min n rb.getDataLen := by
  rw [peek_eq, length_take, length_contents]

lemma getDataLen_read (n : ℕ) :
    (rb.read n).2.getDataLen = rb.getDataLen - min n rb.getDataLen := by
  refine getDataLen_eq (lt_of_le_of_lt (Nat.sub_le _ _) (getDataLen_lt rb)) ?_
  change rb.writeCursor.val = ((rb.readCursor.val + (rb.peek n).length) % capacity +
    (rb.getDataLen - min n rb.getDataLen)) % capacity
  rw [length_peek, Nat.mod_add_mod, add_assoc, Nat.add_sub_cancel' (min_le_right _ _),
    ← writeCursor_eq]

/-- The other bytes are kept. -/
lemma contents_read (n : ℕ) : (rb.read n).2.contents = rb.contents.drop n := by
  refine ext_getElem ?_ fun k hk hk' => ?_
  · rw [length_contents, getDataLen_read, length_drop, length_contents]
    omega
  · have hn : n ≤ rb.getDataLen := by
      rw [length_drop, length_contents] at hk'
      omega
    simp only [contents, getElem_map, getElem_range, getElem_drop]
    refine congrArg rb.buf (ofNat_congr ?_)
    change ((rb.readCursor.val + (rb.peek n).length) % capacity + k) % capacity = _
    rw [length_peek, min_eq_left hn, mod_add_mod, add_assoc]

/-! ### Writes -/

variable {data : List (BitVec 8)}

omit [NeZero capacity] in
lemma copyTo_take {buf : Fin capacity → BitVec 8} {pos len : ℕ} (hlen : len ≤ data.length)
    (i : Fin capacity) : copyTo buf pos (data.take len) i =
      if pos ≤ i.val ∧ i.val < pos + len then data.getD (i.val - pos) 0 else buf i := by
  rw [copyTo, length_take, min_eq_left hlen]
  split_ifs with h
  · rw [getD_eq_getElem?_getD, getElem?_take_of_lt (by omega), ← getD_eq_getElem?_getD]
  · rfl

/-- The byte at a position, by its distance from the write cursor. -/
lemma buf_write (i : Fin capacity) : (rb.write data).1.buf i =
    if (i.val + capacity - rb.writeCursor.val) % capacity < min data.length rb.getAvailableLen
    then data.getD ((i.val + capacity - rb.writeCursor.val) % capacity) 0 else rb.buf i := by
  have hadd := getDataLen_add rb
  have hle := min_le_left data.length rb.getAvailableLen
  have hlt : min data.length rb.getAvailableLen < capacity := by omega
  rw [mod_of_lt_two_mul (show i.val + capacity - rb.writeCursor.val < 2 * capacity by omega)]
  simp only [write]
  generalize min data.length rb.getAvailableLen = len at hle hlt
  by_cases hfit : rb.writeCursor.val + len ≤ capacity
  · rw [min_eq_left hfit, Nat.add_sub_cancel_left, Nat.sub_self, if_neg (lt_irrefl 0),
      copyTo_take hle]
    split_ifs <;> first
      | rfl
      | omega
      | exact congrArg (data.getD · 0) (by omega)
  · -- the bytes wrap around
    have hdrop : len - (capacity - rb.writeCursor.val) ≤
        (data.drop (capacity - rb.writeCursor.val)).length := by
      rw [length_drop]
      omega
    rw [min_eq_right (Nat.le_of_not_le hfit), if_pos (by omega), copyTo_take hdrop,
      copyTo_take (by omega), getD_drop]
    split_ifs <;> first
      | rfl
      | omega
      | exact congrArg (data.getD · 0) (by omega)

lemma getDataLen_write : (rb.write data).1.getDataLen =
    rb.getDataLen + min data.length rb.getAvailableLen := by
  have hadd := getDataLen_add rb
  refine getDataLen_eq (by omega) ?_
  change (rb.writeCursor.val + min data.length rb.getAvailableLen) % capacity =
    (rb.readCursor.val + (rb.getDataLen + min data.length rb.getAvailableLen)) % capacity
  rw [writeCursor_eq, mod_add_mod, add_assoc]

/-- The bytes that fit are appended. -/
lemma contents_write :
    (rb.write data).1.contents = rb.contents ++ data.take rb.getAvailableLen := by
  have hadd := getDataLen_add rb
  refine ext_getElem ?_ fun k hk hk' => ?_
  · rw [length_contents, getDataLen_write, length_append, length_contents, length_take,
      min_comm]
  rw [length_contents, getDataLen_write] at hk
  -- the distance of the byte from the write cursor
  have hdist : ((rb.readCursor.val + k) % capacity + capacity - rb.writeCursor.val) % capacity =
      if k < rb.getDataLen then k + capacity - rb.getDataLen else k - rb.getDataLen := by
    rw [writeCursor_eq, mod_of_lt_two_mul (show rb.readCursor.val + k < 2 * capacity by omega),
      mod_of_lt_two_mul (show rb.readCursor.val + rb.getDataLen < 2 * capacity by omega)]
    split_ifs with h₁ h₂ h₃ h₄ h₅ <;> rw [mod_of_lt_two_mul (by omega)] <;> split_ifs <;> omega
  have hbyte : (rb.write data).1.contents[k] =
      (rb.write data).1.buf (Fin.ofNat capacity (rb.readCursor.val + k)) := by
    simp only [contents, getElem_map, getElem_range]
    rfl
  have hindex : (Fin.ofNat capacity (rb.readCursor.val + k)).val =
      (rb.readCursor.val + k) % capacity := rfl
  rw [hbyte, buf_write, hindex, hdist]
  by_cases hold : k < rb.getDataLen
  · rw [if_pos hold, if_neg (by omega), getElem_append_left (by rwa [length_contents])]
    simp only [contents, getElem_map, getElem_range]
  · rw [if_neg hold, if_pos (by omega), getElem_append_right (by rw [length_contents]; omega),
      getElem_take, getD_eq_getElem _ _ (by omega)]
    simp only [length_contents]

end

end RingBuffer

/-! ### Runs -/

/-- A call on a ring buffer. The buffers for reads and peeks have a length. -/
inductive RingCall where
  | write (data : List (BitVec 8))
  | read (n : ℕ)
  | peek (n : ℕ)
  | clear

/-- The slices of a transfer of `len` bytes between a position of the ring and a buffer of `n` bytes
are in bounds, and no difference is negative. -/
def Transfers (capacity cursor len n : ℕ) : Prop :=
  let l0 := min (cursor + len) capacity - cursor
  let l1 := len - l0
  cursor ≤ min (cursor + len) capacity ∧ l0 ≤ len ∧
    cursor + l0 ≤ capacity ∧ l0 ≤ n ∧ l1 ≤ capacity ∧ l0 + l1 ≤ n

/-- The slices of a call. -/
def RingBuffer.InBounds {capacity : ℕ} (rb : RingBuffer capacity) : RingCall → Prop
  | .write data =>
    Transfers capacity rb.writeCursor (min data.length rb.getAvailableLen) data.length
  | .read n | .peek n => Transfers capacity rb.readCursor (min n rb.getDataLen) n
  | .clear => True

/-- A ring buffer, with the bytes that writes have accepted and reads have returned since it was
last cleared. -/
structure RingLog (capacity : ℕ) where
  rb : RingBuffer capacity
  accepted : List (BitVec 8)
  returned : List (BitVec 8)

namespace RingLog

open RingBuffer

variable {capacity : ℕ} [NeZero capacity] {s : RingLog capacity}

def after (s : RingLog capacity) : RingCall → RingLog capacity
  | .write data =>
    { s with
      rb := (s.rb.write data).1
      accepted := s.accepted ++ data.take (s.rb.write data).2 }
  | .read n => { s with rb := (s.rb.read n).2, returned := s.returned ++ (s.rb.read n).1 }
  | .peek _ => s
  | .clear => ⟨s.rb.clear, [], []⟩

omit [NeZero capacity] in
lemma inBounds (rb : RingBuffer capacity) (c : RingCall) : rb.InBounds c := by
  have hadd := getDataLen_add rb
  cases c <;> simp only [InBounds, Transfers] <;> omega

/-- A call keeps the bytes in order. -/
lemma accepted_after (h : s.accepted = s.returned ++ s.rb.contents) (c : RingCall) :
    (s.after c).accepted = (s.after c).returned ++ (s.after c).rb.contents := by
  cases c with
  | write data =>
    change s.accepted ++ data.take (min data.length s.rb.getAvailableLen) =
      s.returned ++ (s.rb.write data).1.contents
    rw [contents_write, ← append_assoc, ← h, min_comm, ← take_eq_take_min]
  | read n =>
    change s.accepted = s.returned ++ s.rb.peek n ++ (s.rb.read n).2.contents
    rw [peek_eq, contents_read, append_assoc, take_append_drop, h]
  | peek n => exact h
  | clear => rfl

/-- A ring buffer is a queue: it holds the bytes that were accepted and not returned yet, in order,
and has room for one byte less than its capacity. -/
theorem contents_run (room : ℕ) (calls : List RingCall) :
    let s := calls.foldl after (⟨.new (room + 1), [], []⟩ : RingLog (room + 1))
    s.accepted = s.returned ++ s.rb.contents ∧ s.rb.contents.length = s.rb.getDataLen ∧
      s.rb.getDataLen ≤ room ∧ s.rb.getAvailableLen + s.rb.getDataLen = room ∧
      (∀ n, s.rb.peek n = s.rb.contents.take n) ∧ ∀ c, s.rb.InBounds c := by
  intro s
  have horder : s.accepted = s.returned ++ s.rb.contents :=
    foldlRecOn (motive := fun s : RingLog (room + 1) => s.accepted = s.returned ++ s.rb.contents)
      calls after rfl fun _ h c _ => accepted_after h c
  have hadd := getDataLen_add s.rb
  exact ⟨horder, length_contents, by omega, by omega, fun n => peek_eq n, inBounds s.rb⟩

end RingLog

end Zinnia
