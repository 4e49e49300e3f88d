import Zinnia.Util
import Zinnia.Util.Ring

/-!
# Pipes

The ends of a pipe read from and write to one ring buffer. A round of a call holds the lock of the
pipe, so that the rounds of any number of calls follow one another.
-/

namespace Zinnia.Pipe

open List

def capacity : ℕ := 0x10000

instance : NeZero capacity := ⟨by decide⟩

/-- `PipeInner`, as far as bytes are concerned. -/
structure PipeInner where
  buffer : RingBuffer capacity
  readers : ℕ
  writers : ℕ

/-- The caller: the error of a copy of a number of bytes from or to its buffer, whether it may not
wait, and whether it has a pending signal. -/
structure Caller where
  fault : ℕ → Option Errno
  nonblocking : Bool
  signal : Bool

/-- The end of a round without bytes. The call waits for another round if there is no result. -/
def Caller.idle {α : Type} (c : Caller) : Option (EResult α) :=
  if c.nonblocking then some (.error .eagain)
  else if c.signal then some (.error .erestart)
  else none

/-- A round of `PipeFile::read`, into a buffer of a length. -/
def PipeInner.read (p : PipeInner) (c : Caller) (len : ℕ) :
    Option (EResult (List (BitVec 8))) × PipeInner :=
  if len = 0 then (some (.ok []), p)
  else
    let r := p.buffer.read len
    let p := { p with buffer := r.2 }
    match c.fault r.1.length with
    | some e => (some (.error e), p)
    | none =>
      if 0 < r.1.length then (some (.ok r.1), p)
      else if p.writers = 0 then (some (.ok []), p)
      else (c.idle, p)

/-- A round of `PipeFile::write`. -/
def PipeInner.write (p : PipeInner) (c : Caller) (data : List (BitVec 8)) :
    Option (EResult ℕ) × PipeInner :=
  if data = [] then (some (.ok 0), p)
  else if p.readers = 0 then (some (.error .epipe), p)
  else
    let toWrite := min data.length p.buffer.getAvailableLen
    match c.fault toWrite with
    | some e => (some (.error e), p)
    | none =>
      let r := p.buffer.write (data.take toWrite)
      let p := { p with buffer := r.1 }
      if 0 < r.2 then (some (.ok r.2), p) else (c.idle, p)

/-! ### Runs -/

/-- The value of a round that has ended with success. -/
def value? {α : Type} (r : Option (EResult α)) : Option α := r.bind Except.toOption

/-- A round of a call, or a change of the ends that are open. -/
inductive Event where
  | read (c : Caller) (len : ℕ)
  | write (c : Caller) (data : List (BitVec 8))
  | ends (readers writers : ℕ)

/-- A pipe, with the bytes that writes have accepted and reads have returned. -/
structure Transfer where
  pipe : PipeInner
  accepted : List (BitVec 8)
  returned : List (BitVec 8)

namespace Transfer

def new : Transfer := ⟨⟨.new _, 0, 0⟩, [], []⟩

def after (s : Transfer) : Event → Transfer
  | .read c len =>
    let r := s.pipe.read c len
    { s with pipe := r.2, returned := s.returned ++ (value? r.1).getD [] }
  | .write c data =>
    let r := s.pipe.write c data
    { s with pipe := r.2, accepted := s.accepted ++ data.take ((value? r.1).getD 0) }
  | .ends readers writers => { s with pipe := { s.pipe with readers, writers } }

/-- The states that are reached by events with `guard`. -/
inductive Reaches (guard : Transfer → Event → Prop) : Transfer → Prop where
  | start : Reaches guard new
  | step {s : Transfer} {e : Event} (h : Reaches guard s) (hguard : guard s e) :
      Reaches guard (s.after e)

/-- The bytes that a read finds can be copied to the buffer of the caller. -/
def Careful (s : Transfer) : Event → Prop
  | .read c len => s.pipe.buffer.peek len ≠ [] → c.fault (s.pipe.buffer.peek len).length = none
  | _ => True

end Transfer

section

variable {p : PipeInner} {c : Caller}

lemma value?_idle {α : Type} : value? (c.idle : Option (EResult α)) = none := by
  rw [Caller.idle]
  split_ifs <;> rfl

/-- A read returns the first bytes and keeps the other ones, unless they cannot be copied. -/
lemma contents_read {len : ℕ}
    (hfault : p.buffer.peek len ≠ [] → c.fault (p.buffer.peek len).length = none) :
    p.buffer.contents = (value? (p.read c len).1).getD [] ++ (p.read c len).2.buffer.contents := by
  have hsplit : p.buffer.contents = p.buffer.peek len ++ (p.buffer.read len).2.contents := by
    rw [RingBuffer.peek_eq, RingBuffer.contents_read, take_append_drop]
  simp only [PipeInner.read]
  by_cases hlen : len = 0
  · rw [if_pos hlen]
    rfl
  rw [if_neg hlen]
  by_cases hnil : p.buffer.peek len = []
  · rw [hnil, nil_append] at hsplit
    simp only [RingBuffer.read, hnil] at hsplit ⊢
    cases c.fault 0 with
    | some e => exact hsplit
    | none =>
      split_ifs with hpos hwriters
      · cases hpos
      · exact hsplit
      · rw [value?_idle]
        exact hsplit
  · have hpos : 0 < (p.buffer.read len).1.length := List.length_pos_iff.mpr hnil
    have hnone : c.fault (p.buffer.read len).1.length = none := hfault hnil
    simp only [hnone, if_pos hpos]
    exact hsplit

/-- A write appends the bytes that it accepts. -/
lemma contents_write (data : List (BitVec 8)) : (p.write c data).2.buffer.contents =
    p.buffer.contents ++ data.take ((value? (p.write c data).1).getD 0) := by
  have hkeep : p.buffer.contents = p.buffer.contents ++ data.take 0 := (append_nil _).symm
  rw [PipeInner.write]
  split_ifs with hnil hreaders
  · exact hkeep
  · exact hkeep
  dsimp only
  generalize hn : min data.length p.buffer.getAvailableLen = n
  cases c.fault n with
  | some e => exact hkeep
  | none =>
    have hlen : (p.buffer.write (data.take n)).2 = n := by
      change min (data.take n).length p.buffer.getAvailableLen = n
      rw [length_take]
      omega
    have hwrite : (p.buffer.write (data.take n)).1.contents = p.buffer.contents ++ data.take n := by
      rw [RingBuffer.contents_write, take_take, min_eq_right (by omega)]
    dsimp only
    rw [hlen]
    split_ifs with hpos
    · exact hwrite
    · rw [value?_idle]
      obtain rfl : n = 0 := Nat.eq_zero_of_not_pos hpos
      exact hwrite

end

namespace Transfer

/-- Where reads can copy the bytes that they find, the bytes that were returned and those in the
buffer are the bytes that were accepted. -/
theorem Reaches.conserved {s : Transfer} (h : Reaches Careful s) :
    s.accepted = s.returned ++ s.pipe.buffer.contents := by
  induction h with
  | start => rfl
  | @step s e _ hguard ih =>
    cases e with
    | read c len =>
      rw [after, append_assoc, ← contents_read hguard, ih]
    | write c data =>
      rw [after, contents_write, ← append_assoc, ← ih]
    | ends readers writers => exact ih

/-- A byte is written and read. -/
theorem conserved_one : ∃ s, Reaches Careful s ∧ s.accepted = [7] ∧ s.returned = [7] ∧
    s.accepted = s.returned ++ s.pipe.buffer.contents := by
  have hrun : Reaches Careful _ := .step (e := .read ⟨fun _ => none, false, false⟩ 1) (.step
    (e := .write ⟨fun _ => none, false, false⟩ [7]) (.step (e := .ends 1 1) .start trivial) trivial)
      fun _ => rfl
  exact ⟨_, hrun, rfl, rfl, hrun.conserved⟩

/-- A byte that cannot be copied to the buffer of the reader is lost. -/
theorem not_conserved_fault : ∃ s, Reaches (fun _ _ => True) s ∧ s.accepted = [7] ∧
    s.returned = [] ∧ s.pipe.buffer.contents = [] :=
  ⟨_, .step (e := .read ⟨fun _ => some .efault, false, false⟩ 1) (.step
    (e := .write ⟨fun _ => none, false, false⟩ [7]) (.step (e := .ends 1 1) .start trivial) trivial)
      trivial, rfl, rfl, rfl⟩

end Transfer

end Zinnia.Pipe
