import Zinnia.Util.Ring

/-!
# Pseudo-terminals

The output of the slave goes through a ring buffer to the master. A write that waits for room can be
interrupted, and starts again with its first byte even if a part of it is in the buffer already.
-/

namespace Zinnia.Pty

open List Function

/-- `MASTER_BUF_SIZE`. -/
def masterBufSize : ℕ := 0x1000

instance : NeZero masterBufSize := ⟨by decide⟩

/-- `LineDiscipline::write_output`, with the flags `OPOST` and `ONLCR`. -/
def writeOutput (opost onlcr : Bool) (data : List (BitVec 8)) : List (BitVec 8) :=
  if !opost then data
  else data.flatMap fun byte => if byte = 10 ∧ onlcr then [13, 10] else [byte]

/-- A write of the slave that has not returned: its bytes, what is to be queued, and `written`. -/
structure Write where
  data : List (BitVec 8)
  output : List (BitVec 8)
  written : ℕ

/-- A pseudo-terminal with the writes of the threads, the output of the writes that have returned,
and what the master has read. -/
structure Pair where
  opost : Bool
  onlcr : Bool
  masterBuf : RingBuffer masterBufSize
  writes : ℕ → Option Write
  returned : List (BitVec 8)
  read : List (BitVec 8)

/-- The write of a thread begins, or is run again. It is over if there is none. -/
def Pair.setWrite (s : Pair) (t : ℕ) (w : Option Write) : Pair :=
  { s with writes := update s.writes t w }

/-- `TtyFileOps::write`, up to the loop of the driver. -/
def Pair.write (s : Pair) (t : ℕ) (data : List (BitVec 8)) : Pair :=
  s.setWrite t (some ⟨data, writeOutput s.opost s.onlcr data, 0⟩)

/-- A round of `PtySlaveTtyDriver::write_output`. A pending signal comes with the choice of
`deliver_pending_signals`: the call is run again, or fails with `EINTR`. -/
def Pair.round (s : Pair) (t : ℕ) (w : Write) (signal : Option Bool) : Pair :=
  if w.written < w.output.length then
    let r := s.masterBuf.write (w.output.drop w.written)
    let s := { s with masterBuf := r.1 }
    if r.2 ≠ 0 then s.setWrite t (some { w with written := w.written + r.2 })
    else
      match signal with
      | none => s
      | some true => s.write t w.data
      | some false => s.setWrite t none
  else { s.setWrite t none with returned := s.returned ++ w.output }

inductive Event where
  | ioctl (opost onlcr : Bool)
  | write (t : ℕ) (data : List (BitVec 8))
  | round (t : ℕ) (signal : Option Bool)
  /-- A round of `PtyMaster::read`, whose copy to the caller may fail. -/
  | read (len : ℕ) (fault : Bool)

def Pair.after (s : Pair) : Event → Pair
  | .ioctl opost onlcr => { s with opost, onlcr }
  | .write t data => s.write t data
  | .round t signal => (s.writes t).elim s (s.round t · signal)
  | .read len fault =>
    let r := s.masterBuf.read (min s.masterBuf.getDataLen len)
    { s with masterBuf := r.2, read := if fault then s.read else s.read ++ r.1 }

/-- The states that events with `guard` lead to. -/
inductive Reaches (guard : Pair → Event → Prop) : Pair → Prop where
  | start (opost onlcr : Bool) : Reaches guard ⟨opost, onlcr, .new _, fun _ => none, [], []⟩
  | step {s : Pair} {e : Event} (h : Reaches guard s) (hguard : guard s e) :
      Reaches guard (s.after e)

/-- Writes follow one another, a write that has queued bytes is not interrupted while it waits, and
the master can copy what it reads. -/
def Pair.Careful (s : Pair) : Event → Prop
  | .ioctl _ _ => True
  | .write _ _ => ∀ t, s.writes t = none
  | .round t signal => ∀ w, s.writes t = some w → w.written < w.output.length →
      s.masterBuf.getAvailableLen = 0 → signal = none ∨ w.written = 0
  | .read _ fault => fault = false

/-- At most one write has not returned, and what was read or is in the buffer is the output of the
other ones, in order, and what this one has queued. -/
def Pair.Exact (s : Pair) : Prop :=
  ∃ t w, s.writes = update (fun _ => none) t w ∧ s.read ++ s.masterBuf.contents =
    s.returned ++ w.elim [] fun w => w.output.take w.written

variable {s : Pair}

lemma Pair.Exact.round {t : ℕ} {w : Write} {signal : Option Bool}
    (hw : s.writes = update (fun _ => none) t (some w))
    (hs : s.read ++ s.masterBuf.contents = s.returned ++ w.output.take w.written)
    (hsignal : w.written < w.output.length → s.masterBuf.getAvailableLen = 0 →
      signal = none ∨ w.written = 0) : (s.round t w signal).Exact := by
  have hset (w') : update s.writes t w' = update (fun _ => none) t w' := by rw [hw, update_idem]
  rw [Pair.round]
  split_ifs with hlt
  · have hcount : (s.masterBuf.write (w.output.drop w.written)).2 =
        min (w.output.drop w.written).length s.masterBuf.getAvailableLen := rfl
    have hbuf : s.read ++ (s.masterBuf.write (w.output.drop w.written)).1.contents =
        s.returned ++ w.output.take
          (w.written + (s.masterBuf.write (w.output.drop w.written)).2) := by
      rw [RingBuffer.contents_write, ← append_assoc, hs, append_assoc, take_add, hcount, min_comm,
        ← take_eq_take_min]
    dsimp only
    split_ifs with hzero
    · exact ⟨t, _, hset _, hbuf⟩
    · rw [not_not.mp hzero] at hbuf
      cases signal with
      | none => exact ⟨t, some w, hw, hbuf⟩
      | some restart =>
        rw [length_drop] at hcount
        rw [(hsignal hlt (by omega)).resolve_left (Option.some_ne_none _)] at hbuf ⊢
        cases restart with
        | true => exact ⟨t, _, hset _, hbuf⟩
        | false => exact ⟨t, none, hset _, hbuf⟩
  · rw [take_of_length_le (not_lt.mp hlt)] at hs
    exact ⟨t, none, hset _, hs.trans (append_nil _).symm⟩

lemma Pair.Exact.after (h : s.Exact) {e : Event} (hcareful : s.Careful e) : (s.after e).Exact := by
  obtain ⟨t, w, hw, hs⟩ := h
  cases e with
  | ioctl opost onlcr => exact ⟨t, w, hw, hs⟩
  | write t' data =>
    have hnone : w = none := by rw [← hcareful t, hw, update_self]
    subst hnone
    exact ⟨t', _, congrArg (update · t' _) (funext hcareful), hs⟩
  | round t' signal =>
    rw [Pair.after]
    cases hw' : s.writes t' with
    | none => exact ⟨t, w, hw, hs⟩
    | some w' =>
      have hmem := hw'
      rw [hw, update_apply] at hmem
      split_ifs at hmem with ht
      subst ht hmem
      exact Exact.round hw hs (hcareful w' hw')
  | read len fault =>
    obtain rfl : fault = false := hcareful
    refine ⟨t, w, hw, Eq.trans ?_ hs⟩
    change (s.read ++ s.masterBuf.peek _) ++ (s.masterBuf.read _).2.contents = _
    rw [append_assoc, RingBuffer.peek_eq, RingBuffer.contents_read, take_append_drop]

/-- In a careful run, the master reads the output of the writes, in order and each byte once. -/
theorem Reaches.exact_of_careful (h : Reaches Pair.Careful s) : s.Exact := by
  induction h with
  | start opost onlcr => exact ⟨0, none, (update_eq_self 0 _).symm, rfl⟩
  | step _ hcareful ih => exact ih.after hcareful

/-- A line feed is written and read. -/
theorem exact_newline : ∃ s, Reaches Pair.Careful s ∧ s.read = [13, 10] ∧ s.returned = [13, 10] ∧
    s.Exact := by
  have hrun : Reaches Pair.Careful _ := .step (e := .read 2 false) (.step (e := .round 0 none)
    (.step (e := .round 0 none) (.step (e := .write 0 [10]) (.start true true) fun _ => rfl)
      fun _ _ _ _ => .inl rfl) fun _ _ _ _ => .inl rfl) rfl
  exact ⟨_, hrun, rfl, rfl, hrun.exact_of_careful⟩

/-- A write of 5000 bytes waits with 4095 bytes in the buffer, and is interrupted and run again: the
master reads these bytes twice. -/
theorem not_exact_restarted : ∃ s, Reaches (fun _ _ => True) s ∧ s.read.length = 8190 ∧
    s.returned = [] ∧ (s.writes 0).any (·.output.length = 5000) ∧ ¬ s.Exact := by
  obtain ⟨s, hrun, hread, hreturned, hwrite⟩ : ∃ s, Reaches (fun _ _ => True) s ∧
      s.read.length = 8190 ∧ s.returned = [] ∧ (s.writes 0).any (·.output.length = 5000) :=
    ⟨_, .step (e := .read 4096 false) (.step (e := .round 0 none) (.step (e := .read 4096 false)
      (.step (e := .round 0 (some true)) (.step (e := .round 0 none) (.step
        (e := .write 0 (replicate 5000 0)) (.start false false) trivial) trivial) trivial) trivial)
          trivial) trivial, by decide +kernel⟩
  refine ⟨s, hrun, hread, hreturned, hwrite, ?_⟩
  rintro ⟨t, w, hw, hs⟩
  obtain ⟨w', hw', hlen⟩ := (Option.any_eq_true _ _).mp hwrite
  rw [hw, update_apply] at hw'
  split_ifs at hw'
  have hlength := congrArg length hs
  simp only [hw', hreturned, hread, length_append, Option.elim_some, length_take,
    of_decide_eq_true hlen, length_nil] at hlength
  omega

end Zinnia.Pty
