import Zinnia.Device.Net.Tcp.Segments

/-!
# The byte stream of a connection

The peer sends a stream of bytes in segments that may be lost, repeated, reordered and cut anew. The
bytes that the user has received and those in the buffer are always the first bytes of the stream,
if no segment is as late or as early as the sequence numbers are apart.
-/

namespace Zinnia.Tcp

open List BitVec Function Nat Bool Comp

/-- A segment that has a slice of the stream, from an offset on, at its sequence numbers. -/
structure Slice (stream : List (BitVec 8)) (irn : BitVec 32) (o : ℕ) (seg : Segment) : Prop where
  le : o + seg.payload.length ≤ stream.length
  payload : seg.payload = (stream.drop o).take seg.payload.length
  seq : seg.seq = irn + BitVec.ofNat 32 o
  fin : seg.has flagFin → o + seg.payload.length = stream.length
  rst : seg.has flagRst = false

/-- The number of sequence numbers that have been accepted, after some bytes were returned. -/
def TcpInner.position (inner : TcpInner) (got : List (BitVec 8)) : ℕ :=
  got.length + inner.recvBuf.contents.length + if inner.peerClosed then 1 else 0

/-- The socket at the begin of the stream. -/
structure TcpInner.AtStart (inner : TcpInner) (irn : BitVec 32) : Prop where
  synchronized : inner.state.Synchronized
  contents : inner.recvBuf.contents = []
  rcvNxt : inner.rcvNxt = irn
  peerClosed : inner.peerClosed = false

/-- The machine after segments of the stream have arrived at a socket and calls of `recvmsg` have
succeeded, with the bytes they have returned. Each segment is one that `guard` lets through, given
the position, the offset of the segment and its length. -/
inductive Receives (guard : ℕ → ℕ → ℕ → Prop) (stream : List (BitVec 8)) (irn : BitVec 32)
    (id : ℕ) : Net → List (BitVec 8) → Prop
  | start {w : Net} {inner : TcpInner} (hsock : w.sockets id = some inner)
      (hstart : inner.AtStart irn) : Receives guard stream irn id w []
  | segment {w : Net} {got : List (BitVec 8)} {inner : TcpInner} {o : ℕ} {seg : Segment}
      (h : Receives guard stream irn id w got) (hsock : w.sockets id = some inner)
      (hslice : Slice stream irn o seg)
      (hguard : guard (inner.position got) o seg.payload.length) :
      Receives guard stream irn id (Comp.final ((processSegment id seg).run w)) got
  | recv {w w' : Net} {got data : List (BitVec 8)} {len : ℕ}
      (h : Receives guard stream irn id w got)
      (hrecv : (recvmsg id len false).run w = .ok data w') :
      Receives guard stream irn id w' (got ++ data)
  | peek {w w' : Net} {got data : List (BitVec 8)} {len : ℕ}
      (h : Receives guard stream irn id w got)
      (hrecv : (recvmsg id len true).run w = .ok data w') : Receives guard stream irn id w' got

/-- A segment less than the whole range of sequence numbers away from the position. -/
def Near (pos o len : ℕ) : Prop := pos < o + 2 ^ 32 ∧ o + len < pos + 2 ^ 32

/-- What is known of the socket after some bytes of the stream were returned. -/
structure TcpInner.InStream (inner : TcpInner) (stream : List (BitVec 8)) (irn : BitVec 32)
    (got : List (BitVec 8)) : Prop where
  state : inner.state.Synchronized ∨ inner.state = .closed
  bytes : got ++ inner.recvBuf.contents <+: stream
  rcvNxt : inner.rcvNxt = irn + BitVec.ofNat 32 (inner.position got)
  fin : inner.peerClosed → got ++ inner.recvBuf.contents = stream

variable {w w' : Net} {id o : ℕ} {inner inner' : TcpInner} {seg : Segment}
  {stream got : List (BitVec 8)} {irn : BitVec 32} {s : TcpState}

lemma eq_of_ofNat_eq {a b : ℕ} (h : BitVec.ofNat 32 a = BitVec.ofNat 32 b) (hab : a < b + 2 ^ 32)
    (hba : b < a + 2 ^ 32) : a = b := by
  have hmod : a % 2 ^ 32 = b % 2 ^ 32 := by
    rw [← toNat_ofNat, h, toNat_ofNat]
  omega

lemma TcpState.Synchronized.afterFinAcked {peerClosed : Bool} (h : s.Synchronized) :
    (s.afterFinAcked peerClosed).Synchronized ∨ s.afterFinAcked peerClosed = .closed := by
  rcases h with rfl | rfl | rfl | rfl | rfl | rfl | rfl <;> cases peerClosed <;> decide

lemma TcpState.Synchronized.afterFin (h : s.Synchronized) : s.afterFin.Synchronized := by
  rcases h with rfl | rfl | rfl | rfl | rfl | rfl | rfl <;> decide

namespace TcpInner

lemma AtStart.inStream (h : inner.AtStart irn) (stream : List (BitVec 8)) :
    inner.InStream stream irn [] where
  state := .inl h.synchronized
  bytes := by
    rw [h.contents]
    exact nil_prefix
  rcvNxt := by
    rw [position, h.contents, h.peerClosed, h.rcvNxt]
    exact (BitVec.add_zero _).symm
  fin hclosed := by
    rw [h.peerClosed] at hclosed
    exact Bool.noConfusion hclosed

/-- Only the state and the fields of the stream matter. -/
lemma InStream.congr (h : inner.InStream stream irn got)
    (hstate : inner'.state.Synchronized ∨ inner'.state = .closed)
    (hbuf : inner'.recvBuf = inner.recvBuf) (hnext : inner'.rcvNxt = inner.rcvNxt)
    (hclosed : inner'.peerClosed = inner.peerClosed) : inner'.InStream stream irn got where
  state := hstate
  bytes := hbuf ▸ h.bytes
  rcvNxt := by
    rw [hnext, h.rcvNxt, position, position, hbuf, hclosed]
  fin hc := hbuf ▸ h.fin (hclosed ▸ hc)

lemma contents_accepted (inner : TcpInner) (seg : Segment) :
    (inner.recvBuf.write (seg.payload.take (inner.accepted seg))).1.contents =
    inner.recvBuf.contents ++ seg.payload.take (inner.accepted seg) := by
  have hle : inner.accepted seg ≤ inner.recvBuf.getAvailableLen := by
    rw [accepted]
    split_ifs
    · exact min_le_right _ _
    · exact zero_le _
  rw [RingBuffer.contents_write, take_take, min_eq_right hle]

section

variable (h : inner.InStream stream irn got)

include h

lemma InStream.handleAck (seg : Segment) (hsync : inner.state.Synchronized) :
    (inner.handleAck seg).1.InStream stream irn got := by
  rw [handleAck_eq]
  refine h.congr ?_ rfl rfl rfl
  dsimp only
  split_ifs
  · exact hsync.afterFinAcked
  · exact .inl hsync

section

variable (hslice : Slice stream irn o seg) (hnear : Near (inner.position got) o seg.payload.length)

include hslice hnear

/-- A segment that begins at the next number begins where the stream is. -/
lemma InStream.offset_eq (hseq : seg.seq = inner.rcvNxt) :
    o = inner.position got ∧ inner.peerClosed = false := by
  rw [hslice.seq, h.rcvNxt] at hseq
  have ho := eq_of_ofNat_eq ((BitVec.add_right_inj _).mp hseq) (by have := hnear.2; omega) hnear.1
  refine ⟨ho, eq_false_iff.mpr fun hclosed => ?_⟩
  -- behind the FIN there is nothing
  have hlen := congrArg length (h.fin hclosed)
  rw [length_append] at hlen
  have hle := hslice.le
  rw [position, if_pos hclosed] at ho
  omega

lemma InStream.handleData (effects : Effects) :
    (inner.handleData seg effects).1.InStream stream irn got ∧
      Near ((inner.handleData seg effects).1.position got) o seg.payload.length := by
  rw [handleData_eq]
  split_ifs with hpos
  swap
  · exact ⟨h, hnear⟩
  have hseq : seg.seq = inner.rcvNxt := by
    by_contra hne
    rw [accepted, if_neg hne] at hpos
    exact lt_irrefl 0 hpos
  have hle : inner.accepted seg ≤ seg.payload.length := by
    rw [accepted, if_pos hseq]
    exact min_le_left _ _
  obtain ⟨ho, hopen⟩ := h.offset_eq hslice hnear hseq
  set inner' : TcpInner := { inner with
    recvBuf := (inner.recvBuf.write (seg.payload.take (inner.accepted seg))).1
    rcvNxt := inner.rcvNxt + BitVec.ofNat 32 (inner.accepted seg) } with hinner'
  have hcontents : inner'.recvBuf.contents =
      inner.recvBuf.contents ++ seg.payload.take (inner.accepted seg) := contents_accepted inner seg
  have hposition : inner'.position got = inner.position got + inner.accepted seg := by
    rw [position, position, hcontents, length_append, length_take]
    change _ + (if inner.peerClosed then 1 else 0) = _
    omega
  refine ⟨⟨h.state, ?_, ?_, fun hclosed => ?_⟩, ?_, ?_⟩
  · obtain ⟨rest, hrest⟩ := h.bytes
    have hdrop : stream.drop o = rest := by
      rw [ho, position, hopen, ← hrest]
      simp
    rw [hcontents, ← List.append_assoc, ← hrest, hslice.payload, hdrop]
    exact (prefix_append_right_inj _).mpr ((List.take_prefix _ _).trans (List.take_prefix _ _))
  · rw [hposition, ofNat_add, ← BitVec.add_assoc, ← h.rcvNxt]
  · exact absurd hclosed (by rw [hopen]; exact false_ne_true)
  · change inner'.position got < _
    have hfar := hnear.2
    omega
  · change _ < inner'.position got + _
    have hfar := hnear.2
    omega

lemma InStream.handleFin (effects : Effects) :
    (inner.handleFin seg effects).1.InStream stream irn got := by
  rw [handleFin_eq]
  by_cases hfin : inner.TakesFin seg
  swap
  · rwa [if_neg hfin]
  rw [if_pos hfin]
  obtain ⟨hseq, hflag⟩ := hfin
  have hend := hslice.fin hflag
  rw [hslice.seq, h.rcvNxt, Segment.payloadLen, BitVec.add_assoc, ← ofNat_add] at hseq
  have hpos := eq_of_ofNat_eq ((BitVec.add_right_inj _).mp hseq) hnear.2 (by have := hnear.1; omega)
  -- the FIN is at the end of the stream, so that all bytes have been accepted
  have hopen : inner.peerClosed = false := eq_false_iff.mpr fun hclosed => by
    have hlen := congrArg length (h.fin hclosed)
    rw [length_append] at hlen
    rw [position, if_pos hclosed] at hpos
    omega
  have hall : got ++ inner.recvBuf.contents = stream := by
    refine h.bytes.eq_of_length ?_
    rw [position, hopen] at hpos
    rw [length_append]
    change _ + _ = _ + _ + 0 at hpos
    omega
  refine ⟨?_, h.bytes, ?_, fun _ => hall⟩
  · exact h.state.imp (fun hsync => hsync.afterFin) fun hclosed => by
      rw [hclosed]
      rfl
  · have hposition : inner.position got + 1 =
        got.length + inner.recvBuf.contents.length + 1 := by
      rw [position, hopen]
      rfl
    change inner.rcvNxt + 1 = irn + BitVec.ofNat 32 (got.length + _ + 1)
    rw [← hposition, ofNat_add, ← BitVec.add_assoc, ← h.rcvNxt]
    rfl

end

end

/-- A segment keeps the stream. -/
lemma InStream.handle (h : inner.InStream stream irn got) (hslice : Slice stream irn o seg)
    (hnear : Near (inner.position got) o seg.payload.length) :
    (inner.handle seg).1.InStream stream irn got ∧
      (inner.handle seg).2.finishAccept = false := by
  rcases h.state with hsync | hclosed
  · refine ⟨?_, finishAccept_handle seg hsync⟩
    have hacked := h.handleAck seg hsync
    have hposition : (inner.handleAck seg).1.position got = inner.position got := by
      rw [handleAck_eq]
      rfl
    obtain ⟨hstored, hnear'⟩ := hacked.handleData hslice (hposition ▸ hnear) (inner.handleAck seg).2
    rw [handle_synchronized _ _ hsync]
    exact hstored.handleFin hslice hnear' _
  · simp only [TcpInner.handle, hclosed]
    exact ⟨h, trivial⟩

/-- The user takes bytes from the buffer. -/
lemma InStream.read (h : inner.InStream stream irn got) (n : ℕ) (window : BitVec 16) :
    { inner with recvBuf := (inner.recvBuf.read n).2, lastAdvWindow := window }.InStream stream irn
      (got ++ inner.recvBuf.contents.take n) := by
  have hbytes : (got ++ inner.recvBuf.contents.take n) ++ (inner.recvBuf.read n).2.contents =
      got ++ inner.recvBuf.contents := by
    rw [RingBuffer.contents_read, List.append_assoc, take_append_drop]
  have hposition : { inner with
      recvBuf := (inner.recvBuf.read n).2, lastAdvWindow := window }.position
        (got ++ inner.recvBuf.contents.take n) = inner.position got := by
    rw [position, position, ← length_append, ← length_append, hbytes]
  refine ⟨h.state, ?_, ?_, fun hclosed => ?_⟩
  · rw [hbytes]
    exact h.bytes
  · rw [hposition]
    exact h.rcvNxt
  · rw [hbytes]
    exact h.fin hclosed

end TcpInner

/-- A call of `recvmsg` that succeeds. -/
lemma recvmsg_ok (h : w.sockets id = some inner) {len : ℕ} {peek : Bool}
    {data : List (BitVec 8)} (hrun : (recvmsg id len peek).run w = .ok data w') :
    (peek ∨ data = []) ∧ w' = w ∨ ∃ n window, peek = false ∧
      data = inner.recvBuf.contents.take n ∧ w'.sockets = update w.sockets id
        (some { inner with recvBuf := (inner.recvBuf.read n).2, lastAdvWindow := window }) := by
  by_cases hstate : inner.state = .listen ∨ inner.state = .synSent
  · rw [recvmsg, run_bind_ok (run_lock h), if_pos hstate] at hrun
    cases hrun
  by_cases hdata : 0 < inner.recvBuf.getDataLen
  · cases peek with
    | true =>
      rw [recvmsg, run_bind_ok (run_lock h), if_neg hstate, if_pos hdata] at hrun
      cases hrun
      exact .inl ⟨.inl rfl, rfl⟩
    | false =>
      obtain ⟨n, window, log, -, hrecv⟩ := exists_recvmsg h hstate hdata len
      rw [hrecv] at hrun
      cases hrun
      exact .inr ⟨n, window, rfl, rfl, rfl⟩
  · rw [recvmsg, run_bind_ok (run_lock h), if_neg hstate] at hrun
    split_ifs at hrun
    · cases hrun
      exact .inl ⟨.inr rfl, rfl⟩
    · cases hrun

/-- The segments and the calls keep the stream. -/
lemma Receives.inStream (h : Receives Near stream irn id w got) :
    ∃ inner, w.sockets id = some inner ∧ inner.InStream stream irn got := by
  induction h with
  | start hsock hstart => exact ⟨_, hsock, hstart.inStream stream⟩
  | @segment w got inner o seg _ hsock hslice hnear ih =>
    obtain ⟨inner', hsock', hin⟩ := ih
    cases hsock.symm.trans hsock'
    obtain ⟨hin', haccept⟩ := hin.handle hslice hnear
    obtain ⟨window, hsockets⟩ := exists_socket_processSegment hsock hslice.rst haccept
    exact ⟨_, (congrFun hsockets id).trans (update_self ..),
      hin'.congr hin'.state rfl rfl rfl⟩
  | @recv w w' got data len _ hrecv ih =>
    obtain ⟨inner, hsock, hin⟩ := ih
    rcases recvmsg_ok hsock hrecv with ⟨hdata, rfl⟩ | ⟨n, window, -, rfl, hsockets⟩
    · rcases hdata with hpeek | rfl
      · cases hpeek
      · rw [append_nil]
        exact ⟨inner, hsock, hin⟩
    · exact ⟨_, (congrFun hsockets id).trans (update_self ..), hin.read n window⟩
  | @peek w w' got data len _ hrecv ih =>
    obtain ⟨inner, hsock, hin⟩ := ih
    rcases recvmsg_ok hsock hrecv with ⟨-, rfl⟩ | ⟨n, window, hpeek, -⟩
    · exact ⟨inner, hsock, hin⟩
    · cases hpeek

/-- What has been received is the begin of the stream, the next number is that of the position, and
the FIN is accepted after all bytes. -/
theorem Receives.prefix_stream (h : Receives Near stream irn id w got) :
    ∃ inner, w.sockets id = some inner ∧ got ++ inner.recvBuf.contents <+: stream ∧
      inner.rcvNxt = irn + BitVec.ofNat 32
        ((got ++ inner.recvBuf.contents).length + if inner.peerClosed then 1 else 0) ∧
      (inner.peerClosed → got ++ inner.recvBuf.contents = stream) := by
  obtain ⟨inner, hsock, hin⟩ := h.inStream
  refine ⟨inner, hsock, hin.bytes, ?_, hin.fin⟩
  rw [length_append]
  exact hin.rcvNxt

/-- The segments of a short stream may come in any order and more than once. -/
lemma Receives.arrive (h : Receives Near stream irn id w got) (hshort : stream.length < 2 ^ 31)
    (hslice : Slice stream irn o seg) :
    Receives Near stream irn id (Comp.final ((processSegment id seg).run w)) got := by
  obtain ⟨inner, hsock, hin⟩ := h.inStream
  have hbytes := hin.bytes.length_le
  rw [length_append] at hbytes
  have hpos : inner.position got ≤ stream.length + 1 := by
    rw [TcpInner.position]
    split_ifs <;> omega
  have hle := hslice.le
  exact h.segment hsock hslice ⟨by omega, by omega⟩

/-- The second of two bytes comes before the first one, and once more behind it. -/
theorem prefix_stream_reordered :
    let second := fromPeer 1002 1 flagAck [105]
    let arrive := fun w seg => Comp.final ((processSegment 0 seg).run w)
    ∃ inner, ([second, fromPeer 1001 1 flagAck [104], second].foldl arrive
        (oneSocket established)).sockets 0 = some inner ∧
      [] ++ inner.recvBuf.contents <+: [104, 105] ∧
      inner.rcvNxt = 1001 + BitVec.ofNat 32
        (([] ++ inner.recvBuf.contents).length + if inner.peerClosed then 1 else 0) ∧
      (inner.peerClosed → [] ++ inner.recvBuf.contents = [104, 105]) := by
  have hstart : Receives Near [104, 105] 1001 0 (oneSocket established) [] :=
    .start rfl ⟨by decide, rfl, rfl, rfl⟩
  have hfirst : Slice [104, 105] 1001 0 (fromPeer 1001 1 flagAck [104]) :=
    ⟨by decide, by decide, by decide, by decide, by decide⟩
  have hsecond : Slice [104, 105] 1001 1 (fromPeer 1002 1 flagAck [105]) :=
    ⟨by decide, by decide, by decide, by decide, by decide⟩
  exact (((hstart.arrive (by decide) hsecond).arrive (by decide) hfirst).arrive (by decide)
    hsecond).prefix_stream

/-! ### A stream that is longer than the sequence numbers -/

/-- A connection that has accepted and returned some number of bytes. -/
structure Net.Drained (w : Net) (id : ℕ) (irn : BitVec 32) (k : ℕ) (inner : TcpInner) : Prop where
  socket : w.sockets id = some inner
  state : inner.state = .established
  contents : inner.recvBuf.contents = []
  rcvNxt : inner.rcvNxt = irn + BitVec.ofNat 32 k
  peerClosed : inner.peerClosed = false

/-- A byte at the next number is accepted. -/
lemma TcpInner.handle_byte {b : BitVec 8} (hstate : inner.state = .established)
    (hcontents : inner.recvBuf.contents = []) (hseq : seg.seq = inner.rcvNxt)
    (hpay : seg.payload = [b]) (hfin : seg.has flagFin = false) :
    (inner.handle seg).1.state = .established ∧ (inner.handle seg).1.recvBuf.contents = [b] ∧
      (inner.handle seg).1.rcvNxt = inner.rcvNxt + 1 ∧
      (inner.handle seg).1.peerClosed = inner.peerClosed := by
  have hroom : inner.accepted seg = 1 := by
    have hlen : inner.recvBuf.getDataLen = 0 := by
      rw [← RingBuffer.length_contents, hcontents]
      rfl
    have hadd : inner.recvBuf.getDataLen + inner.recvBuf.getAvailableLen + 1 = 65536 :=
      RingBuffer.getDataLen_add inner.recvBuf
    rw [accepted, if_pos hseq, hpay, length_singleton]
    exact min_eq_left (by omega)
  have hdata : inner.recvBuf.contents ++ seg.payload.take 1 = [b] := by
    rw [hcontents, hpay]
    rfl
  have hnofin : ∀ inner' : TcpInner, ¬ inner'.TakesFin seg := fun inner' htakes => by
    rw [TakesFin, hfin] at htakes
    exact Bool.noConfusion htakes.2
  have hacked := accepted_handleAck inner seg
  have hwritten := contents_accepted (inner.handleAck seg).1 seg
  rw [hacked, hroom] at hwritten
  rw [handle_synchronized _ _ (.inl hstate), handleFin_eq, if_neg (hnofin _), handleData_eq,
    hacked, hroom, if_pos one_pos]
  have hack := inner.handleAck_eq seg
  refine ⟨?_, hwritten.trans ?_, ?_, ?_⟩
  · change (inner.handleAck seg).1.state = _
    rw [hack, hstate]
    exact ite_self _
  · rw [hack]
    exact hdata
  · change (inner.handleAck seg).1.rcvNxt + _ = _
    rw [hack]
    rfl
  · change (inner.handleAck seg).1.peerClosed = _
    rw [hack]

lemma exists_drained {inner₀ : TcpInner} {w₀ : Net} (hstart : w₀.Drained id irn 0 inner₀) (k : ℕ)
    (hk : k ≤ stream.length) : ∃ w inner, w.Drained id irn k inner ∧
      Receives (fun _ _ _ => True) stream irn id w (stream.take k) := by
  induction k with
  | zero =>
    refine ⟨w₀, inner₀, hstart, .start hstart.socket ⟨?_, hstart.contents, ?_, hstart.peerClosed⟩⟩
    · exact .inl hstart.state
    · rw [hstart.rcvNxt]
      exact BitVec.add_zero _
  | succ k ih =>
    obtain ⟨w, inner, hdrained, hrun⟩ := ih (by omega)
    have hget : (stream.drop k).take 1 = [stream[k]] := by
      rw [drop_eq_getElem_cons (by omega)]
      rfl
    let seg := fromPeer (irn + BitVec.ofNat 32 k) 1 flagAck [stream[k]]
    have hhas : ∀ flag, seg.has flag = decide (flagAck &&& flag ≠ 0) := fun _ => rfl
    have hrst : seg.has flagRst = false := (hhas flagRst).trans (by decide)
    have hfin : seg.has flagFin = false := (hhas flagFin).trans (by decide)
    have hslice : Slice stream irn k seg :=
      ⟨hk, hget.symm, rfl, fun h => Bool.noConfusion (hfin.symm.trans h), hrst⟩
    obtain ⟨hstate, hcontents, hnext, hclosed⟩ := TcpInner.handle_byte hdrained.state
      hdrained.contents (show seg.seq = inner.rcvNxt from hdrained.rcvNxt.symm)
      (show seg.payload = [stream[k]] from rfl) hfin
    obtain ⟨window, hsockets⟩ := exists_socket_processSegment hdrained.socket hrst
      (finishAccept_handle seg (.inl hdrained.state))
    have hsock := (congrFun hsockets id).trans (update_self ..)
    have harrived := Receives.segment hrun hdrained.socket hslice trivial
    have hlen : 0 < (inner.handle seg).1.recvBuf.getDataLen := by
      rw [← RingBuffer.length_contents, hcontents]
      exact one_pos
    obtain ⟨n, window', log, hn, hrecv⟩ := exists_recvmsg hsock
      (by rw [hstate]; decide) hlen 1
    have hone : n = 1 := by
      rw [hn]
      exact min_eq_left hlen
    subst hone
    obtain ⟨w', hsock', hrecv⟩ : ∃ w', w'.sockets id = _ ∧ EStateM.run _ _ = .ok _ w' :=
      ⟨_, sockets_setSocket _ _ _, hrecv⟩
    have htaken := Receives.recv harrived hrecv
    rw [hcontents] at htaken
    have hbytes : stream.take (k + 1) = stream.take k ++ [stream[k]].take 1 := by
      rw [take_add_one, List.getElem?_eq_getElem (by omega)]
      rfl
    rw [hbytes]
    refine ⟨w', _, ⟨hsock', hstate, ?_, ?_, ?_⟩, htaken⟩
    · rw [RingBuffer.contents_read, hcontents]
      rfl
    · change (inner.handle seg).1.rcvNxt = _
      rw [hnext, hdrained.rcvNxt, ofNat_add, ← BitVec.add_assoc]
      rfl
    · exact hclosed.trans hdrained.peerClosed

/-- The first segment of a long stream, repeated after all sequence numbers have been used, is taken
for the next one. -/
theorem not_prefix_stream : ∃ (stream got : List (BitVec 8)) (w : Net) (inner : TcpInner),
    Receives (fun _ _ _ => True) stream 1001 0 w got ∧ w.sockets 0 = some inner ∧
      ¬ got ++ inner.recvBuf.contents <+: stream := by
  let zeros : List (BitVec 8) := replicate (2 ^ 32) 0
  have hlen : zeros.length = 2 ^ 32 := length_replicate
  have hstart : (oneSocket established).Drained 0 1001 0 established :=
    ⟨rfl, rfl, rfl, rfl, rfl⟩
  have hle : 2 ^ 32 ≤ (zeros ++ [1]).length := by
    rw [length_append, hlen]
    exact le_add_right _ _
  obtain ⟨w, inner, hdrained, hrun⟩ := exists_drained hstart (2 ^ 32) hle
  rw [take_left' hlen] at hrun
  have hfirst : ((zeros ++ [1]).drop 0).take 1 = [0] := by
    rfl
  -- the first segment again: its number has come round
  let seg := fromPeer 1001 1 flagAck [0]
  have hslice : Slice (zeros ++ [1]) 1001 0 seg :=
    ⟨Nat.le_trans Nat.one_le_two_pow hle, hfirst.symm, rfl, by decide, by decide⟩
  have hseq : seg.seq = inner.rcvNxt := by
    rw [hdrained.rcvNxt]
    decide
  obtain ⟨-, hcontents, -⟩ := TcpInner.handle_byte hdrained.state hdrained.contents hseq
    (show seg.payload = [0] from rfl) (by decide)
  obtain ⟨window, hsockets⟩ := exists_socket_processSegment hdrained.socket
    (show seg.has flagRst = false by decide) (finishAccept_handle seg (.inl hdrained.state))
  refine ⟨zeros ++ [1], zeros, _, _, .segment hrun hdrained.socket hslice trivial,
    (congrFun hsockets 0).trans (update_self ..), fun hprefix => ?_⟩
  have heq := hprefix.eq_of_length (by rw [hcontents, length_append, length_append]; rfl)
  rw [hcontents] at heq
  exact absurd (append_cancel_left heq) (by decide)

end Zinnia.Tcp
