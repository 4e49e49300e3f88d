import Zinnia.Device.Net.Tcp

/-!
# What one segment does
-/

namespace Zinnia.Tcp

open Comp TcpInner List Function Net

/-- The state after the own FIN is acknowledged. -/
def TcpState.afterFinAcked (peerClosed : Bool) : TcpState → TcpState
  | .finWait1 => if peerClosed then .timeWait else .finWait2
  | .closing => .timeWait
  | .lastAck => .closed
  | other => other

/-- The synchronized states. -/
def TcpState.Synchronized (s : TcpState) : Prop :=
  s = .established ∨ s = .finWait1 ∨ s = .finWait2 ∨ s = .closeWait ∨ s = .closing ∨
    s = .lastAck ∨ s = .timeWait

instance (s : TcpState) : Decidable s.Synchronized := by
  unfold TcpState.Synchronized
  infer_instance

lemma seqBetween_high (low high : BitVec 32) : seqBetween high low high = true := by
  rw [seqBetween, decide_eq_true_eq]
  exact BitVec.le_refl _

namespace TcpInner

variable (inner : TcpInner) (seg : Segment) (effects : Effects)

/-- A segment that acknowledges everything that was sent. -/
def AcksAll : Prop := seg.has flagAck ∧ seg.ack = inner.sndNxt

instance : Decidable (inner.AcksAll seg) := by
  unfold AcksAll
  infer_instance

/-- The number of bytes that a segment adds to the receive buffer. -/
def accepted : ℕ :=
  if seg.seq = inner.rcvNxt then min seg.payload.length inner.recvBuf.getAvailableLen else 0

/-- A FIN at the next number. -/
def TakesFin : Prop := seg.seq + seg.payloadLen = inner.rcvNxt ∧ seg.has flagFin

instance : Decidable (inner.TakesFin seg) := by
  unfold TakesFin
  infer_instance

lemma handleAck_eq : inner.handleAck seg =
    ({ inner with
        peerWindow := if seg.has flagAck then seg.window.toNat else inner.peerWindow
        sndUna := if seg.has flagAck ∧ seqBetween seg.ack inner.sndUna inner.sndNxt then seg.ack
          else inner.sndUna
        state := if inner.AcksAll seg then inner.state.afterFinAcked inner.peerClosed
          else inner.state },
      if inner.AcksAll seg ∧ inner.state = .lastAck then
        { unregister := inner.key, dropCloseRef := true }
      else {}) := by
  have hhigh := seqBetween_high inner.sndUna inner.sndNxt
  rw [handleAck]
  simp only [AcksAll]
  by_cases hack : seg.has flagAck
  · by_cases hall : seg.ack = inner.sndNxt
    · simp only [hack, hall, hhigh, and_self]
      cases hstate : inner.state <;> simp [TcpState.afterFinAcked, key]
    · by_cases hbetween : seqBetween seg.ack inner.sndUna inner.sndNxt
      · simp only [hack, hall, hbetween, and_false]
        cases hstate : inner.state <;> simp
      · simp [hack, hall, hbetween]
  · simp [hack]

lemma handleData_eq : inner.handleData seg effects =
    if 0 < inner.accepted seg then
      ({ inner with
          recvBuf := (inner.recvBuf.write (seg.payload.take (inner.accepted seg))).1
          rcvNxt := inner.rcvNxt + BitVec.ofNat 32 (inner.accepted seg) },
        { effects with ackAfter := true })
    else (inner, effects) := by
  rw [handleData, accepted]
  by_cases hseq : seg.seq = inner.rcvNxt
  · by_cases hpay : seg.payload = []
    · simp [hpay]
    · simp only [hseq, if_true, hpay, ne_eq, not_false_eq_true, and_self]
  · simp [hseq]

lemma handleFin_eq : inner.handleFin seg effects =
    if inner.TakesFin seg then
      ({ inner with
          rcvNxt := inner.rcvNxt + 1
          peerClosed := true
          shutdownRead := true
          state := inner.state.afterFin },
        if inner.state.afterFin = .timeWait then
          { effects with ackAfter := true, unregister := inner.key, dropCloseRef := true }
        else { effects with ackAfter := true })
    else (inner, effects) := by
  rw [handleFin]
  simp only [TakesFin]
  by_cases hfin : seg.seq + seg.payloadLen = inner.rcvNxt ∧ seg.has flagFin
  · simp only [hfin, and_self]
    by_cases hstate : inner.state.afterFin = .timeWait
    · simp [hstate, key]
    · simp [hstate]
  · simp only [hfin, if_false]

lemma accepted_handleAck : (inner.handleAck seg).1.accepted seg = inner.accepted seg := by
  rw [handleAck_eq]
  rfl

lemma takesFin_handleAck : (inner.handleAck seg).1.TakesFin seg ↔ inner.TakesFin seg := by
  rw [handleAck_eq]
  rfl

lemma handle_synchronized (h : inner.state.Synchronized) : inner.handle seg =
    ((inner.handleAck seg).1.handleData seg (inner.handleAck seg).2).1.handleFin seg
      ((inner.handleAck seg).1.handleData seg (inner.handleAck seg).2).2 := by
  rw [handle]
  rcases h with h | h | h | h | h | h | h <;> simp only [h]

/-- A segment for a socket that is not synchronized at most completes the handshake. -/
lemma handle_early (h : ¬ inner.state.Synchronized) :
    inner.handle seg = (inner, {}) ∨
    (seg.has flagSyn ∧ inner.AcksAll seg ∧ inner.state = .synSent ∧ inner.handle seg =
      ({ inner with
          rcvNxt := seg.seq + 1
          sndUna := seg.ack
          peerMss := parseMss seg.options
          peerWindow := seg.window.toNat
          state := .established }, { ackAfter := true })) ∨
    (inner.AcksAll seg ∧ inner.state = .synReceived ∧ inner.handle seg =
      ({ inner with sndUna := seg.ack, peerWindow := seg.window.toNat, state := .established },
        { finishAccept := true })) := by
  rw [handle]
  cases hstate : inner.state with
  | synSent =>
    dsimp only
    split_ifs with hack
    · exact .inr (.inl ⟨hack.1, hack.2, rfl, rfl⟩)
    · exact .inl rfl
  | synReceived =>
    dsimp only
    split_ifs with hack
    · exact .inr (.inr ⟨hack, rfl, rfl⟩)
    · exact .inl rfl
  | established | finWait1 | finWait2 | closeWait | closing | lastAck | timeWait =>
    exact absurd (by rw [hstate]; decide) h
  | closed | bound | listen => exact .inl rfl

/-- The same addresses, and the same lists of sockets. -/
structure SameLinks (a b : TcpInner) : Prop where
  localEnd : b.localEnd = a.localEnd
  peer : b.peer = a.peer
  bound : b.bound = a.bound
  portRegistered : b.portRegistered = a.portRegistered
  pending : b.pending = a.pending
  backlog : b.backlog = a.backlog
  listener : b.listener = a.listener

lemma SameLinks.refl (a : TcpInner) : SameLinks a a := ⟨rfl, rfl, rfl, rfl, rfl, rfl, rfl⟩

lemma SameLinks.trans {a b c : TcpInner} (hab : SameLinks a b) (hbc : SameLinks b c) :
    SameLinks a c where
  localEnd := hbc.localEnd.trans hab.localEnd
  peer := hbc.peer.trans hab.peer
  bound := hbc.bound.trans hab.bound
  portRegistered := hbc.portRegistered.trans hab.portRegistered
  pending := hbc.pending.trans hab.pending
  backlog := hbc.backlog.trans hab.backlog
  listener := hbc.listener.trans hab.listener

lemma SameLinks.key {a b : TcpInner} (h : SameLinks a b) : b.key = a.key := by
  rw [TcpInner.key, TcpInner.key, h.localEnd, h.peer]

/-- A segment keeps the addresses, the error and the own FIN. -/
structure Segmented (a b : TcpInner) : Prop extends SameLinks a b where
  shutdownWrite : b.shutdownWrite = a.shutdownWrite
  error : b.error = a.error

lemma Segmented.refl (a : TcpInner) : Segmented a a := ⟨.refl a, rfl, rfl⟩

lemma Segmented.trans {a b c : TcpInner} (hab : Segmented a b) (hbc : Segmented b c) :
    Segmented a c :=
  ⟨hab.toSameLinks.trans hbc.toSameLinks, hbc.shutdownWrite.trans hab.shutdownWrite,
    hbc.error.trans hab.error⟩

lemma segmented_handleAck : Segmented inner (inner.handleAck seg).1 := by
  rw [handleAck_eq]
  exact ⟨⟨rfl, rfl, rfl, rfl, rfl, rfl, rfl⟩, rfl, rfl⟩

lemma segmented_handleData : Segmented inner (inner.handleData seg effects).1 := by
  rw [handleData_eq]
  split_ifs
  · exact ⟨⟨rfl, rfl, rfl, rfl, rfl, rfl, rfl⟩, rfl, rfl⟩
  · exact .refl _

lemma segmented_handleFin : Segmented inner (inner.handleFin seg effects).1 := by
  rw [handleFin_eq]
  by_cases hfin : inner.TakesFin seg
  · rw [if_pos hfin]
    exact ⟨⟨rfl, rfl, rfl, rfl, rfl, rfl, rfl⟩, rfl, rfl⟩
  · rw [if_neg hfin]
    exact .refl _

lemma segmented_handle : Segmented inner (inner.handle seg).1 := by
  by_cases hsync : inner.state.Synchronized
  · rw [handle_synchronized _ _ hsync]
    exact ((segmented_handleAck inner seg).trans (segmented_handleData _ seg _)).trans
      (segmented_handleFin _ seg _)
  · rcases handle_early inner seg hsync with heq | ⟨-, -, -, heq⟩ | ⟨-, -, heq⟩ <;> rw [heq]
    · exact .refl _
    · exact ⟨⟨rfl, rfl, rfl, rfl, rfl, rfl, rfl⟩, rfl, rfl⟩
    · exact ⟨⟨rfl, rfl, rfl, rfl, rfl, rfl, rfl⟩, rfl, rfl⟩

end TcpInner

/-! ### The calls that send -/

namespace Net

variable (w : Net)

/-- The error of `send_segment_raw`. -/
def rawError (interface : Interface) (packet : Packet) : Option Errno :=
  if maxTcpPayloadLen < packet.payload.length then some .emsgsize else w.link interface packet

/-- The error of `send_segment`. -/
def sendError (packet : Packet) : Option Errno :=
  match w.interfaceForSource packet.localEnd.addr with
  | none => some .enetunreach
  | some interface => w.rawError interface packet

def addSent (packet : Packet) : Net := { w with sent := w.sent ++ [packet] }

/-- The end of `process_segment`. -/
def settle (id : ℕ) (effects : Effects) : Net :=
  let w := match effects.unregister with
    | some key => w.setConnection key none
    | none => w
  if effects.dropCloseRef then { w with closing := w.closing.filter (· ≠ id) } else w

end Net

variable {w w' : Net} {id : ℕ} {inner : TcpInner} {seg : Segment} {α : Type} {s : TcpState}

lemma run_sendSegmentRaw (interface : Interface) (packet : Packet) :
    (sendSegmentRaw interface packet).run w = match w.rawError interface packet with
      | some e => .error e w
      | none => .ok () (w.addSent packet) := by
  rw [sendSegmentRaw, rawError]
  split_ifs with hlen
  · rfl
  · rw [run_get_bind]
    cases w.link interface packet <;> rfl

lemma run_sendSegment (packet : Packet) :
    (sendSegment packet).run w = match w.sendError packet with
      | some e => .error e w
      | none => .ok () (w.addSent packet) := by
  rw [sendSegment, sendError, run_get_bind]
  cases w.interfaceForSource packet.localEnd.addr with
  | none => rfl
  | some interface => exact run_sendSegmentRaw interface packet

lemma run_lock (h : w.sockets id = some inner) : (lock id).run w = .ok inner w := by
  rw [lock, run_get_bind, h]
  rfl

lemma run_lock_none (h : w.sockets id = none) : (lock id).run w = .error .ebadf w := by
  rw [lock, run_get_bind, h]
  rfl

lemma run_attempt_ok {c : TcpM α} {a : α} (h : c.run w = .ok a w') :
    (attempt c).run w = .ok none w' := by
  rw [EStateM.run] at h ⊢
  rw [attempt, h]

lemma run_attempt_error {c : TcpM α} {e : Errno} (h : c.run w = .error e w') :
    (attempt c).run w = .ok (some e) w' := by
  rw [EStateM.run] at h ⊢
  rw [attempt, h]

lemma run_sendAck {peer : Ipv4Endpoint} (h : w.sockets id = some inner)
    (hpeer : inner.peer = some peer) :
    (sendAck id).run w = match w.sendError (inner.packet peer flagAck []) with
      | some e => .error e (w.setSocket id inner.advertiseWindow)
      | none => .ok () ((w.setSocket id inner.advertiseWindow).addSent
          (inner.packet peer flagAck [])) := by
  rw [sendAck, run_bind_ok (run_lock h)]
  simp only [hpeer]
  exact run_sendSegment _

lemma run_sendAck_none (h : w.sockets id = some inner) (hpeer : inner.peer = none) :
    (sendAck id).run w = .error .enotconn w := by
  rw [sendAck, run_bind_ok (run_lock h)]
  simp only [hpeer]
  rfl

lemma setSocket_setSocket (inner' : TcpInner) :
    (w.setSocket id inner).setSocket id inner' = w.setSocket id inner' := by
  rw [setSocket, setSocket, setSocket, update_idem]

lemma sockets_setSocket (w : Net) (id : ℕ) (inner : TcpInner) :
    (w.setSocket id inner).sockets id = some inner := update_self ..

section

variable (h : w.sockets id = some inner)

include h

lemma setSocket_self : w.setSocket id inner = w := by
  rw [setSocket, update_eq_self_iff.mpr h.symm]

/-- An acknowledgement that is sent or not leaves the socket but for the window advertised. -/
lemma exists_socket_sendAck :
    ∃ window e log, (attempt (sendAck id)).run w =
      .ok e { w.setSocket id { inner with lastAdvWindow := window } with sent := log } := by
  cases hpeer : inner.peer with
  | none =>
    refine ⟨inner.lastAdvWindow, some .enotconn, w.sent, ?_⟩
    rw [run_attempt_error (run_sendAck_none h hpeer), ← hpeer]
    exact congrArg _ (setSocket_self h).symm
  | some peer =>
    have hrun := run_sendAck h hpeer
    rw [← hpeer]
    cases hsend : w.sendError (inner.packet peer flagAck []) with
    | some e =>
      rw [hsend] at hrun
      exact ⟨inner.recvWindow, some e, w.sent, run_attempt_error hrun⟩
    | none =>
      rw [hsend] at hrun
      exact ⟨inner.recvWindow, none, _, run_attempt_ok hrun⟩

/-- A call of `recvmsg` while there are bytes: they are taken, and the peer may be told. -/
lemma exists_recvmsg (hstate : ¬ (inner.state = .listen ∨ inner.state = .synSent))
    (hdata : 0 < inner.recvBuf.getDataLen) (len : ℕ) :
    ∃ n window log, n = min len inner.recvBuf.getDataLen ∧
      (recvmsg id len false).run w = .ok (inner.recvBuf.contents.take n)
        { w.setSocket id { inner with
            recvBuf := (inner.recvBuf.read n).2, lastAdvWindow := window } with sent := log } := by
  have htaken : (inner.recvBuf.read (min len inner.recvBuf.getDataLen)).1 =
      inner.recvBuf.contents.take (min len inner.recvBuf.getDataLen) := RingBuffer.peek_eq _
  rw [recvmsg, run_bind_ok (run_lock h), if_neg Bool.false_ne_true, htaken]
  dsimp only
  set inner' : TcpInner := { inner with
    recvBuf := (inner.recvBuf.read (min len inner.recvBuf.getDataLen)).2 }
  rw [store]
  split_ifs
  · obtain ⟨window, e, log, hack⟩ := exists_socket_sendAck (sockets_setSocket w id inner')
    refine ⟨_, window, log, rfl, ?_⟩
    rw [run_modify_bind, run_bind_ok hack, setSocket_setSocket]
    rfl
  · refine ⟨_, inner.lastAdvWindow, w.sent, rfl, ?_⟩
    rw [run_modify_bind]
    rfl

/-- The FIN is numbered, whether it is sent or not, or there is nothing to do. -/
lemma sendFin_cases :
    Comp.final ((sendFin id).run w) = w ∨ inner.shutdownWrite = false ∧ ∃ log,
      Comp.final ((sendFin id).run w) = { w.setSocket id inner.numberFin with sent := log } := by
  rw [sendFin, run_bind_ok (run_lock h)]
  by_cases hshut : inner.shutdownWrite
  · rw [if_pos hshut]
    exact .inl rfl
  rw [if_neg hshut]
  cases hpeer : inner.peer with
  | none => exact .inl rfl
  | some peer =>
    refine .inr ⟨Bool.eq_false_iff.mpr hshut, ?_⟩
    rw [store, run_modify_bind, run_sendSegment]
    cases (w.setSocket id inner.numberFin).sendError
      (inner.packet peer (flagAck ||| flagFin) []) with
    | some e => exact ⟨w.sent, rfl⟩
    | none => exact ⟨_, rfl⟩

end

/-- The socket after the reading side is shut down, if it is. -/
def TcpInner.shutRead (inner : TcpInner) (how : BitVec 32) : TcpInner :=
  if how &&& 1 ≠ 0 then { inner with shutdownRead := true, peerClosed := true } else inner

section

variable (h : w.sockets id = some inner)

include h

lemma shutdown_cases (how : BitVec 32) :
    Comp.final ((shutdown id how).run w) = w.setSocket id (inner.shutRead how) ∨
      inner.shutdownWrite = false ∧ ∃ log, Comp.final ((shutdown id how).run w) =
        { w.setSocket id (inner.shutRead how).numberFin with sent := log } := by
  have hrun : (shutdown id how).run w = (if how &&& 2 ≠ 0 then sendFin id else pure ()).run
      (w.setSocket id (inner.shutRead how)) := by
    rw [shutdown, run_bind_ok (run_lock h), shutRead]
    by_cases hread : how &&& 1 ≠ 0
    · rw [if_pos hread, if_pos hread]
      rfl
    · rw [if_neg hread, if_neg hread, setSocket_self h]
  have hwrite : (inner.shutRead how).shutdownWrite = inner.shutdownWrite := by
    rw [shutRead]
    split_ifs <;> rfl
  rw [hrun]
  by_cases hfin : how &&& 2 ≠ 0
  · have hcases := sendFin_cases (sockets_setSocket w id (inner.shutRead how))
    rw [setSocket_setSocket, hwrite] at hcases
    rw [if_pos hfin]
    exact hcases
  · rw [if_neg hfin]
    exact .inl rfl

lemma run_closeWithError (errno : Errno) :
    (closeWithError id errno).run w = .ok () (match inner.key with
      | some key => (w.setSocket id (inner.closeWithError errno)).setConnection key none
      | none => w.setSocket id (inner.closeWithError errno)) := by
  rw [closeWithError, run_bind_ok (run_lock h)]
  cases hkey : inner.key <;> rfl

lemma sockets_closeWithError (errno : Errno) :
    (Comp.final ((closeWithError id errno).run w)).sockets id =
      some (inner.closeWithError errno) := by
  rw [run_closeWithError h]
  cases inner.key <;> exact sockets_setSocket _ _ _

lemma final_processSegment_rst (hrst : seg.has flagRst) :
    Comp.final ((processSegment id seg).run w) =
      Comp.final ((closeWithError id .econnreset).run w) := by
  rw [processSegment, if_pos hrst, run_bind_ok (run_closeWithError h _), run_closeWithError h]
  rfl

end

lemma run_retainSelf (hdead : w.sockets id = none) : (retainSelf id).run w = .ok () w := by
  rw [retainSelf, run_get_bind, upgrade, hdead]
  rfl

/-- The end of `process_segment` after the acknowledgement. -/
lemma run_settle (effects : Effects) :
    (do
      unregisterConnection effects.unregister
      if effects.dropCloseRef then removeClosingRef id else pure ()
      pure true : TcpM Bool).run w = .ok true (w.settle id effects) := by
  rw [settle]
  cases hkey : effects.unregister <;> cases hdrop : effects.dropCloseRef <;> rfl

lemma settle_frame (w : Net) (effects : Effects) :
    (w.settle id effects).sent = w.sent ∧ (w.settle id effects).sockets = w.sockets := by
  rw [settle]
  cases effects.unregister <;> cases effects.dropCloseRef <;> exact ⟨rfl, rfl⟩

section

variable (h : w.sockets id = some inner) (hrst : seg.has flagRst = false)
  (haccept : (inner.handle seg).2.finishAccept = false)

include h hrst haccept

lemma run_processSegment :
    (processSegment id seg).run w =
      (do
        if (inner.handle seg).2.ackAfter then sendAck id else pure ()
        unregisterConnection (inner.handle seg).2.unregister
        if (inner.handle seg).2.dropCloseRef then removeClosingRef id else pure ()
        pure true : TcpM Bool).run (w.setSocket id (inner.handle seg).1) := by
  rw [processSegment, if_neg (by rw [hrst]; exact Bool.false_ne_true),
    run_bind_ok (run_lock h)]
  simp only [haccept]
  rfl

/-- A segment that is not acknowledged. -/
lemma run_processSegment_quiet (hack : (inner.handle seg).2.ackAfter = false) :
    (processSegment id seg).run w =
      .ok true ((w.setSocket id (inner.handle seg).1).settle id (inner.handle seg).2) := by
  rw [run_processSegment h hrst haccept, hack]
  exact run_settle _

lemma run_processSegment_ack {peer : Ipv4Endpoint} (hack : (inner.handle seg).2.ackAfter = true)
    (hpeer : (inner.handle seg).1.peer = some peer) :
    (processSegment id seg).run w =
      match w.sendError ((inner.handle seg).1.packet peer flagAck []) with
      | some e => .error e (w.setSocket id (inner.handle seg).1.advertiseWindow)
      | none => .ok true (((w.setSocket id (inner.handle seg).1.advertiseWindow).addSent
          ((inner.handle seg).1.packet peer flagAck [])).settle id (inner.handle seg).2) := by
  rw [run_processSegment h hrst haccept, hack, if_pos rfl]
  have hsend := run_sendAck (sockets_setSocket w id _) hpeer
  have herror : (w.setSocket id (inner.handle seg).1).sendError
      ((inner.handle seg).1.packet peer flagAck []) =
      w.sendError ((inner.handle seg).1.packet peer flagAck []) := rfl
  rw [herror, setSocket_setSocket] at hsend
  cases hlink : w.sendError ((inner.handle seg).1.packet peer flagAck []) with
  | some e =>
    rw [hlink] at hsend
    exact run_bind_error hsend
  | none =>
    rw [hlink] at hsend
    rw [run_bind_ok hsend]
    exact run_settle _

/-- How a segment ends that does not complete a handshake: the rest of the work is left out if its
acknowledgement is not sent. -/
lemma final_processSegment :
    ∃ window log w', w' = { w.setSocket id { (inner.handle seg).1 with lastAdvWindow := window } with
        sent := log } ∧
      (Comp.final ((processSegment id seg).run w) = w' ∨
        Comp.final ((processSegment id seg).run w) = w'.settle id (inner.handle seg).2) := by
  cases hack : (inner.handle seg).2.ackAfter with
  | false =>
    rw [run_processSegment_quiet h hrst haccept hack]
    exact ⟨(inner.handle seg).1.lastAdvWindow, w.sent, _, rfl, .inr rfl⟩
  | true =>
    cases hpeer : (inner.handle seg).1.peer with
    | none =>
      have hsend := run_sendAck_none (sockets_setSocket w id _) hpeer
      rw [run_processSegment h hrst haccept, hack, if_pos rfl, run_bind_error hsend]
      exact ⟨(inner.handle seg).1.lastAdvWindow, w.sent, _, rfl, .inl rfl⟩
    | some peer =>
      rw [run_processSegment_ack h hrst haccept hack hpeer]
      cases w.sendError ((inner.handle seg).1.packet peer flagAck []) with
      | some e => exact ⟨(inner.handle seg).1.recvWindow, w.sent, _, rfl, .inl rfl⟩
      | none => exact ⟨(inner.handle seg).1.recvWindow, _, _, rfl, .inr rfl⟩

/-- What a segment leaves of its socket, whether its acknowledgement is sent or not. -/
lemma exists_socket_processSegment :
    ∃ window, (Comp.final ((processSegment id seg).run w)).sockets =
      update w.sockets id (some { (inner.handle seg).1 with lastAdvWindow := window }) := by
  obtain ⟨window, log, w', rfl, hfinal | hfinal⟩ := final_processSegment h hrst haccept
  · exact ⟨window, congrArg sockets hfinal⟩
  · exact ⟨window, (congrArg sockets hfinal).trans (settle_frame _ _).2⟩

end

/-! ### The end of the handshake -/

/-- A listening socket without a child among its pending ones. -/
def TcpInner.dropPending (inner : TcpInner) (child : ℕ) : TcpInner :=
  { inner with pending := inner.pending.filter (· ≠ child) }

/-- Why `finish_accept` does nothing. -/
def Net.NoListener (w : Net) (inner : TcpInner) : Prop :=
  w.noMemory ∨ ∀ l li, inner.listener = some l → w.sockets l = some li → li.state ≠ .listen

lemma upgrade_eq_some {id' : ℕ} :
    w.upgrade id = some id' ↔ ∃ inner, w.sockets id = some inner ∧ id = id' := by
  rw [upgrade]
  cases hsock : w.sockets id with
  | none => exact ⟨nofun, fun ⟨_, h, _⟩ => nomatch h⟩
  | some inner => exact ⟨fun h => ⟨inner, rfl, Option.some.inj h⟩, fun ⟨_, _, h⟩ => h ▸ rfl⟩

lemma finishAccept_cases (h : w.sockets id = some inner) :
    w.NoListener inner ∧ Comp.final ((finishAccept id).run w) = w ∨
    ∃ l li, inner.listener = some l ∧ w.sockets l = some li ∧ li.state = .listen ∧
      (Comp.final ((finishAccept id).run w) =
          Comp.final ((closeWithError id .econnaborted).run (w.setSocket l (li.dropPending id))) ∨
        Comp.final ((finishAccept id).run w) =
          w.setSocket l { li.dropPending id with backlog := li.backlog ++ [id] }) := by
  rw [finishAccept, run_bind_ok (run_lock h), run_get_bind]
  cases hlistener : inner.listener.bind w.upgrade with
  | none =>
    refine .inl ⟨.inr fun l li hl hli => ?_, rfl⟩
    rw [hl, Option.bind_some, upgrade, hli] at hlistener
    cases hlistener
  | some l =>
    obtain ⟨l', hl, hup⟩ := Option.bind_eq_some_iff.mp hlistener
    obtain ⟨li, hli, rfl⟩ := upgrade_eq_some.mp hup
    dsimp only
    by_cases hmem : w.noMemory
    · exact .inl ⟨.inl hmem, by rw [if_pos hmem]; rfl⟩
    rw [if_neg hmem, run_bind_ok (run_lock hli)]
    by_cases hstate : li.state = .listen
    · refine .inr ⟨l', li, hl, hli, hstate, ?_⟩
      rw [if_neg (not_not.mpr hstate)]
      by_cases hfull : li.backlogLimit ≤ li.backlog.length
      · rw [if_pos hfull]
        exact .inl rfl
      · rw [if_neg hfull]
        exact .inr (setSocket_setSocket _)
    · rw [if_pos hstate]
      refine .inl ⟨.inr fun l li' hl' hli' => ?_, rfl⟩
      cases hl.symm.trans hl'
      cases hli.symm.trans hli'
      exact hstate

lemma finishAccept_handle (seg : Segment) (hsync : inner.state.Synchronized) :
    (inner.handle seg).2.finishAccept = false := by
  have hack : (inner.handleAck seg).2.finishAccept = false := by
    rw [handleAck_eq]
    split_ifs <;> rfl
  rw [handle_synchronized _ _ hsync, handleFin_eq, handleData_eq]
  split_ifs <;> exact hack

/-- The handshake is completed in SYN-RECEIVED, and nothing else is left to do then. -/
lemma handle_of_finishAccept (haccept : (inner.handle seg).2.finishAccept = true) :
    inner.state = .synReceived ∧ (inner.handle seg).1.state = .established ∧
      (inner.handle seg).2 = { finishAccept := true } := by
  by_cases hsync : inner.state.Synchronized
  · rw [finishAccept_handle seg hsync] at haccept
    cases haccept
  rcases inner.handle_early seg hsync with heq | ⟨-, -, -, heq⟩ | ⟨-, hstate, heq⟩ <;>
    rw [heq] at haccept
  · cases haccept
  · cases haccept
  · rw [heq]
    exact ⟨hstate, rfl, rfl⟩

lemma final_bind_pure {α β : Type} (c : TcpM α) (b : β) (w : Net) :
    Comp.final ((c >>= fun _ => pure b).run w) = Comp.final (c.run w) := by
  rw [EStateM.run_bind]
  cases c.run w <;> rfl

lemma final_processSegment_accept (h : w.sockets id = some inner) (hrst : seg.has flagRst = false)
    (haccept : (inner.handle seg).2.finishAccept = true) :
    Comp.final ((processSegment id seg).run w) =
      Comp.final ((finishAccept id).run (w.setSocket id (inner.handle seg).1)) := by
  obtain ⟨-, -, heffects⟩ := handle_of_finishAccept haccept
  have hrun : (processSegment id seg).run w =
      (do finishAccept id; pure true : TcpM Bool).run (w.setSocket id (inner.handle seg).1) := by
    rw [processSegment, if_neg (by rw [hrst]; exact Bool.false_ne_true),
      run_bind_ok (run_lock h)]
    simp only [heffects]
    rfl
  rw [hrun, final_bind_pure]

/-! ### Segments outside the window -/

/-- The sequence numbers that a segment occupies; one without any is at its own. -/
def Segment.Occupies (seg : Segment) (x : BitVec 32) : Prop :=
  ∃ k, k < max 1 (seg.payload.length + (if seg.has flagSyn then 1 else 0) +
    if seg.has flagFin then 1 else 0) ∧ x = seg.seq + BitVec.ofNat 32 k

/-- No number of the segment is in the receive window. The numbers of bytes that were accepted
before are among those outside: they are behind the window. -/
def TcpInner.Outside (inner : TcpInner) (seg : Segment) : Prop :=
  ∀ x, seg.Occupies x → inner.recvWindow.toNat ≤ (x - inner.rcvNxt).toNat

lemma TcpInner.outside_iff {inner : TcpInner} {seg : Segment} : inner.Outside seg ↔
    ∀ k < max 1 (seg.payload.length + (if seg.has flagSyn then 1 else 0) +
      if seg.has flagFin then 1 else 0),
      inner.recvWindow.toNat ≤ (seg.seq + BitVec.ofNat 32 k - inner.rcvNxt).toNat := by
  constructor
  · exact fun hout k hk => hout _ ⟨k, hk, rfl⟩
  · rintro hout x ⟨k, hk, rfl⟩
    exact hout k hk

instance (inner : TcpInner) (seg : Segment) : Decidable (inner.Outside seg) :=
  decidable_of_iff' _ TcpInner.outside_iff

/-- The answer to a segment that is not acceptable: nothing changes, and data or a FIN are answered
by an acknowledgement of what has arrived. -/
def Rejects (id : ℕ) (seg : Segment) (w w' : Net) : Prop :=
  ∃ inner inner', w.sockets id = some inner ∧ w'.sockets id = some inner' ∧
    inner'.state = inner.state ∧ inner'.rcvNxt = inner.rcvNxt ∧ inner'.recvBuf = inner.recvBuf ∧
    (seg.payload ≠ [] ∨ seg.has flagFin → ∃ packet, w'.sent = w.sent ++ [packet] ∧
      inner.key = some ⟨packet.localEnd, packet.peer⟩ ∧ packet.flags = flagAck ∧
      packet.ack = inner.rcvNxt)

lemma TcpInner.Outside.accepted_eq_zero (hout : inner.Outside seg) : inner.accepted seg = 0 := by
  rw [accepted]
  split_ifs with hseq
  · -- the next number would be in the window if there were any room
    have hle := hout _ ⟨0, by omega, rfl⟩
    rw [BitVec.add_zero, hseq, BitVec.sub_self] at hle
    by_contra hne
    have hpos : 0 < inner.recvWindow.toNat := by
      rw [recvWindow, BitVec.toNat_ofNat]
      omega
    exact hpos.not_ge hle
  · rfl

/-- A segment of which no byte is accepted. -/
lemma TcpInner.handle_of_accepted_eq_zero (hsync : inner.state.Synchronized)
    (hacc : inner.accepted seg = 0) :
    inner.handle seg = (inner.handleAck seg).1.handleFin seg (inner.handleAck seg).2 := by
  have hdata : (inner.handleAck seg).1.handleData seg (inner.handleAck seg).2 =
      inner.handleAck seg := by
    rw [handleData_eq, accepted_handleAck, hacc, if_neg (lt_irrefl 0)]
  rw [handle_synchronized _ _ hsync, hdata]

/-- A segment outside the window has no effect on what is received unless it has a FIN. -/
lemma TcpInner.Outside.handle (hout : inner.Outside seg) (hsync : inner.state.Synchronized)
    (hfin : ¬ inner.TakesFin seg) : inner.handle seg = inner.handleAck seg := by
  rw [handle_of_accepted_eq_zero hsync hout.accepted_eq_zero, handleFin_eq,
    if_neg (mt (takesFin_handleAck _ _).mp hfin)]

lemma TcpState.Synchronized.ne_closed (h : s.Synchronized) : s ≠ .closed := by
  rintro rfl
  simp [Synchronized] at h

/-- The states in which the own FIN waits to be acknowledged. -/
lemma afterFinAcked_eq_self {peerClosed : Bool} :
    s.afterFinAcked peerClosed = s ↔ ¬ (s = .finWait1 ∨ s = .closing ∨ s = .lastAck) := by
  cases s <;> cases peerClosed <;> decide

lemma handleAck_ackAfter : (inner.handleAck seg).2.ackAfter = false := by
  rw [handleAck_eq]
  split_ifs <;> rfl

lemma not_rejects_of_rst (h : w.sockets id = some inner) (hsync : inner.state.Synchronized)
    (hrst : seg.has flagRst) :
    ¬ Rejects id seg w (Comp.final ((processSegment id seg).run w)) := by
  rintro ⟨inner₀, inner', hsock, hsock', hstate, -⟩
  cases h.symm.trans hsock
  rw [final_processSegment_rst h hrst, sockets_closeWithError h] at hsock'
  cases hsock'
  exact hsync.ne_closed hstate.symm

theorem rejects_iff (h : w.sockets id = some inner) (hsync : inner.state.Synchronized)
    (hout : inner.Outside seg) :
    Rejects id seg w (Comp.final ((processSegment id seg).run w)) ↔
      seg.has flagRst = false ∧ seg.payload = [] ∧ seg.has flagFin = false ∧
        ¬ ((inner.state = .finWait1 ∨ inner.state = .closing ∨ inner.state = .lastAck) ∧
          seg.has flagAck ∧ seg.ack = inner.sndNxt) := by
  by_cases hrst : seg.has flagRst
  · refine iff_of_false (not_rejects_of_rst h hsync hrst) fun hcond => ?_
    rw [hrst] at hcond
    exact Bool.noConfusion hcond.1
  rw [Bool.not_eq_true] at hrst
  obtain ⟨window, hsockets⟩ :=
    exists_socket_processSegment h hrst (finishAccept_handle seg hsync)
  have hsocket := congrFun hsockets id
  rw [update_self] at hsocket
  have hrej : Rejects id seg w (final ((processSegment id seg).run w)) ↔
      (inner.handle seg).1.state = inner.state ∧ (inner.handle seg).1.rcvNxt = inner.rcvNxt ∧
      (inner.handle seg).1.recvBuf = inner.recvBuf ∧
      (seg.payload ≠ [] ∨ seg.has flagFin → ∃ packet,
        (final ((processSegment id seg).run w)).sent = w.sent ++ [packet] ∧
        inner.key = some ⟨packet.localEnd, packet.peer⟩ ∧ packet.flags = flagAck ∧
        packet.ack = inner.rcvNxt) := by
    constructor
    · rintro ⟨inner₀, inner', hsock, hsock', hrest⟩
      cases h.symm.trans hsock
      cases hsocket.symm.trans hsock'
      exact hrest
    · exact fun hrest => ⟨_, _, h, hsocket, hrest⟩
  rw [hrej]
  by_cases hfin : inner.TakesFin seg
  · -- a FIN at the next number moves it on, although the window is closed
    refine iff_of_false (fun hkeeps => ?_) fun hcond => ?_
    · have hnext := hkeeps.2.1
      rw [handle_of_accepted_eq_zero hsync hout.accepted_eq_zero, handleFin_eq,
        if_pos ((takesFin_handleAck _ _).mpr hfin), handleAck_eq] at hnext
      bv_omega
    · rw [hfin.2] at hcond
      exact Bool.noConfusion hcond.2.2.1
  -- nothing of the segment is taken, so that there is no acknowledgement
  have hhandle := hout.handle hsync hfin
  have hquiet := run_processSegment_quiet h hrst (finishAccept_handle seg hsync)
    (hhandle ▸ handleAck_ackAfter)
  have hsent : (final ((processSegment id seg).run w)).sent = w.sent := by
    rw [hquiet]
    exact (settle_frame _ _).1
  have hstate : (if inner.AcksAll seg then inner.state.afterFinAcked inner.peerClosed
      else inner.state) = inner.state ↔
      ¬ ((inner.state = .finWait1 ∨ inner.state = .closing ∨ inner.state = .lastAck) ∧
        inner.AcksAll seg) := by
    split_ifs with hall
    · rw [afterFinAcked_eq_self, and_iff_left hall]
    · exact iff_of_true rfl fun hboth => hall hboth.2
  rw [hhandle, inner.handleAck_eq, hsent]
  constructor
  · rintro ⟨hsame, -, -, hreply⟩
    have hempty : ¬ (seg.payload ≠ [] ∨ seg.has flagFin) := fun hcarries => by
      obtain ⟨packet, heq, -⟩ := hreply hcarries
      simp at heq
    rw [not_or, not_ne_iff, Bool.not_eq_true] at hempty
    exact ⟨hrst, hempty.1, hempty.2, hstate.mp hsame⟩
  · rintro ⟨-, hpay, hnofin, hall⟩
    refine ⟨hstate.mpr hall, rfl, rfl, fun hcarries => ?_⟩
    rw [hpay, hnofin] at hcarries
    simp at hcarries

/-- An established connection to a peer. -/
def established : TcpInner :=
  { TcpInner.new .established with
    localEnd := ⟨0x0A000001, 80⟩
    peer := some ⟨0x0A000002, 40000⟩
    bound := true
    sndUna := 1
    sndNxt := 1
    rcvNxt := 1001
    peerWindow := 1000 }

/-- A machine with one interface and one connection, whose segments are all sent. -/
def oneSocket (inner : TcpInner) : Net where
  sockets := Function.update (fun _ => none) 0 (some inner)
  nextSocket := 1
  handles := [0]
  connections := match inner.key with
    | some key => Function.update (fun _ => none) key (some 0)
    | none => fun _ => none
  ports := fun _ => none
  closing := []
  nextEphemeral := 0
  nextIsn := 0x12340000
  interfaces := [⟨0x0A000001, false⟩]
  link := fun _ _ => none
  noMemory := false
  sent := []

/-- A segment of the peer. -/
def fromPeer (seq ack : BitVec 32) (flags : BitVec 16) (payload : List (BitVec 8)) : Segment :=
  ⟨⟨0x0A000002, 40000⟩, ⟨0x0A000001, 80⟩, seq, ack, flags, 1000, [], payload⟩

/-- A pure acknowledgement behind the window changes nothing. -/
theorem rejects_ack_established :
    Rejects 0 (fromPeer 1000 1 flagAck []) (oneSocket established)
      (Comp.final ((processSegment 0 (fromPeer 1000 1 flagAck [])).run
        (oneSocket established))) :=
  (rejects_iff (show (oneSocket established).sockets 0 = some established from rfl) (by decide)
    (by decide)).mpr (by decide)

/-- A byte that has arrived before is not acknowledged again. -/
theorem not_rejects_duplicate_established :
    established.state.Synchronized ∧ established.Outside (fromPeer 1000 1 flagAck [7]) ∧
      ¬ Rejects 0 (fromPeer 1000 1 flagAck [7]) (oneSocket established)
        (Comp.final ((processSegment 0 (fromPeer 1000 1 flagAck [7])).run
          (oneSocket established))) := by
  refine ⟨by decide, by decide, fun ⟨inner, inner', _, _, _, _, _, hreply⟩ => ?_⟩
  obtain ⟨packet, hsent, -⟩ := hreply (.inl (cons_ne_nil _ _))
  cases hsent

end Zinnia.Tcp
