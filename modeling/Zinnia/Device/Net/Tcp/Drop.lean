import Zinnia.Device.Net.Tcp.Closing

/-!
# Connections whose last handle is dropped

The destructor of a connection sends the FIN. It asks for a reference to the socket to retain it
until the peer has closed its side too, but the last reference is gone when a destructor runs.
-/

namespace Zinnia.Tcp

variable {w : Net} {id : ℕ} {inner : TcpInner} {seg : Segment} {peer : Ipv4Endpoint}

/-- The machine after a segment from the wire. -/
def Net.arrive (w : Net) (interface : Interface) (seg : Segment) : Net :=
  Comp.final ((processPacket interface seg).run w)

/-- The segments sent since. -/
def Net.sentSince (w w' : Net) : List Packet := w'.sent.drop w.sent.length

/-- The rest of the close handshake: while segments arrive the connection is there, in one of the
states after its FIN; no segment is answered by a reset, and the FIN of the peer is acknowledged. -/
def Handshakes (interface : Interface) (id : ℕ) : Net → List Segment → Prop
  | _, [] => True
  | w, seg :: segs =>
    (∃ inner, w.sockets id = some inner ∧ (inner.state.FinSent ∨ inner.state = .closed)) ∧
    (∀ packet ∈ w.sentSince (w.arrive interface seg), packet.flags &&& flagRst = 0) ∧
    (seg.has flagFin → ∃ packet ∈ w.sentSince (w.arrive interface seg),
      packet.flags = flagAck ∧ packet.ack = seg.seq + seg.payloadLen + 1) ∧
    Handshakes interface id (w.arrive interface seg) segs

/-- The FIN that is sent when a connection is dropped. -/
def TcpInner.lastFin (inner : TcpInner) (peer : Ipv4Endpoint) : Packet :=
  { inner with recvBuf := inner.recvBuf.clear }.packet peer (flagAck ||| flagFin) []

/-- A connection whose only reference is a handle of the user. -/
structure Net.LastHandle (w : Net) (id : ℕ) (inner : TcpInner) (peer : Ipv4Endpoint) : Prop where
  socket : w.sockets id = some inner
  state : inner.state = .established ∨ inner.state = .closeWait
  peer : inner.peer = some peer
  pending : inner.pending = []
  backlog : inner.backlog = []
  last : { w with handles := w.handles.filter (· ≠ id) }.referenced id = false

/-- The FIN of a connection that is dropped. -/
lemma run_dropFin (hdead : w.sockets id = none) (hpeer : inner.peer = some peer) :
    (dropFin id inner).run w = .ok ()
      (if w.sendError (inner.lastFin peer) = none then w.addSent (inner.lastFin peer) else w) := by
  rw [dropFin, Comp.run_bind_ok (run_retainSelf hdead)]
  rw [hpeer]
  have hsend := run_sendSegment (w := w) (inner.lastFin peer)
  cases hlink : w.sendError (inner.lastFin peer) with
  | none =>
    rw [hlink] at hsend
    exact (Comp.run_bind_ok (run_attempt_ok hsend)).trans rfl
  | some e =>
    rw [hlink] at hsend
    exact (Comp.run_bind_ok (run_attempt_error hsend)).trans rfl

lemma run_dropPort (w : Net) (inner : TcpInner) :
    ∃ ports, (dropPort inner).run w = .ok () { w with ports := ports } := by
  rw [dropPort]
  split_ifs
  · exact ⟨_, rfl⟩
  · exact ⟨w.ports, rfl⟩

lemma exists_dropConnection (hdead : w.sockets id = none)
    (hstate : inner.state = .established ∨ inner.state = .closeWait)
    (hpeer : inner.peer = some peer) :
    ∃ w', (dropConnection id inner).run w = .ok () w' ∧ w'.sockets = w.sockets ∧
      w'.sent = w.sent ++
        if inner.shutdownWrite = false ∧ w.sendError (inner.lastFin peer) = none then
          [inner.lastFin peer] else [] := by
  rw [dropConnection]
  cases hshut : inner.shutdownWrite with
  | true =>
    rw [if_neg fun hboth => hboth.2 rfl, if_neg fun hboth => Bool.noConfusion hboth.1,
      List.append_nil]
    cases inner.key with
    | none => exact ⟨_, rfl, rfl, rfl⟩
    | some key => exact ⟨_, rfl, rfl, rfl⟩
  | false =>
    rw [if_pos ⟨hstate, Bool.false_ne_true⟩, run_dropFin hdead hpeer]
    by_cases hlink : w.sendError (inner.lastFin peer) = none
    · rw [if_pos hlink, if_pos ⟨rfl, hlink⟩]
      exact ⟨_, rfl, rfl, rfl⟩
    · rw [if_neg hlink, if_neg fun hboth => hlink hboth.2, List.append_nil]
      exact ⟨_, rfl, rfl, rfl⟩

/-- The machine after the last handle of a connection is dropped. -/
lemma close_lastHandle (h : w.LastHandle id inner peer) :
    (Comp.final ((close id).run w)).sockets id = none ∧
      (Comp.final ((close id).run w)).sent =
        w.sent ++ if inner.shutdownWrite = false ∧ w.sendError (inner.lastFin peer) = none then
          [inner.lastFin peer] else [] := by
  set w₀ : Net := { w with handles := w.handles.filter (· ≠ id) }
  set w₁ : Net := { w₀ with sockets := Function.update w.sockets id none }
  have hdead : w₁.sockets id = none := Function.update_self ..
  have hrun : (close id).run w = (dropSocket id inner).run w₁ := by
    change (release id).run w₀ = _
    rw [release, releaseDepth, Comp.run_get_bind, h.last,
    show w₀.sockets id = some inner from h.socket]
    dsimp only
    rw [h.pending, h.backlog]
    rfl
  obtain ⟨w₂, hconn, hsockets, hsent⟩ := exists_dropConnection hdead h.state h.peer
  obtain ⟨ports, hport⟩ := run_dropPort w₂ inner
  rw [hrun, dropSocket, Comp.run_bind_ok hconn, hport]
  exact ⟨(congrFun hsockets id).trans hdead, hsent⟩

/-- The connection completes the handshake after its last handle is dropped only if nothing
arrives. -/
theorem handshakes_iff {peer : Ipv4Endpoint} (h : w.LastHandle id inner peer)
    (interface : Interface) (segs : List Segment) :
    (∃ packet ∈ w.sentSince (Comp.final ((close id).run w)), packet.localEnd = inner.localEnd ∧
        packet.peer = peer ∧ packet.flags = flagAck ||| flagFin ∧ packet.seq = inner.sndNxt) ∧
      Handshakes interface id (Comp.final ((close id).run w)) segs ↔
    segs = [] ∧ inner.shutdownWrite = false ∧ w.sendError (inner.lastFin peer) = none := by
  obtain ⟨hdead, hsent⟩ := close_lastHandle h
  have hsince : w.sentSince (Comp.final ((close id).run w)) =
      if inner.shutdownWrite = false ∧ w.sendError (inner.lastFin peer) = none then
        [inner.lastFin peer] else [] := by
    rw [Net.sentSince, hsent, List.drop_left]
  rw [hsince]
  constructor
  · rintro ⟨⟨packet, hmem, -⟩, hshakes⟩
    refine ⟨?_, ?_⟩
    · cases segs with
      | nil => rfl
      | cons seg segs =>
        obtain ⟨⟨inner', hsock, -⟩, -⟩ := hshakes
        cases hdead.symm.trans hsock
    · by_contra hno
      rw [if_neg hno] at hmem
      cases hmem
  · rintro ⟨rfl, hcond⟩
    rw [if_pos hcond]
    exact ⟨⟨_, List.mem_singleton_self _, rfl, rfl, rfl, rfl⟩, trivial⟩

lemma lastHandle_established :
    (oneSocket established).LastHandle 0 established ⟨0x0A000002, 40000⟩ where
  socket := rfl
  state := Or.inl rfl
  peer := rfl
  pending := rfl
  backlog := rfl
  last := by decide

/-- The FIN is sent when the last handle is dropped. -/
theorem handshakes_established :
    (∃ packet ∈ (oneSocket established).sentSince
        (Comp.final ((close 0).run (oneSocket established))),
        packet.localEnd = established.localEnd ∧ packet.peer = ⟨0x0A000002, 40000⟩ ∧
        packet.flags = flagAck ||| flagFin ∧ packet.seq = established.sndNxt) ∧
      Handshakes ⟨0x0A000001, false⟩ 0 (Comp.final ((close 0).run (oneSocket established))) [] :=
  (handshakes_iff lastHandle_established ⟨0x0A000001, false⟩ []).mpr ⟨rfl, rfl, by decide⟩

/-- The FIN of the peer, which acknowledges the one that was sent, is answered by a reset. -/
theorem not_handshakes_established :
    (oneSocket established).LastHandle 0 established ⟨0x0A000002, 40000⟩ ∧
      ((Comp.final ((close 0).run (oneSocket established))).arrive ⟨0x0A000001, false⟩
        (fromPeer 1001 2 (flagAck ||| flagFin) [])).sent.map (·.flags) =
          [flagAck ||| flagFin, flagRst] ∧
      ¬ Handshakes ⟨0x0A000001, false⟩ 0 (Comp.final ((close 0).run (oneSocket established)))
        [fromPeer 1001 2 (flagAck ||| flagFin) []] := by
  refine ⟨lastHandle_established, by decide, fun ⟨_, hreset, _⟩ => ?_⟩
  exact absurd hreset (by decide)

end Zinnia.Tcp
