import Zinnia.Device.Net.Tcp.Segments

/-!
# The end of a connection

A connection is closed by a FIN in both directions, each of which is acknowledged.
-/

namespace Zinnia.Tcp

open TcpState Bool Function Net Comp TcpInner

namespace TcpState

/-- The own FIN has been sent. -/
def FinSent (s : TcpState) : Prop :=
  s = .finWait1 ∨ s = .finWait2 ∨ s = .closing ∨ s = .lastAck ∨ s = .timeWait

/-- The FIN of the peer has been received. -/
def PeerFin (s : TcpState) : Prop :=
  s = .closeWait ∨ s = .closing ∨ s = .lastAck ∨ s = .timeWait

/-- The own FIN has been acknowledged. -/
def FinAcked (s : TcpState) : Prop := s = .finWait2 ∨ s = .timeWait

/-- The state after a segment that acknowledges everything or has a FIN. -/
def next (s : TcpState) (peerClosed acks takes : Bool) : TcpState :=
  let acked := if acks then s.afterFinAcked peerClosed else s
  if takes then acked.afterFin else acked

instance (s : TcpState) : Decidable s.FinSent := by
  unfold FinSent
  infer_instance

instance (s : TcpState) : Decidable s.PeerFin := by
  unfold PeerFin
  infer_instance

instance (s : TcpState) : Decidable s.FinAcked := by
  unfold FinAcked
  infer_instance

variable {s : TcpState} {peerClosed acks takes : Bool}

lemma finSent_of_next (hsync : s.Synchronized) (h : (s.next peerClosed acks takes).FinSent) :
    s.FinSent := by
  revert hsync h
  cases s <;> decide +revert

/-- No acknowledgement of the FIN ends the connection before the FIN of the peer. -/
def Orderly (s : TcpState) (peerClosed acks : Bool) : Prop :=
  ¬ (acks ∧ (s = .closing ∨ s = .finWait1 ∧ peerClosed))

instance (s : TcpState) (peerClosed acks : Bool) : Decidable (s.Orderly peerClosed acks) := by
  unfold Orderly
  infer_instance

section

variable (hsync : s.Synchronized) (hord : s.Orderly peerClosed acks)

include hsync hord

lemma peerFin_of_next (h : (s.next peerClosed acks takes).PeerFin) : s.PeerFin ∨ takes := by
  cases s <;> decide +revert

lemma finAcked_of_next (h : (s.next peerClosed acks takes).FinAcked) :
    s.FinAcked ∨ s.FinSent ∧ acks := by
  cases s <;> decide +revert

/-- How a connection ends. -/
lemma next_ends
    (hend : s.next peerClosed acks takes = .timeWait ∨ s.next peerClosed acks takes = .closed)
    (hne : s.next peerClosed acks takes ≠ s) :
    (s.PeerFin ∨ takes) ∧ (s.FinAcked ∨ s.FinSent ∧ acks) ∧
      (takes ∧ s.next peerClosed acks takes = .timeWait ∨ acks ∧ s = .lastAck) := by
  cases s <;> decide +revert

end

/-- The own FIN does not end a connection. -/
lemma afterSendFin_facts (s : TcpState) : (s.afterSendFin.PeerFin → s.PeerFin) ∧
    (s.afterSendFin.FinAcked → s.FinAcked) ∧
    (s.afterSendFin = .timeWait ∨ s.afterSendFin = .closed → s.afterSendFin = s) := by
  cases s <;> decide

end TcpState

namespace TcpInner

variable {inner : TcpInner} {seg : Segment}

/-- The socket before the FIN of a segment is looked at. -/
def received (inner : TcpInner) (seg : Segment) : TcpInner :=
  ((inner.handleAck seg).1.handleData seg (inner.handleAck seg).2).1

lemma state_received : (inner.received seg).state =
    if inner.AcksAll seg then inner.state.afterFinAcked inner.peerClosed else inner.state := by
  rw [received, handleData_eq, handleAck_eq]
  split_ifs <;> rfl

lemma unregister_received :
    ((inner.handleAck seg).1.handleData seg (inner.handleAck seg).2).2.unregister =
      if inner.AcksAll seg ∧ inner.state = .lastAck then inner.key else none := by
  rw [handleData_eq, handleAck_eq]
  split_ifs <;> rfl

lemma state_handle (seg : Segment) (hsync : inner.state.Synchronized) : (inner.handle seg).1.state =
    inner.state.next inner.peerClosed (inner.AcksAll seg) ((inner.received seg).TakesFin seg) := by
  rw [handle_synchronized _ _ hsync]
  change ((inner.received seg).handleFin seg _).1.state = _
  rw [handleFin_eq, next]
  simp only [decide_eq_true_eq]
  rw [← state_received]
  by_cases hfin : (inner.received seg).TakesFin seg
  · rw [if_pos hfin, if_pos hfin]
  · rw [if_neg hfin, if_neg hfin]

lemma key_received : (inner.received seg).key = inner.key :=
  ((segmented_handleAck inner seg).trans (segmented_handleData _ seg _)).key

/-- The ends at which the socket is taken out of the table. -/
lemma unregister_handle (hsync : inner.state.Synchronized)
    (h : (inner.received seg).TakesFin seg ∧ (inner.handle seg).1.state = .timeWait ∨
      inner.AcksAll seg ∧ inner.state = .lastAck) :
    (inner.handle seg).2.unregister = inner.key := by
  have hhandle : inner.handle seg = (inner.received seg).handleFin seg _ :=
    handle_synchronized _ _ hsync
  rw [hhandle, handleFin_eq] at h
  rw [hhandle, handleFin_eq]
  by_cases hfin : (inner.received seg).TakesFin seg
  · by_cases hwait : (inner.received seg).state.afterFin = .timeWait
    · rw [if_pos hfin, if_pos hwait]
      exact key_received
    · rw [if_pos hfin] at h ⊢
      have hacked := h.resolve_left fun hboth => hwait hboth.2
      rw [if_neg hwait]
      exact unregister_received.trans (if_pos hacked)
  · rw [if_neg hfin] at h ⊢
    exact unregister_received.trans (if_pos (h.resolve_left fun hboth => hfin hboth.1))

end TcpInner

/-! ### Runs -/

/-- What a connection has seen of the two FINs. -/
structure Seen where
  peerFin : Bool
  finAcked : Bool

/-- What happens to a connection. -/
inductive Call where
  | segment (seg : Segment)
  | shutdown (how : BitVec 32)

/-- The machine after a segment or a call for a socket. -/
def Net.after (w : Net) (id : ℕ) : Call → Net
  | .segment seg => Comp.final ((processSegment id seg).run w)
  | .shutdown how => Comp.final ((shutdown id how).run w)

def Seen.after (seen : Seen) (inner : TcpInner) : Call → Seen
  | .segment seg =>
    if inner.state.Synchronized ∧ seg.has flagRst = false then
      { peerFin := seen.peerFin || (inner.received seg).TakesFin seg
        finAcked := seen.finAcked || (inner.shutdownWrite && inner.AcksAll seg) }
    else seen
  | .shutdown _ => seen

/-- A connection after some segments and calls, from the handshake on. -/
inductive Closes (guard : Net → TcpInner → Call → Prop) (id : ℕ) : Net → Seen → Prop
  | start {w : Net} {inner : TcpInner} (hsock : w.sockets id = some inner)
      (hstate : inner.state = .synSent ∨ inner.state = .synReceived ∨ inner.state = .established)
      (hpeer : inner.peer ≠ none) : Closes guard id w ⟨false, false⟩
  | call {w : Net} {seen : Seen} {inner : TcpInner} {c : Call} (h : Closes guard id w seen)
      (hsock : w.sockets id = some inner) (hguard : guard w inner c) :
      Closes guard id (w.after id c) (seen.after inner c)

/-- The connection has come to its end. -/
def Ends (inner inner' : TcpInner) : Prop :=
  (inner'.state = .timeWait ∨ inner'.state = .closed) ∧ inner'.state ≠ inner.state

instance (inner inner' : TcpInner) : Decidable (Ends inner inner') := by
  unfold Ends
  infer_instance

/-- A connection that ends without an error has seen both FINs, and any that ends is no longer in
the table. -/
def EndsWell (id : ℕ) (w w' : Net) (seen' : Seen) : Prop :=
  ∀ inner inner', w.sockets id = some inner → w'.sockets id = some inner' → Ends inner inner' →
    (inner.state.Synchronized → inner'.error = none → seen'.peerFin ∧ seen'.finAcked) ∧
      ∀ key, inner'.key = some key → w'.connections key = none

/-- Segments without data can be sent from the address of the socket. -/
def LinkUp (w : Net) (inner : TcpInner) : Prop :=
  ∀ packet : Packet, packet.localEnd = inner.localEnd → packet.payload = [] →
    w.sendError packet = none

/-- No segment acknowledges the own FIN in CLOSING, or in FIN-WAIT-1 after the reading side was shut
down, and acknowledgements can be sent. -/
def Orderly (w : Net) (inner : TcpInner) : Call → Prop
  | .segment seg => seg.has flagRst = false →
      inner.state.Orderly inner.peerClosed (inner.AcksAll seg) ∧ LinkUp w inner
  | .shutdown _ => True

/-- What the state of a connection tells of the FINs. -/
structure TcpInner.InClose (inner : TcpInner) (seen : Seen) : Prop where
  peer : inner.peer ≠ none
  finSent : inner.state.FinSent → inner.shutdownWrite
  peerFin : inner.state.PeerFin → seen.peerFin
  finAcked : inner.state.FinAcked → seen.finAcked

variable {w : Net} {id : ℕ} {inner inner' : TcpInner} {seg : Segment} {seen : Seen}

namespace TcpInner

/-- Only some of the fields matter. -/
lemma InClose.congr (h : inner.InClose seen) (hpeer : inner'.peer = inner.peer)
    (hstate : inner'.state = inner.state) (hshut : inner.shutdownWrite → inner'.shutdownWrite) :
    inner'.InClose seen :=
  ⟨hpeer ▸ h.peer, fun hs => hshut (h.finSent (hstate ▸ hs)), fun hs => h.peerFin (hstate ▸ hs),
    fun hs => h.finAcked (hstate ▸ hs)⟩

/-- States that tell nothing. -/
lemma InClose.of_early (hpeer : inner.peer ≠ none)
    (h : ¬ inner.state.FinSent ∧ ¬ inner.state.PeerFin ∧ ¬ inner.state.FinAcked) :
    inner.InClose seen :=
  ⟨hpeer, fun hs => absurd hs h.1, fun hs => absurd hs h.2.1, fun hs => absurd hs h.2.2⟩

lemma InClose.handle (h : inner.InClose seen) (hsync : inner.state.Synchronized)
    (hrst : seg.has flagRst = false)
    (hord : inner.state.Orderly inner.peerClosed (inner.AcksAll seg)) :
    (inner.handle seg).1.InClose (seen.after inner (.segment seg)) := by
  have hframe := segmented_handle inner seg
  have hstate := state_handle seg hsync
  rw [Seen.after, if_pos ⟨hsync, hrst⟩]
  refine ⟨hframe.peer ▸ h.peer, fun hs => ?_, fun hs => ?_, fun hs => ?_⟩
  · rw [hframe.shutdownWrite]
    exact h.finSent (finSent_of_next hsync (hstate ▸ hs))
  · rw [or_eq_true]
    exact (peerFin_of_next hsync hord (hstate ▸ hs)).imp h.peerFin id
  · rw [or_eq_true, and_eq_true]
    exact (finAcked_of_next hsync hord (hstate ▸ hs)).imp h.finAcked
      fun hboth => ⟨h.finSent hboth.1, hboth.2⟩

end TcpInner

/-- The states before the connection is synchronized. -/
lemma TcpState.not_synchronized {s : TcpState} (h : ¬ s.Synchronized) :
    ¬ s.FinSent ∧ ¬ s.PeerFin ∧ ¬ s.FinAcked := by
  cases s <;> simp_all [Synchronized, FinSent, PeerFin, FinAcked]

lemma connections_settle {effects : Effects} {key : TcpKey} (h : effects.unregister = some key) :
    (w.settle id effects).connections key = none := by
  rw [settle, h]
  cases effects.dropCloseRef <;> exact update_self ..

section

variable (h : w.sockets id = some inner) {w' : Net} {seen' : Seen}

include h

/-- What a step keeps and how it ends a connection, from the socket after it. -/
lemma endsWell_of_state (h' : w'.sockets id = some inner')
    (hends : Ends inner inner' → (inner.state.Synchronized → inner'.error = none →
      seen'.peerFin ∧ seen'.finAcked) ∧ ∀ key, inner'.key = some key → w'.connections key = none) :
    EndsWell id w w' seen' := by
  intro inner₁ inner₁' h₁ h₁'
  cases h.symm.trans h₁
  cases h'.symm.trans h₁'
  exact hends

/-- A segment that resets or aborts the connection. -/
lemma closes_of_closeWithError {w₁ : Net} {errno : Errno} (h₁ : w₁.sockets id = some inner')
    (hpeer : inner'.peer ≠ none) :
    (∃ inner', (final ((closeWithError id errno).run w₁)).sockets id = some inner' ∧
      inner'.InClose seen') ∧
      EndsWell id w (final ((closeWithError id errno).run w₁)) seen' := by
  have hsock := sockets_closeWithError h₁ errno
  have hearly := not_synchronized (show ¬ TcpState.closed.Synchronized by decide)
  refine ⟨⟨_, hsock, .of_early hpeer hearly⟩, endsWell_of_state h hsock fun _ =>
    ⟨nofun, fun key hkey => ?_⟩⟩
  rw [run_closeWithError h₁, show inner'.key = some key from hkey]
  exact update_self ..

/-- A segment that at most completes the handshake. -/
lemma closes_of_early (hsync : ¬ inner.state.Synchronized) (hpeer : inner.peer ≠ none)
    (h' : w'.sockets id = some inner') (hpeer' : inner'.peer = inner.peer)
    (hstate : inner'.state = inner.state ∨ inner'.state = .established) :
    (∃ inner', w'.sockets id = some inner' ∧ inner'.InClose seen) ∧ EndsWell id w w' seen := by
  refine ⟨⟨inner', h', .of_early (hpeer' ▸ hpeer) ?_⟩,
    endsWell_of_state h h' fun ⟨hend, hne⟩ => ?_⟩
  · rcases hstate with hstate | hstate <;> rw [hstate]
    · exact not_synchronized hsync
    · decide
  · have hest := hstate.resolve_left hne
    rw [hest] at hend
    exact absurd hend (by decide)

/-- A segment keeps what is known, and ends the connection well. -/
lemma processSegment_closes (hin : inner.InClose seen) (hord : Orderly w inner (.segment seg)) :
    (∃ inner', (w.after id (.segment seg)).sockets id = some inner' ∧
      inner'.InClose (seen.after inner (.segment seg))) ∧
    EndsWell id w (w.after id (.segment seg)) (seen.after inner (.segment seg)) := by
  cases hrst : seg.has flagRst with
  | true =>
    rw [after, final_processSegment_rst h hrst]
    exact closes_of_closeWithError h h hin.peer
  | false =>
    obtain ⟨hord, hlink⟩ := hord hrst
    have hframe := segmented_handle inner seg
    by_cases hsync : inner.state.Synchronized
    · obtain ⟨window, hsockets⟩ :=
        exists_socket_processSegment h hrst (finishAccept_handle seg hsync)
      have hsock := (congrFun hsockets id).trans (update_self ..)
      refine ⟨⟨_, hsock, (hin.handle hsync hrst hord).congr rfl rfl fun hs => hs⟩,
        endsWell_of_state h hsock fun ⟨hend, hne⟩ => ?_⟩
      have hstate := state_handle seg hsync
      obtain ⟨hpeerFin, hacked, hunreg⟩ :=
        next_ends hsync hord (hstate ▸ hend) (hstate ▸ hne)
      constructor
      · rw [Seen.after, if_pos ⟨hsync, hrst⟩, or_eq_true, or_eq_true, and_eq_true]
        exact fun _ _ => ⟨hpeerFin.imp hin.peerFin fun htakes => htakes,
          hacked.imp hin.finAcked fun hboth => ⟨hin.finSent hboth.1, hboth.2⟩⟩
      · rw [decide_eq_true_eq, decide_eq_true_eq, ← hstate] at hunreg
        intro key hkey
        have hkey' := (unregister_handle hsync hunreg).trans (hframe.key.symm.trans hkey)
        have haccept := finishAccept_handle seg hsync
        change (final ((processSegment id seg).run w)).connections key = none
        cases hack : (inner.handle seg).2.ackAfter with
        | false =>
          rw [run_processSegment_quiet h hrst haccept hack]
          exact connections_settle hkey'
        | true =>
          obtain ⟨peer, hpeer⟩ := Option.ne_none_iff_exists'.mp hin.peer
          rw [run_processSegment_ack h hrst haccept hack (hframe.peer.trans hpeer),
            hlink _ hframe.localEnd rfl]
          exact connections_settle hkey'
    · cases haccept : (inner.handle seg).2.finishAccept with
      | false =>
        obtain ⟨window, hsockets⟩ := exists_socket_processSegment h hrst haccept
        refine closes_of_early h hsync hin.peer
          ((congrFun hsockets id).trans (update_self ..)) hframe.peer ?_
        -- at most the handshake is completed
        rcases inner.handle_early seg hsync with heq | ⟨-, -, -, heq⟩ | ⟨-, -, heq⟩ <;> rw [heq]
        · exact .inl rfl
        · exact .inr rfl
        · exact .inr rfl
      | true =>
        have hest := (handle_of_finishAccept haccept).2.1
        have hsock : (w.setSocket id (inner.handle seg).1).sockets id =
            some (inner.handle seg).1 := sockets_setSocket _ _ _
        rw [after, final_processSegment_accept h hrst haccept]
        rcases finishAccept_cases hsock with ⟨-, hsame⟩ | ⟨l, li, -, hli, hlisten, hcases⟩
        · rw [hsame]
          exact closes_of_early h hsync hin.peer hsock hframe.peer (.inr hest)
        -- the listening socket is another one
        have hne : id ≠ l := by
          rintro rfl
          cases hsock.symm.trans hli
          rw [hest] at hlisten
          cases hlisten
        rcases hcases with hclosed | hadded
        · rw [hclosed]
          refine closes_of_closeWithError h ((update_of_ne hne ..).trans hsock) ?_
          exact hframe.peer ▸ hin.peer
        · rw [hadded]
          exact closes_of_early h hsync hin.peer ((update_of_ne hne ..).trans hsock)
            hframe.peer (.inr hest)

/-- A call of `shutdown` ends nothing. -/
lemma shutdown_closes {how : BitVec 32} (hin : inner.InClose seen) :
    (∃ inner', (w.after id (.shutdown how)).sockets id = some inner' ∧ inner'.InClose seen) ∧
    EndsWell id w (w.after id (.shutdown how)) seen := by
  have hread : (inner.shutRead how).state = inner.state ∧
      (inner.shutRead how).peer = inner.peer := by
    rw [shutRead]
    split_ifs <;> exact ⟨rfl, rfl⟩
  rw [after]
  rcases shutdown_cases h how with hsame | ⟨hshut, log, hfin⟩
  · rw [hsame]
    refine ⟨⟨_, sockets_setSocket _ _ _, hin.congr hread.2 hread.1 fun hs => ?_⟩,
      endsWell_of_state h (sockets_setSocket _ _ _) fun hends => absurd hread.1 hends.2⟩
    rw [shutRead]
    split_ifs <;> exact hs
  · rw [hfin]
    have hstate : (inner.shutRead how).numberFin.state = inner.state.afterSendFin :=
      congrArg afterSendFin hread.1
    obtain ⟨hpeerFin, hacked, hend⟩ := afterSendFin_facts inner.state
    refine ⟨⟨_, sockets_setSocket _ _ _, ⟨?_, fun _ => rfl, fun hs => ?_, fun hs => ?_⟩⟩,
      endsWell_of_state h (sockets_setSocket _ _ _) fun hends => ?_⟩
    · exact hread.2 ▸ hin.peer
    · exact hin.peerFin (hpeerFin (hstate ▸ hs))
    · exact hin.finAcked (hacked (hstate ▸ hs))
    · exact absurd (hstate.trans (hend (hstate ▸ hends.1))) hends.2

end

lemma Closes.inClose (h : Closes Orderly id w seen) :
    ∃ inner, w.sockets id = some inner ∧ inner.InClose seen := by
  induction h with
  | @start w inner hsock hstate hpeer =>
    refine ⟨inner, hsock, .of_early hpeer ?_⟩
    rcases hstate with hstate | hstate | hstate <;> rw [hstate] <;> decide
  | @call w seen inner c _ hsock hguard ih =>
    obtain ⟨inner₀, hsock₀, hin⟩ := ih
    cases hsock.symm.trans hsock₀
    cases c with
    | segment seg => exact (processSegment_closes hsock hin hguard).1
    | shutdown how => exact (shutdown_closes hsock hin).1

/-- In a run of such steps the connection ends after both FINs and leaves the table. -/
theorem Closes.endsWell {c : Call} (h : Closes Orderly id w seen)
    (hsock : w.sockets id = some inner)
    (hord : Orderly w inner c) : EndsWell id w (w.after id c) (seen.after inner c) := by
  obtain ⟨inner₀, hsock₀, hin⟩ := h.inClose
  cases hsock.symm.trans hsock₀
  cases c with
  | segment seg => exact (processSegment_closes hsock hin hord).2
  | shutdown how => exact (shutdown_closes hsock hin).2

/-- The own FIN of a connection, and a segment that acknowledges it and has the FIN of the peer. -/
theorem endsWell_established :
    EndsWell 0 ((oneSocket established).after 0 (.shutdown 2))
      (((oneSocket established).after 0 (.shutdown 2)).after 0
        (.segment (fromPeer 1001 2 (flagAck ||| flagFin) [])))
      ((Seen.after ⟨false, false⟩ established (.shutdown 2)).after established.numberFin
        (.segment (fromPeer 1001 2 (flagAck ||| flagFin) []))) := by
  have hsock : (oneSocket established).sockets 0 = some established := rfl
  have hsock' : ((oneSocket established).after 0 (.shutdown 2)).sockets 0 =
      some established.numberFin := rfl
  have hstart : Closes Orderly 0 (oneSocket established) ⟨false, false⟩ :=
    .start hsock (by decide) (by decide)
  refine Closes.endsWell (.call hstart hsock trivial) hsock'
    fun _ => ⟨by decide, fun packet haddr hpay => ?_⟩
  have hinterface : (oneSocket established).interfaceForSource packet.localEnd.addr =
      some ⟨0x0A000001, false⟩ := by
    rw [haddr]
    decide
  change sendError (oneSocket established) packet = none
  rw [sendError, hinterface]
  dsimp only
  rw [rawError, hpay]
  rfl

/-- After both sides of the connection are shut down the acknowledgement of the FIN ends it,
although the peer has not sent its FIN. -/
theorem not_endsWell_established : ∃ (w : Net) (seen : Seen) (inner : TcpInner) (c : Call),
    Closes (fun _ _ _ => True) 0 w seen ∧ w.sockets 0 = some inner ∧
      ¬ EndsWell 0 w (w.after 0 c) (seen.after inner c) := by
  have hsock : (oneSocket established).sockets 0 = some established := rfl
  have hstart : Closes (fun _ _ _ => True) 0 (oneSocket established) ⟨false, false⟩ :=
    .start hsock (by decide) (by decide)
  refine ⟨_, _, (established.shutRead 3).numberFin, .segment (fromPeer 1001 2 flagAck []),
    .call (c := .shutdown 3) hstart hsock trivial, rfl, fun hends => ?_⟩
  have hboth := (hends (established.shutRead 3).numberFin
    ((established.shutRead 3).numberFin.handle (fromPeer 1001 2 flagAck [])).1 rfl rfl
    (by decide)).1 (by decide) rfl
  exact absurd hboth (by decide)

end Zinnia.Tcp
