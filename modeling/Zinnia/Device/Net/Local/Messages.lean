import Zinnia.Device.Net.Local.Files

/-!
# Boundaries of messages

Sockets for messages use the same buffer as those for streams, and nothing depends on the type of
the socket. The boundaries are kept while each section is one message.
-/

namespace Zinnia.Local

open List

variable {File : Type}

/-- A receive that found a message: the length of its buffer, and the bytes it returned. -/
structure Receipt where
  len : ℕ
  peek : Bool
  data : List (BitVec 8)

/-- What a receive is to do with a queue of messages: it returns the first message as far as the
buffer goes, and takes it from the queue as a whole unless it only looks. -/
def serve : List (List (BitVec 8)) → Receipt → Option (List (List (BitVec 8)))
  | [], _ => none
  | m :: ms, r => if r.data = m.take r.len then some (if r.peek then m :: ms else ms) else none

/-- Two connected sockets, the messages that one of them has sent and the receives of the other. -/
structure Packets (File : Type) where
  self : LocalInner File
  peer : LocalInner File
  sent : List (List (BitVec 8))
  log : List Receipt

namespace Packets

/-- The state after an event. A receive at the end of a connection finds no message. -/
def after (s : Packets File) : Event File → Packets File
  | .send data control rights cred =>
    match sendmsg s.self s.peer data control rights cred with
    | (.ok _, peer) => { s with peer := peer, sent := s.sent ++ [data] }
    | (.error _, peer) => { s with peer := peer }
  | .recv len control peek free =>
    match recvmsg s.peer len control peek free with
    | (.ok r, peer) =>
      { s with
        peer := peer
        log := if 0 < s.peer.recvBuf.getDataLen then s.log ++ [⟨len, peek, r.data⟩] else s.log }
    | (.error _, peer) => { s with peer := peer }
  | .passcred on => { s with peer := { s.peer with passcred := on } }
  | .shutdown write read peerClosed =>
    { s with
      self := { s.self with shutdownWrite := write }
      peer := { s.peer with shutdownRead := read, peerClosed := peerClosed } }

/-- `LocalSocket::new_pair`. -/
def newPair (sockType : BitVec 32) : Packets File :=
  ⟨.new .connected sockType, .new .connected sockType, [], []⟩

/-- The states that are reached by events with `guard`. -/
inductive Reaches (guard : Packets File → Event File → Prop) (sockType : BitVec 32) :
    Packets File → Prop where
  | start : Reaches guard sockType (newPair sockType)
  | step {s : Packets File} {e : Event File} (h : Reaches guard sockType s) (hguard : guard s e) :
      Reaches guard sockType (s.after e)

/-- The receives have returned the messages in order. -/
def InOrder (s : Packets File) : Prop := (s.log.foldlM serve s.sent).isSome

/-- A message has bytes, there is room for them, and it gets a section of its own: no bytes are in
the buffer, or it has files or credentials, or the last section has. A receive has room for the
first message, and it has a control buffer if the message has files. -/
def Separate (s : Packets File) : Event File → Prop
  | .send data _ rights _ => data ≠ [] ∧ data.length ≤ s.peer.recvBuf.getAvailableLen ∧
    (s.peer.recvBuf.getDataLen = 0 ∨ rights.getD [] ≠ [] ∨ s.peer.passcred ∨
      ∀ back, s.peer.inflight.getLast? = some back → ¬ back.Plain)
  | .recv len control peek _ => peek = false → ∀ front, s.peer.inflight.head? = some front →
    front.bytes ≤ len ∧ (front.files ≠ [] → control ≠ 0)
  | _ => True

/-- Each section is one message; after the last message an empty section is left. -/
def Framed (inflight : List (InflightSection File)) (queue : List (List (BitVec 8))) : Prop :=
  List.Forall₂ (fun sec m => sec.bytes = m.length ∧ m ≠ []) inflight queue ∨
    queue = [] ∧ inflight = [⟨[], none, 0⟩]

/-- The messages in the queue are those in the buffer. -/
structure Inv (s : Packets File) : Prop where
  queued : ∃ queue, s.log.foldlM serve s.sent = some queue ∧
    s.peer.recvBuf.contents = queue.flatten ∧ Framed s.peer.inflight queue

variable {s : Packets File} {queue queue' : List (List (BitVec 8))} {r : Receipt}
  {inflight : List (InflightSection File)} {log : List Receipt} {data : List (BitVec 8)}

/-- Another message at the end changes nothing for the receives before. -/
lemma serve_append (m : List (BitVec 8)) (h : serve queue r = some queue') :
    serve (queue ++ [m]) r = some (queue' ++ [m]) := by
  cases queue with
  | nil => cases h
  | cons m' ms =>
    rw [serve] at h
    rw [cons_append, serve]
    split_ifs at h ⊢
    · cases h
      rfl
    · cases h
      rfl

lemma foldlM_serve_append (m : List (BitVec 8)) (h : log.foldlM serve queue = some queue') :
    log.foldlM serve (queue ++ [m]) = some (queue' ++ [m]) := by
  induction log generalizing queue with
  | nil =>
    cases h
    rfl
  | cons r log ih =>
    rw [foldlM_cons] at h ⊢
    obtain ⟨queue₁, hserve, hrest⟩ := Option.bind_eq_some_iff.mp h
    exact Option.bind_eq_some_iff.mpr ⟨_, serve_append m hserve, ih hrest⟩

lemma foldlM_serve_concat {queue'' : List (List (BitVec 8))}
    (h : log.foldlM serve queue = some queue') (hserve : serve queue' r = some queue'') :
    (log ++ [r]).foldlM serve queue = some queue'' := by
  rw [foldlM_append, h]
  change [r].foldlM serve queue' = some queue''
  rw [foldlM_cons, hserve]
  rfl

/-- There are bytes exactly if there is a message. -/
lemma Framed.queue_eq_nil (h : Framed inflight queue) (hnil : queue.flatten = []) : queue = [] := by
  rcases h with h | ⟨h, -⟩
  · cases h with
    | nil => rfl
    | cons hfirst _ =>
      exact absurd (append_eq_nil_iff.mp hnil).1 hfirst.2
  · exact h

lemma bytes_pos (h : List.Forall₂ (fun sec m => sec.bytes = m.length ∧ m ≠ []) inflight queue)
    {sec : InflightSection File} (hsec : sec ∈ inflight) : 0 < sec.bytes := by
  induction h with
  | nil => cases hsec
  | cons hfirst _ ih =>
    rcases mem_cons.mp hsec with rfl | hsec
    · rw [hfirst.1]
      exact length_pos_iff.mpr hfirst.2
    · exact ih hsec

lemma Framed.send (h : Framed inflight queue) {files : List File} {cred : Option Ucred}
    (hdata : data ≠ [])
    (hown : queue = [] ∨ files ≠ [] ∨ cred ≠ none ∨
      ∀ back, inflight.getLast? = some back → ¬ back.Plain) :
    Framed (pushInflight inflight files cred data.length) (queue ++ [data]) := by
  left
  have hn : 0 < data.length := length_pos_iff.mpr hdata
  rcases pushInflight_cases inflight files cred hn with
    ⟨hmerge, heq⟩ | ⟨init, back, hinit, ⟨hplain, hmerge⟩, heq⟩ <;> rw [heq]
  · rcases h with h | ⟨-, rfl⟩
    · exact rel_append h (.cons ⟨rfl, hdata⟩ .nil)
    · exact absurd ⟨⟨rfl, rfl⟩, .inr rfl⟩ (hmerge [] _ rfl)
  · subst hinit
    -- the message is added to the section that was left after the last one
    have hempty : queue = [] ∧ init = [] ∧ back.bytes = 0 := by
      rcases h with h | ⟨hqueue, hzero⟩
      · exfalso
        have hpos := bytes_pos h (mem_append_right _ (mem_singleton_self back))
        rcases hmerge with ⟨hfiles, hcred⟩ | hzero
        · rcases hown with rfl | hown | hown | hown
          · exact absurd (forall₂_nil_right_iff.mp h) (append_ne_nil_of_right_ne_nil _
              (cons_ne_nil _ _))
          · exact hown hfiles
          · exact hown hcred
          · exact hown back (getLast?_concat ..) hplain
        · exact hpos.ne' hzero
      · cases append_eq_singleton_iff.mp hzero with
        | inl hnil =>
          cases singleton_inj.mp hnil.2
          exact ⟨hqueue, hnil.1, rfl⟩
        | inr hsingle => cases hsingle.2
    obtain ⟨rfl, rfl, hzero⟩ := hempty
    rw [hzero, zero_add]
    exact .cons ⟨rfl, hdata⟩ .nil

lemma Inv.send (h : s.Inv) {control : ℕ} {rights : Option (List File)} {cred : Ucred}
    (hsep : s.Separate (.send data control rights cred)) :
    (s.after (.send data control rights cred)).Inv := by
  obtain ⟨queue, hlog, hcontents, hframed⟩ := h.queued
  obtain ⟨hdata, hroom, hown⟩ := hsep
  rcases sendmsg_cases s.self s.peer data control rights cred with
    ⟨r, heq, hr⟩ | ⟨hnil, -⟩ | ⟨n, -, hlen, heq⟩
  · cases r with
    | error e =>
      rw [after, heq]
      exact h
    | ok n => exact absurd (hr n rfl).2 hdata
  · exact absurd hnil hdata
  · rw [min_eq_left hroom] at hlen
    subst hlen
    rw [after, heq]
    refine ⟨queue ++ [data], foldlM_serve_append data hlog, ?_, hframed.send hdata ?_⟩
    · dsimp only
      rw [RingBuffer.contents_write, hcontents, take_length, take_of_length_le hroom,
        flatten_append, flatten_singleton]
    · rcases hown with hown | hown | hown | hown
      · left
        refine hframed.queue_eq_nil (length_eq_zero_iff.mp ?_)
        rw [← hcontents, RingBuffer.length_contents, hown]
      · exact .inr (.inl hown)
      · rw [if_pos hown]
        exact .inr (.inr (.inl (Option.some_ne_none _)))
      · exact .inr (.inr (.inr hown))

section Recv

variable {len control free : ℕ} {peek : Bool} {ms : List (List (BitVec 8))} {m : List (BitVec 8)}

lemma Inv.recv_message (h : s.Inv) (hsep : s.Separate (.recv len control peek free))
    {front : InflightSection File} {rest : List (InflightSection File)}
    (hlog : s.log.foldlM serve s.sent = some (m :: ms))
    (hcontents : s.peer.recvBuf.contents = (m :: ms).flatten)
    (hinflight : s.peer.inflight = front :: rest) (hfront : front.bytes = m.length) (hm : m ≠ [])
    (hrest : List.Forall₂ (fun sec m => sec.bytes = m.length ∧ m ≠ []) rest ms) :
    (s.after (.recv len control peek free)).Inv := by
  have hpos : 0 < m.length := length_pos_iff.mpr hm
  have hlen : s.peer.recvBuf.getDataLen = m.length + ms.flatten.length := by
    rw [← RingBuffer.length_contents, hcontents, flatten_cons, length_append]
  have hdata : 0 < s.peer.recvBuf.getDataLen := by omega
  have hhead : s.peer.inflight.head? = some front := by rw [hinflight]; rfl
  rcases recvmsg_cases hinflight (hfront ▸ hpos) len (by omega) with ⟨r, hrecv, hr⟩ | ⟨n, hn, hrecv⟩
  · rw [after, hrecv]
    cases r with
    | error e => exact h
    | ok x =>
      obtain ⟨rfl, rfl, rfl⟩ := hr x rfl
      dsimp only
      rw [if_pos hdata]
      -- without a buffer it can only be a look
      have hpeek : peek = true := by
        cases peek with
        | true => rfl
        | false =>
          have hle := (hsep rfl front hhead).1
          omega
      refine ⟨m :: ms, foldlM_serve_concat hlog ?_, hcontents, .inl ?_⟩
      · rw [serve, hpeek]
        rfl
      · dsimp only
        rw [hinflight]
        exact .cons ⟨hfront, hm⟩ hrest
  · rw [hfront] at hn
    rw [after, hrecv, hn]
    dsimp only
    rw [if_pos hdata, installCmsg_data, hcontents, flatten_cons,
      take_append_of_le_length (min_le_right _ _), ← take_take, take_length]
    cases peek with
    | true =>
      have hserve : serve (m :: ms) ⟨len, true, m.take len⟩ = some (m :: ms) := if_pos rfl
      refine ⟨m :: ms, foldlM_serve_concat hlog hserve, ?_, .inl ?_⟩
      · rw [if_neg fun hboth => Bool.false_ne_true hboth.2]
        exact hcontents
      · rw [if_neg fun hboth => Bool.false_ne_true hboth.2]
        rw [hinflight, takeAncillary]
        split_ifs <;> exact .cons ⟨hfront, hm⟩ hrest
    | false =>
      obtain ⟨hle, hcontrol⟩ := hsep rfl front hhead
      have hmin : min len m.length = m.length := min_eq_right (hfront ▸ hle)
      have hserve : serve (m :: ms) ⟨len, false, m.take len⟩ = some ms := if_pos rfl
      have hleft : (if control = 0 then front.files else []) = [] := by
        split_ifs with hzero
        · exact not_not.mp fun hne => hcontrol hne hzero
        · rfl
      refine ⟨ms, foldlM_serve_concat hlog hserve, ?_, ?_⟩
      · rw [hmin, if_pos ⟨hpos, rfl⟩]
        rw [RingBuffer.contents_read, hcontents, flatten_cons, drop_left]
      · rw [hmin, if_pos ⟨hpos, rfl⟩]
        rw [hinflight, consume_takeAncillary, hleft, hfront, Nat.sub_self]
        split_ifs with hmore
        · exact .inl hrest
        · have hnil : rest = [] := not_not.mp fun hne => hmore ⟨rfl, hne⟩
          subst hnil
          exact .inr ⟨forall₂_nil_left_iff.mp hrest, rfl⟩

lemma Inv.recv (h : s.Inv) (hsep : s.Separate (.recv len control peek free)) :
    (s.after (.recv len control peek free)).Inv := by
  obtain ⟨queue, hlog, hcontents, hframed⟩ := h.queued
  by_cases hdata : 0 < s.peer.recvBuf.getDataLen
  · have hne : queue ≠ [] := by
      rintro rfl
      rw [← RingBuffer.length_contents, hcontents] at hdata
      cases hdata
    rcases hframed with hframed | ⟨hnil, -⟩
    · cases hinflight : s.peer.inflight with
      | nil => exact absurd (forall₂_nil_left_iff.mp (hinflight ▸ hframed)) hne
      | cons front rest =>
        rw [hinflight] at hframed
        cases hframed with
        | cons hfirst hrest =>
          exact h.recv_message hsep hlog hcontents hinflight hfirst.1 hfirst.2 hrest
    · exact absurd hnil hne
  · have hempty := Nat.eq_zero_of_not_pos hdata
    have hqueue : queue = [] := by
      refine hframed.queue_eq_nil (length_eq_zero_iff.mp ?_)
      rw [← hcontents, RingBuffer.length_contents, hempty]
    have hinflight : s.peer.inflight = [] ∨ s.peer.inflight = [⟨[], none, 0⟩] := by
      rcases hframed with hframed | ⟨-, hzero⟩
      · exact .inl (forall₂_nil_right_iff.mp (hqueue ▸ hframed))
      · exact .inr hzero
    obtain ⟨r, hrecv, -⟩ := recvmsg_empty hempty hinflight
    rw [after, hrecv]
    cases r with
    | error e => exact h
    | ok x =>
      dsimp only
      rw [if_neg hdata]
      exact h

end Recv

theorem Reaches.in_order {sockType : BitVec 32} (h : Reaches Separate sockType s) : s.InOrder := by
  have hinv : s.Inv := by
    induction h with
    | start => exact ⟨[], rfl, RingBuffer.contents_new, .inl .nil⟩
    | @step s e _ hguard ih =>
      cases e with
      | send data control rights cred => exact ih.send hguard
      | recv len control peek free => exact ih.recv hguard
      | passcred on => exact ⟨ih.queued⟩
      | shutdown write read peerClosed => exact ⟨ih.queued⟩
  obtain ⟨queue, hlog, -⟩ := hinv.queued
  rw [InOrder, hlog]
  rfl

/-- Two messages with credentials, and the receive of the first one. -/
def twoMessages : Packets ℕ :=
  ((((newPair sockSeqpacket).after (.passcred true)).after (.send [1] 0 none ⟨1, 0, 0⟩)).after
    (.send [2] 0 none ⟨1, 0, 0⟩)).after (.recv 2 0 false 0)

theorem in_order_twoMessages : twoMessages.InOrder ∧ twoMessages.log.map (·.data) = [[1]] := by
  have hstart : Reaches Separate sockSeqpacket (newPair sockSeqpacket : Packets ℕ) := .start
  have hpass : Reaches Separate sockSeqpacket
      ((newPair sockSeqpacket : Packets ℕ).after (.passcred true)) := .step hstart trivial
  refine ⟨Reaches.in_order (.step (.step (.step hpass ?_) ?_) ?_), by decide +kernel⟩
  · exact ⟨by decide, by decide +kernel, .inl (by decide +kernel)⟩
  · exact ⟨by decide, by decide +kernel, .inr (.inr (.inl (by decide +kernel)))⟩
  · intro _ front hfront
    cases hfront
    exact ⟨by decide, fun hfiles => absurd rfl hfiles⟩

/-- Two messages are received as one. -/
theorem not_in_order_dgram :
    ∃ s : Packets ℕ, s = (((newPair sockDgram).after (.send [1] 0 none ⟨1, 0, 0⟩)).after
        (.send [2] 0 none ⟨1, 0, 0⟩)).after (.recv 2 0 false 0) ∧
      Reaches (fun _ _ => True) sockDgram s ∧ ¬ s.InOrder := by
  refine ⟨_, rfl, .step (.step (.step .start trivial) trivial) trivial, fun horder => ?_⟩
  exact absurd horder (by unfold InOrder; decide +kernel)

end Packets

end Zinnia.Local
