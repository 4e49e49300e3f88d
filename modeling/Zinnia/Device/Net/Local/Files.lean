import Zinnia.Device.Net.Local

/-!
# Files that are sent with bytes

The sections of a receive buffer belong to its bytes as long as every section has bytes. A message
without bytes, and files that a receive has left behind, make a first section without any; then the
next receive is not kept in its section.
-/

namespace Zinnia.Local

open List Option

variable {File : Type}

/-- A receive that handed over files: the position of its first byte in the stream, the number of
its bytes, and the files. -/
structure Delivery (File : Type) where
  pos : ℕ
  len : ℕ
  files : List File

/-- Two connected sockets, and what one of them has sent to the other: the number of bytes, and for
each message with files the position of its first byte; what was received of it. -/
structure Stream (File : Type) where
  self : LocalInner File
  peer : LocalInner File
  sent : ℕ
  messages : List (ℕ × List File)
  received : ℕ
  deliveries : List (Delivery File)

/-- A call at one of the ends, or a change of the flags that shutdowns and closes set. -/
inductive Event (File : Type) where
  | send (data : List (BitVec 8)) (control : ℕ) (rights : Option (List File)) (cred : Ucred)
  | recv (len control : ℕ) (peek : Bool) (free : ℕ)
  | passcred (on : Bool)
  | shutdown (write read peerClosed : Bool)

namespace Stream

/-- The state after an event. -/
def after (s : Stream File) : Event File → Stream File
  | .send data control rights cred =>
    match sendmsg s.self s.peer data control rights cred with
    | (.ok n, peer) =>
      { s with
        peer := peer
        sent := s.sent + n
        messages := if 0 < n ∧ rights.getD [] ≠ [] then s.messages ++ [(s.sent, rights.getD [])]
          else s.messages }
    | (.error _, peer) => { s with peer := peer }
  | .recv len control peek free =>
    match recvmsg s.peer len control peek free with
    | (.ok r, peer) =>
      { s with
        peer := peer
        received := if peek then s.received else s.received + r.data.length
        deliveries := if r.files ≠ [] then s.deliveries ++ [⟨s.received, r.data.length, r.files⟩]
          else s.deliveries }
    | (.error _, peer) => { s with peer := peer }
  | .passcred on => { s with peer := { s.peer with passcred := on } }
  | .shutdown write read peerClosed =>
    { s with
      self := { s.self with shutdownWrite := write }
      peer := { s.peer with shutdownRead := read, peerClosed := peerClosed } }

/-- `LocalSocket::new_pair`. -/
def newPair (sockType : BitVec 32) : Stream File :=
  ⟨.new .connected sockType, .new .connected sockType, 0, [], 0, []⟩

/-- The states that are reached by events with `guard`. -/
inductive Reaches (guard : Stream File → Event File → Prop) (sockType : BitVec 32) :
    Stream File → Prop where
  | start : Reaches guard sockType (newPair sockType)
  | step {s : Stream File} {e : Event File} (h : Reaches guard sockType s) (hguard : guard s e) :
      Reaches guard sockType (s.after e)

/-- The files of each message were handed over by the receive that returned its first byte, those of
messages whose first byte is not received yet by none, and the sections have the bytes that are in
the buffer. -/
def Exact (s : Stream File) : Prop :=
  (s.peer.inflight.map (·.bytes)).sum = s.peer.recvBuf.getDataLen ∧
    List.Forall₂ (fun d m => d.files = m.2 ∧ d.pos ≤ m.1 ∧ m.1 < d.pos + d.len) s.deliveries
      (s.messages.filter (·.1 < s.received))

/-- The control buffer and the table of descriptors have room for the files of a section. -/
def Room (sec : InflightSection File) (control free : ℕ) : Prop :=
  sec.files.length ≤ fdSlots control (installCred control sec.cred).2 ∧ sec.files.length ≤ free

/-- A message without bytes has no files and credentials. A receive while the first section has
files has room for them and for bytes, and takes the bytes; or it looks at the bytes only. -/
def Careful (s : Stream File) : Event File → Prop
  | .send data _ rights _ => data = [] → ∀ files, rights = some files →
    files = [] ∧ s.peer.passcred = false
  | .recv len control peek free => ∀ front, s.peer.inflight.head? = some front → front.files ≠ [] →
    control = 0 ∧ peek ∨ 0 < len ∧ peek = false ∧ Room front control free
  | _ => True

/-- The files that are not handed over yet, with the positions of the sections. -/
def waiting (pos : ℕ) : List (InflightSection File) → List (ℕ × List File)
  | [] => []
  | sec :: rest =>
    (if sec.files = [] then [] else [(pos, sec.files)]) ++ waiting (pos + sec.bytes) rest

/-- Every section has bytes; after the last byte an empty one is left. -/
def Shaped (inflight : List (InflightSection File)) : Prop :=
  (∀ sec ∈ inflight, 0 < sec.bytes) ∨ inflight = [⟨[], none, 0⟩]

structure Inv (s : Stream File) : Prop where
  shaped : Shaped s.peer.inflight
  sum : (s.peer.inflight.map (·.bytes)).sum = s.peer.recvBuf.getDataLen
  sent : s.sent = s.received + s.peer.recvBuf.getDataLen
  delivered : ∃ done, s.messages = done ++ waiting s.received s.peer.inflight ∧
    (∀ m ∈ done, m.1 < s.received) ∧
    List.Forall₂ (fun d m => d.files = m.2 ∧ d.pos ≤ m.1 ∧ m.1 < d.pos + d.len) s.deliveries done

variable {s : Stream File} {inflight : List (InflightSection File)}

lemma le_of_mem_waiting {pos : ℕ} {m : ℕ × List File} (h : m ∈ waiting pos inflight) :
    pos ≤ m.1 := by
  induction inflight generalizing pos with
  | nil => cases h
  | cons sec rest ih =>
    rw [waiting] at h
    rcases mem_append.mp h with h | h
    · split_ifs at h
      · cases h
      · cases mem_singleton.mp h
        exact Nat.le_refl _
    · exact Nat.le_trans (Nat.le_add_right _ _) (ih h)

lemma waiting_append (pos : ℕ) (l₁ l₂ : List (InflightSection File)) :
    waiting pos (l₁ ++ l₂) = waiting pos l₁ ++ waiting (pos + (l₁.map (·.bytes)).sum) l₂ := by
  induction l₁ generalizing pos with
  | nil => rfl
  | cons sec rest ih =>
    rw [cons_append, waiting, waiting, ih, append_assoc, map_cons, sum_cons, add_assoc]

/-- What is exact follows. -/
lemma Inv.toExact (h : s.Inv) : s.Exact := by
  obtain ⟨done, hmessages, hdone, hdelivered⟩ := h.delivered
  refine ⟨h.sum, ?_⟩
  have hfilter : s.messages.filter (·.1 < s.received) = done := by
    rw [hmessages, filter_append, filter_eq_self.mpr fun m hm =>
      decide_eq_true (hdone m hm), filter_eq_nil_iff.mpr fun m hm hlt =>
        not_lt.mpr (le_of_mem_waiting hm) (of_decide_eq_true hlt), append_nil]
  rwa [hfilter]

end Stream

/-! ### The sections -/

/-- A section to which a message is added. -/
def Merges (back : InflightSection File) (files : List File) (cred : Option Ucred) : Prop :=
  back.Plain ∧ ((files = [] ∧ cred = none) ∨ back.bytes = 0)

lemma InflightSection.Plain.eq {sec : InflightSection File} (h : sec.Plain) :
    sec.files = [] ∧ sec.cred = none :=
  ⟨isEmpty_iff.mp h.1, isNone_iff_eq_none.mp h.2⟩

/-- What a send does: nothing, a section without bytes, or bytes and their section. -/
lemma sendmsg_cases (self peer : LocalInner File) (data : List (BitVec 8)) (control : ℕ)
    (rights : Option (List File)) (cred : Ucred) :
    (∃ r, sendmsg self peer data control rights cred = (r, peer) ∧
      ∀ n, r = .ok n → n = 0 ∧ data = []) ∨
    (data = [] ∧ ∃ files, rights = some files ∧
      sendmsg self peer data control rights cred = (.ok 0, { peer with
        inflight := pushInflight peer.inflight files
          (if peer.passcred then some cred else none) 0 })) ∨
    ∃ n, 0 < n ∧ n = min data.length peer.recvBuf.getAvailableLen ∧
      sendmsg self peer data control rights cred = (.ok n, { peer with
        recvBuf := (peer.recvBuf.write (data.take n)).1
        inflight := pushInflight peer.inflight (rights.getD [])
          (if peer.passcred then some cred else none) n }) := by
  unfold sendmsg
  dsimp only
  generalize (if peer.passcred then some cred else none) = senderCred
  split_ifs with h₁ h₂ h₃ h₄ h₅ h₆
  · exact .inl ⟨_, rfl, fun n hn => ⟨(Except.ok.inj hn).symm, h₁.1⟩⟩
  · exact .inl ⟨_, rfl, by rintro _ ⟨⟩⟩
  · exact .inl ⟨_, rfl, by rintro _ ⟨⟩⟩
  · exact .inl ⟨_, rfl, by rintro _ ⟨⟩⟩
  · cases rights with
    | none => exact .inl ⟨_, rfl, fun n hn => ⟨(Except.ok.inj hn).symm, h₅⟩⟩
    | some files => exact .inr (.inl ⟨h₅, files, rfl, rfl⟩)
  · have hcap := RingBuffer.getDataLen_add peer.recvBuf
    have htake : min (min data.length bufferSize) peer.recvBuf.getAvailableLen =
        min data.length peer.recvBuf.getAvailableLen := by omega
    have hstored : (peer.recvBuf.write (data.take
        (min data.length peer.recvBuf.getAvailableLen))).2 =
        min data.length peer.recvBuf.getAvailableLen := by
      change min (length _) _ = _
      rw [length_take]
      omega
    rw [htake] at h₆ ⊢
    rw [hstored] at h₆ ⊢
    exact .inr (.inr ⟨_, h₆.1, rfl, rfl⟩)
  · exact .inl ⟨_, rfl, by rintro _ ⟨⟩⟩

section

variable (inflight : List (InflightSection File)) (files : List File) (cred : Option Ucred) {n : ℕ}
  (hn : 0 < n)

include hn

/-- A message gets a section of its own behind the others, or it is added to the last one. -/
lemma pushInflight_cases :
    (∀ init back, inflight = init ++ [back] → ¬ Merges back files cred) ∧
      pushInflight inflight files cred n = inflight ++ [⟨files, cred, n⟩] ∨
    ∃ init back, inflight = init ++ [back] ∧ Merges back files cred ∧
      pushInflight inflight files cred n = init ++ [⟨files, cred, back.bytes + n⟩] := by
  rcases eq_nil_or_concat inflight with rfl | ⟨init, back, hinit⟩
  · refine .inl ⟨fun init back h => by simp at h, ?_⟩
    rw [pushInflight, if_neg hn.ne']
    split_ifs with hplain
    · obtain ⟨hf, hc⟩ := hplain
      rw [isEmpty_iff.mp hf, isNone_iff_eq_none.mp hc]
      rfl
    · rfl
  · rw [concat_eq_append] at hinit
    subst hinit
    have hsame : ∀ {init' back'}, init ++ [back] = init' ++ [back'] → back = back' := fun h =>
      singleton_inj.mp (append_inj' h rfl).2
    rw [pushInflight, if_neg hn.ne', getLast?_append, getLast?_singleton, dropLast_concat]
    dsimp only [some_or]
    by_cases hplain : files.isEmpty ∧ cred.isNone
    · obtain ⟨rfl, rfl⟩ : files = [] ∧ cred = none :=
        ⟨isEmpty_iff.mp hplain.1, isNone_iff_eq_none.mp hplain.2⟩
      split_ifs with hback
      · refine .inr ⟨init, back, rfl, ⟨hback, .inl ⟨rfl, rfl⟩⟩, ?_⟩
        rw [hback.eq.1, hback.eq.2]
      · exact .inl ⟨fun _ _ h hmerge => hback (hsame h ▸ hmerge.1), rfl⟩
    · rw [if_neg hplain]
      split_ifs with hback
      · refine .inr ⟨init, back, rfl, ⟨hback.2, .inr hback.1⟩, ?_⟩
        rw [hback.1, zero_add]
      · refine .inl ⟨fun _ _ h hmerge => ?_, rfl⟩
        rcases hmerge.2 with ⟨rfl, rfl⟩ | hzero
        · exact hplain ⟨rfl, rfl⟩
        · exact hback (hsame h ▸ ⟨hzero, hmerge.1⟩)

/-- The bytes of the sections grow by those of the message. -/
lemma sum_pushInflight :
    ((pushInflight inflight files cred n).map (·.bytes)).sum =
      (inflight.map (·.bytes)).sum + n := by
  rcases pushInflight_cases inflight files cred hn with ⟨-, heq⟩ | ⟨init, back, rfl, -, heq⟩ <;>
    rw [heq]
  · simp
  · simp [add_assoc]

/-- The files of a message wait at the end of the bytes. -/
lemma Stream.waiting_pushInflight (pos : ℕ) :
    waiting pos (pushInflight inflight files cred n) = waiting pos inflight ++
      if files = [] then [] else [(pos + (inflight.map (·.bytes)).sum, files)] := by
  rcases pushInflight_cases inflight files cred hn with
    ⟨-, heq⟩ | ⟨init, back, rfl, ⟨hplain, hmerge⟩, heq⟩ <;> rw [heq]
  · rw [waiting_append, waiting, waiting, append_nil]
  · rw [waiting_append, waiting_append, waiting, waiting, waiting, waiting, hplain.eq.1, append_nil]
    rcases hmerge with ⟨rfl, -⟩ | hzero
    · rw [if_pos rfl]
      simp
    · simp [hzero]

end

namespace Stream

variable {s : Stream File}

lemma Shaped.pushInflight {inflight : List (InflightSection File)} (h : Shaped inflight)
    (files : List File) (cred : Option Ucred) {n : ℕ} (hn : 0 < n) :
    Shaped (pushInflight inflight files cred n) := by
  refine .inl fun sec hsec => ?_
  rcases pushInflight_cases inflight files cred hn with
    ⟨hmerge, heq⟩ | ⟨init, back, hinit, -, heq⟩ <;> rw [heq] at hsec
  · rcases mem_append.mp hsec with hsec | hsec
    · rcases h with h | rfl
      · exact h sec hsec
      · -- the empty section takes the message
        exact absurd ⟨⟨rfl, rfl⟩, .inr rfl⟩ (hmerge [] _ rfl)
    · cases mem_singleton.mp hsec
      exact hn
  · rcases mem_append.mp hsec with hsec | hsec
    · rcases h with h | h
      · exact h sec (hinit ▸ mem_append_left _ hsec)
      · cases append_eq_singleton_iff.mp (hinit.symm.trans h) with
        | inl hnil =>
          rw [hnil.1] at hsec
          cases hsec
        | inr hsingle => cases hsingle.2
    · cases mem_singleton.mp hsec
      exact Nat.lt_of_lt_of_le hn (Nat.le_add_left _ _)

lemma Inv.send (h : s.Inv) {data : List (BitVec 8)} {control : ℕ} {rights : Option (List File)}
    {cred : Ucred} (hcareful : s.Careful (.send data control rights cred)) :
    (s.after (.send data control rights cred)).Inv := by
  rcases sendmsg_cases s.self s.peer data control rights cred with
    ⟨r, heq, hr⟩ | ⟨hdata, files, hrights, heq⟩ | ⟨n, hn, hlen, heq⟩
  · cases r with
    | error e =>
      rw [after, heq]
      exact h
    | ok n =>
      obtain ⟨rfl, -⟩ := hr n rfl
      rw [after, heq]
      exact ⟨h.shaped, h.sum, h.sent, h.delivered⟩
  · obtain ⟨rfl, hpass⟩ := hcareful hdata files hrights
    rw [hpass, if_neg Bool.false_ne_true] at heq
    rw [after, heq]
    exact ⟨h.shaped, h.sum, h.sent, h.delivered⟩
  · rw [after, heq]
    have hdata : (s.peer.recvBuf.write (data.take n)).1.getDataLen =
        s.peer.recvBuf.getDataLen + n := by
      rw [RingBuffer.getDataLen_write, length_take]
      omega
    obtain ⟨done, hmessages, hdone, hdelivered⟩ := h.delivered
    refine ⟨h.shaped.pushInflight _ _ hn, ?_, ?_, done, ?_, hdone, hdelivered⟩
    · dsimp only
      rw [sum_pushInflight _ _ _ hn, hdata, h.sum]
    · dsimp only
      rw [hdata, h.sent, add_assoc]
    · dsimp only
      rw [waiting_pushInflight _ _ _ hn, h.sum, ← h.sent, ← append_assoc, ← hmessages]
      by_cases hfiles : rights.getD [] = []
      · rw [if_pos hfiles, if_neg fun hboth => hboth.2 hfiles, append_nil]
      · rw [if_neg hfiles, if_pos ⟨hn, hfiles⟩]

end Stream

/-! ### Receives -/

section Receive

variable {self : LocalInner File} {front : InflightSection File}
  {rest : List (InflightSection File)} {files : List File} {cred : Option Ucred}
  {data : List (BitVec 8)} {len control free : ℕ} {peek : Bool}

lemma installCmsg_data : (installCmsg data control files cred free).data = data := by
  unfold installCmsg
  dsimp only
  split_ifs <;> rfl

lemma installCmsg_nil : (installCmsg data control ([] : List File) cred free).files = [] := by
  unfold installCmsg
  split_ifs <;> rfl

/-- All files are handed over if there is room for them. -/
lemma installCmsg_files (hroom : files.length ≤ fdSlots control (installCred control cred).2)
    (hfree : files.length ≤ free) : (installCmsg data control files cred free).files = files := by
  by_cases hfiles : files = []
  · rw [hfiles, installCmsg_nil]
  have hlen : 0 < files.length := length_pos_iff.mpr hfiles
  have hslots := lt_of_lt_of_le hlen hroom
  rw [fdSlots] at hslots
  have hcontrol : control ≠ 0 := by
    rintro rfl
    rw [Nat.zero_sub] at hslots
    exact absurd hslots (by decide)
  have hbig : ¬ (control - (installCred control cred).2 ≤ headerAligned) := by omega
  have hmin : min (min files.length (fdSlots control (installCred control cred).2)) free =
      files.length := by omega
  unfold installCmsg
  dsimp only
  rw [if_neg fun h => h.elim hcontrol fun hempty => hfiles (isEmpty_iff.mp hempty.1),
    if_neg fun h => hbig h.2, hmin, if_neg hlen.ne']
  exact take_length

/-- A receive while the first section has bytes: it takes bytes of that section only. -/
lemma recvmsg_cases (hinflight : self.inflight = front :: rest) (hpos : 0 < front.bytes)
    (len : ℕ) (hle : front.bytes ≤ self.recvBuf.getDataLen) :
    (∃ r, recvmsg self len control peek free = (r, self) ∧
      ∀ x, r = .ok x → len = 0 ∧ control = 0 ∧ x = ⟨[], [], none, 0, false⟩) ∨
    ∃ n, n = min len front.bytes ∧ recvmsg self len control peek free =
      (.ok (installCmsg (self.recvBuf.contents.take n) control
          (takeAncillary control self.inflight).1.1 (takeAncillary control self.inflight).1.2 free),
        if 0 < n ∧ !peek then
          { self with
            recvBuf := (self.recvBuf.read n).2
            inflight := consume control n (takeAncillary control self.inflight).2 }
        else { self with inflight := (takeAncillary control self.inflight).2 }) := by
  have hcount : recvcount self len = min len front.bytes := by
    rw [recvcount, hinflight]
    simp only [head?_cons, if_pos hpos]
    omega
  have hcap := RingBuffer.getDataLen_lt self.recvBuf
  have hmin : min (min len front.bytes) bufferSize = min len front.bytes := by omega
  have hlength : (self.recvBuf.contents.take (min len front.bytes)).length = min len front.bytes := by
    rw [length_take, RingBuffer.length_contents]
    omega
  unfold recvmsg
  split_ifs with hempty hstate
  · exact .inl ⟨_, rfl, fun x hx => ⟨hempty.1, hempty.2, (Except.ok.inj hx).symm⟩⟩
  · exact .inl ⟨_, rfl, by rintro _ ⟨⟩⟩
  · refine .inr ⟨_, rfl, ?_⟩
    dsimp only
    rw [hcount, hmin, RingBuffer.peek_eq, hlength]
  · omega
  · omega

/-- The sections after bytes of the first one were taken. -/
lemma consume_takeAncillary (control n : ℕ) (front : InflightSection File)
    (rest : List (InflightSection File)) :
    consume control n (takeAncillary control (front :: rest)).2 =
      if front.bytes - n = 0 ∧ rest ≠ [] then rest
      else ⟨if control = 0 then front.files else [], none, front.bytes - n⟩ :: rest := by
  rw [takeAncillary]
  by_cases hcontrol : control = 0
  · simp [hcontrol, consume]
  · simp [hcontrol, consume]

/-- A receive while there are no bytes hands nothing over. -/
lemma recvmsg_empty (hempty : self.recvBuf.getDataLen = 0)
    (hinflight : self.inflight = [] ∨ self.inflight = [⟨[], none, 0⟩]) :
    ∃ r, recvmsg self len control peek free = (r, self) ∧
      ∀ x, r = .ok x → x.data = [] ∧ x.files = [] := by
  have htaken : takeAncillary control self.inflight = (([], none), self.inflight) := by
    rcases hinflight with h | h <;> rw [h, takeAncillary]
    split_ifs <;> rfl
  unfold recvmsg
  split_ifs with hzero hstate hdata hshut
  · exact ⟨_, rfl, fun x hx => Except.ok.inj hx ▸ ⟨rfl, rfl⟩⟩
  · exact ⟨_, rfl, by rintro _ ⟨⟩⟩
  · omega
  · dsimp only
    rw [htaken]
    exact ⟨_, rfl, fun x hx => Except.ok.inj hx ▸ ⟨installCmsg_data, installCmsg_nil⟩⟩
  · exact ⟨_, rfl, by rintro _ ⟨⟩⟩

end Receive

namespace Stream

variable {s : Stream File} {inflight : List (InflightSection File)}

/-- The first section has bytes if the buffer has. -/
lemma Shaped.front (h : Shaped inflight) (hsum : 0 < (inflight.map (·.bytes)).sum) :
    ∃ front rest, inflight = front :: rest ∧ 0 < front.bytes ∧ ∀ sec ∈ rest, 0 < sec.bytes := by
  rcases h with h | rfl
  · cases inflight with
    | nil => cases hsum
    | cons front rest =>
      exact ⟨front, rest, rfl, h front mem_cons_self, fun sec hsec =>
        h sec (mem_cons_of_mem _ hsec)⟩
  · cases hsum

lemma Shaped.empty (h : Shaped inflight) (hsum : (inflight.map (·.bytes)).sum = 0) :
    inflight = [] ∨ inflight = [⟨[], none, 0⟩] := by
  rcases h with h | h
  · cases inflight with
    | nil => exact .inl rfl
    | cons front rest =>
      have hpos := h front mem_cons_self
      rw [map_cons, sum_cons] at hsum
      omega
  · exact .inr h

section Recv

variable {front : InflightSection File} {rest : List (InflightSection File)}
  {len control free n : ℕ} {peek : Bool}

/-- The receive that takes bytes of the first section gets its files. -/
lemma Careful.files (hcareful : s.Careful (.recv len control false free))
    (hinflight : s.peer.inflight = front :: rest) (data : List (BitVec 8)) :
    (installCmsg data control (takeAncillary control s.peer.inflight).1.1
      (takeAncillary control s.peer.inflight).1.2 free).files = front.files ∧
      (if control = 0 then front.files else []) = [] := by
  by_cases hfiles : front.files = []
  · rw [hinflight, takeAncillary, hfiles]
    refine ⟨?_, ite_self _⟩
    split_ifs <;> exact installCmsg_nil
  · have hhead : s.peer.inflight.head? = some front := by rw [hinflight]; rfl
    rcases hcareful front hhead hfiles with ⟨-, hpeek⟩ | ⟨-, -, hroom, hfree⟩
    · cases hpeek
    have hcontrol : control ≠ 0 := by
      rintro rfl
      have hlen := length_pos_iff.mpr hfiles
      rw [fdSlots, Nat.zero_sub] at hroom
      exact absurd (lt_of_lt_of_le hlen hroom) (by decide)
    rw [hinflight, takeAncillary, if_pos hcontrol, if_neg hcontrol]
    exact ⟨installCmsg_files hroom hfree, rfl⟩

lemma Inv.recv_take (h : s.Inv) (hcareful : s.Careful (.recv len control false free))
    (hinflight : s.peer.inflight = front :: rest) (hrest : ∀ sec ∈ rest, 0 < sec.bytes) (hn : 0 < n)
    (hle : n ≤ front.bytes)
    (hrecv : recvmsg s.peer len control false free =
      (.ok (installCmsg (s.peer.recvBuf.contents.take n) control
          (takeAncillary control s.peer.inflight).1.1 (takeAncillary control s.peer.inflight).1.2
          free),
        { s.peer with
          recvBuf := (s.peer.recvBuf.read n).2
          inflight := consume control n (takeAncillary control s.peer.inflight).2 })) :
    (s.after (.recv len control false free)).Inv := by
  obtain ⟨hfiles, hleft⟩ := hcareful.files hinflight (s.peer.recvBuf.contents.take n)
  have hsum := h.sum
  rw [hinflight, map_cons, sum_cons] at hsum
  have hlength : (s.peer.recvBuf.contents.take n).length = n := by
    rw [length_take, RingBuffer.length_contents]
    omega
  have hdata : (s.peer.recvBuf.read n).2.getDataLen = s.peer.recvBuf.getDataLen - n := by
    rw [RingBuffer.getDataLen_read]
    omega
  have hsections : consume control n (takeAncillary control s.peer.inflight).2 =
      if front.bytes - n = 0 ∧ rest ≠ [] then rest else ⟨[], none, front.bytes - n⟩ :: rest := by
    rw [hinflight, consume_takeAncillary, hleft]
  obtain ⟨done, hmessages, hdone, hdelivered⟩ := h.delivered
  rw [hinflight, waiting] at hmessages
  rw [after, hrecv]
  dsimp only
  rw [hfiles, installCmsg_data, hlength, if_neg Bool.false_ne_true]
  refine ⟨?_, ?_, ?_, ?_⟩
  · dsimp only
    rw [hsections]
    split_ifs with hpop
    · exact .inl hrest
    · by_cases hzero : front.bytes - n = 0
      · have hnil : rest = [] := not_not.mp fun hne => hpop ⟨hzero, hne⟩
        rw [hzero, hnil]
        exact .inr rfl
      · refine .inl fun sec hsec => ?_
        rcases mem_cons.mp hsec with rfl | hsec
        · exact pos_of_ne_zero hzero
        · exact hrest sec hsec
  · dsimp only
    rw [hsections]
    split_ifs with hpop
    · omega
    · rw [map_cons, sum_cons]
      dsimp only
      omega
  · have hsent := h.sent
    dsimp only
    omega
  · have hwaiting : waiting (s.received + n)
        (consume control n (takeAncillary control s.peer.inflight).2) =
        waiting (s.received + front.bytes) rest := by
      rw [hsections]
      split_ifs with hpop
      · rw [show s.received + n = s.received + front.bytes by omega]
      · rw [waiting, if_pos rfl, nil_append, add_assoc, Nat.add_sub_cancel' hle]
    rw [hwaiting]
    by_cases hnone : front.files = []
    · rw [if_pos hnone] at hmessages
      rw [if_neg (not_not.mpr hnone)]
      exact ⟨done, hmessages, fun m hm => Nat.lt_add_right _ (hdone m hm), hdelivered⟩
    · rw [if_neg hnone, ← append_assoc] at hmessages
      rw [if_pos hnone]
      refine ⟨_, hmessages, fun m hm => ?_, rel_append hdelivered ?_⟩
      · rcases mem_append.mp hm with hm | hm
        · exact Nat.lt_add_right _ (hdone m hm)
        · cases mem_singleton.mp hm
          exact Nat.lt_add_of_pos_right hn
      · exact .cons ⟨rfl, le_refl _, Nat.lt_add_of_pos_right hn⟩ .nil

/-- A receive that takes no bytes. -/
lemma Inv.recv_look (h : s.Inv) (hcareful : s.Careful (.recv len control peek free))
    (hinflight : s.peer.inflight = front :: rest) (hpos : 0 < front.bytes)
    (hnone : ¬ (0 < min len front.bytes ∧ !peek))
    (hrecv : recvmsg s.peer len control peek free =
      (.ok (installCmsg (s.peer.recvBuf.contents.take (min len front.bytes)) control
          (takeAncillary control s.peer.inflight).1.1 (takeAncillary control s.peer.inflight).1.2
          free),
        { s.peer with inflight := (takeAncillary control s.peer.inflight).2 })) :
    (s.after (.recv len control peek free)).Inv := by
  -- the section keeps its files: it has none, or they are not asked for
  have hkept : front.files = [] ∨ control = 0 := by
    by_cases hfiles : front.files = []
    · exact .inl hfiles
    have hhead : s.peer.inflight.head? = some front := by rw [hinflight]; rfl
    rcases hcareful front hhead hfiles with ⟨hcontrol, -⟩ | ⟨hlen, hpeek, -⟩
    · exact .inr hcontrol
    · refine absurd ⟨Nat.lt_min.mpr ⟨hlen, hpos⟩, ?_⟩ hnone
      rw [hpeek]
      rfl
  obtain ⟨hfiles, cred, hsections⟩ : (takeAncillary control s.peer.inflight).1.1 = [] ∧
      ∃ cred, (takeAncillary control s.peer.inflight).2 =
        ⟨front.files, cred, front.bytes⟩ :: rest := by
    rw [hinflight, takeAncillary]
    rcases hkept with hfiles | rfl
    · split_ifs
      · exact ⟨hfiles, none, by rw [hfiles]⟩
      · exact ⟨rfl, front.cred, rfl⟩
    · exact ⟨rfl, front.cred, rfl⟩
  have hlength : (if peek then s.received else s.received +
      (s.peer.recvBuf.contents.take (min len front.bytes)).length) = s.received := by
    cases peek with
    | true => rfl
    | false =>
      have hzero : min len front.bytes = 0 :=
        Nat.eq_zero_of_not_pos fun hmin => hnone ⟨hmin, rfl⟩
      rw [hzero]
      rfl
  have hsum := h.sum
  obtain ⟨done, hmessages, hdone, hdelivered⟩ := h.delivered
  rw [hinflight] at hsum hmessages
  rw [after, hrecv]
  dsimp only
  rw [hfiles, installCmsg_nil, installCmsg_data, hlength]
  refine ⟨?_, ?_, h.sent, done, ?_, hdone, hdelivered⟩
  · have hshaped := h.shaped
    rw [hinflight] at hshaped
    rw [hsections]
    rcases hshaped with hshaped | hshaped
    · refine .inl fun sec hsec => ?_
      rcases mem_cons.mp hsec with rfl | hsec
      · exact hpos
      · exact hshaped sec (mem_cons_of_mem _ hsec)
    · cases hshaped
      cases hpos
  · dsimp only
    rw [hsections]
    exact hsum
  · dsimp only
    rw [hsections]
    exact hmessages

lemma Inv.recv (h : s.Inv) (hcareful : s.Careful (.recv len control peek free)) :
    (s.after (.recv len control peek free)).Inv := by
  have hnothing : ∀ {x : Received File}, recvmsg s.peer len control peek free = (.ok x, s.peer) →
      x.data = [] → x.files = [] → s.after (.recv len control peek free) = s := by
    intro x hrecv hdata hfiles
    rw [after, hrecv]
    dsimp only
    rw [hdata, hfiles, if_neg (not_not.mpr rfl), length_nil, Nat.add_zero, ite_self]
  by_cases hdata : 0 < s.peer.recvBuf.getDataLen
  · obtain ⟨front, rest, hinflight, hpos, hrest⟩ := h.shaped.front (h.sum ▸ hdata)
    have hle : front.bytes ≤ s.peer.recvBuf.getDataLen := by
      rw [← h.sum, hinflight, map_cons]
      exact Nat.le_add_right _ _
    rcases recvmsg_cases hinflight hpos len hle with ⟨r, hrecv, hr⟩ | ⟨n, rfl, hrecv⟩
    · cases r with
      | error e =>
        rw [after, hrecv]
        exact h
      | ok x =>
        obtain ⟨-, -, rfl⟩ := hr x rfl
        rw [hnothing hrecv rfl rfl]
        exact h
    · split_ifs at hrecv with htake
      · cases peek with
        | true => exact absurd htake.2 Bool.false_ne_true
        | false =>
          exact h.recv_take hcareful hinflight hrest htake.1 (Nat.min_le_right _ _) hrecv
      · exact h.recv_look hcareful hinflight hpos htake hrecv
  · have hempty := Nat.eq_zero_of_not_pos hdata
    obtain ⟨r, hrecv, hr⟩ := recvmsg_empty hempty (h.shaped.empty (h.sum.trans hempty))
    cases r with
    | error e =>
      rw [after, hrecv]
      exact h
    | ok x =>
      rw [hnothing hrecv (hr x rfl).1 (hr x rfl).2]
      exact h

end Recv

lemma Reaches.inv {sockType : BitVec 32} (h : Reaches Careful sockType s) : s.Inv := by
  induction h with
  | start => exact ⟨.inl nofun, rfl, rfl, [], rfl, nofun, .nil⟩
  | @step s e _ hguard ih =>
    cases e with
    | send data control rights cred => exact ih.send hguard
    | recv len control peek free => exact ih.recv hguard
    | passcred on => exact ⟨ih.shaped, ih.sum, ih.sent, ih.delivered⟩
    | shutdown write read peerClosed => exact ⟨ih.shaped, ih.sum, ih.sent, ih.delivered⟩

theorem Reaches.delivers_exactly {sockType : BitVec 32} (h : Reaches Careful sockType s) :
    s.Exact := h.inv.toExact

/-- A message with a file, and a receive of half of it. -/
def oneFile : Stream ℕ :=
  ((newPair sockStream).after (.send [1, 2] 20 (some [7]) ⟨1, 0, 0⟩)).after (.recv 1 20 false 1)

theorem exact_oneFile : oneFile.Exact ∧ oneFile.deliveries.map (·.files) = [[7]] := by
  have hstart : Reaches Careful sockStream (newPair sockStream : Stream ℕ) := .start
  refine ⟨Reaches.delivers_exactly (.step (.step hstart ?_) ?_), by decide +kernel⟩
  · exact fun hnil => nomatch hnil
  · intro front hfront _
    cases hfront
    exact .inr ⟨by decide, rfl, by decide, by decide⟩

/-- After a message without bytes that carries a file, the sections do not fit the buffer any
more. -/
theorem not_exact_zeroLength :
    ∃ s : Stream ℕ, s = (((newPair sockStream).after (.send [] 20 (some [7]) ⟨1, 0, 0⟩)).after
        (.send [1, 2] 0 none ⟨1, 0, 0⟩)).after (.recv 1 20 false 1) ∧
      Reaches (fun _ _ => True) sockStream s ∧ ¬ s.Exact := by
  refine ⟨_, rfl, .step (.step (.step .start trivial) trivial) trivial, fun hexact => ?_⟩
  exact absurd hexact.1 (by decide +kernel)

end Stream

end Zinnia.Local
