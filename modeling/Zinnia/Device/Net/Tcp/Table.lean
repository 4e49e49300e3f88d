import Zinnia.Lib.Triple
import Zinnia.Device.Net.Tcp.Segments

/-!
# The tables of connections and ports

What the tables say of the sockets, and what each function keeps of it. Connections are removed from
the table by their addresses, so that all of it rests on the addresses being different.
-/

namespace Zinnia.Tcp

open Function List Net Comp

/-- The states in which a socket has a connection. -/
def TcpState.Connected (s : TcpState) : Prop :=
  s ≠ .closed ∧ s ≠ .bound ∧ s ≠ .listen ∧ s ≠ .timeWait

instance (s : TcpState) : Decidable s.Connected := by
  unfold TcpState.Connected
  infer_instance

/-- The table of connections agrees with the sockets. -/
structure Net.ConnInv (w : Net) : Prop where
  fresh : ∀ i, w.nextSocket ≤ i → w.sockets i = none
  closing : w.closing = []
  /-- Two sockets have different addresses. -/
  unique : ∀ {i j a b key}, w.sockets i = some a → w.sockets j = some b → a.key = some key →
    b.key = some key → i = j
  registered : ∀ {i a}, w.sockets i = some a → a.state.Connected →
    ∃ key, a.key = some key ∧ w.connections key = some i
  peerBound : ∀ {i a}, w.sockets i = some a → a.peer ≠ none → a.bound
  handlesLt : ∀ {i}, i ∈ w.handles → i < w.nextSocket
  queuedLt : ∀ {l li c}, w.sockets l = some li → c ∈ li.pending ++ li.backlog → c < w.nextSocket

/-- The table of ports agrees with the sockets. -/
structure Net.PortInv (w : Net) : Prop where
  /-- A socket with a registered port is the one in the table of ports. -/
  owned : ∀ {i a}, w.sockets i = some a → a.portRegistered →
    a.bound ∧ w.ports a.localEnd.port = some i
  holder : ∀ {p j b}, w.ports p = some j → w.sockets j = some b →
    b.portRegistered ∧ b.localEnd.port = p
  reserved : ∀ {i a}, w.sockets i = some a → a.bound → (w.port a.localEnd.port).isSome
  /-- The children of listening sockets have no port of their own. -/
  child : ∀ {c ci}, w.sockets c = some ci → ci.listener ≠ none →
    ci.bound ∧ ci.portRegistered = false
  queued : ∀ {l li c ci}, w.sockets l = some li → c ∈ li.pending ++ li.backlog →
    w.sockets c = some ci → ci.listener ≠ none
  portsLt : ∀ {p j}, w.ports p = some j → j < w.nextSocket
  /-- Sockets with a registered port are held by the user. -/
  held : ∀ {i a}, w.sockets i = some a → a.portRegistered → i ∈ w.handles

/-- The socket `c` is a child of `l` and waits for the end of the handshake. -/
def Net.Pends (w : Net) (l c : ℕ) : Prop :=
  ∃ ci, w.sockets c = some ci ∧ ci.state = .synReceived ∧ ci.listener = some l

/-- The pending sockets of a listening one wait for the end of the handshake. -/
def Net.PendInv (w : Net) : Prop :=
  ∀ ⦃l li c⦄, w.sockets l = some li → c ∈ li.pending → li.state = .listen ∧ w.Pends l c

/-- All of it; the table of ports and the lists of pending sockets only if asked for. -/
structure Net.Inv (ports strict : Prop) (w : Net) : Prop where
  conn : w.ConnInv
  port : ports → w.PortInv
  pend : strict → w.PendInv

/-- What may happen to the state of a socket without a change of the tables and lists. -/
def TcpState.Evolves (strict : Prop) (s s' : TcpState) : Prop :=
  (s'.Connected → s.Connected) ∧
    (strict → (s = .listen → s' = .listen) ∧ (s = .synReceived → s' = .synReceived))

lemma TcpState.Evolves.refl (strict : Prop) (s : TcpState) : s.Evolves strict s :=
  ⟨id, fun _ => ⟨id, id⟩⟩

variable {w w' : Net} {id : ℕ} {inner inner' a : TcpInner} {seg : Segment} {ports strict : Prop}

lemma port_isSome {p : BitVec 16} :
    (w.port p).isSome ↔ ∃ j b, w.ports p = some j ∧ w.sockets j = some b := by
  rw [port]
  constructor
  · intro h
    obtain ⟨j, hj⟩ := Option.isSome_iff_exists.mp h
    obtain ⟨j', hports, hup⟩ := Option.bind_eq_some_iff.mp hj
    obtain ⟨b, hb, rfl⟩ := upgrade_eq_some.mp hup
    exact ⟨j', b, hports, hb⟩
  · rintro ⟨j, b, hports, hb⟩
    rw [hports, Option.bind_some, upgrade, hb]
    rfl

namespace Net

variable {a : TcpInner} {i : ℕ} {p : BitVec 16}

lemma sockets_setSocket_cases (h : (w.setSocket id inner').sockets i = some a) :
    i = id ∧ a = inner' ∨ i ≠ id ∧ w.sockets i = some a := by
  rcases eq_or_ne i id with rfl | heq
  · cases (update_self ..).symm.trans h
    exact .inl ⟨rfl, rfl⟩
  · exact .inr ⟨heq, (update_of_ne heq ..).symm.trans h⟩

/-- A property of the new socket and of the others. -/
@[elab_as_elim]
lemma setSocket_elim {P : ℕ → TcpInner → Prop} (h : (w.setSocket id inner').sockets i = some a)
    (hself : P id inner') (hrest : w.sockets i = some a → P i a) : P i a := by
  rcases sockets_setSocket_cases h with ⟨rfl, rfl⟩ | ⟨-, h⟩
  · exact hself
  · exact hrest h

lemma alive_setSocket (h : w.sockets i = some a) (id : ℕ) (inner' : TcpInner) :
    ∃ b, (w.setSocket id inner').sockets i = some b := by
  rcases eq_or_ne i id with rfl | heq
  · exact ⟨inner', update_self ..⟩
  · exact ⟨a, (update_of_ne heq ..).trans h⟩

lemma ConnInv.lt (hinv : w.ConnInv) (h : w.sockets id = some inner) : id < w.nextSocket := by
  by_contra hle
  cases (hinv.fresh id (not_lt.mp hle)).symm.trans h

/-- A socket may change if it stays the only one with its addresses. -/
lemma ConnInv.setSocket (hinv : w.ConnInv) (hid : id < w.nextSocket)
    (hlt : ∀ c ∈ inner'.pending ++ inner'.backlog, c < w.nextSocket)
    (hbound : inner'.peer ≠ none → inner'.bound)
    (hkey : ∀ {key j b}, inner'.key = some key → j ≠ id → w.sockets j = some b →
      b.key ≠ some key)
    (hreg : inner'.state.Connected → ∃ key, inner'.key = some key ∧ w.connections key = some id) :
    (w.setSocket id inner').ConnInv where
  fresh i hi := (update_of_ne (hid.trans_le hi).ne' ..).trans (hinv.fresh i hi)
  closing := hinv.closing
  unique hi hj hki hkj := by
    rcases sockets_setSocket_cases hi with ⟨rfl, rfl⟩ | ⟨hni, hlive⟩
    · rcases sockets_setSocket_cases hj with ⟨rfl, rfl⟩ | ⟨hnj, hj⟩
      · rfl
      · exact absurd hkj (hkey hki hnj hj)
    · rcases sockets_setSocket_cases hj with ⟨rfl, rfl⟩ | ⟨hnj, hj⟩
      · exact absurd hki (hkey hkj hni hlive)
      · exact hinv.unique hlive hj hki hkj
  registered hi := setSocket_elim hi hreg hinv.registered
  peerBound hi := setSocket_elim hi hbound hinv.peerBound
  handlesLt := hinv.handlesLt
  queuedLt hl := setSocket_elim hl (hlt _) hinv.queuedLt

/-- A socket may change if it agrees with the table of ports and with the lists. -/
lemma PortInv.setSocket (hinv : w.PortInv)
    (howned : inner'.portRegistered →
      inner'.bound ∧ w.ports inner'.localEnd.port = some id ∧ id ∈ w.handles)
    (hholder : ∀ {p}, w.ports p = some id → inner'.portRegistered ∧ inner'.localEnd.port = p)
    (hreserved : inner'.bound → (w.port inner'.localEnd.port).isSome)
    (hchild : inner'.listener ≠ none → inner'.bound ∧ inner'.portRegistered = false)
    (hqueued : ∀ {l li c ci}, (w.setSocket id inner').sockets l = some li →
      c ∈ li.pending ++ li.backlog → (w.setSocket id inner').sockets c = some ci →
      ci.listener ≠ none) : (w.setSocket id inner').PortInv where
  owned hi := setSocket_elim hi (fun hreg => ⟨(howned hreg).1, (howned hreg).2.1⟩) hinv.owned
  holder hports hj := by
    rcases sockets_setSocket_cases hj with ⟨rfl, rfl⟩ | ⟨-, hj⟩
    · exact hholder hports
    · exact hinv.holder hports hj
  reserved {i a} hi hbound := by
    have hsome : a.bound → (w.port a.localEnd.port).isSome :=
      setSocket_elim hi hreserved hinv.reserved
    obtain ⟨j, b, hports, hb⟩ := Tcp.port_isSome.mp (hsome hbound)
    obtain ⟨b', hb'⟩ := alive_setSocket hb id inner'
    exact Tcp.port_isSome.mpr ⟨j, b', hports, hb'⟩
  child hc := setSocket_elim hc hchild hinv.child
  queued := hqueued
  portsLt := hinv.portsLt
  held hi := setSocket_elim hi (fun hreg => (howned hreg).2.2) hinv.held

/-- A socket may change but for its port. -/
lemma PortInv.setLists (hinv : w.PortInv) (h : w.sockets id = some inner)
    (hport : inner'.localEnd.port = inner.localEnd.port) (hbound : inner'.bound = inner.bound)
    (hreg : inner'.portRegistered = inner.portRegistered)
    (hlistener : inner'.listener = inner.listener)
    (hqueued : ∀ c ∈ inner'.pending ++ inner'.backlog, ∀ ci, w.sockets c = some ci →
      ci.listener ≠ none) : (w.setSocket id inner').PortInv := by
  refine hinv.setSocket ?_ ?_ ?_ ?_ fun {l li c ci} hl hc hci => ?_
  · rw [hreg, hbound, hport]
    exact fun hreg => ⟨(hinv.owned h hreg).1, (hinv.owned h hreg).2, hinv.held h hreg⟩
  · rw [hreg, hport]
    exact fun hports => hinv.holder hports h
  · rw [hbound, hport]
    exact hinv.reserved h
  · rw [hlistener, hbound, hreg]
    exact hinv.child h
  · have hall : c ∈ li.pending ++ li.backlog → ∀ ci, w.sockets c = some ci → ci.listener ≠ none :=
      setSocket_elim hl (hqueued c) fun hl hc _ => hinv.queued hl hc
    rcases sockets_setSocket_cases hci with ⟨rfl, rfl⟩ | ⟨-, hci⟩
    · rw [hlistener]
      exact hall hc inner h
    · exact hall hc ci hci

lemma Pends.setSocket_of_ne {l c : ℕ} (h : w.Pends l c) (hne : c ≠ id) :
    (w.setSocket id inner').Pends l c := by
  obtain ⟨ci, hci, hrest⟩ := h
  exact ⟨ci, (update_of_ne hne ..).trans hci, hrest⟩

lemma PendInv.of_sockets (hpend : w.PendInv) (hsockets : w'.sockets = w.sockets) : w'.PendInv := by
  simp only [PendInv, Pends, hsockets]
  exact hpend

/-- A socket may change if it stays what it is for the lists of pending sockets. -/
lemma PendInv.setSocket (hpend : w.PendInv) (h : w.sockets id = some inner)
    (hnew : ∀ c ∈ inner'.pending, inner.state = .listen ∧ inner'.state = .listen ∧ w.Pends id c)
    (hself : ∀ {l li}, w.sockets l = some li → id ∈ li.pending →
      inner'.state = .synReceived ∧ inner'.listener = some l) : (w.setSocket id inner').PendInv := by
  intro l li c hl hc
  rcases sockets_setSocket_cases hl with ⟨rfl, rfl⟩ | ⟨-, hlive⟩
  · obtain ⟨hlisten, hlisten', hpends⟩ := hnew c hc
    refine ⟨hlisten', hpends.setSocket_of_ne ?_⟩
    rintro rfl
    obtain ⟨ci, hci, hsyn, -⟩ := hpends
    cases h.symm.trans hci
    cases hlisten.symm.trans hsyn
  · obtain ⟨hlisten, hpends⟩ := hpend hlive hc
    refine ⟨hlisten, ?_⟩
    rcases eq_or_ne c id with rfl | heq
    · exact ⟨inner', update_self .., hself hlive hc⟩
    · exact hpends.setSocket_of_ne heq

/-- A key that no connection has can be given away. -/
lemma ConnInv.setConnection (hinv : w.ConnInv) {key : TcpKey}
    (hkey : ∀ i a, w.sockets i = some a → a.state.Connected → a.key ≠ some key) (o : Option ℕ) :
    (w.setConnection key o).ConnInv :=
  { hinv with
    registered := fun {i a} hi hconn => by
      obtain ⟨key', hkey', hreg⟩ := hinv.registered hi hconn
      have hne : key' ≠ key := by
        rintro rfl
        exact hkey i a hi hconn hkey'
      exact ⟨key', hkey', (update_of_ne hne ..).trans hreg⟩ }

/-- A port that no socket is bound to can be removed. -/
lemma PortInv.setPort_none (hinv : w.PortInv)
    (hp : ∀ i a, w.sockets i = some a → a.bound → a.localEnd.port ≠ p) :
    (w.setPort p none).PortInv :=
  { hinv with
    owned := fun {i a} hi hreg => by
      obtain ⟨hbound, hports⟩ := hinv.owned hi hreg
      exact ⟨hbound, (update_of_ne (hp i a hi hbound) ..).trans hports⟩
    holder := fun {p' j b} hports hj => by
      have hne : p' ≠ p := by
        rintro rfl
        cases (update_self ..).symm.trans hports
      exact hinv.holder ((update_of_ne hne ..).symm.trans hports) hj
    reserved := fun {i a} hi hbound => by
      obtain ⟨j, b, hports, hb⟩ := Tcp.port_isSome.mp (hinv.reserved hi hbound)
      exact Tcp.port_isSome.mpr
        ⟨j, b, (update_of_ne (hp i a hi hbound) ..).trans hports, hb⟩
    portsLt := fun {p' j} hports => by
      have hne : p' ≠ p := by
        rintro rfl
        cases (update_self ..).symm.trans hports
      exact hinv.portsLt ((update_of_ne hne ..).symm.trans hports) }

/-- The port has no live socket in the table, so that none is bound to it. -/
lemma PortInv.not_bound (hinv : w.PortInv) (hp : ¬ (w.port p).isSome) (i : ℕ) (a : TcpInner)
    (hi : w.sockets i = some a) (hbound : a.bound) : a.localEnd.port ≠ p := by
  rintro rfl
  exact hp (hinv.reserved hi hbound)

/-! ### The destructor -/

/-- Some sockets are gone. -/
structure Shrinks (w w' : Net) : Prop where
  nextSocket : w'.nextSocket = w.nextSocket
  handles : w'.handles = w.handles
  sockets : ∀ {j b}, w'.sockets j = some b → w.sockets j = some b

lemma Shrinks.refl (w : Net) : w.Shrinks w := ⟨rfl, rfl, id⟩

lemma Shrinks.trans {w₁ w₂ w₃ : Net} (h : w₁.Shrinks w₂) (h' : w₂.Shrinks w₃) : w₁.Shrinks w₃ :=
  ⟨h'.nextSocket.trans h.nextSocket, h'.handles.trans h.handles, fun hj => h.sockets (h'.sockets hj)⟩

/-- No socket has the addresses of one that is gone. -/
def Foreign (w : Net) (a : TcpInner) : Prop :=
  ∀ ⦃key j b⦄, a.key = some key → w.sockets j = some b → b.key ≠ some key

/-- No socket needs the port of one that is gone. -/
def FreePort (w : Net) (a : TcpInner) : Prop :=
  ∀ ⦃j b⦄, a.portRegistered → w.sockets j = some b → b.bound → b.localEnd.port ≠ a.localEnd.port

lemma Foreign.shrinks (h : w.Foreign a) (hs : w.Shrinks w') : w'.Foreign a :=
  fun _ _ _ hkey hj => h hkey (hs.sockets hj)

lemma FreePort.shrinks (h : w.FreePort a) (hs : w.Shrinks w') : w'.FreePort a :=
  fun _ _ hreg hj => h hreg (hs.sockets hj)

/-- The state of a machine without a socket. -/
def kill (w : Net) (id : ℕ) : Net := { w with sockets := Function.update w.sockets id none }

lemma sockets_kill {j : ℕ} {b : TcpInner} (h : (w.kill id).sockets j = some b) :
    j ≠ id ∧ w.sockets j = some b := by
  have hne : j ≠ id := by
    rintro rfl
    cases (update_self ..).symm.trans h
  exact ⟨hne, (update_of_ne hne ..).symm.trans h⟩

lemma shrinks_kill (w : Net) (id : ℕ) : w.Shrinks (w.kill id) :=
  ⟨rfl, rfl, fun h => (sockets_kill h).2⟩

lemma Shrinks.dead_of_kill (h : (w.kill id).Shrinks w') : w'.sockets id = none := by
  cases hsock : w'.sockets id with
  | none => rfl
  | some b => exact absurd rfl (sockets_kill (h.sockets hsock)).1

/-- The port of a socket is not needed by another one. -/
def SparePort (w : Net) (id : ℕ) : Prop :=
  ∀ ⦃a j b⦄, w.sockets id = some a → a.portRegistered → j ≠ id → w.sockets j = some b → b.bound →
    b.localEnd.port ≠ a.localEnd.port

lemma ConnInv.kill (hinv : w.ConnInv) (id : ℕ) : (w.kill id).ConnInv where
  fresh i hi := by
    by_cases heq : i = id
    · rw [heq]
      exact update_self ..
    · exact (update_of_ne heq ..).trans (hinv.fresh i hi)
  closing := hinv.closing
  unique hi hj := hinv.unique (sockets_kill hi).2 (sockets_kill hj).2
  registered hi := hinv.registered (sockets_kill hi).2
  peerBound hi := hinv.peerBound (sockets_kill hi).2
  handlesLt := hinv.handlesLt
  queuedLt hl := hinv.queuedLt (sockets_kill hl).2

lemma ConnInv.foreign_kill (hinv : w.ConnInv) (h : w.sockets id = some a) :
    (w.kill id).Foreign a := fun _ _ _ hkey hj hkey' =>
  (sockets_kill hj).1 (hinv.unique (sockets_kill hj).2 h hkey' hkey)

/-- All but the handles: the user may have given up the one of the socket. -/
lemma PortInv.kill (hinv : w.PortInv) (h : w.sockets id = some a) (hspare : w.SparePort id)
    (handles : List ℕ) (hhandles : ∀ i ∈ w.handles, i ≠ id → i ∈ handles) :
    ({ w with handles := handles }.kill id).PortInv where
  owned hi := hinv.owned (sockets_kill hi).2
  holder hports hj := hinv.holder hports (sockets_kill hj).2
  reserved hi hbound := by
    obtain ⟨hne, hlive⟩ := sockets_kill hi
    obtain ⟨k, b, hports, hb⟩ := Tcp.port_isSome.mp (hinv.reserved hlive hbound)
    -- the holder of the port is not the socket that is gone
    have hk : k ≠ id := by
      rintro rfl
      obtain ⟨hreg, hport⟩ := hinv.holder hports h
      exact hspare h hreg hne hlive hbound hport.symm
    exact Tcp.port_isSome.mpr ⟨k, b, hports, (update_of_ne hk ..).trans hb⟩
  child hc := hinv.child (sockets_kill hc).2
  queued hl hc hci := hinv.queued (sockets_kill hl).2 hc (sockets_kill hci).2
  portsLt := hinv.portsLt
  held hi hreg := hhandles _ (hinv.held (sockets_kill hi).2 hreg) (sockets_kill hi).1

lemma SparePort.freePort (hspare : w.SparePort id) (h : w.sockets id = some a) :
    (w.kill id).FreePort a := fun _ _ hreg hj =>
  hspare h hreg (sockets_kill hj).1 (sockets_kill hj).2

end Net

/-- A reference that is released and was the last one. -/
lemma run_releaseDepth_succ (depth id : ℕ) (w : Net) :
    (w.referenced id ∨ w.sockets id = none) ∧
        final ((releaseDepth (depth + 1) id).run w) = w ∨
      ∃ a, w.referenced id = false ∧ w.sockets id = some a ∧
        final ((releaseDepth (depth + 1) id).run w) =
          final (((a.pending ++ a.backlog).forM (releaseDepth depth) >>= fun _ =>
            dropSocket id a).run (w.kill id)) := by
  rw [releaseDepth, run_get_bind]
  cases href : w.referenced id with
  | true => exact .inl ⟨.inl rfl, rfl⟩
  | false =>
    cases ha : w.sockets id with
    | none => exact .inl ⟨.inr rfl, rfl⟩
    | some a => exact .inr ⟨a, rfl, rfl, rfl⟩

lemma run_attempt_sendSegment (w : Net) (packet : Packet) :
    ∃ e log, (attempt (sendSegment packet)).run w = .ok e { w with sent := log } := by
  have hrun := run_sendSegment (w := w) packet
  cases hsend : w.sendError packet with
  | some e =>
    rw [hsend] at hrun
    exact ⟨some e, w.sent, run_attempt_error hrun⟩
  | none =>
    rw [hsend] at hrun
    exact ⟨none, _, run_attempt_ok hrun⟩

lemma referenced_of_queued (hfresh : ∀ i, w.nextSocket ≤ i → w.sockets i = none) {l c : ℕ}
    {li : TcpInner} (hl : w.sockets l = some li) (hc : c ∈ li.pending ++ li.backlog) :
    w.referenced c = true := by
  have hlt : l < w.nextSocket := by
    by_contra hle
    cases (hfresh l (not_lt.mp hle)).symm.trans hl
  have hqueues : w.queues l c = true := by
    rw [queues, hl]
    simpa using hc
  rw [referenced, Bool.or_eq_true]
  exact .inr (any_eq_true.mpr ⟨l, mem_range.mpr hlt, hqueues⟩)

section

variable (hdead : w.sockets id = none)

include hdead

/-- What the destructor does to the table of connections. -/
lemma dropConnection_run :
    ∃ w', (dropConnection id a).run w = .ok () w' ∧
      ((∃ log, w' = { w with sent := log }) ∨
        ∃ key, a.key = some key ∧ w' = w.setConnection key none) := by
  rw [dropConnection]
  split_ifs
  · rw [dropFin, run_bind_ok (run_retainSelf hdead)]
    cases hpeer : a.peer with
    | none => exact ⟨w, rfl, .inl ⟨w.sent, rfl⟩⟩
    | some peer =>
      obtain ⟨e, log, hsend⟩ := run_attempt_sendSegment w
        ({ a with recvBuf := a.recvBuf.clear }.packet peer (flagAck ||| flagFin) [])
      rw [hpeer] at hsend
      rw [run_bind_ok hsend]
      exact ⟨_, rfl, .inl ⟨log, rfl⟩⟩
  · cases hkey : a.key with
    | none => exact ⟨w, rfl, .inl ⟨w.sent, rfl⟩⟩
    | some key => exact ⟨_, rfl, .inr ⟨key, rfl, rfl⟩⟩

/-- The destructor touches no other socket. -/
lemma dropSocket_frame :
    (final ((dropSocket id a).run w)).sockets = w.sockets ∧
      (final ((dropSocket id a).run w)).nextSocket = w.nextSocket ∧
      (final ((dropSocket id a).run w)).handles = w.handles := by
  obtain ⟨w', hrun, hw'⟩ := dropConnection_run hdead
  have hframe : w'.sockets = w.sockets ∧ w'.nextSocket = w.nextSocket ∧ w'.handles = w.handles := by
    rcases hw' with ⟨log, rfl⟩ | ⟨key, -, rfl⟩ <;> exact ⟨rfl, rfl, rfl⟩
  rw [dropSocket, run_bind_ok hrun, dropPort]
  split_ifs <;> exact hframe

lemma dropSocket_shrinks : w.Shrinks (final ((dropSocket id a).run w)) := by
  obtain ⟨hsockets, hnext, hhandles⟩ := dropSocket_frame hdead
  exact ⟨hnext, hhandles, fun hj => hsockets ▸ hj⟩

lemma dropSocket_conn (hinv : w.ConnInv) (hforeign : w.Foreign a) :
    (final ((dropSocket id a).run w)).ConnInv := by
  obtain ⟨w', hrun, hw'⟩ := dropConnection_run hdead
  have hinv' : w'.ConnInv := by
    rcases hw' with ⟨log, rfl⟩ | ⟨key, hkey, rfl⟩
    · exact { hinv with }
    · exact hinv.setConnection (fun i b hi _ => hforeign hkey hi) none
  rw [dropSocket, run_bind_ok hrun, dropPort]
  split_ifs
  · exact { hinv' with }
  · exact hinv'

lemma dropSocket_port (hinv : w.PortInv) (hfree : w.FreePort a) :
    (final ((dropSocket id a).run w)).PortInv := by
  obtain ⟨w', hrun, hw'⟩ := dropConnection_run hdead
  have hinv' : w'.PortInv ∧ w'.sockets = w.sockets := by
    rcases hw' with ⟨log, rfl⟩ | ⟨key, hkey, rfl⟩ <;> exact ⟨{ hinv with }, rfl⟩
  rw [dropSocket, run_bind_ok hrun, dropPort]
  split_ifs with hreg
  · exact hinv'.1.setPort_none fun i b hi => hfree hreg (hinv'.2 ▸ hi)
  · exact hinv'.1

end

/-- A socket that is gone is followed by those in its lists, and then its destructor runs. -/
lemma dropLists_induct {depth : ℕ} {I : Net → Prop} {F : Net → TcpInner → Prop}
    (hmono : ∀ {w w' a}, F w a → w.Shrinks w' → F w' a)
    (hdrop : ∀ {w id a}, I w → F w a → w.sockets id = none → I (final ((dropSocket id a).run w)))
    (hrelease : ∀ c s, I s → I (final ((releaseDepth depth c).run s)) ∧
      s.Shrinks (final ((releaseDepth depth c).run s)))
    (hI : I (w.kill id)) (hF : F (w.kill id) a) :
    let w' := final (((a.pending ++ a.backlog).forM (releaseDepth depth) >>= fun _ =>
      dropSocket id a).run (w.kill id))
    I w' ∧ (w.kill id).Shrinks w' := by
  have hlists : Comp.Triple (fun s => I s ∧ (w.kill id).Shrinks s)
      ((a.pending ++ a.backlog).forM (releaseDepth depth))
      (fun _ s => I s ∧ (w.kill id).Shrinks s) (fun s => I s ∧ (w.kill id).Shrinks s) :=
    .forM fun c _ => Comp.Triple.iff_final.mpr fun s hs =>
      ⟨(hrelease c s hs.1).1, hs.2.trans (hrelease c s hs.1).2⟩
  have hall := hlists.bind fun _ => Comp.Triple.iff_final.mpr fun s hs =>
    ⟨hdrop hs.1 (hmono hF hs.2) hs.2.dead_of_kill,
      hs.2.trans (dropSocket_shrinks hs.2.dead_of_kill)⟩
  exact hall.final ⟨hI, .refl _⟩

/-- What is kept by the end of sockets without references is kept by a release. Of a socket that is
gone `F` holds until its destructor runs. -/
lemma releaseDepth_induct (depth : ℕ) : ∀ {I : Net → Prop} {F : Net → TcpInner → Prop}
    (_ : ∀ {w w' a}, F w a → w.Shrinks w' → F w' a)
    (_ : ∀ {w id a}, I w → w.referenced id = false → w.sockets id = some a →
      I (w.kill id) ∧ F (w.kill id) a)
    (_ : ∀ {w id a}, I w → F w a → w.sockets id = none → I (final ((dropSocket id a).run w)))
    (id : ℕ) (w : Net), I w → I (final ((releaseDepth depth id).run w)) ∧
      w.Shrinks (final ((releaseDepth depth id).run w)) := by
  induction depth with
  | zero => exact fun _ _ _ _ w h => ⟨h, .refl w⟩
  | succ depth ih =>
    intro I F hmono hkill hdrop id w hI
    rcases run_releaseDepth_succ depth id w with ⟨-, hsame⟩ | ⟨a, hunref, ha, hrun⟩
    · rw [hsame]
      exact ⟨hI, .refl w⟩
    rw [hrun]
    obtain ⟨hI', hF⟩ := hkill hI hunref ha
    obtain ⟨hfinal, hshrinks⟩ := dropLists_induct (F := F) hmono hdrop
      (ih (F := F) hmono hkill hdrop) hI' hF
    exact ⟨hfinal, (shrinks_kill w id).trans hshrinks⟩

lemma releaseDepth_shrinks (depth id : ℕ) (w : Net) :
    w.Shrinks (final ((releaseDepth depth id).run w)) :=
  (releaseDepth_induct depth (I := fun _ => True) (fun _ _ => trivial)
    (fun _ _ _ => ⟨trivial, trivial⟩) (fun _ _ _ => trivial) id w trivial).2

lemma releaseDepth_conn (depth id : ℕ) (hinv : w.ConnInv) :
    (final ((releaseDepth depth id).run w)).ConnInv :=
  (releaseDepth_induct depth (F := Net.Foreign) Net.Foreign.shrinks
    (fun hinv _ ha => ⟨hinv.kill _, hinv.foreign_kill ha⟩)
    (fun hinv hforeign hdead => dropSocket_conn hdead hinv hforeign) id w hinv).1

/-- Nobody else needs the port of a socket that is not held by the user: it has none. -/
lemma Net.PortInv.sparePort (hinv : w.PortInv) (hunref : w.referenced id = false) :
    w.SparePort id := by
  intro a j b ha hreg
  rw [referenced, contains_iff_mem.mpr (hinv.held ha hreg)] at hunref
  cases hunref

lemma releaseDepth_port (depth id : ℕ) (hinv : w.PortInv) :
    (final ((releaseDepth depth id).run w)).PortInv :=
  (releaseDepth_induct depth (F := Net.FreePort) Net.FreePort.shrinks
    (fun {w _ _} hinv hunref ha =>
      ⟨hinv.kill ha (hinv.sparePort hunref) w.handles fun _ hi _ => hi,
        (hinv.sparePort hunref).freePort ha⟩)
    (fun hinv hfree hdead => dropSocket_port hdead hinv hfree) id w hinv).1

/-- The sockets that are pending are referenced, so that they are not released. -/
lemma releaseDepth_pend (depth id : ℕ) (hfresh : ∀ i, w.nextSocket ≤ i → w.sockets i = none)
    (hpend : w.PendInv) : (final ((releaseDepth depth id).run w)).PendInv := by
  refine (releaseDepth_induct depth (I := fun w =>
    (∀ i, w.nextSocket ≤ i → w.sockets i = none) ∧ w.PendInv) (fun _ _ => trivial) ?_ ?_ id w
      ⟨hfresh, hpend⟩).1.2
  · intro w id a ⟨hfresh, hpend⟩ hunref ha
    refine ⟨⟨fun i hi => ?_, fun l li c hl hc => ?_⟩, trivial⟩
    · cases hsock : (w.kill id).sockets i with
      | none => rfl
      | some b => cases (hfresh i hi).symm.trans (sockets_kill hsock).2
    · have hli := (sockets_kill hl).2
      obtain ⟨hstate, ci, hci, hrest⟩ := hpend hli hc
      have hne : c ≠ id := by
        rintro rfl
        rw [referenced_of_queued hfresh hli (mem_append_left _ hc)] at hunref
        cases hunref
      exact ⟨hstate, ci, (update_of_ne hne ..).trans hci, hrest⟩
  · intro w id a ⟨hfresh, hpend⟩ _ hdead
    obtain ⟨hsockets, hnext, -⟩ := dropSocket_frame hdead
    refine ⟨?_, hpend.of_sockets hsockets⟩
    rw [hsockets, hnext]
    exact hfresh

lemma Net.Inv.release (hinv : w.Inv ports strict) (id : ℕ) :
    (final ((release id).run w)).Inv ports strict :=
  ⟨releaseDepth_conn 2 id hinv.conn, fun hports => releaseDepth_port 2 id (hinv.port hports),
    fun hstrict => releaseDepth_pend 2 id hinv.conn.fresh (hinv.pend hstrict)⟩

end Zinnia.Tcp
