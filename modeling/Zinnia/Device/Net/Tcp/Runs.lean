import Zinnia.Device.Net.Tcp.Calls

/-!
# What the tables say after a run

Sockets are removed from the tables by their addresses, when they are closed and once more when they
are dropped. The tables are right as long as an address pair is not taken while an old socket still
has it.
-/

namespace Zinnia.Tcp

/-- A call of the user, a packet, or a change of what is below TCP. -/
inductive Event where
  | socket
  | bind (id : ℕ) (endpoint : Ipv4Endpoint)
  | listen (id : ℕ) (backlog : BitVec 32)
  | accept (id : ℕ)
  | connect (id : ℕ) (endpoint : Ipv4Endpoint)
  | sendmsg (id : ℕ) (data : List (BitVec 8))
  | recvmsg (id len : ℕ) (peek : Bool)
  | shutdown (id : ℕ) (how : BitVec 32)
  | close (id : ℕ)
  | packet (interface : Interface) (seg : Segment)
  | environment (interfaces : List Interface) (link : Interface → Packet → Option Errno)
      (noMemory : Bool)

/-- The state after an event. -/
def Net.does (w : Net) : Event → Net
  | .socket => Comp.final (socket.run w)
  | .bind id endpoint => Comp.final ((bind id endpoint).run w)
  | .listen id backlog => Comp.final ((listen id backlog).run w)
  | .accept id => Comp.final ((accept id).run w)
  | .connect id endpoint => Comp.final ((connect id endpoint).run w)
  | .sendmsg id data => Comp.final ((sendmsg id data).run w)
  | .recvmsg id len peek => Comp.final ((recvmsg id len peek).run w)
  | .shutdown id how => Comp.final ((shutdown id how).run w)
  | .close id => Comp.final ((close id).run w)
  | .packet interface seg => Comp.final ((processPacket interface seg).run w)
  | .environment interfaces link noMemory =>
    { w with interfaces := interfaces, link := link, noMemory := noMemory }

/-- The machine before the first socket is made. -/
def boot (interfaces : List Interface) (link : Interface → Packet → Option Errno)
    (noMemory : Bool) : Net where
  sockets := fun _ => none
  nextSocket := 0
  handles := []
  connections := fun _ => none
  ports := fun _ => none
  closing := []
  nextEphemeral := 0
  nextIsn := 0x12340000
  interfaces := interfaces
  link := link
  noMemory := noMemory
  sent := []

namespace Event

/-- The user has a handle of the socket of a call. -/
def Legal (w : Net) : Event → Prop
  | .bind id _ | .listen id _ | .accept id | .connect id _ | .sendmsg id _ | .recvmsg id _ _
  | .shutdown id _ | .close id => id ∈ w.handles
  | .socket | .packet _ _ | .environment _ _ _ => True

/-- No socket gets the addresses that another one still has. -/
def Fresh (w : Net) : Event → Prop
  | .connect id endpoint => w.Clear id endpoint
  | .packet interface seg => seg.has flagSyn →
    w.connection ⟨seg.destination, seg.source⟩ = none → ∀ j b, w.sockets j = some b →
      b.key ≠ some ⟨⟨interface.ip, seg.destination.port⟩, seg.source⟩
  | _ => True

/-- The holder of a port is closed after the other sockets that are bound to it. -/
def KeepsPorts (w : Net) : Event → Prop
  | .close id => w.SparePort id
  | _ => True

/-- A handshake is not reset, and there is memory when it is completed. -/
def KeepsHandshakes (w : Net) : Event → Prop
  | .packet _ seg => ∀ id inner, w.connection ⟨seg.destination, seg.source⟩ = some id →
    w.sockets id = some inner →
      (seg.has flagRst → inner.state ≠ .listen ∧ inner.state ≠ .synReceived) ∧
        (inner.state = .synReceived → w.noMemory = false)
  | _ => True

end Event

/-- The states that are reached by events with `guard`. -/
inductive Net.Reaches (guard : Net → Event → Prop) : Net → Prop where
  | start (interfaces : List Interface) (link : Interface → Packet → Option Errno)
      (noMemory : Bool) : Reaches guard (boot interfaces link noMemory)
  | step {w : Net} {e : Event} (h : Reaches guard w) (hlegal : e.Legal w) (hguard : guard w e) :
      Reaches guard (w.does e)

variable {w : Net} {id : ℕ} {inner : TcpInner} {ports strict : Prop} {guard : Net → Event → Prop}

lemma boot_inv (interfaces : List Interface) (link : Interface → Packet → Option Errno)
    (noMemory : Bool) : (boot interfaces link noMemory).Inv ports strict where
  conn :=
    { fresh := fun _ _ => rfl
      closing := rfl
      unique := fun hi => nomatch hi
      registered := fun hi => nomatch hi
      peerBound := fun hi => nomatch hi
      handlesLt := fun hi => nomatch hi
      queuedLt := fun hi => nomatch hi }
  port _ :=
    { owned := fun hi => nomatch hi
      holder := fun hi => nomatch hi
      reserved := fun hi => nomatch hi
      child := fun hi => nomatch hi
      queued := fun hi => nomatch hi
      portsLt := fun hi => nomatch hi
      held := fun hi => nomatch hi }
  pend _ := fun _ _ _ hi => nomatch hi

/-- One event keeps the tables. -/
lemma does_inv {e : Event} (hinv : w.Inv ports strict) (hlegal : e.Legal w) (hfresh : e.Fresh w)
    (hports : ports → e.KeepsPorts w) (hpend : strict → e.KeepsHandshakes w) :
    (w.does e).Inv ports strict := by
  cases e with
  | socket => exact socket_inv hinv
  | bind id endpoint => exact bind_inv hinv hlegal endpoint
  | listen id backlog => exact listen_inv hinv hlegal backlog
  | accept id => exact accept_inv hinv id
  | connect id endpoint => exact connect_inv hinv hlegal hfresh
  | sendmsg id data => exact sendmsg_inv hinv id data
  | recvmsg id len peek => exact recvmsg_inv hinv id len peek
  | shutdown id how => exact shutdown_inv hinv id how
  | close id => exact close_inv hinv hports
  | packet interface seg => exact processPacket_inv hinv interface seg hfresh hpend
  | environment interfaces link noMemory => exact hinv.of_eq rfl rfl rfl rfl rfl rfl

lemma Net.Reaches.inv (hfresh : ∀ w e, guard w e → e.Fresh w)
    (hports : ∀ w e, guard w e → ports → e.KeepsPorts w)
    (hpend : ∀ w e, guard w e → strict → e.KeepsHandshakes w) (h : w.Reaches guard) :
    w.Inv ports strict := by
  induction h with
  | start interfaces link noMemory => exact boot_inv interfaces link noMemory
  | step _ hlegal hguard ih =>
    exact does_inv ih hlegal (hfresh _ _ hguard) (hports _ _ hguard) (hpend _ _ hguard)

lemma connection_of_registered {key : TcpKey} (h : w.sockets id = some inner)
    (hreg : w.connections key = some id) : w.connection key = some id := by
  rw [Net.connection, hreg, Option.bind_some, Net.upgrade, h]
  rfl

/-- A socket with a connection is found by its addresses, and the port of a bound socket is
taken. -/
def Net.Found (w : Net) : Prop :=
  ∀ ⦃id inner⦄, w.sockets id = some inner →
    (inner.state.Connected → ∃ key, inner.key = some key ∧ w.connection key = some id) ∧
      (inner.bound → (w.port inner.localEnd.port).isSome)

theorem Net.Reaches.found (h : w.Reaches fun w e => e.Fresh w ∧ e.KeepsPorts w) : w.Found := by
  have hinv : w.Inv True False :=
    h.inv (fun _ _ hguard => hguard.1) (fun _ _ hguard _ => hguard.2) fun _ _ _ hfalse =>
      hfalse.elim
  intro id inner hsock
  refine ⟨fun hconn => ?_, fun hbound => (hinv.port trivial).reserved hsock hbound⟩
  obtain ⟨key, hkey, hreg⟩ := hinv.conn.registered hsock hconn
  exact ⟨key, hkey, connection_of_registered hsock hreg⟩

/-- The interface of a machine. -/
def wire : Interface := ⟨0x0A000001, false⟩

/-- A machine with a socket that listens. -/
def listening : Net :=
  (((boot [wire] (fun _ _ => none) false).does .socket).does (.bind 0 ⟨0, 80⟩)).does (.listen 0 5)

/-- The handshake of a peer, of which the socket in the machine gets the number `iss`. -/
def handshake (w : Net) (iss : BitVec 32) : Net :=
  (w.does (.packet wire (fromPeer 1000 0 flagSyn []))).does
    (.packet wire (fromPeer 1001 (iss + 1) flagAck []))

lemma fresh_listening (seg : Segment) : (Event.packet wire seg).Fresh listening := by
  intro _ _ j b hb hkey
  cases j with
  | zero =>
    cases hb
    cases hkey
  | succ j => cases hb

lemma reaches_listening
    (hguard : ∀ w, guard w .socket ∧ guard w (.bind 0 ⟨0, 80⟩) ∧ guard w (.listen 0 5)) :
    listening.Reaches guard := by
  have hsocket : ((boot [wire] (fun _ _ => none) false).does .socket).Reaches guard :=
    .step (.start [wire] (fun _ _ => none) false) trivial (hguard _).1
  have hbind : (((boot [wire] (fun _ _ => none) false).does .socket).does
      (.bind 0 ⟨0, 80⟩)).Reaches guard := .step hsocket List.mem_cons_self (hguard _).2.1
  exact .step hbind (show 0 ∈ _ by decide) (hguard _).2.2

/-- The child of a listening socket is found after its handshake. -/
theorem found_handshake : (handshake listening 0x12340000).Found := by
  exact Net.Reaches.found (.step (.step (reaches_listening fun _ =>
    ⟨⟨trivial, trivial⟩, ⟨trivial, trivial⟩, ⟨trivial, trivial⟩⟩) trivial
      ⟨fresh_listening _, trivial⟩) trivial ⟨fun hsyn => absurd hsyn (by decide), trivial⟩)

/-- A connection is accepted and reset. The peer connects again from the same port, and then the old
socket is closed. -/
def reused : Net :=
  ((((handshake listening 0x12340000).does (.accept 0)).does
    (.packet wire (fromPeer 1001 0 flagRst []))) |> (handshake · 0x1234FA00)).does (.close 1)

lemma reaches_handshake {w : Net} (h : w.Reaches guard) (iss : BitVec 32)
    (hguard : ∀ w seg, guard w (.packet wire seg)) : (handshake w iss).Reaches guard :=
  .step (.step h trivial (hguard _ _)) trivial (hguard _ _)

/-- The destructor of the old socket has removed the new one from the table. -/
theorem not_found_reused : reused.Reaches (fun _ _ => True) ∧ ¬ reused.Found := by
  constructor
  · have hfirst : (handshake listening 0x12340000).Reaches fun _ _ => True :=
      reaches_handshake (reaches_listening fun _ => ⟨trivial, trivial, trivial⟩) 0x12340000
        fun _ _ => trivial
    have haccept : ((handshake listening 0x12340000).does (.accept 0)).Reaches fun _ _ => True :=
      .step hfirst (show 0 ∈ _ by decide +kernel) trivial
    have hreset : (((handshake listening 0x12340000).does (.accept 0)).does
        (.packet wire (fromPeer 1001 0 flagRst []))).Reaches fun _ _ => True :=
      .step haccept trivial trivial
    exact .step (reaches_handshake hreset _ fun _ _ => trivial) (show 1 ∈ _ by decide +kernel)
      trivial
  · intro hfound
    have hstate : (reused.sockets 2).map (·.state) = some .established := by decide +kernel
    have hkey : (reused.sockets 2).bind (·.key) =
        some ⟨⟨0x0A000001, 80⟩, ⟨0x0A000002, 40000⟩⟩ := by decide +kernel
    have hnone : reused.connection ⟨⟨0x0A000001, 80⟩, ⟨0x0A000002, 40000⟩⟩ = none := by
      decide +kernel
    obtain ⟨inner, hsock, hest⟩ := Option.map_eq_some_iff.mp hstate
    rw [hsock] at hkey
    obtain ⟨key, hkey', hreg⟩ := (hfound hsock).1 (by rw [hest]; decide)
    cases hkey'.symm.trans hkey
    cases hnone.symm.trans hreg

/-- The pending sockets of a listening one are SYN-RECEIVED, and found by their addresses. -/
def Net.Pending (w : Net) : Prop :=
  ∀ ⦃l li c⦄, w.sockets l = some li → c ∈ li.pending →
    ∃ ci key, w.sockets c = some ci ∧ ci.state = .synReceived ∧ ci.key = some key ∧
      w.connection key = some c

theorem Net.Reaches.pending (h : w.Reaches fun w e => e.Fresh w ∧ e.KeepsHandshakes w) :
    w.Pending := by
  have hinv : w.Inv False True :=
    h.inv (fun _ _ hguard => hguard.1) (fun _ _ _ hfalse => hfalse.elim) fun _ _ hguard _ =>
      hguard.2
  intro l li c hl hc
  obtain ⟨-, ci, hci, hsyn, -⟩ := hinv.pend trivial hl hc
  obtain ⟨key, hkey, hreg⟩ := hinv.conn.registered hci (by rw [hsyn]; decide)
  exact ⟨ci, key, hci, hsyn, hkey, connection_of_registered hci hreg⟩

/-- A listening socket has the child of a SYN in its list. -/
theorem pending_listening :
    (listening.does (.packet wire (fromPeer 1000 0 flagSyn []))).Pending := by
  refine Net.Reaches.pending (.step (reaches_listening fun _ =>
    ⟨⟨trivial, trivial⟩, ⟨trivial, trivial⟩, ⟨trivial, trivial⟩⟩) trivial
      ⟨fresh_listening _, fun id inner hconn => ?_⟩)
  cases hconn

/-- A reset child stays in the list of the listening socket. -/
theorem not_pending_listening :
    ∃ w, w = (listening.does (.packet wire (fromPeer 1000 0 flagSyn []))).does
        (.packet wire (fromPeer 1001 0 flagRst [])) ∧
      w.Reaches (fun _ _ => True) ∧ ¬ w.Pending := by
  refine ⟨_, rfl, .step (.step (reaches_listening fun _ => ⟨trivial, trivial, trivial⟩) trivial
    trivial) trivial trivial, fun hpending => ?_⟩
  set w := (listening.does (.packet wire (fromPeer 1000 0 flagSyn []))).does
    (.packet wire (fromPeer 1001 0 flagRst [])) with hw
  have hlist : (w.sockets 0).map (·.pending) = some [1] := by decide +kernel
  have hstate : (w.sockets 1).map (·.state) = some .closed := by decide +kernel
  obtain ⟨li, hl, hpend⟩ := Option.map_eq_some_iff.mp hlist
  obtain ⟨ci, key, hci, hsyn, -⟩ := hpending hl (hpend ▸ List.mem_singleton_self 1)
  rw [hci] at hstate
  cases hsyn.symm.trans (Option.some.inj hstate)

end Zinnia.Tcp
