import Zinnia.Lib.Comp
import Zinnia.Util
import Zinnia.Util.Ring

/-!
# TCP sockets

Sockets are numbered. A number stands for a reference to a socket, and a weak reference is a number
of which `Net.upgrade` tells whether the socket is still there. The tables of connections and of
ports have weak references; a socket is kept by the handles of the user and by the lists of
listening sockets, and `release` runs its destructor when nothing else holds it.
-/

namespace Zinnia

open Function

/-- `Ipv4Endpoint`. -/
structure Ipv4Endpoint where
  addr : BitVec 32
  port : BitVec 16
deriving DecidableEq

/-- The parts of a `ManagedInterface` that TCP reads. -/
structure Interface where
  ip : BitVec 32
  loopback : Bool
deriving DecidableEq

namespace Tcp

/-- `MAX_TCP_PAYLOAD_LEN`. -/
def maxTcpPayloadLen : ℕ := 1500 - 20 - 20

/-- `TCP_RECV_BUFFER_SIZE`. -/
abbrev tcpRecvBufferSize : ℕ := 65536

instance : NeZero tcpRecvBufferSize := ⟨by decide⟩

/-- `FIN`. -/
def flagFin : BitVec 16 := 0x01

/-- `SYN`. -/
def flagSyn : BitVec 16 := 0x02

/-- `RST`. -/
def flagRst : BitVec 16 := 0x04

/-- `ACK`. -/
def flagAck : BitVec 16 := 0x10

structure TcpKey where
  localEnd : Ipv4Endpoint
  remote : Ipv4Endpoint
deriving DecidableEq

inductive TcpState where
  | closed
  | bound
  | listen
  | synSent
  | synReceived
  | established
  | finWait1
  | finWait2
  | closeWait
  | closing
  | lastAck
  | timeWait
deriving DecidableEq

/-- The state after the FIN of the peer. -/
def TcpState.afterFin : TcpState → TcpState
  | .established => .closeWait
  | .finWait1 => .closing
  | .finWait2 => .timeWait
  | other => other

/-- The state after the own FIN. -/
def TcpState.afterSendFin : TcpState → TcpState
  | .established => .finWait1
  | .closeWait => .lastAck
  | other => other

/-- `TcpSegment`. -/
structure Segment where
  source : Ipv4Endpoint
  destination : Ipv4Endpoint
  seq : BitVec 32
  ack : BitVec 32
  flags : BitVec 16
  window : BitVec 16
  options : List (BitVec 8)
  payload : List (BitVec 8)
deriving DecidableEq

namespace Segment

def has (seg : Segment) (flag : BitVec 16) : Bool := seg.flags &&& flag ≠ 0

/-- The payload's length as a sequence number. -/
def payloadLen (seg : Segment) : BitVec 32 := BitVec.ofNat 32 seg.payload.length

/-- `TcpSegment::len`. -/
def len (seg : Segment) : BitVec 32 :=
  seg.payloadLen + (if seg.has flagSyn then 1 else 0) + if seg.has flagFin then 1 else 0

end Segment

/-- `TcpInner`. -/
structure TcpInner where
  localEnd : Ipv4Endpoint
  peer : Option Ipv4Endpoint
  bound : Bool
  portRegistered : Bool
  state : TcpState
  pending : List ℕ
  backlog : List ℕ
  backlogLimit : ℕ
  recvBuf : RingBuffer tcpRecvBufferSize
  shutdownRead : Bool
  shutdownWrite : Bool
  peerClosed : Bool
  error : Option Errno
  listener : Option ℕ
  iss : BitVec 32
  sndUna : BitVec 32
  sndNxt : BitVec 32
  rcvNxt : BitVec 32
  peerMss : ℕ
  peerWindow : ℕ
  lastAdvWindow : BitVec 16

/-- `seq_between`. -/
def seqBetween (seq low high : BitVec 32) : Bool := seq - low ≤ high - low

/-- `parse_mss`, from a position on. -/
def parseMssFrom (options : List (BitVec 8)) : ℕ → ℕ → ℕ
  | 0, _ => maxTcpPayloadLen
  | fuel + 1, i =>
    if i < options.length then
      let kind := options.getD i 0
      let len := options.getD (i + 1) 0
      if kind = 0 then maxTcpPayloadLen
      else if kind = 1 then parseMssFrom options fuel (i + 1)
      else if kind = 2 ∧ i + 4 ≤ options.length ∧ len = 4 then
        let mss := (options.getD (i + 2) 0).toNat * 256 + (options.getD (i + 3) 0).toNat
        min (max mss 1) maxTcpPayloadLen
      else if options.length ≤ i + 1 ∨ len < 2 then maxTcpPayloadLen
      else parseMssFrom options fuel (i + len.toNat)
    else maxTcpPayloadLen

/-- `parse_mss`. Every round moves on by a byte at least. -/
def parseMss (options : List (BitVec 8)) : ℕ := parseMssFrom options options.length 0

/-! ### What a segment does under the lock of its socket -/

/-- What is left to do after the lock is released. -/
structure Effects where
  ackAfter : Bool := false
  finishAccept : Bool := false
  unregister : Option TcpKey := none
  dropCloseRef : Bool := false

namespace TcpInner

variable (inner : TcpInner) (seg : Segment)

def key : Option TcpKey := inner.peer.map fun peer => ⟨inner.localEnd, peer⟩

/-- `TcpInner::recv_window`. -/
def recvWindow : BitVec 16 := BitVec.ofNat 16 (min inner.recvBuf.getAvailableLen 65535)

/-- `TcpInner::advertise_window`, whose result is the window before. -/
def advertiseWindow : TcpInner := { inner with lastAdvWindow := inner.recvWindow }

/-- `TcpInner::send_window_available`. -/
def sendWindowAvailable : ℕ := inner.peerWindow - (inner.sndNxt - inner.sndUna).toNat

/-- An acknowledgement. -/
def handleAck : TcpInner × Effects :=
  if seg.has flagAck then
    let inner := { inner with peerWindow := seg.window.toNat }
    if seqBetween seg.ack inner.sndUna inner.sndNxt then
      let inner := { inner with sndUna := seg.ack }
      match inner.state with
      | .finWait1 =>
        if seg.ack = inner.sndNxt then
          ({ inner with state := if inner.peerClosed then .timeWait else .finWait2 }, {})
        else (inner, {})
      | .closing =>
        if seg.ack = inner.sndNxt then ({ inner with state := .timeWait }, {}) else (inner, {})
      | .lastAck =>
        if seg.ack = inner.sndNxt then
          ({ inner with state := .closed },
            { unregister := inner.key, dropCloseRef := true })
        else (inner, {})
      | _ => (inner, {})
    else (inner, {})
  else (inner, {})

/-- The data of a segment. -/
def handleData (effects : Effects) : TcpInner × Effects :=
  if seg.seq = inner.rcvNxt ∧ seg.payload ≠ [] then
    let writable := min seg.payload.length inner.recvBuf.getAvailableLen
    if 0 < writable then
      ({ inner with
          recvBuf := (inner.recvBuf.write (seg.payload.take writable)).1
          rcvNxt := inner.rcvNxt + BitVec.ofNat 32 writable },
        { effects with ackAfter := true })
    else (inner, effects)
  else (inner, effects)

/-- The FIN of a segment. -/
def handleFin (effects : Effects) : TcpInner × Effects :=
  if seg.seq + seg.payloadLen = inner.rcvNxt ∧ seg.has flagFin then
    let inner := { inner with
      rcvNxt := inner.rcvNxt + 1
      peerClosed := true
      shutdownRead := true
      state := inner.state.afterFin }
    if inner.state = .timeWait then
      (inner, { effects with ackAfter := true, unregister := inner.key, dropCloseRef := true })
    else (inner, { effects with ackAfter := true })
  else (inner, effects)

/-- The part of `process_segment` under the lock, for a segment without RST. -/
def handle : TcpInner × Effects :=
  match inner.state with
  | .synSent =>
    if seg.has flagSyn ∧ seg.has flagAck ∧ seg.ack = inner.sndNxt then
      ({ inner with
          rcvNxt := seg.seq + 1
          sndUna := seg.ack
          peerMss := parseMss seg.options
          peerWindow := seg.window.toNat
          state := .established },
        { ackAfter := true })
    else (inner, {})
  | .synReceived =>
    if seg.has flagAck ∧ seg.ack = inner.sndNxt then
      ({ inner with
          sndUna := seg.ack
          peerWindow := seg.window.toNat
          state := .established },
        { finishAccept := true })
    else (inner, {})
  | .established | .finWait1 | .finWait2 | .closeWait | .closing | .lastAck | .timeWait =>
    let acked := inner.handleAck seg
    let stored := acked.1.handleData seg acked.2
    stored.1.handleFin seg stored.2
  | .closed | .bound | .listen => (inner, {})

/-- The part of `close_with_error` under the lock. -/
def closeWithError (errno : Errno) : TcpInner :=
  { inner with
    state := .closed
    error := some errno
    peerClosed := true
    recvBuf := inner.recvBuf.clear }

/-- The part of `send_fin` under the lock. -/
def numberFin : TcpInner :=
  { inner with
    shutdownWrite := true
    sndNxt := inner.sndNxt + 1
    state := inner.state.afterSendFin
    lastAdvWindow := inner.recvWindow }

/-- The first part of `sendmsg` under the lock: the length of the next chunk. -/
def checkSend (remaining : ℕ) : Except Errno ℕ :=
  if inner.state ≠ .established ∧ inner.state ≠ .closeWait then .error .enotconn
  else if inner.shutdownWrite then .error .epipe
  else if 0 < inner.sendWindowAvailable then
    .ok (min remaining (min inner.peerMss inner.sendWindowAvailable))
  else .error .eagain

/-- The second part of `sendmsg` under the lock: a chunk gets its sequence numbers. -/
def numberData (len : ℕ) : TcpInner :=
  { inner with
    sndNxt := inner.sndNxt + BitVec.ofNat 32 len
    lastAdvWindow := inner.recvWindow }

/-- The decision of `recvmsg` to tell the peer that its window has grown. -/
def wantUpdate : Bool :=
  (inner.state = .established ∨ inner.state = .finWait1 ∨ inner.state = .finWait2) ∧
    min inner.peerMss (tcpRecvBufferSize / 2) ≤ inner.recvWindow.toNat - inner.lastAdvWindow.toNat

end TcpInner

/-- The socket that `make_socket` makes. -/
def TcpInner.new (state : TcpState) : TcpInner where
  localEnd := ⟨0, 0⟩
  peer := none
  bound := false
  portRegistered := false
  state := state
  pending := []
  backlog := []
  backlogLimit := 1
  recvBuf := RingBuffer.new tcpRecvBufferSize
  shutdownRead := false
  shutdownWrite := false
  peerClosed := false
  error := none
  listener := none
  iss := 0
  sndUna := 0
  sndNxt := 0
  rcvNxt := 0
  peerMss := maxTcpPayloadLen
  peerWindow := 0
  lastAdvWindow := 0

/-! ### The sockets and the tables -/

/-- A segment that is sent. -/
structure Packet where
  localEnd : Ipv4Endpoint
  peer : Ipv4Endpoint
  seq : BitVec 32
  ack : BitVec 32
  flags : BitVec 16
  window : BitVec 16
  payload : List (BitVec 8)
deriving DecidableEq

/-- The sockets, the static tables, the handles of the user, and what the calls below TCP do:
`link` is the error of `ipv4::send_packet` if it has one. -/
structure Net where
  sockets : ℕ → Option TcpInner
  nextSocket : ℕ
  handles : List ℕ
  connections : TcpKey → Option ℕ
  ports : BitVec 16 → Option ℕ
  closing : List ℕ
  nextEphemeral : BitVec 16
  nextIsn : BitVec 32
  interfaces : List Interface
  link : Interface → Packet → Option Errno
  noMemory : Bool
  sent : List Packet

/-- Computations on the sockets. -/
abbrev TcpM := EStateM Errno Net

namespace Net

variable (w : Net)

/-- `Weak::upgrade`. -/
def upgrade (id : ℕ) : Option ℕ := if (w.sockets id).isSome then some id else none

/-- The socket of a key in the table of connections, if it is still there. -/
def connection (key : TcpKey) : Option ℕ := (w.connections key).bind w.upgrade

/-- The socket of a port in the table of ports, if it is still there. -/
def port (port : BitVec 16) : Option ℕ := (w.ports port).bind w.upgrade

/-- Whether a listening socket has a socket in one of its lists. -/
def queues (l id : ℕ) : Bool :=
  match w.sockets l with
  | some inner => inner.pending.contains id || inner.backlog.contains id
  | none => false

/-- Whether a reference to a socket is held. -/
def referenced (id : ℕ) : Bool :=
  w.handles.contains id || w.closing.contains id ||
    (List.range w.nextSocket).any fun l => w.queues l id

/-- `interface_for_source`. -/
def interfaceForSource (source : BitVec 32) : Option Interface :=
  w.interfaces.find? fun interface => source = 0 ∨ interface.ip = source

/-- `interface_for_dest`. -/
def interfaceForDest (dest : BitVec 32) : Option Interface :=
  if dest.extractLsb' 24 8 = 127 then w.interfaces.find? (·.loopback)
  else w.interfaces.find? (!·.loopback)

def setSocket (id : ℕ) (inner : TcpInner) : Net :=
  { w with sockets := update w.sockets id (some inner) }

def setConnection (key : TcpKey) (id : Option ℕ) : Net :=
  { w with connections := update w.connections key id }

def setPort (port : BitVec 16) (id : Option ℕ) : Net :=
  { w with ports := update w.ports port id }

end Net

/-- A call whose error is a value. -/
def attempt {α : Type} (c : TcpM α) : TcpM (Option Errno) := fun w =>
  match c w with
  | .ok _ w' => .ok none w'
  | .error e w' => .ok (some e) w'

/-- The lock of a socket. A reference keeps its socket, so the error is not met. -/
def lock (id : ℕ) : TcpM TcpInner := do
  match (← get).sockets id with
  | some inner => pure inner
  | none => throw .ebadf

def store (id : ℕ) (inner : TcpInner) : TcpM Unit := modify (·.setSocket id inner)

/-- `register_connection`. -/
def registerConnection (key : TcpKey) (id : ℕ) : TcpM Unit :=
  modify (·.setConnection key (some id))

/-- `unregister_connection`, for a socket that has a peer. -/
def unregisterConnection : Option TcpKey → TcpM Unit
  | some key => modify (·.setConnection key none)
  | none => pure ()

/-- `retain_closing_ref`. -/
def retainClosingRef (id : ℕ) : TcpM Unit :=
  modify fun w => { w with closing := if w.closing.contains id then w.closing else w.closing ++ [id] }

/-- `remove_closing_ref`. -/
def removeClosingRef (id : ℕ) : TcpM Unit :=
  modify fun w => { w with closing := w.closing.filter (· ≠ id) }

/-- `next_isn`. -/
def nextIsn : TcpM (BitVec 32) := do
  let w ← get
  set { w with nextIsn := w.nextIsn + 64000 }
  pure w.nextIsn

/-- `make_socket`. -/
def makeSocket (inner : TcpInner) : TcpM ℕ := do
  let w ← get
  if w.noMemory then throw .enomem
  else
    set { w.setSocket w.nextSocket inner with nextSocket := w.nextSocket + 1 }
    pure w.nextSocket

/-! ### Sending -/

/-- `send_segment_raw`. -/
def sendSegmentRaw (interface : Interface) (packet : Packet) : TcpM Unit := do
  if maxTcpPayloadLen < packet.payload.length then throw .emsgsize
  else
    let w ← get
    match w.link interface packet with
    | some e => throw e
    | none => set { w with sent := w.sent ++ [packet] }

/-- `send_segment`. -/
def sendSegment (packet : Packet) : TcpM Unit := do
  match (← get).interfaceForSource packet.localEnd.addr with
  | none => throw .enetunreach
  | some interface => sendSegmentRaw interface packet

/-- The next segment of a socket. -/
def TcpInner.packet (inner : TcpInner) (peer : Ipv4Endpoint) (flags : BitVec 16)
    (payload : List (BitVec 8)) : Packet :=
  ⟨inner.localEnd, peer, inner.sndNxt, inner.rcvNxt, flags, inner.recvWindow, payload⟩

/-- `TcpSocket::send_ack`. -/
def sendAck (id : ℕ) : TcpM Unit := do
  let inner ← lock id
  match inner.peer with
  | none => throw .enotconn
  | some peer =>
    store id inner.advertiseWindow
    sendSegment (inner.packet peer flagAck [])

/-- `TcpSocket::send_fin`. -/
def sendFin (id : ℕ) : TcpM Unit := do
  let inner ← lock id
  if inner.shutdownWrite then pure ()
  else
    match inner.peer with
    | none => throw .enotconn
    | some peer =>
      store id inner.numberFin
      sendSegment (inner.packet peer (flagAck ||| flagFin) [])

/-- `send_reset`. -/
def sendReset (interface : Interface) (seg : Segment) : TcpM Unit :=
  if seg.has flagAck then
    sendSegmentRaw interface ⟨seg.destination, seg.source, seg.ack, 0, flagRst, 0, []⟩
  else
    sendSegmentRaw interface
      ⟨seg.destination, seg.source, 0, seg.seq + seg.len, flagRst ||| flagAck, 0, []⟩

/-! ### The destructor -/

/-- `self_ref.upgrade()` of the destructor, which runs while the count of references is zero: the
reference that is to be retained until the connection is closed. -/
def retainSelf (id : ℕ) : TcpM Unit := do
  match (← get).upgrade id with
  | some id => retainClosingRef id
  | none => pure ()

/-- The FIN of a connection that is dropped. -/
def dropFin (id : ℕ) (inner : TcpInner) : TcpM Unit := do
  retainSelf id
  match inner.peer with
  | some peer =>
    let cleared := { inner with recvBuf := inner.recvBuf.clear }
    let _ ← attempt (sendSegment (cleared.packet peer (flagAck ||| flagFin) []))
  | none => pure ()

/-- How a socket that is dropped takes leave of its peer. -/
def dropConnection (id : ℕ) (inner : TcpInner) : TcpM Unit :=
  if (inner.state = .established ∨ inner.state = .closeWait) ∧ ¬ inner.shutdownWrite then
    dropFin id inner
  else unregisterConnection inner.key

/-- The port of a socket that is dropped. -/
def dropPort (inner : TcpInner) : TcpM Unit :=
  if inner.portRegistered then modify (·.setPort inner.localEnd.port none) else pure ()

/-- `TcpSocket::drop`, after the references of the socket are gone and its lists are empty. -/
def dropSocket (id : ℕ) (inner : TcpInner) : TcpM Unit := do
  dropConnection id inner
  dropPort inner

/-- Drop a reference: the destructor runs if it was the last one. The sockets that a listening
socket holds hold none themselves, so that a depth of two is enough. -/
def releaseDepth : ℕ → ℕ → TcpM Unit
  | 0, _ => pure ()
  | depth + 1, id => do
    let w ← get
    if w.referenced id then pure ()
    else
      match w.sockets id with
      | none => pure ()
      | some inner =>
        set { w with sockets := update w.sockets id none }
        (inner.pending ++ inner.backlog).forM (releaseDepth depth)
        dropSocket id inner

def release (id : ℕ) : TcpM Unit := releaseDepth 2 id

/-- Drop a reference at the end of a function, however it ends. -/
def releasing {α : Type} (id : ℕ) (c : TcpM α) : TcpM α := fun w =>
  match c w with
  | .ok a w' => (do release id; pure a : TcpM α) w'
  | .error e w' => (do release id; throw e : TcpM α) w'

/-! ### Segments that arrive -/

/-- `TcpSocket::close_with_error`. -/
def closeWithError (id : ℕ) (errno : Errno) : TcpM Unit := do
  let inner ← lock id
  store id (inner.closeWithError errno)
  unregisterConnection inner.key

/-- `TcpSocket::finish_accept`. -/
def finishAccept (id : ℕ) : TcpM Unit := do
  let inner ← lock id
  let w ← get
  match inner.listener.bind w.upgrade with
  | none => pure ()
  | some l =>
    -- `Socket::new`
    if w.noMemory then throw .enomem
    else
      let listener ← lock l
      if listener.state ≠ .listen then pure ()
      else
        let listener := { listener with pending := listener.pending.filter (· ≠ id) }
        store l listener
        if listener.backlogLimit ≤ listener.backlog.length then closeWithError id .econnaborted
        else store l { listener with backlog := listener.backlog ++ [id] }

/-- `TcpSocket::process_segment`. -/
def processSegment (id : ℕ) (seg : Segment) : TcpM Bool := do
  if seg.has flagRst then
    closeWithError id .econnreset
    pure true
  else
    let inner ← lock id
    let handled := inner.handle seg
    store id handled.1
    if handled.2.finishAccept then finishAccept id else pure ()
    if handled.2.ackAfter then sendAck id else pure ()
    unregisterConnection handled.2.unregister
    if handled.2.dropCloseRef then removeClosingRef id else pure ()
    pure true

/-- The child that a SYN makes. -/
def TcpInner.child (interface : Interface) (seg : Segment) (listener : ℕ) (iss : BitVec 32) :
    TcpInner :=
  { TcpInner.new .synReceived with
    localEnd := ⟨interface.ip, seg.destination.port⟩
    peer := some seg.source
    bound := true
    listener := some listener
    iss := iss
    sndUna := iss
    sndNxt := iss + 1
    rcvNxt := seg.seq + 1
    peerMss := parseMss seg.options
    peerWindow := seg.window.toNat
    lastAdvWindow := 65535 }

/-- The end of `process_packet`: a child of a listening socket. -/
def makeChild (interface : Interface) (seg : Segment) (l : ℕ) : TcpM Bool := do
  let child ← makeSocket (TcpInner.new .synReceived)
  let iss ← nextIsn
  let inner := TcpInner.child interface seg l iss
  store child inner
  let listener ← lock l
  store l { listener with pending := listener.pending ++ [child] }
  registerConnection ⟨inner.localEnd, seg.source⟩ child
  let sent ← attempt (sendSegmentRaw interface
    ⟨inner.localEnd, seg.source, iss, seg.seq + 1, flagSyn ||| flagAck, 65535, []⟩)
  match sent with
  | none => pure true
  | some e =>
    unregisterConnection (some ⟨inner.localEnd, seg.source⟩)
    let listener ← lock l
    store l { listener with pending := listener.pending.filter (· ≠ child) }
    release child
    throw e

/-- A SYN for which there is no connection. -/
def processSyn (interface : Interface) (seg : Segment) : TcpM Bool := do
  let w ← get
  match w.port seg.destination.port with
  | none =>
    modify (·.setPort seg.destination.port none)
    sendReset interface seg
    pure false
  | some l =>
    let inner ← lock l
    if inner.state ≠ .listen ∨
        inner.localEnd.addr ≠ 0 ∧ inner.localEnd.addr ≠ interface.ip ∨
        inner.backlogLimit ≤ inner.backlog.length + inner.pending.length then
      pure false
    else makeChild interface seg l

/-- `process_packet`, for a packet with a correct checksum. -/
def processPacket (interface : Interface) (seg : Segment) : TcpM Bool := do
  let key : TcpKey := ⟨seg.destination, seg.source⟩
  match (← get).connection key with
  | some id => releasing id (processSegment id seg)
  | none =>
    modify (·.setConnection key none)
    if seg.has flagRst then pure false
    else if !seg.has flagSyn || seg.has flagAck then
      sendReset interface seg
      pure false
    else processSyn interface seg

/-! ### Calls of the user -/

/-- `TcpSocket::new`, and its handle. -/
def socket : TcpM ℕ := do
  let id ← makeSocket (TcpInner.new .closed)
  modify fun w => { w with handles := id :: w.handles }
  pure id

/-- `TcpSocket::bind_endpoint`, for a port that is not zero. -/
def bindPort (id : ℕ) (endpoint : Ipv4Endpoint) : TcpM Unit := do
  let w ← get
  if endpoint.addr ≠ 0 ∧ w.interfaceForSource endpoint.addr = none then throw .eaddrnotavail
  else if (w.port endpoint.port).isSome then throw .eaddrinuse
  else
    modify (·.setPort endpoint.port none)
    let inner ← lock id
    if inner.bound ∨ inner.state ≠ .closed then throw .einval
    else
      store id { inner with
        localEnd := endpoint
        bound := true
        portRegistered := true
        state := .bound }
      modify (·.setPort endpoint.port (some id))

/-- The rounds of `autobind_addr`. -/
def autobindLoop (id : ℕ) (addr : BitVec 32) : ℕ → TcpM Unit
  | 0 => throw .eaddrinuse
  | rounds + 1 => do
    let w ← get
    set { w with nextEphemeral := w.nextEphemeral + 1 }
    match ← attempt (bindPort id ⟨addr, 49152 + w.nextEphemeral % 16384⟩) with
    | none => pure ()
    | some _ => autobindLoop id addr rounds

/-- `TcpSocket::autobind_addr`. -/
def autobindAddr (id : ℕ) (addr : BitVec 32) : TcpM Unit := do
  let inner ← lock id
  if inner.bound then pure () else autobindLoop id addr 16384

/-- `TcpSocket::bind_endpoint`. -/
def bind (id : ℕ) (endpoint : Ipv4Endpoint) : TcpM Unit :=
  if endpoint.port = 0 then autobindAddr id endpoint.addr else bindPort id endpoint

/-- `TcpSocket::listen`. -/
def listen (id : ℕ) (backlog : BitVec 32) : TcpM Unit := do
  autobindAddr id 0
  let inner ← lock id
  if inner.state = .bound ∨ inner.state = .listen then
    store id { inner with
      state := .listen
      -- a negative backlog is a huge one
      backlogLimit := max (backlog.signExtend 64).toNat 1 }
  else throw .einval

/-- `TcpSocket::accept`, without the wait. -/
def accept (id : ℕ) : TcpM ℕ := do
  let inner ← lock id
  if inner.state ≠ .listen then throw .einval
  else
    match inner.backlog with
    | [] => throw .eagain
    | child :: backlog =>
      store id { inner with backlog := backlog }
      modify fun w => { w with handles := child :: w.handles }
      pure child

/-- The end of `connect_common`, without the wait for the answer to the SYN. -/
def sendSyn (id : ℕ) (interface : Interface) (localEnd endpoint : Ipv4Endpoint) : TcpM Unit := do
  let iss ← nextIsn
  let inner ← lock id
  let inner := { inner with
    localEnd := localEnd
    peer := some endpoint
    state := .synSent
    iss := iss
    sndUna := iss
    sndNxt := iss + 1
    rcvNxt := 0 }
  store id inner
  registerConnection ⟨localEnd, endpoint⟩ id
  store id inner.advertiseWindow
  let sent ← attempt (sendSegmentRaw interface
    ⟨localEnd, endpoint, iss, 0, flagSyn, inner.recvWindow, []⟩)
  match sent with
  | none => pure ()
  | some e =>
    unregisterConnection (some ⟨localEnd, endpoint⟩)
    let inner ← lock id
    store id { inner with state := .bound }
    throw e

/-- `TcpSocket::connect_common`. -/
def connect (id : ℕ) (endpoint : Ipv4Endpoint) : TcpM Unit := do
  if endpoint.addr = 0 ∨ endpoint.port = 0 then throw .einval
  else
    let inner ← lock id
    match inner.state with
    | .established => throw .eisconn
    | .synSent => throw .ealready
    | .closed | .bound =>
      autobindAddr id 0
      let inner ← lock id
      let addr := inner.localEnd.addr
      let w ← get
      match if addr = 0 then w.interfaceForDest endpoint.addr else w.interfaceForSource addr with
      | none => throw .enetunreach
      | some interface =>
        sendSyn id interface ⟨if addr = 0 then interface.ip else addr, inner.localEnd.port⟩ endpoint
    | _ => throw .einval

/-- The rounds of `sendmsg`; each one sends a byte at least. It does not wait. -/
def sendLoop (id : ℕ) : ℕ → List (BitVec 8) → ℕ → TcpM ℕ
  | 0, _, done => pure done
  | rounds + 1, data, done => do
    if data = [] then pure done
    else
      let inner ← lock id
      match inner.checkSend data.length with
      | .error e => if 0 < done then pure done else throw e
      | .ok len =>
        match inner.peer with
        | none => throw .enotconn
        | some peer =>
          store id (inner.numberData len)
          sendSegment (inner.packet peer flagAck (data.take len))
          sendLoop id rounds (data.drop len) (done + len)

/-- `TcpSocket::sendmsg`. -/
def sendmsg (id : ℕ) (data : List (BitVec 8)) : TcpM ℕ := sendLoop id data.length data 0

/-- `TcpSocket::recvmsg` into a buffer of a length, without the wait. -/
def recvmsg (id len : ℕ) (peek : Bool) : TcpM (List (BitVec 8)) := do
  let inner ← lock id
  if inner.state = .listen ∨ inner.state = .synSent then throw .enotconn
  else if 0 < inner.recvBuf.getDataLen then
    let n := min len inner.recvBuf.getDataLen
    if peek then pure (inner.recvBuf.peek n)
    else
      let inner' := { inner with recvBuf := (inner.recvBuf.read n).2 }
      store id inner'
      if 0 < n ∧ inner'.wantUpdate then
        let _ ← attempt (sendAck id)
      pure (inner.recvBuf.read n).1
  else if inner.peerClosed ∨ inner.shutdownRead ∨ inner.state = .closed ∨
      inner.state = .timeWait then pure []
  else throw .eagain

/-- `TcpSocket::shutdown`. -/
def shutdown (id : ℕ) (how : BitVec 32) : TcpM Unit := do
  let inner ← lock id
  if how &&& 1 ≠ 0 then store id { inner with shutdownRead := true, peerClosed := true }
  else pure ()
  if how &&& 2 ≠ 0 then sendFin id else pure ()

/-- The last handle of the user to a socket goes away. -/
def close (id : ℕ) : TcpM Unit := do
  modify fun w => { w with handles := w.handles.filter (· ≠ id) }
  release id

end Tcp

end Zinnia
