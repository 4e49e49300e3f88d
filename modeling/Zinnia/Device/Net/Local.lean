import Zinnia.Util
import Zinnia.Util.Ring

/-!
# Local sockets

One end of a connection sends into the receive buffer of the other one. The files and credentials
that go with the bytes are kept in sections beside the buffer: the first section belongs to the
first bytes of the buffer.
-/

namespace Zinnia.Local

/-- `BUFFER_SIZE`. -/
abbrev bufferSize : ℕ := 0x4000

/-- `SOCK_DGRAM`. -/
def sockDgram : BitVec 32 := 1

/-- `SOCK_STREAM`. -/
def sockStream : BitVec 32 := 4

/-- `SOCK_SEQPACKET`. -/
def sockSeqpacket : BitVec 32 := 8

structure Ucred where
  pid : BitVec 32
  uid : BitVec 32
  gid : BitVec 32
deriving DecidableEq

structure InflightSection (File : Type) where
  files : List File
  cred : Option Ucred
  bytes : ℕ
deriving DecidableEq

inductive State where
  | unconnected
  | bound
  | listening
  | connected
deriving DecidableEq

/-- `LocalInner`, as far as messages are concerned. -/
structure LocalInner (File : Type) where
  state : State
  sockType : BitVec 32
  recvBuf : RingBuffer bufferSize
  inflight : List (InflightSection File)
  shutdownRead : Bool
  shutdownWrite : Bool
  peerClosed : Bool
  passcred : Bool

variable {File : Type}

/-- The socket that `make_socket` makes. -/
def LocalInner.new (state : State) (sockType : BitVec 32) : LocalInner File where
  state := state
  sockType := sockType
  recvBuf := RingBuffer.new bufferSize
  inflight := []
  shutdownRead := false
  shutdownWrite := false
  peerClosed := false
  passcred := false

/-! ### Sending -/

/-- A section without files and credentials. -/
def InflightSection.Plain (sec : InflightSection File) : Prop :=
  sec.files.isEmpty ∧ sec.cred.isNone

instance (sec : InflightSection File) : Decidable sec.Plain := by
  unfold InflightSection.Plain
  infer_instance

/-- `push_inflight`. -/
def pushInflight (inflight : List (InflightSection File)) (files : List File)
    (cred : Option Ucred) (bytes : ℕ) : List (InflightSection File) :=
  if files.isEmpty ∧ cred.isNone then
    if bytes = 0 then inflight
    else
      match inflight.getLast? with
      | some back =>
        if back.Plain then inflight.dropLast ++ [{ back with bytes := back.bytes + bytes }]
        else inflight ++ [⟨[], none, bytes⟩]
      | none => inflight ++ [⟨[], none, bytes⟩]
  else
    match inflight.getLast? with
    | some back =>
      if back.bytes = 0 ∧ back.Plain then
        inflight.dropLast ++ [{ back with files := files, cred := cred, bytes := bytes }]
      else inflight ++ [⟨files, cred, bytes⟩]
    | none => inflight ++ [⟨files, cred, bytes⟩]

/-- `LocalSocket::sendmsg` from `self` to `peer`, without the wait: the result, and the receiver
after the call. The control buffer has a length, and `rights` are the files of its SCM_RIGHTS
messages if it has any. -/
def sendmsg (self peer : LocalInner File) (data : List (BitVec 8)) (control : ℕ)
    (rights : Option (List File)) (cred : Ucred) : Except Errno ℕ × LocalInner File :=
  let senderCred := if peer.passcred then some cred else none
  if data = [] ∧ control = 0 then (.ok 0, peer)
  else if self.state ≠ .connected then (.error .enotconn, peer)
  else if self.shutdownWrite then (.error .epipe, peer)
  else if peer.peerClosed ∨ peer.shutdownRead then (.error .epipe, peer)
  else if data = [] then
    match rights with
    | some files =>
      (.ok 0, { peer with inflight := pushInflight peer.inflight files senderCred 0 })
    | none => (.ok 0, peer)
  else
    let chunk := min data.length bufferSize
    let take := min chunk peer.recvBuf.getAvailableLen
    let stored := peer.recvBuf.write (data.take take)
    if 0 < take ∧ 0 < stored.2 then
      (.ok stored.2, { peer with
        recvBuf := stored.1
        inflight := pushInflight peer.inflight (rights.getD []) senderCred stored.2 })
    else (.error .eagain, peer)

/-! ### Receiving -/

/-- `cmsg_align`. -/
def cmsgAlign (x : ℕ) : ℕ := (x + 7) / 8 * 8

/-- The aligned length of a `cmsghdr`. -/
def headerAligned : ℕ := cmsgAlign 12

/-- What a receive hands over. -/
structure Received (File : Type) where
  data : List (BitVec 8)
  files : List File
  cred : Option Ucred
  control : ℕ
  truncated : Bool
deriving DecidableEq

/-- The credentials in the control buffer: whether they fit, and the offset behind them. -/
def installCred (control : ℕ) : Option Ucred → Option Ucred × ℕ
  | some cred => if headerAligned + 12 ≤ control then (some cred, cmsgAlign (headerAligned + 12))
    else (none, 0)
  | none => (none, 0)

/-- The number of descriptors for which the control buffer has room behind an offset. -/
def fdSlots (control off : ℕ) : ℕ := (control - off - headerAligned) / 4

/-- `LocalSocket::install_cmsg`, for a table with a number of free descriptors. -/
def installCmsg (data : List (BitVec 8)) (control : ℕ) (files : List File) (cred : Option Ucred)
    (free : ℕ) : Received File :=
  if control = 0 ∨ files.isEmpty ∧ cred.isNone then ⟨data, [], none, 0, false⟩
  else
    let stored := installCred control cred
    let off := stored.2
    let lost := cred.isSome ∧ stored.1.isNone
    if files ≠ [] ∧ control - off ≤ headerAligned then ⟨data, [], stored.1, off, true⟩
    else
      let n := min files.length (fdSlots control off)
      let installed := min n free
      if installed = 0 then ⟨data, [], stored.1, off, lost ∨ installed < files.length⟩
      else ⟨data, files.take installed, stored.1, off + cmsgAlign (headerAligned + installed * 4),
        lost ∨ installed < files.length⟩

/-- The files and credentials of the first section, if there is a control buffer. -/
def takeAncillary (control : ℕ) : List (InflightSection File) →
    (List File × Option Ucred) × List (InflightSection File)
  | [] => (([], none), [])
  | front :: rest =>
    if control ≠ 0 then ((front.files, front.cred), { front with files := [], cred := none } :: rest)
    else (([], none), front :: rest)

/-- The sections after bytes were read. -/
def consume (control n : ℕ) : List (InflightSection File) → List (InflightSection File)
  | [] => []
  | front :: rest =>
    let front := { front with
      cred := if control = 0 then none else front.cred
      bytes := front.bytes - n }
    if front.bytes = 0 ∧ rest ≠ [] then rest else front :: rest

/-- The number of bytes that a receive may take: it stays in the first section. -/
def recvcount (self : LocalInner File) (len : ℕ) : ℕ :=
  let count := min len self.recvBuf.getDataLen
  match self.inflight.head? with
  | some front => if 0 < front.bytes then min count front.bytes else count
  | none => count

/-- `LocalSocket::recvmsg`, without the wait: the result, and the socket after the call. -/
def recvmsg (self : LocalInner File) (len control : ℕ) (peek : Bool) (free : ℕ) :
    Except Errno (Received File) × LocalInner File :=
  if len = 0 ∧ control = 0 then (.ok ⟨[], [], none, 0, false⟩, self)
  else if self.state ≠ .connected then (.error .enotconn, self)
  else if 0 < self.recvBuf.getDataLen then
    let data := self.recvBuf.peek (min (recvcount self len) bufferSize)
    let taken := takeAncillary control self.inflight
    let self := { self with inflight := taken.2 }
    let self := if 0 < data.length ∧ !peek then
        { self with
          recvBuf := (self.recvBuf.read data.length).2
          inflight := consume control data.length self.inflight }
      else self
    (.ok (installCmsg data control taken.1.1 taken.1.2 free), self)
  else if self.shutdownRead ∨ self.peerClosed then
    let taken := takeAncillary control self.inflight
    (.ok (installCmsg [] control taken.1.1 taken.1.2 free), { self with inflight := taken.2 })
  else (.error .eagain, self)

end Zinnia.Local
