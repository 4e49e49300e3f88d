import Zinnia.Device.Net.Tcp.Sockets

/-!
# Runs of a machine

The calls of the user keep the tables, if no socket gets the addresses of another one and a port is
given up only after its last socket.
-/

namespace Zinnia.Tcp

open Function Comp List Net

variable {w w' : Net} {id : ℕ} {inner inner' : TcpInner} {ports strict : Prop}
  {endpoint : Ipv4Endpoint}

/-! ### Ports -/

/-- A socket after it is bound. -/
def TcpInner.bindTo (inner : TcpInner) (endpoint : Ipv4Endpoint) : TcpInner :=
  { inner with localEnd := endpoint, bound := true, portRegistered := true, state := .bound }

def Net.bindTo (w : Net) (id : ℕ) (inner : TcpInner) (endpoint : Ipv4Endpoint) : Net :=
  (w.setSocket id (inner.bindTo endpoint)).setPort endpoint.port (some id)

/-- A socket is bound, or the table loses at most an entry without a socket. -/
lemma bindPort_cases (w : Net) (id : ℕ) (endpoint : Ipv4Endpoint) :
    (∃ e, (bindPort id endpoint).run w = .error e w) ∨
    ¬ (w.port endpoint.port).isSome ∧
      ((∃ e, (bindPort id endpoint).run w = .error e (w.setPort endpoint.port none)) ∨
        ∃ inner, w.sockets id = some inner ∧ inner.bound = false ∧ inner.state = .closed ∧
          (bindPort id endpoint).run w = .ok () (w.bindTo id inner endpoint)) := by
  rw [bindPort, run_get_bind]
  split_ifs with haddr hport
  · exact .inl ⟨_, rfl⟩
  · exact .inl ⟨_, rfl⟩
  refine .inr ⟨hport, ?_⟩
  rw [run_modify_bind]
  cases hsock : w.sockets id with
  | none =>
    rw [run_bind_error (run_lock_none (w := w.setPort endpoint.port none) hsock)]
    exact .inl ⟨_, rfl⟩
  | some inner =>
    rw [run_bind_ok (run_lock (w := w.setPort endpoint.port none) hsock)]
    split_ifs with hcheck
    · exact .inl ⟨_, rfl⟩
    · rw [not_or, Bool.not_eq_true, not_not] at hcheck
      refine .inr ⟨inner, rfl, hcheck.1, hcheck.2, ?_⟩
      change EStateM.Result.ok () (setPort (setSocket (w.setPort endpoint.port none) id
        (inner.bindTo endpoint)) endpoint.port (some id)) = _
      rw [bindTo, setPort, setPort, setPort, setSocket, setSocket,
        update_idem]

lemma Net.PortInv.bindTo (hinv : w.PortInv) (h : w.sockets id = some inner)
    (hbound : inner.bound = false) (hp : ¬ (w.port endpoint.port).isSome) (hlt : id < w.nextSocket)
    (hid : id ∈ w.handles) : (w.bindTo id inner endpoint).PortInv where
  owned hi hreg := by
    rcases sockets_setSocket_cases hi with ⟨rfl, rfl⟩ | ⟨-, hi⟩
    · exact ⟨rfl, update_self ..⟩
    · obtain ⟨hbound', hports⟩ := hinv.owned hi hreg
      exact ⟨hbound', (update_of_ne (hinv.not_bound hp _ _ hi hbound') ..).trans hports⟩
  holder {p j b} hports hj := by
    rcases eq_or_ne p endpoint.port with rfl | hpe
    · cases (update_self ..).symm.trans hports
      cases (sockets_setSocket w id _).symm.trans hj
      exact ⟨rfl, rfl⟩
    · have hports' := (update_of_ne hpe ..).symm.trans hports
      rcases sockets_setSocket_cases hj with ⟨rfl, -⟩ | ⟨-, hj⟩
      · -- a socket that is not bound has no port yet
        have hown := (hinv.owned h (hinv.holder hports' h).1).1
        rw [hbound] at hown
        cases hown
      · exact hinv.holder hports' hj
  reserved hi hbound' := by
    rcases sockets_setSocket_cases hi with ⟨rfl, rfl⟩ | ⟨-, hi⟩
    · exact Tcp.port_isSome.mpr ⟨_, _, update_self .., sockets_setSocket w _ _⟩
    · obtain ⟨j, b, hports, hb⟩ := Tcp.port_isSome.mp (hinv.reserved hi hbound')
      obtain ⟨b', hb'⟩ := alive_setSocket hb id (inner.bindTo endpoint)
      exact Tcp.port_isSome.mpr ⟨j, b',
        (update_of_ne (hinv.not_bound hp _ _ hi hbound') ..).trans hports, hb'⟩
  child hc hlistener := by
    rcases sockets_setSocket_cases hc with ⟨rfl, rfl⟩ | ⟨-, hc⟩
    · have hown := (hinv.child h hlistener).1
      rw [hbound] at hown
      cases hown
    · exact hinv.child hc hlistener
  queued {l li c ci} hl hc hci := by
    have hall : c ∈ li.pending ++ li.backlog → ∀ ci, w.sockets c = some ci → ci.listener ≠ none :=
      setSocket_elim hl (fun hc _ => hinv.queued h hc) fun hl hc _ => hinv.queued hl hc
    rcases sockets_setSocket_cases hci with ⟨rfl, rfl⟩ | ⟨-, hci⟩
    · exact hall hc inner h
    · exact hall hc ci hci
  portsLt {p j} hports := by
    rcases eq_or_ne p endpoint.port with rfl | hpe
    · cases (update_self ..).symm.trans hports
      exact hlt
    · exact hinv.portsLt ((update_of_ne hpe ..).symm.trans hports)
  held hi := setSocket_elim hi (fun _ => hid) hinv.held

lemma Net.Inv.bindTo (hinv : w.Inv ports strict) (h : w.sockets id = some inner)
    (hbound : inner.bound = false) (hstate : inner.state = .closed)
    (hp : ¬ (w.port endpoint.port).isSome) (hid : id ∈ w.handles) :
    (w.bindTo id inner endpoint).Inv ports strict := by
  have hpeer : inner.peer = none := by
    by_contra hne
    rw [hinv.conn.peerBound h hne] at hbound
    cases hbound
  have hkey : (inner.bindTo endpoint).key = none := by
    rw [TcpInner.key, TcpInner.bindTo, hpeer]
    rfl
  refine ⟨?_, fun hports => ?_, fun hstrict => ?_⟩
  · have hset : (w.setSocket id (inner.bindTo endpoint)).ConnInv :=
      hinv.conn.setSocket (hinv.conn.lt h)
        (fun c hc => hinv.conn.queuedLt h (show c ∈ inner.pending ++ inner.backlog from hc))
        (fun _ => rfl) (fun hkey' => by cases hkey.symm.trans hkey')
        fun hconn => absurd rfl hconn.2.1
    exact { hset with }
  · exact (hinv.port hports).bindTo h hbound hp (hinv.conn.handlesLt hid) hid
  · have hpend := hinv.pend hstrict
    have hset : (w.setSocket id (inner.bindTo endpoint)).PendInv := by
      refine hpend.setSocket h (fun c hc => ?_) fun hl hid => ?_
      · cases hstate.symm.trans (hpend h hc).1
      · obtain ⟨-, ci, hci, hsyn, -⟩ := hpend hl hid
        cases h.symm.trans hci
        cases hstate.symm.trans hsyn
    exact hset.of_sockets rfl

/-- The addresses of a connection of the socket to the endpoint are those of no other socket: its
port is another one, or is not free yet. -/
def Net.Clear (w : Net) (id : ℕ) (endpoint : Ipv4Endpoint) : Prop :=
  ∀ ⦃a j b⦄, w.sockets id = some a → j ≠ id → w.sockets j = some b → b.peer = some endpoint →
    if a.bound then b.localEnd.port ≠ a.localEnd.port else (w.port b.localEnd.port).isSome

/-- A socket that may be connected to the endpoint. -/
structure Net.CanConnect (w : Net) (id : ℕ) (endpoint : Ipv4Endpoint) : Prop where
  idle : ∀ {a}, w.sockets id = some a → a.state = .closed ∨ a.state = .bound
  clear : w.Clear id endpoint

/-- What `autobind_addr` keeps for a call on a socket, which may be to connect it. -/
structure Net.Ready (ports strict : Prop) (id : ℕ) (goal : Option Ipv4Endpoint) (w : Net) :
    Prop where
  inv : w.Inv ports strict
  handle : id ∈ w.handles
  connect : ∀ endpoint ∈ goal, w.CanConnect id endpoint

section Ready

variable {goal : Option Ipv4Endpoint} {endpoint : Ipv4Endpoint}

lemma Net.Ready.setPort_none (h : w.Ready ports strict id goal) {p : BitVec 16}
    (hp : ¬ (w.port p).isSome) : (w.setPort p none).Ready ports strict id goal := by
  refine ⟨h.inv.setPort_none hp, h.handle, fun endpoint hgoal => ?_⟩
  obtain ⟨hidle, hclear⟩ := h.connect endpoint hgoal
  refine ⟨hidle, fun a j b ha hne hb hpeer => ?_⟩
  have hport := hclear ha hne hb hpeer
  split_ifs at hport ⊢ with hbound
  · exact hport
  · obtain ⟨k, c, hk, hc⟩ := port_isSome.mp hport
    have hpe : b.localEnd.port ≠ p := by
      rintro rfl
      exact hp hport
    exact port_isSome.mpr ⟨k, c, (update_of_ne hpe ..).trans hk, hc⟩

lemma Net.Ready.bindTo (h : w.Ready ports strict id goal) (hsock : w.sockets id = some inner)
    (hbound : inner.bound = false) (hstate : inner.state = .closed)
    (hp : ¬ (w.port endpoint.port).isSome) :
    (w.bindTo id inner endpoint).Ready ports strict id goal := by
  refine ⟨h.inv.bindTo hsock hbound hstate hp h.handle, h.handle, fun peer hgoal => ⟨?_, ?_⟩⟩
  · intro a ha
    cases (sockets_setSocket w id _).symm.trans ha
    exact .inr rfl
  · intro a j b ha hne hb hpeer
    cases (sockets_setSocket w id _).symm.trans ha
    have hb' : w.sockets j = some b := (update_of_ne hne ..).symm.trans hb
    have hport := (h.connect peer hgoal).clear hsock hne hb' hpeer
    rw [hbound] at hport
    intro heq
    exact hp (heq ▸ hport)

/-- The socket is bound. -/
def Net.IsBound (w : Net) (id : ℕ) : Prop := ∃ a, w.sockets id = some a ∧ a.bound

lemma bindPort_ready (id : ℕ) (goal : Option Ipv4Endpoint) (endpoint : Ipv4Endpoint) :
    Comp.Triple (Net.Ready ports strict id goal) (bindPort id endpoint)
      (fun _ w => w.Ready ports strict id goal ∧ w.IsBound id) (Net.Ready ports strict id goal) := by
  intro w hw
  rcases bindPort_cases w id endpoint with ⟨e, hrun⟩ | ⟨hp, ⟨e, hrun⟩ | ⟨inner, h, hbound, hstate,
    hrun⟩⟩
  · rw [hrun]
    exact hw
  · rw [hrun]
    exact hw.setPort_none hp
  · rw [hrun]
    exact ⟨hw.bindTo h hbound hstate hp, _, sockets_setSocket w id _, rfl⟩

lemma attempt_triple {α : Type} {P Q E : Net → Prop} {c : TcpM α}
    (h : Comp.Triple P c (fun _ => Q) E) {F : Net → Prop} :
    Comp.Triple P (attempt c) (fun r w => match r with
      | none => Q w
      | some _ => E w) F := by
  intro w hw
  have hc := h w hw
  cases hrun : c.run w with
  | ok a w' =>
    rw [hrun] at hc
    rw [run_attempt_ok hrun]
    exact hc
  | error e w' =>
    rw [hrun] at hc
    rw [run_attempt_error hrun]
    exact hc

lemma lock_triple (P : Net → Prop) (id : ℕ) :
    Comp.Triple P (lock id) (fun a w => P w ∧ w.sockets id = some a) P := by
  intro w hw
  cases hsock : w.sockets id with
  | none =>
    rw [run_lock_none hsock]
    exact hw
  | some a =>
    rw [run_lock hsock]
    exact ⟨hw, hsock⟩

lemma autobindLoop_ready (id : ℕ) (goal : Option Ipv4Endpoint) (addr : BitVec 32) (rounds : ℕ) :
    Comp.Triple (Net.Ready ports strict id goal) (autobindLoop id addr rounds)
      (fun _ w => w.Ready ports strict id goal ∧ w.IsBound id) (Net.Ready ports strict id goal) := by
  induction rounds with
  | zero => exact .throw fun _ hw => hw
  | succ rounds ih =>
    refine .get_bind fun w hw => ?_
    have hnext : { w with nextEphemeral := w.nextEphemeral + 1 }.Ready ports strict id goal :=
      ⟨hw.inv.of_eq rfl rfl rfl rfl rfl rfl, hw.handle, fun endpoint hgoal =>
        ⟨(hw.connect endpoint hgoal).idle, (hw.connect endpoint hgoal).clear⟩⟩
    refine .bind (.set fun _ _ => hnext) fun _ =>
      .bind (attempt_triple (bindPort_ready id goal _)) fun r => ?_
    cases r with
    | none => exact .pure fun _ hs => hs
    | some e => exact ih

lemma autobindAddr_ready (id : ℕ) (goal : Option Ipv4Endpoint) (addr : BitVec 32) :
    Comp.Triple (Net.Ready ports strict id goal) (autobindAddr id addr)
      (fun _ w => w.Ready ports strict id goal ∧ w.IsBound id) (Net.Ready ports strict id goal) := by
  refine .bind (lock_triple _ id) fun a => ?_
  by_cases hbound : a.bound
  · rw [if_pos hbound]
    exact .pure fun w hw => ⟨hw.1, a, hw.2, hbound⟩
  · rw [if_neg hbound]
    exact (autobindLoop_ready id goal addr _).conseq (fun _ hw => hw.1) (fun _ _ hw => hw)
      fun _ hw => hw

end Ready

lemma bind_inv (hinv : w.Inv ports strict) (hid : id ∈ w.handles) (endpoint : Ipv4Endpoint) :
    (Comp.final ((bind id endpoint).run w)).Inv ports strict := by
  have hready : w.Ready ports strict id none := ⟨hinv, hid, nofun⟩
  have htriple : Triple (Net.Ready ports strict id none) (bind id endpoint)
      (fun _ w => w.Inv ports strict) (Net.Inv ports strict) := by
    rw [bind]
    split_ifs
    · exact (autobindAddr_ready id none _).conseq (fun _ hw => hw) (fun _ _ hw => hw.1.inv)
        fun _ hw => hw.inv
    · exact (bindPort_ready id none _).conseq (fun _ hw => hw) (fun _ _ hw => hw.1.inv)
        fun _ hw => hw.inv
  exact htriple.final hready

lemma listen_inv (hinv : w.Inv ports strict) (hid : id ∈ w.handles) (backlog : BitVec 32) :
    (Comp.final ((listen id backlog).run w)).Inv ports strict := by
  have hready : w.Ready ports strict id none := ⟨hinv, hid, nofun⟩
  have htriple : Triple (Net.Ready ports strict id none) (listen id backlog)
      (fun _ w => w.Inv ports strict) (Net.Inv ports strict) := by
    refine .bind ((autobindAddr_ready id none 0).conseq (fun _ hw => hw) (fun _ _ hw => hw.1.inv)
      fun _ hw => hw.inv) fun _ => .bind (lock_triple _ id) fun a => ?_
    refine .ite (fun hstate => .modify fun w hw => ?_) fun _ => .throw fun _ hw => hw.1
    refine hw.1.setSocket hw.2 (show a.SameLinks { a with
      state := .listen, backlogLimit := max (backlog.signExtend 64).toNat 1 } from
        ⟨rfl, rfl, rfl, rfl, rfl, rfl, rfl⟩) ⟨?_, fun _ => ⟨fun _ => rfl, ?_⟩⟩ w.sent
    · exact fun hconn => absurd rfl hconn.2.2.1
    · rcases hstate with hstate | hstate <;> rw [hstate] <;> exact nofun
  exact htriple.final hready

/-! ### Handles -/

section

variable (hinv : w.Inv ports strict)

include hinv

/-- The user gets a handle of a socket. -/
lemma Net.Inv.addHandle {c : ℕ} (hlt : c < w.nextSocket) :
    { w with handles := c :: w.handles }.Inv ports strict where
  conn := { hinv.conn with
    handlesLt := fun {i} hi => by
      rcases mem_cons.mp hi with rfl | hi
      · exact hlt
      · exact hinv.conn.handlesLt hi }
  port hports := { hinv.port hports with
    held := fun hi hreg => mem_cons_of_mem _ ((hinv.port hports).held hi hreg) }
  pend := hinv.pend

lemma socket_inv : (Comp.final (socket.run w)).Inv ports strict := by
  have hmake := run_makeSocket (w := w) (TcpInner.new .closed)
  cases hmem : w.noMemory with
  | true =>
    rw [hmem] at hmake
    rw [socket, run_bind_error hmake]
    exact hinv
  | false =>
    rw [hmem] at hmake
    rw [socket, run_bind_ok hmake]
    refine (hinv.spawn ?_ fun _ hbound => absurd hbound Bool.false_ne_true).addHandle
      (Nat.lt_succ_self _)
    exact
      { lists := rfl
        portRegistered := rfl
        peerBound := fun hpeer => absurd rfl hpeer
        childBound := fun hlistener => absurd rfl hlistener
        foreign := fun _ _ _ hkey => nomatch hkey
        registered := fun hconn => absurd rfl hconn.1 }

lemma accept_inv (id : ℕ) : (Comp.final ((accept id).run w)).Inv ports strict := by
  have htriple : Triple (Net.Inv ports strict) (accept id) (fun _ => Net.Inv ports strict)
      (Net.Inv ports strict) := by
    refine .bind (lock_triple _ id) fun a => .ite (fun _ => .throw fun _ hw => hw.1) fun _ => ?_
    cases hbacklog : a.backlog with
    | nil => exact .throw fun _ hw => hw.1
    | cons child backlog =>
      intro w ⟨hw, ha⟩
      have hlists := hw.setLists ha (fun c hc => .inl hc)
        fun c hc => .inl (hbacklog ▸ mem_cons_of_mem _ hc)
      exact hlists.addHandle (hw.conn.queuedLt ha (mem_append_right _
        (hbacklog ▸ mem_cons_self)))
  exact htriple.final hinv

/-- The user gives up the last handle of a socket whose port is not needed by another one. -/
lemma close_inv (hspare : ports → w.SparePort id) :
    (Comp.final ((close id).run w)).Inv ports strict := by
  set w₁ : Net := { w with handles := w.handles.filter (· ≠ id) } with hw₁
  have hrun : (close id).run w = (release id).run w₁ := rfl
  have hnot : id ∉ w₁.handles := fun hmem => of_decide_eq_true (mem_filter.mp hmem).2 rfl
  have hmem : ∀ i ∈ w.handles, i ≠ id → i ∈ w₁.handles := fun i hi hne =>
    mem_filter.mpr ⟨hi, decide_eq_true hne⟩
  have hconn : w₁.ConnInv :=
    { hinv.conn with handlesLt := fun hi => hinv.conn.handlesLt (mem_of_mem_filter hi) }
  rw [hrun]
  refine ⟨releaseDepth_conn 2 id hconn, fun hports => ?_, fun hstrict =>
    releaseDepth_pend 2 id hconn.fresh (hinv.pend hstrict)⟩
  have hport := hinv.port hports
  rcases run_releaseDepth_succ 1 id w₁ with ⟨href, hsame⟩ | ⟨a, -, ha, hfinal⟩
  · rw [release, hsame]
    refine { hport with held := fun {i b} hb hreg => hmem i (hport.held hb hreg) ?_ }
    rintro rfl
    -- a socket that is still referenced is in a list, so that it has no port of its own
    rcases href with href | hnone
    · have hqueued : ∃ l li, w₁.sockets l = some li ∧ i ∈ li.pending ++ li.backlog := by
        by_contra hall
        rw [referenced_eq_false hnot hinv.conn.closing fun l li hl hi => hall ⟨l, li, hl, hi⟩]
          at href
        cases href
      obtain ⟨l, li, hl, hi⟩ := hqueued
      rw [(hport.child hb (hport.queued hl hi hb)).2] at hreg
      cases hreg
    · cases hb.symm.trans hnone
  · rw [release, hfinal]
    exact (dropLists_induct (F := FreePort) FreePort.shrinks
      (fun hs hfree hdead => dropSocket_port hdead hs hfree)
      (fun c s hs => ⟨releaseDepth_port 1 c hs, releaseDepth_shrinks 1 c s⟩)
      (hport.kill ha (hspare hports) _ hmem) ((hspare hports).freePort ha)).1

end

/-! ### Connections -/

lemma sendSegment_triple (packet : Packet) : Comp.Triple (Net.Inv ports strict)
    (sendSegment packet) (fun _ => Net.Inv ports strict) (Net.Inv ports strict) := by
  intro w hw
  rw [run_sendSegment]
  cases w.sendError packet with
  | some e => exact hw
  | none => exact hw.of_eq rfl rfl rfl rfl rfl rfl

/-- A socket after its SYN. -/
def TcpInner.synTo (inner : TcpInner) (localEnd endpoint : Ipv4Endpoint) (iss : BitVec 32) :
    TcpInner :=
  { inner with
    localEnd := localEnd
    peer := some endpoint
    state := .synSent
    iss := iss
    sndUna := iss
    sndNxt := iss + 1
    rcvNxt := 0
    lastAdvWindow := inner.recvWindow }

/-- The end of the call: the SYN, after which the socket is not connected if there was an error. -/
def trySyn (id : ℕ) (interface : Interface) (packet : Packet) (key : TcpKey) : TcpM Unit := do
  let sent ← attempt (sendSegmentRaw interface packet)
  match sent with
  | none => pure ()
  | some e =>
    unregisterConnection (some key)
    let inner ← lock id
    store id { inner with state := .bound }
    throw e

lemma trySyn_cases (h : w.sockets id = some inner) (interface : Interface) (packet : Packet)
    (key : TcpKey) :
    (∃ log, Comp.final ((trySyn id interface packet key).run w) = { w with sent := log }) ∨
      Comp.final ((trySyn id interface packet key).run w) =
        (w.setSocket id { inner with state := .bound }).setConnection key none := by
  have hsend := run_sendSegmentRaw (w := w) interface packet
  cases herror : w.rawError interface packet with
  | none =>
    rw [herror] at hsend
    left
    rw [trySyn, run_bind_ok (run_attempt_ok hsend)]
    exact ⟨_, rfl⟩
  | some e =>
    rw [herror] at hsend
    right
    rw [trySyn, run_bind_ok (run_attempt_error hsend), unregisterConnection, run_modify_bind,
      run_bind_ok (run_lock (w := w.setConnection key none) h)]
    rfl

lemma run_sendSyn (h : w.sockets id = some inner) (interface : Interface)
    (localEnd endpoint : Ipv4Endpoint) :
    ∃ packet, (sendSyn id interface localEnd endpoint).run w =
      (trySyn id interface packet ⟨localEnd, endpoint⟩).run
        { (w.setSocket id (inner.synTo localEnd endpoint w.nextIsn)).setConnection
          ⟨localEnd, endpoint⟩ (some id) with nextIsn := w.nextIsn + 64000 } := by
  set a := inner.synTo localEnd endpoint w.nextIsn
  set w₁ : Net := { w with nextIsn := w.nextIsn + 64000 }
  have hisn : nextIsn.run w = .ok w.nextIsn w₁ := rfl
  have hlock : (lock id).run w₁ = .ok inner w₁ := run_lock h
  have hstore : ∀ b, (store id b).run w₁ = .ok () (w₁.setSocket id b) := fun _ => rfl
  have hadv : ∀ b, (store id a).run ((w₁.setSocket id b).setConnection ⟨localEnd, endpoint⟩
      (some id)) = .ok () ((w₁.setSocket id a).setConnection ⟨localEnd, endpoint⟩ (some id)) := by
    intro b
    change EStateM.Result.ok () (setConnection ((w₁.setSocket id b).setSocket id a) _ _) = _
    rw [setSocket_setSocket]
  refine ⟨⟨localEnd, endpoint, w.nextIsn, 0, flagSyn, inner.recvWindow, []⟩, ?_⟩
  rw [sendSyn, run_bind_ok hisn, run_bind_ok hlock, run_bind_ok (hstore _),
    registerConnection, run_modify_bind]
  exact run_bind_ok (hadv _)

section

variable (localEnd : Ipv4Endpoint) {endpoint : Ipv4Endpoint} (hinv : w.Inv ports strict)
  (h : w.sockets id = some inner) (hbound : inner.bound)
  (hidle : inner.state = .closed ∨ inner.state = .bound)
  (hport : localEnd.port = inner.localEnd.port)
  (hforeign : ∀ j b, j ≠ id → w.sockets j = some b → b.key ≠ some ⟨localEnd, endpoint⟩)

include hinv h hbound hidle hport hforeign

/-- A socket that is not connected gets a connection with addresses that no other socket has. -/
lemma synTo_inv (iss isn : BitVec 32) :
    { (w.setSocket id (inner.synTo localEnd endpoint iss)).setConnection ⟨localEnd, endpoint⟩
      (some id) with nextIsn := isn }.Inv ports strict := by
  have hnot : ¬ inner.state.Connected := by
    rcases hidle with hidle | hidle <;> rw [hidle] <;> decide
  have hconn : (w.setConnection ⟨localEnd, endpoint⟩ (some id)).ConnInv := by
    refine hinv.conn.setConnection (fun i a hi hconn => ?_) _
    rcases eq_or_ne i id with rfl | heq
    · cases h.symm.trans hi
      exact absurd hconn hnot
    · exact hforeign i a heq hi
  have hset : ((w.setConnection ⟨localEnd, endpoint⟩ (some id)).setSocket id
      (inner.synTo localEnd endpoint iss)).Inv ports strict := by
    refine ⟨?_, fun hports => ?_, fun hstrict => ?_⟩
    · refine hconn.setSocket (hconn.lt h) (fun c hc => hinv.conn.queuedLt h
        (show c ∈ inner.pending ++ inner.backlog from hc)) (fun _ => hbound) ?_ fun _ =>
          ⟨_, rfl, update_self ..⟩
      intro key j b hkey hne hj
      exact Option.some.inj hkey ▸ hforeign j b hne hj
    · have hports' : (w.setConnection ⟨localEnd, endpoint⟩ (some id)).PortInv :=
        { hinv.port hports with }
      exact hports'.setLists h hport rfl rfl rfl fun c hc ci hci =>
        hports'.queued h (show c ∈ inner.pending ++ inner.backlog from hc) hci
    · have hpend := hinv.pend hstrict
      have hset : (w.setSocket id (inner.synTo localEnd endpoint iss)).PendInv := by
        refine hpend.setSocket h (fun c hc => ?_) fun hl hid => ?_
        · have hlisten := (hpend h (show c ∈ inner.pending from hc)).1
          rcases hidle with hidle | hidle <;> cases hidle.symm.trans hlisten
        · obtain ⟨-, ci, hci, hsyn, -⟩ := hpend hl hid
          cases h.symm.trans hci
          rcases hidle with hidle | hidle <;> cases hidle.symm.trans hsyn
      exact hset.of_sockets rfl
  exact hset.of_eq rfl rfl rfl rfl rfl rfl

lemma sendSyn_inv (interface : Interface) :
    (Comp.final ((sendSyn id interface localEnd endpoint).run w)).Inv ports strict := by
  obtain ⟨packet, hrun⟩ := run_sendSyn h interface localEnd endpoint
  have hinv' := synTo_inv localEnd hinv h hbound hidle hport hforeign w.nextIsn (w.nextIsn + 64000)
  rw [hrun]
  set w' : Net := { (w.setSocket id (inner.synTo localEnd endpoint w.nextIsn)).setConnection
    ⟨localEnd, endpoint⟩ (some id) with nextIsn := w.nextIsn + 64000 }
  have h' : w'.sockets id = some (inner.synTo localEnd endpoint w.nextIsn) :=
    sockets_setSocket w id _
  rcases trySyn_cases h' interface packet ⟨localEnd, endpoint⟩ with ⟨log, hfinal⟩ | hfinal
  · rw [hfinal]
    exact hinv'.of_eq rfl rfl rfl rfl rfl rfl
  · rw [hfinal]
    have hstate : TcpState.synSent.Evolves strict .bound :=
      ⟨fun hconn => absurd rfl hconn.2.1, fun _ => ⟨nofun, nofun⟩⟩
    have hback := hinv'.setSocket h' (show TcpInner.SameLinks _
      { inner.synTo localEnd endpoint w.nextIsn with state := .bound } from
        ⟨rfl, rfl, rfl, rfl, rfl, rfl, rfl⟩) hstate w'.sent
    exact hback.unregister (sockets_setSocket w' id _)
      (show ¬ TcpState.bound.Connected by decide) rfl

end

/-- The end of the call, after the state of the socket was checked. -/
def bindAndSyn (id : ℕ) (endpoint : Ipv4Endpoint) : TcpM Unit := do
  autobindAddr id 0
  let inner ← lock id
  let addr := inner.localEnd.addr
  let w ← get
  match if addr = 0 then w.interfaceForDest endpoint.addr else w.interfaceForSource addr with
  | none => throw .enetunreach
  | some interface =>
    sendSyn id interface ⟨if addr = 0 then interface.ip else addr, inner.localEnd.port⟩ endpoint

lemma bindAndSyn_triple (id : ℕ) (endpoint : Ipv4Endpoint) :
    Comp.Triple (Net.Ready ports strict id (some endpoint)) (bindAndSyn id endpoint)
      (fun _ => Net.Inv ports strict) (Net.Inv ports strict) := by
  refine .bind ((autobindAddr_ready id (some endpoint) 0).conseq (fun _ hw => hw)
    (fun _ _ hw => hw) fun _ hw => hw.inv) fun _ =>
      .bind ((lock_triple _ id).conseq (fun _ hw => hw) (fun _ _ hw => hw) fun _ hw => hw.1.inv)
        fun a => .get_bind fun w hw => ?_
  obtain ⟨⟨hready, b, hb, hbound⟩, ha⟩ := hw
  cases ha.symm.trans hb
  obtain ⟨hidle, hclear⟩ := hready.connect endpoint rfl
  cases (if a.localEnd.addr = 0 then w.interfaceForDest endpoint.addr
    else w.interfaceForSource a.localEnd.addr) with
  | none => exact .throw fun s hs => hs ▸ hready.inv
  | some interface =>
    refine Comp.Triple.iff_final.mpr fun s hs => ?_
    subst hs
    dsimp only
    generalize (if a.localEnd.addr = 0 then interface.ip else a.localEnd.addr) = addr
    have hforeign : ∀ j b, j ≠ id → s.sockets j = some b →
        b.key ≠ some ⟨⟨addr, a.localEnd.port⟩, endpoint⟩ := by
      intro j b hne hb hkey
      obtain ⟨peer, hpeer, hends⟩ := Option.map_eq_some_iff.mp hkey
      obtain ⟨hlocal, hpeer'⟩ := TcpKey.mk.inj hends
      have hport := hclear ha hne hb (hpeer' ▸ hpeer)
      rw [if_pos hbound, hlocal] at hport
      exact hport rfl
    exact sendSyn_inv ⟨addr, a.localEnd.port⟩ hready.inv ha hbound (hidle ha) rfl hforeign interface

/-- A connection whose addresses no other socket has. -/
lemma connect_inv (hinv : w.Inv ports strict) (hid : id ∈ w.handles)
    (hclear : w.Clear id endpoint) :
    (Comp.final ((connect id endpoint).run w)).Inv ports strict := by
  rw [connect]
  split_ifs
  · exact hinv
  cases hsock : w.sockets id with
  | none =>
    rw [run_bind_error (run_lock_none hsock)]
    exact hinv
  | some a =>
    rw [run_bind_ok (run_lock hsock)]
    have hmain : a.state = .closed ∨ a.state = .bound →
        (final ((bindAndSyn id endpoint).run w)).Inv ports strict := by
      intro hidle
      refine (bindAndSyn_triple id endpoint).final ⟨hinv, hid, fun endpoint' hgoal => ?_⟩
      cases hgoal
      refine ⟨fun hb => ?_, hclear⟩
      cases hsock.symm.trans hb
      exact hidle
    cases hstate : a.state with
    | closed => exact hmain (.inl hstate)
    | bound => exact hmain (.inr hstate)
    | established | synSent | listen | synReceived | finWait1 | finWait2 | closeWait | closing
      | lastAck | timeWait => exact hinv

/-! ### Data -/

lemma sendmsg_inv (hinv : w.Inv ports strict) (id : ℕ) (data : List (BitVec 8)) :
    (Comp.final ((sendmsg id data).run w)).Inv ports strict := by
  have htriple : ∀ rounds data done, Triple (Net.Inv ports strict)
      (sendLoop id rounds data done) (fun _ => Net.Inv ports strict) (Net.Inv ports strict) := by
    intro rounds
    induction rounds with
    | zero => exact fun _ _ => .pure fun _ hw => hw
    | succ rounds ih =>
      intro data done
      refine .ite (fun _ => .pure fun _ hw => hw) fun _ => .bind (lock_triple _ id) fun a => ?_
      cases a.checkSend data.length with
      | error e => exact .ite (fun _ => .pure fun _ hw => hw.1) fun _ => .throw fun _ hw => hw.1
      | ok len =>
        cases hpeer : a.peer with
        | none => exact .throw fun _ hw => hw.1
        | some peer =>
          refine .bind (.modify fun w hw => ?_) fun _ =>
            .bind (sendSegment_triple _) fun _ => ih _ _
          exact hw.1.setSocket hw.2 (show a.SameLinks (a.numberData len) from
            ⟨rfl, rfl, rfl, rfl, rfl, rfl, rfl⟩) (.refl strict _) w.sent
  exact (htriple _ _ _).final hinv

lemma recvmsg_inv (hinv : w.Inv ports strict) (id len : ℕ) (peek : Bool) :
    (Comp.final ((recvmsg id len peek).run w)).Inv ports strict := by
  cases hsock : w.sockets id with
  | none =>
    rw [recvmsg, run_bind_error (run_lock_none hsock)]
    exact hinv
  | some a =>
    have hlock := run_lock hsock
    by_cases hstate : a.state = .listen ∨ a.state = .synSent
    · rw [recvmsg, run_bind_ok hlock, if_pos hstate]
      exact hinv
    by_cases hdata : 0 < a.recvBuf.getDataLen
    · cases peek with
      | true =>
        rw [recvmsg, run_bind_ok hlock, if_neg hstate, if_pos hdata]
        exact hinv
      | false =>
        obtain ⟨n, window, log, -, hrun⟩ := exists_recvmsg hsock hstate hdata len
        rw [hrun]
        exact hinv.setSocket hsock (show a.SameLinks { a with
          recvBuf := (a.recvBuf.read n).2, lastAdvWindow := window } from
            ⟨rfl, rfl, rfl, rfl, rfl, rfl, rfl⟩) (.refl strict _) log
    · rw [recvmsg, run_bind_ok hlock, if_neg hstate, if_neg hdata]
      split_ifs <;> exact hinv

lemma TcpState.evolves_afterSendFin (s : TcpState) : s.Evolves strict s.afterSendFin := by
  refine ⟨?_, fun _ => ⟨?_, ?_⟩⟩
  · cases s <;> decide
  · rintro rfl
    rfl
  · rintro rfl
    rfl

lemma shutdown_inv (hinv : w.Inv ports strict) (id : ℕ) (how : BitVec 32) :
    (Comp.final ((shutdown id how).run w)).Inv ports strict := by
  cases hsock : w.sockets id with
  | none =>
    rw [shutdown, run_bind_error (run_lock_none hsock)]
    exact hinv
  | some a =>
    have hread : a.SameLinks (a.shutRead how) ∧ (a.shutRead how).state = a.state := by
      rw [TcpInner.shutRead]
      split_ifs <;> exact ⟨⟨rfl, rfl, rfl, rfl, rfl, rfl, rfl⟩, rfl⟩
    rcases shutdown_cases hsock how with hfinal | ⟨-, log, hfinal⟩
    · rw [hfinal]
      exact hinv.setSocket hsock hread.1 (hread.2 ▸ .refl strict _) w.sent
    · rw [hfinal]
      refine hinv.setSocket hsock (show a.SameLinks (a.shutRead how).numberFin from
        hread.1.trans ⟨rfl, rfl, rfl, rfl, rfl, rfl, rfl⟩) ?_ log
      change a.state.Evolves strict (a.shutRead how).state.afterSendFin
      rw [hread.2]
      exact TcpState.evolves_afterSendFin _

end Zinnia.Tcp
