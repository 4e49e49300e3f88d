import Zinnia.Device.Net.Tcp.Closing
import Zinnia.Device.Net.Tcp.Table

/-!
# The sockets of a machine

Every sequence of calls and segments keeps the tables, if no two sockets get the same addresses and
a port is given up only after its last socket.
-/

namespace Zinnia.Tcp

open List Function Comp TcpInner Net

variable {w w' : Net} {id l c : ℕ} {inner inner' li : TcpInner} {seg : Segment}
  {ports strict : Prop} {key : TcpKey} {s : TcpState}

namespace Net

/-- Changes that are not of the sockets and tables. -/
lemma Inv.of_eq (hinv : w.Inv ports strict) (hsockets : w'.sockets = w.sockets)
    (hnext : w'.nextSocket = w.nextSocket) (hhandles : w'.handles = w.handles)
    (hclosing : w'.closing = w.closing) (hconn : w'.connections = w.connections)
    (hports : w'.ports = w.ports) : w'.Inv ports strict := by
  obtain ⟨sockets, next, handles, conns, ports', closing⟩ := w'
  subst hsockets hnext hhandles hclosing hconn hports
  exact ⟨{ hinv.conn with }, fun hports => { hinv.port hports with }, hinv.pend⟩

/-- A socket that keeps its addresses. -/
lemma ConnInv.setLists (hinv : w.ConnInv) (h : w.sockets id = some inner)
    (hkey : inner'.key = inner.key) (hpeer : inner'.peer = inner.peer)
    (hbound : inner'.bound = inner.bound)
    (hstate : inner'.state.Connected → inner.state.Connected)
    (hlt : ∀ c ∈ inner'.pending ++ inner'.backlog, c < w.nextSocket) :
    (w.setSocket id inner').ConnInv := by
  refine hinv.setSocket (hinv.lt h) hlt ?_ ?_ ?_
  · rw [hpeer, hbound]
    exact hinv.peerBound h
  · intro key j b hkey' hne hj hkeyj
    exact hne (hinv.unique hj h hkeyj (hkey ▸ hkey'))
  · rw [hkey]
    exact fun hconn => hinv.registered h (hstate hconn)

section

variable (hinv : w.Inv ports strict)

include hinv

/-- A socket that keeps its addresses and lists, if the lists of pending sockets allow it. -/
lemma Inv.setSocket_of_pend (h : w.sockets id = some inner) (hlinks : inner.SameLinks inner')
    (hstate : inner'.state.Connected → inner.state.Connected)
    (hpend : strict → (w.setSocket id inner').PendInv) :
    (w.setSocket id inner').Inv ports strict := by
  refine ⟨?_, fun hports => ?_, hpend⟩
  · refine hinv.conn.setLists h hlinks.key hlinks.peer hlinks.bound hstate ?_
    rw [hlinks.pending, hlinks.backlog]
    exact fun c => hinv.conn.queuedLt h
  · refine (hinv.port hports).setLists h (congrArg _ hlinks.localEnd) hlinks.bound
      hlinks.portRegistered hlinks.listener ?_
    rw [hlinks.pending, hlinks.backlog]
    exact fun c hc ci => (hinv.port hports).queued h hc

/-- A socket that keeps its addresses and lists. -/
lemma Inv.setSocket (h : w.sockets id = some inner) (hlinks : inner.SameLinks inner')
    (hstate : inner.state.Evolves strict inner'.state) (log : List Packet) :
    { w.setSocket id inner' with sent := log }.Inv ports strict := by
  refine .of_eq (w := w.setSocket id inner') ?_ rfl rfl rfl rfl rfl rfl
  refine hinv.setSocket_of_pend h hlinks hstate.1 fun hstrict => ?_
  have hpend := hinv.pend hstrict
  refine hpend.setSocket h ?_ ?_
  · rw [hlinks.pending]
    intro c hc
    obtain ⟨hlisten, hpends⟩ := hpend h hc
    exact ⟨hlisten, (hstate.2 hstrict).1 hlisten, hpends⟩
  · intro l li hl hid
    obtain ⟨-, ci, hci, hsyn, hlistener⟩ := hpend hl hid
    cases h.symm.trans hci
    exact ⟨(hstate.2 hstrict).2 hsyn, hlinks.listener.trans hlistener⟩

lemma Inv.setConnection_none
    (hkey : ∀ i a, w.sockets i = some a → a.state.Connected → a.key ≠ some key) :
    (w.setConnection key none).Inv ports strict :=
  ⟨hinv.conn.setConnection hkey none, fun hports => { hinv.port hports with }, hinv.pend⟩

/-- A socket without a connection can be removed from the table by its addresses. -/
lemma Inv.unregister (h : w.sockets id = some inner) (hstate : ¬ inner.state.Connected)
    (hkey : inner.key = some key) : (w.setConnection key none).Inv ports strict := by
  refine hinv.setConnection_none fun i a ha hconn hkey' => ?_
  obtain rfl := hinv.conn.unique ha h hkey' hkey
  cases h.symm.trans ha
  exact hstate hconn

end

end Net

lemma closeWithError_inv (hinv : w.Inv ports strict) (h : w.sockets id = some inner)
    (hs : strict → inner.state ≠ .listen ∧ inner.state ≠ .synReceived) (errno : Errno) :
    (Comp.final ((closeWithError id errno).run w)).Inv ports strict := by
  have hclosed : (w.setSocket id (inner.closeWithError errno)).Inv ports strict :=
    hinv.setSocket h (show inner.SameLinks (inner.closeWithError errno) from
      ⟨rfl, rfl, rfl, rfl, rfl, rfl, rfl⟩) ⟨fun h => absurd rfl h.1, fun hstrict =>
        ⟨fun h => absurd h (hs hstrict).1, fun h => absurd h (hs hstrict).2⟩⟩ w.sent
  rw [run_closeWithError h]
  cases hkey : inner.key with
  | none => exact hclosed
  | some key =>
    exact hclosed.unregister (sockets_setSocket _ _ _) (show ¬ TcpState.closed.Connected by decide)
      hkey

lemma TcpState.evolves_next (hsync : s.Synchronized) (peerClosed acks takes : Bool) :
    s.Evolves strict (s.next peerClosed acks takes) := by
  rcases hsync with rfl | rfl | rfl | rfl | rfl | rfl | rfl <;>
    refine ⟨?_, fun _ => ⟨nofun, nofun⟩⟩ <;>
    cases peerClosed <;> cases acks <;> cases takes <;> decide

/-- A segment that does not complete a handshake makes no connection. -/
lemma evolves_handle (haccept : (inner.handle seg).2.finishAccept = false) :
    inner.state.Evolves strict (inner.handle seg).1.state := by
  by_cases hsync : inner.state.Synchronized
  · rw [state_handle seg hsync]
    exact TcpState.evolves_next hsync _ _ _
  rcases inner.handle_early seg hsync with heq | ⟨-, -, hstate, heq⟩ | ⟨-, -, heq⟩ <;>
    rw [heq] at haccept ⊢
  · exact .refl strict _
  · rw [hstate]
    exact ⟨fun _ => by decide, fun _ => ⟨nofun, nofun⟩⟩
  · cases haccept

/-- A connection is taken out of the table when it has ended. -/
lemma unregister_eq_some (h : (inner.handle seg).2.unregister = some key) :
    inner.key = some key ∧ ¬ (inner.handle seg).1.state.Connected := by
  by_cases hsync : inner.state.Synchronized
  · have hhandle : inner.handle seg = (inner.received seg).handleFin seg _ :=
      handle_synchronized _ _ hsync
    -- the FIN is acknowledged, or there was none to take it out
    have hacked : ((inner.handleAck seg).1.handleData seg (inner.handleAck seg).2).2.unregister =
        some key → inner.key = some key ∧ (inner.received seg).state = .closed := by
      rw [unregister_received, state_received]
      split_ifs with hlast hall
      · intro hkey
        rw [hlast.2]
        exact ⟨hkey, rfl⟩
      · exact absurd hlast.1 hall
      · exact nofun
      · exact nofun
    rw [hhandle, handleFin_eq] at h ⊢
    by_cases hfin : (inner.received seg).TakesFin seg
    · rw [if_pos hfin] at h ⊢
      dsimp only at h ⊢
      split_ifs at h with hwait
      · rw [hwait]
        exact ⟨key_received.symm.trans h, by decide⟩
      · obtain ⟨hkey, hclosed⟩ := hacked h
        rw [hclosed]
        exact ⟨hkey, by decide⟩
    · rw [if_neg hfin] at h ⊢
      obtain ⟨hkey, hclosed⟩ := hacked h
      refine ⟨hkey, ?_⟩
      rw [hclosed]
      decide
  · rcases inner.handle_early seg hsync with heq | ⟨-, -, -, heq⟩ | ⟨-, -, heq⟩ <;>
      rw [heq] at h <;> cases h

section

variable (hinv : w.Inv ports strict)

include hinv

lemma settle_inv (h : w.sockets id = some inner') (effects : Effects)
    (heffects : ∀ key, effects.unregister = some key →
      inner'.key = some key ∧ ¬ inner'.state.Connected) :
    (w.settle id effects).Inv ports strict := by
  have hclose : ∀ {w₁ : Net}, w₁.Inv ports strict → (if effects.dropCloseRef then
      { w₁ with closing := w₁.closing.filter (· ≠ id) } else w₁).Inv ports strict := by
    intro w₁ hw₁
    split_ifs
    · refine hw₁.of_eq rfl rfl rfl ?_ rfl rfl
      rw [hw₁.conn.closing]
      rfl
    · exact hw₁
  rw [settle]
  cases hkey : effects.unregister with
  | none => exact hclose hinv
  | some key => exact hclose (hinv.unregister h (heffects key hkey).2 (heffects key hkey).1)

/-- A segment that does not complete a handshake. -/
lemma processSegment_inv_of_not_accept (h : w.sockets id = some inner)
    (hrst : seg.has flagRst = false) (haccept : (inner.handle seg).2.finishAccept = false) :
    (Comp.final ((processSegment id seg).run w)).Inv ports strict := by
  have hframe := segmented_handle inner seg
  have hstate : inner.state.Evolves strict (inner.handle seg).1.state := evolves_handle haccept
  have heffects : ∀ key, (inner.handle seg).2.unregister = some key →
      (inner.handle seg).1.key = some key ∧ ¬ (inner.handle seg).1.state.Connected :=
    fun key hkey => ⟨hframe.key.trans (unregister_eq_some hkey).1, (unregister_eq_some hkey).2⟩
  obtain ⟨window, log, w', rfl, hfinal⟩ := final_processSegment h hrst haccept
  have hset := hinv.setSocket h (show inner.SameLinks { (inner.handle seg).1 with
    lastAdvWindow := window } from hframe.toSameLinks.trans ⟨rfl, rfl, rfl, rfl, rfl, rfl, rfl⟩)
    hstate log
  rcases hfinal with hfinal | hfinal <;> rw [hfinal]
  · exact hset
  · exact settle_inv hset (sockets_setSocket _ _ _) _ heffects

/-- The end of a handshake, after the socket was taken from the lists of pending ones. -/
lemma established_inv (h : w.sockets id = some inner) (hstate : inner.state = .synReceived)
    (hlinks : inner.SameLinks inner')
    (hpend : strict → ∀ l li, w.sockets l = some li → id ∉ li.pending) :
    (w.setSocket id inner').Inv ports strict := by
  refine hinv.setSocket_of_pend h hlinks (fun _ => by rw [hstate]; decide) fun hstrict => ?_
  refine (hinv.pend hstrict).setSocket h ?_ fun hl hid => absurd hid (hpend hstrict _ _ hl)
  rw [hlinks.pending]
  intro c hc
  cases hstate.symm.trans (hinv.pend hstrict h hc).1

/-- A listening socket whose lists lose some sockets, and perhaps get a child of it. -/
lemma Net.Inv.setLists (hl : w.sockets l = some li) {p q : List ℕ}
    (hp : ∀ c ∈ p, c ∈ li.pending ∨ li.state = .listen ∧ w.Pends l c)
    (hq : ∀ c ∈ q, c ∈ li.backlog ∨ ∃ ci, w.sockets c = some ci ∧ ci.listener ≠ none) :
    (w.setSocket l { li with pending := p, backlog := q }).Inv ports strict := by
  have hmem : ∀ c ∈ p ++ q, c ∈ li.pending ++ li.backlog ∨
      ∃ ci, w.sockets c = some ci ∧ ci.listener ≠ none := by
    intro c hc
    rcases mem_append.mp hc with hc | hc
    · rcases hp c hc with hc | ⟨-, ci, hci, -, hlistener⟩
      · exact .inl (mem_append_left _ hc)
      · exact .inr ⟨ci, hci, hlistener ▸ nofun⟩
    · exact (hq c hc).imp_left (mem_append_right _)
  refine ⟨?_, fun hports => ?_, fun hstrict => ?_⟩
  · refine hinv.conn.setLists hl rfl rfl rfl (id) fun c hc => ?_
    rcases hmem c hc with hc | ⟨ci, hci, -⟩
    · exact hinv.conn.queuedLt hl hc
    · exact hinv.conn.lt hci
  · refine (hinv.port hports).setLists hl rfl rfl rfl rfl fun c hc ci hci => ?_
    rcases hmem c hc with hc | ⟨ci', hci', hlistener⟩
    · exact (hinv.port hports).queued hl hc hci
    · cases hci.symm.trans hci'
      exact hlistener
  · have hpend := hinv.pend hstrict
    refine hpend.setSocket hl (fun c hc => ?_) fun {l' li'} hl' hid => ?_
    · obtain ⟨hlisten, hpends⟩ := (hp c hc).elim (fun hc => hpend hl hc) id
      exact ⟨hlisten, hlisten, hpends⟩
    · obtain ⟨-, ci, hci, hsyn, hlistener⟩ := hpend hl' hid
      cases hl.symm.trans hci
      exact ⟨hsyn, hlistener⟩

end

lemma setSocket_comm (hne : id ≠ l) (a b : TcpInner) :
    (w.setSocket id a).setSocket l b = (w.setSocket l b).setSocket id a := by
  rw [setSocket, setSocket, setSocket, setSocket, update_comm hne]

section

variable (hinv : w.Inv ports strict) (h : w.sockets id = some inner)

include hinv h

/-- The listening socket takes the child from its pending ones, and perhaps into its backlog. -/
lemma acceptLists_inv (hstate : inner.state = .synReceived) (hlinks : inner.SameLinks inner')
    {l : ℕ} {li : TcpInner} {q : List ℕ} (hne : id ≠ l) (hlistener : inner'.listener = some l)
    (hl : (w.setSocket id inner').sockets l = some li) (hq : ∀ c ∈ q, c ∈ li.backlog ∨ c = id) :
    ((w.setSocket id inner').setSocket l
      { li with pending := li.pending.filter (· ≠ id), backlog := q }).Inv ports strict := by
  have hl' : w.sockets l = some li := (update_of_ne hne.symm ..).symm.trans hl
  rw [setSocket_comm hne]
  refine established_inv (hinv.setLists hl' (fun c hc => .inl (mem_of_mem_filter hc)) fun c hc => ?_)
    ((update_of_ne hne ..).trans h) hstate hlinks fun hstrict l' li' hlive hid => ?_
  · refine (hq c hc).imp_right ?_
    rintro rfl
    exact ⟨inner, h, by rw [← hlinks.listener, hlistener]; exact nofun⟩
  -- only the listening socket of the child can have it
  · rcases sockets_setSocket_cases hlive with ⟨rfl, rfl⟩ | ⟨hl'ne, hlive⟩
    · exact of_decide_eq_true (mem_filter.mp hid).2 rfl
    · obtain ⟨-, ci, hci, -, hlist⟩ := hinv.pend hstrict hlive hid
      cases h.symm.trans hci
      exact hl'ne (Option.some.inj (hlist.symm.trans (hlinks.listener.symm.trans hlistener)))

lemma finishAccept_inv (hstate : inner.state = .synReceived) (hmem : strict → w.noMemory = false)
    (hlinks : inner.SameLinks inner') (hest : inner'.state = .established) :
    (Comp.final ((finishAccept id).run (w.setSocket id inner'))).Inv ports strict := by
  rcases finishAccept_cases (sockets_setSocket w id inner') with
    ⟨hnone, hfinal⟩ | ⟨l, li, hlistener, hl, hlisten, hfinal⟩
  · rw [hfinal]
    refine established_inv hinv h hstate hlinks fun hstrict l li hl hid => ?_
    -- the listening socket would be there, and there is memory
    obtain ⟨hlisten, ci, hci, -, hlistener⟩ := hinv.pend hstrict hl hid
    cases h.symm.trans hci
    have hne : l ≠ id := by
      rintro rfl
      cases h.symm.trans hl
      cases hstate.symm.trans hlisten
    rcases hnone with hno | hno
    · exact absurd (hmem hstrict) (by rw [show w.noMemory = true from hno]; decide)
    · exact hno l li (hlinks.listener.trans hlistener) ((update_of_ne hne ..).trans hl)
        hlisten
  have hne : id ≠ l := by
    rintro rfl
    cases (sockets_setSocket w id inner').symm.trans hl
    cases hest.symm.trans hlisten
  rcases hfinal with hfinal | hfinal
  · rw [hfinal]
    have hid : ((w.setSocket id inner').setSocket l (li.dropPending id)).sockets id = some inner' :=
      (update_of_ne hne ..).trans (sockets_setSocket w id inner')
    refine closeWithError_inv ?_ hid (fun _ => by rw [hest]; exact ⟨nofun, nofun⟩) _
    exact acceptLists_inv hinv h hstate hlinks hne hlistener hl fun c hc => .inl hc
  · rw [hfinal]
    exact acceptLists_inv hinv h hstate hlinks hne hlistener hl fun c hc =>
      (mem_append.mp hc).imp_right mem_singleton.mp

lemma processSegment_inv
    (hreset : strict → seg.has flagRst → inner.state ≠ .listen ∧ inner.state ≠ .synReceived)
    (hmem : strict → inner.state = .synReceived → w.noMemory = false) :
    (Comp.final ((processSegment id seg).run w)).Inv ports strict := by
  cases hrst : seg.has flagRst with
  | true =>
    rw [final_processSegment_rst h hrst]
    exact closeWithError_inv hinv h (fun hstrict => hreset hstrict hrst) _
  | false =>
    cases haccept : (inner.handle seg).2.finishAccept with
    | false => exact processSegment_inv_of_not_accept hinv h hrst haccept
    | true =>
      obtain ⟨hstate, hest, -⟩ := handle_of_finishAccept haccept
      rw [final_processSegment_accept h hrst haccept]
      exact finishAccept_inv hinv h hstate (fun hstrict => hmem hstrict hstate)
        (segmented_handle inner seg).toSameLinks hest

end

/-! ### New sockets -/

/-- A machine with one more socket. -/
def Net.spawn (w : Net) (a : TcpInner) : Net :=
  { w.setSocket w.nextSocket a with nextSocket := w.nextSocket + 1 }

/-- A socket that can be added: nobody has its addresses, and it does not hold a port. -/
structure Net.Newcomer (w : Net) (a : TcpInner) : Prop where
  lists : a.pending ++ a.backlog = []
  portRegistered : a.portRegistered = false
  peerBound : a.peer ≠ none → a.bound
  childBound : a.listener ≠ none → a.bound
  foreign : w.Foreign a
  registered : a.state.Connected →
    ∃ key, a.key = some key ∧ w.connections key = some w.nextSocket

section Spawn

variable {a : TcpInner}

lemma Net.ConnInv.spawn (hinv : w.ConnInv) (hnew : w.Newcomer a) : (w.spawn a).ConnInv := by
  have hgrow : { w with nextSocket := w.nextSocket + 1 }.ConnInv :=
    { hinv with
      fresh := fun i hi => hinv.fresh i (Nat.le_of_succ_le hi)
      handlesLt := fun hi => Nat.lt_succ_of_lt (hinv.handlesLt hi)
      queuedLt := fun hl hc => Nat.lt_succ_of_lt (hinv.queuedLt hl hc) }
  refine hgrow.setSocket (Nat.lt_succ_self _) ?_ hnew.peerBound (fun hkey _ => hnew.foreign hkey)
    hnew.registered
  simp [hnew.lists]

lemma Net.PortInv.spawn (hinv : w.PortInv) (hconn : w.ConnInv) (hnew : w.Newcomer a)
    (hbound : a.bound → (w.port a.localEnd.port).isSome) : (w.spawn a).PortInv := by
  have hgrow : { w with nextSocket := w.nextSocket + 1 }.PortInv :=
    { hinv with portsLt := fun hports => Nat.lt_succ_of_lt (hinv.portsLt hports) }
  refine hgrow.setSocket ?_ (fun hports => absurd (hinv.portsLt hports) (lt_irrefl _)) hbound
    (fun hlistener => ⟨hnew.childBound hlistener, hnew.portRegistered⟩) fun hl hc hci => ?_
  · rw [hnew.portRegistered]
    exact nofun
  · rcases sockets_setSocket_cases hl with ⟨rfl, rfl⟩ | ⟨-, hlive⟩
    · rw [hnew.lists] at hc
      cases hc
    · rcases sockets_setSocket_cases hci with ⟨rfl, rfl⟩ | ⟨-, hci⟩
      · exact absurd (hconn.queuedLt hlive hc) (lt_irrefl _)
      · exact hinv.queued hlive hc hci

lemma Net.PendInv.spawn (hpend : w.PendInv) (hconn : w.ConnInv) (hnew : w.Newcomer a) :
    (w.spawn a).PendInv := by
  intro l li c hl hc
  rcases sockets_setSocket_cases hl with ⟨rfl, rfl⟩ | ⟨-, hl⟩
  · exact absurd (mem_append_left _ hc) (hnew.lists ▸ not_mem_nil)
  · have hne : c ≠ w.nextSocket := (hconn.queuedLt hl (mem_append_left _ hc)).ne
    exact ⟨(hpend hl hc).1, (hpend hl hc).2.setSocket_of_ne hne⟩

lemma Net.Inv.spawn (hinv : w.Inv ports strict) (hnew : w.Newcomer a)
    (hbound : ports → a.bound → (w.port a.localEnd.port).isSome) :
    (w.spawn a).Inv ports strict :=
  ⟨hinv.conn.spawn hnew, fun hports => (hinv.port hports).spawn hinv.conn hnew (hbound hports),
    fun hstrict => (hinv.pend hstrict).spawn hinv.conn hnew⟩

end Spawn

/-- The number of a new socket is in no list. -/
lemma referenced_eq_false (hhandles : c ∉ w.handles) (hclosing : w.closing = [])
    (hqueued : ∀ l li, w.sockets l = some li → c ∉ li.pending ++ li.backlog) :
    w.referenced c = false := by
  have hqueues : ((range w.nextSocket).any fun l => w.queues l c) = false := by
    rw [any_eq_false]
    intro l _
    rw [queues]
    cases hl : w.sockets l with
    | none => exact Bool.false_ne_true
    | some li =>
      have hnot := hqueued l li hl
      simpa using hnot
  rw [referenced, hqueues, hclosing, contains_eq_mem, decide_eq_false hhandles]
  rfl

/-- A connection without references that was removed from the table goes away. -/
lemma release_unregistered {a : TcpInner} (hinv : w.Inv ports strict) (h : w.sockets c = some a)
    (hkey : a.key = some key) (hunref : w.referenced c = false)
    (hlists : a.pending ++ a.backlog = []) (hreg : a.portRegistered = false) :
    (Comp.final ((release c).run (w.setConnection key none))).Inv ports strict := by
  have hspare : w.SparePort c := by
    intro a' j b ha' hreg'
    cases h.symm.trans ha'
    rw [hreg] at hreg'
    cases hreg'
  have hfinal : final ((release c).run (w.setConnection key none)) =
      final ((dropSocket c a).run ((w.setConnection key none).kill c)) := by
    rcases run_releaseDepth_succ 1 c (w.setConnection key none) with
      ⟨href | hnone, -⟩ | ⟨a', -, ha', hrun⟩
    · exact absurd href (by rw [show (w.setConnection key none).referenced c = false from hunref]
                            exact Bool.false_ne_true)
    · cases h.symm.trans hnone
    · cases h.symm.trans ha'
      rw [release, hrun, hlists]
      rfl
  have hdead : ((w.setConnection key none).kill c).sockets c = none := update_self ..
  refine ⟨?_, fun hports => ?_, fun hstrict => ?_⟩
  · rw [hfinal]
    refine dropSocket_conn hdead ?_ (hinv.conn.foreign_kill h)
    exact (hinv.conn.kill c).setConnection
      (fun i b hi _ => hinv.conn.foreign_kill h hkey hi) none
  · rw [hfinal]
    have hkilled := (hinv.port hports).kill h hspare w.handles fun _ hi _ => hi
    exact dropSocket_port hdead { hkilled with } (hspare.freePort h)
  · exact releaseDepth_pend 2 c hinv.conn.fresh (hinv.pend hstrict)

/-! ### Packets -/

/-- A machine with a child of a listening socket whose SYN is not answered yet. -/
def Net.withChild (w : Net) (l : ℕ) (li a : TcpInner) (key : TcpKey) (isn : BitVec 32) : Net :=
  { ((w.spawn a).setSocket l { li with pending := li.pending ++ [w.nextSocket] }).setConnection key
      (some w.nextSocket) with nextIsn := isn }

lemma run_makeSocket (a : TcpInner) : (makeSocket a).run w =
    if w.noMemory then .error .enomem w else .ok w.nextSocket (w.spawn a) := by
  have hrun : (makeSocket a).run w = (if w.noMemory then (throw Errno.enomem : TcpM ℕ)
      else do
        set (w.spawn a)
        pure w.nextSocket).run w := rfl
  rw [hrun]
  split_ifs <;> rfl

/-- The answer to a SYN, after which the child goes away if there was an error. -/
def answerSyn (interface : Interface) (packet : Packet) (key : TcpKey) (l child : ℕ) :
    TcpM Bool := do
  let sent ← attempt (sendSegmentRaw interface packet)
  match sent with
  | none => pure true
  | some e =>
    unregisterConnection (some key)
    let listener ← lock l
    store l { listener with pending := listener.pending.filter (· ≠ child) }
    release child
    throw e

lemma answerSyn_cases (interface : Interface) (packet : Packet) (key : TcpKey)
    (hl : w.sockets l = some li) (child : ℕ) :
    (∃ log, Comp.final ((answerSyn interface packet key l child).run w) =
      { w with sent := log }) ∨
    Comp.final ((answerSyn interface packet key l child).run w) =
      Comp.final ((release child).run ((w.setSocket l { li with
        pending := li.pending.filter (· ≠ child) }).setConnection key none)) := by
  have hsend := run_sendSegmentRaw (w := w) interface packet
  cases herror : w.rawError interface packet with
  | none =>
    rw [herror] at hsend
    left
    rw [answerSyn, run_bind_ok (run_attempt_ok hsend)]
    exact ⟨_, rfl⟩
  | some e =>
    rw [herror] at hsend
    right
    rw [answerSyn, run_bind_ok (run_attempt_error hsend), unregisterConnection, run_modify_bind,
      run_bind_ok (run_lock (w := w.setConnection key none) hl), run_bind_ok (show (store l _).run _ =
        .ok () ((w.setSocket l _).setConnection key none) from rfl), EStateM.run_bind]
    cases (release child).run ((w.setSocket l { li with
      pending := li.pending.filter (· ≠ child) }).setConnection key none) <;> rfl

lemma run_makeChild (hl : w.sockets l = some li) (hlt : l < w.nextSocket) (interface : Interface)
    (seg : Segment) (hmem : w.noMemory = false) :
    ∃ packet, (makeChild interface seg l).run w =
      (answerSyn interface packet ⟨⟨interface.ip, seg.destination.port⟩, seg.source⟩ l
        w.nextSocket).run (w.withChild l li (TcpInner.child interface seg l w.nextIsn)
          ⟨⟨interface.ip, seg.destination.port⟩, seg.source⟩ (w.nextIsn + 64000)) := by
  set a := child interface seg l w.nextIsn
  have hmake : (makeSocket (new .synReceived)).run w =
      .ok w.nextSocket (w.spawn (new .synReceived)) := by
    rw [run_makeSocket, hmem, if_neg Bool.false_ne_true]
  have hisn : nextIsn.run (w.spawn (new .synReceived)) = .ok w.nextIsn
      { w.spawn (new .synReceived) with nextIsn := w.nextIsn + 64000 } := rfl
  have hstore : (store w.nextSocket a).run
      { w.spawn (new .synReceived) with nextIsn := w.nextIsn + 64000 } =
      .ok () { w.spawn a with nextIsn := w.nextIsn + 64000 } := by
    have hidem : update (update w.sockets w.nextSocket
        (some (new .synReceived))) w.nextSocket (some a) =
        update w.sockets w.nextSocket (some a) := update_idem ..
    change EStateM.Result.ok () (setSocket _ w.nextSocket a) = _
    rw [setSocket, spawn, setSocket, hidem]
    rfl
  have hlock : (lock l).run { w.spawn a with nextIsn := w.nextIsn + 64000 } =
      .ok li { w.spawn a with nextIsn := w.nextIsn + 64000 } :=
    run_lock ((update_of_ne hlt.ne ..).trans hl)
  refine ⟨⟨a.localEnd, seg.source, w.nextIsn, seg.seq + 1, flagSyn ||| flagAck, 65535, []⟩, ?_⟩
  rw [makeChild, run_bind_ok hmake, run_bind_ok hisn, run_bind_ok hstore, run_bind_ok hlock]
  rfl

section Child

variable {l : ℕ} {li : TcpInner} {interface : Interface}

variable (hinv : w.Inv ports strict) (hl : w.sockets l = some li) (hlisten : li.state = .listen)
  (hport : (w.port seg.destination.port).isSome)
  (hforeign : ∀ j b, w.sockets j = some b →
    b.key ≠ some ⟨⟨interface.ip, seg.destination.port⟩, seg.source⟩)

include hinv hl hlisten hport hforeign

/-- A listening socket gets a child with addresses that no socket has. -/
lemma withChild_inv (iss isn : BitVec 32) :
    (w.withChild l li (TcpInner.child interface seg l iss)
      ⟨⟨interface.ip, seg.destination.port⟩, seg.source⟩ isn).Inv ports strict := by
  set key : TcpKey := ⟨⟨interface.ip, seg.destination.port⟩, seg.source⟩
  have hreg : (w.setConnection key (some w.nextSocket)).Inv ports strict :=
    ⟨hinv.conn.setConnection (fun i a hi _ => hforeign i a hi) _,
      fun hports => { hinv.port hports with }, hinv.pend⟩
  have hnew : (w.setConnection key (some w.nextSocket)).Newcomer
      (child interface seg l iss) :=
    { lists := rfl
      portRegistered := rfl
      peerBound := fun _ => rfl
      childBound := fun _ => rfl
      foreign := fun key' j b hkey hj => Option.some.inj hkey ▸ hforeign j b hj
      registered := fun _ => ⟨key, rfl, update_self ..⟩ }
  have hspawn := hreg.spawn hnew fun _ _ => hport
  have hl' : ((w.setConnection key (some w.nextSocket)).spawn
      (child interface seg l iss)).sockets l = some li :=
    (update_of_ne (hinv.conn.lt hl).ne ..).trans hl
  have hlists := hspawn.setLists hl'
    (fun c hc => (mem_append.mp hc).imp_right fun hc => by
      rw [mem_singleton.mp hc]
      exact ⟨hlisten, _, update_self .., rfl, rfl⟩) fun c hc => .inl hc
  exact hlists.of_eq rfl rfl rfl rfl rfl rfl

lemma makeChild_inv :
    (Comp.final ((makeChild interface seg l).run w)).Inv ports strict := by
  cases hmem : w.noMemory with
  | true =>
    have hmake : (makeSocket (new .synReceived)).run w = .error .enomem w := by
      rw [run_makeSocket, hmem, if_pos rfl]
    rw [makeChild, run_bind_error hmake]
    exact hinv
  | false =>
    have hlt := hinv.conn.lt hl
    obtain ⟨packet, hrun⟩ := run_makeChild hl hlt interface seg hmem
    have hinv' := withChild_inv hinv hl hlisten hport hforeign w.nextIsn (w.nextIsn + 64000)
    rw [hrun]
    set key : TcpKey := ⟨⟨interface.ip, seg.destination.port⟩, seg.source⟩
    set w' := w.withChild l li (child interface seg l w.nextIsn) key (w.nextIsn + 64000)
    have hl' : w'.sockets l = some { li with pending := li.pending ++ [w.nextSocket] } :=
      update_self ..
    rcases answerSyn_cases interface packet key hl' w.nextSocket with ⟨log, hfinal⟩ | hfinal
    · rw [hfinal]
      exact hinv'.of_eq rfl rfl rfl rfl rfl rfl
    · rw [hfinal]
      have hlists := hinv'.setLists hl'
        (p := (li.pending ++ [w.nextSocket]).filter (· ≠ w.nextSocket))
        (fun c hc => .inl (mem_of_mem_filter hc)) fun c hc => .inl hc
      have hc : ((w'.setSocket l { li with
          pending := (li.pending ++ [w.nextSocket]).filter (· ≠ w.nextSocket) })).sockets
          w.nextSocket = some (child interface seg l w.nextIsn) := by
        have hspawn : (w.spawn (child interface seg l w.nextIsn)).sockets w.nextSocket =
            some (child interface seg l w.nextIsn) := update_self ..
        exact (update_of_ne hlt.ne' ..).trans ((update_of_ne hlt.ne' ..).trans
          hspawn)
      refine release_unregistered hlists hc rfl
        (referenced_eq_false ?_ hinv.conn.closing ?_) rfl rfl
      · exact fun hmem => lt_irrefl _ (hinv.conn.handlesLt hmem)
      · -- the child is taken from the list of the listening socket
        intro l' li' hlive hmem
        rcases sockets_setSocket_cases hlive with ⟨-, rfl⟩ | ⟨hne, hlive⟩
        · rcases mem_append.mp hmem with hmem | hmem
          · exact of_decide_eq_true (mem_filter.mp hmem).2 rfl
          · exact lt_irrefl _ (hinv.conn.queuedLt hl (mem_append_right _ hmem))
        · have hspawn : (w.spawn (child interface seg l w.nextIsn)).sockets l' = some li' :=
            (update_of_ne hne ..).symm.trans hlive
          rcases sockets_setSocket_cases hspawn with ⟨-, rfl⟩ | ⟨-, hlive⟩
          · cases hmem
          · exact lt_irrefl _ (hinv.conn.queuedLt hlive hmem)

end Child

section

variable (hinv : w.Inv ports strict)

include hinv

lemma sendReset_inv (interface : Interface) (seg : Segment) :
    (Comp.final ((sendReset interface seg).run w)).Inv ports strict := by
  have hsend : ∀ packet, (final ((sendSegmentRaw interface packet).run w)).Inv ports strict := by
    intro packet
    rw [run_sendSegmentRaw]
    cases w.rawError interface packet with
    | some e => exact hinv
    | none => exact hinv.of_eq rfl rfl rfl rfl rfl rfl
  rw [sendReset]
  split_ifs <;> exact hsend _

/-- A port without a socket is removed from the table. -/
lemma Net.Inv.setPort_none {p : BitVec 16}
    (hp : ¬ (w.port p).isSome) : (w.setPort p none).Inv ports strict :=
  ⟨{ hinv.conn with },
    fun hports => (hinv.port hports).setPort_none ((hinv.port hports).not_bound hp), hinv.pend⟩

lemma processSyn_inv (interface : Interface)
    (hforeign : ∀ j b, w.sockets j = some b →
      b.key ≠ some ⟨⟨interface.ip, seg.destination.port⟩, seg.source⟩) :
    (Comp.final ((processSyn interface seg).run w)).Inv ports strict := by
  rw [processSyn, run_get_bind]
  cases hport : w.port seg.destination.port with
  | none =>
    have hnone : ¬ (w.port seg.destination.port).isSome := by
      rw [hport]
      exact Bool.false_ne_true
    rw [run_modify_bind, final_bind_pure]
    exact sendReset_inv (hinv.setPort_none hnone) interface seg
  | some l =>
    obtain ⟨l', -, hup⟩ := Option.bind_eq_some_iff.mp hport
    obtain ⟨li, hl, rfl⟩ := upgrade_eq_some.mp hup
    rw [run_bind_ok (run_lock hl)]
    split_ifs with hcheck
    · exact hinv
    · refine makeChild_inv hinv hl (not_not.mp fun hne => hcheck (.inl hne)) ?_ hforeign
      rw [hport]
      rfl

/-- A packet for which there is no connection. -/
lemma Net.Inv.setConnection_of_none (hnone : w.connection key = none) :
    (w.setConnection key none).Inv ports strict := by
  refine hinv.setConnection_none fun i a hi hconn hkey => ?_
  obtain ⟨key', hkey', hreg⟩ := hinv.conn.registered hi hconn
  cases hkey.symm.trans hkey'
  rw [connection, hreg, Option.bind_some, upgrade, hi] at hnone
  cases hnone

omit hinv in
lemma final_releasing {α : Type} (c : TcpM α) (id : ℕ) (w : Net) :
    Comp.final ((releasing id c).run w) = Comp.final ((release id).run (Comp.final (c.run w))) := by
  simp only [EStateM.run, releasing]
  cases c w with
  | ok a w' => exact final_bind_pure _ _ _
  | error e w' =>
    change final ((release id >>= fun _ => throw e : TcpM α).run w') =
      final ((release id).run w')
    rw [EStateM.run_bind]
    cases (release id).run w' <;> rfl

/-- A packet keeps the tables, if a SYN does not come from the peer of another socket. -/
lemma processPacket_inv (interface : Interface) (seg : Segment)
    (hsyn : seg.has flagSyn → w.connection ⟨seg.destination, seg.source⟩ = none →
      ∀ j b, w.sockets j = some b →
        b.key ≠ some ⟨⟨interface.ip, seg.destination.port⟩, seg.source⟩)
    (hpend : strict → ∀ id inner, w.connection ⟨seg.destination, seg.source⟩ = some id →
      w.sockets id = some inner →
      (seg.has flagRst → inner.state ≠ .listen ∧ inner.state ≠ .synReceived) ∧
        (inner.state = .synReceived → w.noMemory = false)) :
    (Comp.final ((processPacket interface seg).run w)).Inv ports strict := by
  rw [processPacket, run_get_bind]
  cases hconn : w.connection ⟨seg.destination, seg.source⟩ with
  | some id =>
    obtain ⟨id', -, hup⟩ := Option.bind_eq_some_iff.mp hconn
    obtain ⟨inner, hid, rfl⟩ := upgrade_eq_some.mp hup
    rw [final_releasing]
    exact (processSegment_inv hinv hid (fun hstrict => (hpend hstrict _ _ hconn hid).1)
      fun hstrict => (hpend hstrict _ _ hconn hid).2).release id'
  | none =>
    have hinv' := hinv.setConnection_of_none hconn
    rw [run_modify_bind]
    split_ifs with hrst hother
    · exact hinv'
    · rw [final_bind_pure]
      exact sendReset_inv hinv' interface seg
    · refine processSyn_inv hinv' interface (hsyn ?_ hconn)
      rw [Bool.or_eq_true, not_or, Bool.not_eq_true, Bool.not_eq_false'] at hother
      exact hother.1

end

end Zinnia.Tcp
