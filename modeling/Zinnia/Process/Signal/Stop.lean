import Zinnia.Process.Signal.Queue

/-!
# Stopping and continuing a process

The steps by which signals are sent to a process and by which its threads take and act on them. A
step is what is done under one lock, and steps of different threads and senders alternate in any
way.
-/

namespace Zinnia.Stop

open List Option Function Bool

/-- `process::State`. -/
inductive Status where
  | running
  | stopped (sig : Signal)
  | exited (code : BitVec 8)
  | signaled (sig : Signal)
deriving DecidableEq

/-- Where a thread is: `user` up to the start of `prepare_next_signal`, `checked` if it has found
the process not to be stopped, and then what it has got to do with a signal that it took. -/
inductive ThreadPc where
  | user
  | checked
  | took (sig : Signal)
  | stopping (sig : Signal)
  | handling (sig : Signal) (action : SigAction)
  | waiting
  | exiting (reason : BitVec 8 ⊕ Signal)
  | gone
deriving DecidableEq

/-- The new state that `Process::exit` is called with. -/
def exitStatus : BitVec 8 ⊕ Signal → Status
  | .inl code => .exited code
  | .inr sig => .signaled sig

structure Thread where
  pc : ThreadPc
  signal : ThreadSignalState

/-- Where `send_signal_info_to_thread` and `send_signal_info_to_process` are. Before `discard` ends,
the queues of the threads `rest` and the shared queue are to be gone through. -/
inductive SenderPc where
  | prepare
  | discard (rest : List ℕ)
  | decide
  | enqueue

/-- A call that sends a signal to a thread or to the process. The send is `late` if no stop signal
was being sent since it began. -/
structure Sender where
  sig : Signal
  info : SigInfoData
  target : Option ℕ
  blocked : Bool
  pc : SenderPc
  late : Bool

/-- A process and the calls that send signals to it. It was `resumed` if a late send of `SIGCONT` or
`SIGKILL` has gone through its section on the status, and no stop signal was sent since. -/
structure Proc where
  status : Status
  threads : List ℕ
  tasks : ℕ → Thread
  sharedPending : SigQueue
  actions : Signal → SigAction
  stopUnwaited : Bool
  continueUnwaited : Bool
  senders : List Sender
  resumed : Bool

/-- `STOP_SIGNALS`. -/
def stopSignals : List Signal := [.sigStop, .sigTstp, .sigTtin, .sigTtou]

def isStop (sig : Signal) : Bool := sig ∈ stopSignals

/-- A signal that continues a stopped process when it is sent. -/
def resumes (sig : Signal) : Bool := sig = .sigCont || sig = .sigKill

/-- The pending signals that `SIGCONT` or a stop signal removes. -/
def opposed (sig : Signal) : List Signal := if isStop sig then [.sigCont] else stopSignals

def discardAll (sigs : List Signal) (q : SigQueue) : SigQueue := sigs.foldl SigQueue.discard q

def Status.isStopped : Status → Bool
  | .stopped _ => true
  | _ => false

namespace Proc

variable (s : Proc)

def setPc (t : ℕ) (pc : ThreadPc) : Proc :=
  { s with tasks := Function.update s.tasks t { s.tasks t with pc } }

def mapQueue (t : ℕ) (f : SigQueue → SigQueue) : Proc :=
  let signal := { (s.tasks t).signal with queue := f (s.tasks t).signal.queue }
  { s with tasks := Function.update s.tasks t { s.tasks t with signal } }

/-! ### Sending -/

/-- The start of a send. The masks are looked at one after another, so that any result `blocked` is
possible. Nothing is sent to a process without threads. -/
def send (sig : Signal) (info : SigInfoData) (target : Option ℕ) (blocked : Bool) : Proc :=
  if target.elim (!s.threads.isEmpty) s.threads.contains then
    let stop := isStop sig
    let late := !stop && s.senders.all fun x => !isStop x.sig
    let senders := s.senders.map fun x => { x with late := x.late && !stop }
    { s with
      senders := senders ++ [⟨sig, info, target, blocked, .prepare, late⟩]
      resumed := s.resumed && !stop }
  else s

/-- The section of `prepare_signal` on the status. -/
def prepareStatus (x : Sender) : Proc :=
  let wasStopped := resumes x.sig && s.status.isStopped
  { s with
    status := if wasStopped then .running else s.status
    continueUnwaited := s.continueUnwaited || wasStopped
    resumed := s.resumed || (resumes x.sig && x.late) }

/-- The next section of a send. There is no sender left after the last one. -/
def senderStep (x : Sender) : Proc × Option Sender :=
  match x.pc with
  | .prepare =>
    let pc := if x.sig = .sigCont || isStop x.sig then .discard s.threads else .decide
    (s.prepareStatus x, some { x with pc })
  | .discard (t :: rest) =>
    (s.mapQueue t (discardAll (opposed x.sig)), some { x with pc := .discard rest })
  | .discard [] =>
    ({ s with sharedPending := discardAll (opposed x.sig) s.sharedPending },
      some { x with pc := .decide })
  | .decide =>
    if !x.sig.isUncatchable && !x.blocked && (s.actions x.sig).ignores x.sig then (s, none)
    else (s, some { x with pc := .enqueue })
  | .enqueue =>
    match x.target with
    | none => ({ s with sharedPending := s.sharedPending.queue x.sig x.info }, none)
    | some t => (s.mapQueue t (·.queue x.sig x.info), none)

/-- The sender goes on or returns. -/
def setSender (k : ℕ) (o : Option Sender) : Proc :=
  { s with
    senders := match o with
      | some x => s.senders.set k x
      | none => s.senders.eraseIdx k }

/-! ### Taking signals -/

/-- What the thread takes signals from. -/
def task (t : ℕ) : SignalTask := ⟨(s.tasks t).signal, s.sharedPending, s.actions⟩

/-- The section of `prepare_next_signal` that takes a signal. -/
def take (t : ℕ) : Proc :=
  match (s.task t).dequeueNext with
  | some (sig, _, task) =>
    { s with
      tasks := Function.update s.tasks t ⟨.took sig, task.thread⟩
      sharedPending := task.sharedPending }
  | none =>
    -- the mask of `sigsuspend` is restored
    let signal := (s.tasks t).signal
    let mask := signal.restoreMask.getD signal.mask
    let signal := { signal with mask, restoreMask := none }
    { s with tasks := Function.update s.tasks t ⟨.user, signal⟩ }

/-- The section of `prepare_next_signal` that looks up the action of the signal. -/
def act (t : ℕ) (sig : Signal) : Proc :=
  let action := s.actions sig
  match action.disposition with
  | .ignore => s.setPc t .user
  | .default =>
    match sig.defaultAction with
    | .ignore | .cont => s.setPc t .user
    | .terminate | .coreDump => s.setPc t (.exiting (.inr sig))
    | .stop => s.setPc t (.stopping sig)
  | .handler _ =>
    let actions := if action.flags.contains SaFlags.resetHand then
      Function.update s.actions sig .default else s.actions
    { s.setPc t (.handling sig action) with actions }

/-- The section of `prepare_next_signal` that sets the mask for the handler. -/
def handle (t : ℕ) (sig : Signal) (action : SigAction) : Proc :=
  { s with
    tasks := Function.update s.tasks t ⟨.user, ((s.task t).enterHandler sig action).2.thread⟩ }

/-- The section of `enter_stopped_state` on the status. -/
def enterStoppedState (t : ℕ) (sig : Signal) : Proc :=
  { s.setPc t .waiting with status := .stopped sig, stopUnwaited := true }

/-- The section of `Process::exit` on the threads and the status. The other threads may go on for
some time on their processors. -/
def exit (t : ℕ) (reason : BitVec 8 ⊕ Signal) : Proc :=
  { s.setPc t .gone with status := exitStatus reason, threads := [] }

end Proc

/-- The steps. A thread may call `exit` and change its mask. -/
inductive Action where
  | send (sig : Signal) (info : SigInfoData) (target : Option ℕ) (blocked : Bool)
  | sender (k : ℕ)
  | thread (t : ℕ)
  | callExit (t : ℕ) (code : BitVec 8)
  | setMask (t : ℕ) (mask : SignalSet) (restoreMask : Option SignalSet)

namespace Proc

/-- The next step of a thread. -/
def threadStep (s : Proc) (t : ℕ) : Option Proc :=
  match (s.tasks t).pc with
  | .user => some (s.setPc t (if s.status.isStopped then .waiting else .checked))
  | .checked => some (s.take t)
  | .took sig => some (s.act t sig)
  | .stopping sig => some (s.enterStoppedState t sig)
  | .handling sig action => some (s.handle t sig action)
  | .waiting => some (if s.status.isStopped then s else s.setPc t .user)
  | .exiting reason => some (s.exit t reason)
  | .gone => none

/-- What a step leaves, if it can be taken. -/
def does (s : Proc) : Action → Option Proc
  | .send sig info target blocked => some (s.send sig info target blocked)
  | .sender k =>
    match s.senders[k]? with
    | some x => some ((s.senderStep x).1.setSender k (s.senderStep x).2)
    | none => none
  | .thread t => s.threadStep t
  | .callExit t code =>
    if (s.tasks t).pc = .user then some (s.setPc t (.exiting (.inl code))) else none
  | .setMask t mask restoreMask =>
    if (s.tasks t).pc = .user then
      let signal := { (s.tasks t).signal with mask, restoreMask }
      some { s with tasks := Function.update s.tasks t ⟨.user, signal⟩ }
    else none

/-- A process with any threads, which is not stopped and to which no signal was sent. -/
structure Start (s : Proc) : Prop where
  status : s.status = .running
  user : ∀ t ∈ s.threads, (s.tasks t).pc = .user
  gone : ∀ t ∉ s.threads, (s.tasks t).pc = .gone
  queues : ∀ t sig, ¬ (s.tasks t).signal.queue.Pends sig
  shared : ∀ sig, ¬ s.sharedPending.Pends sig
  senders : s.senders = []
  resumed : s.resumed = false
  actions : ∀ sig : Signal, sig.isUncatchable = true → s.actions sig = .default

/-- The states that steps lead to, each of which is allowed. -/
inductive Reaches (Allowed : Proc → Action → Prop) : Proc → Prop
  | start {s : Proc} : s.Start → Reaches Allowed s
  | step {s s' : Proc} {action : Action} :
    Reaches Allowed s → Allowed s action → s.does action = some s' → Reaches Allowed s'

/-- The thread has taken a stop signal and will stop the process if the action is the default
one. -/
def Stops (s : Proc) (t : ℕ) : Prop :=
  (∃ sig, (s.tasks t).pc = .took sig ∧ isStop sig = true) ∨ ∃ sig, (s.tasks t).pc = .stopping sig

/-- The thread has taken `SIGKILL` or is on its way to exit. -/
def Exits (s : Proc) (t : ℕ) : Prop :=
  (s.tasks t).pc = .took .sigKill ∨ ∃ reason, (s.tasks t).pc = .exiting reason

/-- The process has exited. -/
def Terminal (s : Proc) : Prop :=
  (∃ code, s.status = .exited code) ∨ ∃ sig, s.status = .signaled sig

/-- `SIGKILL` is pending for the process or for a thread. -/
def KillPends (s : Proc) : Prop :=
  s.sharedPending.Pends .sigKill ∨ ∃ t, (s.tasks t).signal.queue.Pends .sigKill

/-- A process that neither exits nor is about to be continued or killed. -/
structure Undisturbed (s : Proc) : Prop where
  senders : ∀ x ∈ s.senders, resumes x.sig = true → x.pc = .prepare
  kill : ¬ s.KillPends
  exits : ∀ t, ¬ s.Exits t
  terminal : ¬ s.Terminal

/-- A stop signal is taken only from a process that neither exits nor is about to be continued or
killed, and while a thread has one the process is not continued, killed or ended. -/
def Careful (s : Proc) : Action → Prop
  | .sender k => ∀ x, s.senders[k]? = some x → x.pc = .prepare → resumes x.sig = true →
    ∀ t, ¬ s.Stops t
  | .thread t =>
    match (s.tasks t).pc with
    | .checked => ∀ sig info task, (s.task t).dequeueNext = some (sig, info, task) →
      isStop sig = true → s.Undisturbed
    | .exiting _ => (∀ t', ¬ s.Stops t') ∧ ¬ s.Terminal
    | _ => True
  | _ => True

/-! ### The invariant -/

/-- No stop signal is pending. -/
def StopFree (q : SigQueue) : Prop := ∀ sig, isStop sig = true → ¬ q.Pends sig

def Calm (s : Proc) : Prop :=
  StopFree s.sharedPending ∧ ∀ t, StopFree (s.tasks t).signal.queue

/-- A sender of `SIGCONT` is removing the stop signals. -/
def Continuing (s : Proc) : Prop :=
  ∃ x ∈ s.senders, x.sig = .sigCont ∧ ∃ rest, x.pc = .discard rest ∧
    ∀ t ∉ rest, StopFree (s.tasks t).signal.queue

/-- The process is being killed or has exited. -/
def Killing (s : Proc) : Prop :=
  (∃ x ∈ s.senders, x.sig = .sigKill ∧ x.pc ≠ .prepare) ∨ s.KillPends ∨ (∃ t, s.Exits t) ∨ s.Terminal

/-- What a process that was resumed is kept running by. -/
structure Resumed (s : Proc) : Prop where
  stopped : s.status.isStopped = false
  stops : ∀ t, ¬ s.Stops t
  senders : ∀ x ∈ s.senders, isStop x.sig = false
  held : s.Calm ∨ s.Continuing ∨ s.Killing

structure Inv (s : Proc) : Prop where
  late : ∀ x ∈ s.senders, x.late = true → ∀ y ∈ s.senders, isStop y.sig = false
  resumed : s.resumed = true → s.Resumed
  terminal : s.Terminal → ∀ t, ¬ s.Stops t
  actions : ∀ sig : Signal, sig.isUncatchable = true → s.actions sig = .default
  outside : ∀ t ∉ s.threads, s.Terminal ∨ StopFree (s.tasks t).signal.queue
  targets : ∀ x ∈ s.senders, ∀ t ∈ x.target, t ∈ s.threads ∨ s.Terminal

/-- A step leaves the pending signals as far as they matter: it adds no stop signal, and `SIGKILL`
stays. -/
structure Keeps (s s' : Proc) : Prop where
  shared : StopFree s.sharedPending → StopFree s'.sharedPending
  queues : ∀ t, StopFree (s.tasks t).signal.queue → StopFree (s'.tasks t).signal.queue
  kill : s.KillPends → s'.KillPends

variable {s s' : Proc} {t t' k : ℕ} {x y : Sender} {sig : Signal} {q : SigQueue} {o : Option Sender}
  {pc : ThreadPc} {info : SigInfoData} {action : Action} {actions : List Action}

lemma Start.inv (h : s.Start) : s.Inv where
  late x hx := by simp [h.senders] at hx
  resumed hres := by simp [h.resumed] at hres
  terminal hterm := by simp [Terminal, h.status] at hterm
  actions := h.actions
  outside t _ := .inr fun sig _ => h.queues t sig
  targets x hx := by simp [h.senders] at hx

/-! ### Queues -/

lemma pends_discardAll {sigs : List Signal} :
    (discardAll sigs q).Pends sig ↔ sig ∉ sigs ∧ q.Pends sig := by
  induction sigs generalizing q with
  | nil => simp [discardAll]
  | cons sig' sigs ih =>
    change (discardAll sigs (q.discard sig')).Pends sig ↔ _
    rw [ih, SigQueue.pends_discard, mem_cons]
    tauto

lemma isStop_iff : isStop sig = true ↔ sig ∈ stopSignals := decide_eq_true_iff

lemma stopFree_discardAll (h : StopFree q) (sigs : List Signal) : StopFree (discardAll sigs q) :=
  fun sig hsig hpends => h sig hsig (pends_discardAll.mp hpends).2

lemma stopFree_discardAll_cont (q : SigQueue) : StopFree (discardAll (opposed .sigCont) q) :=
  fun _ hsig hpends => (pends_discardAll.mp hpends).1 (isStop_iff.mp hsig)

lemma kill_not_mem_opposed (sig : Signal) : Signal.sigKill ∉ opposed sig := by
  unfold opposed
  split_ifs <;> decide

lemma stopFree_queue (h : StopFree q) (hsig : isStop sig = false) :
    StopFree (q.queue sig info) := by
  intro sig' hsig' hpends
  rcases SigQueue.pends_queue.mp hpends with rfl | hpends
  · rw [hsig] at hsig'
    cases hsig'
  · exact h sig' hsig' hpends

/-! ### Steps of the senders -/

lemma tasks_mapQueue (s : Proc) (t t' : ℕ) (f : SigQueue → SigQueue) :
    ((s.mapQueue t f).tasks t').pc = (s.tasks t').pc ∧
      ((s.mapQueue t f).tasks t').signal.queue =
        if t' = t then f (s.tasks t').signal.queue else (s.tasks t').signal.queue := by
  unfold mapQueue
  rcases eq_or_ne t' t with rfl | hne
  · simp
  · simp [hne]

lemma keeps_mapQueue {f : SigQueue → SigQueue}
    (hfree : StopFree (s.tasks t).signal.queue → StopFree (f (s.tasks t).signal.queue))
    (hkill : (s.tasks t).signal.queue.Pends .sigKill → (f (s.tasks t).signal.queue).Pends .sigKill) :
    s.Keeps (s.mapQueue t f) where
  shared := id
  queues t' h := by
    rw [(tasks_mapQueue s t t' f).2]
    split_ifs with heq
    · subst heq
      exact hfree h
    · exact h
  kill := by
    rintro (hshared | ⟨t', ht'⟩)
    · exact .inl hshared
    · refine .inr ⟨t', ?_⟩
      rw [(tasks_mapQueue s t t' f).2]
      split_ifs with heq
      · subst heq
        exact hkill ht'
      · exact ht'

lemma mem_setSender (h : y ∈ (s.setSender k o).senders) : y ∈ s.senders ∨ o = some y := by
  cases o with
  | some x =>
    rcases mem_or_eq_of_mem_set h with hmem | rfl
    · exact .inl hmem
    · exact .inr rfl
  | none => exact .inl (mem_of_mem_eraseIdx h)

/-- The other senders are left. -/
lemma eq_or_mem_setSender (hk : s.senders[k]? = some x) (o : Option Sender) (h : y ∈ s.senders) :
    y = x ∨ y ∈ (s.setSender k o).senders := by
  obtain ⟨j, hj⟩ := mem_iff_getElem?.mp h
  rcases eq_or_ne j k with rfl | hne
  · exact .inl (some.inj (hj.symm.trans hk))
  · right
    cases o with
    | some x' =>
      refine mem_iff_getElem?.mpr ⟨j, ?_⟩
      change (s.senders.set k x')[j]? = some y
      rw [getElem?_set_ne hne.symm, hj]
    | none =>
      exact mem_eraseIdx_iff_getElem?.mpr ⟨j, hne, hj⟩

lemma stops_congr (h : (s'.tasks t).pc = (s.tasks t).pc) : s'.Stops t ↔ s.Stops t := by
  simp only [Stops, h]

lemma exits_congr (h : (s'.tasks t).pc = (s.tasks t).pc) : s'.Exits t ↔ s.Exits t := by
  simp only [Exits, h]

lemma terminal_congr (h : s'.status = s.status) : s'.Terminal ↔ s.Terminal := by
  simp only [Terminal, h]

/-- What holds a resumed process goes on doing so in a step that adds no stop signal, if a sender
that is no longer where it was has done its part. -/
lemma Resumed.held_of_step (h : s.Resumed)
    (hshared : StopFree s.sharedPending → StopFree s'.sharedPending)
    (hqueues : ∀ t, StopFree (s.tasks t).signal.queue → StopFree (s'.tasks t).signal.queue)
    (hterm : s.Terminal → s'.Terminal)
    (hmem : ∀ y ∈ s.senders, y ∈ s'.senders ∨
      (∀ rest, y.sig = .sigCont → y.pc = .discard rest →
        (∀ t ∉ rest, StopFree (s.tasks t).signal.queue) → s'.Calm ∨ s'.Continuing) ∧
      (y.sig = .sigKill → y.pc ≠ .prepare → s'.Killing))
    (hkilling : s.KillPends ∨ (∃ t, s.Exits t) → s'.Killing) :
    s'.Calm ∨ s'.Continuing ∨ s'.Killing := by
  rcases h.held with hcalm | ⟨y, hy, hsig, rest, hrest, hfree⟩ | hheld
  · exact .inl ⟨hshared hcalm.1, fun t => hqueues t (hcalm.2 t)⟩
  · rcases hmem y hy with hy' | ⟨hcont, -⟩
    · exact .inr (.inl ⟨y, hy', hsig, rest, hrest, fun t ht => hqueues t (hfree t ht)⟩)
    · exact (hcont rest hsig hrest hfree).imp_right .inl
  · refine .inr (.inr ?_)
    rcases hheld with ⟨y, hy, hsig, hprepare⟩ | hpends | hexits | hdone
    · rcases hmem y hy with hy' | ⟨-, hkill⟩
      · exact .inl ⟨y, hy', hsig, hprepare⟩
      · exact hkill hsig hprepare
    · exact hkilling (.inl hpends)
    · exact hkilling (.inr hexits)
    · exact .inr (.inr (.inr (hterm hdone)))

/-- What a section of a send other than that on the status does to the process. -/
structure Quiet (s s' : Proc) : Prop where
  status : s'.status = s.status
  threads : s'.threads = s.threads
  senders : s'.senders = s.senders
  resumed : s'.resumed = s.resumed
  actions : s'.actions = s.actions
  pc : ∀ t, (s'.tasks t).pc = (s.tasks t).pc

lemma quiet_mapQueue (s : Proc) (t : ℕ) (f : SigQueue → SigQueue) : s.Quiet (s.mapQueue t f) :=
  ⟨rfl, rfl, rfl, rfl, rfl, fun t' => (tasks_mapQueue s t t' f).1⟩

lemma quiet_shared (s : Proc) (q : SigQueue) : s.Quiet { s with sharedPending := q } :=
  ⟨rfl, rfl, rfl, rfl, rfl, fun _ => rfl⟩

lemma Quiet.refl (s : Proc) : s.Quiet s := ⟨rfl, rfl, rfl, rfl, rfl, fun _ => rfl⟩

/-- The next place of a sender. -/
def Follows (x : Sender) (o : Option Sender) : Prop :=
  ∀ y, o = some y → y.sig = x.sig ∧ y.late = x.late ∧ y.target = x.target

lemma follows_pc (x : Sender) (pc : SenderPc) : Follows x (some { x with pc }) := by
  rintro y hy
  cases hy
  exact ⟨rfl, rfl, rfl⟩

lemma exists_of_mem_setSender (hk : s.senders[k]? = some x) (ho : Follows x o)
    (hy : y ∈ (s.setSender k o).senders) :
    ∃ z ∈ s.senders, y.sig = z.sig ∧ y.late = z.late ∧ y.target = z.target := by
  rcases mem_setSender hy with hy | heq
  · exact ⟨y, hy, rfl, rfl, rfl⟩
  · exact ⟨x, mem_of_getElem? hk, ho y heq⟩

/-- A step of a sender or of a thread keeps the invariant if it leaves the end of the process and
its threads alone and takes no stop signal where there must not be one. -/
lemma Inv.of_step (h : s.Inv) (hterm : s'.Terminal ↔ s.Terminal) (hthreads : s'.threads = s.threads)
    (hsenders : ∀ y ∈ s'.senders, ∃ z ∈ s.senders,
      y.sig = z.sig ∧ y.late = z.late ∧ y.target = z.target)
    (hresumed : s'.resumed = true → s'.Resumed) (hstops : s.Terminal → ∀ t, ¬ s'.Stops t)
    (hactions : ∀ sig : Signal, sig.isUncatchable = true → s'.actions sig = .default)
    (houtside : ∀ t ∉ s.threads, ¬ s.Terminal → StopFree (s.tasks t).signal.queue →
      StopFree (s'.tasks t).signal.queue) : s'.Inv := by
  refine ⟨?_, hresumed, fun hdone => hstops (hterm.mp hdone), hactions, ?_, ?_⟩
  · intro y hy hlate z hz
    obtain ⟨y', hy', -, hlate', -⟩ := hsenders y hy
    obtain ⟨z', hz', hsig, -, -⟩ := hsenders z hz
    rw [hsig]
    exact h.late y' hy' (hlate' ▸ hlate) z' hz'
  · intro t ht
    rw [hthreads] at ht
    rw [hterm]
    by_cases hdone : s.Terminal
    · exact .inl hdone
    · exact .inr (houtside t ht hdone ((h.outside t ht).resolve_left hdone))
  · intro y hy t ht
    obtain ⟨y', hy', -, -, htarget⟩ := hsenders y hy
    rw [hthreads, hterm]
    exact h.targets y' hy' t (htarget ▸ ht)

/-- A section of a send other than that on the status keeps the invariant if it adds no stop signal
to a process that was resumed. -/
lemma Inv.of_sender (h : s.Inv) (hquiet : s.Quiet s') (hk : s.senders[k]? = some x)
    (ho : Follows x o)
    (houtside : ∀ t ∉ s.threads, ¬ s.Terminal → StopFree (s.tasks t).signal.queue →
      StopFree (s'.tasks t).signal.queue)
    (hkeeps : s.Resumed → s.Keeps s')
    (hcont : ∀ rest, x.sig = .sigCont → x.pc = .discard rest →
      (∀ t ∉ rest, StopFree (s.tasks t).signal.queue) →
      (s'.setSender k o).Calm ∨ (s'.setSender k o).Continuing)
    (hkill : x.sig = .sigKill → x.pc ≠ .prepare → (s'.setSender k o).Killing) :
    (s'.setSender k o).Inv := by
  rw [← hquiet.senders] at hk
  have hfrom : ∀ y ∈ (s'.setSender k o).senders, ∃ z ∈ s.senders,
      y.sig = z.sig ∧ y.late = z.late ∧ y.target = z.target := by
    intro y hy
    rw [← hquiet.senders]
    exact exists_of_mem_setSender hk ho hy
  have hstops : ∀ t, (s'.setSender k o).Stops t ↔ s.Stops t := fun t => stops_congr (hquiet.pc t)
  refine h.of_step (terminal_congr hquiet.status) hquiet.threads hfrom (fun hres => ?_)
    (fun hdone t => (hstops t).not.mpr (h.terminal hdone t)) (fun sig hsig => ?_) houtside
  · have hold := h.resumed (hquiet.resumed ▸ hres)
    have hkept := hkeeps hold
    refine ⟨?_, fun t => (hstops t).not.mpr (hold.stops t), fun y hy => ?_,
      hold.held_of_step hkept.shared hkept.queues (terminal_congr hquiet.status).mpr
        (fun y hy => ?_) fun hkilling => ?_⟩
    · exact hquiet.status ▸ hold.stopped
    · obtain ⟨z, hz, hsig, -, -⟩ := hfrom y hy
      rw [hsig]
      exact hold.senders z hz
    · rw [← hquiet.senders] at hy
      refine (eq_or_mem_setSender hk o hy).symm.imp_right ?_
      rintro rfl
      exact ⟨hcont, hkill⟩
    · exact .inr (hkilling.imp hkept.kill fun ⟨t, ht⟩ =>
        .inl ⟨t, (exits_congr (hquiet.pc t)).mpr ht⟩)
  · exact (congrFun hquiet.actions sig).trans (h.actions sig hsig)

lemma mem_setSender_self (hk : s.senders[k]? = some x) : y ∈ (s.setSender k (some y)).senders := by
  obtain ⟨hlt, -⟩ := List.getElem?_eq_some_iff.mp hk
  exact mem_set hlt y

section

variable (h : s.Inv) (hk : s.senders[k]? = some x)

include h hk

lemma Inv.senderStep_discard {t : ℕ} {rest : List ℕ} (hpc : x.pc = .discard (t :: rest)) :
    ((s.mapQueue t (discardAll (opposed x.sig))).setSender k
      (some { x with pc := .discard rest })).Inv := by
  have hquiet := quiet_mapQueue s t (discardAll (opposed x.sig))
  have hk' : (s.mapQueue t (discardAll (opposed x.sig))).senders[k]? = some x := hk
  have hself := mem_setSender_self (y := { x with pc := .discard rest }) hk'
  have hkeeps : s.Keeps (s.mapQueue t (discardAll (opposed x.sig))) :=
    keeps_mapQueue (fun hfree => stopFree_discardAll hfree _)
      fun hkill => pends_discardAll.mpr ⟨kill_not_mem_opposed _, hkill⟩
  refine h.of_sender hquiet hk (follows_pc x _) (fun t _ _ => hkeeps.queues t) (fun _ => hkeeps)
    ?_ ?_
  · intro rest' hsig hrest hfree
    obtain rfl : t :: rest = rest' := SenderPc.discard.inj (hpc.symm.trans hrest)
    refine .inr ⟨_, hself, hsig, rest, rfl, fun t' ht' => ?_⟩
    change StopFree ((s.mapQueue t (discardAll (opposed x.sig))).tasks t').signal.queue
    rw [(tasks_mapQueue s t t' _).2]
    split_ifs with heq
    · rw [hsig]
      exact stopFree_discardAll_cont _
    · exact hfree t' (by simp [heq, ht'])
  · intro hsig _
    exact .inl ⟨_, hself, hsig, by simp⟩

lemma Inv.senderStep_discardShared (hpc : x.pc = .discard []) :
    (setSender { s with sharedPending := discardAll (opposed x.sig) s.sharedPending } k
      (some { x with pc := .decide })).Inv := by
  have hquiet := quiet_shared s (discardAll (opposed x.sig) s.sharedPending)
  refine h.of_sender hquiet hk (follows_pc x _) (fun _ _ _ => id)
    (fun _ => ⟨?_, fun _ => id, ?_⟩) ?_ ?_
  · exact fun hfree => stopFree_discardAll hfree _
  · rintro (hshared | ht)
    · exact .inl (pends_discardAll.mpr ⟨kill_not_mem_opposed _, hshared⟩)
    · exact .inr ht
  · intro rest hsig hrest hfree
    obtain rfl : [] = rest := SenderPc.discard.inj (hpc.symm.trans hrest)
    refine .inl ⟨?_, fun t => hfree t (by simp)⟩
    rw [hsig]
    exact stopFree_discardAll_cont _
  · intro hsig _
    exact .inl ⟨_, mem_setSender_self (show _ = some x from hk), hsig, by simp⟩

lemma Inv.senderStep_decide (hpc : x.pc = .decide) :
    ((s.senderStep x).1.setSender k (s.senderStep x).2).Inv := by
  have hcont : ∀ rest, x.pc ≠ .discard rest := by simp [hpc]
  unfold senderStep
  rw [hpc]
  dsimp only
  split_ifs with hdrop
  · refine h.of_sender (.refl s) hk nofun (fun _ _ _ => id) (fun _ => ⟨id, fun _ => id, id⟩)
      (fun rest _ hrest => absurd hrest (hcont rest)) fun hsig _ => ?_
    -- a signal that cannot be caught is not dropped
    simp [hsig, Signal.isUncatchable] at hdrop
  · refine h.of_sender (.refl s) hk (follows_pc x _) (fun _ _ _ => id)
      (fun _ => ⟨id, fun _ => id, id⟩) (fun rest _ hrest => absurd hrest (hcont rest)) fun hsig _ => ?_
    exact .inl ⟨_, mem_setSender_self hk, hsig, by simp⟩

lemma Inv.of_enqueue (hpc : x.pc = .enqueue) (hquiet : s.Quiet s')
    (houtside : ∀ t ∉ s.threads, ¬ s.Terminal → StopFree (s.tasks t).signal.queue →
      StopFree (s'.tasks t).signal.queue)
    (hkeeps : isStop x.sig = false → s.Keeps s') (hkill : x.sig = .sigKill → s'.KillPends) :
    (s'.setSender k none).Inv := by
  refine h.of_sender hquiet hk nofun houtside
    (fun hres => hkeeps (hres.senders x (mem_of_getElem? hk))) (fun rest _ hrest => ?_)
    fun hsig _ => .inr (.inl (hkill hsig))
  cases hpc.symm.trans hrest

lemma Inv.senderStep_enqueue (hpc : x.pc = .enqueue) :
    ((s.senderStep x).1.setSender k (s.senderStep x).2).Inv := by
  have hqueue (q : SigQueue) (hsig : x.sig = .sigKill) : (q.queue x.sig x.info).Pends .sigKill :=
    SigQueue.pends_queue.mpr (.inl hsig.symm)
  unfold senderStep
  rw [hpc]
  cases htarget : x.target with
  | none =>
    refine h.of_enqueue hk hpc (quiet_shared s _) (fun _ _ _ => id) (fun hsig => ?_)
      fun hsig => .inl (hqueue _ hsig)
    refine ⟨fun hfree => stopFree_queue hfree hsig, fun _ => id, ?_⟩
    rintro (hshared | ht)
    · exact .inl (SigQueue.pends_queue.mpr (.inr hshared))
    · exact .inr ht
  | some t =>
    have hkeeps (hsig : isStop x.sig = false) : s.Keeps (s.mapQueue t (·.queue x.sig x.info)) :=
      keeps_mapQueue (fun hfree => stopFree_queue hfree hsig)
        fun hkill => SigQueue.pends_queue.mpr (.inr hkill)
    refine h.of_enqueue hk hpc (quiet_mapQueue s t (·.queue x.sig x.info))
      (fun t' ht' hdone hfree => ?_) hkeeps fun hsig => .inr ⟨t, ?_⟩
    · -- the signal goes to a thread of the process
      rw [(tasks_mapQueue s t t' _).2]
      split_ifs with heq
      · subst heq
        exact absurd ((h.targets x (mem_of_getElem? hk) t' htarget).resolve_right hdone) ht'
      · exact hfree
    · rw [(tasks_mapQueue s t t _).2, if_pos rfl]
      exact hqueue _ hsig

end

lemma Status.isStopped_of_terminal (h : s.Terminal) : s.status.isStopped = false := by
  rcases h with ⟨code, h⟩ | ⟨sig, h⟩ <;> rw [h] <;> rfl

/-- The section on the status leaves the end of the process alone. -/
lemma terminal_prepareStatus : (s.prepareStatus x).Terminal ↔ s.Terminal := by
  by_cases hwas : (resumes x.sig && s.status.isStopped) = true
  · have hrunning : (s.prepareStatus x).status = .running := if_pos hwas
    rw [and_eq_true] at hwas
    constructor
    · simp [Terminal, hrunning]
    · intro h
      rw [Status.isStopped_of_terminal h] at hwas
      cases hwas.2
  · exact terminal_congr (if_neg hwas)

lemma isStopped_prepareStatus (h : resumes x.sig = true ∨ s.status.isStopped = false) :
    (s.prepareStatus x).status.isStopped = false := by
  change (if (resumes x.sig && s.status.isStopped) = true then Status.running
    else s.status).isStopped = false
  split_ifs with hwas
  · rfl
  · rcases h with h | h
    · simpa [h] using hwas
    · exact h

section

variable (h : s.Inv)

include h

lemma Inv.senderStep_prepare (hk : s.senders[k]? = some x) (hpc : x.pc = .prepare)
    (hcareful : resumes x.sig = true → ∀ t, ¬ s.Stops t) :
    ((s.senderStep x).1.setSender k (s.senderStep x).2).Inv := by
  have hmem : x ∈ s.senders := mem_of_getElem? hk
  obtain ⟨x', hstep, hsig, hlate, htarget, hpc'⟩ : ∃ x' : Sender,
      s.senderStep x = (s.prepareStatus x, some x') ∧ x'.sig = x.sig ∧ x'.late = x.late ∧
      x'.target = x.target ∧ x'.pc =
        if x.sig = .sigCont || isStop x.sig then .discard s.threads else .decide := by
    unfold senderStep
    rw [hpc]
    exact ⟨_, rfl, rfl, rfl, rfl, rfl⟩
  rw [hstep]
  have hk' : (s.prepareStatus x).senders[k]? = some x := hk
  have hfrom : ∀ y ∈ ((s.prepareStatus x).setSender k (some x')).senders, ∃ z ∈ s.senders,
      y.sig = z.sig ∧ y.late = z.late ∧ y.target = z.target := by
    refine fun y => exists_of_mem_setSender hk' fun z hz => ?_
    cases hz
    exact ⟨hsig, hlate, htarget⟩
  have hself : x' ∈ ((s.prepareStatus x).setSender k (some x')).senders := mem_setSender_self hk'
  have hterm : ((s.prepareStatus x).setSender k (some x')).Terminal ↔ s.Terminal :=
    terminal_prepareStatus
  refine h.of_step hterm rfl hfrom (fun hres => ?_) h.terminal h.actions fun _ _ _ => id
  have hsenders : (∀ y ∈ s.senders, isStop y.sig = false) →
      ∀ y ∈ ((s.prepareStatus x).setSender k (some x')).senders, isStop y.sig = false := by
    intro hall y hy
    obtain ⟨z, hz, hsig', -, -⟩ := hfrom y hy
    rw [hsig']
    exact hall z hz
  have hres' : s.resumed = true ∨ (resumes x.sig && x.late) = true := Bool.or_eq_true_iff.mp hres
  by_cases hold : s.resumed = true
  · have hwas := h.resumed hold
    refine ⟨isStopped_prepareStatus (.inr hwas.stopped), hwas.stops, hsenders hwas.senders, ?_⟩
    refine hwas.held_of_step id (fun _ => id) hterm.mpr (fun y hy => ?_)
      fun hkilling => .inr (hkilling.imp id .inl)
    refine (eq_or_mem_setSender hk' (some x') hy).symm.imp_right ?_
    rintro rfl
    exact ⟨fun rest _ hrest => (nomatch hpc.symm.trans hrest), fun _ hprepare => absurd hpc hprepare⟩
  · -- the send began after the last stop signal was sent
    obtain ⟨hresumes, hlate⟩ := (and_eq_true _ _).mp (hres'.resolve_left hold)
    refine ⟨isStopped_prepareStatus (.inl hresumes), hcareful hresumes,
      hsenders (h.late x hmem hlate), ?_⟩
    by_cases hdone : s.Terminal
    · exact .inr (.inr (.inr (.inr (.inr (hterm.mpr hdone)))))
    · unfold resumes at hresumes
      rw [or_eq_true, decide_eq_true_eq, decide_eq_true_eq] at hresumes
      rcases hresumes with hcont | hkill
      · refine .inr (.inl ⟨x', hself, hsig.trans hcont, s.threads, ?_, fun t ht => ?_⟩)
        · rw [hpc', hcont]
          rfl
        · exact (h.outside t ht).resolve_left hdone
      · refine .inr (.inr (.inl ⟨x', hself, hsig.trans hkill, ?_⟩))
        rw [hpc', hkill, if_neg (by decide)]
        simp

lemma Inv.sender (hcareful : s.Careful (.sender k))
    (hdoes : s.does (.sender k) = some s') : s'.Inv := by
  unfold does at hdoes
  dsimp only at hdoes
  split at hdoes
  · next x hk =>
    cases hdoes
    cases hpc : x.pc with
    | prepare => exact h.senderStep_prepare hk hpc (hcareful x hk hpc)
    | discard rest =>
      cases rest with
      | nil =>
        have hstep := h.senderStep_discardShared hk hpc
        unfold senderStep
        rwa [hpc]
      | cons t rest =>
        have hstep := h.senderStep_discard hk hpc
        unfold senderStep
        rwa [hpc]
    | decide => exact h.senderStep_decide hk hpc
    | enqueue => exact h.senderStep_enqueue hk hpc
  · cases hdoes

/-! ### The start of a send -/

omit h in
/-- A sender after a send has begun. -/
lemma mem_send_cases {stop : Bool} {new : Sender}
    (hy : y ∈ s.senders.map (fun x => { x with late := x.late && !stop }) ++ [new]) :
    (∃ z ∈ s.senders, y = { z with late := z.late && !stop }) ∨ y = new := by
  rcases mem_append.mp hy with hy | hy
  · obtain ⟨z, hz, rfl⟩ := mem_map.mp hy
    exact .inl ⟨z, hz, rfl⟩
  · exact .inr (mem_singleton.mp hy)

lemma Inv.send (sig : Signal) (info : SigInfoData) (target : Option ℕ)
    (blocked : Bool) : (s.send sig info target blocked).Inv := by
  unfold Proc.send
  split_ifs with htarget
  · dsimp only
    set new : Sender := ⟨sig, info, target, blocked, .prepare,
      !isStop sig && s.senders.all fun x => !isStop x.sig⟩ with hnew
    refine ⟨?_, ?_, h.terminal, h.actions, h.outside, ?_⟩
    · -- a late sender means that no stop signal was being sent, nor is this one
      intro y hy hlate
      have hstop : isStop sig = false ∧ ∀ z ∈ s.senders, isStop z.sig = false := by
        rcases mem_send_cases hy with ⟨z, hz, rfl⟩ | rfl
        · obtain ⟨hlz, hns⟩ := (and_eq_true _ _).mp hlate
          exact ⟨by simpa using hns, h.late z hz hlz⟩
        · obtain ⟨hns, hall⟩ := (and_eq_true _ _).mp hlate
          exact ⟨by simpa using hns, fun z hz => by simpa using all_eq_true.mp hall z hz⟩
      intro z hz
      rcases mem_send_cases hz with ⟨w, hw, rfl⟩ | rfl
      · exact hstop.2 w hw
      · exact hstop.1
    · intro hres
      obtain ⟨hold, hns⟩ := (and_eq_true _ _).mp hres
      have hwas := h.resumed hold
      have hmem : ∀ y ∈ s.senders, y ∈ s.senders.map
          (fun x => { x with late := x.late && !isStop sig }) ++ [new] := by
        intro y hy
        refine mem_append_left _ (mem_map.mpr ⟨y, hy, ?_⟩)
        rw [hns, Bool.and_true]
      refine ⟨hwas.stopped, hwas.stops, fun y hy => ?_, ?_⟩
      · rcases mem_send_cases hy with ⟨z, hz, rfl⟩ | rfl
        · exact hwas.senders z hz
        · simpa using hns
      · exact hwas.held_of_step id (fun _ => id) id (fun y hy => .inl (hmem y hy))
          fun hkilling => .inr (hkilling.imp id .inl)
    · intro y hy t ht
      rcases mem_send_cases hy with ⟨z, hz, rfl⟩ | rfl
      · exact h.targets z hz t ht
      · obtain rfl : target = some t := ht
        exact .inl (contains_iff_mem.mp htarget)
  · exact h

/-! ### Steps of the threads -/

omit h in
lemma tasks_setPc (s : Proc) (t t' : ℕ) (pc : ThreadPc) :
    (s.setPc t pc).tasks t' = if t' = t then { s.tasks t with pc } else s.tasks t' := by
  unfold setPc
  dsimp only
  rw [update_apply]

/-- A step of a thread that leaves the status alone keeps the invariant if it takes a stop signal
only when the process was not resumed and has not exited. -/
lemma Inv.of_thread (hstatus : s'.status = s.status) (hthreads : s'.threads = s.threads)
    (hsenders : s'.senders = s.senders) (hresumed : s'.resumed = s.resumed)
    (hactions : ∀ sig : Signal, sig.isUncatchable = true → s'.actions sig = .default)
    (hpc : ∀ t' ≠ t, (s'.tasks t').pc = (s.tasks t').pc)
    (hshared : StopFree s.sharedPending → StopFree s'.sharedPending)
    (hqueues : ∀ t, StopFree (s.tasks t).signal.queue → StopFree (s'.tasks t).signal.queue)
    (hstops : s'.Stops t → s.Stops t ∨ (s.resumed = false ∧ ¬ s.Terminal))
    (hkilling : s.KillPends ∨ (∃ t, s.Exits t) → s'.Killing) : s'.Inv := by
  have hterm : s'.Terminal ↔ s.Terminal := terminal_congr hstatus
  have hstops' : ∀ t', s'.Stops t' → s.Stops t' ∨ (s.resumed = false ∧ ¬ s.Terminal) := by
    intro t' ht'
    rcases eq_or_ne t' t with rfl | hne
    · exact hstops ht'
    · exact .inl ((stops_congr (hpc t' hne)).mp ht')
  refine h.of_step hterm hthreads (fun y hy => ⟨y, hsenders ▸ hy, rfl, rfl, rfl⟩) (fun hres => ?_)
    (fun hdone t' ht' => ?_) hactions fun t' _ _ => hqueues t'
  · rw [hresumed] at hres
    have hwas := h.resumed hres
    refine ⟨hstatus ▸ hwas.stopped, fun t' ht' => ?_, hsenders ▸ hwas.senders,
      hwas.held_of_step hshared hqueues hterm.mpr (fun y hy => .inl (hsenders.symm ▸ hy)) hkilling⟩
    rcases hstops' t' ht' with hold | ⟨hfalse, -⟩
    · exact hwas.stops t' hold
    · rw [hfalse] at hres
      cases hres
  · rcases hstops' t' ht' with hold | ⟨-, hnot⟩
    · exact h.terminal hdone t' hold
    · exact hnot hdone

/-- A thread that neither stops nor ends the process changes its place or its mask. -/
lemma Inv.update {task : Thread} (hqueue : task.signal.queue = (s.tasks t).signal.queue)
    (hstops : Stops { s with tasks := Function.update s.tasks t task } t → s.Stops t)
    (hexits : s.Exits t → Exits { s with tasks := Function.update s.tasks t task } t) :
    Inv { s with tasks := Function.update s.tasks t task } := by
  have hpc : ∀ t' ≠ t, (Function.update s.tasks t task t').pc = (s.tasks t').pc := by
    intro t' hne
    rw [update_of_ne hne]
  have hqueue' : ∀ t', (Function.update s.tasks t task t').signal.queue =
      (s.tasks t').signal.queue := by
    intro t'
    rcases eq_or_ne t' t with rfl | hne
    · rw [update_self, hqueue]
    · rw [update_of_ne hne]
  refine h.of_thread rfl rfl rfl rfl h.actions hpc id (fun t' hfree => (hqueue' t').symm ▸ hfree)
    (fun ht => .inl (hstops ht)) ?_
  rintro ((hshared | ⟨t', hp⟩) | ⟨t', ht'⟩)
  · exact .inr (.inl (.inl hshared))
  · exact .inr (.inl (.inr ⟨t', (hqueue' t').symm ▸ hp⟩))
  · refine .inr (.inr (.inl ⟨t', ?_⟩))
    rcases eq_or_ne t' t with rfl | hne
    · exact hexits ht'
    · exact (exits_congr (hpc t' hne)).mpr ht'

/-- The thread is in user mode with the queue that it had. -/
lemma Inv.setUser (hexits : ¬ s.Exits t) {signal : ThreadSignalState}
    (hqueue : signal.queue = (s.tasks t).signal.queue) :
    Inv { s with tasks := Function.update s.tasks t ⟨.user, signal⟩ } := by
  refine h.update hqueue ?_ fun ht => absurd ht hexits
  rintro (⟨sig, hsig, -⟩ | ⟨sig, hsig⟩) <;> simp at hsig

omit h in
lemma pc_setPc (s : Proc) (t : ℕ) (pc : ThreadPc) : ((s.setPc t pc).tasks t).pc = pc := by
  rw [tasks_setPc, if_pos rfl]

lemma Inv.setPc (hstops : (s.setPc t pc).Stops t → s.Stops t)
    (hexits : s.Exits t → (s.setPc t pc).Exits t) : (s.setPc t pc).Inv :=
  h.update rfl hstops hexits

omit h in
lemma not_stops_setPc (hpc : ∀ sig, pc ≠ .took sig ∧ pc ≠ .stopping sig) :
    ¬ (s.setPc t pc).Stops t := by
  rintro (⟨sig, h, -⟩ | ⟨sig, h⟩)
  · exact (hpc sig).1 ((pc_setPc s t pc).symm.trans h)
  · exact (hpc sig).2 ((pc_setPc s t pc).symm.trans h)

omit h in
lemma not_exits (hpc : (s.tasks t).pc = pc)
    (hne : pc ≠ .took .sigKill ∧ ∀ reason, pc ≠ .exiting reason) : ¬ s.Exits t := by
  rintro (h | ⟨reason, h⟩)
  · exact hne.1 (hpc.symm.trans h)
  · exact hne.2 reason (hpc.symm.trans h)

/-- The thread goes back to user mode or waits. -/
lemma Inv.setPc_quiet (hpc : ∀ sig, pc ≠ .took sig ∧ pc ≠ .stopping sig)
    (hexits : ¬ s.Exits t) : (s.setPc t pc).Inv :=
  h.setPc (fun hstops => absurd hstops (not_stops_setPc hpc)) fun ht => absurd ht hexits

omit h in
/-- The signal that is taken is no longer pending, and all others are. -/
lemma take_of_some {task : SignalTask} (hnext : (s.task t).dequeueNext = some (sig, info, task)) :
    ((s.take t).tasks t).pc = .took sig ∧
      (s.sharedPending.Pends sig ∨ (s.tasks t).signal.queue.Pends sig) ∧
      (∀ sig', (s.take t).sharedPending.Pends sig' → s.sharedPending.Pends sig') ∧
      (∀ sig', ((s.take t).tasks t).signal.queue.Pends sig' →
        (s.tasks t).signal.queue.Pends sig') ∧
      ∀ sig', sig' ≠ sig → (s.sharedPending.Pends sig' → (s.take t).sharedPending.Pends sig') ∧
        ((s.tasks t).signal.queue.Pends sig' →
          ((s.take t).tasks t).signal.queue.Pends sig') := by
  unfold take
  rw [hnext]
  dsimp only
  rw [update_self]
  refine ⟨rfl, ?_⟩
  rcases SignalTask.dequeueNext_cases hnext with
    ⟨hpends, hshared, queue, hthread, hrest⟩ | ⟨hpends, hthread, hrest⟩
  · rw [hthread, hshared]
    exact ⟨.inr hpends, fun _ => id, fun sig' hsig' => ((hrest sig').mp hsig').2,
      fun sig' hne => ⟨id, fun hsig' => (hrest sig').mpr ⟨hne, hsig'⟩⟩⟩
  · rw [hthread]
    exact ⟨.inl hpends, fun sig' hsig' => ((hrest sig').mp hsig').2, fun _ => id,
      fun sig' hne => ⟨fun hsig' => (hrest sig').mpr ⟨hne, hsig'⟩, id⟩⟩

omit h in
lemma take_quiet (s : Proc) (t : ℕ) :
    (s.take t).status = s.status ∧ (s.take t).threads = s.threads ∧
      (s.take t).senders = s.senders ∧ (s.take t).resumed = s.resumed ∧
      (s.take t).actions = s.actions := by
  unfold take
  split <;> exact ⟨rfl, rfl, rfl, rfl, rfl⟩

omit h in
/-- A process that is held running is disturbed, or it has no stop signal to take. -/
lemma Resumed.not_undisturbed (h : s.Resumed) (hdist : s.Undisturbed)
    (hsig : isStop sig = true)
    (hpends : s.sharedPending.Pends sig ∨ ∃ t, (s.tasks t).signal.queue.Pends sig) : False := by
  rcases h.held with hcalm | ⟨y, hy, hcont, rest, hrest, -⟩ | ⟨y, hy, hkill, hprepare⟩ | hkill |
    ⟨t, hexits⟩ | hdone
  · rcases hpends with hshared | ⟨t, ht⟩
    · exact hcalm.1 sig hsig hshared
    · exact hcalm.2 t sig hsig ht
  · have hprepare := hdist.senders y hy (by rw [hcont]; rfl)
    rw [hrest] at hprepare
    cases hprepare
  · exact hprepare (hdist.senders y hy (by rw [hkill]; rfl))
  · exact hdist.kill hkill
  · exact hdist.exits t hexits
  · exact hdist.terminal hdone

lemma Inv.take (hpc : (s.tasks t).pc = .checked)
    (hcareful : ∀ sig info task, (s.task t).dequeueNext = some (sig, info, task) →
      isStop sig = true → s.Undisturbed) : (s.take t).Inv := by
  have hexits : ¬ s.Exits t := not_exits hpc (by simp)
  cases hnext : (s.task t).dequeueNext with
  | none =>
    unfold Proc.take
    rw [hnext]
    exact h.setUser hexits rfl
  | some taken =>
    obtain ⟨sig, info, task⟩ := taken
    obtain ⟨hstatus, hthreads, hsenders, hresumed, hactions⟩ := take_quiet s t
    obtain ⟨htook, hpends, hshared, hqueue, hrest⟩ := take_of_some hnext
    have hother : ∀ t' ≠ t, (s.take t).tasks t' = s.tasks t' := by
      intro t' hne
      unfold Proc.take
      split <;> exact update_of_ne hne _ _
    have hkept : ∀ t', StopFree (s.tasks t').signal.queue →
        StopFree ((s.take t).tasks t').signal.queue := by
      intro t' hfree
      rcases eq_or_ne t' t with rfl | hne
      · exact fun sig' hsig' hp => hfree sig' hsig' (hqueue sig' hp)
      · rw [hother t' hne]
        exact hfree
    have hkill : s.KillPends → sig ≠ .sigKill → (s.take t).KillPends := by
      rintro (hp | ⟨t', hp⟩) hne
      · exact .inl ((hrest _ hne.symm).1 hp)
      · refine .inr ⟨t', ?_⟩
        rcases eq_or_ne t' t with rfl | hne'
        · exact (hrest _ hne.symm).2 hp
        · rw [hother t' hne']
          exact hp
    refine h.of_thread hstatus hthreads hsenders hresumed (hactions ▸ h.actions)
      (fun t' hne => by rw [hother t' hne])
      (fun hfree sig' hsig' hp => hfree sig' hsig' (hshared sig' hp)) hkept (fun hstops => ?_) ?_
    · -- a stop signal is taken
      right
      have hsig : isStop sig = true := by
        rcases hstops with ⟨sig', hsig', hstop⟩ | ⟨sig', hsig'⟩
        · obtain rfl := ThreadPc.took.inj (htook.symm.trans hsig')
          exact hstop
        · rw [htook] at hsig'
          cases hsig'
      have hdist := hcareful sig info task hnext hsig
      refine ⟨?_, hdist.terminal⟩
      rw [← not_eq_true]
      exact fun hres => (h.resumed hres).not_undisturbed hdist hsig
        (hpends.imp_right fun hp => ⟨t, hp⟩)
    · by_cases hsig : sig = .sigKill
      · exact fun _ => .inr (.inr (.inl ⟨t, .inl (hsig ▸ htook)⟩))
      · rintro (hp | ⟨t', ht'⟩)
        · exact .inr (.inl (hkill hp hsig))
        · refine .inr (.inr (.inl ⟨t', ?_⟩))
          rcases eq_or_ne t' t with rfl | hne
          · exact absurd ht' hexits
          · exact (exits_congr (by rw [hother t' hne])).mpr ht'

omit h in
lemma defaultAction_eq_stop : sig.defaultAction = .stop ↔ isStop sig = true := by
  cases sig <;> decide

lemma Inv.act (hpc : (s.tasks t).pc = .took sig) : (s.act t sig).Inv := by
  have hexits : s.Exits t → sig = .sigKill := by
    rintro (hkill | ⟨reason, hexiting⟩)
    · exact ThreadPc.took.inj (hpc.symm.trans hkill)
    · rw [hpc] at hexiting
      cases hexiting
  unfold Proc.act
  dsimp only
  by_cases hkill : sig = .sigKill
  · -- the action of `SIGKILL` is the default one
    subst hkill
    rw [h.actions .sigKill rfl]
    refine h.setPc (fun hstops => ?_) fun _ => .inr ⟨_, pc_setPc _ _ _⟩
    exact absurd hstops (not_stops_setPc (by simp))
  · have hnot : ¬ s.Exits t := fun ht => hkill (hexits ht)
    split
    · exact h.setPc_quiet (by simp) hnot
    · split
      · exact h.setPc_quiet (by simp) hnot
      · exact h.setPc_quiet (by simp) hnot
      · exact h.setPc_quiet (by simp) hnot
      · exact h.setPc_quiet (by simp) hnot
      · next hstop =>
        exact h.setPc (fun _ => .inl ⟨sig, hpc, defaultAction_eq_stop.mp hstop⟩)
          fun ht => absurd ht hnot
    · have hset : (s.setPc t (.handling sig (s.actions sig))).Inv :=
        h.setPc_quiet (by simp) hnot
      refine ⟨hset.late, fun hres => { hset.resumed hres with }, hset.terminal,
        fun sig' hsig' => ?_, hset.outside, hset.targets⟩
      dsimp only
      split_ifs
      · rw [update_apply]
        split_ifs
        · rfl
        · exact h.actions sig' hsig'
      · exact h.actions sig' hsig'

lemma Inv.handle {action : SigAction} (hpc : (s.tasks t).pc = .handling sig action) :
    (s.handle t sig action).Inv :=
  h.setUser (not_exits hpc (by simp)) rfl

/-- A thread stops the process, which therefore was neither resumed nor has exited. -/
lemma Inv.enterStoppedState (hpc : (s.tasks t).pc = .stopping sig) :
    (s.enterStoppedState t sig).Inv := by
  have hstops : s.Stops t := .inr ⟨sig, hpc⟩
  have hdone : ¬ s.Terminal := fun hdone => h.terminal hdone t hstops
  have hset : (s.setPc t .waiting).Inv :=
    h.setPc_quiet (by simp) (not_exits hpc (by simp))
  refine ⟨hset.late, fun hres => absurd hstops ((h.resumed hres).stops t), ?_, h.actions, ?_, ?_⟩
  · rintro (⟨code, hcode⟩ | ⟨sig', hsig'⟩)
    · cases hcode
    · cases hsig'
  · intro t' ht'
    exact .inr ((hset.outside t' ht').resolve_left hdone)
  · intro x hx t' ht'
    exact .inl ((h.targets x hx t' ht').resolve_right hdone)

lemma Inv.exit (hstops : ∀ t, ¬ s.Stops t) (reason : BitVec 8 ⊕ Signal) :
    (s.exit t reason).Inv := by
  have hdone : (s.exit t reason).Terminal := by
    cases reason with
    | inl code => exact .inl ⟨code, rfl⟩
    | inr sig => exact .inr ⟨sig, rfl⟩
  have hstops' : ∀ t', ¬ (s.exit t reason).Stops t' := by
    intro t' ht'
    rcases eq_or_ne t' t with rfl | hne
    · exact not_stops_setPc (by simp) ht'
    · refine hstops t' ((stops_congr ?_).mp ht')
      change ((s.setPc t .gone).tasks t').pc = (s.tasks t').pc
      rw [tasks_setPc, if_neg hne]
  refine ⟨h.late, fun hres => ⟨Status.isStopped_of_terminal hdone, hstops',
    (h.resumed hres).senders, ?_⟩, fun _ => hstops', h.actions, fun _ _ => .inl hdone,
    fun _ _ _ _ => .inr hdone⟩
  exact .inr (.inr (.inr (.inr (.inr hdone))))

lemma Inv.thread (hcareful : s.Careful (.thread t))
    (hstep : s.threadStep t = some s') : s'.Inv := by
  unfold threadStep at hstep
  unfold Careful at hcareful
  dsimp only at hcareful
  cases hpc : (s.tasks t).pc with rw [hpc] at hstep hcareful
  | user =>
    cases hstep
    exact h.setPc_quiet (by split_ifs <;> simp) (not_exits hpc (by simp))
  | checked =>
    cases hstep
    exact h.take hpc hcareful
  | took sig =>
    cases hstep
    exact h.act hpc
  | stopping sig =>
    cases hstep
    exact h.enterStoppedState hpc
  | handling sig action =>
    cases hstep
    exact h.handle hpc
  | waiting =>
    cases hstep
    split_ifs
    · exact h
    · exact h.setPc_quiet (by simp) (not_exits hpc (by simp))
  | exiting reason =>
    cases hstep
    exact h.exit hcareful.1 reason
  | gone =>
    cases hstep

lemma Inv.does (hcareful : s.Careful action) (hdoes : s.does action = some s') : s'.Inv := by
  cases action with
  | send sig info target blocked =>
    cases hdoes
    exact h.send sig info target blocked
  | sender k => exact h.sender hcareful hdoes
  | thread t => exact h.thread hcareful hdoes
  | callExit t code =>
    unfold Proc.does at hdoes
    dsimp only at hdoes
    split_ifs at hdoes with hpc
    cases hdoes
    exact h.setPc_quiet (by simp) (not_exits hpc (by simp))
  | setMask t mask restoreMask =>
    unfold Proc.does at hdoes
    dsimp only at hdoes
    split_ifs at hdoes with hpc
    cases hdoes
    exact h.setUser (not_exits hpc (by simp)) rfl

end

lemma Reaches.inv (h : Reaches Careful s) : s.Inv := by
  induction h with
  | start hstart => exact hstart.inv
  | step _ hcareful hdoes ih => exact ih.does hcareful hdoes

/-! ### Runs -/

lemma status_senderStep_of_terminal (h : s.Terminal) : (s.senderStep x).1.status = s.status := by
  unfold senderStep
  split
  · change (if (resumes x.sig && s.status.isStopped) = true then Status.running else s.status) = _
    rw [Status.isStopped_of_terminal h, Bool.and_false, if_neg Bool.false_ne_true]
  · rfl
  · rfl
  · split_ifs <;> rfl
  · split <;> rfl

/-- The status of a process that has exited stays, since no thread is about to stop it. -/
lemma Inv.status_of_terminal (h : s.Inv) (hdone : s.Terminal) (hcareful : s.Careful action)
    (hdoes : s.does action = some s') : s'.status = s.status := by
  cases action with
  | send sig info target blocked =>
    cases hdoes
    unfold Proc.send
    split_ifs <;> rfl
  | sender k =>
    unfold Proc.does at hdoes
    dsimp only at hdoes
    split at hdoes
    · cases hdoes
      exact status_senderStep_of_terminal hdone
    · cases hdoes
  | thread t =>
    change s.threadStep t = some s' at hdoes
    unfold threadStep at hdoes
    unfold Careful at hcareful
    dsimp only at hcareful
    cases hpc : (s.tasks t).pc with rw [hpc] at hdoes hcareful
    | stopping sig => exact absurd (.inr ⟨sig, hpc⟩) (h.terminal hdone t)
    | exiting reason => exact absurd hdone hcareful.2
    | checked =>
      cases hdoes
      exact (take_quiet s t).1
    | took sig =>
      cases hdoes
      unfold Proc.act
      dsimp only
      split
      · rfl
      · split <;> rfl
      · rfl
    | waiting =>
      cases hdoes
      split_ifs <;> rfl
    | user | handling sig action | gone =>
      cases hdoes
      try rfl
  | callExit t code | setMask t mask restoreMask =>
    unfold Proc.does at hdoes
    dsimp only at hdoes
    split_ifs at hdoes
    cases hdoes
    rfl

/-- In a careful run a process to which `SIGCONT` or `SIGKILL` was sent after the last stop signal
is not stopped, and the status of a process that has exited does not change. -/
theorem Reaches.resumes (h : Reaches Careful s) :
    (s.resumed = true → ∀ sig, s.status ≠ .stopped sig) ∧
    (s.Terminal → ∀ action s', s.Careful action → s.does action = some s' →
      s'.status = s.status) := by
  have hinv := h.inv
  refine ⟨fun hres sig hstopped => ?_, fun hdone action s' hcareful hdoes =>
    hinv.status_of_terminal hdone hcareful hdoes⟩
  have hnot := (hinv.resumed hres).stopped
  rw [hstopped] at hnot
  cases hnot

/-- A process with `n` threads that block no signals, and with the default actions. -/
def fresh (n : ℕ) : Proc where
  status := .running
  threads := List.range n
  tasks t := ⟨if t < n then .user else .gone, .default⟩
  sharedPending := .new
  actions _ := .default
  stopUnwaited := false
  continueUnwaited := false
  senders := []
  resumed := false

lemma start_fresh (n : ℕ) : (fresh n).Start where
  status := rfl
  user _ ht := if_pos (mem_range.mp ht)
  gone _ ht := if_neg (fun hlt => ht (mem_range.mpr hlt))
  queues _ := SigQueue.not_pends_new
  shared := SigQueue.not_pends_new
  senders := rfl
  resumed := rfl
  actions _ _ := rfl

/-- The state after a number of steps. -/
def run : Proc → List Action → Option Proc
  | s, [] => some s
  | s, action :: actions => (s.does action).bind (run · actions)

lemma Reaches.run (h : Reaches (fun _ _ => True) s) (hrun : s.run actions = some s') :
    Reaches (fun _ _ => True) s' := by
  induction actions generalizing s with
  | nil =>
    cases hrun
    exact h
  | cons action actions ih =>
    obtain ⟨s₁, hdoes, hrest⟩ := bind_eq_some_iff.mp hrun
    exact ih (h.step trivial hdoes) hrest

/-- Sections of the send of a signal that does not continue the process. -/
lemma Reaches.sender (h : Reaches Careful s)
    (hsenders : s.senders.all fun x => !Stop.resumes x.sig)
    (hdoes : s.does (.sender 0) = some s') : Reaches Careful s' := by
  have hcareful : s.Careful (.sender 0) := by
    intro x hx _ hres
    have hnot := List.all_eq_true.mp hsenders x (mem_of_getElem? hx)
    rw [hres] at hnot
    cases hnot
  exact h.step hcareful hdoes

/-- `SIGTSTP` stops a process with one thread, and `SIGCONT` resumes it. -/
theorem resumes_continued : ∃ s s' : Proc, Reaches Careful s ∧ s.status = .stopped .sigTstp ∧
    Reaches Careful s' ∧ s'.resumed = true ∧ ∀ sig, s'.status ≠ .stopped sig := by
  have hsend : (fresh 1).Careful (.send .sigTstp .default none false) := trivial
  have hsent : Reaches Careful _ := .step (.start (start_fresh 1)) hsend rfl
  have hqueued := ((((hsent.sender rfl rfl).sender rfl rfl).sender rfl rfl).sender rfl rfl).sender
    rfl rfl
  have hchecked := hqueued.step (show Careful _ (.thread 0) from trivial) rfl
  have htook := hchecked.step (show Careful _ (.thread 0) from fun _ _ _ _ _ => by
    refine ⟨nofun, ?_, ?_, ?_⟩
    · rintro (hpends | ⟨_ | t, hpends⟩)
      · exact false_ne_true hpends
      · exact SigQueue.not_pends_new _ hpends
      · exact SigQueue.not_pends_new _ hpends
    · rintro (_ | t) (hpc | ⟨_, hpc⟩) <;> cases hpc
    · rintro (⟨_, hstatus⟩ | ⟨_, hstatus⟩) <;> cases hstatus) rfl
  have hstopping := htook.step (show Careful _ (.thread 0) from trivial) rfl
  have hstopped := hstopping.step (show Careful _ (.thread 0) from trivial) rfl
  have hcont := hstopped.step
    (show Careful _ (.send .sigCont .default none false) from trivial) rfl
  have hresumed := hcont.step (show Careful _ (.sender 0) from by
    rintro _ _ _ _ (_ | t) (⟨_, hpc, _⟩ | ⟨_, hpc⟩) <;> cases hpc) rfl
  exact ⟨_, _, hstopped, rfl, hresumed, rfl, hresumed.resumes.1 rfl⟩

/-- All sections of a send, which is the only one at the time and which has to go through the queues
of `n` threads. -/
def sends (sig : Signal) (target : Option ℕ) (n : ℕ) : List Action :=
  .send sig .default target false :: List.replicate (n + 4) (.sender 0)

/-- A send of `SIGKILL`, which removes no pending signals. -/
def sendsKill : List Action :=
  .send .sigKill .default none false :: List.replicate 3 (.sender 0)

/-- A thread takes `SIGTSTP` and stops the process after `SIGCONT` was sent. -/
def lateStop : List Action :=
  sends .sigTstp none 1 ++ [.thread 0, .thread 0] ++ sends .sigCont none 1 ++ [.thread 0, .thread 0]

/-- `SIGSTOP` is sent to a thread and `SIGKILL` to the process, and then the thread takes a
signal. -/
def stopBeforeKill : List Action :=
  sends .sigStop (some 0) 1 ++ sendsKill ++ List.replicate 4 (.thread 0)

/-- A thread takes `SIGTSTP`, and the other one `SIGKILL`, by which it ends the process. -/
def lateKill : List Action :=
  sends .sigTstp none 2 ++ List.replicate 3 (.thread 0) ++ sendsKill ++
    List.replicate 4 (.thread 1)

/-- The state is reached, `SIGCONT` or `SIGKILL` was sent after the last stop signal, and the only
thread waits for the end of the stop. -/
def RemainsStopped (s : Proc) (sig : Signal) : Prop :=
  Reaches (fun _ _ => True) s ∧ s.resumed = true ∧ s.senders.length = 0 ∧ s.status = .stopped sig ∧
    s.threads = [0] ∧ s.threadStep 0 = some s

lemma exists_remainsStopped
    (h : ((fresh 1).run actions).map (fun s => (s.resumed, s.senders.length, s.status, s.threads,
      (s.tasks 0).pc)) = some (true, 0, .stopped sig, [0], .waiting)) :
    ∃ s : Proc, s.RemainsStopped sig := by
  obtain ⟨s, hs, heq⟩ := map_eq_some_iff.mp h
  simp only [Prod.mk.injEq] at heq
  obtain ⟨hres, hsenders, hstatus, hthreads, hpc⟩ := heq
  refine ⟨s, (Reaches.start (start_fresh 1)).run hs, hres, hsenders, hstatus, hthreads, ?_⟩
  unfold threadStep
  rw [hpc, hstatus]
  rfl

/-- A process remains stopped after `SIGCONT` or `SIGKILL` was sent, and a process that was killed
becomes a stopped one. -/
theorem not_resumes :
    (∃ s : Proc, s.RemainsStopped .sigTstp) ∧ (∃ s : Proc, s.RemainsStopped .sigStop) ∧
    (∃ s s' : Proc, Reaches (fun _ _ => True) s ∧ s.status = .signaled .sigKill ∧
      s.does (.thread 0) = some s' ∧ s'.status = .stopped .sigTstp) := by
  have hlateStop : ∃ s : Proc, s.RemainsStopped .sigTstp :=
    exists_remainsStopped (show ((fresh 1).run lateStop).map _ = _ by decide +kernel)
  have hkill : ∃ s : Proc, s.RemainsStopped .sigStop :=
    exists_remainsStopped (show ((fresh 1).run stopBeforeKill).map _ = _ by decide +kernel)
  have hrun : ((fresh 2).run lateKill).map (fun s => (s.status, (s.tasks 0).pc)) =
      some (.signaled .sigKill, .stopping .sigTstp) := by
    decide +kernel
  refine ⟨hlateStop, hkill, ?_⟩
  obtain ⟨s, hs, heq⟩ := map_eq_some_iff.mp hrun
  obtain ⟨hstatus, hpc⟩ := Prod.mk.inj heq
  refine ⟨s, s.enterStoppedState 0 .sigTstp, (Reaches.start (start_fresh 2)).run hs, hstatus, ?_,
    rfl⟩
  change s.threadStep 0 = _
  unfold threadStep
  rw [hpc]

end Proc

end Zinnia.Stop
