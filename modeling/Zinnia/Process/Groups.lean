import Zinnia.Util

/-!
# Process groups and sessions

The part of the process table that the calls on process groups and sessions use. A process is known
to the kernel by a pointer, for which the value of the counter at its creation stands here, and to
the user by a process id, which is the counter cut to 32 bits.
-/

namespace Zinnia

open Function Option

/-- `pid_t`. -/
abbrev Pid := BitVec 32

/-- `Process`. The process has not called `exit` as long as it is `live`. -/
structure Process where
  id : Pid
  pgrp : Pid
  session : Pid
  children : List ℕ
  hasExeced : Bool
  live : Bool
deriving DecidableEq

/-- The processes, `PID_COUNTER` and `PROCESS_TABLE`. -/
structure Processes where
  counter : ℕ
  procs : ℕ → Option Process
  table : Pid → Option ℕ

namespace Processes

variable (s : Processes)

/-- The id of the next process. -/
def nextId : Pid := BitVec.ofNat 32 s.counter

def set (key : ℕ) (p : Process) : Processes :=
  { s with procs := update s.procs key (some p) }

/-- Insertion into `PROCESS_TABLE` of a process that is made with the counter. -/
def insert (p : Process) : Processes where
  counter := s.counter + 1
  procs := update s.procs s.counter (some p)
  table := update s.table p.id (some s.counter)

/-- `Process::new_with_space`. -/
def newWithSpace (parent : Option Process) : Process :=
  let (pgrp, session) := match parent with
    | some x => (x.pgrp, x.session)
    | none => (0, 0)
  let id := s.nextId
  { id, pgrp := if pgrp = 0 then id else pgrp, session := if session = 0 then id else session,
    children := [], hasExeced := false, live := true }

/-- The processes after the kernel process and init were made. -/
def boot : Processes :=
  let s : Processes := ⟨0, fun _ => none, fun _ => none⟩
  let kernel := s.newWithSpace none
  let s := s.insert kernel
  (s.insert (s.newWithSpace (some kernel))).set 0 { kernel with children := [1] }

/-- `INIT`. -/
def init : ℕ := 1

/-- `pgrp_in_session`. -/
def pgrpInSession (pgrp session : Pid) : Bool :=
  (List.range s.counter).any fun key =>
    match s.procs key with
    | some p => s.table p.id = some key && p.pgrp = pgrp && p.session = session
    | none => false

/-- `Process::lookup_or_self`. -/
def lookupOrSelf (cur : ℕ) (pid : Pid) : Option ℕ := if pid = 0 then some cur else s.table pid

/-- `setpgid`, called by the process `cur`. -/
def setpgid (cur : ℕ) (current : Process) (pid pgid : Pid) : EResult Processes :=
  if pgid.toInt < 0 then .error .einval
  else
    match s.lookupOrSelf cur pid with
    | none => .error .esrch
    | some key =>
      match s.procs key with
      | none => .error .esrch
      | some target =>
        let isChild := current.children.any fun c => (s.procs c).any (·.id = target.id)
        if target.id ≠ current.id ∧ !isChild then .error .esrch
        else if target.id ≠ current.id ∧ target.session ≠ current.session then .error .eperm
        else if target.id ≠ current.id ∧ target.hasExeced then .error .eacces
        else if target.session = target.id then .error .eperm
        else
          let newPgid := if pgid = 0 then target.id else pgid
          if newPgid ≠ target.id ∧ !s.pgrpInSession newPgid target.session then .error .eperm
          else .ok (s.set key { target with pgrp := newPgid })

/-- `setsid`. -/
def setsid (cur : ℕ) (current : Process) : EResult Processes :=
  if current.pgrp = current.id ∧ current.session = current.id then .error .eperm
  else .ok (s.set cur { current with pgrp := current.id, session := current.id })

/-- `Process::fork`. The copy of the address space and the creation of the thread may fail. -/
def fork (cur : ℕ) (current : Process) (space thread : Bool) : EResult Unit × Processes :=
  if !space then (.error .enomem, s)
  else if !thread then (.error .enomem, { s with counter := s.counter + 1 })
  else
    let forked : Process :=
      { current with id := s.nextId, children := [], hasExeced := false, live := true }
    let s' := s.set cur { current with children := current.children ++ [s.counter] }
    (.ok (), s'.insert forked)

/-- `Process::exit`, which panics for the kernel process and init. -/
def exit (cur : ℕ) (current : Process) : Option Processes :=
  if current.id.toInt ≤ 1 then none
  else
    let s := { s with table := update s.table current.id none }
    let s := s.set cur { current with live := false, children := [] }
    match s.procs init with
    | some p => some (s.set init { p with children := p.children ++ current.children })
    | none => some s

/-- The end of a wait for a child that has exited. -/
def reap (cur : ℕ) (current : Process) (child : ℕ) : Processes :=
  if child ∈ current.children ∧ (s.procs child).any (!·.live) then
    s.set cur { current with children := current.children.erase child }
  else s

/-- The calls that matter for groups and sessions, with what the rest of the kernel decides. -/
inductive Call where
  | fork (space thread : Bool)
  | exit
  | setpgid (pid pgid : Pid)
  | setsid
  | execve
  | wait (child : ℕ)

/-- What a call by a process leaves; there is no result if the kernel panics. -/
def does (s : Processes) (cur : ℕ) (current : Process) : Call → Option Processes
  | .fork space thread => some (s.fork cur current space thread).2
  | .exit => s.exit cur current
  | .setpgid pid pgid =>
    match s.setpgid cur current pid pgid with
    | .ok s' => some s'
    | .error _ => some s
  | .setsid =>
    match s.setsid cur current with
    | .ok s' => some s'
    | .error _ => some s
  | .execve => some (s.set cur { current with hasExeced := true })
  | .wait child => some (s.reap cur current child)

/-- A process that has not exited. -/
def Live (s : Processes) (key : ℕ) (p : Process) : Prop := s.procs key = some p ∧ p.live = true

/-- The processes that calls lead to, each of which is allowed. -/
inductive Reaches (Allowed : Processes → ℕ → Process → Call → Prop) : Processes → Prop
  | boot : Reaches Allowed boot
  | step {s s' : Processes} {cur : ℕ} {current : Process} {call : Call} :
    Reaches Allowed s → s.Live cur current → Allowed s cur current call →
    s.does cur current call = some s' → Reaches Allowed s'

/-- Processes of one group are in one session. -/
def SameSession (s : Processes) : Prop :=
  ∀ ⦃a b p q⦄, s.Live a p → s.Live b q → p.pgrp = q.pgrp → p.session = q.session

/-- When a process is forked its id is not the id of a process or a group, and when a process that
does not lead its session makes a session no other process is in the group that has its id. -/
def Careful (s : Processes) (cur : ℕ) (current : Process) : Call → Prop
  | .fork space thread =>
    space = true → thread = true → ∀ key p, s.Live key p → p.id ≠ s.nextId ∧ p.pgrp ≠ s.nextId
  | .setsid =>
    (current.pgrp = current.id ∧ current.session = current.id) ∨
      ∀ key p, s.Live key p → key ≠ cur → p.pgrp ≠ current.id
  | _ => True

/-- The processes have different ids, and the group that has the id of a process is in its
session. -/
structure Inv (s : Processes) : Prop where
  created : ∀ key p, s.procs key = some p → key < s.counter
  ids : ∀ ⦃a b p q⦄, s.Live a p → s.Live b q → p.id = q.id → a = b
  listed : ∀ pid key, s.table pid = some key → ∃ p, s.Live key p ∧ p.id = pid
  own : ∀ ⦃a b p q⦄, s.Live a p → s.Live b q → q.pgrp = p.id → q.session = p.session
  same : s.SameSession

variable {s s' : Processes} {cur key : ℕ} {current p p' q : Process}

/-! ### Changes of one process -/

lemma live_set : (s.set key p).Live cur q ↔
    (cur = key ∧ q = p ∧ p.live = true) ∨ (cur ≠ key ∧ s.Live cur q) := by
  unfold Live set
  rcases eq_or_ne cur key with rfl | hne
  · simp only [update_self, some.injEq, true_and, ne_eq, not_true_eq_false, false_and, or_false]
    constructor
    · rintro ⟨rfl, hlive⟩
      exact ⟨rfl, hlive⟩
    · rintro ⟨rfl, hlive⟩
      exact ⟨rfl, hlive⟩
  · simp [hne]

section

variable (h : s.Inv)

include h

lemma Inv.created_set (hp : s.procs key = some p) (a : ℕ) (q : Process)
    (hq : (s.set key p').procs a = some q) : a < s.counter := by
  rcases eq_or_ne a key with rfl | hne
  · exact h.created a p hp
  · exact h.created a q ((update_of_ne hne ..).symm.trans hq)

section

variable (hgroup : ∀ ⦃a q⦄, s.Live a q → a ≠ key → q.pgrp = p'.pgrp → q.session = p'.session)
  (hleader : ∀ ⦃a q⦄, s.Live a q → a ≠ key → q.id = p'.pgrp → q.session = p'.session)
  (hown : ∀ ⦃a q⦄, s.Live a q → a ≠ key → q.pgrp = p'.id → q.session = p'.session)

include hgroup hleader hown

/-- One process is new or changes. Its group is in its session as far as it has members, and it is in
the group of another process only if it is in the session of that process. -/
lemma Inv.of_one (hcreated : ∀ a q, s'.procs a = some q → a < s'.counter)
    (hlisted : ∀ pid a, s'.table pid = some a → ∃ q, s'.Live a q ∧ q.id = pid)
    (hlive : ∀ ⦃a q⦄, s'.Live a q → (a = key ∧ q = p') ∨ (a ≠ key ∧ s.Live a q))
    (hids : ∀ ⦃a q⦄, s.Live a q → a ≠ key → q.id ≠ p'.id) : s'.Inv := by
  refine ⟨hcreated, ?_, hlisted, ?_, ?_⟩ <;> intro a b q r hq hr heq <;>
    rcases hlive hq with ⟨rfl, rfl⟩ | ⟨ha, hq'⟩ <;> rcases hlive hr with ⟨rfl, rfl⟩ | ⟨hb, hr'⟩
  · rfl
  · exact absurd heq.symm (hids hr' hb)
  · exact absurd heq (hids hq' ha)
  · exact h.ids hq' hr' heq
  · rfl
  · exact hown hr' hb heq
  · exact (hleader hq' ha heq.symm).symm
  · exact h.own hq' hr' heq
  · rfl
  · exact (hgroup hr' hb heq.symm).symm
  · exact hgroup hq' ha heq
  · exact h.same hq' hr' heq

/-- A process goes to another group. -/
lemma Inv.move (hp : s.Live key p) (hid : p'.id = p.id) (hlive : p'.live = true) :
    (s.set key p').Inv := by
  refine h.of_one hgroup hleader hown (h.created_set hp.1) (fun pid a ha => ?_) (fun a q hq => ?_)
    fun a q hq hne heq => hne (h.ids hq hp (hid ▸ heq))
  · obtain ⟨q, hq, hqid⟩ := h.listed pid a ha
    rcases eq_or_ne a key with rfl | hne
    · obtain rfl : p = q := some.inj (hp.1.symm.trans hq.1)
      exact ⟨p', live_set.mpr (.inl ⟨rfl, rfl, hlive⟩), hid ▸ hqid⟩
    · exact ⟨q, live_set.mpr (.inr ⟨hne, hq⟩), hqid⟩
  · exact (live_set.mp hq).imp_left fun hnew => ⟨hnew.1, hnew.2.1⟩

end

/-- A process is taken away, and with it its entries of the table. -/
lemma Inv.bury {table : Pid → Option ℕ} (hp : s.procs key = some p) (hdead : p'.live = false)
    (htable : ∀ pid a, table pid = some a → a ≠ key ∧ s.table pid = some a) :
    (Processes.set { s with table } key p').Inv := by
  have hback : ∀ {a q}, (Processes.set { s with table } key p').Live a q → s.Live a q := by
    intro a q hq
    rcases live_set.mp hq with ⟨-, -, hl⟩ | ⟨-, hq⟩
    · rw [hdead] at hl
      cases hl
    · exact hq
  refine ⟨h.created_set hp, fun a b q r hq hr heq => h.ids (hback hq) (hback hr) heq, ?_,
    fun a b q r hq hr heq => h.own (hback hq) (hback hr) heq,
    fun a b q r hq hr heq => h.same (hback hq) (hback hr) heq⟩
  intro pid a ha
  obtain ⟨hne, ha⟩ := htable pid a ha
  obtain ⟨q, hq, hqid⟩ := h.listed pid a ha
  exact ⟨q, live_set.mpr (.inr ⟨hne, hq⟩), hqid⟩

/-- A process with the same ids can take the place of a process. -/
lemma Inv.set (hp : s.procs key = some p) (hlive : p'.live = p.live) (hid : p'.id = p.id)
    (hpgrp : p'.pgrp = p.pgrp) (hsession : p'.session = p.session) : (s.set key p').Inv := by
  cases hl : p.live with
  | true =>
    have hp' : s.Live key p := ⟨hp, hl⟩
    refine h.move ?_ ?_ ?_ hp' hid (hlive.trans hl) <;> intro a q hq _ heq <;> rw [hsession]
    · exact h.same hq hp' (heq.trans hpgrp)
    · exact (h.own hq hp' (heq.trans hpgrp).symm).symm
    · exact h.own hp' hq (heq.trans hid)
  | false =>
    refine h.bury hp (hlive.trans hl) fun pid a ha => ⟨?_, ha⟩
    rintro rfl
    obtain ⟨q, hq, -⟩ := h.listed pid a ha
    obtain rfl := some.inj (hp.symm.trans hq.1)
    cases hl.symm.trans hq.2

/-! ### The calls -/

lemma exists_of_pgrpInSession {pgrp session : Pid} (hin : s.pgrpInSession pgrp session = true) :
    ∃ a q, s.Live a q ∧ q.pgrp = pgrp ∧ q.session = session := by
  obtain ⟨a, -, ha⟩ := List.any_eq_true.mp hin
  cases hq : s.procs a with
  | none => simp [hq] at ha
  | some q =>
    simp only [hq, Bool.and_eq_true, decide_eq_true_eq] at ha
    obtain ⟨⟨htable, hpgrp⟩, hsession⟩ := ha
    obtain ⟨q', hlive, -⟩ := h.listed _ _ htable
    obtain rfl : q = q' := some.inj (hq.symm.trans hlive.1)
    exact ⟨a, q, hlive, hpgrp, hsession⟩

omit h in
/-- A process goes to its own group or to one of its session. -/
lemma setpgid_cases {pid pgid : Pid} (h : s.setpgid cur current pid pgid = .ok s') :
    ∃ key target newPgid, s.lookupOrSelf cur pid = some key ∧ s.procs key = some target ∧
      (newPgid = target.id ∨ s.pgrpInSession newPgid target.session = true) ∧
      s' = s.set key { target with pgrp := newPgid } := by
  unfold Processes.setpgid at h
  rw [ite_eq_iff] at h
  obtain ⟨-, h⟩ | ⟨-, h⟩ := h
  · cases h
  cases hkey : s.lookupOrSelf cur pid with
  | none => simp [hkey] at h
  | some key =>
    simp only [hkey] at h
    cases htarget : s.procs key with
    | none => simp [htarget] at h
    | some target =>
      simp only [htarget] at h
      generalize (if pgid = 0 then target.id else pgid) = newPgid at h
      split_ifs at h with _ _ _ _ hpgid
      refine ⟨key, target, newPgid, rfl, htarget, ?_, (Except.ok.inj h).symm⟩
      by_cases heq : newPgid = target.id
      · exact .inl heq
      · exact .inr (by simpa [heq] using hpgid)

lemma Inv.setpgid (hcur : s.Live cur current) {pid pgid : Pid}
    (hok : s.setpgid cur current pid pgid = .ok s') : s'.Inv := by
  obtain ⟨key, target, newPgid, hkey, htarget, hgroup, rfl⟩ := setpgid_cases hok
  have hlive : s.Live key target := by
    unfold lookupOrSelf at hkey
    split_ifs at hkey
    · cases hkey
      obtain rfl := some.inj (hcur.1.symm.trans htarget)
      exact hcur
    · obtain ⟨p, hp, -⟩ := h.listed _ _ hkey
      obtain rfl := some.inj (hp.1.symm.trans htarget)
      exact hp
  have hown : ∀ ⦃a q⦄, s.Live a q → q.pgrp = target.id → q.session = target.session :=
    fun _ _ hq heq => h.own hlive hq heq
  rcases hgroup with rfl | hin
  · exact h.move (fun _ _ hq _ heq => hown hq heq)
      (fun _ _ hq hne heq => absurd (h.ids hq hlive heq) hne) (fun _ _ hq _ heq => hown hq heq)
      hlive rfl hlive.2
  · obtain ⟨b, r, hr, rfl, hsession⟩ := exists_of_pgrpInSession h hin
    refine h.move (fun _ _ hq _ heq => ?_) (fun _ _ hq _ heq => ?_)
      (fun _ _ hq _ heq => hown hq heq) hlive rfl hlive.2
    · exact (h.same hq hr heq).trans hsession
    · exact (h.own hq hr heq.symm).symm.trans hsession

lemma Inv.setsid (hcur : s.Live cur current) (hcareful : s.Careful cur current .setsid)
    (hok : s.setsid cur current = .ok s') : s'.Inv := by
  unfold Processes.setsid at hok
  split_ifs at hok with hleads
  cases hok
  have halone := hcareful.resolve_left hleads
  exact h.move (fun _ _ hq hne heq => absurd heq (halone _ _ hq hne))
    (fun _ _ hq hne heq => absurd (h.ids hq hcur heq) hne)
    (fun _ _ hq hne heq => absurd heq (halone _ _ hq hne)) hcur rfl hcur.2

omit h in
lemma live_insert (hnew : p.live = true) : (s.insert p).Live key q ↔
    (key = s.counter ∧ q = p) ∨ (key ≠ s.counter ∧ s.Live key q) := by
  change (s.set s.counter p).Live key q ↔ _
  rw [live_set, hnew, eq_self_iff_true, and_true]

lemma Inv.insert (hp : s.Live key p) (hid : p'.id = s.nextId) (hlive : p'.live = true)
    (hpgrp : p'.pgrp = p.pgrp) (hsession : p'.session = p.session)
    (hfresh : ∀ key p, s.Live key p → p.id ≠ s.nextId ∧ p.pgrp ≠ s.nextId) : (s.insert p').Inv := by
  have hnew : ∀ {a q}, s.Live a q → a ≠ s.counter := fun hq =>
    Nat.ne_of_lt (h.created _ _ hq.1)
  refine h.of_one (fun a q hq _ heq => ?_) (fun a q hq _ heq => ?_)
    (fun a q hq _ heq => absurd (heq.trans hid) (hfresh a q hq).2) (fun a q hq => ?_)
    (fun pid a ha => ?_) (fun a q => (live_insert hlive).mp) fun a q hq _ => hid ▸ (hfresh a q hq).1
  · rw [hsession]
    exact h.same hq hp (hpgrp ▸ heq)
  · rw [hsession]
    exact (h.own hq hp (hpgrp ▸ heq.symm)).symm
  · change update s.procs s.counter (some p') a = some q at hq
    rcases eq_or_ne a s.counter with rfl | hne
    · exact Nat.lt_succ_self _
    · rw [update_of_ne hne] at hq
      exact Nat.lt_succ_of_lt (h.created a q hq)
  · change update s.table p'.id (some s.counter) pid = some a at ha
    rcases eq_or_ne pid p'.id with rfl | hne
    · rw [update_self, some.injEq] at ha
      exact ⟨p', (live_insert hlive).mpr (.inl ⟨ha.symm, rfl⟩), rfl⟩
    · rw [update_of_ne hne] at ha
      obtain ⟨q, hq, hqid⟩ := h.listed pid a ha
      exact ⟨q, (live_insert hlive).mpr (.inr ⟨hnew hq, hq⟩), hqid⟩

lemma Inv.fork (hcur : s.Live cur current) {space thread : Bool}
    (hcareful : s.Careful cur current (.fork space thread)) :
    (s.fork cur current space thread).2.Inv := by
  unfold Processes.fork
  split_ifs with hspace hthread
  · exact h
  · exact ⟨fun a q hq => Nat.lt_succ_of_lt (h.created a q hq), h.ids, h.listed, h.own,
      h.same⟩
  · have hfresh := hcareful (by simpa using hspace) (by simpa using hthread)
    have hset : (s.set cur { current with children := current.children ++ [s.counter] }).Inv :=
      h.set hcur.1 rfl rfl rfl rfl
    refine hset.insert (live_set.mpr (.inl ⟨rfl, rfl, hcur.2⟩)) rfl rfl rfl rfl ?_
    intro a q hq
    rcases live_set.mp hq with ⟨-, rfl, -⟩ | ⟨-, hq'⟩
    · exact hfresh cur current hcur
    · exact hfresh a q hq'

lemma Inv.exit (hcur : s.Live cur current) (hexit : s.exit cur current = some s') : s'.Inv := by
  unfold Processes.exit at hexit
  split_ifs at hexit
  have hdie : (Processes.set { s with table := update s.table current.id none } cur
      { current with live := false, children := [] }).Inv := by
    refine h.bury hcur.1 rfl fun pid a ha => ?_
    rcases eq_or_ne pid current.id with rfl | hne
    · rw [update_self] at ha
      cases ha
    · rw [update_of_ne hne] at ha
      refine ⟨?_, ha⟩
      rintro rfl
      obtain ⟨q, hq, hqid⟩ := h.listed pid a ha
      obtain rfl := some.inj (hq.1.symm.trans hcur.1)
      exact hne hqid.symm
  dsimp only at hexit
  split at hexit
  · next p hp =>
    cases hexit
    exact hdie.set hp rfl rfl rfl rfl
  · cases hexit
    exact hdie

lemma Inv.does {call : Call} (hcur : s.Live cur current) (hcareful : s.Careful cur current call)
    (hdoes : s.does cur current call = some s') : s'.Inv := by
  cases call with
  | fork space thread =>
    cases hdoes
    exact h.fork hcur hcareful
  | exit => exact h.exit hcur hdoes
  | setpgid pid pgid =>
    unfold Processes.does at hdoes
    dsimp only at hdoes
    split at hdoes
    · next hok =>
      cases hdoes
      exact h.setpgid hcur hok
    · cases hdoes
      exact h
  | setsid =>
    unfold Processes.does at hdoes
    dsimp only at hdoes
    split at hdoes
    · next hok =>
      cases hdoes
      exact h.setsid hcur hcareful hok
    · cases hdoes
      exact h
  | execve =>
    cases hdoes
    exact h.set hcur.1 rfl rfl rfl rfl
  | wait child =>
    cases hdoes
    unfold Processes.reap
    split_ifs
    · exact h.set hcur.1 rfl rfl rfl rfl
    · exact h

end

/-! ### Runs -/

/-- The two processes at the start are each in a group and a session of their own. -/
lemma boot_cases (h : boot.procs key = some p) :
    ∃ id : Pid, (key = 0 ∧ id = 0 ∨ key = 1 ∧ id = 1) ∧ p.id = id ∧ p.pgrp = id ∧ p.session = id := by
  match key with
  | 0 =>
    cases h
    exact ⟨0, by decide⟩
  | 1 =>
    cases h
    exact ⟨1, by decide⟩
  | key + 2 => cases h

lemma inv_boot : boot.Inv := by
  -- what two processes have in common decides which ones they are
  have hkey : ∀ {a b : ℕ} {i j : Pid}, (a = 0 ∧ i = 0 ∨ a = 1 ∧ i = 1) →
      (b = 0 ∧ j = 0 ∨ b = 1 ∧ j = 1) → i = j → a = b := by
    rintro a b i j (⟨rfl, rfl⟩ | ⟨rfl, rfl⟩) (⟨rfl, rfl⟩ | ⟨rfl, rfl⟩) heq
    · rfl
    · cases heq
    · cases heq
    · rfl
  refine ⟨?_, ?_, ?_, ?_, ?_⟩
  · intro a p hp
    obtain ⟨_, ⟨rfl, -⟩ | ⟨rfl, -⟩, -⟩ := boot_cases hp <;> decide
  · intro a b p q hp hq heq
    obtain ⟨i, hi, hpi, -, -⟩ := boot_cases hp.1
    obtain ⟨j, hj, hqj, -, -⟩ := boot_cases hq.1
    exact hkey hi hj (hpi ▸ hqj ▸ heq)
  · intro pid a ha
    change update (update (fun _ => none) 0 (some 0)) 1 (some 1) pid = some a at ha
    rcases eq_or_ne pid 1 with rfl | hone
    · rw [update_self, some.injEq] at ha
      subst ha
      exact ⟨_, ⟨rfl, rfl⟩, rfl⟩
    · rw [update_of_ne hone] at ha
      rcases eq_or_ne pid 0 with rfl | hzero
      · rw [update_self, some.injEq] at ha
        subst ha
        exact ⟨_, ⟨rfl, rfl⟩, rfl⟩
      · rw [update_of_ne hzero] at ha
        cases ha
  · intro a b p q hp hq heq
    obtain ⟨i, -, hpi, -, hps⟩ := boot_cases hp.1
    obtain ⟨j, -, -, hqg, hqs⟩ := boot_cases hq.1
    rw [hqs, hps, ← hqg, heq, hpi]
  · intro a b p q hp hq heq
    obtain ⟨i, -, -, hpg, hps⟩ := boot_cases hp.1
    obtain ⟨j, -, -, hqg, hqs⟩ := boot_cases hq.1
    rw [hqs, hps, ← hqg, ← hpg, heq]

/-- In a run of calls that are careful, the processes of a group are in one session. -/
theorem Reaches.sameSession (h : Reaches Careful s) : s.SameSession := by
  suffices hinv : s.Inv from hinv.same
  induction h with
  | boot => exact inv_boot
  | step _ hcur hcareful hdoes ih => exact ih.does hcur hcareful hdoes

/-- Init after it was made. -/
def initProcess : Process := ⟨1, 1, 1, [], false, true⟩

/-- Init has forked a process. -/
def forked : Processes := (boot.fork 1 initProcess true true).2

/-- The forked process has made a group. -/
def grouped : Processes := forked.set 2 ⟨2, 2, 1, [], false, true⟩

lemma reaches_grouped {Allowed : Processes → ℕ → Process → Call → Prop}
    (hfork : Allowed boot 1 initProcess (.fork true true))
    (h : Allowed forked 2 ⟨2, 1, 1, [], false, true⟩ (.setpgid 0 0)) : Reaches Allowed grouped :=
  .step (.step .boot ⟨rfl, rfl⟩ hfork rfl) ⟨rfl, rfl⟩ h rfl

theorem sameSession_grouped : Reaches Careful grouped ∧ grouped.SameSession := by
  have hreaches : Reaches Careful grouped := by
    refine reaches_grouped (fun _ _ key p hp => ?_) trivial
    obtain ⟨id, hid, hpid, hpgrp, -⟩ := boot_cases hp.1
    rw [hpid, hpgrp]
    obtain ⟨-, rfl⟩ | ⟨-, rfl⟩ := hid <;> decide
  exact ⟨hreaches, hreaches.sameSession⟩

/-- It has forked a process into the group. -/
def grown : Processes := (grouped.fork 2 ⟨2, 2, 1, [], false, true⟩ true true).2

/-- It has made a session. -/
def split : Processes := grown.set 2 ⟨2, 2, 2, [3], false, true⟩

/-- A process makes a group, forks a process into it, and then makes a session: the two processes of
its group are in different sessions. -/
theorem not_sameSession_split :
    Reaches (fun _ _ _ _ => True) split ∧ ¬ split.SameSession := by
  have hgrown : Reaches (fun _ _ _ _ => True) grown :=
    .step (reaches_grouped trivial trivial) ⟨rfl, rfl⟩ trivial
      (show grouped.does 2 _ (.fork true true) = some grown from rfl)
  refine ⟨.step hgrown (⟨rfl, rfl⟩ : grown.Live 2 ⟨2, 2, 1, [3], false, true⟩) trivial
    (show grown.does 2 _ .setsid = some split from rfl), fun hsame => ?_⟩
  have hleader : split.Live 2 ⟨2, 2, 2, [3], false, true⟩ := ⟨rfl, rfl⟩
  have hmember : split.Live 3 ⟨3, 2, 1, [], false, true⟩ := ⟨rfl, rfl⟩
  exact absurd (hsame hleader hmember rfl) (by decide)

end Processes

end Zinnia
