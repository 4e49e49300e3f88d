import Mathlib.Data.Fintype.Card
import Mathlib.Data.List.DropRight
import Zinnia.Util

/-!
# TLB shootdowns

A CPU that has changed a page table submits a node to the table's queue. Every other CPU that is
bound to the table invalidates the range of the node, or stops being bound; the last one completes
the node.

The state is that of the kernel between two sections that hold a lock. What a CPU keeps for itself
is set together with the section before it. A CPU that is about to change its binding has
interrupts disabled, and does nothing else in the meantime.
-/

namespace Zinnia

open Function

/-! ### Invalidating -/

/-- What a CPU removes from its TLB. -/
inductive Flush where
  | all
  | page (addr : VirtAddr)
deriving DecidableEq

structure ShootdownNode (C : Type) where
  /-- Tells apart nodes with the same contents. -/
  id : ℕ
  address : Usize
  size : Usize
  sequence : ℕ
  initiatorCpu : C
  bindingsToShoot : ℤ

/-- `FULL_FLUSH_PAGES`. -/
def fullFlushPages : ℕ := 64

/-- The loop of `invalidate_node`. -/
def flushLoop (address size : Usize) : ℕ → Usize → Option (List Flush)
  | 0, _ => none
  | n + 1, off =>
    if off < size then
      (flushLoop address size n (off + BitVec.ofNat 64 pageSize)).map (.page (address + off) :: ·)
    else some []

/-- `invalidate_node`. `none` stands for a loop that does not end. -/
def invalidateNode (isGlobal : Bool) (address size : Usize) : Option (List Flush) :=
  if !isGlobal && (size >>> pageBits).toNat ≥ fullFlushPages then some [.all]
  else flushLoop address size (size.toNat / pageSize + 2) 0

/-- The node is long enough that a CPU invalidates all pages. -/
def FullFlush (size : Usize) : Prop := fullFlushPages ≤ size.toNat / pageSize

lemma fullFlush_iff (size : Usize) :
    (size >>> pageBits).toNat ≥ fullFlushPages ↔ FullFlush size := by
  rw [FullFlush, BitVec.toNat_ushiftRight, Nat.shiftRight_eq_div_pow]
  rfl

/-- The loop of `invalidate_node` flushes every page at a stride of the page size. -/
lemma flushLoop_spec (address : Usize) {size : Usize} (hsize : size.toNat + pageSize ≤ 2 ^ 64)
    {fuel : ℕ} (off : Usize) (hpos : 0 < fuel)
    (hfuel : size.toNat + pageSize ≤ off.toNat + fuel * pageSize) :
    ∃ flushes, flushLoop address size fuel off = some flushes ∧ .all ∉ flushes ∧
      ∀ addr, .page addr ∈ flushes ↔ ∃ k, off.toNat + k * pageSize < size.toNat ∧
        addr = address + BitVec.ofNat 64 (off.toNat + k * pageSize) := by
  fun_induction flushLoop with
  | case1 => cases hpos
  | case2 n off hlt ih =>
    rw [BitVec.lt_def] at hlt
    have hnext : (off + BitVec.ofNat 64 pageSize).toNat = off.toNat + pageSize := by
      rw [BitVec.toNat_add, show (BitVec.ofNat 64 pageSize).toNat = pageSize from rfl]
      exact Nat.mod_eq_of_lt (by omega)
    have hshift : ∀ k, off.toNat + (k + 1) * pageSize = off.toNat + pageSize + k * pageSize := by
      simp only [pageSize]
      omega
    obtain ⟨flushes, hloop, hall, hpages⟩ := ih
      (Nat.pos_of_ne_zero fun hzero => by rw [hzero] at hfuel; omega) (by rwa [hnext, ← hshift])
    refine ⟨.page (address + off) :: flushes, by rw [hloop]; rfl, by simp [hall], fun addr => ?_⟩
    rw [List.mem_cons, hpages, hnext]
    constructor
    · rintro (heq | ⟨k, hk, haddr⟩)
      · cases heq
        exact ⟨0, by omega, by simp⟩
      · exact ⟨k + 1, (hshift k).trans_lt hk, (hshift k).symm ▸ haddr⟩
    · rintro ⟨k, hk, haddr⟩
      cases k with
      | zero =>
        rw [haddr]
        exact .inl (by simp)
      | succ k =>
        rw [hshift] at hk haddr
        exact .inr ⟨k, hk, haddr⟩
  | case3 n off hge =>
    rw [BitVec.lt_def] at hge
    refine ⟨[], rfl, List.not_mem_nil, fun addr => ⟨nofun, ?_⟩⟩
    rintro ⟨k, hk, -⟩
    omega

/-- A user binding always comes to the end of a node. -/
lemma isSome_invalidateNode (address size : Usize) :
    (invalidateNode false address size).isSome := by
  rw [invalidateNode]
  split_ifs with hfull
  · rfl
  · rw [Bool.not_false, Bool.true_and, decide_eq_true_eq, fullFlush_iff, FullFlush] at hfull
    have hsize : size.toNat + pageSize ≤ 2 ^ 64 := by
      simp only [fullFlushPages, pageSize] at *
      omega
    obtain ⟨flushes, hloop, -⟩ := flushLoop_spec address hsize 0
      (Nat.succ_pos (size.toNat / pageSize + 1)) (by simp only [pageSize]; omega)
    rw [hloop]
    rfl

/-! ### Queues -/

/-- The state of a page table. -/
structure ShootdownState (C : Type) where
  numBindings : ℤ
  shootSequence : ℕ
  queue : List (ShootdownNode C)

/-- The binding of a CPU to a page table. -/
structure PageBinding (S : Type) where
  boundSpace : Option S
  alreadyShotSequence : ℕ

def PageBinding.new {S : Type} : PageBinding S := ⟨none, 0⟩

variable {C S : Type}

namespace ShootdownState

def new : ShootdownState C := ⟨0, 0, []⟩

/-- The cursor of `do_shootdown` and `drain_shootdown` goes back from the end of the queue as long
as the nodes are newer than `after`. -/
def older (st : ShootdownState C) (after : ℕ) : List (ShootdownNode C) :=
  st.queue.rdropWhile fun node => after < node.sequence

/-- The nodes from the cursor on. -/
def newer (st : ShootdownState C) (after : ℕ) : List (ShootdownNode C) :=
  st.queue.rtakeWhile fun node => after < node.sequence

/-- The nodes that stay in the queue, and those to complete. -/
structure Shot (C : Type) where
  kept : List (ShootdownNode C)
  toComplete : List (ShootdownNode C)

/-- `bindings_to_shoot.fetch_sub(1)`: the last CPU takes the node from the queue. -/
def Shot.fetchSub (node : ShootdownNode C) (rest : Shot C) : Shot C :=
  let node' := { node with bindingsToShoot := node.bindingsToShoot - 1 }
  if node.bindingsToShoot = 1 then { rest with toComplete := node' :: rest.toComplete }
  else { rest with kept := node' :: rest.kept }

section

variable [DecidableEq C]

/-- The loop of `do_shootdown`. A CPU skips the nodes that it has submitted itself. -/
def shootLoop (thisCpu : C) : List (ShootdownNode C) → Shot C
  | [] => ⟨[], []⟩
  | node :: rest =>
    if node.initiatorCpu ≠ thisCpu then (shootLoop thisCpu rest).fetchSub node
    else { shootLoop thisCpu rest with kept := node :: (shootLoop thisCpu rest).kept }

/-- The nodes that `do_shootdown` invalidates. -/
def invalidated (st : ShootdownState C) (isGlobal : Bool) (thisCpu : C) (already : ℕ) :
    List (ShootdownNode C) :=
  (st.newer already).filter fun node =>
    node.initiatorCpu ≠ thisCpu && (invalidateNode isGlobal node.address node.size).isSome

/-- The loop of `drain_shootdown`. -/
def drainLoop (thisCpu : C) (upToSeq : ℕ) : List (ShootdownNode C) → Shot C
  | [] => ⟨[], []⟩
  | node :: rest =>
    if node.sequence > upToSeq then ⟨node :: rest, []⟩
    else if node.initiatorCpu ≠ thisCpu then (drainLoop thisCpu upToSeq rest).fetchSub node
    else
      { drainLoop thisCpu upToSeq rest with kept := node :: (drainLoop thisCpu upToSeq rest).kept }

/-- The section of `do_shootdown`: the state, the nodes to complete and the new sequence number of
the binding. -/
def doShootdown (st : ShootdownState C) (thisCpu : C) (already : ℕ) :
    ShootdownState C × List (ShootdownNode C) × ℕ :=
  let shot := shootLoop thisCpu (st.newer already)
  let maxSeq := (st.newer already).foldl (fun seq node => max seq node.sequence) already
  ({ st with queue := st.older already ++ shot.kept }, shot.toComplete, maxSeq)

/-- The section of `drain_shootdown`. -/
def drainShootdown (st : ShootdownState C) (thisCpu : C) (afterSeq upToSeq : ℕ) :
    ShootdownState C × List (ShootdownNode C) :=
  let shot := drainLoop thisCpu upToSeq (st.newer afterSeq)
  ({ st with queue := st.older afterSeq ++ shot.kept }, shot.toComplete)

end

/-- The section of `rebind` and `initial_bind_global`. -/
def enter (st : ShootdownState C) : ShootdownState C :=
  { st with numBindings := st.numBindings + 1 }

/-- The first section of `leave`. -/
def exit (st : ShootdownState C) : ShootdownState C := { st with numBindings := st.numBindings - 1 }

/-- The number of bindings that a new node waits for. -/
def unshot (st : ShootdownState C) (localBindings : ℕ) : ℤ := max 0 (st.numBindings - localBindings)

/-- The node that `submit_node` puts into the queue. -/
def node (st : ShootdownState C) (id : ℕ) (address size : Usize) (cpu : C) (localBindings : ℕ) :
    ShootdownNode C :=
  ⟨id, address, size, st.shootSequence + 1, cpu, st.unshot localBindings⟩

def push (st : ShootdownState C) (node : ShootdownNode C) : ShootdownState C :=
  { st with shootSequence := st.shootSequence + 1, queue := st.queue ++ [node] }

end ShootdownState

/-! ### CPUs -/

/-- What a CPU does between two sections. -/
inductive Activity (C S : Type) where
  | idle
  /-- It is about to leave a page table, in `rebind` or in `release`. -/
  | leaving (old : S) (oldAlready : ℕ) (release : Bool)
  | draining (old : S) (oldAlready upTo : ℕ) (release : Bool)
  /-- `drain_completions`. -/
  | completing (nodes : List (ShootdownNode C)) (release : Bool)

/-- The part of `CpuData` that matters here. -/
structure CpuData (C S : Type) where
  userBinding : PageBinding S
  globalBinding : PageBinding S
  activity : Activity C S

namespace CpuData

def new : CpuData C S := ⟨.new, .new, .idle⟩

section

variable [DecidableEq S]

/-- The CPU is bound to a page table from the section that increments `num_bindings` to the section
that decrements it. -/
def isBound (cpu : CpuData C S) (s : S) : Bool :=
  let user := decide (cpu.userBinding.boundSpace = some s)
  let global := decide (cpu.globalBinding.boundSpace = some s)
  match cpu.activity with
  | .leaving old _ _ => s = old || user || global
  | .draining _ _ _ true => global
  | .completing _ true => global
  | _ => user || global

/-- The number of bindings of the CPU that are bound to a page table. -/
def localBindings (cpu : CpuData C S) (s : S) : ℕ :=
  (if cpu.globalBinding.boundSpace = some s then 1 else 0) +
    if cpu.userBinding.boundSpace = some s then 1 else 0

end

/-- `rebind`, once the new page table has been entered. -/
def rebind (cpu : CpuData C S) (s : S) (targetSeq : ℕ) : CpuData C S where
  userBinding := ⟨some s, targetSeq⟩
  globalBinding := cpu.globalBinding
  activity :=
    match cpu.userBinding.boundSpace with
    | none => .idle
    | some old => .leaving old cpu.userBinding.alreadyShotSequence false

/-- `release`, up to the call of `leave`. -/
def release (cpu : CpuData C S) : CpuData C S :=
  match cpu.userBinding.boundSpace with
  | none => cpu
  | some old => { cpu with activity := .leaving old cpu.userBinding.alreadyShotSequence true }

def binding (cpu : CpuData C S) (isGlobal : Bool) : PageBinding S :=
  if isGlobal then cpu.globalBinding else cpu.userBinding

/-- `do_shootdown`, with the new state of the binding and the nodes to complete. -/
def shot (cpu : CpuData C S) (isGlobal : Bool) (b : PageBinding S)
    (nodes : List (ShootdownNode C)) : CpuData C S where
  userBinding := if isGlobal then cpu.userBinding else b
  globalBinding := if isGlobal then b else cpu.globalBinding
  activity := .completing nodes false

/-- The end of `rebind`, `release` or `do_shootdown`. -/
def finish (cpu : CpuData C S) (release : Bool) : CpuData C S where
  userBinding := if release then .new else cpu.userBinding
  globalBinding := cpu.globalBinding
  activity := .idle

end CpuData

/-- What has happened to a node. -/
structure Fate (C S : Type) where
  space : S
  /-- The CPUs that were bound to the page table when the node was submitted. -/
  bound : Finset C
  /-- Those that have invalidated the range since. -/
  invalidated : Finset C
  /-- Those that have stopped being bound since. -/
  unbound : Finset C
  /-- How often the node has been completed. -/
  completions : ℕ

variable [DecidableEq C] [DecidableEq S]

/-- Nodes of a page table learn that a CPU is no longer bound to it. -/
def Fate.leave (f : Fate C S) (c : C) (s : S) : Fate C S :=
  if f.space = s then { f with unbound := insert c f.unbound } else f

/-- The bindings of all CPUs and the queues of all page tables. -/
structure Shootdowns (C S : Type) where
  spaces : S → ShootdownState C
  cpus : C → CpuData C S
  /-- The number of nodes so far. -/
  nodes : ℕ
  fate : ℕ → Option (Fate C S)

namespace Shootdowns

def initial : Shootdowns C S := ⟨fun _ => .new, fun _ => .new, 0, fun _ => none⟩

/-- A CPU changes its own data and the state of a page table. -/
def set (σ : Shootdowns C S) (c : C) (cpu : CpuData C S) (s : S) (st : ShootdownState C) :
    Shootdowns C S :=
  { σ with spaces := update σ.spaces s st, cpus := update σ.cpus c cpu }

/-- `initial_bind_global`. -/
def initialBindGlobal (σ : Shootdowns C S) (c : C) (s : S) : Shootdowns C S :=
  let cpu := { σ.cpus c with globalBinding := ⟨some s, (σ.spaces s).shootSequence⟩ }
  σ.set c cpu s (σ.spaces s).enter

/-- `rebind`, up to the call of `leave`. -/
def rebind (σ : Shootdowns C S) (c : C) (s : S) : Shootdowns C S :=
  if (σ.cpus c).userBinding.boundSpace = some s then σ
  else σ.set c ((σ.cpus c).rebind s (σ.spaces s).shootSequence) s (σ.spaces s).enter

def release (σ : Shootdowns C S) (c : C) : Shootdowns C S :=
  { σ with cpus := update σ.cpus c (σ.cpus c).release }

/-- The first section of `leave`. -/
def leave (σ : Shootdowns C S) (c : C) (old : S) (oldAlready : ℕ) (release : Bool) :
    Shootdowns C S :=
  let activity := .draining old oldAlready (σ.spaces old).shootSequence release
  { σ.set c { σ.cpus c with activity } old (σ.spaces old).exit with
    fate := fun id => (σ.fate id).map (·.leave c old) }

/-- The second section of `leave`. -/
def drain (σ : Shootdowns C S) (c : C) (old : S) (oldAlready upTo : ℕ) (release : Bool) :
    Shootdowns C S :=
  let (st, toComplete) := (σ.spaces old).drainShootdown c oldAlready upTo
  σ.set c { σ.cpus c with activity := .completing toComplete release } old st

/-- `complete`. -/
def complete (σ : Shootdowns C S) (c : C) (node : ShootdownNode C)
    (rest : List (ShootdownNode C)) (release : Bool) : Shootdowns C S :=
  { σ with
    cpus := update σ.cpus c { σ.cpus c with activity := .completing rest release }
    fate := update σ.fate node.id <|
      (σ.fate node.id).map fun f => { f with completions := f.completions + 1 } }

def finish (σ : Shootdowns C S) (c : C) (release : Bool) : Shootdowns C S :=
  { σ with cpus := update σ.cpus c ((σ.cpus c).finish release) }

/-- The nodes learn which of them a CPU has invalidated. -/
def invalidate (fate : ℕ → Option (Fate C S)) (c : C) (nodes : List (ShootdownNode C)) :
    ℕ → Option (Fate C S) := fun id =>
  if nodes.any (·.id = id) then
    (fate id).map fun f => { f with invalidated := insert c f.invalidated }
  else fate id

/-- `do_shootdown` of one of the bindings. -/
def shootdown (σ : Shootdowns C S) (isGlobal : Bool) (c : C) (s : S) : Shootdowns C S :=
  let already := ((σ.cpus c).binding isGlobal).alreadyShotSequence
  let (st, toComplete, maxSeq) := (σ.spaces s).doShootdown c already
  { σ.set c ((σ.cpus c).shot isGlobal ⟨some s, maxSeq⟩ toComplete) s st with
    fate := invalidate σ.fate c ((σ.spaces s).invalidated isGlobal c already) }

variable [Fintype C]

/-- `submit_node`. The pages of the kernel are invalidated even by a CPU that is not bound yet. -/
def submitNode (isUser : S → Bool) (σ : Shootdowns C S) (c : C) (s : S) (address size : Usize) :
    Shootdowns C S :=
  let localBindings := (σ.cpus c).localBindings s
  let node := (σ.spaces s).node σ.nodes address size c localBindings
  let flushes := invalidateNode (!isUser s) address size
  let fate : Fate C S :=
    { space := s
      bound := Finset.univ.filter fun d => (σ.cpus d).isBound s
      invalidated := if isUser s && localBindings = 0 || flushes.isNone then ∅ else {c}
      unbound := ∅
      completions := if node.bindingsToShoot = 0 then 1 else 0 }
  { σ with
    spaces :=
      if node.bindingsToShoot = 0 then σ.spaces
      else update σ.spaces s ((σ.spaces s).push node)
    nodes := σ.nodes + 1
    fate := update σ.fate σ.nodes (some fate) }

/-- A CPU goes on with what it has begun, or services a binding. The early returns of
`do_shootdown` are no steps. -/
inductive Serve (σ : Shootdowns C S) : Shootdowns C S → Prop
  | leave {c : C} {old : S} {already : ℕ} {release : Bool}
    (hc : (σ.cpus c).activity = .leaving old already release) :
    Serve σ (σ.leave c old already release)
  | drain {c : C} {old : S} {already upTo : ℕ} {release : Bool}
    (hc : (σ.cpus c).activity = .draining old already upTo release) :
    Serve σ (σ.drain c old already upTo release)
  | complete {c : C} {node : ShootdownNode C} {rest : List (ShootdownNode C)} {release : Bool}
    (hc : (σ.cpus c).activity = .completing (node :: rest) release) :
    Serve σ (σ.complete c node rest release)
  | finish {c : C} {release : Bool} (hc : (σ.cpus c).activity = .completing [] release) :
    Serve σ (σ.finish c release)
  | shootdown {isGlobal : Bool} {c : C} {s : S} (hidle : (σ.cpus c).activity = .idle)
    (hs : ((σ.cpus c).binding isGlobal).boundSpace = some s)
    (hnew : (σ.spaces s).newer ((σ.cpus c).binding isGlobal).alreadyShotSequence ≠ []) :
    Serve σ (σ.shootdown isGlobal c s)

/-- The steps of the CPUs, in any order. User page tables are bound by the user binding of a CPU,
the others by its global binding. -/
inductive Step (isUser : S → Bool) (σ : Shootdowns C S) : Shootdowns C S → Prop
  | initialBindGlobal {c : C} {s : S} (hidle : (σ.cpus c).activity = .idle)
    (hs : isUser s = false) (hfree : (σ.cpus c).globalBinding.boundSpace = none) :
    Step isUser σ (σ.initialBindGlobal c s)
  | rebind {c : C} {s : S} (hidle : (σ.cpus c).activity = .idle) (hs : isUser s = true) :
    Step isUser σ (σ.rebind c s)
  | release {c : C} (hidle : (σ.cpus c).activity = .idle) : Step isUser σ (σ.release c)
  | serve {σ' : Shootdowns C S} (hserve : Serve σ σ') : Step isUser σ σ'
  /-- For a page table of the kernel, the section itself runs `invalidate_node` and ends only if
  the loop does. -/
  | submitNode {c : C} {s : S} (address size : Usize) (hidle : (σ.cpus c).activity = .idle)
    (hends : isUser s = false → (invalidateNode true address size).isSome) :
    Step isUser σ (submitNode isUser σ c s address size)

inductive Reachable (isUser : S → Bool) : Shootdowns C S → Prop
  | initial : Reachable isUser .initial
  | step {σ σ' : Shootdowns C S} (h : Reachable isUser σ) (hstep : Step isUser σ σ') :
    Reachable isUser σ'

end Shootdowns

end Zinnia
