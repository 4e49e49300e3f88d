import Mathlib.Algebra.Order.BigOperators.Group.Finset
import Zinnia.Memory.Virt.Shootdown.Queue

/-!
# Properties of TLB shootdowns

Every section changes how one CPU stands to one page table, and the queue of that page table
accordingly. So the counters are right in every reachable state; and a node is completed once, by
the CPU that takes it from its queue.
-/

namespace Zinnia

open ShootdownState Function List Option Finset Bool

/-! ### One CPU -/

namespace CpuData

variable {C S : Type}

/-- The user binding is for user page tables, the global binding for the others. A CPU that
releases its binding keeps it until the end, one that binds itself anew has a new one already. -/
structure Tidy (isUser : S → Bool) (cpu : CpuData C S) : Prop where
  user : ∀ s, cpu.userBinding.boundSpace = some s → isUser s = true
  globalBinding : ∀ s, cpu.globalBinding.boundSpace = some s → isUser s = false
  leaving : ∀ old a r, cpu.activity = .leaving old a r → isUser old = true ∧
    (r = true → cpu.userBinding = ⟨some old, a⟩) ∧
    (r = false → cpu.userBinding.boundSpace ≠ some old)
  draining : ∀ old a u r, cpu.activity = .draining old a u r → isUser old = true ∧
    (r = true → cpu.userBinding.boundSpace = some old) ∧
    (r = false → cpu.userBinding.boundSpace ≠ some old)

variable {isUser : S → Bool} {cpu : CpuData C S} {s : S}

lemma Tidy.not_globalBinding (h : cpu.Tidy isUser) (hs : isUser s = true) :
    cpu.globalBinding.boundSpace ≠ some s := by
  intro hbound
  rw [h.globalBinding s hbound] at hs
  cases hs

lemma Tidy.not_user (h : cpu.Tidy isUser) (hs : isUser s = false) :
    cpu.userBinding.boundSpace ≠ some s := by
  intro hbound
  rw [h.user s hbound] at hs
  cases hs

variable [DecidableEq S]

/-- How the bindings of the CPU stand to a page table. -/
def boundStanding (cpu : CpuData C S) (s : S) : Standing :=
  if cpu.userBinding.boundSpace = some s then .member cpu.userBinding.alreadyShotSequence
  else if cpu.globalBinding.boundSpace = some s then
    .member cpu.globalBinding.alreadyShotSequence
  else .out

def standing (cpu : CpuData C S) (s : S) : Standing :=
  match cpu.activity with
  | .leaving old already _ => if s = old then .member already else cpu.boundStanding s
  | .draining old already upTo _ =>
    if s = old then .draining already upTo else cpu.boundStanding s
  | .completing _ true =>
    if cpu.userBinding.boundSpace = some s then .out else cpu.boundStanding s
  | _ => cpu.boundStanding s

lemma isMember_boundStanding : (cpu.boundStanding s).isMember =
    (decide (cpu.userBinding.boundSpace = some s) ||
      decide (cpu.globalBinding.boundSpace = some s)) := by
  rw [boundStanding]
  split_ifs with huser hglobal
  · simp [Standing.isMember, huser]
  · simp [Standing.isMember, hglobal]
  · simp [Standing.isMember, huser, hglobal]

lemma standing_idle (hidle : cpu.activity = .idle) : cpu.standing s = cpu.boundStanding s := by
  rw [standing, hidle]

/-- A CPU is bound to a page table if and only if it is a member. -/
lemma Tidy.isBound_eq (h : cpu.Tidy isUser) :
    cpu.isBound s = (cpu.standing s).isMember := by
  rw [isBound, standing]
  cases hact : cpu.activity with
  | idle => exact isMember_boundStanding.symm
  | leaving old already release =>
    by_cases hs : s = old
    · simp [hs, Standing.isMember]
    · simp [hs, isMember_boundStanding]
  | draining old already upTo release =>
    obtain ⟨huser, hrel, hreb⟩ := h.draining old already upTo release hact
    rcases eq_or_ne s old with rfl | hs
    · have hglobal := h.not_globalBinding huser
      cases release with
      | true => simp [Standing.isMember, hglobal]
      | false => simp [Standing.isMember, hglobal, hreb rfl]
    · cases release with
      | true =>
        have hne : cpu.userBinding.boundSpace ≠ some s := by
          rw [hrel rfl]
          exact fun heq => hs (some.inj heq).symm
        simp [hs, isMember_boundStanding, hne]
      | false => simp [hs, isMember_boundStanding]
  | completing nodes release =>
    cases release with
    | false => exact isMember_boundStanding.symm
    | true =>
      by_cases hs : cpu.userBinding.boundSpace = some s
      · have hglobal := h.not_globalBinding (h.user s hs)
        simp [hs, Standing.isMember, hglobal]
      · simp [hs, isMember_boundStanding]

/-- At most one binding of a CPU is bound to a page table. -/
lemma Tidy.localBindings_eq (h : cpu.Tidy isUser) (hidle : cpu.activity = .idle) :
    cpu.localBindings s = if (cpu.standing s).isMember then 1 else 0 := by
  rw [standing_idle hidle, isMember_boundStanding, localBindings]
  by_cases huser : cpu.userBinding.boundSpace = some s
  · simp [h.not_globalBinding (h.user s huser)]
  · by_cases hglobal : cpu.globalBinding.boundSpace = some s <;> simp [huser]

/-- A CPU changes how it stands to one page table. -/
def Changes (cpu cpu' : CpuData C S) (s : S) (y : Standing) : Prop :=
  ∀ t, cpu'.standing t = if t = s then y else cpu.standing t

/-! ### What the sections change -/

section

variable {seq : ℕ} {nodes : List (ShootdownNode C)}

section

variable (h : cpu.Tidy isUser) {r : Bool} {old : S}

include h

lemma Tidy.initialBindGlobal (hidle : cpu.activity = .idle) (hs : isUser s = false)
    (hfree : cpu.globalBinding.boundSpace = none) :
    Tidy isUser { cpu with globalBinding := ⟨some s, seq⟩ } ∧ cpu.standing s = .out ∧
      Changes cpu { cpu with globalBinding := ⟨some s, seq⟩ } s (.member seq) := by
  have huser := h.not_user hs
  refine ⟨⟨h.user, fun t ht => ?_, h.leaving, h.draining⟩, ?_, fun t => ?_⟩
  · cases ht
    exact hs
  · rw [standing_idle hidle, boundStanding, if_neg huser, hfree, if_neg nofun]
  · simp only [standing, hidle, boundStanding, hfree]
    by_cases ht : t = s
    · simp [ht, huser]
    · simp [ht, Ne.symm ht]

lemma Tidy.rebind (hidle : cpu.activity = .idle) (hs : isUser s = true)
    (hne : cpu.userBinding.boundSpace ≠ some s) :
    (cpu.rebind s seq).Tidy isUser ∧ cpu.standing s = .out ∧
      Changes cpu (cpu.rebind s seq) s (.member seq) := by
  have hglobal := h.not_globalBinding hs
  refine ⟨⟨fun t ht => ?_, h.globalBinding, fun old a r hact => ?_, fun old a u r hact => ?_⟩, ?_,
    fun t => ?_⟩
  · cases ht
    exact hs
  · simp only [CpuData.rebind] at hact
    cases hold : cpu.userBinding.boundSpace with
    | none =>
      rw [hold] at hact
      cases hact
    | some o =>
      rw [hold] at hact
      cases hact
      refine ⟨h.user old hold, nofun, fun _ heq => hne ?_⟩
      rw [hold, ← heq]
      rfl
  · simp only [CpuData.rebind] at hact
    cases hold : cpu.userBinding.boundSpace <;> rw [hold] at hact <;> cases hact
  · rw [standing_idle hidle, boundStanding, if_neg hne, if_neg hglobal]
  · rw [standing_idle hidle]
    cases hold : cpu.userBinding.boundSpace with
    | none =>
      simp only [standing, CpuData.rebind, hold, boundStanding]
      by_cases ht : t = s
      · simp [ht]
      · simp [ht, Ne.symm ht]
    | some o =>
      have hos : o ≠ s := fun heq => hne (heq ▸ hold)
      simp only [standing, CpuData.rebind, hold, boundStanding]
      by_cases hto : t = o
      · simp [hto, hos]
      · by_cases ht : t = s
        · simp [ht, Ne.symm hos]
        · simp [ht, Ne.symm ht, hto, Ne.symm hto]

lemma Tidy.release (hidle : cpu.activity = .idle) :
    cpu.release.Tidy isUser ∧ ∀ t, cpu.release.standing t = cpu.standing t := by
  cases hold : cpu.userBinding.boundSpace with
  | none =>
    have hrelease : cpu.release = cpu := by rw [CpuData.release, hold]
    rw [hrelease]
    exact ⟨h, fun t => rfl⟩
  | some old =>
    have hrelease : cpu.release =
        { cpu with activity := .leaving old cpu.userBinding.alreadyShotSequence true } := by
      rw [CpuData.release, hold]
    rw [hrelease]
    refine ⟨⟨h.user, h.globalBinding, fun o a r hact => ?_, fun o a u r hact => ?_⟩, fun t => ?_⟩
    · cases hact
      refine ⟨h.user old hold, fun _ => ?_, nofun⟩
      rw [← hold]
    · cases hact
    · simp only [standing, hidle, boundStanding, hold]
      by_cases ht : t = old
      · simp [ht]
      · simp [ht]

lemma Tidy.leave {a : ℕ} (hact : cpu.activity = .leaving old a r) (seq : ℕ) :
    Tidy isUser ({ cpu with activity := .draining old a seq r } : CpuData C S) ∧
      cpu.standing old = .member a ∧
      Changes cpu { cpu with activity := .draining old a seq r } old (.draining a seq) := by
  obtain ⟨huser, hrel, hreb⟩ := h.leaving old a r hact
  refine ⟨⟨h.user, h.globalBinding, fun o b r' hact' => ?_, fun o b u r' hact' => ?_⟩, ?_,
    fun t => ?_⟩
  · cases hact'
  · cases hact'
    exact ⟨huser, fun hr => by rw [hrel hr], hreb⟩
  · rw [standing, hact]
    simp
  · simp only [standing, hact]
    split_ifs <;> rfl

lemma Tidy.drain {a u : ℕ} (hact : cpu.activity = .draining old a u r)
    (nodes : List (ShootdownNode C)) :
    Tidy isUser { cpu with activity := .completing nodes r } ∧
      cpu.standing old = .draining a u ∧
      Changes cpu { cpu with activity := .completing nodes r } old .out := by
  obtain ⟨huser, hrel, hreb⟩ := h.draining old a u r hact
  have hglobal := h.not_globalBinding huser
  refine ⟨⟨h.user, h.globalBinding, nofun, nofun⟩, ?_, fun t => ?_⟩
  · rw [standing, hact]
    simp
  · simp only [standing, hact]
    cases r with
    | true =>
      have hbound := hrel rfl
      by_cases ht : t = old
      · simp [ht, hbound]
      · simp [ht, hbound, Ne.symm ht, boundStanding]
    | false =>
      have hbound := hreb rfl
      by_cases ht : t = old
      · simp [ht, boundStanding, hbound, hglobal]
      · simp only [ht]
        rfl

lemma Tidy.complete (hact : cpu.activity = .completing nodes r) (rest : List (ShootdownNode C)) :
    Tidy isUser { cpu with activity := .completing rest r } ∧
      ∀ t, CpuData.standing { cpu with activity := .completing rest r } t = cpu.standing t := by
  refine ⟨⟨h.user, h.globalBinding, nofun, nofun⟩, fun t => ?_⟩
  simp only [standing, hact]
  cases r <;> rfl

lemma Tidy.finish (hact : cpu.activity = .completing [] r) :
    (cpu.finish r).Tidy isUser ∧ ∀ t, (cpu.finish r).standing t = cpu.standing t := by
  cases r with
  | false =>
    refine ⟨⟨h.user, h.globalBinding, nofun, nofun⟩, fun t => ?_⟩
    simp only [standing, hact, CpuData.finish]
    rfl
  | true =>
    refine ⟨⟨nofun, h.globalBinding, nofun, nofun⟩, fun t => ?_⟩
    simp only [standing, hact, CpuData.finish, boundStanding, PageBinding.new]
    by_cases ht : cpu.userBinding.boundSpace = some t
    · simp [h.not_globalBinding (h.user t ht)]
    · simp [ht]

omit [DecidableEq S] in
lemma Tidy.isUser_of_binding {isGlobal : Bool} (hs : (cpu.binding isGlobal).boundSpace = some s) :
    isUser s = !isGlobal := by
  cases isGlobal with
  | false => exact h.user s hs
  | true => exact h.globalBinding s hs

lemma Tidy.standing_binding {isGlobal : Bool} (hidle : cpu.activity = .idle)
    (hs : (cpu.binding isGlobal).boundSpace = some s) :
    cpu.standing s = .member (cpu.binding isGlobal).alreadyShotSequence := by
  rw [standing_idle hidle, boundStanding]
  cases isGlobal with
  | false => exact if_pos hs
  | true => exact (if_neg (h.not_user (h.globalBinding s hs))).trans (if_pos hs)

lemma Tidy.shot {isGlobal : Bool} (hidle : cpu.activity = .idle)
    (hs : (cpu.binding isGlobal).boundSpace = some s) :
    (cpu.shot isGlobal ⟨some s, seq⟩ nodes).Tidy isUser ∧
      Changes cpu (cpu.shot isGlobal ⟨some s, seq⟩ nodes) s (.member seq) := by
  have huser := h.isUser_of_binding hs
  cases isGlobal with
  | false =>
    have hbound : cpu.userBinding.boundSpace = some s := hs
    refine ⟨⟨fun t ht => ?_, h.globalBinding, nofun, nofun⟩, fun t => ?_⟩
    · cases ht
      exact huser
    · simp only [standing, hidle, boundStanding, CpuData.shot, hbound]
      by_cases ht : t = s
      · simp [ht]
      · simp [ht, Ne.symm ht]
  | true =>
    have hbound : cpu.globalBinding.boundSpace = some s := hs
    have hnot := h.not_user huser
    refine ⟨⟨h.user, fun t ht => ?_, nofun, nofun⟩, fun t => ?_⟩
    · cases ht
      exact huser
    · simp only [standing, hidle, boundStanding, CpuData.shot, hbound]
      by_cases ht : t = s
      · simp [ht, hnot]
      · simp [ht, Ne.symm ht]

end

end

end CpuData

/-! ### All CPUs -/

namespace Shootdowns

variable {C S : Type}

/-- The nodes that a CPU has taken from a queue, but not completed yet. -/
def completing (σ : Shootdowns C S) (c : C) : List (ShootdownNode C) :=
  match (σ.cpus c).activity with
  | .completing nodes _ => nodes
  | _ => []

variable [DecidableEq C] {isUser : S → Bool} {σ : Shootdowns C S} {c : C} {s : S}
  {cpu : CpuData C S} {st : ShootdownState C} {y : Standing}

section

variable {σ' : Shootdowns C S} (hcpus : σ'.cpus = update σ.cpus c cpu)

include hcpus

lemma completing_of_ne {d : C} (hd : d ≠ c) : σ'.completing d = σ.completing d := by
  rw [completing, hcpus, update_of_ne hd]
  rfl

lemma completing_eq (hself : σ'.completing c = σ.completing c) (d : C) :
    σ'.completing d = σ.completing d := by
  by_cases hd : d = c
  · rw [hd, hself]
  · exact completing_of_ne hcpus hd

lemma completing_self {nodes : List (ShootdownNode C)} {r : Bool}
    (hact : cpu.activity = .completing nodes r) : σ'.completing c = nodes := by
  rw [completing, hcpus, update_self, hact]

end

variable [DecidableEq S]

def standing (σ : Shootdowns C S) (s : S) (c : C) : Standing := (σ.cpus c).standing s

section

variable {σ' : Shootdowns C S} (hcpus : σ'.cpus = update σ.cpus c cpu)

include hcpus

lemma standing_cpu (t : S) : σ'.standing t = update (σ.standing t) c (cpu.standing t) := by
  funext d
  rw [standing, hcpus]
  exact apply_update (fun _ cpu => CpuData.standing cpu t) σ.cpus c cpu d

lemma standing_update (hchanges : CpuData.Changes (σ.cpus c) cpu s y) (t : S) :
    σ'.standing t = if t = s then update (σ.standing s) c y else σ.standing t := by
  rw [standing_cpu hcpus, hchanges]
  split_ifs with ht
  · rw [ht]
  · exact update_eq_self c _

lemma standing_eq (hsame : ∀ t, cpu.standing t = (σ.cpus c).standing t) (t : S) :
    σ'.standing t = σ.standing t := by
  rw [standing_cpu hcpus, hsame]
  exact update_eq_self c _

end

variable [Fintype C] {σ' : Shootdowns C S} {r : Bool} {a : ℕ} {g : ℕ → Fate C S → Fate C S}

structure Inv (isUser : S → Bool) (σ : Shootdowns C S) : Prop where
  tidy : ∀ c, (σ.cpus c).Tidy isUser
  spaces : ∀ s, (σ.spaces s).Inv (σ.standing s)
  fresh : ∀ id, (σ.fate id).isSome ↔ id < σ.nodes
  known : ∀ s, ∀ node ∈ (σ.spaces s).queue, ∃ f, σ.fate node.id = some f ∧ f.space = s
  taken : ∀ c, ∀ node ∈ σ.completing c, node.id < σ.nodes
  /-- A node is in a queue, or a CPU is about to complete it, or it is completed. -/
  once : ∀ id f, σ.fate id = some f →
    (ids (σ.spaces f.space).queue).count id + ∑ c, (ids (σ.completing c)).count id +
      f.completions = 1
  /-- A CPU that was bound when a node was submitted and that has neither invalidated the range
  nor stopped being bound still owes the node. -/
  served : ∀ id f, σ.fate id = some f → ∀ c ∈ f.bound, c ∈ f.invalidated ∨ c ∈ f.unbound ∨
    ∃ node ∈ (σ.spaces f.space).queue, node.id = id ∧ (σ.standing f.space c).isMember ∧
      (σ.standing f.space c).owes c node
  /-- The loop of `invalidate_node` ends. -/
  ends : ∀ s, ∀ node ∈ (σ.spaces s).queue,
    (invalidateNode (!isUser s) node.address node.size).isSome

section

variable {σ' : Shootdowns C S} (hcpus : σ'.cpus = update σ.cpus c cpu)

include hcpus

/-- The page tables after a section that changes one of them. -/
lemma Inv.spaces_update (h : σ.Inv isUser) (hspaces : σ'.spaces = update σ.spaces s st)
    (hchanges : CpuData.Changes (σ.cpus c) cpu s y)
    (hst : st.Inv (update (σ.standing s) c y)) (t : S) :
    (σ'.spaces t).Inv (σ'.standing t) := by
  rw [standing_update hcpus hchanges, hspaces]
  rcases eq_or_ne t s with rfl | ht
  · rw [update_self, if_pos rfl]
    exact hst
  · rw [update_of_ne ht, if_neg ht]
    exact h.spaces t

lemma Inv.tidy_update (h : σ.Inv isUser) (hcpu : cpu.Tidy isUser) (d : C) :
    (σ'.cpus d).Tidy isUser := by
  rw [hcpus]
  exact (forall_update_iff _ fun _ => CpuData.Tidy isUser).mpr ⟨hcpu, fun d _ => h.tidy d⟩ d

end

section

variable (h : σ.Inv isUser)

include h

lemma Inv.lt_nodes {id : ℕ} {f : Fate C S} (hf : σ.fate id = some f) : id < σ.nodes :=
  (h.fresh id).mp (isSome_of_eq_some hf)

lemma Inv.exists_fate {id : ℕ} (hid : id ∈ ids (σ.spaces s).queue) :
    ∃ f, σ.fate id = some f ∧ f.space = s := by
  obtain ⟨node, hnode, rfl⟩ := mem_map.mp hid
  exact h.known s node hnode

/-- A section that submits no node. -/
lemma Inv.of_map (htidy : ∀ d, (σ'.cpus d).Tidy isUser)
    (hspaces : ∀ t, (σ'.spaces t).Inv (σ'.standing t)) (hnodes : σ'.nodes = σ.nodes)
    (hfate : ∀ id, σ'.fate id = (σ.fate id).map (g id))
    (hg : ∀ id f, (g id f).space = f.space ∧ (g id f).bound = f.bound)
    (hqueue : ∀ t, Shrinks (σ'.spaces t).queue (σ.spaces t).queue)
    (htaken : ∀ d, ∀ node ∈ σ'.completing d, node.id < σ.nodes)
    (honce : ∀ id f, σ.fate id = some f → (ids (σ'.spaces f.space).queue).count id +
      ∑ d, (ids (σ'.completing d)).count id + (g id f).completions = 1)
    (hserved : ∀ id f, σ.fate id = some f → ∀ d ∈ f.bound, d ∈ (g id f).invalidated ∨
      d ∈ (g id f).unbound ∨ ∃ node ∈ (σ'.spaces f.space).queue, node.id = id ∧
        (σ'.standing f.space d).isMember ∧ (σ'.standing f.space d).owes d node) :
    σ'.Inv isUser := by
  have hof : ∀ id f', σ'.fate id = some f' → ∃ f, σ.fate id = some f ∧ f' = g id f := by
    intro id f' hf'
    rw [hfate] at hf'
    obtain ⟨f, hf, rfl⟩ := map_eq_some_iff.mp hf'
    exact ⟨f, hf, rfl⟩
  refine ⟨htidy, hspaces, ?_, ?_, hnodes ▸ htaken, ?_, ?_, ?_⟩
  · intro id
    rw [hfate, isSome_map, hnodes]
    exact h.fresh id
  · intro t node' hnode'
    obtain ⟨node, hnode, n, rfl⟩ := (hqueue t).2 node' hnode'
    obtain ⟨f, hf, hspace⟩ := h.known t node hnode
    refine ⟨g node.id f, ?_, (hg _ f).1.trans hspace⟩
    rw [hfate, hf]
    rfl
  · intro id f' hf'
    obtain ⟨f, hf, rfl⟩ := hof id f' hf'
    rw [(hg id f).1]
    exact honce id f hf
  · intro id f' hf'
    obtain ⟨f, hf, rfl⟩ := hof id f' hf'
    rw [(hg id f).1, (hg id f).2]
    exact hserved id f hf
  · intro t node' hnode'
    obtain ⟨node, hnode, n, rfl⟩ := (hqueue t).2 node' hnode'
    exact h.ends t node hnode

/-- A section that leaves the queues alone and completes no node. -/
lemma Inv.quiet {g : Fate C S → Fate C S} (htidy : ∀ d, (σ'.cpus d).Tidy isUser)
    (hspaces : ∀ t, (σ'.spaces t).Inv (σ'.standing t))
    (hqueue : ∀ t, (σ'.spaces t).queue = (σ.spaces t).queue)
    (hcompleting : ∀ d, σ'.completing d = σ.completing d) (hnodes : σ'.nodes = σ.nodes)
    (hfate : ∀ id, σ'.fate id = (σ.fate id).map g)
    (hg : ∀ f, (g f).space = f.space ∧ (g f).bound = f.bound ∧
      (g f).completions = f.completions ∧ (g f).invalidated = f.invalidated ∧
      f.unbound ⊆ (g f).unbound)
    (hstanding : ∀ f d, (σ.standing f.space d).isMember → d ∈ (g f).unbound ∨
      σ'.standing f.space d = σ.standing f.space d) : σ'.Inv isUser := by
  refine h.of_map htidy hspaces hnodes hfate (fun _ f => ⟨(hg f).1, (hg f).2.1⟩) (fun t => ?_)
    (fun d node hnode => ?_) (fun id f hf => ?_) fun id f hf d hd => ?_
  · rw [hqueue]
    exact Shrinks.refl _
  · rw [hcompleting] at hnode
    exact h.taken d node hnode
  · simp only [hqueue, hcompleting, (hg f).2.2.1]
    exact h.once id f hf
  · obtain ⟨-, -, -, hinvalidated, hunbound⟩ := hg f
    rw [hinvalidated]
    refine (h.served id f hf d hd).imp_right ?_
    rintro (hun | ⟨node, hnode, hid, hmember, howes⟩)
    · exact .inl (hunbound hun)
    · refine (hstanding f d hmember).imp_right fun heq => ?_
      rw [hqueue, heq]
      exact ⟨node, hnode, hid, hmember, howes⟩

/-- A CPU goes on without a change to how it stands to the page tables. -/
lemma Inv.setCpu (hcpu : cpu.Tidy isUser) (hsame : ∀ t, cpu.standing t = (σ.cpus c).standing t)
    (hself : completing { σ with cpus := update σ.cpus c cpu } c = σ.completing c) :
    Inv isUser { σ with cpus := update σ.cpus c cpu } := by
  have hstanding : ∀ t, standing { σ with cpus := update σ.cpus c cpu } t = σ.standing t :=
    standing_eq rfl hsame
  refine h.quiet (h.tidy_update rfl hcpu) (fun t => ?_) (fun _ => rfl)
    (completing_eq rfl hself) rfl (fun _ => (map_id_apply ..).symm)
    (fun _ => ⟨rfl, rfl, rfl, rfl, subset_rfl⟩) fun f d _ => .inr (by rw [hstanding])
  rw [hstanding]
  exact h.spaces t

/-- A CPU that acknowledges nodes takes those that are finished from the queue. -/
lemma Inv.acked {toComplete : List (ShootdownNode C)} (hcpus : σ'.cpus = update σ.cpus c cpu)
    (hspaces : σ'.spaces = update σ.spaces s st) (hnodes : σ'.nodes = σ.nodes)
    (hfate : ∀ id, σ'.fate id = (σ.fate id).map (g id)) (hcpu : cpu.Tidy isUser)
    (hchanges : CpuData.Changes (σ.cpus c) cpu s y) (hst : st.Inv (update (σ.standing s) c y))
    (hy : ∀ node ∈ (σ.spaces s).queue, y.owes c node = false)
    (hacks : Shot.Acks ⟨st.queue, toComplete⟩ ((σ.standing s c).owes c) (σ.spaces s).queue)
    (hidle : σ.completing c = []) (hact : cpu.activity = .completing toComplete r)
    (hg : ∀ id f, (g id f).space = f.space ∧ (g id f).bound = f.bound ∧
      (g id f).completions = f.completions ∧ f.invalidated ⊆ (g id f).invalidated ∧
      f.unbound ⊆ (g id f).unbound)
    (hinvalidated : ∀ node ∈ (σ.spaces s).queue, (σ.standing s c).isMember →
      (σ.standing s c).owes c node → ∀ f, c ∈ (g node.id f).invalidated) : σ'.Inv isUser := by
  have hqueue : ∀ t, t ≠ s → (σ'.spaces t).queue = (σ.spaces t).queue := by
    intro t ht
    rw [hspaces, update_of_ne ht]
  have hqueue_self : (σ'.spaces s).queue = st.queue := by rw [hspaces, update_self]
  have hself := completing_self hcpus hact
  have hmem : ∀ id, id ∈ ids toComplete → id ∈ ids (σ.spaces s).queue := by
    intro id hid
    have hsum := hacks.count id
    simp only [← count_pos_iff] at hid hsum ⊢
    omega
  refine h.of_map (h.tidy_update hcpus hcpu) (h.spaces_update hcpus hspaces hchanges hst) hnodes
    hfate (fun id f => ⟨(hg id f).1, (hg id f).2.1⟩) (fun t => ?_) (fun d node hnode => ?_)
    (fun id f hf => ?_) fun id f hf d hd => ?_
  · rcases eq_or_ne t s with rfl | ht
    · rw [hqueue_self]
      exact hacks.shrinks
    · rw [hqueue t ht]
      exact Shrinks.refl _
  · rcases eq_or_ne d c with rfl | hd
    · rw [hself] at hnode
      obtain ⟨f, hf, -⟩ := h.exists_fate (hmem node.id (mem_map_of_mem hnode))
      exact h.lt_nodes hf
    · rw [completing_of_ne hcpus hd] at hnode
      exact h.taken d node hnode
  · have hsum := sum_of_eq_off (f := fun d => (ids (σ'.completing d)).count id)
      fun d hd => by rw [completing_of_ne hcpus hd]
    simp only [hself, hidle] at hsum
    have honce := h.once id f hf
    have hacked := hacks.count id
    rw [(hg id f).2.2.1]
    simp only [ids, map_nil, count_nil] at hsum hacked honce ⊢
    by_cases hspace : f.space = s
    · rw [hspace] at honce ⊢
      rw [hqueue_self]
      omega
    · rw [hqueue _ hspace]
      -- the nodes to complete belong to the page table `s`
      have hzero : (toComplete.map (·.id)).count id = 0 := by
        rw [count_eq_zero]
        intro hid
        obtain ⟨f₁, hf₁, hspace₁⟩ := h.exists_fate (hmem id hid)
        rw [hf] at hf₁
        cases hf₁
        exact hspace hspace₁
      omega
  · obtain ⟨-, -, -, hinv, hunb⟩ := hg id f
    rcases h.served id f hf d hd with hin | hun | ⟨node, hnode, hid, hmember, howes⟩
    · exact .inl (hinv hin)
    · exact .inr (.inl (hunb hun))
    · rw [standing_update hcpus hchanges]
      by_cases ht : f.space = s
      · rw [ht] at hnode hmember howes ⊢
        rw [if_pos rfl, hqueue_self]
        rcases eq_or_ne d c with rfl | hdc
        · have hin := hinvalidated node hnode hmember howes f
          rw [hid] at hin
          exact .inl hin
        · rw [update_of_ne hdc]
          refine .inr (.inr ?_)
          obtain ⟨node', hnode', hid', howes'⟩ :=
            (h.spaces s).exists_kept hacks hnode (hy node hnode) hdc howes
          exact ⟨node', hnode', hid'.trans hid, hmember, howes'⟩
      · rw [if_neg ht, hqueue _ ht]
        exact .inr (.inr ⟨node, hnode, hid, hmember, howes⟩)

end

omit [DecidableEq C] [Fintype C] in
lemma queue_update (hspaces : σ'.spaces = update σ.spaces s st)
    (hst : st.queue = (σ.spaces s).queue) (t : S) : (σ'.spaces t).queue = (σ.spaces t).queue := by
  rw [hspaces]
  by_cases ht : t = s
  · rw [ht, update_self, hst]
  · rw [update_of_ne ht]

section

variable (h : σ.Inv isUser)

include h

/-- A CPU enters a page table. -/
lemma Inv.enter {seq : ℕ} (hseq : seq = (σ.spaces s).shootSequence) (hcpu : cpu.Tidy isUser)
    (hout : (σ.cpus c).standing s = .out)
    (hchanges : CpuData.Changes (σ.cpus c) cpu s (.member seq))
    (hself : (σ.set c cpu s (σ.spaces s).enter).completing c = σ.completing c) :
    (σ.set c cpu s (σ.spaces s).enter).Inv isUser := by
  have hst := (h.spaces s).enter hout
  rw [← hseq] at hst
  refine h.quiet (h.tidy_update rfl hcpu) (h.spaces_update rfl rfl hchanges hst)
    (queue_update rfl rfl) (completing_eq rfl hself) rfl (fun _ => (map_id_apply ..).symm)
    (fun _ => ⟨rfl, rfl, rfl, rfl, subset_rfl⟩) fun f d hmember => .inr ?_
  rw [standing_update rfl hchanges]
  by_cases ht : f.space = s
  · rw [if_pos ht]
    rcases eq_or_ne d c with rfl | hd
    · rw [ht, standing, hout] at hmember
      cases hmember
    · rw [update_of_ne hd, ht]
  · rw [if_neg ht]

lemma Inv.initialBindGlobal (hidle : (σ.cpus c).activity = .idle) (hs : isUser s = false)
    (hfree : (σ.cpus c).globalBinding.boundSpace = none) :
    (σ.initialBindGlobal c s).Inv isUser := by
  obtain ⟨hcpu, hout, hchanges⟩ := (h.tidy c).initialBindGlobal hidle hs hfree
  refine h.enter rfl hcpu hout hchanges ?_
  simp only [completing, set, update_self]

lemma Inv.rebind (hidle : (σ.cpus c).activity = .idle) (hs : isUser s = true) :
    (σ.rebind c s).Inv isUser := by
  rw [Shootdowns.rebind]
  split_ifs with hbound
  · exact h
  obtain ⟨hcpu, hout, hchanges⟩ := (h.tidy c).rebind hidle hs hbound
  refine h.enter rfl hcpu hout hchanges ?_
  simp only [completing, set, update_self, hidle, CpuData.rebind]
  cases (σ.cpus c).userBinding.boundSpace <;> rfl

lemma Inv.release (hidle : (σ.cpus c).activity = .idle) : (σ.release c).Inv isUser := by
  obtain ⟨hcpu, hsame⟩ := (h.tidy c).release hidle
  refine h.setCpu hcpu hsame ?_
  simp only [completing, update_self, hidle, CpuData.release]
  cases (σ.cpus c).userBinding.boundSpace with
  | none => simp only [hidle]
  | some old => rfl

lemma Inv.finish (hact : (σ.cpus c).activity = .completing [] r) : (σ.finish c r).Inv isUser := by
  obtain ⟨hcpu, hsame⟩ := (h.tidy c).finish hact
  refine h.setCpu hcpu hsame ?_
  simp only [completing, update_self, hact, CpuData.finish]

lemma Inv.drain {old : S} {a u : ℕ} (hact : (σ.cpus c).activity = .draining old a u r) :
    (σ.drain c old a u r).Inv isUser := by
  obtain ⟨hcpu, hdraining, hchanges⟩ := (h.tidy c).drain hact
    ((σ.spaces old).drainShootdown c a u).2
  obtain ⟨hst, hacks⟩ := (h.spaces old).drainShootdown hdraining
  refine h.acked rfl rfl rfl (fun id => ?_) hcpu hchanges hst ?_ hacks ?_ rfl
    (fun id f => ⟨rfl, rfl, rfl, subset_rfl, subset_rfl⟩) ?_
  · rw [Option.map_id']
    rfl
  · exact fun node _ => by simp [Standing.owes]
  · rw [completing, hact]
  · intro node _ hmember
    rw [standing, hdraining] at hmember
    cases hmember

end

section

variable (h : σ.Inv isUser)

include h

/-- A CPU services one of its bindings. -/
lemma Inv.shootdown (hcpus : σ'.cpus = update σ.cpus c cpu)
    (hspaces : σ'.spaces = update σ.spaces s ((σ.spaces s).doShootdown c a).1)
    (hnodes : σ'.nodes = σ.nodes)
    (hfate : σ'.fate = invalidate σ.fate c ((σ.spaces s).invalidated (!isUser s) c a))
    (hcpu : cpu.Tidy isUser)
    (hmember : (σ.cpus c).standing s = .member a)
    (hchanges : CpuData.Changes (σ.cpus c) cpu s (.member ((σ.spaces s).doShootdown c a).2.2))
    (hidle : (σ.cpus c).activity = .idle)
    (hact : cpu.activity = .completing ((σ.spaces s).doShootdown c a).2.1 false) :
    σ'.Inv isUser := by
  obtain ⟨hst, hacks, hseq⟩ := (h.spaces s).doShootdown hmember
  refine h.acked hcpus hspaces hnodes (g := fun id f =>
    if ((σ.spaces s).invalidated (!isUser s) c a).any (·.id = id) then
      { f with invalidated := insert c f.invalidated }
    else f) (fun id => ?_) hcpu hchanges hst ?_ hacks ?_ hact (fun id f => ?_) ?_
  · rw [hfate, invalidate]
    split_ifs
    · rfl
    · rw [Option.map_id']
  · exact fun node hnode => by simp [Standing.owes, not_lt.mpr (hseq node hnode)]
  · rw [completing, hidle]
  · split_ifs
    · exact ⟨rfl, rfl, rfl, subset_insert _ _, subset_rfl⟩
    · exact ⟨rfl, rfl, rfl, subset_rfl, subset_rfl⟩
  · intro node hnode _ howes f
    obtain ⟨hsplit, hold, -⟩ := (h.spaces s).older_newer a
    simp only [standing, hmember, Standing.owes, and_eq_true, decide_eq_true_eq] at howes
    have hends := h.ends s node hnode
    rw [hsplit] at hnode
    rw [if_pos]
    · exact mem_insert_self c _
    · rw [List.any_eq_true]
      rcases List.mem_append.mp hnode with hnode | hnode
      · exact absurd (hold node hnode) (not_le.mpr howes.2)
      · exact ⟨node, mem_filter.mpr ⟨hnode, by simp [howes.1, hends]⟩, by simp⟩

/-- A CPU exits a page table, and the nodes of that page table learn of it. -/
lemma Inv.leave {old : S} (hact : (σ.cpus c).activity = .leaving old a r) :
    (σ.leave c old a r).Inv isUser := by
  obtain ⟨hcpu, hmember, hchanges⟩ := (h.tidy c).leave hact (σ.spaces old).shootSequence
  have hst := (h.spaces old).exit hmember
  have hself : (σ.leave c old a r).completing c = σ.completing c := by
    simp only [completing, Shootdowns.leave, set, update_self, hact]
  refine h.quiet (h.tidy_update rfl hcpu)
    (h.spaces_update rfl rfl hchanges hst) (queue_update rfl rfl) (completing_eq rfl hself) rfl
    (fun _ => rfl) (fun f => ?_) fun f d _ => ?_
  · rw [Fate.leave]
    split_ifs
    · exact ⟨rfl, rfl, rfl, rfl, subset_insert _ _⟩
    · exact ⟨rfl, rfl, rfl, rfl, subset_rfl⟩
  · rw [standing_update rfl hchanges]
    by_cases ht : f.space = old
    · by_cases hdc : d = c
      · left
        rw [Fate.leave, if_pos ht, hdc]
        exact mem_insert_self c _
      · rw [if_pos ht, update_of_ne hdc, ← ht]
        exact .inr rfl
    · rw [if_neg ht]
      exact .inr rfl

/-- A CPU completes one of the nodes that it has taken from a queue. -/
lemma Inv.complete {node : ShootdownNode C} {rest : List (ShootdownNode C)}
    (hact : (σ.cpus c).activity = .completing (node :: rest) r) :
    (σ.complete c node rest r).Inv isUser := by
  obtain ⟨hcpu, hsame⟩ := (h.tidy c).complete hact rest
  have hstanding : ∀ t, (σ.complete c node rest r).standing t = σ.standing t :=
    standing_eq rfl hsame
  have hbefore : σ.completing c = node :: rest := by rw [completing, hact]
  have hself : (σ.complete c node rest r).completing c = rest := completing_self rfl rfl
  have hfate : ∀ id, (σ.complete c node rest r).fate id = (σ.fate id).map fun f =>
      { f with completions := f.completions + if node.id = id then 1 else 0 } := by
    intro id
    simp only [Shootdowns.complete]
    rcases eq_or_ne id node.id with rfl | hid
    · simp only [update_self, if_pos]
    · rw [update_of_ne hid]
      simp only [if_neg (Ne.symm hid), add_zero, Option.map_id']
  refine h.of_map (h.tidy_update rfl hcpu) (fun t => ?_) rfl hfate (fun _ _ => ⟨rfl, rfl⟩)
    (fun t => Shrinks.refl _) (fun d n hn => ?_) (fun id f hf => ?_) fun id f hf d hd => ?_
  · rw [hstanding]
    exact h.spaces t
  · rcases eq_or_ne d c with rfl | hd
    · rw [hself] at hn
      refine h.taken d n ?_
      rw [hbefore]
      exact mem_cons_of_mem node hn
    · rw [completing_of_ne rfl hd] at hn
      exact h.taken d n hn
  · have hsum := sum_of_eq_off
      (f := fun d => (ids ((σ.complete c node rest r).completing d)).count id)
      fun d hd => by rw [completing_of_ne rfl hd]
    simp only [hself, hbefore, count_ids_cons] at hsum
    have honce := h.once id f hf
    change (ids (σ.spaces f.space).queue).count id + _ + _ = 1
    simp only
    omega
  · rw [hstanding]
    exact h.served id f hf d hd

end

section

variable {address size : Usize}

/-- The node that a CPU submits. -/
abbrev newNode (σ : Shootdowns C S) (c : C) (s : S) (address size : Usize) : ShootdownNode C :=
  (σ.spaces s).node σ.nodes address size c ((σ.cpus c).localBindings s)

/-- The number of a new node is not in use. -/
lemma Inv.count_nodes (h : σ.Inv isUser) (t : S) :
    (ids (σ.spaces t).queue).count σ.nodes = 0 ∧
      ∑ d, (ids (σ.completing d)).count σ.nodes = 0 := by
  constructor
  · rw [count_eq_zero]
    intro hmem
    obtain ⟨f, hf, -⟩ := h.exists_fate hmem
    exact lt_irrefl _ (h.lt_nodes hf)
  · refine sum_eq_zero fun d _ => ?_
    rw [count_eq_zero]
    intro hmem
    obtain ⟨node, hnode, hid⟩ := mem_map.mp hmem
    exact absurd (h.taken d node hnode) (by rw [hid]; exact lt_irrefl _)

omit [DecidableEq C] in
/-- The queues after a node has been submitted. -/
lemma queue_submitNode (isUser : S → Bool) (σ : Shootdowns C S) (c : C) (s : S)
    (address size : Usize) (t : S) :
    ((submitNode isUser σ c s address size).spaces t).queue = (σ.spaces t).queue ++
      if t = s ∧ (σ.newNode c s address size).bindingsToShoot ≠ 0 then
        [σ.newNode c s address size] else [] := by
  simp only [submitNode]
  split_ifs with hzero hpush hpush
  · exact absurd hzero hpush.2
  · rw [append_nil]
  · rw [hpush.1, update_self]
    rfl
  · have ht : t ≠ s := fun heq => hpush ⟨heq, hzero⟩
    rw [update_of_ne ht, append_nil]

/-- Every CPU that is bound has invalidated the range, or owes the new node. -/
lemma Inv.served_submitNode (h : σ.Inv isUser) (hidle : (σ.cpus c).activity = .idle)
    (hends : (invalidateNode (!isUser s) address size).isSome) {d : C}
    (hd : (σ.cpus d).isBound s) :
    d ∈ (if isUser s && (σ.cpus c).localBindings s = 0 ||
        (invalidateNode (!isUser s) address size).isNone then ∅ else {c} : Finset C) ∨
      (σ.newNode c s address size).bindingsToShoot ≠ 0 ∧ (σ.standing s d).isMember ∧
        (σ.standing s d).owes d (σ.newNode c s address size) := by
  have hlocal := (h.tidy c).localBindings_eq (s := s) hidle
  rw [(h.tidy d).isBound_eq] at hd
  rcases eq_or_ne d c with rfl | hdc
  · rw [if_pos hd] at hlocal
    rw [hlocal]
    exact .inl (by simp [Option.isNone_eq_false_iff.mpr hends])
  · have howes : (σ.standing s d).owes d (σ.newNode c s address size) := by
      rw [(h.spaces s).owes_node hdc]
      exact hd
    refine .inr ⟨fun hzero => ?_, hd, howes⟩
    have hcard := (h.spaces s).card_debtors_node σ.nodes address size hlocal
    have hle : (σ.spaces s).numBindings - ((σ.cpus c).localBindings s : ℤ) ≤ 0 :=
      (le_max_right _ _).trans_eq hzero
    have hpos : 0 < (debtors (σ.standing s) (σ.newNode c s address size)).card :=
      card_pos.mpr ⟨d, mem_filter.mpr ⟨mem_univ d, howes⟩⟩
    rw [newNode] at hpos
    omega

lemma Inv.submitNode (h : σ.Inv isUser) (hidle : (σ.cpus c).activity = .idle)
    (hends : isUser s = false → (invalidateNode true address size).isSome) :
    (submitNode isUser σ c s address size).Inv isUser := by
  have hends : (invalidateNode (!isUser s) address size).isSome := by
    cases hs : isUser s with
    | true => exact isSome_invalidateNode address size
    | false => exact hends hs
  have hlocal := (h.tidy c).localBindings_eq (s := s) hidle
  have hqueue := queue_submitNode isUser σ c s address size
  have hold : ∀ id f, (Shootdowns.submitNode isUser σ c s address size).fate id = some f →
      id ≠ σ.nodes → σ.fate id = some f := by
    intro id f hf hid
    simp only [Shootdowns.submitNode, update_of_ne hid] at hf
    exact hf
  have hne : ∀ id f, σ.fate id = some f → id ≠ σ.nodes :=
    fun id f hf => (h.lt_nodes hf).ne
  refine ⟨h.tidy, fun t => ?_, ?_, ?_, ?_, ?_, ?_, ?_⟩
  · change ((if _ then _ else _ : S → ShootdownState C) t).Inv (σ.standing t)
    by_cases hzero : (σ.newNode c s address size).bindingsToShoot = 0
    · rw [if_pos hzero]
      exact h.spaces t
    · rw [if_neg hzero]
      rcases eq_or_ne t s with rfl | ht
      · rw [update_self]
        exact (h.spaces t).push hlocal hzero
      · rw [update_of_ne ht]
        exact h.spaces t
  · intro id
    by_cases hid : id = σ.nodes
    · simp [Shootdowns.submitNode, hid]
    · simp only [Shootdowns.submitNode, update_of_ne hid, h.fresh]
      omega
  · intro t node hnode
    rw [hqueue] at hnode
    rcases mem_append.mp hnode with hnode | hnode
    · obtain ⟨f, hf, ht⟩ := h.known t node hnode
      refine ⟨f, ?_, ht⟩
      simp only [Shootdowns.submitNode, update_of_ne (hne _ _ hf)]
      exact hf
    · split_ifs at hnode with hpush
      · rw [List.mem_singleton.mp hnode, hpush.1]
        exact ⟨_, update_self _ _ _, rfl⟩
      · cases hnode
  · intro d node hnode
    exact (h.taken d node hnode).trans (Nat.lt_succ_self _)
  · intro id f hf
    obtain ⟨hzero, hsum⟩ := h.count_nodes f.space
    rw [hqueue, ids, map_append, count_append, ← ids]
    change _ + ∑ d, (ids (σ.completing d)).count id + _ = 1
    rcases eq_or_ne id σ.nodes with rfl | hid
    · simp only [Shootdowns.submitNode, update_self, some.injEq] at hf
      subst hf
      rw [hzero, hsum]
      by_cases hshot : (σ.newNode c s address size).bindingsToShoot = 0
      · simp [hshot]
      · simp only [hshot, ne_eq]
        simp [ShootdownState.node]
    · have honce := h.once id f (hold id f hf hid)
      have hcount : (map (·.id) (if f.space = s ∧
          (σ.newNode c s address size).bindingsToShoot ≠ 0 then
          [σ.newNode c s address size] else [])).count id = 0 := by
        split_ifs
        · simp [ShootdownState.node, Ne.symm hid]
        · rfl
      omega
  · intro id f hf d hd
    rw [hqueue]
    rcases eq_or_ne id σ.nodes with rfl | hid
    · simp only [Shootdowns.submitNode, update_self, some.injEq] at hf
      subst hf
      rw [Finset.mem_filter] at hd
      rcases h.served_submitNode hidle hends hd.2 with
        hin | ⟨hpush, hmember, howes⟩
      · exact .inl hin
      · refine .inr (.inr ⟨_, mem_append_right _ ?_, rfl, hmember, howes⟩)
        rw [if_pos ⟨rfl, hpush⟩]
        exact List.mem_singleton_self _
    · refine (h.served id f (hold id f hf hid) d hd).imp_right (Or.imp_right ?_)
      rintro ⟨node, hnode, hnid, hmember, howes⟩
      exact ⟨node, mem_append_left _ hnode, hnid, hmember, howes⟩
  · intro t node hnode
    rw [hqueue] at hnode
    rcases mem_append.mp hnode with hnode | hnode
    · exact h.ends t node hnode
    · split_ifs at hnode with hpush
      · rw [List.mem_singleton.mp hnode, hpush.1]
        exact hends
      · cases hnode

end

/-! ### Runs -/

lemma Inv.serve (h : σ.Inv isUser) (hserve : Serve σ σ') : σ'.Inv isUser := by
  cases hserve with
  | leave hc => exact h.leave hc
  | drain hc => exact h.drain hc
  | complete hc => exact h.complete hc
  | finish hc => exact h.finish hc
  | shootdown hidle hs =>
    obtain ⟨hcpu, hchanges⟩ := (h.tidy _).shot hidle hs
    refine h.shootdown rfl rfl rfl ?_ hcpu ((h.tidy _).standing_binding hidle hs) hchanges hidle rfl
    rw [(h.tidy _).isUser_of_binding hs, Bool.not_not]
    rfl

lemma Inv.step (h : σ.Inv isUser) (hstep : Step isUser σ σ') : σ'.Inv isUser := by
  cases hstep with
  | initialBindGlobal hidle hs hfree => exact h.initialBindGlobal hidle hs hfree
  | rebind hidle hs => exact h.rebind hidle hs
  | release hidle => exact h.release hidle
  | serve hserve => exact h.serve hserve
  | submitNode address size hidle hends => exact h.submitNode hidle hends

lemma Inv.initial : (Shootdowns.initial : Shootdowns C S).Inv isUser where
  tidy _ := ⟨nofun, nofun, nofun, nofun⟩
  spaces _ := by
    refine ⟨?_, Pairwise.nil, nofun, nofun, nofun, nofun, nofun⟩
    rw [members, filter_false_of_mem]
    · rfl
    · intro c _
      exact false_ne_true
  fresh _ := ⟨nofun, nofun⟩
  known := nofun
  taken := nofun
  once := nofun
  served := nofun
  ends := nofun

lemma Reachable.inv (h : Reachable isUser σ) : σ.Inv isUser := by
  induction h with
  | initial => exact Inv.initial
  | step _ hstep ih => exact ih.step hstep

/-- No CPU has anything left to do for the nodes. -/
def Settled (σ : Shootdowns C S) : Prop := ∀ σ', ¬ Serve σ σ'

omit [Fintype C] in
lemma Settled.idle (h : σ.Settled) (c : C) : (σ.cpus c).activity = .idle := by
  cases hc : (σ.cpus c).activity with
  | idle => rfl
  | leaving old already release => exact absurd (.leave hc) (h _)
  | draining old already upTo release => exact absurd (.drain hc) (h _)
  | completing nodes release =>
    cases nodes with
    | nil => exact absurd (.finish hc) (h _)
    | cons node rest => exact absurd (.complete hc) (h _)

section

variable {C S : Type}

/-- The sections that a binding still calls for, at most. -/
def owed (σ : Shootdowns C S) (b : PageBinding S) : ℕ :=
  match b.boundSpace with
  | none => 0
  | some s =>
    if (σ.spaces s).queue.any (b.alreadyShotSequence < ·.sequence) then
      (σ.spaces s).queue.length + 2
    else 0

/-- The sections that come after what a CPU has begun, at most. -/
def toDo (σ : Shootdowns C S) : Activity C S → ℕ
  | .idle => 0
  | .leaving old _ _ => (σ.spaces old).queue.length + 3
  | .draining old _ _ _ => (σ.spaces old).queue.length + 2
  | .completing nodes _ => nodes.length + 1

/-- The sections that a CPU still has to go through, at most. -/
def work (σ : Shootdowns C S) (cpu : CpuData C S) : ℕ :=
  σ.owed cpu.userBinding + σ.owed cpu.globalBinding + σ.toDo cpu.activity

variable {σ σ' : Shootdowns C S} {c : C} {cpu : CpuData C S}

section

variable (h : ∀ t, Shrinks (σ'.spaces t).queue (σ.spaces t).queue)

include h

lemma owed_le (b : PageBinding S) : σ'.owed b ≤ σ.owed b := by
  rw [owed, owed]
  cases b.boundSpace with
  | none => exact le_rfl
  | some s =>
    obtain ⟨hlength, hnodes⟩ := h s
    simp only
    split_ifs with hnew hold
    · omega
    · rw [List.any_eq_true] at hnew
      obtain ⟨node', hnode', hlt⟩ := hnew
      obtain ⟨node, hnode, n, rfl⟩ := hnodes node' hnode'
      exact absurd (List.any_eq_true.mpr ⟨node, hnode, hlt⟩) hold
    · exact Nat.zero_le _
    · exact le_rfl

lemma toDo_le (a : Activity C S) : σ'.toDo a ≤ σ.toDo a := by
  cases a with
  | idle => exact le_rfl
  | leaving old _ _ => exact Nat.add_le_add_right (h old).1 3
  | draining old _ _ _ => exact Nat.add_le_add_right (h old).1 2
  | completing nodes _ => exact le_rfl

lemma work_le (cpu : CpuData C S) : σ'.work cpu ≤ σ.work cpu :=
  add_le_add (add_le_add (owed_le h _) (owed_le h _)) (toDo_le h _)

variable [DecidableEq C] [Fintype C]

lemma sum_work_lt (hcpus : σ'.cpus = update σ.cpus c cpu)
    (hlt : σ'.work cpu < σ.work (σ.cpus c)) :
    ∑ d, σ'.work (σ'.cpus d) < ∑ d, σ.work (σ.cpus d) := by
  rw [hcpus]
  refine sum_lt_sum (fun d _ => ?_) ⟨c, mem_univ c, by rwa [update_self]⟩
  rcases eq_or_ne d c with rfl | hd
  · rw [update_self]
    exact hlt.le
  · rw [update_of_ne hd]
    exact work_le h _

/-- A CPU goes on with what it has begun. -/
lemma sum_work_lt_of_toDo {a : Activity C S}
    (hcpus : σ'.cpus = update σ.cpus c { σ.cpus c with activity := a })
    (hlt : σ'.toDo a < σ.toDo (σ.cpus c).activity) :
    ∑ d, σ'.work (σ'.cpus d) < ∑ d, σ.work (σ.cpus d) :=
  sum_work_lt h hcpus (add_lt_add_of_le_of_lt (add_le_add (owed_le h _) (owed_le h _)) hlt)

end

end

omit [DecidableEq C] [Fintype C] in
lemma shrinks_update (hspaces : σ'.spaces = update σ.spaces s st)
    (hst : Shrinks st.queue (σ.spaces s).queue) (t : S) :
    Shrinks (σ'.spaces t).queue (σ.spaces t).queue := by
  rw [hspaces]
  rcases eq_or_ne t s with rfl | ht
  · rwa [update_self]
  · rw [update_of_ne ht]
    exact Shrinks.refl _

/-- A CPU that services a binding with new nodes has only nodes to complete afterwards. -/
lemma Inv.owed_shootdown (h : σ.Inv isUser) {b : PageBinding S} (hs : b.boundSpace = some s)
    (hnew : (σ.spaces s).newer b.alreadyShotSequence ≠ [])
    (hmember : (σ.cpus c).standing s = .member b.alreadyShotSequence)
    (hspaces : σ'.spaces =
      update σ.spaces s ((σ.spaces s).doShootdown c b.alreadyShotSequence).1) :
    (∀ t, Shrinks (σ'.spaces t).queue (σ.spaces t).queue) ∧
      σ'.owed ⟨some s, ((σ.spaces s).doShootdown c b.alreadyShotSequence).2.2⟩ +
        (((σ.spaces s).doShootdown c b.alreadyShotSequence).2.1.length + 1) < σ.owed b := by
  obtain ⟨-, hacks, hseq⟩ := (h.spaces s).doShootdown hmember
  have hshrinks := shrinks_update hspaces hacks.shrinks
  obtain ⟨hsplit, -, hlt⟩ := (h.spaces s).older_newer b.alreadyShotSequence
  obtain ⟨node, hnode⟩ := exists_mem_of_ne_nil _ hnew
  have hmem : node ∈ (σ.spaces s).queue := by
    rw [hsplit]
    exact mem_append_right _ hnode
  have hafter : ¬ (σ'.spaces s).queue.any
      (((σ.spaces s).doShootdown c b.alreadyShotSequence).2.2 < ·.sequence) := by
    rw [List.any_eq_true]
    rintro ⟨node', hnode', hlt⟩
    obtain ⟨node, hnode, n, rfl⟩ := (hshrinks s).2 node' hnode'
    exact absurd (hseq node hnode) (not_le.mpr (of_decide_eq_true hlt))
  have hbefore : (σ.spaces s).queue.any (b.alreadyShotSequence < ·.sequence) :=
    List.any_eq_true.mpr ⟨node, hmem, decide_eq_true (hlt node hnode)⟩
  refine ⟨hshrinks, ?_⟩
  simp only [owed, hs, if_neg hafter, if_pos hbefore, zero_add]
  exact Nat.succ_lt_succ (Nat.lt_succ_of_le hacks.length_toComplete)

/-- Every section leaves less to do. -/
lemma Inv.work_lt (h : σ.Inv isUser) (hserve : Serve σ σ') :
    ∑ c, σ'.work (σ'.cpus c) < ∑ c, σ.work (σ.cpus c) := by
  cases hserve with
  | @leave c old already release hc =>
    have hshrinks : ∀ t, Shrinks ((σ.leave c old already release).spaces t).queue
        (σ.spaces t).queue := shrinks_update rfl (Shrinks.refl _)
    refine sum_work_lt_of_toDo hshrinks rfl ?_
    rw [hc]
    exact Nat.add_lt_add_of_le_of_lt (hshrinks old).1 (Nat.lt_succ_self 2)
  | @drain c old already upTo release hc =>
    obtain ⟨-, hacks⟩ :=
      (h.spaces old).drainShootdown ((h.tidy c).drain hc (σ.completing c)).2.1
    have hshrinks : ∀ t, Shrinks ((σ.drain c old already upTo release).spaces t).queue
        (σ.spaces t).queue := shrinks_update rfl hacks.shrinks
    refine sum_work_lt_of_toDo hshrinks rfl ?_
    rw [hc]
    exact Nat.add_lt_add_of_le_of_lt hacks.length_toComplete (Nat.lt_succ_self 1)
  | @complete c node rest release hc =>
    have hshrinks : ∀ t, Shrinks ((σ.complete c node rest release).spaces t).queue
        (σ.spaces t).queue := fun _ => Shrinks.refl _
    refine sum_work_lt_of_toDo hshrinks rfl ?_
    rw [hc]
    exact Nat.lt_succ_self _
  | @finish c release hc =>
    have hshrinks : ∀ t, Shrinks ((σ.finish c release).spaces t).queue (σ.spaces t).queue :=
      fun _ => Shrinks.refl _
    refine sum_work_lt hshrinks rfl ?_
    rw [work, work, hc]
    cases release with
    | true =>
      change 0 + σ.owed (σ.cpus c).globalBinding < _ + σ.owed (σ.cpus c).globalBinding + 1
      omega
    | false => exact Nat.lt_succ_self _
  | @shootdown isGlobal c s hidle hs hnew =>
    obtain ⟨hshrinks, hlt⟩ := h.owed_shootdown hs hnew ((h.tidy c).standing_binding hidle hs)
      (show (σ.shootdown isGlobal c s).spaces = _ from rfl)
    refine sum_work_lt hshrinks rfl ?_
    have huser := owed_le hshrinks (σ.cpus c).userBinding
    have hglobal := owed_le hshrinks (σ.cpus c).globalBinding
    rw [work, work, hidle]
    cases isGlobal with
    | false =>
      have hwork := add_lt_add_of_lt_of_le hlt hglobal
      rw [add_right_comm] at hwork
      exact hwork
    | true =>
      have hwork := add_lt_add_of_le_of_lt huser hlt
      rw [← add_assoc] at hwork
      exact hwork

/-- Servicing comes to an end. -/
lemma Inv.acc (h : σ.Inv isUser) : Acc (fun σ' σ => Serve σ σ') σ := by
  induction hn : ∑ c, σ.work (σ.cpus c) using Nat.strong_induction_on generalizing σ with
  | _ n ih => exact ⟨σ, fun τ hτ => ih _ (hn ▸ h.work_lt hτ) (h.serve hτ) rfl⟩

end Shootdowns

end Zinnia
