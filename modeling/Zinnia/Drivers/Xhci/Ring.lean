import Zinnia.Util
import Zinnia.Lib.Loop

/-!
# Producer rings of an xHCI controller

The driver writes TRBs to a ring in memory, which the controller reads at its own pace. A cycle bit
tells which of them are new: it is toggled with every pass of the ring. A pass ends with a Link TRB
in the last slot, or earlier if TRBs that belong together would not fit. The slots behind an early
Link TRB keep the cycle bits of an older pass, which are those of the next pass.
-/

namespace Zinnia.Xhci

open List Function

structure Trb where
  parameter : BitVec 64
  status : BitVec 32
  control : BitVec 32
  deriving DecidableEq

namespace Trb

/-- The field `C`. -/
def cycle (t : Trb) : Bool := t.control.getLsbD 0

/-- The field `TC` of a Link TRB. -/
def togglesCycle (t : Trb) : Bool := t.control.getLsbD 1

def trbType (t : Trb) : BitVec 6 := t.control.extractLsb' 10 6

def isLink (t : Trb) : Bool := t.trbType = 6

/-- Memory that has not been written to. -/
def zero : Trb := ⟨0, 0, 0⟩

end Trb

/-- The field `C` of a control word. -/
def cycleBit (cycle : Bool) : BitVec 32 := if cycle then 1 else 0

/-- A producer ring. Only the indices below the size are slots. -/
structure Ring where
  /-- The physical address of the slots. -/
  phys : BitVec 64
  slots : ℕ → Trb
  index : ℕ
  cycle : Bool

namespace Ring

/-- `TRB_SIZE`. -/
def trbSize : ℕ := 16

/-- The number of slots. -/
def size : ℕ := pageSize / trbSize

def new (phys : BitVec 64) : Ring := ⟨phys, fun _ => .zero, 0, true⟩

def writeTrb (r : Ring) (index : ℕ) (t : Trb) : Ring :=
  { r with slots := Function.update r.slots index t }

/-- The Link TRB to the first slot. -/
def linkTrb (r : Ring) : Trb := ⟨r.phys, 0, (6 <<< 10) ||| (1 <<< 1) ||| cycleBit r.cycle⟩

/-- End the pass. -/
def link (r : Ring) : Ring :=
  { r.writeTrb r.index r.linkTrb with index := 0, cycle := !r.cycle }

/-- The test of `reserve`. -/
def needsLink (r : Ring) (n : Usize) : Bool := size - 1 < (r.index + n.toNat) % 2 ^ 64

def reserve (r : Ring) (n : Usize) : Ring := if r.needsLink n then r.link else r

/-- The TRB as it is written. -/
def publish (r : Ring) (t : Trb) : Trb := { t with control := t.control ||| cycleBit r.cycle }

/-- The second half of `enqueue`. -/
def put (r : Ring) (t : Trb) : Ring :=
  { r.writeTrb r.index (r.publish t) with index := r.index + 1 }

/-- `enqueue`, with the index that it returns. -/
def enqueue (r : Ring) (t : Trb) : ℕ × Ring :=
  let r := if r.index = size - 1 then r.link else r
  (r.index, r.put t)

end Ring

/-- The driver and the controller. -/
structure System where
  ring : Ring
  /-- The TRB that `enqueue` has yet to write, if it has just ended a pass. -/
  writing : Option Trb
  /-- The slot that the controller looks at. -/
  position : ℕ
  /-- The cycle state of the controller. -/
  state : Bool
  /-- The TRBs that have been written by `enqueue`, in order. -/
  enqueued : List Trb
  /-- The TRBs that the controller has taken, in order. -/
  consumed : List Trb
  /-- The slots that have been written and that the controller has not gone past, in order. -/
  outstanding : List ℕ

namespace System

def new (phys : BitVec 64) : System := ⟨.new phys, none, 0, true, [], [], []⟩

/-- What the driver and the controller do. The driver writes a TRB after another, also within a call
of `enqueue`, and the controller may go on in between. -/
inductive Action where
  | reserve (n : Usize)
  | enqueue (t : Trb)
  | finish
  | consume

variable (s : System)

def link : System :=
  { s with ring := s.ring.link, outstanding := s.outstanding ++ [s.ring.index] }

def put (t : Trb) : System :=
  { s with
    ring := s.ring.put t
    enqueued := s.enqueued ++ [s.ring.publish t]
    outstanding := s.outstanding ++ [s.ring.index] }

/-- The controller takes the TRB it looks at, if its cycle bit says that it is new. -/
def consume : Option System :=
  let t := s.ring.slots s.position
  if t.cycle ≠ s.state then none
  else
    let outstanding := s.outstanding.erase s.position
    if t.isLink then
      some { s with
        position := (t.parameter - s.ring.phys).toNat / Ring.trbSize
        state := s.state ^^ t.togglesCycle
        outstanding }
    else
      some { s with position := s.position + 1, consumed := s.consumed ++ [t], outstanding }

def does : Action → Option System
  | .reserve n =>
    if s.writing.isSome then none
    else if s.ring.needsLink n then some s.link else some s
  | .enqueue t =>
    if s.writing.isSome then none
    else if s.ring.index = Ring.size - 1 then some { s.link with writing := some t }
    else some (s.put t)
  | .finish => s.writing.map fun t => { s.put t with writing := none }
  | .consume => s.consume

variable {s} in
lemma ring_of_reserve {s' : System} {n : Usize} (h : s.does (.reserve n) = some s') :
    s'.ring = s.ring.reserve n := by
  simp only [does] at h
  split_ifs at h with hwriting hneeds
  · cases h
    simp [Ring.reserve, hneeds, link]
  · cases h
    simp [Ring.reserve, hneeds]

variable {s} in
/-- The steps of a call of `enqueue` together. -/
lemma ring_of_enqueue {s' : System} {t : Trb} (h : s.does (.enqueue t) = some s') :
    (if s.ring.index = Ring.size - 1 then s'.does .finish else some s').map System.ring =
      some (s.ring.enqueue t).2 := by
  simp only [does] at h
  split_ifs at h with hwriting hend
  · cases h
    simp [hend, does, Ring.enqueue, put, link]
  · cases h
    simp [hend, Ring.enqueue, put]

/-- The action writes to no slot that is outstanding. -/
def Fits : Action → Prop
  | .reserve n => s.ring.needsLink n → s.ring.index ∉ s.outstanding
  | .enqueue _ => s.ring.index ∉ s.outstanding
  | .finish => s.ring.index ∉ s.outstanding
  | .consume => True

/-- The states that are reached by actions that are `Allowed`. -/
inductive Reaches (Allowed : System → Action → Prop) : System → Prop
  | new (phys : BitVec 64) : Reaches Allowed (new phys)
  | step {s s' : System} (a : Action) : Reaches Allowed s → Allowed s a → s.does a = some s' →
      Reaches Allowed s'

/-- The controller takes the TRBs that have been enqueued, in order, and then stops at the place of
the driver. -/
def Follows : Prop :=
  s.consumed <+: s.enqueued ∧
    ∃ n s', Loop.run consume n s = some s' ∧ s'.consumed = s.enqueued ∧
      s'.position = s.ring.index ∧ s'.state = s.ring.cycle

/-- The action fits. A TRB that is to be enqueued is no Link TRB and comes without a cycle bit, and
the slot behind its own was last written in a pass with the other cycle bit. That slot needs no
test if the pass ends first: it is in the second slot, which the full pass has written. -/
def Careful (a : Action) : Prop :=
  s.Fits a ∧ ∀ t, a = .enqueue t → t.cycle = false ∧ t.isLink = false ∧
    (s.ring.index ≠ Ring.size - 1 →
      (s.ring.slots (s.ring.index + 1)).cycle ≠ s.ring.cycle)

end System

/-! ### The TRBs that are outstanding -/

section

variable {t : Trb} {r : Ring}

lemma Ring.size_pos : 0 < Ring.size := by decide

@[simp] lemma Ring.linkTrb_cycle (r : Ring) : r.linkTrb.cycle = r.cycle := by
  cases h : r.cycle <;> simp [linkTrb, Trb.cycle, cycleBit, h]

@[simp] lemma Ring.linkTrb_isLink (r : Ring) : r.linkTrb.isLink = true := by
  cases h : r.cycle <;> simp [linkTrb, Trb.isLink, Trb.trbType, cycleBit, h]

@[simp] lemma Ring.linkTrb_togglesCycle (r : Ring) : r.linkTrb.togglesCycle = true := by
  cases h : r.cycle <;> simp [linkTrb, Trb.togglesCycle, cycleBit]

lemma Ring.publish_cycle (h : t.cycle = false) : (r.publish t).cycle = r.cycle := by
  simp only [Trb.cycle, BitVec.getLsbD_eq_getElem (show 0 < 32 by decide)] at h
  cases hr : r.cycle <;> simp [publish, Trb.cycle, cycleBit, hr, h]

lemma Ring.publish_isLink (h : t.isLink = false) : (r.publish t).isLink = false := by
  have hbit : (cycleBit r.cycle).extractLsb' 10 6 = 0#6 := by
    cases r.cycle <;> decide
  rw [← h, Trb.isLink, Trb.isLink, Trb.trbType, Trb.trbType, publish]
  simp only [BitVec.extractLsb'_or, hbit, BitVec.or_zero]

end

/-- The way of the controller through the slots of the list, in one of which it looks at a time: it
leads from the place `p` to the place `q`, with the TRBs `ts` on it that are no Link TRBs. -/
def Chain (phys : BitVec 64) (slots : ℕ → Trb) : List ℕ → ℕ × Bool → List Trb → ℕ × Bool → Prop
  | [], p, ts, q => p = q ∧ ts = []
  | i :: l, p, ts, q =>
    i = p.1 ∧ (slots i).cycle = p.2 ∧
      if (slots i).isLink then
        (slots i).parameter = phys ∧ (slots i).togglesCycle ∧ Chain phys slots l (0, !p.2) ts q
      else ∃ ts', ts = slots i :: ts' ∧ Chain phys slots l (i + 1, p.2) ts' q

section

variable {phys : BitVec 64} {slots : ℕ → Trb} {l : List ℕ} {p : ℕ × Bool} {ts : List Trb}
  {i : ℕ} {c : Bool} {t : Trb}

/-- A slot that is not on the way can be written. -/
lemma Chain.update {q : ℕ × Bool} (h : Chain phys slots l p ts q) (hi : i ∉ l) :
    Chain phys (Function.update slots i t) l p ts q := by
  induction l generalizing p ts with
  | nil => exact h
  | cons j l ih =>
    have hj : j ≠ i := fun hj => hi (hj ▸ mem_cons_self)
    have hl : i ∉ l := fun hl => hi (mem_cons_of_mem j hl)
    obtain ⟨hp, hcycle, hrest⟩ := h
    refine ⟨hp, ?_, ?_⟩
    · rwa [update_of_ne hj]
    · rw [update_of_ne hj]
      split_ifs at hrest ⊢
      · obtain ⟨hphys, htoggles, hrest⟩ := hrest
        exact ⟨hphys, htoggles, ih hrest hl⟩
      · obtain ⟨ts', hts, hrest⟩ := hrest
        exact ⟨ts', hts, ih hrest hl⟩

/-- A way from the end of another one. -/
lemma Chain.append {l' : List ℕ} {q q' : ℕ × Bool} {ts' : List Trb}
    (h : Chain phys slots l p ts q) (h' : Chain phys slots l' q ts' q') :
    Chain phys slots (l ++ l') p (ts ++ ts') q' := by
  induction l generalizing p ts with
  | nil =>
    obtain ⟨rfl, rfl⟩ := h
    exact h'
  | cons j l ih =>
    obtain ⟨hp, hcycle, hrest⟩ := h
    refine ⟨hp, hcycle, ?_⟩
    split_ifs at hrest ⊢
    · obtain ⟨hphys, htoggles, hrest⟩ := hrest
      exact ⟨hphys, htoggles, ih hrest⟩
    · obtain ⟨ts₁, rfl, hrest⟩ := hrest
      exact ⟨ts₁ ++ ts', cons_append, ih hrest⟩

lemma Chain.link (r : Ring) :
    Chain r.phys r.link.slots [r.index] (r.index, r.cycle) [] (0, !r.cycle) := by
  have hslot : r.link.slots r.index = r.linkTrb := update_self _ _ _
  rw [Chain, hslot, if_pos r.linkTrb_isLink]
  exact ⟨rfl, r.linkTrb_cycle, rfl, r.linkTrb_togglesCycle, rfl, rfl⟩

lemma Chain.single (ht : t.cycle = c) (hlink : t.isLink = false) :
    Chain phys (Function.update slots i t) [i] (i, c) [t] (i + 1, c) := by
  refine ⟨rfl, by simpa using ht, ?_⟩
  simp [hlink, Chain]

end

namespace System

/-- What is outstanding leads from the controller to the driver, which is at a slot that is not
new. -/
structure Inv (s : System) : Prop where
  index : s.ring.index < Ring.size
  way : ∃ ts, Chain s.ring.phys s.ring.slots s.outstanding (s.position, s.state) ts
    (s.ring.index, s.ring.cycle) ∧ s.consumed ++ ts = s.enqueued
  ahead : (s.ring.slots s.ring.index).cycle ≠ s.ring.cycle
  pass : ∀ i < s.ring.index, (s.ring.slots i).cycle = s.ring.cycle
  writing : ∀ t ∈ s.writing, s.ring.index = 0 ∧ t.cycle = false ∧ t.isLink = false ∧
    (s.ring.slots 1).cycle ≠ s.ring.cycle

section

variable {s s' : System} {t : Trb}

lemma inv_new (phys : BitVec 64) : (new phys).Inv where
  index := Ring.size_pos
  way := ⟨[], ⟨rfl, rfl⟩, rfl⟩
  ahead := by simp [new, Ring.new, Trb.zero, Trb.cycle]
  pass := nofun
  writing := nofun

section

variable (h : s.Inv)

include h

/-- The slots up to the Link TRB have been written in the pass that ends. -/
lemma Inv.link_cycle {i : ℕ} (hi : i ≤ s.ring.index) :
    (s.ring.link.slots i).cycle ≠ s.ring.link.cycle := by
  have hcycle : (s.ring.link.slots i).cycle = s.ring.cycle := by
    simp only [Ring.link, Ring.writeTrb, update_apply]
    split_ifs with heq
    · exact s.ring.linkTrb_cycle
    · exact h.pass i (lt_of_le_of_ne hi heq)
  rw [hcycle]
  simp [Ring.link]

lemma Inv.link (hfits : s.ring.index ∉ s.outstanding) {writing : Option Trb}
    (hwriting : ∀ t ∈ writing, t.cycle = false ∧ t.isLink = false ∧ 1 ≤ s.ring.index) :
    { s.link with writing }.Inv where
  index := Ring.size_pos
  way := by
    obtain ⟨ts, hchain, hconsumed⟩ := h.way
    refine ⟨ts ++ [], (hchain.update hfits).append (.link s.ring), ?_⟩
    rw [append_nil]
    exact hconsumed
  ahead := h.link_cycle (Nat.zero_le _)
  pass := nofun
  writing := fun t ht => by
    obtain ⟨hcycle, hlink, hindex⟩ := hwriting t ht
    exact ⟨rfl, hcycle, hlink, h.link_cycle hindex⟩

lemma Inv.put (hfits : s.ring.index ∉ s.outstanding) (hend : s.ring.index ≠ Ring.size - 1)
    (ht : t.cycle = false) (hlink : t.isLink = false)
    (hahead : (s.ring.slots (s.ring.index + 1)).cycle ≠ s.ring.cycle) :
    { s.put t with writing := none }.Inv where
  index := by
    have hindex := h.index
    simp only [System.put, Ring.put]
    omega
  way := by
    obtain ⟨ts, hchain, hconsumed⟩ := h.way
    refine ⟨ts ++ [s.ring.publish t], (hchain.update hfits).append ?_, ?_⟩
    · exact Chain.single (Ring.publish_cycle ht) (Ring.publish_isLink hlink)
    · simp only [System.put]
      rw [← append_assoc, hconsumed]
  ahead := by
    simp only [System.put, Ring.put, Ring.writeTrb, update_of_ne (Nat.succ_ne_self _)]
    exact hahead
  pass := by
    intro i hi
    simp only [System.put, Ring.put, Ring.writeTrb, update_apply] at hi ⊢
    split_ifs with heq
    · exact Ring.publish_cycle ht
    · exact h.pass i (by omega)
  writing := nofun

/-- The controller has reached the driver when nothing is outstanding. -/
lemma Inv.reached (hnil : s.outstanding = []) :
    s.position = s.ring.index ∧ s.state = s.ring.cycle ∧ s.consumed = s.enqueued := by
  obtain ⟨ts, hchain, hconsumed⟩ := h.way
  rw [hnil] at hchain
  obtain ⟨hplace, rfl⟩ := hchain
  rw [append_nil] at hconsumed
  exact ⟨congrArg Prod.fst hplace, congrArg Prod.snd hplace, hconsumed⟩

/-- A TRB that the controller takes for new is the next one that is outstanding. -/
lemma Inv.outstanding_eq (hcycle : (s.ring.slots s.position).cycle = s.state) :
    ∃ l, s.outstanding = s.position :: l := by
  cases hout : s.outstanding with
  | nil =>
    obtain ⟨hposition, hstate, -⟩ := h.reached hout
    rw [hposition, hstate] at hcycle
    exact absurd hcycle h.ahead
  | cons i l =>
    obtain ⟨ts, hchain, -⟩ := h.way
    rw [hout] at hchain
    exact ⟨l, congrArg (· :: l) hchain.1⟩

/-- The controller goes along the way. -/
lemma Inv.consume (hdoes : s.consume = some s') :
    s'.Inv ∧ s'.ring = s.ring ∧ s'.enqueued = s.enqueued ∧
      s'.outstanding.length < s.outstanding.length := by
  simp only [System.consume] at hdoes
  split_ifs at hdoes with hcycle hlink
  all_goals
    obtain ⟨l, hout⟩ := h.outstanding_eq (not_not.mp hcycle)
    obtain ⟨ts, hchain, hconsumed⟩ := h.way
    rw [hout] at hchain hdoes
    obtain ⟨-, hbit, hrest⟩ := hchain
    simp only [erase_cons_head] at hdoes
    cases hdoes
  · rw [if_pos hlink] at hrest
    obtain ⟨hphys, htoggles, hrest⟩ := hrest
    refine ⟨⟨h.index, ⟨ts, ?_, hconsumed⟩, h.ahead, h.pass, h.writing⟩, rfl, rfl, by simp [hout]⟩
    simpa [hphys, htoggles] using hrest
  · rw [if_neg hlink] at hrest
    obtain ⟨ts', rfl, hrest⟩ := hrest
    refine ⟨⟨h.index, ⟨ts', hrest, ?_⟩, h.ahead, h.pass, h.writing⟩, rfl, rfl, by simp [hout]⟩
    simpa using hconsumed

lemma Inv.does {a : Action} (hcareful : s.Careful a) (hdoes : s.does a = some s') : s'.Inv := by
  obtain ⟨hfits, htrb⟩ := hcareful
  cases a with
  | reserve n =>
    simp only [System.does] at hdoes
    split_ifs at hdoes with hwriting hneeds
    · cases hdoes
      have hnone : s.writing = none := by simpa using hwriting
      exact h.link (hfits hneeds) (by simp [hnone])
    · cases hdoes
      exact h
  | enqueue t =>
    simp only [System.does] at hdoes
    obtain ⟨ht, hlink, hahead⟩ := htrb t rfl
    split_ifs at hdoes with hwriting hend
    · cases hdoes
      refine h.link hfits fun t' ht' => ?_
      cases ht'
      exact ⟨ht, hlink, by rw [hend]; decide⟩
    · cases hdoes
      have hnone : s.writing = none := by simpa using hwriting
      have hput := h.put hfits hend ht hlink (hahead hend)
      rwa [show { s.put t with writing := none } = s.put t by simp [System.put, hnone]] at hput
  | finish =>
    obtain ⟨t, ht, hput⟩ := Option.map_eq_some_iff.mp hdoes
    subst hput
    obtain ⟨hzero, hcycle, hlink, hahead⟩ := h.writing t ht
    exact h.put hfits (by rw [hzero]; decide) hcycle hlink (by rwa [hzero])
  | consume => exact (h.consume hdoes).1

end

lemma Reaches.inv (h : Reaches Careful s) : s.Inv := by
  induction h with
  | new phys => exact inv_new phys
  | step a _ hcareful hdoes ih => exact ih.does hcareful hdoes

end

instance (s : System) : (a : Action) → Decidable (s.Fits a)
  | .reserve _ => inferInstanceAs (Decidable (_ → _))
  | .enqueue _ => inferInstanceAs (Decidable (_ ∉ _))
  | .finish => inferInstanceAs (Decidable (_ ∉ _))
  | .consume => inferInstanceAs (Decidable True)

/-- Actions that fit, one after the other. -/
def exec : List Action → System → Option System
  | [], s => some s
  | a :: l, s => if s.Fits a then (s.does a).bind (exec l) else none

lemma Reaches.exec {s s' : System} {l : List Action} (h : Reaches Fits s)
    (hexec : System.exec l s = some s') : Reaches Fits s' := by
  induction l generalizing s with
  | nil =>
    cases hexec
    exact h
  | cons a l ih =>
    rw [System.exec] at hexec
    split_ifs at hexec with hfits
    obtain ⟨s₁, hdoes, hrest⟩ := Option.bind_eq_some_iff.mp hexec
    exact ih (.step a h hfits hdoes) hrest

end System

end Zinnia.Xhci
