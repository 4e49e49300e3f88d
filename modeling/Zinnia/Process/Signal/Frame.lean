import Zinnia.Process.Signal.Suspend

/-!
# Signal frames

What is written to the stack for a handler, and that the return of the handler restores the context
and the mask.
-/

namespace Zinnia

lemma checkedSub_eq_some {a b r : Usize} (h : checkedSub a b = some r) :
    r.toNat + b.toNat = a.toNat ∧ r + b = a := by
  unfold checkedSub at h
  split_ifs at h with hle
  cases h
  rw [BitVec.toNat_sub_of_le hle]
  exact ⟨Nat.sub_add_cancel hle, BitVec.sub_add_cancel a b⟩

lemma alignStack_le (x : Usize) : (alignStack x).toNat ≤ x.toNat := by
  rw [alignStack, BitVec.toNat_and]
  exact Nat.and_le_left

/-- The parts of a frame are below each other. -/
lemma frameAddresses_below {base : Usize} {a : FrameAddresses} (h : frameAddresses base = some a) :
    a.infoAddr.toNat + 48 ≤ base.toNat ∧ a.ucAddr.toNat + 496 ≤ a.infoAddr.toNat ∧
      a.sfAddr.toNat + 184 ≤ a.ucAddr.toNat ∧ a.retAddr.toNat + 8 ≤ a.sfAddr.toNat ∧
      a.retAddr + 8 = a.sfAddr := by
  simp only [frameAddresses, Option.bind_eq_bind, Option.bind_eq_some_iff, Option.some.injEq] at h
  obtain ⟨info, hinfo, uc, huc, sf, hsf, ret, hret, rfl⟩ := h
  obtain ⟨hret, hpop⟩ := checkedSub_eq_some hret
  have hbelow {x y n : Usize} (h : checkedSub x n = some y) :
      (alignStack y).toNat + n.toNat ≤ x.toNat := by
    have hle := alignStack_le y
    have hsub := (checkedSub_eq_some h).1
    omega
  exact ⟨hbelow hinfo, hbelow huc, hbelow hsf, hret.le, hpop⟩

/-- The parts of the frame are written below the base of the stack, and apart from each other. If the
handler returns to the restorer, and the frame is as it was written, the thread goes on with its
registers, up to flags that are not its own, and with its mask, of which nothing is removed. -/
theorem restoreSignalFrame_setup {writes : Usize → StackItem → Bool} {c c' : Context}
    {d : SignalDelivery} (h : setupSignalFrame writes c d = some c') :
    ∃ base a, frameBase c d = some base ∧ (∀ x ∈ stackItems c d a, writes x.1 x.2 = true) ∧
      (∀ x ∈ stackItems c d a, x.1.toNat + x.2.size ≤ base.toNat) ∧
      ((stackItems c d a).Pairwise fun x y => y.1.toNat + y.2.size ≤ x.1.toNat) ∧
      (∀ (r : Context) (t : SignalTask) (readFrame : Usize → Option SignalFrame)
        (readUcontext : Usize → Option Ucontext), r.rsp = c'.rsp + 8 →
        (∀ addr frame, (addr, .frame frame) ∈ stackItems c d a → readFrame addr = some frame) →
        (∀ addr uc, (addr, .ucontext uc) ∈ stackItems c d a → readUcontext addr = some uc) →
        restoreSignalFrame readFrame readUcontext r t = some
          ({ c with cs := userCode64, ss := userData, rflags := (c.rflags &&& 0xDD5) ||| 0x202 },
            { t with thread :=
              { t.thread with mask := d.oldMask.sanitizeMask, restoreMask := none } })) ∧
      ∀ w tid pid t, SignalSystem.Reaches w → w.task tid = some (pid, t) →
        t.prepareNextSignal.1 = .deliver d → d.oldMask.sanitizeMask = d.oldMask := by
  simp only [setupSignalFrame, Option.bind_eq_bind, Option.bind_eq_some_iff] at h
  obtain ⟨base, hbase, a, ha, hrun⟩ := h
  split_ifs at hrun with hwrites
  cases hrun
  obtain ⟨hinfo, huc, hsf, hret, hpop⟩ := frameAddresses_below ha
  refine ⟨base, a, hbase, List.all_eq_true.mp hwrites, ?_, ?_, ?_, ?_⟩
  · simp only [stackItems, List.forall_mem_cons, StackItem.size]
    exact ⟨hinfo, by omega, by omega, by omega, by rintro _ ⟨⟩⟩
  · simp only [stackItems, List.pairwise_cons, List.forall_mem_cons, StackItem.size]
    exact ⟨⟨huc, by omega, by omega, by rintro _ ⟨⟩⟩, ⟨hsf, by omega, by rintro _ ⟨⟩⟩,
      ⟨hret, by rintro _ ⟨⟩⟩, by rintro _ ⟨⟩, .nil⟩
  · intro r t readFrame readUcontext hrsp hframe hucontext
    have hread := hframe a.sfAddr ⟨a.ucAddr, c⟩ (by simp [stackItems])
    have huc := hucontext a.ucAddr (c.ucontext d) (by simp [stackItems])
    simp only [restoreSignalFrame, hrsp, hpop, hread, huc, Option.bind_eq_bind, Option.bind_some]
    rfl
  · intro w tid pid t hw ht hdeliver
    have hinv : w.Allowed := by
      clear ht
      induction hw with
      | boot => exact SignalSystem.allowed_boot
      | step event _ ht ih => exact ih.does ht event
    have hsaved := (hinv.task ht).prepareNextSignal.1
    rw [hdeliver] at hsaved
    exact SignalSet.Allowed.sanitizeMask hsaved

/-- A signal without a stack of its own. -/
def onStack : SignalDelivery where
  handler := 0x401000
  signal := .sigInt
  info := ⟨0, 0, 0, 0, 0, 0, 0⟩
  oldMask := 0
  flags := 0
  restorer := 0x402000
  altstack := .default

theorem restoreSignalFrame_setup_onStack : ∃ base a,
    frameBase (userContext 0x400000 0x7000) onStack = some base ∧
      ∀ x ∈ stackItems (userContext 0x400000 0x7000) onStack a,
        x.1.toNat + x.2.size ≤ base.toNat := by
  have h : setupSignalFrame (fun _ _ => true) (userContext 0x400000 0x7000) onStack = some _ := rfl
  obtain ⟨base, a, hbase, -, hbelow, -⟩ := restoreSignalFrame_setup h
  exact ⟨base, a, hbase, hbelow⟩

end Zinnia
