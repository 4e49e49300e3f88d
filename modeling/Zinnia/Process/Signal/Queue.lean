import Zinnia.Process.Signal.Properties

/-!
# Queues of pending signals

Which signals are in a set after one was added or removed, and which are pending after the
operations of a queue.
-/

namespace Zinnia

namespace Signal

lemma bit_injective : Function.Injective bit := by
  intro a b h
  have hmem : ∀ sig : Signal, sig ∈ all := fun sig => by cases sig <;> decide
  exact (List.idxOf_inj (hmem a)).mp h

lemma bit_lt (sig : Signal) : sig.bit < 64 := by
  cases sig <;> decide

end Signal

namespace SignalSet

variable {s : SignalSet} {sig sig' : Signal}

lemma isSet_eq (s : SignalSet) (sig : Signal) : s.isSet sig = s.getLsbD sig.bit :=
  decide_and_bit_ne_zero s sig.bit

lemma isSet_set (s : SignalSet) (sig sig' : Signal) (state : Bool) :
    (s.set sig state).isSet sig' = if sig' = sig then state else s.isSet sig' := by
  have hbit : sig'.bit = sig.bit ↔ sig' = sig := Signal.bit_injective.eq_iff
  have hlt := sig'.bit_lt
  cases state with
  | false =>
    rw [isSet_eq, isSet_eq, getLsbD_set_false]
    simp only [hbit]
    split_ifs with heq <;> simp [heq]
  | true =>
    rw [isSet_eq, isSet_eq, set, if_pos rfl, BitVec.getLsbD_or, getLsbD_bit]
    simp only [hbit, hlt]
    split_ifs with heq <;> simp [heq]

end SignalSet

namespace SigQueue

variable {q q' : SigQueue} {sig sig' : Signal} {info : SigInfoData}

/-- A signal is pending. -/
def Pends (q : SigQueue) (sig : Signal) : Prop := q.pending.isSet sig = true

lemma not_pends_new (sig : Signal) : ¬ new.Pends sig := by
  unfold Pends new
  rw [SignalSet.isSet_eq]
  simp

lemma pends_queue : (q.queue sig info).Pends sig' ↔ sig' = sig ∨ q.Pends sig' := by
  unfold queue Pends
  split_ifs with hset
  · constructor
    · exact .inr
    · rintro (rfl | h)
      · exact hset
      · exact h
  · rw [SignalSet.isSet_set]
    split_ifs with heq <;> simp [heq]

lemma pends_discard : (q.discard sig).Pends sig' ↔ sig' ≠ sig ∧ q.Pends sig' := by
  unfold discard Pends
  rw [SignalSet.isSet_set]
  split_ifs with heq <;> simp [heq]

/-- A signal that is taken was pending, and then it is not. -/
lemma pends_of_dequeue {allowed : SignalSet} (h : q.dequeue allowed = some (sig, info, q')) :
    q.Pends sig ∧ ∀ sig', q'.Pends sig' ↔ sig' ≠ sig ∧ q.Pends sig' := by
  obtain ⟨sig₀, hfirst, heq⟩ := Option.bind_eq_some_iff.mp h
  cases heq
  have hset := SignalSet.getLsbD_of_firstSet hfirst
  rw [BitVec.getLsbD_and, Bool.and_eq_true] at hset
  refine ⟨?_, fun sig' => pends_discard⟩
  rw [Pends, SignalSet.isSet_eq]
  exact hset.1

end SigQueue

/-- A thread takes a signal from its own queue or from that of its process. -/
lemma SignalTask.dequeueNext_cases {t t' : SignalTask} {sig : Signal} {info : SigInfoData}
    (h : t.dequeueNext = some (sig, info, t')) :
    (t.thread.queue.Pends sig ∧ t'.sharedPending = t.sharedPending ∧
      ∃ queue, t'.thread = { t.thread with queue } ∧
        ∀ sig', queue.Pends sig' ↔ sig' ≠ sig ∧ t.thread.queue.Pends sig') ∨
    (t.sharedPending.Pends sig ∧ t'.thread = t.thread ∧
      ∀ sig', t'.sharedPending.Pends sig' ↔ sig' ≠ sig ∧ t.sharedPending.Pends sig') := by
  unfold dequeueNext at h
  dsimp only at h
  cases hthread : t.thread.queue.dequeue (~~~t.thread.mask) with
  | some taken =>
    obtain ⟨sig₀, info₀, queue⟩ := taken
    rw [hthread] at h
    cases h
    obtain ⟨hpends, hrest⟩ := SigQueue.pends_of_dequeue hthread
    exact .inl ⟨hpends, rfl, queue, rfl, hrest⟩
  | none =>
    rw [hthread] at h
    obtain ⟨⟨sig₀, info₀, queue⟩, hshared, heq⟩ := Option.map_eq_some_iff.mp h
    cases heq
    obtain ⟨hpends, hrest⟩ := SigQueue.pends_of_dequeue hshared
    exact .inr ⟨hpends, rfl, hrest⟩

end Zinnia
