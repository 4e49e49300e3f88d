import Zinnia.Device.Net.Tcp.Segments

/-!
# Concurrent senders

A call of `sendmsg` takes the lock twice for each chunk: it looks how much the window allows, copies
the data from the user, and gives the data its sequence numbers. Other calls and segments may come
between.
-/

namespace Zinnia.Tcp

open Option Function TcpInner List

/-- A chunk of data that was numbered: its place in the stream, and the bytes in flight with it and
the window of the peer at that time. -/
structure Numbered where
  pos : ℕ
  len : ℕ
  inFlight : ℕ
  window : ℕ

/-- A socket and the threads that are between the two parts of `sendmsg`, with the length of their
chunk. `pos` counts the sequence numbers given out, and `fin` is the place of the FIN. -/
structure Senders where
  inner : TcpInner
  threads : ℕ → Option ℕ
  pos : ℕ
  fin : Option ℕ
  numbered : List Numbered

/-- What is done under the lock at a time. -/
inductive Move where
  | check (t remaining : ℕ)
  | number (t : ℕ)
  | fault (t : ℕ)
  | shutRead
  | sendFin
  | segment (seg : Segment)

namespace Senders

/-- A chunk gets its sequence numbers. -/
def number (s : Senders) (t len : ℕ) : Senders :=
  let inner := s.inner.numberData len
  { s with
    inner := inner
    threads := Function.update s.threads t none
    pos := s.pos + len
    numbered := s.numbered ++
      [⟨s.pos, len, (inner.sndNxt - inner.sndUna).toNat, inner.peerWindow⟩] }

def after (s : Senders) : Move → Senders
  | .check t remaining =>
    -- the loop ends when nothing remains, and the errors of the check end it too
    match s.threads t, s.inner.checkSend remaining with
    | none, .ok len =>
      if 0 < remaining then { s with threads := Function.update s.threads t (some len) } else s
    | _, _ => s
  | .number t =>
    match s.threads t, s.inner.peer with
    | some len, some _ => s.number t len
    | some _, none => { s with threads := Function.update s.threads t none }
    | none, _ => s
  | .fault t => { s with threads := Function.update s.threads t none }
  | .shutRead => { s with inner := { s.inner with shutdownRead := true, peerClosed := true } }
  | .sendFin =>
    if s.inner.shutdownWrite = false ∧ s.inner.peer ≠ none then
      { s with inner := s.inner.numberFin, pos := s.pos + 1, fin := some s.pos }
    else s
  | .segment seg =>
    if seg.has flagRst then { s with inner := s.inner.closeWithError .econnreset }
    else { s with inner := (s.inner.handle seg).1 }

/-- A socket that nobody is sending on. -/
structure Idle (s : Senders) : Prop where
  threads : ∀ t, s.threads t = none
  fin : s.fin = none
  numbered : s.numbered = []
  mss : 0 < s.inner.peerMss

/-- The states that are reached by moves that `guard` allows. -/
inductive Reaches (guard : Senders → Move → Prop) : Senders → Prop
  | idle {s : Senders} (h : s.Idle) : Reaches guard s
  | move {s : Senders} {m : Move} (h : Reaches guard s) (hguard : guard s m) :
      Reaches guard (s.after m)

/-- All data was in the window of the peer when it was numbered, and is before the FIN. -/
def Fits (s : Senders) : Prop :=
  ∀ n ∈ s.numbered, n.inFlight ≤ n.window ∧ ∀ f, s.fin = some f → n.pos + n.len ≤ f

/-- Nobody is between the two parts of `sendmsg`. -/
def Quiet (s : Senders) : Prop := ∀ t, s.threads t = none

/-- While a thread is between the two parts of `sendmsg` no other one begins, no FIN is sent, and no
segment makes the window smaller. -/
def Exclusive (s : Senders) : Move → Prop
  | .check _ _ | .sendFin => s.Quiet
  | .segment seg => s.Quiet ∨ (seg.has flagRst = false → seg.has flagAck →
      s.inner.peerWindow ≤ seg.window.toNat)
  | .number _ | .fault _ | .shutRead => True

end Senders

/-! ### The window -/

lemma parseMssFrom_pos (options : List (BitVec 8)) (fuel i : ℕ) :
    0 < parseMssFrom options fuel i := by
  have hmax : 0 < maxTcpPayloadLen := by decide
  induction fuel generalizing i with
  | zero => exact hmax
  | succ fuel ih =>
    rw [parseMssFrom]
    dsimp only
    split_ifs
    · exact hmax
    · exact ih _
    · exact Nat.lt_min.mpr ⟨Nat.lt_of_lt_of_le Nat.one_pos (Nat.le_max_right _ _), hmax⟩
    · exact hmax
    · exact ih _
    · exact hmax

variable {inner : TcpInner} {seg : Segment} {s : Senders}

/-- The fields of the sending side. -/
def TcpInner.sending (inner : TcpInner) : BitVec 32 × BitVec 32 × ℕ × ℕ :=
  (inner.sndNxt, inner.sndUna, inner.peerWindow, inner.peerMss)

/-- What a segment does to the sending side. -/
lemma handle_sending (inner : TcpInner) (seg : Segment) :
    (inner.handle seg).1.sndNxt = inner.sndNxt ∧
    (0 < inner.peerMss → 0 < (inner.handle seg).1.peerMss) ∧
    ((inner.handle seg).1.peerWindow = inner.peerWindow ∧
        (inner.handle seg).1.sndUna = inner.sndUna ∨
      seg.has flagAck ∧ (inner.handle seg).1.peerWindow = seg.window.toNat ∧
        ((inner.handle seg).1.sndUna = inner.sndUna ∨
          seqBetween seg.ack inner.sndUna inner.sndNxt ∧
            (inner.handle seg).1.sndUna = seg.ack)) := by
  by_cases hsync : inner.state.Synchronized
  · have hsending : (inner.handle seg).1.sending = (inner.handleAck seg).1.sending := by
      rw [handle_synchronized _ _ hsync, handleFin_eq, handleData_eq]
      split_ifs <;> rfl
    rw [handleAck_eq] at hsending
    obtain ⟨hnext, huna, hwin, hmss⟩ := by
      simpa only [sending, Prod.mk.injEq] using hsending
    rw [hnext, huna, hwin, hmss]
    refine ⟨rfl, id, ?_⟩
    by_cases hack : seg.has flagAck
    · by_cases hbetween : seqBetween seg.ack inner.sndUna inner.sndNxt
      · exact .inr ⟨hack, if_pos hack, .inr ⟨hbetween, if_pos ⟨hack, hbetween⟩⟩⟩
      · exact .inr ⟨hack, if_pos hack, .inl (if_neg fun hboth => hbetween hboth.2)⟩
    · exact .inl ⟨if_neg hack, if_neg fun hboth => hack hboth.1⟩
  · rcases inner.handle_early seg hsync with heq | ⟨-, hack, -, heq⟩ | ⟨hack, -, heq⟩ <;> rw [heq]
    · exact ⟨rfl, id, .inl ⟨rfl, rfl⟩⟩
    · refine ⟨rfl, fun _ => parseMssFrom_pos _ _ _, .inr ⟨hack.1, rfl, .inr ⟨?_, rfl⟩⟩⟩
      rw [hack.2]
      exact seqBetween_high _ _
    · refine ⟨rfl, id, .inr ⟨hack.1, rfl, .inr ⟨?_, rfl⟩⟩⟩
      rw [hack.2]
      exact seqBetween_high _ _

/-- An acknowledgement makes the bytes in flight fewer. -/
lemma inFlight_le {ack una nxt : BitVec 32} (h : seqBetween ack una nxt) :
    (nxt - ack).toNat ≤ (nxt - una).toNat := by
  rw [seqBetween, decide_eq_true_eq] at h
  bv_omega

/-- The room in the window does not become less by a segment that does not make it smaller. -/
lemma sendWindowAvailable_handle (hwindow : seg.has flagAck → inner.peerWindow ≤ seg.window.toNat) :
    inner.sendWindowAvailable ≤ (inner.handle seg).1.sendWindowAvailable := by
  obtain ⟨hnext, -, hsending⟩ := handle_sending inner seg
  rw [sendWindowAvailable, sendWindowAvailable, hnext]
  rcases hsending with ⟨hwin, huna⟩ | ⟨hack, hwin, huna | ⟨hbetween, huna⟩⟩
  · rw [hwin, huna]
  · rw [hwin, huna]
    exact Nat.sub_le_sub_right (hwindow hack) _
  · rw [huna]
    have hfewer := inFlight_le hbetween
    have hlarger := hwindow hack
    omega

/-! ### Runs -/

/-- What holds while the senders do not meet. -/
structure Senders.Inv (s : Senders) : Prop where
  mss : 0 < s.inner.peerMss
  checked : ∀ t len, s.threads t = some len → 0 < len ∧ s.inner.shutdownWrite = false ∧
    len ≤ s.inner.sendWindowAvailable
  alone : ∀ t t', s.threads t ≠ none → s.threads t' ≠ none → t = t'
  fin : ∀ f, s.fin = some f → s.inner.shutdownWrite
  numbered : ∀ n ∈ s.numbered, n.inFlight ≤ n.window ∧ n.pos + n.len ≤ s.pos ∧
    ∀ f, s.fin = some f → n.pos + n.len ≤ f

namespace Senders

lemma Idle.inv (h : s.Idle) : s.Inv where
  mss := h.mss
  checked t len ht := nomatch (h.threads t).symm.trans ht
  alone t t' ht := absurd (h.threads t) ht
  fin f hf := nomatch h.fin.symm.trans hf
  numbered n hn := by
    rw [h.numbered] at hn
    cases hn

lemma Inv.fits (h : s.Inv) : s.Fits := fun n hn => ⟨(h.numbered n hn).1, (h.numbered n hn).2.2⟩

lemma threads_of_leave {t t' len : ℕ}
    (h : update s.threads t none t' = some len) : s.threads t' = some len := by
  by_cases heq : t' = t
  · rw [heq, update_self] at h
    cases h
  · rwa [update_of_ne heq] at h

/-- A thread leaves `sendmsg` without numbering. -/
lemma Inv.leave (h : s.Inv) (t : ℕ) :
    { s with threads := update s.threads t none }.Inv where
  mss := h.mss
  checked t' len ht' := h.checked t' len (threads_of_leave ht')
  alone t₁ t₂ h₁ h₂ := by
    obtain ⟨len₁, h₁⟩ := ne_none_iff_exists'.mp h₁
    obtain ⟨len₂, h₂⟩ := ne_none_iff_exists'.mp h₂
    exact h.alone t₁ t₂ (by rw [threads_of_leave h₁]; nofun) (by rw [threads_of_leave h₂]; nofun)
  fin := h.fin
  numbered := h.numbered

/-- The socket changes while nobody is sending, or without less room in the window. -/
lemma Inv.setInner (h : s.Inv) {inner : TcpInner} (hmss : 0 < inner.peerMss)
    (hshut : inner.shutdownWrite = s.inner.shutdownWrite)
    (havailable : s.Quiet ∨ s.inner.sendWindowAvailable ≤ inner.sendWindowAvailable) :
    { s with inner := inner }.Inv where
  mss := hmss
  checked t len ht := by
    rcases havailable with hquiet | hle
    · cases (hquiet t).symm.trans ht
    · obtain ⟨hpos, hopen, hlen⟩ := h.checked t len ht
      exact ⟨hpos, hshut.trans hopen, hlen.trans hle⟩
  alone := h.alone
  fin f hf := hshut.trans (h.fin f hf)
  numbered := h.numbered

/-- The check of a thread while there is no other one. -/
lemma Inv.check (h : s.Inv) (hquiet : s.Quiet) {t remaining len : ℕ} (hremaining : 0 < remaining)
    (hcheck : s.inner.checkSend remaining = .ok len) :
    { s with threads := update s.threads t (some len) }.Inv := by
  have honly : ∀ t' len', update s.threads t (some len) t' = some len' →
      t' = t ∧ len' = len := by
    intro t' len' ht'
    by_cases heq : t' = t
    · rw [heq, update_self] at ht'
      exact ⟨heq, (some.inj ht').symm⟩
    · rw [update_of_ne heq, hquiet t'] at ht'
      cases ht'
  rw [checkSend] at hcheck
  split_ifs at hcheck with hstate hshut hroom
  refine ⟨h.mss, fun t' len' ht' => ?_, fun t₁ t₂ h₁ h₂ => ?_, h.fin, h.numbered⟩
  · obtain ⟨-, rfl⟩ := honly t' len' ht'
    have hmss := h.mss
    have hlen := Except.ok.inj hcheck
    exact ⟨by omega, Bool.eq_false_iff.mpr hshut,
      show len' ≤ s.inner.sendWindowAvailable by omega⟩
  · obtain ⟨len₁, h₁⟩ := ne_none_iff_exists'.mp h₁
    obtain ⟨len₂, h₂⟩ := ne_none_iff_exists'.mp h₂
    rw [(honly t₁ len₁ h₁).1, (honly t₂ len₂ h₂).1]

/-- A chunk that was checked is in the window when it is numbered. -/
lemma Inv.number (h : s.Inv) {t len : ℕ} (ht : s.threads t = some len) : (s.number t len).Inv := by
  obtain ⟨hpos, hopen, hlen⟩ := h.checked t len ht
  have hnofin : s.fin = none := eq_none_iff_forall_ne_some.mpr fun f hf => by
    rw [h.fin f hf] at hopen
    cases hopen
  -- the thread was the only one
  have hquiet : ∀ t' len', update s.threads t none t' ≠ some len' := fun t' len' ht' => by
    have heq := h.alone t' t (by rw [threads_of_leave ht']; nofun) (by rw [ht]; nofun)
    rw [heq, update_self] at ht'
    cases ht'
  refine ⟨h.mss, fun t' len' ht' => absurd ht' (hquiet t' len'), fun t₁ t₂ h₁ => ?_, ?_, ?_⟩
  · obtain ⟨len₁, h₁⟩ := ne_none_iff_exists'.mp h₁
    exact absurd h₁ (hquiet t₁ len₁)
  · exact fun f hf => nomatch hnofin.symm.trans hf
  · intro n hn
    rcases mem_append.mp hn with hn | hn
    · obtain ⟨hfits, hbefore, hfin⟩ := h.numbered n hn
      exact ⟨hfits, Nat.le_add_right_of_le hbefore, hfin⟩
    · obtain rfl := mem_singleton.mp hn
      refine ⟨?_, le_refl _, fun f hf => nomatch hnofin.symm.trans hf⟩
      rw [sendWindowAvailable] at hlen
      change (s.inner.sndNxt + BitVec.ofNat 32 len - s.inner.sndUna).toNat ≤ s.inner.peerWindow
      have hmod : (s.inner.sndNxt + BitVec.ofNat 32 len - s.inner.sndUna).toNat ≤
          (s.inner.sndNxt - s.inner.sndUna).toNat + len := by
        bv_omega
      omega

lemma Inv.sendFin (h : s.Inv) (hquiet : s.Quiet) :
    { s with inner := s.inner.numberFin, pos := s.pos + 1, fin := some s.pos }.Inv where
  mss := h.mss
  checked t len ht := nomatch (hquiet t).symm.trans ht
  alone := h.alone
  fin _ _ := rfl
  numbered n hn := by
    obtain ⟨hfits, hbefore, -⟩ := h.numbered n hn
    exact ⟨hfits, Nat.le_add_right_of_le hbefore, fun f hf => some.inj hf ▸ hbefore⟩

lemma Inv.after (h : s.Inv) {m : Move} (hex : s.Exclusive m) : (s.after m).Inv := by
  cases m with
  | check t remaining =>
    rw [Senders.after]
    split
    · rename_i len _ hcheck
      split_ifs with hremaining
      · exact h.check hex hremaining hcheck
      · exact h
    · exact h
  | number t =>
    rw [Senders.after]
    split
    · rename_i len _ ht _
      exact h.number ht
    · exact h.leave t
    · exact h
  | fault t => exact h.leave t
  | shutRead => exact h.setInner h.mss rfl (.inr le_rfl)
  | sendFin =>
    rw [Senders.after]
    split_ifs
    · exact h.sendFin hex
    · exact h
  | segment seg =>
    rw [Senders.after]
    split_ifs with hrst
    · exact h.setInner h.mss rfl (.inr le_rfl)
    · rw [Bool.not_eq_true] at hrst
      exact h.setInner ((handle_sending _ seg).2.1 h.mss)
        (segmented_handle _ seg).shutdownWrite
        (hex.imp_right fun hwindow => sendWindowAvailable_handle (hwindow hrst))

lemma Reaches.inv (h : Reaches Exclusive s) : s.Inv := by
  induction h with
  | idle h => exact h.inv
  | move _ hguard ih => exact ih.after hguard

/-- In a run of such moves all data is in the window when it is numbered, and before the FIN. -/
theorem fits_of_exclusive (h : Reaches Exclusive s) : s.Fits := h.inv.fits

/-- A connection of which the peer lets a thousand bytes be in flight. -/
def sample : Senders := ⟨established, fun _ => none, 0, none, []⟩

lemma idle_sample : sample.Idle := ⟨fun _ => rfl, rfl, rfl, by decide⟩

/-- One thread after the other fills the window. -/
theorem fits_sample :
    ((((sample.after (.check 0 600)).after (.number 0)).after (.check 1 600)).after
      (.number 1)).Fits := by
  have hthreads : ((sample.after (.check 0 600)).after (.number 0)).threads =
      update (update (fun _ => none) 0 (some 600)) 0 none := rfl
  have hquiet : ((sample.after (.check 0 600)).after (.number 0)).Quiet := fun t => by
    rw [hthreads, update_idem, update_apply, ite_self]
  exact fits_of_exclusive (.move (.move (.move (.move (.idle idle_sample) fun _ => rfl) trivial)
    hquiet) trivial)

/-- Two threads see the same window, and their data is twice as much. -/
theorem not_fits_sample : ∃ s, Reaches (fun _ _ => True) s ∧ ¬ s.Fits := by
  refine ⟨_, .move (m := .number 1) (.move (m := .number 0) (.move (m := .check 1 1000)
    (.move (m := .check 0 1000) (.idle idle_sample) trivial) trivial) trivial) trivial,
    fun hfits => ?_⟩
  have hsecond := (hfits ⟨1000, 1000, 2000, 1000⟩ (mem_cons_of_mem _ mem_cons_self)).1
  exact absurd hsecond (by decide)

end Senders

end Zinnia.Tcp
