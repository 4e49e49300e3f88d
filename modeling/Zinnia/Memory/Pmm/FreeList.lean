import Zinnia.Memory.Pmm

/-!
# The free list represents a list of regions

`FreeList p rs` says that the metadata of `p` is exactly the linked list of the regions `rs`. On
such a state `freeRegion` computes `Regions.coalesce` and `alloc` computes `Regions.shrink`.
-/

namespace Zinnia

open Regions List Option Region

namespace Pmm

/-- The index of the first region of a list. -/
def headOf : List Region → ℕ
  | [] => noPage
  | r :: _ => r.start

@[simp] lemma headOf_nil : headOf [] = noPage := rfl

@[simp] lemma headOf_cons (r : Region) (rs : List Region) : headOf (r :: rs) = r.start := rfl

/-- The index of the last region of a list, `prev` for the empty one. -/
def lastStart (prev : Option ℕ) (rs : List Region) : Option ℕ :=
  rs.foldl (fun _ r => some r.start) prev

/-- The metadata of page `i` when the free regions are `rs`. -/
def pageOf : List Region → ℕ → Page
  | [], _ => .blank
  | r :: rs, i => if i = r.start then ⟨headOf rs, r.count⟩ else pageOf rs i

/-- The metadata of `p` is the linked list of `rs`, and nothing else. -/
structure Linked (p : Pmm) (rs : List Region) : Prop where
  head : p.head = headOf rs
  pages : ∀ i < p.len, p.pages i = pageOf rs i

/-- The metadata of `p` is the linked list of `rs`, whose regions lie inside the metadata array,
are increasing and leave a gap between every two of them. -/
structure FreeList (p : Pmm) (rs : List Region) : Prop extends Linked p rs where
  inBounds : ∀ r ∈ rs, r.stop ≤ p.len
  separated : Separated rs

@[simp] lemma lastStart_nil (prev : Option ℕ) : lastStart prev [] = prev := rfl

@[simp] lemma lastStart_concat (prev : Option ℕ) (rs : List Region) (r : Region) :
    lastStart prev (rs ++ [r]) = some r.start := by
  simp [lastStart]

/-! ### Metadata -/

variable {rs : List Region} {i : ℕ} {p : Pmm}

lemma pageOf_of_forall_ne (h : ∀ r ∈ rs, i ≠ r.start) : pageOf rs i = .blank := by
  induction rs with
  | nil => rfl
  | cons r rs ih =>
    rw [forall_mem_cons] at h
    rw [pageOf, if_neg h.1, ih h.2]

/-- Exactly the head pages carry a page count. -/
lemma count_pageOf_ne_zero : (pageOf rs i).count ≠ 0 ↔ ∃ r ∈ rs, i = r.start := by
  induction rs with
  | nil => simp [pageOf, Page.blank]
  | cons r rs ih =>
    by_cases hi : i = r.start
    · simpa [pageOf, hi] using r.pos.ne'
    · simpa [pageOf, hi] using ih

lemma pageOf_append_of_forall_ne {pre post : List Region} (h : ∀ r ∈ pre, i ≠ r.start) :
    pageOf (pre ++ post) i = pageOf post i := by
  induction pre with
  | nil => rfl
  | cons r pre ih =>
    rw [forall_mem_cons] at h
    rw [cons_append, pageOf, if_neg h.1, ih h.2]

/-- The head pages of a list depend on what follows it only through the link of the last one. -/
lemma pageOf_append_congr {pre post post' : List Region} (hi : ∃ r ∈ pre, i = r.start)
    (h : headOf post = headOf post') : pageOf (pre ++ post) i = pageOf (pre ++ post') i := by
  induction pre with
  | nil =>
    obtain ⟨r, hr, -⟩ := hi
    cases hr
  | cons r pre ih =>
    have hhead : headOf (pre ++ post) = headOf (pre ++ post') := by
      cases pre with
      | nil => exact h
      | cons s pre => rfl
    simp only [cons_append, pageOf, hhead]
    split_ifs with hir
    · rfl
    · obtain ⟨s, hs, his⟩ := hi
      rcases mem_cons.mp hs with rfl | hs
      · exact absurd his hir
      · exact ih ⟨s, hs, his⟩

/-- The state changed only behind `pre`, and the list still continues at the same page. -/
lemma Linked.replace {p' : Pmm} {pre post post' : List Region} (h : Linked p (pre ++ post))
    (hlen : p'.len = p.len) (hp : p'.head = p.head) (hhead : headOf post' = headOf post)
    (hpre : ∀ r ∈ pre, p'.pages r.start = p.pages r.start)
    (hpost : ∀ i < p.len, p.pages i = pageOf post i → p'.pages i = pageOf post' i) :
    Linked p' (pre ++ post') := by
  refine ⟨?_, fun i hi => ?_⟩
  · rw [hp, h.head]
    cases pre with
    | nil => exact hhead.symm
    | cons r pre => rfl
  · rw [hlen] at hi
    by_cases hr : ∃ r ∈ pre, i = r.start
    · rw [pageOf_append_congr hr hhead, ← h.pages i hi]
      obtain ⟨r, hr, rfl⟩ := hr
      exact hpre r hr
    · have hne : ∀ r ∈ pre, i ≠ r.start := fun r hr' heq => hr ⟨r, hr', heq⟩
      have hi' := h.pages i hi
      rw [pageOf_append_of_forall_ne hne] at hi' ⊢
      exact hpost i hi hi'

@[simp] lemma modify_len (p : Pmm) (i : ℕ) (f : Page → Page) : (p.modify i f).len = p.len := rfl

@[simp] lemma modify_head (p : Pmm) (i : ℕ) (f : Page → Page) : (p.modify i f).head = p.head := rfl

@[simp] lemma modify_pages (p : Pmm) (i j : ℕ) (f : Page → Page) :
    (p.modify i f).pages j = if j = i then f (p.pages i) else p.pages j := by
  simp [modify, Function.update_apply]

lemma lt_noPage (h : i ≤ p.len) : i ≠ noPage := by
  have := p.len_lt
  simp only [noPage]
  omega

namespace FreeList

variable {p : Pmm} {rs pre post : List Region} {r : Region} {idx fuel n : ℕ}

lemma start_lt (h : FreeList p rs) (hr : r ∈ rs) : r.start < p.len :=
  lt_of_lt_of_le r.start_lt_stop (h.inBounds r hr)

lemma start_ne_noPage (h : FreeList p rs) (hr : r ∈ rs) : r.start ≠ noPage :=
  lt_noPage (h.start_lt hr).le

/-- Following the list from a region reaches the next one. -/
lemma pages_start (h : FreeList p (pre ++ r :: post)) :
    p.pages r.start = ⟨headOf post, r.count⟩ := by
  rw [h.pages _ (h.start_lt (by simp)), pageOf_append_of_forall_ne, pageOf, if_pos rfl]
  exact fun s hs => (h.separated.start_lt_of_mem_left hs).ne'

/-- A head page does not appear again behind its region. -/
lemma pageOf_start (h : FreeList p (pre ++ r :: post)) : pageOf post r.start = .blank :=
  pageOf_of_forall_ne fun _ hs => (h.separated.start_lt_of_mem_right hs).ne

/-- A separated list inside the metadata array has no more regions than the array has pages. -/
lemma length_le (h : FreeList p rs) : rs.length ≤ p.len := by
  have hsep := h.separated
  have hin := h.inBounds
  clear h
  suffices ∀ a, (∀ r ∈ rs, a ≤ r.start) → rs.length ≤ p.len - a from this 0 (by simp)
  induction rs with
  | nil => simp
  | cons r rs ih =>
    intro a ha
    rw [separated_cons] at hsep
    rw [forall_mem_cons] at ha hin
    have := ih hsep.2 hin.2 (r.start + 1) fun s hs => by
      have := hsep.1 s hs
      have := r.start_lt_stop
      omega
    have := r.start_lt_stop
    simp only [length_cons]
    omega

/-! ### Freeing a region -/

/-- The walk of `freeRegion` stops between the regions below `idx` and the others. -/
lemma findGap_eq (done : List Region) (h : FreeList p (done ++ pre ++ post))
    (hpre : ∀ r ∈ pre, r.start < idx) (hpost : ∀ r ∈ post, idx ≤ r.start) (prev : Option ℕ)
    (hfuel : pre.length < fuel) :
    p.findGap idx fuel prev (headOf (pre ++ post)) =
      some (lastStart prev pre, headOf post) := by
  induction pre generalizing done prev fuel with
  | nil =>
    obtain ⟨fuel, rfl⟩ := Nat.exists_eq_add_of_lt hfuel
    cases post with
    | nil => simp [findGap, headOf]
    | cons r post =>
      have := hpost r mem_cons_self
      simp [findGap, headOf, this]
  | cons r pre ih =>
    rw [forall_mem_cons] at hpre
    obtain ⟨fuel, rfl⟩ : ∃ k, fuel = k + 1 := ⟨fuel - 1, by simp at hfuel; omega⟩
    have hr : r ∈ done ++ (r :: pre) ++ post := by simp
    have h' : FreeList p (done ++ r :: (pre ++ post)) := by simpa using h
    have hfuel' : pre.length < fuel := by simp at hfuel; omega
    have hrec := ih (done ++ [r]) (by simpa using h) hpre.2 (some r.start) hfuel'
    rw [cons_append, headOf, findGap, if_pos ⟨h.start_ne_noPage hr, hpre.1⟩,
      page?, if_pos (h.start_lt hr)]
    simp only [bind_eq_bind, bind_some, h'.pages_start, hrec, lastStart, foldl_cons]

/-- Growing the region `q` that ends where the freed pages start. -/
lemma growRegion_eq {q : Region} (h : FreeList p (pre ++ q :: post)) (hn : 0 < n)
    (hq : q.stop = idx) (hlen : idx + n ≤ p.len) (hpost : ∀ r ∈ post, idx + n ≤ r.start) :
    ∃ p', p.growRegion q.start idx n (if headOf post = noPage then none else some (headOf post))
        = some p' ∧ p'.len = p.len ∧ Linked p' (pre ++ absorb (q.join ⟨idx, n, hn⟩) post) := by
  have hqlt := q.start_lt_stop
  have hqlen : q.start < p.len := h.start_lt (by simp)
  have hidx : idx < p.len := by omega
  have hpages := h.pages_start
  have hpre : ∀ r ∈ pre, r.start < q.start := fun r hr => h.separated.start_lt_of_mem_left hr
  have hidxne : idx ≠ q.start := by omega
  have hkeep : ∀ r ∈ pre, r.start ≠ idx ∧ r.start ≠ q.start := fun r hr => by
    have := hpre r hr
    omega
  have hblank : p.pages idx = .blank := by
    refine (h.pages idx hidx).trans (pageOf_of_forall_ne fun r hr => ?_)
    rcases mem_append.mp hr with hr | hr
    · have := hpre r hr
      omega
    · rcases mem_cons.mp hr with rfl | hr
      · exact hidxne
      · have := hpost r hr
        omega
  cases post with
  | nil =>
    simp only [growRegion, modify?, modify_len, hqlen, hidx, ↓reduceIte, bind_eq_bind, bind_some]
    refine ⟨_, rfl, rfl, h.toLinked.replace rfl rfl rfl (fun r hr => ?_) fun i hi hpi => ?_⟩
    · simp only [modify_pages, if_neg (hkeep r hr).1, if_neg (hkeep r hr).2]
    · simp only [pageOf] at hpi
      simp only [modify_pages, absorb, pageOf, join_start, join_count]
      grind [Page.blank]
  | cons m post =>
    have hm := hpost m mem_cons_self
    have hmlen : m.start < p.len := h.start_lt (by simp)
    have hmne : m.start ≠ noPage := h.start_ne_noPage (by simp)
    have h' : FreeList p ((pre ++ [q]) ++ m :: post) := by simpa using h
    have hmpages := h'.pages_start
    have hmidx : m.start ≠ idx := by omega
    have hmq : m.start ≠ q.start := by omega
    have hcount : q.start + (q.count + n) = idx + n := by
      simp only [stop] at hq
      omega
    simp only [growRegion, headOf_cons, hmne, modify?, page?, modify_len, hqlen, hidx, hmlen,
      modify_pages, hidxne.symm, hpages, hcount, ↓reduceIte, bind_eq_bind, bind_some]
    split_ifs with hmerge
    · have hjoin : (q.join ⟨idx, n, hn⟩).stop = m.start := by
        rw [join_stop hq]
        exact hmerge
      have hmblank := h'.pageOf_start
      refine ⟨_, rfl, rfl, h.toLinked.replace rfl rfl ?_ (fun r hr => ?_) fun i hi hpi => ?_⟩
      · simp [absorb, hjoin, headOf]
      · have := hpre r hr
        simp only [modify_pages, if_neg (hkeep r hr).1, if_neg (hkeep r hr).2,
          if_neg (show ¬ r.start = m.start by omega)]
      · simp only [pageOf] at hpi
        simp only [modify_pages, absorb, hjoin, pageOf, ↓reduceIte, join_start, join_count]
        grind [Page.blank]
    · have hjoin : (q.join ⟨idx, n, hn⟩).stop ≠ m.start := by
        rw [join_stop hq]
        exact hmerge
      refine ⟨_, rfl, rfl, h.toLinked.replace rfl rfl ?_ (fun r hr => ?_) fun i hi hpi => ?_⟩
      · simp [absorb, hjoin, headOf]
      · simp only [modify_pages, if_neg (hkeep r hr).1, if_neg (hkeep r hr).2]
      · simp only [pageOf] at hpi
        simp only [modify_pages, absorb, hjoin, pageOf, ↓reduceIte, join_start, join_count]
        grind [Page.blank]

/-- Writing the head page of the freed pages, in front of the regions behind them. -/
lemma insertRegion_eq (h : FreeList p (pre ++ post)) (hn : 0 < n) (hlen : idx + n ≤ p.len)
    (hpost : ∀ r ∈ post, idx + n ≤ r.start) :
    ∃ p', p.insertRegion idx n (if headOf post = noPage then none else some (headOf post))
        = some p' ∧ p'.len = p.len ∧ p'.head = p.head ∧
      (∀ i < idx, p'.pages i = p.pages i) ∧
      ∀ i, p.pages i = pageOf post i → p'.pages i = pageOf (absorb ⟨idx, n, hn⟩ post) i := by
  have hidx : idx < p.len := by omega
  cases post with
  | nil =>
    simp only [insertRegion, modify?, hidx]
    refine ⟨_, rfl, rfl, rfl, fun i hi => ?_, fun i hpi => ?_⟩
    · rw [modify_pages, if_neg hi.ne]
    · simp only [modify_pages, hpi, absorb, pageOf, headOf_nil]
  | cons m post =>
    have hmlen : m.start < p.len := h.start_lt (by simp)
    have hmne : m.start ≠ noPage := h.start_ne_noPage (by simp)
    have hmpages : p.pages m.start = ⟨headOf post, m.count⟩ := h.pages_start
    simp only [insertRegion, headOf_cons, modify?, page?, modify_len, hidx, hmlen, hmne,
      ↓reduceIte, bind_eq_bind, bind_some]
    split_ifs with hmerge
    · have hmblank := h.pageOf_start
      have hstop : stop ⟨idx, n, hn⟩ = m.start := hmerge
      refine ⟨_, rfl, rfl, rfl, fun i hi => ?_, fun i hpi => ?_⟩
      · rw [modify_pages, if_neg (by omega), modify_pages, if_neg hi.ne]
      · simp only [pageOf] at hpi
        simp only [modify_pages, absorb, hstop, pageOf, ↓reduceIte, join_start, join_count]
        grind
    · have hstop : stop ⟨idx, n, hn⟩ ≠ m.start := hmerge
      refine ⟨_, rfl, rfl, rfl, fun i hi => ?_, fun i hpi => ?_⟩
      · rw [modify_pages, if_neg hi.ne]
      · simp only [modify_pages, absorb, hstop, hpi, pageOf, headOf_cons, ↓reduceIte]

lemma headOf_absorb (new : Region) (post : List Region) : headOf (absorb new post) = new.start := by
  cases post with
  | nil => rfl
  | cons m post =>
    simp only [absorb]
    split_ifs <;> rfl

/-- Freeing pages that are not free inserts their region into the list. -/
theorem freeRegion_eq (h : FreeList p rs) (new : Region) (hlen : new.stop ≤ p.len)
    (hd : Disjoint new.cells (cells rs)) :
    ∃ p', p.freeRegion new.start new.count = some p' ∧ p'.len = p.len ∧
      FreeList p' (coalesce rs new) := by
  obtain ⟨pre, post, rfl, hpre, hpost⟩ := h.separated.exists_split new.start
  have hside : ∀ r ∈ pre ++ post, r.stop ≤ new.start ∨ new.stop ≤ r.start := fun r hr =>
    stop_le_or_stop_le (hd.mono_right (cells_mono_of_mem hr))
  have hpost' : ∀ r ∈ post, new.start + new.count ≤ r.start := fun r hr => by
    have := hpost r hr
    have := r.start_lt_stop
    rcases hside r (mem_append_right _ hr) with h | h
    · omega
    · exact h
  have hfuel : pre.length < p.len + 1 := by
    have := h.length_le
    simp only [length_append] at this
    omega
  have hgap := findGap_eq [] h hpre hpost none hfuel
  suffices ∃ p', p.freeRegion new.start new.count = some p' ∧ p'.len = p.len ∧
      Linked p' (coalesce (pre ++ post) new) by
    obtain ⟨p', hp', hlen', hlinked⟩ := this
    refine ⟨p', hp', hlen', hlinked, ?_, h.separated.coalesce hd⟩
    refine fun r hr => stop_le_of_cells_subset fun i hi => ?_
    rw [hlen']
    rcases cells_coalesce _ _ ▸ cells_mono_of_mem hr hi with hi | ⟨r, hr, hi⟩
    · exact lt_of_lt_of_le hi.2 hlen
    · exact lt_of_lt_of_le hi.2 (h.inBounds r hr)
  rw [← h.head] at hgap
  simp only [freeRegion, hgap, bind_eq_bind]
  have habsorb : coalesce post new = absorb new post := coalesce_eq_absorb fun r hr => by
    have := hpost' r hr
    have := new.pos
    omega
  rcases eq_nil_or_concat pre with rfl | ⟨pre, q, rfl⟩
  · obtain ⟨p', hp', hlen', -, -, hpages⟩ := insertRegion_eq h new.pos hlen hpost'
    refine ⟨{ p' with head := new.start }, by simp [hp', link], hlen', ?_, fun i hi => ?_⟩
    · rw [nil_append, habsorb, headOf_absorb]
    · rw [nil_append, habsorb]
      exact hpages i (h.pages i (hlen' ▸ hi))
  · rw [concat_eq_append] at *
    simp only [lastStart_concat]
    rw [append_assoc, singleton_append] at h ⊢
    have hq : q.start < new.start := hpre q (by simp)
    have hqlen : q.start < p.len := h.start_lt (by simp)
    have hleft : ∀ r ∈ pre, r.stop < q.start := fun r hr =>
      (separated_append.mp h.separated).2.2 r hr q mem_cons_self
    have hskip : coalesce (pre ++ q :: post) new = pre ++ coalesce (q :: post) new := by
      refine coalesce_append _ _ _ (fun r hr => hpre r (by simp [hr])) fun r hr => ?_
      have := hleft r hr
      omega
    simp only [page?, hqlen, ↓reduceIte, bind_some, h.pages_start]
    rw [hskip, coalesce]
    by_cases hstop : q.stop = new.start
    · rw [if_pos hstop, if_pos (by exact hstop)]
      exact growRegion_eq h new.pos hstop hlen hpost'
    · rw [if_neg hstop, if_neg (by exact hstop), if_pos hq, habsorb]
      have h' : FreeList p ((pre ++ [q]) ++ post) := by simpa using h
      obtain ⟨p', hp', hlen', hhead, hbelow, hpages⟩ := insertRegion_eq h' new.pos hlen hpost'
      simp only [hp', bind_some, link, modify?, hlen', hqlen]
      refine ⟨_, rfl, hlen', h.toLinked.replace hlen' hhead rfl (fun r hr => ?_) fun i hi hpi => ?_⟩
      · have := hleft r hr
        have := r.start_lt_stop
        rw [modify_pages, if_neg (by omega), hbelow _ (by omega)]
      · simp only [modify_pages, pageOf, hbelow _ hq, h.pages_start, headOf_absorb]
        simp only [pageOf] at hpi
        split_ifs with hiq
        · rfl
        · rw [if_neg hiq] at hpi
          exact hpages i hpi

/-! ### Allocating pages -/

variable {pages : Usize} {limit : PhysAddr}

/-- What the walk of `alloc` has found after the regions `rs`. With a limit it is the first region
that fits. -/
def Chosen (pages : Usize) (limit : PhysAddr) (rs : List Region) : Option (ℕ × Option ℕ) → Prop
  | none => ∀ r ∈ rs, fits pages limit r.start r.count = false
  | some (idx, prev) => ∃ pre r post, rs = pre ++ r :: post ∧ idx = r.start ∧
      prev = lastStart none pre ∧ fits pages limit r.start r.count ∧
      (limit ≠ BitVec.allOnes 64 → ∀ s ∈ pre, fits pages limit s.start s.count = false)

lemma choose_eq (done : List Region) (h : FreeList p (done ++ rs)) (hfuel : rs.length < fuel)
    {chosen : Option (ℕ × Option ℕ)} (hchosen : Chosen pages limit done chosen)
    (hlimit : limit ≠ BitVec.allOnes 64 → chosen = none) :
    ∃ c, p.choose pages limit fuel (headOf rs) (lastStart none done) chosen = some c ∧
      Chosen pages limit (done ++ rs) c := by
  induction rs generalizing done fuel chosen with
  | nil =>
    obtain ⟨fuel, rfl⟩ := Nat.exists_eq_add_of_lt hfuel
    exact ⟨chosen, by simp [choose], by simpa using hchosen⟩
  | cons r rs ih =>
    obtain ⟨fuel, rfl⟩ : ∃ k, fuel = k + 1 := ⟨fuel - 1, by simp at hfuel; omega⟩
    have hr : r ∈ done ++ r :: rs := by simp
    have hsplit : done ++ r :: rs = done ++ [r] ++ rs := by simp
    have hfuel' : rs.length < fuel := by simp at hfuel; omega
    have hlast : lastStart none (done ++ [r]) = some r.start := by simp
    simp only [choose, headOf_cons, h.start_ne_noPage hr, page?, h.start_lt hr, h.pages_start,
      ↓reduceIte, bind_eq_bind, bind_some]
    split_ifs with hfits hmax
    · refine ⟨_, rfl, done, r, rs, rfl, rfl, rfl, hfits, fun _ s hs => ?_⟩
      rw [hlimit hmax] at hchosen
      exact hchosen s hs
    · rw [hsplit] at h ⊢
      rw [← hlast]
      refine ih _ h hfuel' ⟨done, r, [], rfl, rfl, rfl, hfits, fun hne => ?_⟩ fun hne => ?_
      · exact absurd hne hmax
      · exact absurd hne hmax
    · rw [hsplit] at h ⊢
      rw [← hlast]
      refine ih _ h hfuel' ?_ hlimit
      cases chosen with
      | none =>
        intro s hs
        rcases mem_append.mp hs with hs | hs
        · exact hchosen s hs
        · rw [mem_singleton.mp hs]
          simpa using hfits
      | some c =>
        obtain ⟨pre, s, post, rfl, hs⟩ := hchosen
        exact ⟨pre, s, post ++ [r], by simp, hs⟩

lemma count_of_fits {count : ℕ} (h : fits pages limit idx count) : pages.toNat ≤ count := by
  simp only [fits, Bool.and_eq_true, decide_eq_true_eq] at h
  exact h.1

lemma addrFromIdx_toNat (h : idx < 2 ^ 52) : (addrFromIdx idx).toNat = idx * pageSize := by
  simp only [addrFromIdx, pageBits, pageSize, BitVec.toNat_shiftLeft, BitVec.toNat_ofNat]
  omega

/-- Taking the whole region `r` out of the list. -/
lemma unlink_eq (h : FreeList p (pre ++ r :: post)) :
    ∃ q p', p.link (lastStart none pre) (headOf post) = some q ∧
      q.modify? r.start (fun _ => .blank) = some p' ∧ p'.len = p.len ∧
      Linked p' (pre ++ post) := by
  have hrlen : r.start < p.len := h.start_lt (by simp)
  have hblank := h.pageOf_start
  rcases eq_nil_or_concat pre with rfl | ⟨pre, q, rfl⟩
  · refine ⟨_, _, rfl, if_pos hrlen, rfl, rfl, fun i hi => ?_⟩
    have hpi : p.pages i = pageOf (r :: post) i := h.pages i hi
    simp only [pageOf] at hpi
    simp only [nil_append, modify_pages, hpi]
    split_ifs with hir
    · rw [hir, hblank]
    · rfl
  · rw [concat_eq_append, append_assoc, singleton_append] at *
    have hqlen : q.start < p.len := h.start_lt (by simp)
    have hqr : q.start < r.start := h.separated.start_lt_of_mem_right (by simp)
    simp only [lastStart_concat, link, modify?, hqlen]
    refine ⟨_, _, rfl, if_pos hrlen, rfl, ?_⟩
    refine h.toLinked.replace rfl rfl rfl (fun s hs => ?_) fun i hi hpi => ?_
    · have := h.separated.start_lt_of_mem_left hs
      rw [modify_pages, if_neg (by omega), modify_pages, if_neg (by omega)]
    · simp only [pageOf] at hpi
      simp only [modify_pages, pageOf]
      grind

/-- The last `pages` pages of the region `r` leave the free list. -/
lemma takePages_eq (h : FreeList p (pre ++ r :: post)) (hcount : pages.toNat ≤ r.count) :
    ∃ addr p', p.takePages pages r.start (lastStart none pre) = some (addr, p') ∧
      p'.len = p.len ∧ addr.toNat = (r.stop - pages.toNat) * pageSize ∧
      FreeList p' (pre ++ shrink r pages.toNat ++ post) := by
  have hrlen : r.start < p.len := h.start_lt (by simp)
  have hlen_lt := p.len_lt
  have hstop : r.stop ≤ p.len := h.inBounds r (by simp)
  suffices ∃ addr p', p.takePages pages r.start (lastStart none pre) = some (addr, p') ∧
      p'.len = p.len ∧ addr.toNat = (r.stop - pages.toNat) * pageSize ∧
      Linked p' (pre ++ shrink r pages.toNat ++ post) by
    obtain ⟨addr, p', hp', hlen', haddr, hlinked⟩ := this
    refine ⟨addr, p', hp', hlen', haddr, hlinked, ?_, h.separated.shrink _⟩
    refine fun t ht => stop_le_of_cells_subset fun i hi => ?_
    have hcells := cells_mono_of_mem ht hi
    rw [cells_append_shrink h.separated hcount] at hcells
    obtain ⟨s, hs, hi⟩ := hcells.1
    exact hlen' ▸ lt_of_lt_of_le hi.2 (h.inBounds s hs)
  simp only [takePages, page?, hrlen, ↓reduceIte, bind_eq_bind, bind_some, h.pages_start]
  split_ifs with hall
  · obtain ⟨q, p', hq, hp', hlen', hlinked⟩ := h.unlink_eq
    refine ⟨addrFromIdx r.start, p', by simp [hq, hp'], hlen', ?_, ?_⟩
    · rw [addrFromIdx_toNat (by omega)]
      simp [stop, hall]
    · simpa [shrink, hall] using hlinked
  · simp only [modify?, hrlen, ↓reduceIte]
    refine ⟨_, _, rfl, rfl, ?_, ?_⟩
    · rw [BitVec.toNat_add, addrFromIdx_toNat (by omega), BitVec.toNat_ofNat]
      simp only [stop, pageSize] at hstop ⊢
      omega
    · have hlt : pages.toNat < r.count := by omega
      simp only [shrink, hlt, ↓reduceDIte, append_assoc, singleton_append]
      refine h.toLinked.replace rfl rfl rfl (fun s hs => ?_) fun i hi hpi => ?_
      · rw [modify_pages, if_neg (h.separated.start_lt_of_mem_left hs).ne]
      · simp only [pageOf] at hpi
        simp only [modify_pages, h.pages_start, pageOf, hpi]
        split_ifs <;> rfl

/-- Either no region fits and nothing changes, or the end of a fitting region is handed out. -/
theorem alloc_cases (h : FreeList p rs) (pages : Usize) (flags : AllocFlags) :
    (p.alloc pages flags = some (.error .allocError, p) ∧
      ∀ r ∈ rs, fits pages (Pmm.limit flags) r.start r.count = false) ∨
    ∃ pre r post addr p', rs = pre ++ r :: post ∧ p.alloc pages flags = some (.ok addr, p') ∧
      p'.len = p.len ∧ addr.toNat = (r.stop - pages.toNat) * pageSize ∧
      fits pages (Pmm.limit flags) r.start r.count ∧
      (Pmm.limit flags ≠ BitVec.allOnes 64 →
        ∀ s ∈ pre, fits pages (Pmm.limit flags) s.start s.count = false) ∧
      FreeList p' (pre ++ shrink r pages.toNat ++ post) := by
  have hnil : Chosen pages (Pmm.limit flags) [] none := by simp [Chosen]
  obtain ⟨c, hc, hchosen⟩ := choose_eq [] h (Nat.lt_succ_of_le h.length_le) hnil fun _ => rfl
  rw [← h.head, lastStart_nil] at hc
  simp only [alloc, hc, bind_eq_bind]
  rcases c with _ | ⟨_, _⟩
  · exact Or.inl ⟨rfl, hchosen⟩
  · obtain ⟨pre, r, post, hrs, hidx, hprev, hfits, hfirst⟩ := hchosen
    obtain rfl : rs = pre ++ r :: post := hrs
    obtain ⟨addr, p', hp', hlen', haddr, hfree⟩ := h.takePages_eq (count_of_fits hfits)
    refine Or.inr ⟨pre, r, post, addr, p', rfl, ?_, hlen', haddr, hfits, hfirst, hfree⟩
    simp [hidx, hprev, hp']

end FreeList

/-! ### States built from regions -/

/-- The state whose free regions are `rs`. -/
def ofRegions (len : ℕ) (len_lt : len < 2 ^ 52) (rs : List Region) : Pmm :=
  ⟨headOf rs, len, pageOf rs, len_lt⟩

lemma freeList_ofRegions {len : ℕ} {len_lt : len < 2 ^ 52} (hin : ∀ r ∈ rs, r.stop ≤ len)
    (hsep : Separated rs) : FreeList (ofRegions len len_lt rs) rs :=
  ⟨⟨rfl, fun _ _ => rfl⟩, hin, hsep⟩

end Pmm

end Zinnia
