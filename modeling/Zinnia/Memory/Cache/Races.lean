import Zinnia.Memory.Cache.Properties

/-!
# Races for the pages of a cache

`try_get_page` does not hold the lock of the object while the pager runs: other tasks enter pages
of their own before the batch is merged. The two halves of the call are `fetch` and `finish`, the
second one in the object and in the memory that the other tasks have left.

Two things can go wrong: a pager can lose a frame when a read fails, and where the pager has no page
the cache is not asked again.
-/

namespace Zinnia

open Option List Prod

namespace PagedObject

variable {r : Ram} {total : Set ℕ} {len : ℕ} (htotal : total ⊆ Set.Iio len) {A : Set ℕ}

include htotal

/-- What `finish` leaves: a page that is present keeps its frame, and a frame of the batch is
entered for its page alone or is given back. -/
structure Merged (total : Set ℕ) (len : ℕ) (A : Set ℕ) (k : ℕ) (batch : List PhysAddr)
    (o o' : PagedObject) (r' : Ram) : Prop where
  frame : ∀ j, o'.frame j = (o.frame j).or (if k ≤ j then batch[j - k]? else none)
  inv : Pmm.Inv total len r'.pmm (A \ o.surplus k batch)
  kept : ∀ i a, batch[i]? = some a →
    (idxFromAddr a ∈ A \ o.surplus k batch ↔ o.frame (k + i) = none)
  once : ∀ i a j b, batch[i]? = some a → o'.frame j = some b → idxFromAddr b = idxFromAddr a →
    j = k + i ∧ o.frame j = none

/-- `try_get_page` while other tasks enter pages: a page that is present is returned. Otherwise the
pager has taken the frames of its batch, and no others exactly if it loses none. Whatever object and
memory the other tasks leave, as long as they leave the frames of the batch alone, the batch is
merged with it, and the frame of the page is returned exactly if the pager had it or no other task
has entered it. -/
theorem tryGetPage_races (o : PagedObject) (k count : ℕ) (h : Pmm.Inv total len r.pmm A) :
    (∀ page, o.frame k = some page → o.tryGetPage k r = some (.ok (some page), o, r)) ∧
    ∃ res r₁ lost, o.fetch k count r = some (res, r₁) ∧ Fresh A (res.toOption.getD [] ++ lost) ∧
      Pmm.Inv total len r₁.pmm (A ∪ frameSet (res.toOption.getD [] ++ lost)) ∧
      (lost = [] ↔ ¬ o.Loses k count r) ∧
      ∀ batch, res = .ok batch → ∀ o₁ r₂ A₁, Pmm.Inv total len r₂.pmm A₁ → frameSet batch ⊆ A₁ →
        (∀ j a, o₁.frame j = some a → idxFromAddr a ∉ frameSet batch) →
        ∃ page o' r', o₁.finish k batch r₂ = some (page, o', r') ∧
          Merged total len A₁ k batch o₁ o' r' ∧
          (page = o'.frame k ↔ batch ≠ [] ∨ o₁.frame k = none) := by
  refine ⟨fun page hk => by simp only [tryGetPage, hk], ?_⟩
  obtain ⟨res, r₁, lost, hfetch, hbatch, -, -, hloses⟩ := exists_fetch htotal h o k count
  refine ⟨res, r₁, lost, hfetch, hbatch.fresh, hbatch.inv, by rw [← hloses, not_not], ?_⟩
  rintro batch rfl o₁ r₂ A₁ hinv hsub hother
  have hnodup : (batch.map idxFromAddr).Nodup :=
    (hbatch.fresh.sublist (sublist_append_left _ _)).nodup
  obtain ⟨o', r', hcall, hinv', -⟩ := exists_enter_surplus htotal hinv o₁ k hsub hnodup
  have hframe := (frame_enter hcall).2
  refine ⟨batch.head?.map fun page => (o₁.frame k).getD page, o', r',
    finish_eq hcall, ⟨hframe, hinv', fun i a hi => ?_, fun i a j b hi hj heq => ?_⟩, ?_⟩
  · have hmem : idxFromAddr a ∈ A₁ := hsub ⟨a, mem_of_getElem? hi, rfl⟩
    simp [hmem, mem_surplus hnodup hi]
  · rw [hframe] at hj
    cases hold : o₁.frame j with
    | some c =>
      obtain rfl : c = b := by simpa [hold] using hj
      exact absurd ⟨a, mem_of_getElem? hi, heq.symm⟩ (hother j c hold)
    | none =>
      rw [hold, none_or, ite_none_right_eq_some] at hj
      have := eq_of_idxFromAddr hnodup hj.2 hi heq
      exact ⟨by omega, rfl⟩
  · rw [hframe]
    cases batch <;> cases o₁.frame k <;> simp

omit htotal

/-- Two frames. -/
def twoFrames : List Regions.Region := [⟨512, 2, by decide⟩]

/-- Memory with the given free regions. -/
def raceRam (regions : List Regions.Region) : Ram :=
  ⟨.ofRegions 1024 (by decide) regions, fun _ _ => 0⟩

/-- Another task has entered the first page of the object. -/
def raced : PagedObject := { newPhys with pages := BTreeSet.empty.insert (0, 0x200000) }

lemma frame_raced (j : ℕ) : raced.frame j = if j = 0 then some 0x200000 else none :=
  frame_insert (o := newPhys) rfl 0x200000 j

/-- The frame of the other task is returned, and the frame of the pager is given back. -/
theorem tryGetPage_races_raced :
    (newPhys.fetch 0 1 (raceRam twoFrames)).map Prod.fst = some (.ok [0x201000]) ∧
    ∃ o' r', raced.finish 0 [0x201000] (raceRam []) = some (some 0x200000, o', r') ∧
      Merged (Regions.cells twoFrames) 1024 (Regions.cells twoFrames) 0 [0x201000] raced o' r' := by
  have hfetch : (newPhys.fetch 0 1 (raceRam twoFrames)).map fst =
      some (.ok [0x201000]) := by decide
  have htotal : Regions.cells twoFrames ⊆ Set.Iio 1024 := by
    rintro i ⟨r, hr, -, hi⟩
    rw [mem_singleton.mp hr] at hi
    exact lt_trans hi (by decide)
  obtain ⟨-, res, r₁, _, hcall, -, -, -, hrun⟩ := tryGetPage_races htotal (A := ∅)
    (r := raceRam twoFrames) newPhys 0 1
    ⟨_, Pmm.freeList_ofRegions (by decide) (by simp [twoFrames]), rfl, by simp, by simp⟩
  obtain rfl : res = .ok [0x201000] := by simpa [hcall] using hfetch
  obtain ⟨page, o', r', hfinish, hmerged, hpage⟩ := hrun _ rfl raced (raceRam [])
    (Regions.cells twoFrames)
    ⟨_, Pmm.freeList_ofRegions (by decide) (by simp), rfl, by simp, by simp⟩ (by
      rintro _ ⟨a, ha, rfl⟩
      rw [mem_singleton.mp ha]
      exact ⟨_, mem_singleton_self _, by decide, by decide⟩) (by
      rintro j a hj ⟨b, hb, heq⟩
      rw [frame_raced, ite_none_right_eq_some] at hj
      rw [mem_singleton.mp hb, ← Option.some.inj hj.2] at heq
      exact absurd heq (by decide))
  obtain rfl : page = some 0x200000 := by
    simp [hpage.mpr (.inl (cons_ne_nil _ _)), hmerged.frame, frame_raced]
  exact ⟨hfetch, o', r', hfinish, hmerged⟩

/-- A device that has nothing of the page. -/
def emptyPager : Pager := { physPager with readahead := true, filled := fun _ _ => .ok 0 }

/-- A device that cannot be read, and a pager that leaks. -/
def leakingPager : Pager := { physPager with leaks := true, filled := fun _ _ => .error .ioError }

/-- Of two frames none is left after two reads that fail. Another task has entered the page, and
`try_get_page` returns no page. -/
theorem finish_raced_ne :
    (do
      let (first, r) ← fetch (new leakingPager) 0 1 (raceRam twoFrames)
      let (second, r) ← fetch (new leakingPager) 0 1 r
      let (third, _) ← fetch newPhys 0 1 r
      some (first, second, third)) = some (.error .eio, .error .eio, .error .enomem) ∧
    (fetch (new emptyPager) 0 1 (raceRam twoFrames)).map Prod.fst = some (.ok []) ∧
    raced.frame 0 = some 0x200000 ∧
    (raced.finish 0 [] (raceRam twoFrames)).map Prod.fst = some none := by
  decide

end PagedObject

end Zinnia
