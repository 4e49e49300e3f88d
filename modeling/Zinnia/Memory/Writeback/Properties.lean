import Zinnia.Memory.System.Fetch
import Zinnia.Memory.Writeback

/-!
# No shared write is lost

As long as no step overwrites a dirty entry of a shared page, every page that has been modified
since it was last written back is in the dirty set of its object, or a process has a dirty entry
for it.
-/

namespace Zinnia

open AddressSpace List Option Bool Finset PageTable

/-! ### Writing back -/

namespace PagedObject

lemma mem_dirty_markDirty (o : PagedObject) (k : ℕ) : k ∈ (o.markDirty k).dirty :=
  BTreeSet.mem_insert_self Function.injective_id

/-- Writing back changes the dirty set only. A page that is to be written is written, or marked
again. -/
lemma writeback_spec (put : ℕ → Bool) (o : PagedObject) (l : List ℕ) :
    ∃ dirty, (o.writeback put l).2.1 = { o with dirty } ∧ (∀ k ∈ o.dirty, k ∈ dirty) ∧
      ∀ k ∈ l, (o.frame k).isSome → k ∈ dirty ∨ k ∈ (o.writeback put l).2.2 := by
  induction l generalizing o with
  | nil => exact ⟨o.dirty, rfl, fun _ => id, fun k hk => by cases hk⟩
  | cons idx rest ih =>
    simp only [writeback]
    split
    · rename_i hframe
      obtain ⟨dirty, heq, hkeep, hwritten⟩ := ih o
      refine ⟨dirty, heq, hkeep, fun k hk hsome => ?_⟩
      rcases mem_cons.mp hk with rfl | hk
      · rw [hframe] at hsome
        cases hsome
      · exact hwritten k hk hsome
    · split_ifs with hput
      · obtain ⟨dirty, heq, hkeep, hwritten⟩ := ih o
        refine ⟨dirty, heq, hkeep, fun k hk hsome => ?_⟩
        rcases mem_cons.mp hk with rfl | hk
        · exact .inr mem_cons_self
        · exact (hwritten k hk hsome).imp_right (mem_cons_of_mem idx)
      · obtain ⟨dirty, heq, hkeep, hwritten⟩ := ih (o.markDirty idx)
        refine ⟨dirty, heq, fun k hk => hkeep k (BTreeSet.mem_insert_of_mem hk), ?_⟩
        intro k hk hsome
        rcases mem_cons.mp hk with rfl | hk
        · exact .inl (hkeep k (o.mem_dirty_markDirty k))
        · exact hwritten k hk hsome

lemma sync_spec (put : ℕ → Bool) (o : PagedObject) :
    ∃ dirty, (o.sync put).2.1 = { o with dirty } ∧
      ∀ k ∈ o.dirty, (o.frame k).isSome → k ∈ dirty ∨ k ∈ (o.sync put).2.2 := by
  obtain ⟨dirty, heq, -, hwritten⟩ :=
    writeback_spec put { o with dirty := BTreeSet.empty } o.dirty.elems
  exact ⟨dirty, heq, hwritten⟩

end PagedObject

namespace System

/-! ### Dirty sets -/

/-- The pages of the caches stay, and so do their dirty sets but for the pages in `written`. -/
def Carries (written : List (ℕ × ℕ)) (sys sys' : System) : Prop :=
  ∀ o cache, sys.objects o = some (.paged cache) → ∃ cache', sys'.objects o = some (.paged cache') ∧
    (∀ k, (cache.frame k).isSome → (cache'.frame k).isSome) ∧
    ∀ k ∈ cache.dirty, (cache.frame k).isSome → k ∈ cache'.dirty ∨ (o, k) ∈ written

variable {sys sys₁ sys' : System} {written more : List (ℕ × ℕ)} {o pid k pageIndex : ℕ}
  {s s' : AddressSpace ObjectRef} {W : ℕ → Prop} {put : ℕ → ℕ → Bool}
  {dirtied : List (ObjectRef × ℕ)} {res : EResult (Option PhysAddr)} {cache : PagedObject}
  {r : EResult Unit}

lemma Carries.of_objects (h : sys'.objects = sys.objects) : Carries [] sys sys' := by
  intro o cache ho
  exact ⟨cache, h ▸ ho, fun _ => id, fun k hk _ => .inl hk⟩

lemma Carries.trans (h : Carries written sys sys₁) (h' : Carries more sys₁ sys') :
    Carries (written ++ more) sys sys' := by
  intro o cache ho
  obtain ⟨cache₁, ho₁, hframe₁, hdirty₁⟩ := h o cache ho
  obtain ⟨cache', ho', hframe', hdirty'⟩ := h' o cache₁ ho₁
  refine ⟨cache', ho', fun k hk => hframe' k (hframe₁ k hk), fun k hk hsome => ?_⟩
  rcases hdirty₁ k hk hsome with hk₁ | hw
  · exact (hdirty' k hk₁ (hframe₁ k hsome)).imp_right (mem_append_right written)
  · exact .inr (mem_append_left more hw)

/-- Only dirty sets differ. -/
structure OnlyDirty (sys sys' : System) : Prop where
  ram : sys'.ram = sys.ram
  spaces : sys'.spaces = sys.spaces
  faults : sys'.faults = sys.faults
  kernel : sys'.kernel = sys.kernel
  objects : ∀ o, sys'.objects o = sys.objects o ∨ ∃ cache dirty,
    sys.objects o = some (.paged cache) ∧ sys'.objects o = some (.paged { cache with dirty })

lemma OnlyDirty.refl (sys : System) : OnlyDirty sys sys :=
  ⟨rfl, rfl, rfl, rfl, fun _ => .inl rfl⟩

lemma OnlyDirty.trans (h : OnlyDirty sys sys₁) (h' : OnlyDirty sys₁ sys') : OnlyDirty sys sys' := by
  refine ⟨h'.ram.trans h.ram, h'.spaces.trans h.spaces, h'.faults.trans h.faults,
    h'.kernel.trans h.kernel, fun o => ?_⟩
  rcases h.objects o with heq | ⟨cache, dirty, ho, ho₁⟩
  · rcases h'.objects o with heq' | ⟨cache, dirty, ho₁, ho'⟩
    · exact .inl (heq'.trans heq)
    · exact .inr ⟨cache, dirty, heq ▸ ho₁, ho'⟩
  · rcases h'.objects o with heq' | ⟨cache', dirty', ho₁', ho'⟩
    · exact .inr ⟨cache, dirty, ho, heq'.trans ho₁⟩
    · rw [ho₁] at ho₁'
      cases ho₁'
      exact .inr ⟨cache, dirty', ho, ho'⟩

lemma OnlyDirty.setObject (ho : sys.objects o = some (.paged cache)) (dirty : BTreeSet ℕ id) :
    OnlyDirty sys (sys.setObject o (.paged { cache with dirty })) := by
  refine ⟨rfl, rfl, rfl, rfl, fun o' => ?_⟩
  rw [objects_setObject]
  split_ifs with heq
  · exact .inr ⟨cache, dirty, heq ▸ ho, rfl⟩
  · exact .inl rfl

lemma OnlyDirty.frame (h : OnlyDirty sys sys') (o k : ℕ) : sys'.frame o k = sys.frame o k := by
  rw [System.frame, System.frame]
  rcases h.objects o with heq | ⟨cache, dirty, ho, ho'⟩
  · rw [heq]
  · rw [ho, ho']
    rfl

lemma Inv.onlyDirty {total : Set ℕ} {len : ℕ} (h : Inv total len sys) (hd : OnlyDirty sys sys') :
    Inv total len sys' := by
  obtain ⟨A, hA⟩ := h.frames
  have howned : sys'.owned = sys.owned := by
    funext owner
    cases owner with
    | page o k => simp only [owned, hd.frame]
    | kernel n => simp only [owned, hd.kernel]
  have hframes : Frames total len sys' A := by
    refine ⟨hd.ram ▸ hA.pmm, howned ▸ hA.owns, fun o addr size ho => ?_⟩
    rcases hd.objects o with heq | ⟨cache, dirty, -, ho'⟩
    · exact hA.buffers o addr size (heq ▸ ho)
    · rw [ho'] at ho
      cases ho
  refine h.mono hframes (fun o k a _ ha => (hd.frame o k).trans ha) (fun o _ halive => ?_) hd.spaces
    hd.faults
  rcases hd.objects o with heq | ⟨cache, dirty, -, ho'⟩
  · rw [Alive, heq]
    exact halive
  · rw [Alive, ho']
    rfl

/-- Only the dirty set of one cache changes. -/
lemma Carries.setObject (ho : sys.objects o = some (.paged cache)) {dirty : BTreeSet ℕ id}
    (hdirty : ∀ k ∈ cache.dirty, (cache.frame k).isSome → k ∈ dirty ∨ (o, k) ∈ written) :
    Carries written sys (sys.setObject o (.paged { cache with dirty })) := by
  intro o' cache' ho'
  rw [objects_setObject]
  split_ifs with heq
  · rw [heq, ho] at ho'
    cases ho'
    exact ⟨_, rfl, fun _ => id, heq ▸ hdirty⟩
  · exact ⟨cache', ho', fun _ => id, fun k hk _ => .inl hk⟩

lemma markDirtyPage_spec (sys : System) (d : ObjectRef × ℕ) :
    OnlyDirty sys (sys.markDirtyPage d) ∧ Carries [] sys (sys.markDirtyPage d) ∧
      ∀ cache, sys.objects d.1.id = some (.paged cache) →
        (sys.markDirtyPage d).InDirtySet d.1.id d.2 := by
  cases ho : sys.objects d.1.id with
  | none =>
    have heq : sys.markDirtyPage d = sys := by rw [markDirtyPage, ho, elim_none]
    rw [heq]
    exact ⟨.refl sys, .of_objects rfl, fun cache hc => by cases hc⟩
  | some m =>
    have heq : sys.markDirtyPage d = sys.setObject d.1.id (m.markDirtyPage d.2) := by
      rw [markDirtyPage, ho, elim_some]
    rw [heq]
    cases m with
    | buffer addr size =>
      rw [MemObject.markDirtyPage, setObject_eq_self ho]
      exact ⟨.refl sys, .of_objects rfl, fun cache hc => by cases hc⟩
    | paged cache =>
      refine ⟨.setObject ho _, .setObject ho fun k hk _ => .inl (BTreeSet.mem_insert_of_mem hk),
        fun cache' hc => ?_⟩
      exact ⟨_, Function.update_self _ _ _, cache.mem_dirty_markDirty d.2⟩

lemma InDirtySet.carries (h : sys.InDirtySet o k) (hc : Carries written sys sys')
    (hframe : (sys.frame o k).isSome) : sys'.InDirtySet o k ∨ (o, k) ∈ written := by
  obtain ⟨cache, ho, hk⟩ := h
  obtain ⟨cache', ho', -, hdirty⟩ := hc o cache ho
  rw [System.frame, ho] at hframe
  exact (hdirty k hk hframe).imp_left fun hk' => ⟨cache', ho', hk'⟩

lemma markDirty_spec (sys : System) (dirtied : List (ObjectRef × ℕ)) :
    OnlyDirty sys (sys.markDirty dirtied) ∧ Carries [] sys (sys.markDirty dirtied) ∧
      ∀ x ∈ dirtied, ∀ cache, sys.objects x.1.id = some (.paged cache) →
        (sys.frame x.1.id x.2).isSome → (sys.markDirty dirtied).InDirtySet x.1.id x.2 := by
  induction dirtied generalizing sys with
  | nil => exact ⟨.refl sys, .of_objects rfl, fun x hx => by cases hx⟩
  | cons d rest ih =>
    obtain ⟨hone, hcarry, hmarked⟩ := sys.markDirtyPage_spec d
    obtain ⟨hrest, hcarry', hmarked'⟩ := ih (sys.markDirtyPage d)
    refine ⟨hone.trans hrest, hcarry.trans hcarry', fun x hx cache ho hsome => ?_⟩
    rw [← hone.frame] at hsome
    rcases mem_cons.mp hx with rfl | hx
    · exact ((hmarked cache ho).carries hcarry' hsome).resolve_right not_mem_nil
    · obtain ⟨cache₁, ho₁, -⟩ := hcarry x.1.id cache ho
      exact hmarked' x hx cache₁ ho₁ hsome

lemma syncObject_spec (h : sys.syncObject put o = some (r, sys', written)) :
    OnlyDirty sys sys' ∧ Carries written sys sys' := by
  obtain ⟨m, ho, heq⟩ := map_eq_some_iff.mp h
  cases m with
  | buffer addr size =>
    obtain rfl : sys.setObject o (.buffer addr size) = sys' := congrArg (·.2.1) heq
    obtain rfl : [] = written := congrArg (·.2.2) heq
    rw [setObject_eq_self ho]
    exact ⟨.refl sys, .of_objects rfl⟩
  | paged cache =>
    obtain ⟨dirty, hsync, hwritten⟩ := cache.sync_spec (put o)
    obtain rfl : sys.setObject o (.paged (cache.sync (put o)).2.1) = sys' := congrArg (·.2.1) heq
    obtain rfl : (cache.sync (put o)).2.2.map (o, ·) = written := congrArg (·.2.2) heq
    rw [hsync]
    refine ⟨.setObject ho dirty, .setObject ho fun k hk hsome => ?_⟩
    exact (hwritten k hk hsome).imp_right fun hk => mem_map.mpr ⟨k, hk, rfl⟩

lemma syncAll_spec {objects : List ObjectRef}
    (h : syncAll put objects sys = some (r, sys', written)) :
    OnlyDirty sys sys' ∧ Carries written sys sys' := by
  induction objects generalizing sys written with
  | nil =>
    cases h
    exact ⟨.refl _, .of_objects rfl⟩
  | cons o rest ih =>
    obtain ⟨⟨r₁, sys₁, written₁⟩, hsync, hrest⟩ := bind_eq_some_iff.mp h
    obtain ⟨hone, hcarry⟩ := syncObject_spec hsync
    cases r₁ with
    | error e =>
      cases hrest
      exact ⟨hone, hcarry⟩
    | ok u =>
      obtain ⟨⟨r₂, sys₂, written₂⟩, hall, heq⟩ := bind_eq_some_iff.mp hrest
      cases heq
      obtain ⟨hone', hcarry'⟩ := ih hall
      exact ⟨hone.trans hone', hcarry.trans hcarry'⟩

/-! ### Pages that are known to be dirty -/

lemma sharedPage_eq_some {page : ℕ} :
    sys.sharedPage pid page = some (o, k) ↔ ∃ s p cache, sys.spaces pid = some s ∧
      s.lookup page = some p ∧ sys.objects o = some (.paged cache) ∧ p.flags.shared ∧
      p.object.id = o ∧ p.objectPage = k := by
  constructor
  · intro h
    obtain ⟨p, hp, hrest⟩ := bind_eq_some_iff.mp h
    obtain ⟨m, ho, hrest⟩ := bind_eq_some_iff.mp hrest
    obtain ⟨s, hs, hlook⟩ := mapping_eq_some.mp hp
    cases m with
    | buffer addr size => cases hrest
    | paged cache =>
      split_ifs at hrest with hshared
      cases hrest
      exact ⟨s, p, cache, hs, hlook, ho, hshared, rfl, rfl⟩
  · rintro ⟨s, p, cache, hs, hlook, ho, hshared, rfl, rfl⟩
    simp only [sharedPage, mapping_eq_some.mpr ⟨s, hs, hlook⟩, ho, hshared, bind_eq_bind,
      bind_some, ↓reduceIte]

lemma dirtyAt_eq (hs : sys.spaces pid = some s) (page : ℕ) :
    sys.dirtyAt pid page = s.table.isDirtyAt page := by
  rw [dirtyAt, hs, any_some]

/-- A page of a cache that is in memory. -/
def Resident (sys : System) (o k : ℕ) : Prop :=
  (∃ cache, sys.objects o = some (.paged cache)) ∧ (sys.frame o k).isSome

lemma Resident.carries (h : sys.Resident o k) (hc : Carries written sys sys') :
    sys'.Resident o k := by
  obtain ⟨⟨cache, ho⟩, hframe⟩ := h
  obtain ⟨cache', ho', hkeep, -⟩ := hc o cache ho
  rw [System.frame, ho] at hframe
  refine ⟨⟨cache', ho'⟩, ?_⟩
  rw [System.frame, ho']
  exact hkeep k hframe

/-- What a step does to the entries of one process. Other processes keep theirs. -/
structure Updates (W : ℕ → Prop) (dirtied : List (ObjectRef × ℕ)) (pid : ℕ) (sys sys' : System) :
    Prop where
  other : ∀ pid' ≠ pid, ∀ s, sys.spaces pid' = some s → sys'.spaces pid' = some s
  saves : ∀ s, sys.spaces pid = some s → (∀ page, W page) ∨
    ∃ s', sys'.spaces pid = some s' ∧ Saves W s s' dirtied
  marked : ∀ x ∈ dirtied, sys.Resident x.1.id x.2 → sys'.InDirtySet x.1.id x.2

lemma Updates.of_spaces (h : sys'.spaces = sys.spaces) (pid : ℕ) :
    Updates (fun _ => False) [] pid sys sys' := by
  refine ⟨fun pid' _ s hs => by rw [h, hs], fun s hs => .inr ⟨s, by rw [h, hs], ?_⟩,
    fun x hx => by cases hx⟩
  exact saves_of_eq fun page _ => ⟨rfl, id⟩

/-- A page that is known to be dirty stays so, or is written back, if no entry of it is
overwritten. -/
lemma Recorded.updates (h : sys.Recorded o k) (hres : sys.Resident o k)
    (hc : Carries written sys sys') (hup : Updates W dirtied pid sys sys')
    (hcareful : ∀ page, W page → (sys.sharedPage pid page).isSome → ¬ sys.dirtyAt pid page) :
    sys'.Recorded o k ∨ (o, k) ∈ written := by
  rcases h with hdirty | ⟨pid', page, hshared, hdirty⟩
  · exact (hdirty.carries hc hres.2).imp_left Or.inl
  · have hsome : (sys.sharedPage pid' page).isSome := by rw [hshared]; rfl
    obtain ⟨s, p, cache, hs, hlook, ho, hflag, hobject, hpage⟩ := sharedPage_eq_some.mp hshared
    obtain ⟨cache', ho', -⟩ := hc o cache ho
    refine .inl ?_
    rcases eq_or_ne pid' pid with rfl | hpid
    · have hW : ¬ W page := fun hW => hcareful page hW hsome hdirty
      obtain hall | ⟨s', hs', hsaves⟩ := hup.saves s hs
      · exact absurd (hall page) hW
      · rw [dirtyAt_eq hs] at hdirty
        rcases hsaves page p hlook hflag hdirty hW with ⟨q, hq, hqo, hqk, hqs, hqd⟩ | hmem
        · refine .inr ⟨pid', page, ?_, (dirtyAt_eq hs' page).trans hqd⟩
          exact sharedPage_eq_some.mpr ⟨s', q, cache', hs', hq, ho', hqs, by rw [hqo, hobject],
            hqk.trans hpage⟩
        · have hin := hup.marked _ hmem (by rw [hobject, hpage]; exact hres)
          rw [hobject, hpage] at hin
          exact .inl hin
    · have hs' := hup.other pid' hpid s hs
      refine .inr ⟨pid', page, ?_, ?_⟩
      · exact sharedPage_eq_some.mpr ⟨s, p, cache', hs', hlook, ho', hflag, hobject, hpage⟩
      · rw [dirtyAt_eq hs']
        rw [dirtyAt_eq hs] at hdirty
        exact hdirty

/-! ### Pages that are brought in -/

/-- The caches stay, with their dirty sets. -/
def SameDirty (sys sys' : System) : Prop :=
  ∀ o cache, sys.objects o = some (.paged cache) →
    ∃ cache', sys'.objects o = some (.paged cache') ∧ cache'.dirty = cache.dirty

lemma SameDirty.trans (h : SameDirty sys sys₁) (h' : SameDirty sys₁ sys') :
    SameDirty sys sys' := by
  intro o cache ho
  obtain ⟨cache₁, ho₁, hdirty₁⟩ := h o cache ho
  obtain ⟨cache', ho', hdirty'⟩ := h' o cache₁ ho₁
  exact ⟨cache', ho', hdirty'.trans hdirty₁⟩

lemma SameDirty.carries (h : SameDirty sys sys')
    (hframe : ∀ o k a, sys.frame o k = some a → sys'.frame o k = some a) :
    Carries [] sys sys' := by
  intro o cache ho
  obtain ⟨cache', ho', hdirty⟩ := h o cache ho
  refine ⟨cache', ho', fun k hk => ?_, fun k hk _ => .inl (hdirty ▸ hk)⟩
  obtain ⟨a, ha⟩ := isSome_iff_exists.mp hk
  have hframe' := hframe o k a (by rw [System.frame, ho]; exact ha)
  rw [System.frame, ho'] at hframe'
  exact isSome_iff_exists.mpr ⟨a, hframe'⟩

lemma dirty_enter {o o' : PagedObject} {batch : List PhysAddr} {r r' : Ram}
    (h : o.enter pageIndex batch r = some (o', r')) : o'.dirty = o.dirty := by
  induction batch generalizing o pageIndex r with
  | nil =>
    cases h
    rfl
  | cons page batch ih =>
    rw [PagedObject.enter] at h
    split at h
    · obtain ⟨r₁, -, hrest⟩ := bind_eq_some_iff.mp h
      exact ih hrest
    · exact (ih h).trans rfl

lemma dirty_tryGetPage {o o' : PagedObject} {r r' : Ram}
    (h : o.tryGetPage pageIndex r = some (res, o', r')) : o'.dirty = o.dirty := by
  rw [PagedObject.tryGetPage] at h
  split at h
  · cases h
    rfl
  · obtain ⟨⟨fetched, r₁⟩, -, hrest⟩ := bind_eq_some_iff.mp h
    cases fetched with
    | error e =>
      cases hrest
      rfl
    | ok batch =>
      obtain ⟨⟨page, o₁, r₂⟩, hfinish, heq⟩ := bind_eq_some_iff.mp hrest
      obtain ⟨⟨o₂, r₃⟩, henter, heq'⟩ := bind_eq_some_iff.mp hfinish
      cases heq'
      cases heq
      exact (dirty_enter henter).trans rfl

lemma sameDirty_tryGetPage (h : sys.tryGetPage o k = some (res, sys')) : SameDirty sys sys' := by
  obtain ⟨m, ho, hrest⟩ := bind_eq_some_iff.mp h
  obtain ⟨⟨res', m', ram⟩, hget, heq⟩ := bind_eq_some_iff.mp hrest
  cases heq
  intro o' cache ho'
  rw [objects_setObject]
  split_ifs with hoo
  · rw [hoo, ho] at ho'
    cases ho'
    obtain ⟨⟨res₁, cache', ram'⟩, hcache, heq⟩ := map_eq_some_iff.mp hget
    cases heq
    exact ⟨cache', rfl, dirty_tryGetPage hcache⟩
  · exact ⟨cache, ho', rfl⟩

lemma sameDirty_newObject (ho : sys.objects o = none) (source : Pager) :
    SameDirty sys (sys.newObject o source) := by
  intro o' cache ho'
  refine ⟨cache, ?_, rfl⟩
  rw [newObject, objects_setObject, if_neg]
  · exact ho'
  · rintro rfl
    rw [ho] at ho'
    cases ho'

lemma Fetch.sameDirty (h : Fetch sys sys') : SameDirty sys sys' := by
  cases h with
  | getPage hget => exact sameDirty_tryGetPage hget
  | newObject ho => exact sameDirty_newObject ho physPager
  | ram ram => exact fun o cache ho => ⟨cache, ho, rfl⟩

lemma sameDirty_pageIn {new : ℕ} {resolved : ResolvedFault ObjectRef}
    {res : Option (Option ObjectRef × PhysAddr)} (hnew : sys.objects new = none)
    (h : sys.pageIn new resolved = some (res, sys')) : SameDirty sys sys' := by
  have hfetch := (fetch_pageIn hnew h).1
  clear h
  induction hfetch with
  | refl => exact fun o cache ho => ⟨cache, ho, rfl⟩
  | tail _ hstep ih => exact ih.trans hstep.sameDirty

/-! ### Processes -/

/-- A call that harvests nothing. -/
lemma Updates.setSpace (hspaces : sys'.spaces = (sys.setSpace pid s').spaces)
    (hsaves : ∀ s, sys.spaces pid = some s → Saves W s s' []) : Updates W [] pid sys sys' := by
  refine ⟨fun pid' hne s hs => ?_, fun s hs => .inr ⟨s', ?_, hsaves s hs⟩, fun x hx => by cases hx⟩
  · rw [hspaces, spaces_setSpace, if_neg hne, hs]
  · rw [hspaces, spaces_setSpace, if_pos rfl]

lemma Updates.fork {child : ℕ} (hs : sys.spaces pid = some s) (hwf : s.Wf)
    (hfree : sys.spaces child = none) :
    Updates (fun _ => False) [] pid sys
      ((sys.setSpace pid s.fork.1).setSpace child s.fork.2) := by
  have hchild : ∀ pid' t, sys.spaces pid' = some t → pid' ≠ child := by
    rintro pid' t ht rfl
    rw [hfree] at ht
    cases ht
  refine ⟨fun pid' hne t ht => ?_, fun t ht => .inr ⟨s.fork.1, ?_, ?_⟩, fun x hx => by cases hx⟩
  · rw [spaces_setSpace, if_neg (hchild pid' t ht), spaces_setSpace, if_neg hne, ht]
  · rw [spaces_setSpace, if_neg (hchild pid t ht), spaces_setSpace, if_pos rfl]
  · rw [hs] at ht
    cases ht
    exact saves_fork hwf

lemma Updates.exit (sys : System) (pid : ℕ) :
    Updates (fun _ => True) [] pid sys (sys.exit pid) := by
  refine ⟨fun pid' hne s hs => ?_, fun s _ => .inl fun _ => trivial, fun x hx => by cases hx⟩
  exact (Function.update_of_ne hne _ _).trans hs

/-- A call that harvests dirty entries. -/
lemma Updates.harvest (hs : sys.spaces pid = some s) (hsaves : Saves W s s' dirtied) :
    Updates W dirtied pid sys ((sys.setSpace pid s').markDirty dirtied) := by
  obtain ⟨hone, -, hmarked⟩ := (sys.setSpace pid s').markDirty_spec dirtied
  refine ⟨fun pid' hne t ht => ?_, fun t ht => .inr ⟨s', ?_, ?_⟩, fun x hx hres => ?_⟩
  · rw [hone.spaces, spaces_setSpace, if_neg hne, ht]
  · rw [hone.spaces, spaces_setSpace, if_pos rfl]
  · rw [hs] at ht
    cases ht
    exact hsaves
  · obtain ⟨⟨cache, ho⟩, hframe⟩ := hres
    exact hmarked x hx cache ho hframe

lemma carries_harvest (sys : System) (pid : ℕ) (s' : AddressSpace ObjectRef)
    (dirtied : List (ObjectRef × ℕ)) :
    Carries [] sys ((sys.setSpace pid s').markDirty dirtied) :=
  ((sys.setSpace pid s').markDirty_spec dirtied).2.1

/-- `unmap` is `munmap`, with the dirty sets. -/
lemma exists_of_unmap {addr : VirtAddr} {size : Usize} {r : EResult Usize}
    (hcall : sys.unmap pid addr size = some (r, sys')) :
    ∃ s s' sys₁ dirtied, sys.spaces pid = some s ∧ sys.munmap pid addr size = some (r, sys₁) ∧
      OnlyDirty sys₁ sys' ∧ sys' = (sys.setSpace pid s').markDirty dirtied ∧
      (s' = s ∧ dirtied = [] ∨ ∃ len r', NonZeroUsize.new size = some len ∧
        s.unmap addr len = some (r', s', dirtied)) := by
  obtain ⟨s, hs, hrest⟩ := bind_eq_some_iff.mp hcall
  cases hlen : NonZeroUsize.new size with
  | none =>
    simp only [hlen] at hrest
    cases hrest
    have hself : sys.setSpace pid s = sys := by
      rw [System.setSpace, ← hs, Function.update_eq_self]
    refine ⟨s, s, sys, [], hs, ?_, .refl sys, hself.symm, .inl ⟨rfl, rfl⟩⟩
    simp only [System.munmap, System.call, hs, AddressSpace.munmap, hlen, bind_eq_bind,
      bind_some, hself]
  | some len =>
    simp only [hlen] at hrest
    obtain ⟨⟨r', s', dirtied⟩, hunmap, heq⟩ := bind_eq_some_iff.mp hrest
    cases heq
    refine ⟨s, s', sys.setSpace pid s', dirtied, hs, ?_, (markDirty_spec _ _).1, rfl,
      .inr ⟨len, r', rfl, hunmap⟩⟩
    simp only [System.munmap, System.call, hs, AddressSpace.munmap, hlen, hunmap, answer,
      map_some, bind_eq_bind, bind_some]

end System

namespace Tracked

open Zinnia.System

structure Inv (total : Set ℕ) (len : ℕ) (t : Tracked) : Prop where
  sys : t.sys.Inv total len
  resident : ∀ x ∈ t.modified, t.sys.Resident x.1 x.2
  recorded : ∀ x ∈ t.modified, t.sys.Recorded x.1 x.2

variable {total : Set ℕ} {len pid : ℕ} {t t' : Tracked} {sys' : System} {pmm : Pmm}
  {put : ℕ → ℕ → Bool} {written : List (ℕ × ℕ)} {addr : VirtAddr} {size : Usize} {flags : BitVec 32}
  {r : EResult Unit} {m : MemoryMap}

section

variable (h : t.Inv total len) {pid : ℕ} {dirtied : List (ObjectRef × ℕ)} {written : List (ℕ × ℕ)}
  {W : ℕ → Prop}

include h

/-- A step that overwrites the entries in `W` of one process and writes back pages. -/
lemma Inv.updates {modified : Finset (ℕ × ℕ)} (hsys : sys'.Inv total len)
    (hc : Carries written t.sys sys') (hup : Updates W dirtied pid t.sys sys')
    (hcareful : ∀ page, W page → (t.sys.sharedPage pid page).isSome → ¬ t.sys.dirtyAt pid page)
    (hmodified : ∀ x ∈ modified, x ∈ t.modified ∧ x ∉ written) :
    Inv total len ⟨sys', modified⟩ := by
  refine ⟨hsys, fun x hx => ?_, fun x hx => ?_⟩
  · exact (h.resident x (hmodified x hx).1).carries hc
  · obtain ⟨hold, hnot⟩ := hmodified x hx
    exact ((h.recorded x hold).updates (h.resident x hold) hc hup hcareful).resolve_right hnot

/-- A step that changes no entry. -/
lemma Inv.quiet (hsys : sys'.Inv total len) (hc : Carries [] t.sys sys')
    (hspaces : sys'.spaces = t.sys.spaces) : Inv total len ⟨sys', t.modified⟩ :=
  h.updates hsys hc (.of_spaces hspaces 0) (fun _ hW => hW.elim) fun _ hx => ⟨hx, not_mem_nil⟩

/-- Objects are synced. -/
lemma Inv.synced (hone : OnlyDirty t.sys sys') (hc : Carries written t.sys sys') :
    Inv total len ⟨sys', t.modified \ written.toFinset⟩ := by
  refine h.updates (h.sys.onlyDirty hone) hc (.of_spaces hone.spaces 0) (fun _ hW => hW.elim) ?_
  intro x hx
  rw [mem_sdiff, List.mem_toFinset] at hx
  exact hx

/-- Dirty entries are harvested. -/
lemma Inv.harvested {s : AddressSpace ObjectRef} (hs : t.sys.spaces pid = some s)
    {table : PageTable} (hcore : SameCore s.table table)
    (hsaves : Saves (fun _ => False) s { s with table } dirtied) :
    Inv total len ⟨(t.sys.setSpace pid { s with table }).markDirty dirtied, t.modified⟩ := by
  have hbacked := h.sys.spaces pid s hs
  have hspace := h.sys.setSpace pid
    (hbacked.keeps (keeps_sameCore hbacked.wf hcore (P := fun _ => False)) nofun)
  exact h.updates (hspace.onlyDirty (markDirty_spec _ _).1) (carries_harvest _ _ _ _)
    (.harvest hs hsaves) (fun _ hW => hW.elim) fun _ hx => ⟨hx, not_mem_nil⟩

/-- A process changes its address space. -/
lemma Inv.setSpace {s s' : AddressSpace ObjectRef} (hsys : sys'.Inv total len)
    (hc : Carries [] t.sys sys') (hs : t.sys.spaces pid = some s)
    (hspaces : sys'.spaces = (t.sys.setSpace pid s').spaces) (hsaves : Saves W s s' [])
    (hcareful : ∀ page, W page → (t.sys.sharedPage pid page).isSome → ¬ t.sys.dirtyAt pid page) :
    Inv total len ⟨sys', t.modified⟩ := by
  refine h.updates hsys hc (.setSpace hspaces fun u hu => ?_) hcareful
    fun _ hx => ⟨hx, not_mem_nil⟩
  rw [hs] at hu
  cases hu
  exact hsaves

lemma Inv.mmap {new : ℕ} {openFiles : BitVec 32 → Option (OpenFile ObjectRef)} {addr : VirtAddr}
    {length : Usize} {prot flags fd : BitVec 32} {offset : BitVec 64} {r : EResult VirtAddr}
    (hsys : sys'.Inv total len) (hnew : t.sys.objects new = none)
    (hcareful : t.Careful (.mmap pid addr length flags))
    (hcall : t.sys.mmap pid new openFiles addr length prot flags fd offset = some (r, sys')) :
    Inv total len ⟨sys', t.modified⟩ := by
  obtain ⟨⟨r', sys₁⟩, hspace, heq⟩ := bind_eq_some_iff.mp hcall
  cases heq
  obtain ⟨s, s', hs, hs', rfl⟩ := exists_of_call hspace
  refine h.setSpace hsys ?_ hs ?_ (saves_mmap (h.sys.spaces pid s hs).wf hs') ?_
  · split_ifs
    · refine (sameDirty_newObject hnew physPager).carries fun o k a ha => ?_
      exact (frame_newObject hnew physPager o k).trans ha
    · exact .of_objects rfl
  · split_ifs <;> rfl
  · rintro page ⟨len, start, hlen, hstart, hin⟩
    exact hcareful pid page ⟨rfl, s, len, start, hs, hlen, hstart, hin⟩

end

section

variable (h : t.Inv total len)

include h

lemma Inv.munmap {r : EResult Usize} (htotal : total ⊆ Set.Iio len) (hlen : len ≤ 2 ^ 40)
    (hcareful : t.Careful (.munmap pid addr size))
    (hcall : t.sys.unmap pid addr size = some (r, sys')) : Inv total len ⟨sys', t.modified⟩ := by
  obtain ⟨s, s', sys₁, dirtied, hs, hmunmap, hone, rfl, hcases⟩ := System.exists_of_unmap hcall
  have hwf := (h.sys.spaces pid s hs).wf
  have hsys := (h.sys.step htotal hlen (.munmap addr size hmunmap)).onlyDirty hone
  have hsaves : Saves (fun page => ∃ len, NonZeroUsize.new size = some len ∧
      InRange addr len page ∧ 2 ^ 64 ≤ addr.toNat + len.1.toNat + (pageSize - 1)) s s' dirtied := by
    obtain ⟨rfl, rfl⟩ | ⟨len, r', hlen, hunmap⟩ := hcases
    · exact saves_of_eq fun page _ => ⟨rfl, id⟩
    · intro page p hp hshared hdirty hW
      exact saves_unmap hwf hunmap page p hp hshared hdirty fun hin => hW ⟨len, hlen, hin⟩
  refine h.updates hsys (carries_harvest _ _ _ _) (.harvest hs hsaves) ?_
    fun _ hx => ⟨hx, not_mem_nil⟩
  intro page hW
  exact hcareful pid page ⟨rfl, hW⟩

lemma Inv.unwritten : Inv total len ⟨t.sys, t.modified \ [].toFinset⟩ :=
  h.synced (.refl _) (.of_objects rfl)

lemma Inv.msync (hcall : t.sys.msync pid addr size flags put = some (r, sys', written)) :
    Inv total len ⟨sys', t.modified \ written.toFinset⟩ := by
  rw [System.msync] at hcall
  split_ifs at hcall
  · cases hcall
    exact h.unwritten
  · split at hcall
    · cases hcall
      exact h.unwritten
    · rename_i size' _
      obtain ⟨s, hs, hrest⟩ := bind_eq_some_iff.mp hcall
      have hwf := (h.sys.spaces pid s hs).wf
      split at hrest
      · cases hrest
        exact h.unwritten
      · rename_i table dirtied hharvest
        obtain ⟨hone, hc⟩ := syncAll_spec hrest
        exact (h.harvested hs (sameCore_harvestDirtyRange hharvest)
          (harvestDirtyRange_spec hwf hharvest).1.saves).synced hone hc

lemma Inv.fsync {file : OpenFile ObjectRef}
    (hcall : t.sys.fsync pid put file = some (r, sys', written)) :
    Inv total len ⟨sys', t.modified \ written.toFinset⟩ := by
  cases file with
  | ext2 cache =>
    obtain ⟨s, hs, hrest⟩ := bind_eq_some_iff.mp hcall
    obtain ⟨hone, hc⟩ := syncObject_spec hrest
    have hwf := (h.sys.spaces pid s hs).wf
    exact (h.harvested hs (sameCore_harvestDirtyObject s cache) (Harvesting.saves
      (harvest_spec hwf MappedObject.startPage MappedObject.endPage _
        (fun m hm => mem_of_mem_filter hm) fun page p _ _ hdirty => .inl hdirty).1)).synced hone hc
  | _ =>
    cases hcall
    exact h.unwritten

lemma Inv.store {page : ℕ} {offset : Fin pageSize} {byte : BitVec 8}
    (hcall : t.sys.store pid page offset byte = some sys') :
    Inv total len ⟨sys', (t.sys.sharedPage pid page).elim t.modified (insert · t.modified)⟩ := by
  have hsys := h.sys.store hcall
  obtain ⟨s, hs, hwrite, rfl⟩ := System.exists_of_store hcall
  have hold : Inv total len ⟨_, t.modified⟩ :=
    h.setSpace hsys (.of_objects rfl) hs rfl (saves_of_eq fun i _ => ⟨rfl, fun hdirty => by
      rw [isDirtyAt_touch, hdirty, Bool.or_true]⟩) fun _ (hW : False) => hW.elim
  cases hshared : t.sys.sharedPage pid page with
  | none => exact hold
  | some x =>
    have hpresent := PageTableEntry.isPresent_of_allowsWrite hwrite
    obtain ⟨s', p, cache, hs', hlook, ho, hflag, hobject, hpage⟩ :=
      sharedPage_eq_some.mp hshared
    rw [hs] at hs'
    cases hs'
    refine ⟨hsys, fun y hy => ?_, fun y hy => ?_⟩
    · rcases mem_insert.mp hy with rfl | hy
      · obtain ⟨q, a, hq, ha, -⟩ := (h.sys.spaces pid s hs).present page hpresent
        rw [hlook] at hq
        cases hq
        rw [hobject, hpage] at ha
        exact ⟨⟨cache, ho⟩, isSome_iff_exists.mpr ⟨a, ha⟩⟩
      · exact hold.resident y hy
    · rcases mem_insert.mp hy with rfl | hy
      · refine .inr ⟨pid, page, ?_, ?_⟩
        · exact sharedPage_eq_some.mpr ⟨_, p, cache, Function.update_self _ _ _,
            hlook, ho, hflag, hobject, hpage⟩
        · rw [dirtyAt_eq (Function.update_self _ _ _), isDirtyAt_touch,
            hpresent]
          simp
      · exact hold.recorded y hy

lemma Inv.step {e : Event} (htotal : total ⊆ Set.Iio len) (hlen : len ≤ 2 ^ 40)
    (hcareful : t.Careful e) (hstep : Step t e t') : t'.Inv total len := by
  cases hstep with
  | spawn hfree hnew =>
    refine h.updates (h.sys.step htotal hlen (.spawn hfree hnew)) (.of_objects rfl)
      (.setSpace (W := fun _ => False) rfl fun s hs => ?_) (fun _ hW => hW.elim)
      fun _ hx => ⟨hx, not_mem_nil⟩
    rw [hfree] at hs
    cases hs
  | newObject source hfree =>
    refine h.quiet (h.sys.step htotal hlen (.newObject source hfree)) ?_ rfl
    exact (sameDirty_newObject hfree source).carries fun o k a ha =>
      (frame_newObject hfree source o k).trans ha
  | mmap addr length prot flags fd offset hnew hfiles hcall =>
    exact h.mmap (h.sys.step htotal hlen (.mmap addr length prot flags fd offset hnew hfiles hcall))
      hnew hcareful hcall
  | @mprotect pid r _ addr size prot hcall =>
    have hsys := h.sys.step htotal hlen (.mprotect addr size prot hcall)
    obtain ⟨s, s', hs, hs', rfl⟩ := exists_of_call hcall
    exact h.setSpace hsys (.of_objects rfl) hs rfl (saves_mprotect (h.sys.spaces pid s hs).wf hs')
      fun page hW => hcareful pid page ⟨rfl, hW⟩
  | munmap addr size hcall => exact h.munmap htotal hlen hcareful hcall
  | msync addr size flags put hcall => exact h.msync hcall
  | fsync put file hcall => exact h.fsync hcall
  | @fork pid child _ hfree hcall =>
    have hsys := h.sys.step htotal hlen (.fork hfree hcall)
    obtain ⟨s, hs, heq⟩ := bind_eq_some_iff.mp hcall
    cases heq
    exact h.updates hsys (.of_objects rfl) (.fork hs (h.sys.spaces pid s hs).wf hfree)
      (fun _ hW => hW.elim) fun _ hx => ⟨hx, not_mem_nil⟩
  | exit pid =>
    exact h.updates (h.sys.step htotal hlen (.exit pid)) (.of_objects rfl) (.exit t.sys pid)
      (fun page _ => hcareful pid page rfl) fun _ hx => ⟨hx, not_mem_nil⟩
  | resolve info hfree hs hresolve =>
    exact h.quiet (h.sys.step htotal hlen (.resolve info hfree hs hresolve)) (.of_objects rfl) rfl
  | pageIn hf hpaged hnew hcall =>
    obtain ⟨A, hA⟩ := h.sys.frames
    obtain ⟨res, sys₁, A₁, hcall₁, -, hext, -⟩ :=
      hA.exists_pageIn htotal hnew (h.sys.faults _ _ hf).alive
    rw [hcall] at hcall₁
    cases hcall₁
    exact h.quiet (h.sys.step htotal hlen (.pageIn hf hpaged hnew hcall))
      ((sameDirty_pageIn hnew hcall).carries hext.frame) hext.spaces
  | install hf hpaged hcall =>
    have hsys := h.sys.step htotal hlen (.install hf hpaged hcall)
    obtain ⟨s, s', hs, hs', rfl⟩ := exists_of_install hcall
    exact h.setSpace hsys (.of_objects rfl) hs rfl (saves_install (h.sys.spaces _ s hs).wf hs')
      fun page hW => hcareful _ page ⟨rfl, hW⟩
  | store page offset byte hcall => exact h.store hcall

end

lemma Reachable.inv (hlen : m.len ≤ 2 ^ 40) (hinit : m.init = some pmm)
    {t : Tracked} (h : Reachable Careful pmm t) : t.Inv (registeredPages m.entries) m.len := by
  have htotal := m.registeredPages_subset
  induction h with
  | boot mem =>
    obtain ⟨p, hp, hinv⟩ := Pmm.exists_init m
    obtain rfl := some.inj (hp.symm.trans hinit)
    exact ⟨System.Inv.boot hinv mem, by simp, by simp⟩
  | step _ hcareful hstep ih => exact ih.step htotal hlen hcareful hstep

/-- In every run whose steps overwrite no dirty entry of a shared page, no shared write is lost: a
page that has been modified since it was last written back is in the dirty set of its object, or a
process that shares it has a dirty entry. -/
theorem Reachable.recorded_of_careful {m : MemoryMap} (hlen : m.len ≤ 2 ^ 40) {pmm : Pmm}
    (hinit : m.init = some pmm) {t : Tracked} (h : Reachable Careful pmm t) :
    ∀ x ∈ t.modified, t.sys.Recorded x.1 x.2 :=
  (h.inv hlen hinit).recorded

/-! ### A page that is written to and protected -/

lemma Reachable.mono {Guard Guard' : Tracked → Event → Prop} (h : Reachable Guard pmm t)
    (hguard : ∀ t e, Guard t e → Guard' t e) : Reachable Guard' pmm t := by
  induction h with
  | boot mem => exact .boot mem
  | step _ hg hstep ih => exact ih.step (hguard _ _ hg) hstep

lemma careful_other (t : Tracked) : t.Careful .other := fun _ _ hover => hover.elim

/-- A process maps memory and writes to a page of it for the first time, where nothing is dirty
yet. -/
lemma Reachable.mapAndFault (hlen : m.len ≤ 2 ^ 40) (hinit : m.init = some pmm) {sys sys' : System}
    {modified : Finset (ℕ × ℕ)} (h : Reachable Careful pmm ⟨sys, modified⟩)
    (hclean : ∀ pid page, sys.dirtyAt pid page = false) {new copy n : ℕ}
    {openFiles : BitVec 32 → Option (OpenFile ObjectRef)} {length : Usize} {offset : BitVec 64}
    {info : PageFaultInfo}
    (hfiles : ∀ fd f, openFiles fd = some f → ∀ o, OpenFile.Maps f o → sys.Alive o.id)
    (hnew : sys.objects new = none) (hcopy : sys.objects copy = none) (hne : copy ≠ new)
    (hn : sys.faults n = none)
    (hcall : sys.mapAndFault pid new copy n openFiles length flags offset info = some sys') :
    Reachable Careful pmm ⟨sys', modified⟩ ∧
      ∀ pid', pid' ≠ pid → sys'.spaces pid' = sys.spaces pid' := by
  obtain ⟨r, sys₁, s, resolved, sys₂, cowObject, phys, sys₃, hmmap,
    ⟨hfaults, hobjects, s₀, s₁, hs₀, hs₁, hspaces₁⟩, hs, hresolve, hpage, hinstall, rfl⟩ :=
    exists_of_mapAndFault hcopy hne hn hcall
  have hspaces₂ : sys₂.spaces = (sys.setSpace pid s₁).spaces := by
    obtain ⟨hfetch, -⟩ := fetch_pageIn (by exact hobjects) hpage
    exact (processes_of_fetch hfetch).1.trans hspaces₁
  have h₁ := h.step (fun pid page _ _ => by rw [hclean]; exact false_ne_true)
    (.mmap _ _ _ _ _ _ hnew hfiles hmmap)
  have h₂ := h₁.step (careful_other _) (.resolve info hfaults hs hresolve)
  have h₃ := h₂.step (careful_other _)
    (.pageIn (Function.update_self _ _ _) rfl hobjects hpage)
  refine ⟨h₃.step ?_ (.install (Function.update_self _ _ _) rfl hinstall), ?_⟩
  · rintro pid' page ⟨hpid, -⟩ - hdirty
    subst hpid
    have hwf := ((h.inv hlen hinit).sys.spaces _ s₀ hs₀).wf
    have hsome : sys₂.spaces pid' = some s₁ := by
      rw [hspaces₂, spaces_setSpace, if_pos rfl]
    change sys₂.dirtyAt pid' page = true at hdirty
    rw [dirtyAt_eq hsome] at hdirty
    have hold := isDirtyAt_of_mmap hwf hs₁ hdirty
    rw [← dirtyAt_eq hs₀, hclean] at hold
    cases hold
  · intro pid' hpid
    obtain ⟨s', s'', -, -, rfl⟩ := exists_of_install hinstall
    calc ((sys₂.setFault n _).setSpace pid s'').spaces pid'
      _ = sys₂.spaces pid' := (spaces_setSpace _ _ _ _).trans (if_neg hpid)
      _ = sys.spaces pid' := by rw [hspaces₂, spaces_setSpace, if_neg hpid]

/-- A process maps a shared page of a file, stores a byte to it and makes it read-only. -/
def storeAndProtect (pmm : Pmm) : Option (System × System) := do
  let sys ← (System.oneFile pmm).mapAndFault 1 1 2 0
    (fun _ => some (.ext2 ⟨0, .normal⟩)) 0x1000 0x11
    0 ⟨0, 0x100000000, true, true, false, false⟩
  let sys ← sys.store 1 0x100000 0 7
  let (_, sys') ← sys.mprotect 1 0x100000000 0x1000 0x1
  some (sys, sys')

lemma exists_storeAndProtect : ∃ pmm sys sys', smallMap.init = some pmm ∧
      storeAndProtect pmm = some (sys, sys') ∧ Reachable Careful pmm ⟨sys, {(0, 0)}⟩ ∧
      Step ⟨sys, {(0, 0)}⟩ (.mprotect 1 0x100000000 0x1000) ⟨sys', {(0, 0)}⟩ ∧
      ∀ pid, pid ≠ 1 → sys'.spaces pid = none := by
  have hrun : (smallMap.init.any fun pmm =>
      (storeAndProtect pmm).isSome &&
        ((System.oneFile pmm).mapAndFault 1 1 2 0 (fun _ => some (.ext2 ⟨0, .normal⟩)) 0x1000 0x11 0
          ⟨0, 0x100000000, true, true, false, false⟩).any fun sys =>
          sys.sharedPage 1 0x100000 == some (0, 0)) = true := by
    decide +kernel
  obtain ⟨pmm, hinit, hrun⟩ := (any_eq_true _ _).mp hrun
  rw [and_eq_true] at hrun
  obtain ⟨⟨sys, sys'⟩, hsys⟩ := isSome_iff_exists.mp hrun.1
  obtain ⟨sys₁, hmap, hshared⟩ := (any_eq_true _ _).mp hrun.2
  obtain ⟨sys₁', hmap', hrest⟩ := bind_eq_some_iff.mp hsys
  rw [hmap] at hmap'
  cases hmap'
  obtain ⟨sys₂, hstore, hrest⟩ := bind_eq_some_iff.mp hrest
  obtain ⟨⟨r, sys₃⟩, hprot, heq⟩ := bind_eq_some_iff.mp hrest
  cases heq
  have hspawn : Reachable Careful pmm ⟨System.oneFile pmm, ∅⟩ :=
    ((Reachable.boot fun _ _ => 0).step (careful_other _) (.spawn rfl new_eq)).step
      (careful_other _) (.newObject physPager rfl)
  have hclean : ∀ pid page, (System.oneFile pmm).dirtyAt pid page = false := by
    intro pid page
    rw [dirtyAt, System.oneFile, System.newObject]
    change Option.any _ ((System.setSpace _ 1 _).spaces pid) = false
    rw [spaces_setSpace]
    split_ifs
    · simp [isDirtyAt]
    · rfl
  obtain ⟨hreach, hspaces⟩ := hspawn.mapAndFault (by decide) hinit hclean (fun fd f hf o ho => by
    cases hf
    cases ho
    exact congrArg isSome (objects_setObject _ 0 _ 0)) rfl rfl (by decide) rfl hmap
  have hstep := hreach.step (careful_other _) (.store _ _ _ hstore)
  rw [beq_iff_eq.mp hshared] at hstep
  refine ⟨pmm, sys, sys', hinit, hsys, hstep, .mprotect _ _ _ hprot, fun pid hpid => ?_⟩
  obtain ⟨s, -, -, rfl⟩ := System.exists_of_store hstore
  obtain ⟨s₁, s₂, -, -, rfl⟩ := exists_of_call hprot
  rw [spaces_setSpace, if_neg hpid, spaces_setSpace, if_neg hpid, hspaces pid hpid]
  exact (spaces_setSpace _ _ _ _).trans (if_neg hpid)

/-- The page that the process has stored to is known to be modified. -/
theorem recorded_stored : ∃ pmm t, Reachable Careful pmm t ∧ (0, 0) ∈ t.modified ∧
    t.sys.Recorded 0 0 := by
  obtain ⟨pmm, sys, -, hinit, -, hreach, -⟩ := exists_storeAndProtect
  exact ⟨pmm, _, hreach, Finset.mem_singleton_self _,
    hreach.recorded_of_careful (by decide) hinit (0, 0) (Finset.mem_singleton_self _)⟩

/-- Once the page is read-only, no entry is dirty, and the page is not in the dirty set of the
file. -/
theorem not_recorded_protected : ∃ pmm t, smallMap.init = some pmm ∧
      Reachable (fun _ _ => True) pmm t ∧ (0, 0) ∈ t.modified ∧ ¬ t.sys.InDirtySet 0 0 ∧
      (∀ pid page, ¬ t.sys.dirtyAt pid page) ∧ ¬ t.sys.Recorded 0 0 := by
  obtain ⟨pmm, sys, sys', hinit, hsys, hreach, hstep, hother⟩ := exists_storeAndProtect
  have hall : (smallMap.init.all fun pmm =>
      (storeAndProtect pmm).all fun x =>
        ((x.2.spaces 1).all fun s => !s.table.isDirtyAt 0x100000 &&
          s.mappings.elems.all fun m => m.startPage == 0x100000 && m.endPage == 0x100001) &&
        (x.2.objects 0).all fun m => m.casesOn (·.dirty.elems.isEmpty) fun _ _ => true) = true := by
    decide +kernel
  simp only [hinit, hsys, all_some, and_eq_true] at hall
  have hset : ¬ sys'.InDirtySet 0 0 := by
    rintro ⟨cache, ho, hk⟩
    have hempty := hall.2
    rw [ho, all_some, List.isEmpty_iff] at hempty
    have hk' : 0 ∈ cache.dirty.elems := hk
    rw [hempty] at hk'
    cases hk'
  have htotal := smallMap.registeredPages_subset
  have hinv : System.Inv (registeredPages smallMap.entries) smallMap.len sys' := by
    cases hstep with
    | mprotect addr size prot hcall =>
      exact (hreach.inv (by decide) hinit).sys.step htotal (by decide) (.mprotect _ _ _ hcall)
  have hclean : ∀ pid page, ¬ sys'.dirtyAt pid page := by
    intro pid page hdirty
    rcases eq_or_ne pid 1 with rfl | hpid
    · obtain ⟨s, hs, hdirty⟩ := (any_eq_true _ _).mp hdirty
      have hspace := hall.1
      rw [hs, all_some, and_eq_true] at hspace
      rcases eq_or_ne page 0x100000 with rfl | hpage
      · simp [hdirty] at hspace
      · rw [isDirtyAt, and_eq_true] at hdirty
        obtain ⟨p, hp⟩ := isSome_iff_exists.mp ((hinv.spaces 1 s hs).wf.present page hdirty.1)
        obtain ⟨m, hm, -⟩ := map_eq_some_iff.mp hp
        have hone := all_eq_true.mp hspace.2 m (mem_of_find?_eq_some hm)
        obtain ⟨hlo, hhi⟩ : Segment.Covers m page := by
          simpa using find?_some hm
        rw [and_eq_true, beq_iff_eq, beq_iff_eq] at hone
        exact hpage (le_antisymm (Nat.le_of_lt_succ (hhi.trans_eq hone.2)) (hone.1.symm.trans_le hlo))
    · rw [System.dirtyAt, hother pid hpid] at hdirty
      cases hdirty
  refine ⟨pmm, _, hinit, (hreach.mono fun _ _ _ => trivial).step trivial hstep,
    Finset.mem_singleton_self _, hset, hclean, ?_⟩
  rintro (hin | ⟨pid, page, -, hdirty⟩)
  · exact hset hin
  · exact hclean pid page hdirty

end Tracked

end Zinnia
