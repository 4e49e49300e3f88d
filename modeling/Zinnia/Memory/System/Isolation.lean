import Zinnia.Memory.System.Properties

/-!
# Isolation of processes

After a fork, a process and its descendants see their own writes to pages that are not shared, and
all writes to shared pages. A page that waits to be copied shows the page of the object, so that it
also follows what others write to that page through a shared mapping.

The copy is made from the wrong page if the index of the page within the object does not fit into
52 bits, as the offset of the page in bytes is then cut to 64 bits.
-/

namespace Zinnia

open AddressSpace Function Option

namespace System

/-- What a page of a process is mapped to. -/
def mapping (sys : System) (pid page : ℕ) : Option (PageMapping ObjectRef) :=
  (sys.spaces pid).bind (·.lookup page)

/-- A page of a process shows what is written to a page of another process, or of the same one: it
is that page, or that page is shared and they are mapped to the same page of an object. -/
def Observes (sys : System) (pid page pid' page' : ℕ) : Prop :=
  pid = pid' ∧ page = page' ∨
    ∃ p p', sys.mapping pid page = some p ∧ sys.mapping pid' page' = some p' ∧
      p'.flags.shared ∧ p.object.id = p'.object.id ∧ p.objectPage = p'.objectPage

/-- A run of a process and its descendants, with the bytes that each process is to see. -/
structure Trace where
  sys : System
  family : Set ℕ
  last : ℕ → ℕ → PageData

open Classical in
/-- What the processes are to see after a process has written a byte. -/
noncomputable def Trace.write (t : Trace) (pid page : ℕ) (offset : Fin pageSize)
    (byte : BitVec 8) : ℕ → ℕ → PageData :=
  fun pid' page' =>
    if t.sys.Observes pid' page' pid page then update (t.last pid' page') offset byte
    else t.last pid' page'

/-- What the processes of a family do. Writing changes what is to be seen. A child is to see what
its parent sees. -/
inductive Trace.Step : Trace → Trace → Prop
  | store {t pid sys'} (page offset byte) : pid ∈ t.family →
    t.sys.store pid page offset byte = some sys' →
    Step t ⟨sys', t.family, t.write pid page offset byte⟩
  | fault {t pid new handled sys'} (info) : pid ∈ t.family → t.sys.objects new = none →
    t.sys.handler pid new info = some (handled, sys') → Step t ⟨sys', t.family, t.last⟩
  | mprotect {t pid r sys'} (addr size prot) : pid ∈ t.family →
    t.sys.mprotect pid addr size prot = some (r, sys') → Step t ⟨sys', t.family, t.last⟩
  | munmap {t pid r sys'} (addr size) : pid ∈ t.family →
    t.sys.munmap pid addr size = some (r, sys') → Step t ⟨sys', t.family, t.last⟩
  | fork {t pid child sys'} : pid ∈ t.family → t.sys.spaces child = none →
    t.sys.fork pid child = some sys' →
    Step t ⟨sys', insert child t.family, update t.last child (t.last pid)⟩

/-- The bytes that a process sees on a page. -/
def view (sys : System) (pid page : ℕ) : PageData :=
  (sys.mapping pid page).elim (fun _ => 0) fun p => sys.content p.object.id p.objectPage

/-- The start of a trace: a process has been forked. -/
def afterFork (sys sys' : System) (pid child : ℕ) : Trace :=
  ⟨sys', {child, pid}, update sys.view child (sys.view pid)⟩

/-! ### Pages of processes -/

section

variable {sys sys' : System}

lemma mapping_eq_some {pid page : ℕ} {p : PageMapping ObjectRef} :
    sys.mapping pid page = some p ↔ ∃ s, sys.spaces pid = some s ∧ s.lookup page = some p :=
  bind_eq_some_iff

lemma mapping_setSpace (sys : System) (pid : ℕ) (s : AddressSpace ObjectRef) (pid' page : ℕ) :
    (sys.setSpace pid s).mapping pid' page =
      if pid' = pid then s.lookup page else sys.mapping pid' page := by
  rw [mapping, spaces_setSpace]
  split_ifs <;> rfl

/-- The pages of the processes are old ones. -/
def Descends (sys sys' : System) : Prop :=
  ∀ pid page q, sys'.mapping pid page = some q → ∃ p, sys.mapping pid page = some p ∧ p.Same q

lemma descends_setSpace {pid : ℕ} {s s' : AddressSpace ObjectRef} (hs : sys.spaces pid = some s)
    (hkeeps : Keeps (fun _ => False) s s') : Descends sys (sys.setSpace pid s') := by
  intro pid' page q hq
  rw [mapping_setSpace] at hq
  split_ifs at hq with heq
  · obtain ⟨p, hp, hsame⟩ | hfalse := hkeeps.mapped page q hq
    · exact ⟨p, mapping_eq_some.mpr ⟨s, heq ▸ hs, hp⟩, hsame⟩
    · exact hfalse.elim
  · exact ⟨q, hq, .refl q⟩

end

/-! ### The invariant of a trace -/

/-- A page of the family that is neither shared nor waits to be copied is mapped nowhere else; the
pages that can still be copied have small indices; and every page shows what it is to show. -/
structure Trace.Inv (total : Set ℕ) (len : ℕ) (t : Trace) : Prop where
  sys : t.sys.Inv total len
  alone : ∀ pid ∈ t.family, ∀ page p, t.sys.mapping pid page = some p → ¬ p.flags.shared →
    ¬ p.flags.copyOnWrite → ∀ pid' page' p', t.sys.mapping pid' page' = some p' →
      p'.object.id = p.object.id → p'.objectPage = p.objectPage → pid' = pid ∧ page' = page
  small : ∀ pid ∈ t.family, ∀ page p, t.sys.mapping pid page = some p →
    ¬ p.flags.shared ∨ p.flags.copyOnWrite → p.objectPage < 2 ^ 52
  last : ∀ pid page p, t.sys.mapping pid page = some p →
    t.sys.content p.object.id p.objectPage = t.last pid page

section

variable {total : Set ℕ} {len pid page child new : ℕ} {t t' : Trace} {sys' sys sys₁ : System}
  {offset : Fin pageSize} {byte : BitVec 8} {p : PageMapping ObjectRef} {info : PageFaultInfo}
  {resolved : ResolvedFault ObjectRef} {handled : Bool} {phys : PhysAddr}

/-- Taking pages away and changing permissions. -/
lemma Trace.Inv.descends (h : t.Inv total len) (hsys : sys'.Inv total len)
    (hdesc : Descends t.sys sys')
    (hcontent : ∀ pid page p, t.sys.mapping pid page = some p →
      sys'.content p.object.id p.objectPage = t.sys.content p.object.id p.objectPage) :
    Trace.Inv total len ⟨sys', t.family, t.last⟩ := by
  refine ⟨hsys, ?_, ?_, ?_⟩
  · intro pid hpid page q hq hshared hcow pid' page' q' hq' hobject hpage
    obtain ⟨p, hp, hsame⟩ := hdesc pid page q hq
    obtain ⟨p', hp', hsame'⟩ := hdesc pid' page' q' hq'
    refine h.alone pid hpid page p hp (hsame.shared ▸ hshared)
      (fun hc => hcow (hsame.copyOnWrite hc)) pid' page' p' hp' ?_ ?_
    · rw [← hsame'.object, hobject, hsame.object]
    · rw [← hsame'.objectPage, hpage, hsame.objectPage]
  · intro pid hpid page q hq hcond
    obtain ⟨p, hp, hsame⟩ := hdesc pid page q hq
    rw [hsame.objectPage]
    refine h.small pid hpid page p hp ?_
    rcases hcond with hshared | hcow
    · exact .inl (hsame.shared ▸ hshared)
    · exact (hsame.ofCopyOnWrite hcow).symm
  · intro pid page q hq
    obtain ⟨p, hp, hsame⟩ := hdesc pid page q hq
    rw [hsame.object, hsame.objectPage, hcontent pid page p hp]
    exact h.last pid page p hp

lemma Trace.Inv.call (h : t.Inv total len) {α : Type} {r : α}
    {f : AddressSpace ObjectRef → Option (α × AddressSpace ObjectRef)}
    (hcall : t.sys.call pid f = some (r, sys'))
    (hkeeps : ∀ s s', s.Wf → f s = some (r, s') → Keeps (fun _ => False) s s') :
    Trace.Inv total len ⟨sys', t.family, t.last⟩ := by
  have hsys : sys'.Inv total len := h.sys.call hcall nofun hkeeps
  obtain ⟨s, s', hs, hs', rfl⟩ := exists_of_call hcall
  exact h.descends hsys (descends_setSpace hs (hkeeps s s' (h.sys.spaces pid s hs).wf hs'))
    fun _ _ _ _ => rfl

/-! ### Writing -/

/-- A write changes one page of one object, which does not wait to be copied. -/
lemma Inv.exists_of_store (h : sys.Inv total len)
    (hcall : sys.store pid page offset byte = some sys') :
    ∃ p, sys.mapping pid page = some p ∧ ¬ p.flags.copyOnWrite ∧
      (∀ pid' page', sys'.mapping pid' page' = sys.mapping pid' page') ∧
      ∀ o k, sys'.content o k =
        if o = p.object.id ∧ k = p.objectPage then update (sys.content o k) offset byte
        else sys.content o k := by
  obtain ⟨s, hs, hwrite, rfl⟩ := System.exists_of_store hcall
  have hpresent := PageTableEntry.isPresent_of_allowsWrite hwrite
  obtain ⟨p, a, hp, ha, haddr⟩ := (h.spaces pid s hs).present page hpresent
  have hcow := ((h.spaces pid s hs).wf.writable page p hwrite hp).2
  obtain ⟨A, hA⟩ := h.frames
  have hmem : ∀ i, i ≠ idxFromAddr a →
      (sys.ram.writeByte (idxFromAddr (s.table page).address) offset byte).mem i = sys.ram.mem i := by
    intro i hi
    exact update_of_ne (haddr ▸ hi) _ _
  obtain ⟨-, hext⟩ := hA.write ha _ hmem
  have hold : sys.content p.object.id p.objectPage = sys.ram.mem (idxFromAddr a) :=
    content_of_frame ha
  refine ⟨p, mapping_eq_some.mpr ⟨s, hs, hp⟩, hcow, fun pid' page' => ?_, fun o k => ?_⟩
  · rw [mapping_setSpace]
    split_ifs with heq
    · rw [mapping, heq, hs]
      rfl
    · rfl
  · split_ifs with heq
    · obtain ⟨rfl, rfl⟩ := heq
      rw [hold]
      refine (content_of_frame (hext.frame _ _ a ha)).trans ?_
      simp only [Ram.writeByte, haddr, update_self]
    · exact hext.content o k fun hmem => heq (Prod.mk.inj hmem)

lemma Trace.Inv.store (h : t.Inv total len) (hpid : pid ∈ t.family)
    (hcall : t.sys.store pid page offset byte = some sys') :
    Trace.Inv total len ⟨sys', t.family, t.write pid page offset byte⟩ := by
  obtain ⟨p, hp, hcow, hmapping, hcontent⟩ := h.sys.exists_of_store hcall
  refine ⟨h.sys.store hcall, ?_, ?_, fun pid' page' p' hp' => ?_⟩
  · simp only [hmapping]
    exact h.alone
  · simp only [hmapping]
    exact h.small
  dsimp only at hp' ⊢
  rw [hmapping] at hp'
  rw [hcontent, Trace.write, h.last pid' page' p' hp']
  by_cases heq : p'.object.id = p.object.id ∧ p'.objectPage = p.objectPage
  · rw [if_pos heq, if_pos]
    by_cases hshared : p.flags.shared
    · exact .inr ⟨p', p, hp', hp, hshared, heq⟩
    · exact .inl (h.alone pid hpid page p hp hshared hcow pid' page' p' hp' heq.1 heq.2)
  · rw [if_neg heq, if_neg]
    rintro (⟨rfl, rfl⟩ | ⟨q', q, hq', hq, -, hsame⟩)
    · obtain rfl := some.inj (hp.symm.trans hp')
      exact heq ⟨rfl, rfl⟩
    · obtain rfl := some.inj (hp.symm.trans hq)
      obtain rfl := some.inj (hp'.symm.trans hq')
      exact heq hsame

/-! ### Page faults -/

/-- An object that is about to be created is not mapped yet. -/
lemma Inv.object_ne (h : sys.Inv total len) (hnew : sys.objects new = none)
    (hp : sys.mapping pid page = some p) : p.object.id ≠ new := by
  intro heq
  obtain ⟨s, hs, hlook⟩ := mapping_eq_some.mp hp
  have halive := (h.spaces pid s hs).alive page p hlook
  rw [heq, Alive, hnew] at halive
  cases halive

/-- The handler gets pages from objects, and may then install one of them. -/
lemma Inv.handler_cases (h : sys.Inv total len) (htotal : total ⊆ Set.Iio len)
    (hnew : sys.objects new = none) (hcall : sys.handler pid new info = some (handled, sys')) :
    ∃ s sys₁ A, sys.spaces pid = some s ∧ Frames total len sys₁ A ∧
      Extends {(new, 0)} sys sys₁ ∧
      (sys' = sys₁ ∨ ∃ resolved cowObject phys p s',
        PageReady sys sys₁ new resolved cowObject phys ∧
        FaultEffect s s' info resolved cowObject phys p ∧
        sys₁.install pid info resolved cowObject phys = some sys' ∧
        sys' = sys₁.setSpace pid s') := by
  obtain ⟨A, hA⟩ := h.frames
  obtain ⟨s, hs, hcall⟩ := bind_eq_some_iff.mp hcall
  have hbacked := h.spaces pid s hs
  cases hresolve : s.resolve info with
  | none =>
    rw [hresolve] at hcall
    cases hcall
    exact ⟨s, _, A, hs, hA, Extends.refl _ _, .inl rfl⟩
  | some resolved =>
    obtain ⟨p, hp, hobject, -⟩ := exists_of_resolve hresolve
    obtain ⟨res, sys₁, A₁, hpage, hframes, hext, hready⟩ :=
      hA.exists_pageIn htotal hnew (hobject ▸ hbacked.alive _ p hp)
    simp only [hresolve, hpage, bind_eq_bind] at hcall
    refine ⟨s, sys₁, A₁, hs, hframes, hext, ?_⟩
    cases res with
    | none =>
      cases hcall
      exact .inl rfl
    | some x =>
      obtain ⟨cowObject, phys⟩ := x
      obtain ⟨sys₂, hinstall, heq⟩ := map_eq_some_iff.mp hcall
      cases heq
      obtain ⟨s₁, s', hs₁, hs', heq⟩ := exists_of_install hinstall
      rw [hext.spaces, hs] at hs₁
      cases hs₁
      obtain rfl | ⟨p', heff⟩ := effect_of_install hbacked.wf hs'
      · refine .inl (heq.trans ?_)
        rw [System.setSpace, ← hs, ← hext.spaces, update_eq_self]
      · exact .inr ⟨resolved, cowObject, phys, p', s', hready cowObject phys rfl, heff, hinstall,
          heq⟩

/-- The handler changes the mapping of the faulting page only. -/
lemma mapping_install {s s' : AddressSpace ObjectRef} {cowObject : Option ObjectRef}
    (hs : sys.spaces pid = some s) (hspaces : sys₁.spaces = sys.spaces)
    (heff : FaultEffect s s' info resolved cowObject phys p) (pid' page : ℕ) :
    (sys₁.setSpace pid s').mapping pid' page =
      if pid' = pid ∧ page = info.faultyPage then
        some (cowObject.elim p fun o =>
          ⟨o, 0, resolved.mapFlags, MemoryObject.cacheType o⟩)
      else sys.mapping pid' page := by
  rw [mapping_setSpace, mapping, hspaces]
  by_cases hpid : pid' = pid
  · rw [heff.lookup, mapping, hpid, hs]
    simp only [true_and]
    rfl
  · rw [if_neg hpid, if_neg fun h => hpid h.1]
    rfl

/-- A page that has been copied shows the same bytes, and is mapped nowhere else. -/
lemma Trace.Inv.copied (h : t.Inv total len) {s s' : AddressSpace ObjectRef}
    (hnew : t.sys.objects new = none) (hs : t.sys.spaces pid = some s)
    (hext : Extends {(new, 0)} t.sys sys₁)
    (hcontent : sys₁.content new 0 = t.sys.content p.object.id p.objectPage)
    (heff : FaultEffect s s' info resolved (some ⟨new, .normal⟩) phys p)
    (hsys : (sys₁.setSpace pid s').Inv total len) :
    Trace.Inv total len ⟨sys₁.setSpace pid s', t.family, t.last⟩ := by
  have hmapping := mapping_install hs hext.spaces heff
  have hne : ∀ pid page p, t.sys.mapping pid page = some p → p.object.id ≠ new :=
    fun _ _ _ => h.sys.object_ne hnew
  have hold := mapping_eq_some.mpr ⟨s, hs, heff.mapped⟩
  refine ⟨hsys, ?_, ?_, ?_⟩
  · intro pid' hpid' page q hq hshared hcow pid'' page' q' hq' hobject hpage
    rw [hmapping] at hq hq'
    split_ifs at hq hq' with hi hi'
    · exact ⟨hi'.1.trans hi.1.symm, hi'.2.trans hi.2.symm⟩
    · cases hq
      exact absurd hobject (hne _ _ _ hq')
    · cases hq'
      exact absurd hobject.symm (hne _ _ _ hq)
    · exact h.alone pid' hpid' page q hq hshared hcow pid'' page' q' hq' hobject hpage
  · intro pid' hpid' page q hq hcond
    rw [hmapping] at hq
    split_ifs at hq
    · cases hq
      exact Nat.two_pow_pos 52
    · exact h.small pid' hpid' page q hq hcond
  · intro pid' page q hq
    rw [hmapping] at hq
    split_ifs at hq with hi
    · cases hq
      rw [hi.1, hi.2, ← h.last pid _ p hold]
      exact hcontent
    · rw [← h.last pid' page q hq]
      exact hext.content _ _ fun hmem => hne _ _ _ hq (Prod.mk.inj hmem).1

lemma Trace.Inv.fault (h : t.Inv total len) (htotal : total ⊆ Set.Iio len) (hlen : len ≤ 2 ^ 40)
    (hpid : pid ∈ t.family) (hnew : t.sys.objects new = none)
    (hcall : t.sys.handler pid new info = some (handled, sys')) :
    Trace.Inv total len ⟨sys', t.family, t.last⟩ := by
  obtain ⟨s, sys₁, A, hs, hframes, hext, hcases⟩ := h.sys.handler_cases htotal hnew hcall
  have hinv₁ : sys₁.Inv total len := h.sys.extends hframes hext
  -- the object of the copy is not mapped yet
  have hcontent : ∀ pid page p, t.sys.mapping pid page = some p →
      sys₁.content p.object.id p.objectPage = t.sys.content p.object.id p.objectPage := by
    intro pid page p hp
    exact hext.content _ _ fun hmem => h.sys.object_ne hnew hp (Prod.mk.inj hmem).1
  obtain rfl | ⟨resolved, cowObject, phys, p, s', hready, heff, hinstall, rfl⟩ := hcases
  · refine h.descends hinv₁ (fun pid page q hq => ⟨q, ?_, .refl q⟩) hcontent
    rwa [mapping, hext.spaces] at hq
  have hcow := hready.isSome_cow
  have hsys := hinv₁.install htotal hlen hcow hready.frame hinstall
  cases hwrite : resolved.cowWrite with
  | true =>
    have hcow' := hready.cow
    rw [hwrite] at hcow'
    subst hcow'
    have hflags : p.flags.copyOnWrite := by
      have := heff.cowWrite
      rw [hwrite, Bool.and_eq_true] at this
      exact this.1
    have hpage : p.objectPage < 2 ^ 52 :=
      h.small pid hpid _ p (mapping_eq_some.mpr ⟨s, hs, heff.mapped⟩) (.inr hflags)
    refine h.copied hnew hs hext ?_ heff hsys
    rw [hready.copied hwrite (heff.object.2 ▸ hpage), heff.object.1, heff.object.2]
  | false =>
    have hcow' := hready.cow
    rw [hwrite, if_neg Bool.false_ne_true] at hcow'
    subst hcow'
    refine h.descends hsys (fun pid' page q hq => ⟨q, ?_, .refl q⟩) hcontent
    rw [mapping_install hs hext.spaces heff] at hq
    split_ifs at hq with hi
    · cases hq
      rw [hi.1, hi.2]
      exact mapping_eq_some.mpr ⟨s, hs, heff.mapped⟩
    · exact hq

/-! ### Forking -/

/-- The parent and the child have the same pages. -/
lemma mapping_fork (hcall : sys.fork pid child = some sys') (pid' page : ℕ) :
    sys'.mapping pid' page =
      if pid' = child ∨ pid' = pid then (sys.mapping pid page).map (·.fork)
      else sys.mapping pid' page := by
  obtain ⟨s, hs, heq⟩ := bind_eq_some_iff.mp hcall
  cases heq
  rw [mapping_setSpace, mapping_setSpace, lookup_fork_child, lookup_fork_parent,
    show sys.mapping pid page = s.lookup page by rw [mapping, hs]; rfl]
  grind

lemma content_fork (hcall : sys.fork pid child = some sys') (o k : ℕ) :
    sys'.content o k = sys.content o k := by
  obtain ⟨s, -, heq⟩ := bind_eq_some_iff.mp hcall
  cases heq
  rfl

/-- The pages of the parent that are not shared wait to be copied from now on. -/
lemma Trace.Inv.fork (h : t.Inv total len)
    (hsmall : ∀ page p, t.sys.mapping pid page = some p →
      ¬ p.flags.shared ∨ p.flags.copyOnWrite → p.objectPage < 2 ^ 52)
    (hchild : t.sys.spaces child = none) (hcall : t.sys.fork pid child = some sys') :
    Trace.Inv total len
      ⟨sys', insert child (insert pid t.family), update t.last child (t.last pid)⟩ := by
  have hmapping := mapping_fork hcall
  have hne : child ≠ pid := by
    rintro rfl
    rw [System.fork, hchild] at hcall
    cases hcall
  refine ⟨h.sys.fork hcall, ?_, ?_, ?_⟩
  · intro pid' hpid' page q hq hshared hcow pid'' page' q' hq' hobject hpage
    rw [hmapping] at hq hq'
    split_ifs at hq with hi
    · obtain ⟨p, hp, rfl⟩ := map_eq_some_iff.mp hq
      rw [p.same_fork.shared] at hshared
      rw [PageMapping.fork, if_neg hshared] at hcow
      exact absurd rfl hcow
    · have hmem : pid' ∈ t.family := by
        simpa [not_or.mp hi] using hpid'
      split_ifs at hq' with hi'
      · obtain ⟨p, hp, rfl⟩ := map_eq_some_iff.mp hq'
        rw [p.same_fork.object] at hobject
        rw [p.same_fork.objectPage] at hpage
        have heq := h.alone pid' hmem page q hq hshared hcow pid page' p hp hobject hpage
        exact absurd (.inr heq.1.symm) hi
      · exact h.alone pid' hmem page q hq hshared hcow pid'' page' q' hq' hobject hpage
  · intro pid' hpid' page q hq hcond
    rw [hmapping] at hq
    split_ifs at hq with hi
    · obtain ⟨p, hp, rfl⟩ := map_eq_some_iff.mp hq
      rw [p.same_fork.objectPage]
      refine hsmall page p hp ?_
      rcases hcond with hshared | hcow
      · exact .inl (p.same_fork.shared ▸ hshared)
      · exact (p.same_fork.ofCopyOnWrite hcow).symm
    · have hmem : pid' ∈ t.family := by
        simpa [not_or.mp hi] using hpid'
      exact h.small pid' hmem page q hq hcond
  · intro pid' page q hq
    dsimp only
    rw [hmapping] at hq
    rw [content_fork hcall]
    split_ifs at hq with hi
    · obtain ⟨p, hp, rfl⟩ := map_eq_some_iff.mp hq
      rw [p.same_fork.object, p.same_fork.objectPage, h.last pid page p hp]
      rcases hi with rfl | rfl
      · rw [update_self]
      · rw [update_of_ne hne.symm]
    · rw [h.last pid' page q hq, update_of_ne fun heq => hi (.inl heq)]

/-! ### Runs -/

lemma Trace.Inv.afterFork (h : sys.Inv total len)
    (hsmall : ∀ page p, sys.mapping pid page = some p →
      ¬ p.flags.shared ∨ p.flags.copyOnWrite → p.objectPage < 2 ^ 52)
    (hchild : sys.spaces child = none) (hcall : sys.fork pid child = some sys') :
    Trace.Inv total len (afterFork sys sys' pid child) := by
  have hstart : Trace.Inv total len ⟨sys, ∅, sys.view⟩ := by
    refine ⟨h, nofun, nofun, fun pid page p hp => ?_⟩
    simp only [view, show sys.mapping pid page = some p from hp, elim_some]
  have hfork := hstart.fork hsmall hchild hcall
  rwa [insert_empty_eq] at hfork

lemma Trace.Inv.step (htotal : total ⊆ Set.Iio len) (hlen : len ≤ 2 ^ 40) (h : t.Inv total len)
    (hstep : Trace.Step t t') : t'.Inv total len := by
  cases hstep with
  | store page offset byte hpid hcall => exact h.store hpid hcall
  | fault info hpid hnew hcall => exact h.fault htotal hlen hpid hnew hcall
  | mprotect addr size prot hpid hcall =>
    exact h.call hcall fun s s' hwf hcall => keeps_mprotect hwf hcall
  | munmap addr size hpid hcall =>
    exact h.call hcall fun s s' hwf hcall => keeps_munmap hwf hcall
  | fork hpid hchild hcall =>
    have hfork := h.fork (h.small _ hpid) hchild hcall
    rwa [Set.insert_eq_of_mem hpid] at hfork

lemma Trace.Inv.run (htotal : total ⊆ Set.Iio len) (hlen : len ≤ 2 ^ 40) (h : t.Inv total len)
    (hrun : Relation.ReflTransGen Trace.Step t t') : t'.Inv total len := by
  induction hrun with
  | refl => exact h
  | tail _ hstep ih => exact ih.step htotal hlen hstep

/-- A process that reads a page sees the page of the object. -/
lemma Inv.exists_of_load (h : sys.Inv total len) (hcall : sys.load pid page offset = some byte) :
    ∃ p, sys.mapping pid page = some p ∧ byte = sys.content p.object.id p.objectPage offset := by
  obtain ⟨s, hs, hrest⟩ := bind_eq_some_iff.mp hcall
  split_ifs at hrest with hread
  cases hrest
  have hpresent : (s.table page).isPresent := by
    simp only [PageTableEntry.allowsRead, Bool.and_eq_true] at hread
    exact hread.1
  obtain ⟨p, a, hp, ha, haddr⟩ := (h.spaces pid s hs).present page hpresent
  refine ⟨p, mapping_eq_some.mpr ⟨s, hs, hp⟩, ?_⟩
  rw [content_of_frame ha, haddr]

end

/-! ### A run -/

/-- A process maps two private pages, writes to the second and forks. -/
def writeAndFork (pmm : Pmm) (offset : BitVec 64) : Option (System × System) := do
  let sys ← (oneFile pmm).mapAndFault 1 1 2 0 (fun _ => none) 0x2000 0x32 offset
    ⟨0, 0x100001000, true, true, false, false⟩
  let sys ← sys.store 1 0x100001 1 7
  let sys' ← sys.fork 1 2
  some (sys, sys')

/-- The child then writes to the page. -/
lemma exists_afterFork (offset : BitVec 64) (byte : BitVec 8)
    (hrun : (smallMap.init.any fun pmm =>
      (writeAndFork pmm offset).any fun (sys, sys') =>
        (sys.spaces 2).isNone && (sys.objects 3).isNone && sys.view 1 0x100001 1 == 7 &&
          (sys'.handler 2 3 ⟨0, 0x100001000, true, true, false, false⟩).any fun (_, sys'') =>
            sys''.load 2 0x100001 1 == some byte) = true) :
    ∃ pmm sys sys' t, smallMap.init = some pmm ∧
      writeAndFork pmm offset = some (sys, sys') ∧ Reachable pmm sys ∧ sys.spaces 2 = none ∧
      sys.fork 1 2 = some sys' ∧ Relation.ReflTransGen Trace.Step (afterFork sys sys' 1 2) t ∧
      t.sys.load 2 0x100001 1 = some byte ∧ t.last 2 0x100001 1 = 7 := by
  obtain ⟨pmm, hinit, hrun⟩ := (any_eq_true _ _).mp hrun
  obtain ⟨⟨sys, sys'⟩, hsys, hrun⟩ := (any_eq_true _ _).mp hrun
  simp only [Bool.and_eq_true, isNone_iff_eq_none, beq_iff_eq] at hrun
  obtain ⟨⟨⟨hchild, hobject⟩, hview⟩, hrun⟩ := hrun
  obtain ⟨⟨handled, sys''⟩, hhandler, hload⟩ := (any_eq_true _ _).mp hrun
  obtain ⟨sys₁, hmap, hrest⟩ := bind_eq_some_iff.mp hsys
  obtain ⟨sys₂, hstore, hrest⟩ := bind_eq_some_iff.mp hrest
  obtain ⟨sys₃, hfork, heq⟩ := bind_eq_some_iff.mp hrest
  cases heq
  have hreach : Reachable pmm sys₁ :=
    (Reachable.oneFile pmm).mapAndFault (fun fd f hf => by cases hf) rfl rfl (by decide) rfl hmap
  have hobject' : sys'.objects 3 = none := by
    obtain ⟨s, -, heq⟩ := bind_eq_some_iff.mp hfork
    cases heq
    exact hobject
  refine ⟨pmm, sys, sys', ⟨sys'', {2, 1}, _⟩, hinit, hsys, hreach.step (.store _ _ _ hstore), hchild,
    hfork, .single (.fault _ (Set.mem_insert _ _) hobject' hhandler), beq_iff_eq.mp hload, ?_⟩
  exact (congrArg (· 0x100001 1) (update_self 2 (sys.view 1) sys.view)).trans hview

/-- After a fork, every byte that a process reads is the last one that it is to see: the one that
it has written itself or that has been written to the page of the object through a shared mapping,
or the one of the fork. The pages that can be copied have indices within 52 bits. -/
theorem Trace.load_eq_last {m : MemoryMap} (hlen : m.len ≤ 2 ^ 40) {pmm : Pmm}
    (hinit : m.init = some pmm) {sys sys' : System} (h : Reachable pmm sys)
    {pid child : ℕ} (hchild : sys.spaces child = none) (hfork : sys.fork pid child = some sys')
    (hsmall : ∀ page p, sys.mapping pid page = some p →
      ¬ p.flags.shared ∨ p.flags.copyOnWrite → p.objectPage < 2 ^ 52)
    {t : Trace} (hrun : Relation.ReflTransGen Trace.Step (afterFork sys sys' pid child) t)
    {pid' page : ℕ} {offset : Fin pageSize} {byte : BitVec 8}
    (hload : t.sys.load pid' page offset = some byte) : byte = t.last pid' page offset := by
  obtain ⟨htotal, hinv⟩ := h.inv hlen hinit
  have hall := (Trace.Inv.afterFork hinv hsmall hchild hfork).run htotal hlen hrun
  obtain ⟨p, hp, hbyte⟩ := hall.sys.exists_of_load hload
  rw [hbyte, hall.last pid' page p hp]

/-- The child reads what its parent has written before the fork. -/
theorem load_eq_last_seven : ∃ pmm sys sys' t, Reachable pmm sys ∧ sys.fork 1 2 = some sys' ∧
    Relation.ReflTransGen Trace.Step (afterFork sys sys' 1 2) t ∧
    t.sys.load 2 0x100001 1 = some 7 ∧ 7 = t.last 2 0x100001 1 := by
  obtain ⟨pmm, sys, sys', t, hinit, hsys, hreach, hchild, hfork, hrun, hload, -⟩ :=
    exists_afterFork 0 7 (by decide +kernel)
  have hall : (smallMap.init.all fun pmm =>
      (writeAndFork pmm 0).all fun (sys, _) => (sys.spaces 1).all fun s =>
        s.mappings.elems.all fun m => m.offsetPage + (m.endPage - m.startPage) ≤ 2 ^ 52) = true := by
    decide +kernel
  simp only [hinit, hsys, all_some] at hall
  refine ⟨pmm, sys, sys', t, hreach, hfork, hrun, hload, ?_⟩
  refine Trace.load_eq_last (by decide) hinit hreach hchild hfork (fun page p hp _ => ?_) hrun hload
  obtain ⟨s, hs, hlook⟩ := mapping_eq_some.mp hp
  rw [hs] at hall
  obtain ⟨m, hm, rfl⟩ := map_eq_some_iff.mp hlook
  have hsmall := of_decide_eq_true (List.all_eq_true.mp hall m (List.mem_of_find?_eq_some hm))
  obtain ⟨hlo, hhi⟩ : Segment.Covers m page := by
    simpa using List.find?_some hm
  exact (Nat.add_lt_add_left (Nat.sub_lt_sub_right hlo hhi) _).trans_le hsmall

/-- The offset of the mapping is the last page of the offsets, so that the second page is copied
from the first page of the object. The child does not see what its parent has written. -/
theorem load_ne_last : ∃ pmm sys sys' t, smallMap.init = some pmm ∧ Reachable pmm sys ∧
    sys.spaces 2 = none ∧ sys.fork 1 2 = some sys' ∧
    Relation.ReflTransGen Trace.Step (afterFork sys sys' 1 2) t ∧
    t.sys.load 2 0x100001 1 = some 0 ∧ t.last 2 0x100001 1 = 7 := by
  obtain ⟨pmm, sys, sys', t, hinit, -, hrest⟩ :=
    exists_afterFork 0xFFFFFFFFFFFFF000 0 (by decide +kernel)
  exact ⟨pmm, sys, sys', t, hinit, hrest⟩

end System

end Zinnia
