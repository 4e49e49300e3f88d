import Zinnia.Lib.Ownership
import Zinnia.Memory.Cache.Properties
import Zinnia.Memory.System

/-!
# The frames of the memory objects

Every page of an object and every allocation of the rest of the kernel has frames of its own. Pages
are added along the way; only truncation and the end of an object take them away.
-/

namespace Zinnia

open Function Option Set MemObject Zinnia.System

/-- Who can have frames. -/
inductive Owner where
  | page (o pageIndex : ℕ)
  | kernel (n : ℕ)

namespace System

/-- The frames of an owner. -/
def owned (sys : System) : Owner → Set ℕ
  | .page o k => {i | ∃ a, sys.frame o k = some a ∧ idxFromAddr a = i}
  | .kernel n => {i | ∃ e, sys.kernel n = some e ∧ i ∈ pageRange e.1 e.2.toNat}

/-- The frames of the owners are allocated, and no two owners share a frame. -/
structure Frames (total : Set ℕ) (len : ℕ) (sys : System) (A : Set ℕ) : Prop where
  pmm : Pmm.Inv total len sys.ram.pmm A
  owns : Owns sys.owned A
  buffers : ∀ o addr size, sys.objects o = some (.buffer addr size) →
    ∀ k < MemObject.bufferPages size, idxFromAddr addr + k < 2 ^ 40

/-- The bytes of a page of an object, which a page that is not there yet will have. -/
def content (sys : System) (o k : ℕ) : PageData :=
  (sys.frame o k).elim ((sys.objects o).elim (fun _ => 0) (·.initial k))
    fun a => sys.ram.mem (idxFromAddr a)

/-- What happens while there is no lock on an address space: pages are added. Only objects that `X`
mentions are added, and only the bytes of the pages in `X` change. -/
structure Extends (X : Set (ℕ × ℕ)) (sys sys' : System) : Prop where
  frame : ∀ o k a, sys.frame o k = some a → sys'.frame o k = some a
  content : ∀ o k, (o, k) ∉ X → sys'.content o k = sys.content o k
  alive : ∀ o, (sys.objects o).isSome → (sys'.objects o).isSome
  fresh : ∀ o, sys.objects o = none → (∀ k, (o, k) ∉ X) → sys'.objects o = none
  spaces : sys'.spaces = sys.spaces
  faults : sys'.faults = sys.faults

lemma Extends.refl (X : Set (ℕ × ℕ)) (sys : System) : Extends X sys sys :=
  ⟨fun _ _ _ => id, fun _ _ _ => rfl, fun _ => id, fun _ h _ => h, rfl, rfl⟩

lemma Extends.trans {X : Set (ℕ × ℕ)} {sys sys₁ sys₂ : System} (h : Extends X sys sys₁)
    (h' : Extends X sys₁ sys₂) : Extends X sys sys₂ :=
  ⟨fun o k a ha => h'.frame o k a (h.frame o k a ha),
    fun o k hk => (h'.content o k hk).trans (h.content o k hk),
    fun o ho => h'.alive o (h.alive o ho), fun o ho hX => h'.fresh o (h.fresh o ho hX) hX,
    h'.spaces.trans h.spaces, h'.faults.trans h.faults⟩

lemma Extends.mono {X Y : Set (ℕ × ℕ)} {sys sys' : System} (h : Extends X sys sys')
    (hXY : X ⊆ Y) : Extends Y sys sys' :=
  ⟨h.frame, fun o k hk => h.content o k fun hX => hk (hXY hX), h.alive,
    fun o ho hY => h.fresh o ho fun k hX => hY k (hXY hX), h.spaces, h.faults⟩

section

variable {total S : Set ℕ} {len o k new n : ℕ} (htotal : total ⊆ Set.Iio len) {A : Set ℕ}
  {sys sys' : System} {a : PhysAddr} {cache : PagedObject} {resolved : ResolvedFault ObjectRef}

lemma frame_setObject (sys : System) (ram : Ram) (o : ℕ) (m : MemObject) (o' k : ℕ) :
    (setObject { sys with ram } o m).frame o' k = if o' = o then m.frame k else sys.frame o' k := by
  rw [frame, objects_setObject]
  split_ifs <;> rfl

lemma frame_of_paged (ho : sys.objects o = some (.paged cache)) (k : ℕ) :
    sys.frame o k = cache.frame k := by
  rw [frame, ho]
  rfl

lemma content_of_frame (h : sys.frame o k = some a) :
    sys.content o k = sys.ram.mem (idxFromAddr a) := by
  rw [content, h]
  rfl

lemma content_of_none (h : sys.frame o k = none) :
    sys.content o k = (sys.objects o).elim (fun _ => 0) (·.initial k) := by
  rw [content, h]
  rfl

variable (h : Frames total len sys A)

include h

lemma Frames.mem (ha : sys.frame o k = some a) : idxFromAddr a ∈ A :=
  h.owns.subset (.page o k) ⟨a, ha, rfl⟩

/-- A frame belongs to one page of one object. -/
lemma Frames.inj {o' k' : ℕ} {a' : PhysAddr} (ha : sys.frame o k = some a)
    (ha' : sys.frame o' k' = some a') (heq : idxFromAddr a = idxFromAddr a') : o = o' ∧ k = k' := by
  have := h.owns.eq_of_mem (i := .page o k) (j := .page o' k') ⟨a, ha, rfl⟩ ⟨a', ha', heq.symm⟩
  cases this
  exact ⟨rfl, rfl⟩

lemma Frames.holds (ho : sys.objects o = some (.paged cache)) : cache.Holds A := by
  have hframe := frame_of_paged ho
  refine ⟨fun k a ha => h.mem ((hframe k).trans ha), fun k k' a a' ha ha' heq => ?_⟩
  exact (h.inj ((hframe k).trans ha) ((hframe k').trans ha') heq).2

/-! ### Pages are added -/

/-- Pages that a cache has taken in. -/
lemma Frames.pagedIn {cache' : PagedObject} (ho : sys.objects o = some (.paged cache)) {r' : Ram}
    {A' : Set ℕ} (hin : PagedObject.PagedIn total len A A' sys.ram r' cache cache') :
    Frames total len (setObject { sys with ram := r' } o (.paged cache')) A' ∧
      Extends ∅ sys (setObject { sys with ram := r' } o (.paged cache')) := by
  have hframe := frame_setObject sys r' o (.paged cache')
  have hold := frame_of_paged ho
  have hcases : ∀ {o' k a}, (setObject { sys with ram := r' } o (.paged cache')).frame o' k =
      some a → sys.frame o' k = some a ∨ o' = o ∧ cache'.frame k = some a ∧ cache.frame k = none := by
    intro o' k a ha
    rw [hframe] at ha
    split_ifs at ha with heq
    · subst heq
      cases hk : cache.frame k with
      | some b =>
        obtain rfl := some.inj ((hin.keep k b hk).symm.trans ha)
        exact .inl ((hold k).trans hk)
      | none => exact .inr ⟨rfl, ha, rfl⟩
    · exact .inl ha
  -- the new frames, by their owners
  let new : Owner → Set ℕ
    | .page o' k =>
      {i | o' = o ∧ ∃ a, cache'.frame k = some a ∧ cache.frame k = none ∧ idxFromAddr a = i}
    | .kernel _ => ∅
  refine ⟨⟨hin.inv, h.owns.take (g := new) ?_ ?_ ?_ ?_, ?_⟩, ⟨?_, ?_, ?_, ?_, rfl, rfl⟩⟩
  · rintro (⟨o', k⟩ | n) i
    · rintro ⟨a, ha, rfl⟩
      obtain ha | ⟨heq, ha, hk⟩ := hcases ha
      · exact .inl ⟨a, ha, rfl⟩
      · exact .inr ⟨heq, a, ha, hk, rfl⟩
    · exact fun hi => .inl hi
  · rintro (⟨o', k⟩ | n) i
    · rintro ⟨a, ha, rfl⟩
      obtain ha | ⟨-, ha, hk⟩ := hcases ha
      · exact hin.subset (h.mem ha)
      · exact (hin.fresh k a ha hk).2.2
    · exact fun hi => hin.subset (h.owns.subset (.kernel n) hi)
  · rintro (⟨o', k⟩ | n)
    · refine disjoint_right.mpr ?_
      rintro _ ⟨-, a, ha, hk, rfl⟩
      exact (hin.fresh k a ha hk).2.1
    · exact disjoint_empty _
  · rintro (⟨o₁, k₁⟩ | n₁) (⟨o₂, k₂⟩ | n₂) hne
    · refine disjoint_left.mpr ?_
      rintro _ ⟨rfl, a, ha, hk, rfl⟩ ⟨rfl, b, hb, hk', heq⟩
      exact hne (by rw [hin.inj k₁ k₂ a b ha hb hk hk' heq.symm])
    all_goals simp [new]
  · intro o' addr size ho' k hk
    rw [objects_setObject] at ho'
    split_ifs at ho' with heq
    · cases ho'
    · exact h.buffers o' addr size ho' k hk
  · intro o' k a ha
    rw [hframe]
    split_ifs with heq
    · exact hin.keep k a (by rw [← hold, ← heq]; exact ha)
    · exact ha
  · intro o' k _
    rcases eq_or_ne o' o with rfl | heq
    · cases hk : cache.frame k with
      | some b =>
        rw [content_of_frame (by rw [hframe, if_pos rfl]; exact hin.keep k b hk),
          content_of_frame ((hold k).trans hk)]
        exact hin.mem _ (h.mem ((hold k).trans hk))
      | none =>
        rw [content_of_none ((hold k).trans hk), ho]
        cases hk' : cache'.frame k with
        | some a =>
          rw [content_of_frame (by rw [hframe, if_pos rfl]; exact hk')]
          exact hin.data k a hk' hk
        | none =>
          rw [content_of_none (by rw [hframe, if_pos rfl]; exact hk'), objects_setObject,
            if_pos rfl]
          exact congrFun (congrArg Pager.data hin.source) k
    · have hsame := hframe o' k
      rw [if_neg heq] at hsame
      cases hk : sys.frame o' k with
      | some a =>
        rw [content_of_frame (hsame.trans hk), content_of_frame hk]
        exact hin.mem _ (h.mem hk)
      | none =>
        rw [content_of_none (hsame.trans hk), content_of_none hk, objects_setObject, if_neg heq]
  · intro o' ho'
    rw [objects_setObject]
    split_ifs
    · rfl
    · exact ho'
  · intro o' ho' _
    rw [objects_setObject, if_neg fun heq => by rw [heq, ho] at ho'; cases ho']
    exact ho'

omit h in
lemma setObject_eq_self {m : MemObject} (ho : sys.objects o = some m) :
    sys.setObject o m = sys := by
  rw [setObject, ← ho, update_eq_self]

include htotal

/-- `try_get_page` returns, and the page that it returns is there afterwards. -/
lemma Frames.exists_tryGetPage (ho : (sys.objects o).isSome) (k : ℕ) :
    ∃ res sys' A', sys.tryGetPage o k = some (res, sys') ∧ Frames total len sys' A' ∧
      Extends ∅ sys sys' ∧ ∀ a, res = .ok (some a) → sys'.frame o k = some a := by
  obtain ⟨m, hm⟩ := isSome_iff_exists.mp ho
  cases m with
  | paged cache =>
    obtain ⟨res, cache', r', A', hcall, hin, hres⟩ :=
      PagedObject.exists_tryGetPage htotal h.pmm cache k
    obtain ⟨hframes, hext⟩ := h.pagedIn hm hin
    refine ⟨res, _, A', ?_, hframes, hext, fun a ha => ?_⟩
    · simp only [tryGetPage, hm, MemObject.tryGetPage, hcall, bind_eq_bind,
        bind_some, map_some]
    · rw [frame_setObject, if_pos rfl]
      exact hres a ha
  | buffer addr size =>
    refine ⟨.ok (sys.frame o k), sys, A, ?_, h, Extends.refl _ _, fun a ha => Except.ok.inj ha⟩
    simp only [tryGetPage, hm, MemObject.tryGetPage, bind_eq_bind, bind_some,
      setObject_eq_self hm, frame]

omit htotal h in
/-- A page that is there is returned at once. -/
lemma tryGetPage_of_frame (h : sys.frame o k = some a) :
    sys.tryGetPage o k = some (.ok (some a), sys) := by
  obtain ⟨m, hm, ha⟩ := bind_eq_some_iff.mp h
  cases m with
  | paged cache =>
    have hcall : cache.tryGetPage k sys.ram = some (.ok (some a), cache, sys.ram) := by
      rw [PagedObject.tryGetPage]
      change cache.frame k = some a at ha
      simp only [ha]
    simp only [tryGetPage, hm, MemObject.tryGetPage, hcall, bind_eq_bind,
      bind_some, map_some, setObject_eq_self hm]
  | buffer addr size =>
    simp only [tryGetPage, hm, MemObject.tryGetPage, ha, bind_eq_bind,
      bind_some, setObject_eq_self hm]

omit htotal

/-! ### New objects -/

omit h in
lemma frame_newObject (ho : sys.objects o = none) (source : Pager) (o' k : ℕ) :
    (sys.newObject o source).frame o' k = sys.frame o' k := by
  refine (frame_setObject sys sys.ram o _ o' k).trans ?_
  split_ifs with heq
  · rw [heq, frame, ho]
    rfl
  · rfl

lemma Frames.newObject (ho : sys.objects o = none) (source : Pager) :
    Frames total len (sys.newObject o source) A := by
  have howned : (sys.newObject o source).owned = sys.owned := by
    funext owner
    cases owner with
    | page o' k =>
      simp only [owned]
      rw [frame_newObject ho]
    | kernel n => rfl
  refine ⟨h.pmm, howned ▸ h.owns, fun o' addr size ho' => ?_⟩
  rw [System.newObject, objects_setObject] at ho'
  split_ifs at ho' with heq
  · cases ho'
  · exact h.buffers o' addr size ho'

omit h in
/-- Memory that is not used yet is zero. -/
lemma extends_newObject (ho : sys.objects o = none) :
    Extends {(o, 0)} sys (sys.newObject o physPager) := by
  have hframe := frame_newObject ho physPager
  refine ⟨fun o' k a ha => (hframe o' k).trans ha, fun o' k _ => ?_, fun o' ho' => ?_,
    fun o' ho' hX => ?_, rfl, rfl⟩
  · cases hk : sys.frame o' k with
    | some a =>
      rw [content_of_frame hk, content_of_frame ((hframe o' k).trans hk)]
      rfl
    | none =>
      rw [content_of_none hk, content_of_none ((hframe o' k).trans hk), newObject,
        objects_setObject]
      split_ifs with heq
      · rw [heq, ho]
        rfl
      · rfl
  · rw [newObject, objects_setObject]
    split_ifs
    · rfl
    · exact ho'
  · rw [newObject, objects_setObject, if_neg fun heq => hX 0 (by rw [heq]; rfl)]
    exact ho'

/-! ### Copying a page -/

omit h in
lemma copyBytes_page (r : Ram) (target src : PhysAddr) :
    r.copyBytes target 0 src 0 pageSize = { r with
      mem := update r.mem (idxFromAddr target) (r.mem (idxFromAddr src)) } := by
  have hbytes : (fun i : Fin pageSize =>
      if 0 ≤ i.val ∧ i.val < 0 + pageSize then
        r.mem (idxFromAddr src) (Fin.ofNat pageSize (i.val - 0 + 0))
      else r.mem (idxFromAddr target) i) = r.mem (idxFromAddr src) := by
    funext i
    simp
  rw [Ram.copyBytes, hbytes]

/-- Writing to the frame of a page changes the bytes of that page only. -/
lemma Frames.write (ha : sys.frame o k = some a) (mem : ℕ → PageData)
    (hmem : ∀ i, i ≠ idxFromAddr a → mem i = sys.ram.mem i) :
    Frames total len { sys with ram := ⟨sys.ram.pmm, mem⟩ } A ∧
      Extends {(o, k)} sys { sys with ram := ⟨sys.ram.pmm, mem⟩ } := by
  refine ⟨⟨h.pmm, h.owns, h.buffers⟩, fun _ _ _ => id, fun o' k' hne => ?_, fun _ => id,
    fun _ h _ => h, rfl, rfl⟩
  cases hk : sys.frame o' k' with
  | some b =>
    have hb : idxFromAddr b ≠ idxFromAddr a := fun heq => by
      obtain ⟨rfl, rfl⟩ := h.inj hk ha heq
      exact hne rfl
    have hnew : content { sys with ram := ⟨sys.ram.pmm, mem⟩ } o' k' =
        mem (idxFromAddr b) := content_of_frame hk
    rw [hnew, content_of_frame hk, hmem _ hb]
  | none =>
    rw [content_of_none hk]
    exact content_of_none hk

include htotal

/-- The copy of a whole page into a new object takes one round. -/
lemma Frames.exists_copy (target src srcOffset : ℕ)
    (htarget : sys.objects target = some (.paged .newPhys)) (hsrc : (sys.objects src).isSome)
    (hoff : srcOffset % pageSize = 0) (hlt : srcOffset < 2 ^ 64) :
    ∃ res sys' A', sys.copy target 0 src srcOffset pageSize = some (res, sys') ∧
      Frames total len sys' A' ∧ Extends {(target, 0)} sys sys' ∧
      ((∃ e, res = .error e) ∨ sys.frame src (srcOffset / pageSize) = none ∨
        sys'.content target 0 = sys.content src (srcOffset / pageSize)) := by
  obtain ⟨res₁, sys₁, A₁, hcall₁, hframes₁, hext₁, hres₁⟩ :=
    h.exists_tryGetPage htotal (by rw [htarget]; rfl) 0
  obtain ⟨res₂, sys₂, A₂, hcall₂, hframes₂, hext₂, hres₂⟩ :=
    hframes₁.exists_tryGetPage htotal (hext₁.alive src hsrc) (srcOffset / pageSize)
  have hsub : (∅ : Set (ℕ × ℕ)) ⊆ {(target, 0)} := empty_subset _
  have hsize : min (min (pageSize - 0) (pageSize - 0)) (pageSize - 0) = pageSize := rfl
  rw [copy, copyFrom]
  simp only [Nat.zero_add, Nat.mod_eq_of_lt hlt, hoff, Nat.zero_mod, Nat.zero_div, hsize, hcall₁,
    bind_eq_bind]
  rcases res₁ with e | _ | targetPage
  · exact ⟨.error e, sys₁, A₁, rfl, hframes₁, hext₁.mono hsub, .inl ⟨e, rfl⟩⟩
  · -- anonymous memory has every page
    simp only [tryGetPage, htarget, MemObject.tryGetPage, bind_eq_bind, bind_some,
      bind_eq_some_iff, map_eq_some_iff] at hcall₁
    obtain ⟨_, ⟨⟨res, cache', r'⟩, hget, rfl⟩, heq⟩ := hcall₁
    obtain rfl : res = .ok none := congrArg Prod.fst (Option.some.inj heq)
    exact absurd hget (PagedObject.tryGetPage_physPager_ne h.pmm rfl 0 r')
  · simp only [hcall₂, bind_some]
    have hext := hext₁.trans hext₂
    rcases res₂ with e | _ | srcPage
    · exact ⟨.error e, sys₂, A₂, rfl, hframes₂, hext.mono hsub, .inl ⟨e, rfl⟩⟩
    · refine ⟨.ok 0, sys₂, A₂, rfl, hframes₂, hext.mono hsub, .inr (.inl ?_)⟩
      cases hk : sys.frame src (srcOffset / pageSize) with
      | none => rfl
      | some a =>
        rw [tryGetPage_of_frame (hext₁.frame _ _ a hk)] at hcall₂
        cases hcall₂
    · have htp := hext₂.frame target 0 targetPage (hres₁ targetPage rfl)
      obtain ⟨hframes₃, hext₃⟩ := hframes₂.write htp
        (update sys₂.ram.mem (idxFromAddr targetPage)
          (sys₂.ram.mem (idxFromAddr srcPage))) fun i hi => update_of_ne hi _ _
      dsimp only
      rw [copyBytes_page]
      refine ⟨_, _, A₂, rfl, hframes₃, (hext.mono hsub).trans hext₃, .inr (.inr ?_)⟩
      rw [content_of_frame (hext₃.frame _ _ _ htp), ← hext.content _ _ id,
        content_of_frame (hres₂ srcPage rfl)]
      exact update_self _ _ _

/-! ### The page of a fault -/

/-- The page that a fault installs: that of the private copy, or that of the mapped object. -/
def faultPage (resolved : ResolvedFault ObjectRef) (cowObject : Option ObjectRef) : ℕ × ℕ :=
  cowObject.elim (resolved.object.id, resolved.objectPage) fun o => (o.id, 0)

/-- What the second part of the handler hands to the last part. -/
structure PageReady (sys sys' : System) (new : ℕ) (resolved : ResolvedFault ObjectRef)
    (cowObject : Option ObjectRef) (phys : PhysAddr) : Prop where
  cow : cowObject = if resolved.cowWrite then some ⟨new, .normal⟩ else none
  frame : sys'.frame (faultPage resolved cowObject).1 (faultPage resolved cowObject).2 = some phys
  copied : resolved.cowWrite → resolved.objectPage < 2 ^ 52 →
    sys'.content new 0 = sys.content resolved.object.id resolved.objectPage

omit htotal h in
lemma PageReady.isSome_cow {cowObject : Option ObjectRef} {phys : PhysAddr}
    (h : PageReady sys sys' new resolved cowObject phys) :
    cowObject.isSome = resolved.cowWrite := by
  rw [h.cow]
  cases resolved.cowWrite <;> rfl

lemma Frames.exists_privateCopy (hnew : sys.objects new = none)
    (ha : sys.frame resolved.object.id resolved.objectPage = some a) (hcow : resolved.cowWrite) :
    ∃ res sys' A', sys.privateCopy new resolved = some (res, sys') ∧ Frames total len sys' A' ∧
      Extends {(new, 0)} sys sys' ∧
      ∀ cowObject phys, res = some (cowObject, phys) →
        PageReady sys sys' new resolved cowObject phys := by
  have hext₀ := extends_newObject hnew
  have halive : (sys.objects resolved.object.id).isSome :=
    isSome_of_isSome_bind (isSome_of_eq_some ha)
  obtain ⟨res₁, sys₁, A₁, hcall₁, hframes₁, hext₁, hres₁⟩ :=
    (h.newObject hnew physPager).exists_copy htotal new resolved.object.id
      (resolved.objectPage * pageSize % 2 ^ 64)
      (update_self _ _ _) (hext₀.alive _ halive)
      (by rw [pageSize]; omega) (Nat.mod_lt _ (by decide))
  obtain ⟨res₂, sys₂, A₂, hcall₂, hframes₂, hext₂, hres₂⟩ :=
    hframes₁.exists_tryGetPage htotal (hext₁.alive new
      (by rw [System.newObject, objects_setObject, if_pos rfl]; rfl)) 0
  have hsub : (∅ : Set (ℕ × ℕ)) ⊆ {(new, 0)} := empty_subset _
  have hext : Extends {(new, 0)} sys sys₁ := hext₀.trans hext₁
  simp only [privateCopy, hcall₁, bind_eq_bind, bind_some]
  cases res₁ with
  | error e => exact ⟨none, sys₁, A₁, rfl, hframes₁, hext, by rintro _ _ ⟨⟩⟩
  | ok n =>
    simp only [hcall₂]
    have hext' : Extends {(new, 0)} sys sys₂ := hext.trans (hext₂.mono hsub)
    rcases res₂ with e | _ | phys
    · exact ⟨none, sys₂, A₂, rfl, hframes₂, hext', by rintro _ _ ⟨⟩⟩
    · exact ⟨none, sys₂, A₂, rfl, hframes₂, hext', by rintro _ _ ⟨⟩⟩
    · refine ⟨_, sys₂, A₂, rfl, hframes₂, hext', fun cowObject phys' heq => ?_⟩
      obtain ⟨rfl, rfl⟩ := Prod.mk.inj (some.inj heq)
      refine ⟨(if_pos hcow).symm, hres₂ phys rfl, fun _ hpage => ?_⟩
      have hindex : resolved.objectPage * pageSize % 2 ^ 64 / pageSize = resolved.objectPage := by
        rw [Nat.mod_eq_of_lt (by rw [pageSize]; omega), Nat.mul_div_cancel _ (by decide)]
      rw [hindex, frame_newObject hnew, ha] at hres₁
      obtain ⟨e, he⟩ | hnone | hcontent := hres₁
      · cases he
      · cases hnone
      · have hne : (resolved.object.id, resolved.objectPage) ∉ ({(new, 0)} : Set (ℕ × ℕ)) := by
          intro heq
          rw [(Prod.mk.inj heq).1, hnew] at halive
          cases halive
        rw [hext₂.content _ _ id, hcontent, hext₀.content _ _ hne]

/-- The second part of the handler returns. -/
lemma Frames.exists_pageIn (hnew : sys.objects new = none)
    (halive : (sys.objects resolved.object.id).isSome) :
    ∃ res sys' A', sys.pageIn new resolved = some (res, sys') ∧ Frames total len sys' A' ∧
      Extends {(new, 0)} sys sys' ∧
      ∀ cowObject phys, res = some (cowObject, phys) →
        PageReady sys sys' new resolved cowObject phys := by
  obtain ⟨res₁, sys₁, A₁, hcall₁, hframes₁, hext₁, hres₁⟩ :=
    h.exists_tryGetPage htotal halive resolved.objectPage
  have hext : Extends {(new, 0)} sys sys₁ := hext₁.mono (empty_subset _)
  simp only [pageIn, hcall₁, bind_eq_bind]
  match res₁, hres₁ with
  | .error e, _ => exact ⟨none, sys₁, A₁, rfl, hframes₁, hext, nofun⟩
  | .ok none, _ => exact ⟨none, sys₁, A₁, rfl, hframes₁, hext, nofun⟩
  | .ok (some srcPhys), hres₁ =>
    have hsrc := hres₁ srcPhys rfl
    split_ifs with hcow
    · have hnew₁ : sys₁.objects new = none := hext₁.fresh new hnew fun _ => id
      obtain ⟨res, sys', A', hcall, hframes, hext', hready⟩ :=
        hframes₁.exists_privateCopy htotal hnew₁ hsrc hcow
      refine ⟨res, sys', A', hcall, hframes, hext.trans hext', fun cowObject phys hres => ?_⟩
      obtain ⟨hc, hframe, hcopied⟩ := hready cowObject phys hres
      exact ⟨hc, hframe, fun _ hpage => (hcopied hcow hpage).trans (hext₁.content _ _ id)⟩
    · refine ⟨_, sys₁, A₁, rfl, hframes₁, hext, fun cowObject phys heq => ?_⟩
      obtain ⟨rfl, rfl⟩ := Prod.mk.inj (some.inj heq)
      exact ⟨(if_neg hcow).symm, hsrc, fun hcow' => absurd hcow' hcow⟩

/-! ### Pages are given back -/

omit htotal

/-- The owners give up the frames in `S`. -/
lemma Frames.give (hpmm : Pmm.Inv total len sys'.ram.pmm (A \ S))
    (howned : ∀ owner, sys'.owned owner ⊆ sys.owned owner)
    (hS : ∀ owner, Disjoint (sys'.owned owner) S)
    (hobjects : ∀ o addr size, sys'.objects o = some (.buffer addr size) →
      sys.objects o = some (.buffer addr size)) : Frames total len sys' (A \ S) :=
  ⟨hpmm, h.owns.give howned hS, fun o addr size ho =>
    h.buffers o addr size (hobjects o addr size ho)⟩

/-- The frames of the pages of an object from `count` on. -/
def tailFrames (sys : System) (o count : ℕ) : Set ℕ :=
  {i | ∃ k a, count ≤ k ∧ sys.frame o k = some a ∧ idxFromAddr a = i}

/-- The pages of an object from `count` on are gone, together with their frames. -/
lemma Frames.dropTail {count : ℕ}
    (hpmm : Pmm.Inv total len sys'.ram.pmm (A \ sys.tailFrames o count))
    (hframe : ∀ o' k, sys'.frame o' k = if o' = o ∧ count ≤ k then none else sys.frame o' k)
    (hkernel : sys'.kernel = sys.kernel)
    (hobjects : ∀ o addr size, sys'.objects o = some (.buffer addr size) →
      sys.objects o = some (.buffer addr size)) :
    Frames total len sys' (A \ sys.tailFrames o count) := by
  refine h.give hpmm (fun owner => ?_) (fun owner => ?_) hobjects
  · cases owner with
    | page o' k =>
      rintro i ⟨a, ha, rfl⟩
      rw [hframe] at ha
      split_ifs at ha
      exact ⟨a, ha, rfl⟩
    | kernel n =>
      simp only [owned, hkernel]
      exact Subset.rfl
  · refine disjoint_left.mpr fun i hi htail => ?_
    obtain ⟨k, a, hk, ha, rfl⟩ := htail
    cases owner with
    | page o' k' =>
      obtain ⟨b, hb, heq⟩ := hi
      rw [hframe] at hb
      split_ifs at hb with hcut
      obtain ⟨rfl, rfl⟩ := h.inj hb ha heq
      exact hcut ⟨rfl, hk⟩
    | kernel n =>
      simp only [owned, hkernel] at hi
      have := h.owns.eq_of_mem (i := .kernel n) (j := .page o k) hi ⟨a, ha, rfl⟩
      cases this

include htotal

/-- The page index at which a file of `length` bytes ends. -/
def endPage (length : ℕ) : ℕ := (length + (pageSize - 1)) / pageSize

lemma Frames.exists_truncate (ho : sys.objects o = some (.paged cache)) (length : ℕ) :
    ∃ sys', sys.truncate o length = some sys' ∧
      (length % pageSize = 0 ∨ sys.frame o (length / pageSize) = none →
        sys'.ram.mem = sys.ram.mem) ∧
      Frames total len sys' (A \ sys.tailFrames o (endPage length)) ∧
      (∀ o' k, sys'.frame o' k =
        if o' = o ∧ endPage length ≤ k then none else sys.frame o' k) ∧
      (∀ o', (sys'.objects o').isSome = (sys.objects o').isSome) ∧
      sys'.spaces = sys.spaces ∧ sys'.faults = sys.faults := by
  have hold := frame_of_paged ho
  obtain ⟨cache', r', hcall, hmem, hframe, hinv⟩ :=
    PagedObject.exists_truncate htotal h.pmm (h.holds ho) length
  simp only [← hold] at hmem hinv
  have hframe' : ∀ o' k, (setObject { sys with ram := r' } o (.paged cache')).frame o' k =
      if o' = o ∧ endPage length ≤ k then none else sys.frame o' k := by
    intro o' k
    rw [frame_setObject]
    rcases eq_or_ne o' o with rfl | heq
    · rw [if_pos rfl, MemObject.frame, hframe, hold]
      by_cases hk : k < endPage length
      · exact (if_pos hk).trans (if_neg fun hcut => absurd hk (not_lt.mpr hcut.2)).symm
      · exact (if_neg hk).trans (if_pos ⟨rfl, not_lt.mp hk⟩).symm
    · rw [if_neg heq, if_neg fun hcut => heq hcut.1]
  refine ⟨setObject { sys with ram := r' } o (.paged cache'), ?_, hmem,
    h.dropTail hinv hframe' rfl fun o' addr size hm => ?_, hframe', fun o' => ?_, rfl, rfl⟩
  · simp only [truncate, ho, hcall, bind_eq_bind, bind_some]
  · rw [objects_setObject] at hm
    split_ifs at hm
    · cases hm
    · exact hm
  · rw [objects_setObject]
    split_ifs with heq
    · rw [heq, ho]
      rfl
    · rfl

omit htotal h in
lemma bufferPages_iff (size : Usize) (k : ℕ) :
    k < MemObject.bufferPages size ↔ k * pageSize < size.toNat := by
  rw [bufferPages, pageSize]
  omega

omit htotal h in
/-- The frames of a buffer are consecutive. -/
lemma idxFromAddr_add {addr : PhysAddr} (hk : idxFromAddr addr + k < 2 ^ 40) :
    idxFromAddr (addr + BitVec.ofNat 64 (k * pageSize)) = idxFromAddr addr + k := by
  simp only [idxFromAddr, pageSize] at hk ⊢
  rw [BitVec.toNat_add, BitVec.toNat_ofNat]
  omega

/-- Dropping an object gives back all its frames. -/
lemma Frames.exists_drop {m : MemObject} (hm : sys.objects o = some m) :
    ∃ r', m.drop sys.ram = some r' ∧ Pmm.Inv total len r'.pmm (A \ sys.tailFrames o 0) := by
  have hframe : ∀ k, sys.frame o k = m.frame k := fun k => by
    rw [frame, hm]
    rfl
  cases m with
  | paged cache =>
    have hset : frameSet cache.frames = sys.tailFrames o 0 := by
      ext i
      constructor
      · rintro ⟨a, ha, rfl⟩
        obtain ⟨x, hx, rfl⟩ := List.mem_map.mp ha
        exact ⟨x.1, x.2, Nat.zero_le _,
          (hframe x.1).trans (PagedObject.frame_eq_some.mpr hx), rfl⟩
      · rintro ⟨k, a, -, ha, rfl⟩
        exact ⟨a, List.mem_map.mpr ⟨(k, a), PagedObject.frame_eq_some.mp ((hframe k).symm.trans ha),
          rfl⟩, rfl⟩
    obtain ⟨r', hr', hinv, -⟩ :=
      PagedObject.exists_deallocAll htotal h.pmm (h.holds hm) (List.Sublist.refl _)
    exact ⟨r', hr', hset ▸ hinv⟩
  | buffer addr size =>
    have hset : pageRange addr (bufferPages size) = sys.tailFrames o 0 := by
      ext i
      constructor
      · rintro ⟨hlo, hhi⟩
        obtain ⟨k, rfl⟩ := Nat.exists_eq_add_of_le hlo
        have hk : k < bufferPages size := by omega
        refine ⟨k, _, Nat.zero_le _, ?_, idxFromAddr_add (h.buffers o addr size hm k hk)⟩
        rw [hframe, MemObject.frame]
        exact if_pos ((bufferPages_iff size k).mp hk)
      · rintro ⟨k, a, -, ha, rfl⟩
        rw [hframe, MemObject.frame] at ha
        split_ifs at ha with hlt
        have hk := (bufferPages_iff size k).mpr hlt
        cases ha
        rw [idxFromAddr_add (h.buffers o addr size hm k hk)]
        exact ⟨Nat.le_add_right _ _, Nat.add_lt_add_left hk _⟩
    have hsub : pageRange addr (bufferPages size) ⊆ A := by
      rw [hset]
      rintro i ⟨k, a, -, ha, rfl⟩
      exact h.mem ha
    obtain ⟨p, hp, hinv⟩ := h.pmm.dealloc htotal hsub
    exact ⟨{ sys.ram with pmm := p }, by rw [drop, hp]; rfl, hset ▸ hinv⟩

omit htotal h in
lemma frame_removeObject (sys : System) (ram : Ram) (o o' k : ℕ) :
    (removeObject { sys with ram } o).frame o' k = if o' = o then none else sys.frame o' k := by
  rw [frame, objects_removeObject]
  split_ifs <;> rfl

lemma Frames.exists_dropObject (ho : (sys.objects o).isSome) :
    ∃ r', sys.dropObject o = some (removeObject { sys with ram := r' } o) ∧
      Frames total len (removeObject { sys with ram := r' } o) (A \ sys.tailFrames o 0) := by
  obtain ⟨m, hm⟩ := isSome_iff_exists.mp ho
  obtain ⟨r', hr', hinv⟩ := h.exists_drop htotal hm
  refine ⟨r', ?_, h.dropTail hinv (fun o' k => ?_) rfl fun o' addr size hm => ?_⟩
  · simp only [dropObject, hm, hr', bind_eq_bind, bind_some]
  · rw [frame_removeObject]
    simp
  · rw [objects_removeObject] at hm
    split_ifs at hm
    exact hm

/-! ### Other allocations -/

omit htotal h in
lemma allocPages_cases {r : Ram} (h : Pmm.Inv total len r.pmm A) (pages : Usize)
    (flags : AllocFlags) :
    r.allocPages pages flags = some (.error .allocError, r) ∨
      ∃ addr r', r.allocPages pages flags = some (.ok addr, r') ∧
        Disjoint (pageRange addr pages.toNat) A ∧
        Pmm.Inv total len r'.pmm (A ∪ pageRange addr pages.toNat) := by
  rcases h.alloc pages flags with herr | ⟨addr, p, hok, -, hd, hinv⟩
  · exact .inl (by simp only [Ram.allocPages, herr]; rfl)
  · exact .inr ⟨addr, _, by simp only [Ram.allocPages, hok]; rfl, hd, hinv⟩

omit htotal h in
lemma owned_setKernel (sys : System) (ram : Ram) (n : ℕ) (e : Option (PhysAddr × Usize)) (n' : ℕ) :
    (setKernel { sys with ram } n e).owned (.kernel n') =
      if n' = n then {i | ∃ x, e = some x ∧ i ∈ pageRange x.1 x.2.toNat}
      else sys.owned (.kernel n') := by
  simp only [owned, setKernel, update_apply]
  split_ifs <;> rfl

lemma Frames.exists_kernelDealloc (hn : (sys.kernel n).isSome) :
    ∃ ram A', sys.kernelDealloc n = some (setKernel { sys with ram } n none) ∧
      Frames total len (setKernel { sys with ram } n none) A' := by
  obtain ⟨⟨addr, pages⟩, hn⟩ := isSome_iff_exists.mp hn
  have howned : sys.owned (.kernel n) = pageRange addr pages.toNat := by
    simp [owned, hn]
  obtain ⟨p, hp, hinv⟩ := h.pmm.dealloc htotal (howned ▸ h.owns.subset (.kernel n))
  refine ⟨⟨p, sys.ram.mem⟩, _, ?_, h.give hinv (fun owner => ?_) (fun owner => ?_) fun _ _ _ => id⟩
  · simp only [kernelDealloc, hn, hp, bind_eq_bind, bind_some]
  · cases owner with
    | page o k => exact Subset.rfl
    | kernel n' =>
      rw [owned_setKernel]
      split_ifs
      · simp
      · exact Subset.rfl
  · rw [← howned]
    cases owner with
    | page o k => exact h.owns.disjoint (i := .page o k) nofun
    | kernel n' =>
      rw [owned_setKernel]
      split_ifs with heq
      · simp
      · exact h.owns.disjoint fun hown => heq (by cases hown; rfl)

omit htotal

/-- Owners take the frames in `S`. -/
lemma Frames.take (hpmm : Pmm.Inv total len sys'.ram.pmm (A ∪ S)) (hd : Disjoint S A)
    (new : Owner → Set ℕ) (hsub : ∀ owner, sys'.owned owner ⊆ sys.owned owner ∪ new owner)
    (hnew : ∀ owner, new owner ⊆ S) (hpair : Pairwise fun i j => Disjoint (new i) (new j))
    (hbuffers : ∀ o addr size, sys'.objects o = some (.buffer addr size) →
      ∀ k < MemObject.bufferPages size, idxFromAddr addr + k < 2 ^ 40) :
    Frames total len sys' (A ∪ S) := by
  refine ⟨hpmm, h.owns.take hsub (fun owner => ?_) (fun owner => ?_) hpair, hbuffers⟩
  · exact (hsub owner).trans (union_subset_union (h.owns.subset owner) (hnew owner))
  · exact hd.symm.mono_right (hnew owner)

lemma Frames.exists_kernelAlloc (hn : sys.kernel n = none) (pages : Usize) (flags : AllocFlags) :
    ∃ ram e A', sys.kernelAlloc n pages flags = some (setKernel { sys with ram } n e) ∧
      Frames total len (setKernel { sys with ram } n e) A' := by
  rcases allocPages_cases h.pmm pages flags with herr | ⟨addr, r', hok, hd, hinv⟩
  · have hself : setKernel { sys with ram := sys.ram } n none = sys := by
      rw [setKernel, ← hn, update_eq_self]
    refine ⟨sys.ram, none, A, ?_, hself.symm ▸ h⟩
    simp only [kernelAlloc, herr, bind_eq_bind, bind_some, hself]
  · let new : Owner → Set ℕ
      | .page _ _ => ∅
      | .kernel n' => if n' = n then pageRange addr pages.toNat else ∅
    refine ⟨r', some (addr, pages), _, ?_, h.take hinv hd new ?_ ?_ ?_ h.buffers⟩
    · simp only [kernelAlloc, hok, bind_eq_bind, bind_some]
    · rintro (⟨o, k⟩ | n')
      · exact subset_union_left
      · rw [owned_setKernel]
        split_ifs with heq
        · simp [new, heq]
        · exact subset_union_left
    · rintro (⟨o, k⟩ | n')
      · exact empty_subset _
      · simp only [new]
        split_ifs
        · exact Subset.rfl
        · exact empty_subset _
    · rintro (⟨o, k⟩ | n₁) (⟨o', k'⟩ | n₂) hne
      case kernel.kernel =>
        simp only [new]
        split_ifs with h₁ h₂
        · exact absurd (by rw [h₁, h₂]) hne
        all_goals simp
      all_goals simp [new]

omit h in
/-- The frames that are allocated have metadata. -/
lemma lt_len {p : Pmm} (htotal : total ⊆ Iio len) (h : Pmm.Inv total len p A) {i : ℕ}
    (hi : i ∈ A) : i < len := htotal (h.subset hi)

lemma Frames.exists_newBuffer (htotal : total ⊆ Iio len) (hlen : len ≤ 2 ^ 40) (o : ℕ)
    (size : Usize) :
    sys.newBuffer o size = some (.error .enomem, sys) ∨
      ∃ m ram A', sys.newBuffer o size = some (.ok (), setObject { sys with ram } o m) ∧
        Frames total len (setObject { sys with ram } o m) A' := by
  rcases allocPages_cases h.pmm (BitVec.ofNat 64 (bufferPages size)) {} with
    herr | ⟨addr, r', hok, hd, hinv⟩
  · exact .inl (by simp only [newBuffer, herr, bind_eq_bind, bind_some])
  · have hpages : (BitVec.ofNat 64 (bufferPages size)).toNat =
        bufferPages size := by
      rw [BitVec.toNat_ofNat]
      rw [bufferPages, pageSize]
      omega
    rw [hpages] at hd hinv
    have hbound : ∀ k < bufferPages size, idxFromAddr addr + k < 2 ^ 40 := by
      intro k hk
      refine lt_of_lt_of_le (lt_len htotal hinv (.inr ⟨Nat.le_add_right _ _, ?_⟩)) hlen
      exact Nat.add_lt_add_left hk _
    let new : Owner → Set ℕ
      | .page o' k => {i | o' = o ∧ k < bufferPages size ∧ idxFromAddr addr + k = i}
      | .kernel _ => ∅
    refine .inr ⟨.buffer addr size, r', _, ?_, h.take hinv hd new ?_ ?_ ?_ ?_⟩
    · simp only [newBuffer, hok, bind_eq_bind, bind_some]
    · rintro (⟨o', k⟩ | n)
      · rintro i ⟨a, ha, rfl⟩
        rw [frame_setObject] at ha
        split_ifs at ha with heq
        · rw [MemObject.frame] at ha
          split_ifs at ha with hlt
          cases ha
          have hk := (bufferPages_iff size k).mpr hlt
          exact .inr ⟨heq, hk, (idxFromAddr_add (hbound k hk)).symm⟩
        · exact .inl ⟨a, ha, rfl⟩
      · exact subset_union_left
    · rintro (⟨o', k⟩ | n)
      · rintro i ⟨-, hk, rfl⟩
        exact ⟨Nat.le_add_right _ _, Nat.add_lt_add_left hk _⟩
      · exact empty_subset _
    · rintro (⟨o₁, k₁⟩ | n₁) (⟨o₂, k₂⟩ | n₂) hne
      · refine disjoint_left.mpr ?_
        rintro i ⟨rfl, -, rfl⟩ ⟨rfl, -, heq⟩
        exact hne (by rw [Nat.add_left_cancel heq])
      all_goals simp [new]
    · intro o' addr' size' ho'
      rw [objects_setObject] at ho'
      split_ifs at ho'
      · cases ho'
        exact hbound
      · exact h.buffers o' addr' size' ho'

end

end System

end Zinnia
