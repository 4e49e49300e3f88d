import Zinnia.Memory.Cache
import Zinnia.Memory.Pmm.Properties

/-!
# Properties of page caches

Along every call the frames of the cached pages are allocated and belong to one page each. `A` is
the set of the allocated frames.
-/

namespace Zinnia

open Function List Option Set Prod

/-- The frames of a list of addresses. -/
def frameSet (pages : List PhysAddr) : Set ℕ := {i | ∃ a ∈ pages, idxFromAddr a = i}

lemma frameSet_nil : frameSet [] = ∅ := by simp [frameSet]

lemma frameSet_cons (a : PhysAddr) (l : List PhysAddr) :
    frameSet (a :: l) = {idxFromAddr a} ∪ frameSet l := by
  ext i
  simp [frameSet, eq_comm]

lemma frameSet_append (l l' : List PhysAddr) : frameSet (l ++ l') = frameSet l ∪ frameSet l' := by
  ext i
  simp [frameSet, or_and_right, exists_or]

/-- Different frames outside `A`. -/
structure Fresh (A : Set ℕ) (pages : List PhysAddr) : Prop where
  aligned : ∀ a ∈ pages, a.toNat % pageSize = 0
  notMem : ∀ a ∈ pages, idxFromAddr a ∉ A
  nodup : (pages.map idxFromAddr).Nodup

lemma Fresh.nil (A : Set ℕ) : Fresh A [] := ⟨by simp, by simp, by simp⟩

variable {A : Set ℕ} {pages : List PhysAddr}

lemma Fresh.disjoint (h : Fresh A pages) : Disjoint A (frameSet pages) := by
  refine disjoint_right.mpr ?_
  rintro _ ⟨a, ha, rfl⟩
  exact h.notMem a ha

lemma Fresh.sublist {pages' : List PhysAddr} (h : Fresh A pages) (hsub : pages'.Sublist pages) :
    Fresh A pages' :=
  ⟨fun a ha => h.aligned a (hsub.subset ha), fun a ha => h.notMem a (hsub.subset ha),
    h.nodup.sublist (hsub.map _)⟩

/-- One more frame. -/
lemma Fresh.concat (h : Fresh A pages) {a : PhysAddr} (halign : a.toNat % pageSize = 0)
    (ha : idxFromAddr a ∉ A ∪ frameSet pages) : Fresh A (pages ++ [a]) := by
  refine ⟨forall_mem_append.mpr ⟨h.aligned, forall_mem_singleton.mpr halign⟩,
    forall_mem_append.mpr ⟨h.notMem, forall_mem_singleton.mpr fun hA => ha (.inl hA)⟩, ?_⟩
  rw [map_append, nodup_append]
  refine ⟨h.nodup, nodup_singleton _, ?_⟩
  intro i hi j hj hij
  obtain ⟨b, hb, rfl⟩ := List.mem_map.mp hi
  rw [List.mem_singleton.mp hj] at hij
  exact ha (.inr ⟨b, hb, hij⟩)

section

variable {total : Set ℕ} {len : ℕ} (htotal : total ⊆ Set.Iio len) {A : Set ℕ} {r r' : Ram}
  {pages : List PhysAddr}

/-! ### Frames -/

namespace Ram

lemma alloc_cases (h : Pmm.Inv total len r.pmm A) :
    r.alloc = some (.error .allocError, r) ∨
      ∃ a r', r.alloc = some (.ok a, r') ∧ a.toNat % pageSize = 0 ∧ idxFromAddr a ∉ A ∧
        Pmm.Inv total len r'.pmm (A ∪ {idxFromAddr a}) ∧
        r'.mem = update r.mem (idxFromAddr a) fun _ => 0 := by
  rcases h.alloc 1 {} with herr | ⟨a, p, hok, halign, hd, hinv⟩
  · exact .inl (by simp only [alloc, herr]; rfl)
  · rw [show (1 : Usize).toNat = 1 from rfl, pageRange_one] at hd hinv
    exact .inr ⟨a, _, by simp only [alloc, hok]; rfl, halign,
      disjoint_singleton_left.mp hd, hinv, rfl⟩

include htotal

lemma exists_dealloc (h : Pmm.Inv total len r.pmm A) {a : PhysAddr} (ha : idxFromAddr a ∈ A) :
    ∃ r', r.dealloc a = some r' ∧ Pmm.Inv total len r'.pmm (A \ {idxFromAddr a}) ∧
      r'.mem = r.mem := by
  obtain ⟨p, hp, hinv⟩ := h.dealloc htotal (show pageRange a 1 ⊆ A by simpa [pageRange_one])
  rw [pageRange_one] at hinv
  exact ⟨{ r with pmm := p }, by simp [dealloc, hp], hinv, rfl⟩

lemma exists_deallocAll (h : Pmm.Inv total len r.pmm A) {l : List PhysAddr}
    (hsub : frameSet l ⊆ A) (hnodup : (l.map idxFromAddr).Nodup) :
    ∃ r', r.deallocAll l = some r' ∧ Pmm.Inv total len r'.pmm (A \ frameSet l) ∧
      r'.mem = r.mem := by
  induction l generalizing r A with
  | nil => exact ⟨r, rfl, by simpa [frameSet_nil] using h, rfl⟩
  | cons a l ih =>
    obtain ⟨hnot, hnodup⟩ := List.nodup_cons.mp hnodup
    rw [frameSet_cons, union_subset_iff, singleton_subset_iff] at hsub
    obtain ⟨r₁, hr₁, hinv₁, hmem₁⟩ := exists_dealloc htotal h hsub.1
    have hsub₁ : frameSet l ⊆ A \ {idxFromAddr a} :=
      subset_sdiff_singleton hsub.2 fun hmem => hnot (List.mem_map.mpr hmem)
    obtain ⟨r', hr', hinv', hmem'⟩ := ih hinv₁ hsub₁ hnodup
    refine ⟨r', ?_, ?_, hmem'.trans hmem₁⟩
    · rw [deallocAll, foldlM_cons, hr₁]
      exact hr'
    · rwa [frameSet_cons, ← sdiff_sdiff]

end Ram

/-! ### Pagers -/

/-- `r'` has the frames `pages` in addition to `A`. -/
structure Batch (total : Set ℕ) (len : ℕ) (A : Set ℕ) (r : Ram) (pages : List PhysAddr) (r' : Ram) :
    Prop where
  fresh : Fresh A pages
  inv : Pmm.Inv total len r'.pmm (A ∪ frameSet pages)
  mem : ∀ i ∈ A, r'.mem i = r.mem i

lemma Batch.nil (h : Pmm.Inv total len r.pmm A) : Batch total len A r [] r :=
  ⟨Fresh.nil A, by simpa [frameSet_nil] using h, fun _ _ => rfl⟩

/-- A batch after a call that has left no frames behind. -/
lemma Batch.of_nil {r₁ r₂ : Ram} (h : Batch total len A r [] r₁)
    (h' : Batch total len A r₁ pages r₂) : Batch total len A r pages r₂ :=
  ⟨h'.fresh, h'.inv, fun i hi => (h'.mem i hi).trans (h.mem i hi)⟩

lemma Batch.perm {pages' : List PhysAddr} (h : Batch total len A r pages r')
    (hperm : pages.Perm pages') : Batch total len A r pages' r' := by
  have hset : frameSet pages' = frameSet pages := by
    ext i
    simp only [frameSet, hperm.mem_iff]
  refine ⟨⟨fun a ha => h.fresh.aligned a (hperm.mem_iff.mpr ha), fun a ha =>
    h.fresh.notMem a (hperm.mem_iff.mpr ha), (hperm.map _).nodup_iff.mp h.fresh.nodup⟩, ?_, h.mem⟩
  rw [hset]
  exact h.inv

lemma Batch.inv_nil (h : Batch total len A r [] r') : Pmm.Inv total len r'.pmm A := by
  simpa [frameSet_nil] using h.inv

include htotal

/-- Some of the frames of a batch can be given back. -/
lemma Batch.exists_deallocAll {pages' rest : List PhysAddr} (h : Batch total len A r pages r')
    (hpages : pages = pages' ++ rest) :
    ∃ r'', r'.deallocAll rest = some r'' ∧ Batch total len A r pages' r'' := by
  subst hpages
  have hnodup := List.nodup_append.mp (map_append ▸ h.fresh.nodup)
  obtain ⟨r'', hr'', hinv, hmem⟩ := Ram.exists_deallocAll htotal h.inv
    (by rw [frameSet_append]; exact fun i hi => .inr (.inr hi)) hnodup.2.1
  refine ⟨r'', hr'', h.fresh.sublist (sublist_append_left _ _), ?_, ?_⟩
  · convert hinv using 1
    have hrest := (h.fresh.sublist (sublist_append_right pages' rest)).disjoint
    have hsides : Disjoint (frameSet pages') (frameSet rest) := by
      refine disjoint_left.mpr ?_
      rintro _ ⟨a, ha, rfl⟩ ⟨b, hb, heq⟩
      exact hnodup.2.2 _ (List.mem_map_of_mem ha) _ (List.mem_map_of_mem hb) heq.symm
    rw [frameSet_append, ← union_assoc, union_sdiff_right,
      (disjoint_union_left.mpr ⟨hrest, hsides⟩).sdiff_eq_left]
  · intro i hi
    rw [hmem]
    exact h.mem i hi

lemma Pager.exists_allocPages (count : ℕ) (h : Batch total len A r pages r') :
    ∃ res r'', allocPages count pages r' = some (res, r'') ∧
      Batch total len A r (res.toOption.getD []) r'' := by
  induction count generalizing pages r' with
  | zero => exact ⟨.ok pages, r', rfl, h⟩
  | succ count ih =>
    rcases Ram.alloc_cases h.inv with herr | ⟨a, r₁, hok, halign, hnot, hinv, hmem⟩
    · obtain ⟨r'', hr'', hbatch⟩ := h.exists_deallocAll htotal (nil_append pages).symm
      refine ⟨.error .outOfMemory, r'', ?_, hbatch⟩
      simp only [allocPages, herr, hr'', bind_eq_bind, bind_some]
    · have hbatch : Batch total len A r (pages ++ [a]) r₁ := by
        refine ⟨h.fresh.concat halign hnot, ?_, fun i hi => ?_⟩
        · rw [frameSet_append, frameSet_cons, frameSet_nil, union_empty, ← union_assoc]
          exact hinv
        · rw [hmem, update_of_ne fun heq : i = idxFromAddr a => hnot (.inl (heq ▸ hi))]
          exact h.mem i hi
      obtain ⟨res, r'', hr'', hres⟩ := ih hbatch
      exact ⟨res, r'', by simpa only [allocPages, hok, bind_eq_bind], hres⟩

omit htotal in
/-- Filling a batch writes the pages of the device to its frames, and to no others. -/
lemma Pager.fill_apply (source : Pager) (pages : List PhysAddr)
    (hnodup : (pages.map idxFromAddr).Nodup) (index : ℕ) (mem : ℕ → PageData) :
    (∀ i, i ∉ frameSet pages → source.fill index pages mem i = mem i) ∧
      ∀ j a, pages[j]? = some a →
        source.fill index pages mem (idxFromAddr a) = source.data (index + j) := by
  induction pages generalizing index mem with
  | nil => exact ⟨fun _ _ => rfl, by simp⟩
  | cons page pages ih =>
    obtain ⟨hnot, hnodup⟩ := List.nodup_cons.mp hnodup
    obtain ⟨hout, hin⟩ :=
      ih hnodup (index + 1) (update mem (idxFromAddr page) (source.data index))
    constructor
    · intro i hi
      rw [frameSet_cons, mem_union, not_or] at hi
      rw [fill, hout i hi.2, update_of_ne hi.1]
    · intro j a hj
      cases j with
      | zero =>
        obtain rfl : page = a := by simpa using hj
        have hpage : idxFromAddr page ∉ frameSet pages := fun ⟨b, hb, heq⟩ =>
          hnot (heq ▸ List.mem_map_of_mem hb)
        rw [fill, hout _ hpage, update_self, Nat.add_zero]
      | succ j =>
        rw [fill, hin j a (by simpa using hj), Nat.add_right_comm, Nat.add_assoc]

/-- The pages of a batch have the bytes of the device. -/
def Filled (source : Pager) (index : ℕ) (pages : List PhysAddr) (r : Ram) : Prop :=
  ∀ j a, pages[j]? = some a → r.mem (idxFromAddr a) = source.data (index + j)

omit htotal in
lemma Filled.nil (source : Pager) (index : ℕ) (r : Ram) : Filled source index [] r := by
  simp [Filled]

/-- A pager that leaks gets frames, and then cannot read. -/
def Pager.Loses (source : Pager) (index count : ℕ) (r : Ram) : Prop :=
  source.leaks ∧ source.filled index count = .error .ioError ∧
    ∃ pages r', allocPages (source.wanted index count) [] r = some (.ok pages, r') ∧ pages ≠ []

/-- The frames of the batch are taken, and one that is lost where the pager loses one. -/
lemma Pager.exists_tryGetPages (source : Pager) (index count : ℕ)
    (h : Pmm.Inv total len r.pmm A) :
    ∃ res r' lost, source.tryGetPages index count r = some (res, r') ∧
      Batch total len A r (res.toOption.getD [] ++ lost) r' ∧
      Filled source index (res.toOption.getD []) r' ∧
      (lost ≠ [] → res = .error .ioError) ∧ (lost ≠ [] ↔ source.Loses index count r) := by
  obtain ⟨res, r₁, hr₁, hbatch⟩ :=
    exists_allocPages htotal (source.wanted index count) (Batch.nil h)
  cases res with
  | error e =>
    refine ⟨.error e, r₁, [], by simp only [tryGetPages, hr₁, bind_eq_bind, bind_some],
      hbatch, Filled.nil _ _ _, nofun, iff_of_false (fun hne => hne rfl) ?_⟩
    rintro ⟨-, -, pages, r', hok, -⟩
    cases hr₁.symm.trans hok
  | ok pages =>
    cases hfilled : source.filled index count with
    | error e =>
      obtain ⟨lost, r₂, hlost, hr₂, hbatch₂⟩ : ∃ lost r₂,
          (lost ≠ [] ↔ (source.leaks ∧ e = .ioError) ∧ pages ≠ []) ∧
          r₁.deallocAll (if source.leaks ∧ e = .ioError then pages.dropLast else pages) = some r₂ ∧
          Batch total len A r lost r₂ := by
        split_ifs with hleak
        · rcases pages.eq_nil_or_concat with rfl | ⟨front, last, rfl⟩
          · exact ⟨[], r₁, by simp, rfl, hbatch⟩
          · rw [concat_eq_append] at hbatch ⊢
            obtain ⟨r₂, hr₂, hbatch₂⟩ :=
              (hbatch.perm perm_append_comm).exists_deallocAll htotal rfl
            exact ⟨[last], r₂, by simp [hleak], by rwa [dropLast_concat], hbatch₂⟩
        · obtain ⟨r₂, hr₂, hbatch₂⟩ := hbatch.exists_deallocAll htotal (nil_append _).symm
          exact ⟨[], r₂, iff_of_false (fun hne => hne rfl) fun hand => hleak hand.1, hr₂, hbatch₂⟩
      refine ⟨.error e, r₂, lost, ?_, hbatch₂, Filled.nil _ _ _, fun hne => ?_, ?_⟩
      · simp only [tryGetPages, hr₁, hfilled, bind_eq_bind]
        exact congrArg (bind · _) hr₂
      · rw [(hlost.mp hne).1.2]
      · rw [hlost, Loses, hfilled]
        simp [hr₁, and_assoc]
    | ok full =>
      obtain ⟨r₂, hr₂, hbatch₂⟩ :=
        hbatch.exists_deallocAll htotal (take_append_drop full pages).symm
      obtain ⟨hout, hin⟩ :=
        source.fill_apply (pages.take full) hbatch₂.fresh.nodup index r₂.mem
      refine ⟨.ok (pages.take full), ⟨r₂.pmm, source.fill index (pages.take full) r₂.mem⟩, [], ?_,
        (append_nil (pages.take full)).symm ▸ ⟨hbatch₂.fresh, hbatch₂.inv, fun i hi => ?_⟩, hin,
        nofun, iff_of_false (fun hne => hne rfl) fun hloses => ?_⟩
      · simp only [tryGetPages, hr₁, hfilled, bind_eq_bind]
        exact congrArg (bind · _) hr₂
      · refine (hout i fun hmem => ?_).trans (hbatch₂.mem i hi)
        exact disjoint_left.mp hbatch₂.fresh.disjoint hi hmem
      · cases hfilled.symm.trans hloses.2.1

/-! ### Page caches -/

namespace PagedObject

omit htotal

variable {o o' : PagedObject} {k : ℕ} {a : PhysAddr} {batch : List PhysAddr}

lemma frame_eq_some : o.frame k = some a ↔ (k, a) ∈ o.pages := by
  rw [frame, map_eq_some_iff]
  constructor
  · rintro ⟨⟨k', a'⟩, hfind, rfl⟩
    obtain rfl : k' = k := by simpa using find?_some hfind
    exact mem_of_find?_eq_some hfind
  · intro hmem
    have hsome : (o.pages.elems.find? (·.1 = k)).isSome :=
      List.find?_isSome.mpr ⟨(k, a), hmem, by simp⟩
    obtain ⟨⟨k', a'⟩, hfind⟩ := isSome_iff_exists.mp hsome
    obtain rfl : k' = k := by simpa using find?_some hfind
    have heq := BTreeSet.eq_of_key_eq (mem_of_find?_eq_some hfind) hmem rfl
    exact ⟨(k', a'), hfind, congrArg snd heq⟩

/-- Entering a page that is missing. -/
lemma frame_insert (hk : o.frame k = none) (a : PhysAddr) (j : ℕ) :
    frame { o with pages := o.pages.insert (k, a) } j = if j = k then some a else o.frame j := by
  have hnew : ∀ b ∈ o.pages, b.1 ≠ k := by
    rintro ⟨k', b⟩ hb rfl
    rw [frame_eq_some.mpr hb] at hk
    cases hk
  refine ext fun b => ?_
  rw [frame_eq_some, BTreeSet.mem_insert hnew]
  split_ifs with hj
  · subst hj
    constructor
    · rintro (heq | hmem)
      · rw [(Prod.mk.inj heq).2]
      · exact absurd rfl (hnew _ hmem)
    · intro hb
      exact .inl (by rw [some.inj hb])
  · rw [frame_eq_some]
    refine or_iff_right fun heq => hj (Prod.mk.inj heq).1

/-- The pages of an object that a call has added. The frames of `A'` are allocated afterwards. -/
structure PagedIn (total : Set ℕ) (len : ℕ) (A A' : Set ℕ) (r r' : Ram) (o o' : PagedObject) :
    Prop where
  inv : Pmm.Inv total len r'.pmm A'
  subset : A ⊆ A'
  keep : ∀ k a, o.frame k = some a → o'.frame k = some a
  fresh : ∀ k a, o'.frame k = some a → o.frame k = none →
    a.toNat % pageSize = 0 ∧ idxFromAddr a ∉ A ∧ idxFromAddr a ∈ A'
  inj : ∀ k k' a a', o'.frame k = some a → o'.frame k' = some a' → o.frame k = none →
    o.frame k' = none → idxFromAddr a = idxFromAddr a' → k = k'
  mem : ∀ i ∈ A, r'.mem i = r.mem i
  data : ∀ k a, o'.frame k = some a → o.frame k = none →
    r'.mem (idxFromAddr a) = o.source.data k
  source : o'.source = o.source

section

variable (h : Pmm.Inv total len r.pmm A)

include h

lemma PagedIn.refl (hframe : o'.frame = o.frame)
    (hsource : o'.source = o.source) : PagedIn total len A A r r o o' := by
  refine ⟨h, Subset.rfl, fun k a hk => hframe ▸ hk, ?_, ?_, fun _ _ => rfl, ?_, hsource⟩
  all_goals
    simp_all

include htotal

/-- The pager loses a frame, for the batch or for one page if there is no memory for a batch. -/
def Loses (o : PagedObject) (k count : ℕ) (r : Ram) : Prop :=
  o.source.Loses k count r ∨ 1 < count ∧ ∃ r',
    o.source.tryGetPages k count r = some (.error .outOfMemory, r') ∧ o.source.Loses k 1 r'

lemma exists_fetch (o : PagedObject) (k count : ℕ) :
    ∃ res r' lost, o.fetch k count r = some (res, r') ∧
      Batch total len A r (res.toOption.getD [] ++ lost) r' ∧
      Filled o.source k (res.toOption.getD []) r' ∧
      (lost ≠ [] → res = .error .eio) ∧ (lost ≠ [] ↔ o.Loses k count r) := by
  obtain ⟨res, r₁, lost, hr₁, hbatch, hfilled, hlost, hloses⟩ :=
    o.source.exists_tryGetPages htotal k count h
  -- without a second call
  have honce (hne : res ≠ .error .outOfMemory ∨ ¬ 1 < count) :
      lost ≠ [] ↔ o.Loses k count r := by
    rw [hloses, Loses, or_iff_left]
    rintro ⟨hcount, r', hr', -⟩
    cases hr₁.symm.trans hr'
    exact hne.elim (· rfl) (· hcount)
  cases res with
  | ok batch =>
    exact ⟨.ok batch, r₁, lost, by simp only [fetch, hr₁, bind_eq_bind, bind_some],
      hbatch, hfilled, fun hne => (nomatch hlost hne), honce (.inl nofun)⟩
  | error e =>
    cases e with
    | indexOutOfBounds =>
      exact ⟨.ok [], r₁, lost, by simp only [fetch, hr₁, bind_eq_bind, bind_some],
        hbatch, hfilled, fun hne => (nomatch hlost hne), honce (.inl nofun)⟩
    | ioError =>
      exact ⟨.error .eio, r₁, lost, by simp only [fetch, hr₁, bind_eq_bind]; rfl,
        hbatch, hfilled, fun _ => rfl, honce (.inl nofun)⟩
    | outOfMemory =>
      obtain rfl : lost = [] := not_not.mp fun hne => nomatch hlost hne
      simp only [fetch, hr₁, bind_eq_bind, bind_some]
      split_ifs with hcount
      · obtain ⟨res, r₂, lost, hr₂, hbatch₂, hfilled₂, hlost₂, hloses₂⟩ :=
          o.source.exists_tryGetPages htotal k 1 hbatch.inv_nil
        have htwice : lost ≠ [] ↔ o.Loses k count r := by
          rw [hloses₂, Loses, or_iff_right fun hfirst => hloses.mpr hfirst rfl]
          simp [hcount, hr₁]
        rw [hr₂]
        cases res with
        | ok batch =>
          exact ⟨.ok batch, r₂, lost, rfl, hbatch.of_nil hbatch₂, hfilled₂,
            fun hne => (nomatch hlost₂ hne), htwice⟩
        | error e =>
          refine ⟨.error e.toErrno, r₂, lost, rfl, hbatch.of_nil hbatch₂, hfilled₂, fun hne => ?_,
            htwice⟩
          cases hlost₂ hne
          rfl
      · exact ⟨.error .enomem, r₁, [], rfl, hbatch, hfilled, nofun, honce (.inr hcount)⟩

omit htotal h in
/-- A page of a batch is entered where no page is present. -/
lemma frame_enter (h : o.enter k batch r = some (o', r')) :
    o'.source = o.source ∧
      ∀ j, o'.frame j = (o.frame j).or (if k ≤ j then batch[j - k]? else none) := by
  induction batch generalizing o k r with
  | nil =>
    obtain ⟨rfl, -⟩ : o = o' ∧ r = r' := by simpa [enter] using h
    simp
  | cons page batch ih =>
    have hnext : ∀ j, k < j → (if k + 1 ≤ j then batch[j - (k + 1)]? else none) =
        if k ≤ j then (page :: batch)[j - k]? else none := fun j hj => by
      rw [if_pos (Nat.succ_le_of_lt hj), if_pos hj.le, ← getElem?_cons_succ,
        show j - (k + 1) + 1 = j - k by omega]
    cases hk : o.frame k with
    | some existing =>
      simp only [enter, hk, bind_eq_bind, bind_eq_some_iff] at h
      obtain ⟨r₁, -, h⟩ := h
      refine ⟨(ih h).1, fun j => ?_⟩
      rw [(ih h).2]
      rcases lt_trichotomy j k with hj | rfl | hj
      · rw [if_neg (by omega), if_neg (by omega)]
      · rw [hk, some_or, some_or]
      · rw [hnext j hj]
    | none =>
      simp only [enter, hk] at h
      refine ⟨(ih h).1, fun j => ?_⟩
      rw [(ih h).2, frame_insert hk]
      rcases lt_trichotomy j k with hj | rfl | hj
      · rw [if_neg hj.ne, if_neg (by omega), if_neg (by omega)]
      · simp [hk]
      · rw [if_neg hj.ne', hnext j hj]

omit htotal h in
lemma finish_eq (h : o.enter k batch r = some (o', r')) : o.finish k batch r =
    some (batch.head?.map fun page => (o.frame k).getD page, o', r') := by
  rw [finish, h]
  rfl

/-- The frames of a batch whose pages are present. -/
def surplus (o : PagedObject) (k : ℕ) (batch : List PhysAddr) : Set ℕ :=
  {i | ∃ j a, batch[j]? = some a ∧ idxFromAddr a = i ∧ (o.frame (k + j)).isSome}

omit htotal h in
lemma surplus_cons (k : ℕ) (page : PhysAddr) (batch : List PhysAddr) :
    o.surplus k (page :: batch) =
      {i | idxFromAddr page = i ∧ (o.frame k).isSome} ∪ o.surplus (k + 1) batch := by
  ext i
  rw [surplus, mem_ofPred, ← Nat.or_exists_add_one]
  simp only [surplus, getElem?_cons_zero, getElem?_cons_succ, some.injEq, exists_eq_left',
    Nat.add_zero, Nat.add_right_comm k, mem_union, mem_ofPred, Nat.add_assoc]

/-- A merge gives back the frames whose pages are present. -/
lemma exists_enter_surplus (o : PagedObject) (k : ℕ) (hsub : frameSet batch ⊆ A)
    (hnodup : (batch.map idxFromAddr).Nodup) :
    ∃ o' r', o.enter k batch r = some (o', r') ∧
      Pmm.Inv total len r'.pmm (A \ o.surplus k batch) ∧ r'.mem = r.mem := by
  induction batch generalizing o k r A with
  | nil => exact ⟨o, r, rfl, by simpa [surplus] using h, rfl⟩
  | cons page batch ih =>
    obtain ⟨hnot, hnodup⟩ := List.nodup_cons.mp hnodup
    rw [frameSet_cons, union_subset_iff, singleton_subset_iff] at hsub
    rw [surplus_cons]
    cases hk : o.frame k with
    | some existing =>
      obtain ⟨r₁, hr₁, hinv₁, hmem₁⟩ := Ram.exists_dealloc htotal h hsub.1
      have hsub₁ : frameSet batch ⊆ A \ {idxFromAddr page} :=
        subset_sdiff_singleton hsub.2 fun hmem => hnot (List.mem_map.mpr hmem)
      obtain ⟨o', r', hcall, hinv, hmem⟩ := ih hinv₁ o (k + 1) hsub₁ hnodup
      refine ⟨o', r', by simp [enter, hk, hr₁, hcall], ?_, hmem.trans hmem₁⟩
      simpa [sdiff_sdiff] using hinv
    | none =>
      obtain ⟨o', r', hcall, hinv, hmem⟩ :=
        ih h { o with pages := o.pages.insert (k, page) } (k + 1) hsub.2 hnodup
      have hsame : surplus { o with pages := o.pages.insert (k, page) } (k + 1) batch =
          o.surplus (k + 1) batch := by
        have hframe : ∀ j, frame { o with pages := o.pages.insert (k, page) } (k + 1 + j) =
            o.frame (k + 1 + j) := fun j => by rw [frame_insert hk, if_neg (by omega)]
        simp only [surplus, hframe]
      exact ⟨o', r', by simp [enter, hk, hcall], by simpa [hsame] using hinv, hmem⟩

omit htotal h in
/-- A frame of a batch is in one place of it. -/
lemma eq_of_idxFromAddr (hnodup : (batch.map idxFromAddr).Nodup) {i j : ℕ} {b : PhysAddr}
    (hi : batch[i]? = some a) (hj : batch[j]? = some b) (heq : idxFromAddr a = idxFromAddr b) :
    i = j := by
  obtain ⟨hlt, -⟩ := List.getElem?_eq_some_iff.mp hi
  refine (getElem?_inj (by simpa using hlt) hnodup).mp ?_
  simp only [getElem?_map, hi, hj, map_some, heq]

omit htotal h in
lemma mem_surplus {i : ℕ} (hnodup : (batch.map idxFromAddr).Nodup) (hi : batch[i]? = some a) :
    idxFromAddr a ∈ o.surplus k batch ↔ (o.frame (k + i)).isSome := by
  constructor
  · rintro ⟨j, b, hj, heq, hsome⟩
    rwa [← eq_of_idxFromAddr hnodup hj hi heq]
  · exact fun hsome => ⟨i, a, hi, rfl, hsome⟩

omit h in
/-- Entering a batch adds its pages where they are missing, and gives the other frames back. -/
lemma exists_enter (o : PagedObject) (k : ℕ) (hfresh : Fresh A batch)
    (h : Pmm.Inv total len r.pmm (A ∪ frameSet batch)) (hfilled : Filled o.source k batch r) :
    ∃ o' r' A', o.enter k batch r = some (o', r') ∧ PagedIn total len A A' r r' o o' := by
  obtain ⟨o', r', hcall, hinv, hmem⟩ :=
    exists_enter_surplus htotal h o k subset_union_right hfresh.nodup
  obtain ⟨hsource, hframe⟩ := frame_enter hcall
  -- a page that is new is a page of the batch
  have hnew : ∀ j a, o'.frame j = some a → o.frame j = none →
      ∃ i, j = k + i ∧ batch[i]? = some a := fun j a hj hnone => by
    rw [hframe, hnone, none_or, ite_none_right_eq_some] at hj
    exact ⟨j - k, by omega, hj.2⟩
  refine ⟨o', r', _, hcall, hinv, fun i hi => ⟨.inl hi, ?_⟩, fun j a hj => ?_, ?_, ?_,
    fun i _ => by rw [hmem], ?_, hsource⟩
  · rintro ⟨j, a, hj, rfl, -⟩
    exact hfresh.notMem a (mem_of_getElem? hj) hi
  · rw [hframe, hj, some_or]
  · intro j a hj hnone
    obtain ⟨i, rfl, hi⟩ := hnew j a hj hnone
    have ha := mem_of_getElem? hi
    refine ⟨hfresh.aligned a ha, hfresh.notMem a ha, .inr ⟨a, ha, rfl⟩, ?_⟩
    simp [mem_surplus hfresh.nodup hi, hnone]
  · intro j j' a a' hj hj' hnone hnone' heq
    obtain ⟨i, rfl, hi⟩ := hnew j a hj hnone
    obtain ⟨i', rfl, hi'⟩ := hnew j' a' hj' hnone'
    rw [eq_of_idxFromAddr hfresh.nodup hi hi' heq]
  · intro j a hj hnone
    obtain ⟨i, rfl, hi⟩ := hnew j a hj hnone
    rw [hmem]
    exact hfilled i a hi

/-- `try_get_page` returns, keeps the pages that are present, and adds pages with fresh frames. -/
theorem exists_tryGetPage (o : PagedObject) (k : ℕ) :
    ∃ res o' r' A', o.tryGetPage k r = some (res, o', r') ∧ PagedIn total len A A' r r' o o' ∧
      ∀ a, res = .ok (some a) → o'.frame k = some a := by
  cases hk : o.frame k with
  | some page =>
    refine ⟨.ok (some page), o, r, A, by simp only [tryGetPage, hk], PagedIn.refl h rfl rfl, ?_⟩
    intro a ha
    rwa [← some.inj (Except.ok.inj ha)]
  | none =>
    obtain ⟨res, r₁, lost, hr₁, hbatch, hfilled, hlost, -⟩ :=
      exists_fetch htotal h { o with ra := (o.batchSize k).2 } k (o.batchSize k).1
    cases res with
    | error e =>
      refine ⟨.error e, { o with ra := (o.batchSize k).2 }, r₁, A ∪ frameSet lost, ?_, ?_, nofun⟩
      · simp only [tryGetPage, hk, hr₁, bind_eq_bind, bind_some]
      · have hsame (j : ℕ) (a : PhysAddr) (hj : o.frame j = some a) : o.frame j ≠ none :=
          hj ▸ some_ne_none a
        exact ⟨hbatch.inv, subset_union_left, fun _ _ => id,
          fun j a hj hnone => absurd hnone (hsame j a hj),
          fun j _ a _ hj _ hnone => absurd hnone (hsame j a hj), hbatch.mem,
          fun j a hj hnone => absurd hnone (hsame j a hj), rfl⟩
    | ok batch =>
      obtain rfl : lost = [] := not_not.mp fun hne => nomatch hlost hne
      rw [append_nil] at hbatch
      obtain ⟨o', r', A', hcall, hin⟩ := exists_enter htotal { o with ra := (o.batchSize k).2 } k
        hbatch.fresh hbatch.inv hfilled
      have hframe := (frame_enter hcall).2 k
      rw [show frame { o with ra := (o.batchSize k).2 } k = none from hk, none_or,
        if_pos (le_refl k), Nat.sub_self, ← head?_eq_getElem?] at hframe
      refine ⟨.ok (o'.frame k), o', r', A', ?_, ⟨hin.inv, hin.subset, hin.keep, hin.fresh, hin.inj,
        fun i hi => (hin.mem i hi).trans (hbatch.mem i hi), hin.data, hin.source⟩, ?_⟩
      · have hfinish : finish { o with ra := (o.batchSize k).2 } k batch r₁ =
            some (o'.frame k, o', r') := by
          refine (finish_eq hcall).trans ?_
          rw [show frame { o with ra := (o.batchSize k).2 } k = none from hk, hframe]
          simp
        simp only [tryGetPage, hk, hr₁, hfinish, bind_eq_bind, bind_some]
      · intro a ha
        exact Except.ok.inj ha

omit htotal in
/-- Anonymous memory takes one frame for a page. -/
lemma fetch_physPager (hsource : o.source = physPager) (k : ℕ) :
    (∃ e r', o.fetch k 1 r = some (.error e, r')) ∨ ∃ a r', o.fetch k 1 r = some (.ok [a], r') := by
  have hwanted : physPager.wanted k 1 = 1 := rfl
  have hfilled : physPager.filled k 1 = .ok 1 := rfl
  rcases Ram.alloc_cases h with herr | ⟨a, r₁, hok, -⟩
  · refine .inl ⟨PagerError.outOfMemory.toErrno, r, ?_⟩
    simp [fetch, hsource, Pager.tryGetPages, hwanted, Pager.allocPages, herr, Ram.deallocAll]
  · refine .inr ⟨a, { r₁ with mem := physPager.fill k [a] r₁.mem }, ?_⟩
    simp [fetch, hsource, Pager.tryGetPages, hwanted, hfilled, Pager.allocPages, hok,
      Ram.deallocAll]

omit htotal in
/-- Anonymous memory has every page. -/
lemma tryGetPage_physPager_ne (hsource : o.source = physPager) (k : ℕ)
    (r' : Ram) : o.tryGetPage k r ≠ some (.ok none, o', r') := by
  intro hcall
  have hbatch : o.batchSize k = (1, o.ra) := by simp [batchSize, hsource, physPager]
  cases hk : o.frame k with
  | some page => simp [tryGetPage, hk] at hcall
  | none =>
    rcases fetch_physPager h hsource k with ⟨e, r₁, herr⟩ | ⟨a, r₁, hok⟩
    · simp [tryGetPage, hk, hbatch, herr] at hcall
    · simp [tryGetPage, hk, hbatch, hok, finish, enter] at hcall

/-! ### Giving pages back -/

/-- The frames of an object are allocated, and no two pages have the same. -/
structure Holds (A : Set ℕ) (o : PagedObject) : Prop where
  mem : ∀ k a, o.frame k = some a → idxFromAddr a ∈ A
  inj : ∀ k k' a a', o.frame k = some a → o.frame k' = some a' →
    idxFromAddr a = idxFromAddr a' → k = k'

/-- Some of the pages of an object can be given back. -/
lemma exists_deallocAll (hholds : o.Holds A) {l : List (ℕ × PhysAddr)}
    (hl : l.Sublist o.pages.elems) :
    ∃ r', r.deallocAll (l.map snd) = some r' ∧
      Pmm.Inv total len r'.pmm (A \ frameSet (l.map snd)) ∧ r'.mem = r.mem := by
  have hframe : ∀ x ∈ l, o.frame x.1 = some x.2 := fun x hx =>
    frame_eq_some.mpr (hl.subset hx)
  refine Ram.exists_deallocAll htotal h ?_ ?_
  · rintro _ ⟨a, ha, rfl⟩
    obtain ⟨x, hx, rfl⟩ := List.mem_map.mp ha
    exact hholds.mem _ _ (hframe x hx)
  · rw [List.map_map]
    refine List.Nodup.map_on (fun x hx y hy heq => ?_) (o.pages.nodup.sublist hl)
    exact BTreeSet.eq_of_key_eq (hl.subset hx) (hl.subset hy)
      (hholds.inj _ _ _ _ (hframe x hx) (hframe y hy) heq)

/-- `truncate` gives back the frames of the pages from the new end on. It writes to memory only if
the new end is inside a cached page. -/
lemma exists_truncate (hholds : o.Holds A) (length : ℕ) :
    ∃ o' r', o.truncate length r = some (o', r') ∧
      (length % pageSize = 0 ∨ o.frame (length / pageSize) = none → r'.mem = r.mem) ∧
      (∀ k, o'.frame k =
        if k < (length + (pageSize - 1)) / pageSize then o.frame k else none) ∧
      Pmm.Inv total len r'.pmm (A \ {i | ∃ k a, (length + (pageSize - 1)) / pageSize ≤ k ∧
        o.frame k = some a ∧ idxFromAddr a = i}) := by
  set count := (length + (pageSize - 1)) / pageSize with hcount
  have hset : frameSet ((o.pages.elems.filter (count ≤ ·.1)).map snd) =
      {i | ∃ k a, count ≤ k ∧ o.frame k = some a ∧ idxFromAddr a = i} := by
    ext i
    constructor
    · rintro ⟨a, ha, rfl⟩
      obtain ⟨x, hx, rfl⟩ := List.mem_map.mp ha
      obtain ⟨hmem, hle⟩ := List.mem_filter.mp hx
      exact ⟨x.1, x.2, of_decide_eq_true hle, frame_eq_some.mpr hmem, rfl⟩
    · rintro ⟨k, a, hle, hk, rfl⟩
      refine ⟨a, List.mem_map.mpr ⟨(k, a), List.mem_filter.mpr ⟨?_, decide_eq_true hle⟩, rfl⟩, rfl⟩
      exact frame_eq_some.mp hk
  rw [← hset]
  have hinv : ∀ tail : Option PhysAddr,
      Pmm.Inv total len (tail.elim r (r.fillZero · (length % pageSize))).pmm A := by
    intro tail
    cases tail <;> exact h
  obtain ⟨r', hr', hinv', hmem⟩ := exists_deallocAll htotal
    (hinv (if length % pageSize = 0 ∨ count = 0 then none else o.frame (count - 1))) hholds
    (filter_sublist (p := fun x => decide (count ≤ x.1)))
  simp only [truncate, ← hcount, hr']
  refine ⟨_, r', rfl, fun htail => ?_, fun k => ext fun a => ?_, hinv'⟩
  · rw [hmem]
    split_ifs with hnone
    · rfl
    · have hlast : count - 1 = length / pageSize := by
        rw [hcount, pageSize]
        rw [pageSize] at hnone
        omega
      rw [hlast, htail.resolve_left fun hzero => hnone (.inl hzero)]
      rfl
  · rw [frame_eq_some, BTreeSet.mem_filter]
    split_ifs with hk <;> simp [hk, frame_eq_some]

end

end PagedObject

end

end Zinnia
