import Zinnia.Memory.System.Backed

/-!
# Frames and page table entries along runs of the kernel

No frame of the free list is reachable through a page table entry of a process, as long as files
are not truncated below a page that is mapped: truncation gives the frames of the page cache back,
but leaves the entries of the address spaces as they are.
-/

namespace Zinnia

open AddressSpace Function Option Set Bool Zinnia.System

namespace System

/-! ### The invariant -/

def Alive (sys : System) (o : ℕ) : Prop := (sys.objects o).isSome

/-- The page of the object is in a page table. -/
def Installed (sys : System) (o k : ℕ) : Prop :=
  ∃ pid s i p, sys.spaces pid = some s ∧ (s.table i).isPresent ∧ s.lookup i = some p ∧
    p.object.id = o ∧ p.objectPage = k

/-- The page of the object is about to be put into a page table. -/
def InFlight (sys : System) (o k : ℕ) : Prop :=
  ∃ n f cowObject phys, sys.faults n = some f ∧ f.paged = some (cowObject, phys) ∧
    faultPage f.resolved cowObject = (o, k)

/-- There is a reference to the object in an address space or in a fault that is being handled. -/
def Referenced (sys : System) (o : ℕ) : Prop :=
  (∃ pid s i p, sys.spaces pid = some s ∧ s.lookup i = some p ∧ p.object.id = o) ∨
    (∃ n f, sys.faults n = some f ∧ f.resolved.object.id = o) ∨ ∃ k, sys.InFlight o k

/-- The fault is on an object that exists, and the frame to install is the one of its page. -/
structure FaultValid (sys : System) (f : Fault) : Prop where
  alive : sys.Alive f.resolved.object.id
  paged : ∀ cowObject phys, f.paged = some (cowObject, phys) →
    cowObject.isSome = f.resolved.cowWrite ∧
      sys.frame (faultPage f.resolved cowObject).1 (faultPage f.resolved cowObject).2 = some phys

structure Inv (total : Set ℕ) (len : ℕ) (sys : System) : Prop where
  frames : ∃ A, Frames total len sys A
  spaces : ∀ pid s, sys.spaces pid = some s → s.Backed sys.frame sys.Alive
  faults : ∀ n f, sys.faults n = some f → sys.FaultValid f

section

variable {total : Set ℕ} {len : ℕ} {sys sys' : System}

lemma alive_of_frame {o k : ℕ} {a : PhysAddr} (h : sys.frame o k = some a) : sys.Alive o := by
  exact isSome_of_isSome_bind (isSome_of_eq_some h)

section

variable (h : Inv total len sys) {A : Set ℕ}

include h

/-- Pages that are in use and objects that are referred to must stay. -/
lemma Inv.mono (hframes : Frames total len sys' A)
    (hframe : ∀ o k a, sys.Installed o k ∨ sys.InFlight o k → sys.frame o k = some a →
      sys'.frame o k = some a) (halive : ∀ o, sys.Referenced o → sys.Alive o → sys'.Alive o)
    (hspaces : sys'.spaces = sys.spaces) (hfaults : sys'.faults = sys.faults) :
    Inv total len sys' := by
  refine ⟨⟨A, hframes⟩, fun pid s hs => ?_, fun n f hf => ?_⟩
  · rw [hspaces] at hs
    refine (h.spaces pid s hs).mono (fun i p a hp hi ha => ?_) fun i p hp ho => ?_
    · exact hframe _ _ a (.inl ⟨pid, s, i, p, hs, hi, hp, rfl, rfl⟩) ha
    · exact halive _ (.inl ⟨pid, s, i, p, hs, hp, rfl⟩) ho
  · rw [hfaults] at hf
    obtain ⟨ho, hpaged⟩ := h.faults n f hf
    refine ⟨halive _ (.inr (.inl ⟨n, f, hf, rfl⟩)) ho, fun cowObject phys hf' => ?_⟩
    obtain ⟨hcow, hphys⟩ := hpaged cowObject phys hf'
    exact ⟨hcow, hframe _ _ phys (.inr ⟨n, f, cowObject, phys, hf, hf', rfl⟩) hphys⟩

lemma Inv.extends (hframes : Frames total len sys' A) {X : Set (ℕ × ℕ)}
    (hext : Extends X sys sys') : Inv total len sys' :=
  h.mono hframes (fun o k a _ => hext.frame o k a) (fun o _ => hext.alive o) hext.spaces
    hext.faults

lemma Inv.setSpace (pid : ℕ) {s : AddressSpace ObjectRef} (hs : s.Backed sys.frame sys.Alive) :
    Inv total len (sys.setSpace pid s) := by
  obtain ⟨A, hA⟩ := h.frames
  refine ⟨⟨A, hA.pmm, hA.owns, hA.buffers⟩, fun pid' s' hs' => ?_, fun n f hf => ?_⟩
  · rw [spaces_setSpace] at hs'
    split_ifs at hs'
    · cases hs'
      exact hs
    · exact h.spaces pid' s' hs'
  · obtain ⟨halive, hpaged⟩ := h.faults n f hf
    exact ⟨halive, hpaged⟩

lemma Inv.setFault (n : ℕ) {f : Option Fault} (hf : ∀ x, f = some x → sys.FaultValid x) :
    Inv total len (sys.setFault n f) := by
  obtain ⟨A, hA⟩ := h.frames
  refine ⟨⟨A, hA.pmm, hA.owns, hA.buffers⟩, h.spaces, fun n' x hx => ?_⟩
  rw [faults_setFault] at hx
  obtain ⟨halive, hpaged⟩ : sys.FaultValid x := by
    split_ifs at hx
    · exact hf x hx
    · exact h.faults n' x hx
  exact ⟨halive, hpaged⟩

lemma Inv.setObject {o : ℕ} (ho : sys.objects o = none) {ram : Ram} {m : MemObject}
    (hframes : Frames total len (setObject { sys with ram } o m) A) :
    Inv total len (setObject { sys with ram } o m) := by
  refine h.mono hframes (fun o' k a _ ha => ?_) (fun o' _ ho' => ?_) rfl rfl
  · rw [frame_setObject, if_neg fun heq => ?_]
    · exact ha
    · have := alive_of_frame ha
      rw [heq, Alive, ho] at this
      cases this
  · rw [Alive, objects_setObject]
    split_ifs
    · rfl
    · exact ho'

end

end

/-! ### Steps -/

/-- What can happen, apart from truncation. A step is a call, one of the three parts of the page
fault handler, an access of a process, or something that the rest of the kernel does. The last
reference to an object can go away at any time. -/
inductive Step (sys : System) : System → Prop
  | spawn {pid s} : sys.spaces pid = none → AddressSpace.new = .ok s → Step sys (sys.setSpace pid s)
  | mmap {pid new openFiles r sys'} (addr length prot flags fd offset) :
    sys.objects new = none →
    (∀ fd f, openFiles fd = some f → ∀ o, OpenFile.Maps f o → sys.Alive o.id) →
    sys.mmap pid new openFiles addr length prot flags fd offset = some (r, sys') → Step sys sys'
  | mprotect {pid r sys'} (addr size prot) :
    sys.mprotect pid addr size prot = some (r, sys') → Step sys sys'
  | munmap {pid r sys'} (addr size) :
    sys.munmap pid addr size = some (r, sys') → Step sys sys'
  | fork {pid child sys'} : sys.spaces child = none → sys.fork pid child = some sys' → Step sys sys'
  | exit (pid) : Step sys (sys.exit pid)
  | resolve {n pid s resolved} (info) : sys.faults n = none → sys.spaces pid = some s →
    s.resolve info = some resolved → Step sys (sys.setFault n (some ⟨pid, info, resolved, none⟩))
  | pageIn {n f new res sys'} : sys.faults n = some f → f.paged = none → sys.objects new = none →
    sys.pageIn new f.resolved = some (res, sys') →
    Step sys (sys'.setFault n (res.map fun paged => { f with paged := some paged }))
  | install {n f cowObject phys sys'} : sys.faults n = some f →
    f.paged = some (cowObject, phys) →
    sys.install f.pid f.info f.resolved cowObject phys = some sys' → Step sys (sys'.setFault n none)
  | store {pid sys'} (page offset byte) :
    sys.store pid page offset byte = some sys' → Step sys sys'
  | newObject {o} (source) : sys.objects o = none → Step sys (sys.newObject o source)
  | newBuffer {o r sys'} (size) : sys.objects o = none →
    sys.newBuffer o size = some (r, sys') → Step sys sys'
  | getPage {o r sys'} (k) : sys.tryGetPage o k = some (r, sys') → Step sys sys'
  | dropObject {o sys'} : ¬ sys.Referenced o → sys.dropObject o = some sys' → Step sys sys'
  | kernelAlloc {n sys'} (pages flags) : sys.kernel n = none →
    sys.kernelAlloc n pages flags = some sys' → Step sys sys'
  | kernelDealloc {n sys'} : sys.kernelDealloc n = some sys' → Step sys sys'

section

variable {total : Set ℕ} {len pid o length new page : ℕ} {sys sys' : System} {info : PageFaultInfo}
  {resolved : ResolvedFault ObjectRef} {cowObject : Option ObjectRef} {α : Type} {phys : PhysAddr}
  {offset : Fin pageSize} {byte : BitVec 8}

lemma exists_of_call {r : α} {f : AddressSpace ObjectRef → Option (α × AddressSpace ObjectRef)}
    (hcall : sys.call pid f = some (r, sys')) :
    ∃ s s', sys.spaces pid = some s ∧ f s = some (r, s') ∧ sys' = sys.setSpace pid s' := by
  obtain ⟨s, hs, hbind⟩ := bind_eq_some_iff.mp hcall
  obtain ⟨⟨r', s'⟩, hs', heq⟩ := bind_eq_some_iff.mp hbind
  cases heq
  exact ⟨s, s', hs, hs', rfl⟩

variable (h : Inv total len sys)

include h

/-- A call keeps the pages of the process, and maps no objects but those in `P`. -/
lemma Inv.call {r : α} {P : ObjectRef → Prop}
    {f : AddressSpace ObjectRef → Option (α × AddressSpace ObjectRef)}
    (hcall : sys.call pid f = some (r, sys')) (hP : ∀ o, P o → sys.Alive o.id)
    (hkeeps : ∀ s s', s.Wf → f s = some (r, s') → Keeps P s s') : Inv total len sys' := by
  obtain ⟨s, s', hs, hs', rfl⟩ := exists_of_call hcall
  have hbacked := h.spaces pid s hs
  exact h.setSpace pid (hbacked.keeps (hkeeps s s' hbacked.wf hs') hP)

lemma Inv.mmap {openFiles : BitVec 32 → Option (OpenFile ObjectRef)} {addr : VirtAddr}
    {length : Usize} {prot flags fd : BitVec 32} {offset : BitVec 64} {r : EResult VirtAddr}
    (hnew : sys.objects new = none)
    (hfiles : ∀ fd f, openFiles fd = some f → ∀ o, OpenFile.Maps f o → sys.Alive o.id)
    (hcall : sys.mmap pid new openFiles addr length prot flags fd offset = some (r, sys')) :
    Inv total len sys' := by
  obtain ⟨⟨r', sys₁⟩, hcall₁, heq⟩ := bind_eq_some_iff.mp hcall
  cases heq
  obtain ⟨s, s', hs, hs', rfl⟩ := exists_of_call hcall₁
  have hkeeps := (mapsOnce_mmap openFiles ⟨new, .normal⟩ addr length prot flags fd offset).keeps
    (h.spaces pid s hs).wf hs'
  split_ifs with hanon
  · obtain ⟨A, hA⟩ := h.frames
    have hinv : Inv total len (sys.newObject new physPager) :=
      h.setObject hnew (hA.newObject hnew physPager)
    refine hinv.setSpace pid ((hinv.spaces pid s hs).keeps hkeeps ?_)
    rintro o (⟨-, rfl⟩ | ⟨fd, f, hf, hmaps⟩)
    · exact congrArg isSome ((objects_setObject sys new _ new).trans (if_pos rfl))
    · rw [Alive, newObject, objects_setObject]
      split_ifs
      · rfl
      · exact hfiles fd f hf o hmaps
  · refine h.setSpace pid ((h.spaces pid s hs).keeps hkeeps ?_)
    rintro o (⟨hanon', -⟩ | ⟨fd, f, hf, hmaps⟩)
    · exact absurd hanon' hanon
    · exact hfiles fd f hf o hmaps

lemma Inv.fork {child : ℕ} (hcall : sys.fork pid child = some sys') : Inv total len sys' := by
  obtain ⟨s, hs, heq⟩ := bind_eq_some_iff.mp hcall
  cases heq
  have hbacked := h.spaces pid s hs
  have hparent : (sys.setSpace pid s.fork.1).Inv total len :=
    h.setSpace pid (hbacked.keeps (keeps_fork_parent hbacked.wf (P := fun _ => False)) nofun)
  exact hparent.setSpace child
    (hbacked.keeps (keeps_fork_child hbacked.wf (P := fun _ => False)) nofun)

lemma Inv.exit (pid : ℕ) : Inv total len (sys.exit pid) := by
  obtain ⟨A, hA⟩ := h.frames
  refine ⟨⟨A, hA.pmm, hA.owns, hA.buffers⟩, fun pid' s hs => ?_, fun n f hf => ?_⟩
  · simp only [System.exit, update_apply] at hs
    split_ifs at hs
    exact h.spaces pid' s hs
  · obtain ⟨halive, hpaged⟩ := h.faults n f (filter_eq_some_iff.mp hf).1
    exact ⟨halive, hpaged⟩

/-! ### Page faults -/

lemma Inv.resolve {n : ℕ} {s : AddressSpace ObjectRef} (hs : sys.spaces pid = some s)
    (hresolve : s.resolve info = some resolved) :
    Inv total len (sys.setFault n (some ⟨pid, info, resolved, none⟩)) := by
  refine h.setFault n fun f hf => ?_
  cases hf
  obtain ⟨p, hp, hobject, -⟩ := exists_of_resolve hresolve
  exact ⟨hobject ▸ (h.spaces pid s hs).alive _ p hp, nofun⟩

lemma Inv.pageIn (htotal : total ⊆ Iio len) {n : ℕ} {f : Fault}
    {res : Option (Option ObjectRef × PhysAddr)} (hf : sys.faults n = some f)
    (hnew : sys.objects new = none) (hcall : sys.pageIn new f.resolved = some (res, sys')) :
    Inv total len (sys'.setFault n (res.map fun paged => { f with paged := some paged })) := by
  obtain ⟨A, hA⟩ := h.frames
  obtain ⟨res', sys₁, A', hcall', hframes, hext, hready⟩ :=
    hA.exists_pageIn htotal hnew (h.faults n f hf).alive
  obtain ⟨rfl, rfl⟩ : res' = res ∧ sys₁ = sys' := by simpa [hcall] using hcall'.symm
  refine (h.extends hframes hext).setFault n fun x hx => ?_
  obtain ⟨⟨cowObject, phys⟩, hres, rfl⟩ := map_eq_some_iff.mp hx
  refine ⟨hext.alive _ (h.faults n f hf).alive, fun cowObject' phys' heq => ?_⟩
  cases heq
  have hpage := hready cowObject phys hres
  exact ⟨hpage.isSome_cow, hpage.frame⟩

omit h in
lemma exists_of_install (hcall : sys.install pid info resolved cowObject phys = some sys') :
    ∃ s s', sys.spaces pid = some s ∧ s.install info resolved cowObject phys = some s' ∧
      sys' = sys.setSpace pid s' := by
  obtain ⟨s, hs, hbind⟩ := bind_eq_some_iff.mp hcall
  obtain ⟨s', hs', heq⟩ := bind_eq_some_iff.mp hbind
  cases heq
  exact ⟨s, s', hs, hs', rfl⟩

lemma Inv.install (htotal : total ⊆ Iio len) (hlen : len ≤ 2 ^ 40)
    (hcow : cowObject.isSome = resolved.cowWrite)
    (hframe : sys.frame (faultPage resolved cowObject).1 (faultPage resolved cowObject).2 =
      some phys) (hcall : sys.install pid info resolved cowObject phys = some sys') :
    Inv total len sys' := by
  obtain ⟨s, s', hs, hs', rfl⟩ := exists_of_install hcall
  have hbacked := h.spaces pid s hs
  obtain ⟨A, hA⟩ := h.frames
  obtain rfl | ⟨p, heff⟩ := effect_of_install hbacked.wf hs'
  · exact h.setSpace pid hbacked
  · refine h.setSpace pid (hbacked.fault hcow heff hframe (fun o ho => ?_) ?_)
    · rw [ho] at hframe
      exact alive_of_frame hframe
    · exact lt_of_lt_of_le (lt_len htotal hA.pmm (hA.mem hframe)) hlen

/-! ### Accesses -/

omit h in
lemma exists_of_store (hcall : sys.store pid page offset byte = some sys') :
    ∃ s, sys.spaces pid = some s ∧ (s.table page).allowsWrite ∧
      sys' = setSpace
        { sys with ram := sys.ram.writeByte (idxFromAddr (s.table page).address) offset byte } pid
        { s with table := update s.table page ((s.table page).touch true) } := by
  obtain ⟨s, hs, hif⟩ := bind_eq_some_iff.mp hcall
  split_ifs at hif with hwrite
  cases hif
  exact ⟨s, hs, hwrite, rfl⟩

omit h in
lemma sameCore_touch (t : PageTable) (page : ℕ) (write : Bool) :
    SameCore t (update t page ((t page).touch write)) := by
  intro i
  by_cases hi : i = page
  · rw [hi, update_self, PageTableEntry.core_touch]
  · rw [update_of_ne hi]

/-- The contents of the memory do not matter. -/
lemma Inv.setMem (mem : ℕ → PageData) : Inv total len { sys with ram := ⟨sys.ram.pmm, mem⟩ } := by
  obtain ⟨A, hA⟩ := h.frames
  have hframes : Frames total len { sys with ram := ⟨sys.ram.pmm, mem⟩ } A :=
    ⟨hA.pmm, hA.owns, hA.buffers⟩
  exact h.mono hframes (fun _ _ _ _ => id) (fun _ _ => id) rfl rfl

lemma Inv.store (hcall : sys.store pid page offset byte = some sys') : Inv total len sys' := by
  obtain ⟨s, hs, -, rfl⟩ := exists_of_store hcall
  have hmem := h.setMem (sys.ram.writeByte (idxFromAddr (s.table page).address) offset byte).mem
  have hbacked := hmem.spaces pid s hs
  exact hmem.setSpace pid
    (hbacked.keeps (keeps_sameCore hbacked.wf (sameCore_touch s.table page true)
      (P := fun _ => False)) nofun)

/-! ### The end of objects -/

omit h in
lemma referenced_of_used {k : ℕ} (h : sys.Installed o k ∨ sys.InFlight o k) : sys.Referenced o := by
  obtain ⟨pid, s, i, p, hs, -, hp, ho, -⟩ | hflight := h
  · exact .inl ⟨pid, s, i, p, hs, hp, ho⟩
  · exact .inr (.inr ⟨k, hflight⟩)

lemma Inv.dropObject (htotal : total ⊆ Iio len) (hunused : ¬ sys.Referenced o)
    (hcall : sys.dropObject o = some sys') : Inv total len sys' := by
  obtain ⟨A, hA⟩ := h.frames
  have ho : (sys.objects o).isSome := isSome_of_isSome_bind (isSome_of_eq_some hcall)
  obtain ⟨r', hcall', hframes⟩ := hA.exists_dropObject htotal ho
  rw [hcall'] at hcall
  cases hcall
  refine h.mono hframes (fun o' k a hused ha => ?_) (fun o' href halive => ?_) rfl rfl
  · have hne : o' ≠ o := fun heq => hunused (heq ▸ referenced_of_used hused)
    rw [frame_removeObject, if_neg hne]
    exact ha
  · have hne : o' ≠ o := fun heq => hunused (heq ▸ href)
    rw [Alive, objects_removeObject, if_neg hne]
    exact halive

/-! ### Runs -/

lemma Inv.step (htotal : total ⊆ Iio len) (hlen : len ≤ 2 ^ 40)
    (hstep : Step sys sys') : Inv total len sys' := by
  obtain ⟨A, hA⟩ := h.frames
  cases hstep with
  | spawn _ hnew => exact h.setSpace _ (Backed.new hnew)
  | mmap addr length prot flags fd offset hnew hfiles hcall => exact h.mmap hnew hfiles hcall
  | mprotect addr size prot hcall =>
    exact h.call hcall (P := fun _ => False) nofun fun _ _ hwf => keeps_mprotect hwf
  | munmap addr size hcall =>
    exact h.call hcall (P := fun _ => False) nofun fun _ _ hwf => keeps_munmap hwf
  | fork _ hcall => exact h.fork hcall
  | exit pid => exact h.exit pid
  | resolve info _ hs hresolve => exact h.resolve hs hresolve
  | pageIn hf _ hnew hcall => exact h.pageIn htotal hf hnew hcall
  | @install n f cowObject phys sys₁ hf hpaged hcall =>
    obtain ⟨hcow, hframe⟩ := (h.faults n f hf).paged cowObject phys hpaged
    exact (h.install htotal hlen hcow hframe hcall).setFault n fun x hx => by cases hx
  | store page offset byte hcall => exact h.store hcall
  | newObject source ho => exact h.setObject ho (hA.newObject ho source)
  | @newBuffer o r _ size ho hcall =>
    obtain herr | ⟨m, ram, A', hok, hframes⟩ := hA.exists_newBuffer htotal hlen o size
    · rw [herr] at hcall
      cases hcall
      exact h
    · rw [hok] at hcall
      cases hcall
      exact h.setObject ho hframes
  | @getPage o r _ k hcall =>
    have ho : (sys.objects o).isSome := isSome_of_isSome_bind (isSome_of_eq_some hcall)
    obtain ⟨r', sys₁, A', hcall', hframes, hext, -⟩ := hA.exists_tryGetPage htotal ho k
    rw [hcall'] at hcall
    cases hcall
    exact h.extends hframes hext
  | dropObject hunused hcall => exact h.dropObject htotal hunused hcall
  | kernelAlloc pages flags hn hcall =>
    obtain ⟨ram, e, A', hcall', hframes⟩ := hA.exists_kernelAlloc hn pages flags
    rw [hcall'] at hcall
    cases hcall
    exact h.mono hframes (fun _ _ _ _ => id) (fun _ _ => id) rfl rfl
  | @kernelDealloc n _ hcall =>
    have hn : (sys.kernel n).isSome := isSome_of_isSome_bind (isSome_of_eq_some hcall)
    obtain ⟨ram, A', hcall', hframes⟩ := hA.exists_kernelDealloc htotal hn
    rw [hcall'] at hcall
    cases hcall
    exact h.mono hframes (fun _ _ _ _ => id) (fun _ _ => id) rfl rfl

/-- No present entry of a process refers to a frame of the free list. -/
def Safe (sys : System) : Prop :=
  ∀ pid s i, sys.spaces pid = some s → (s.table i).isPresent →
    ¬ sys.ram.pmm.IsFree (idxFromAddr (s.table i).address)

lemma Inv.toSafe : sys.Safe := by
  intro pid s i hs hi hfree
  obtain ⟨A, hA⟩ := h.frames
  obtain ⟨p, a, -, ha, haddr⟩ := (h.spaces pid s hs).present i hi
  rw [haddr, hA.pmm.isFree_iff] at hfree
  exact hfree.2 (hA.mem ha)

/-- The new end is not inside a cached page, of which the tail would be filled with zeros: the fill
goes on in the next frames, which can hold page tables, and memory that is not modelled. -/
def Unfilled (sys : System) (o length : ℕ) : Prop :=
  length % pageSize = 0 ∨ sys.frame o (length / pageSize) = none

/-- Nothing is filled, and no page from the new end on is in a page table, or about to be put into
one. -/
structure Truncatable (sys : System) (o length : ℕ) : Prop where
  unfilled : sys.Unfilled o length
  installed : ∀ k, sys.Installed o k → k < endPage length
  inFlight : ∀ k, sys.InFlight o k → k < endPage length

omit h in
lemma exists_of_truncate (hcall : sys.truncate o length = some sys') :
    ∃ cache, sys.objects o = some (.paged cache) := by
  obtain ⟨m, hm, hrest⟩ := bind_eq_some_iff.mp hcall
  cases m with
  | paged cache => exact ⟨cache, hm⟩
  | buffer addr size => cases hrest

lemma Inv.truncate (htotal : total ⊆ Iio len) (htrunc : sys.Truncatable o length)
    (hcall : sys.truncate o length = some sys') :
    Inv total len sys' := by
  obtain ⟨A, hA⟩ := h.frames
  obtain ⟨cache, ho⟩ := exists_of_truncate hcall
  obtain ⟨sys₁, hcall', -, hframes, hframe, halive, hspaces, hfaults⟩ :=
    hA.exists_truncate htotal ho length
  rw [hcall'] at hcall
  cases hcall
  refine h.mono hframes (fun o' k a hused ha => ?_) (fun o' _ ho' => ?_) hspaces hfaults
  · rw [hframe, if_neg ?_]
    · exact ha
    · rintro ⟨rfl, hk⟩
      exact not_lt.mpr hk (hused.elim (htrunc.installed k) (htrunc.inFlight k))
  · rw [Alive, halive]
    exact ho'

/-- Truncation is safe exactly if no page that it removes is in a page table. -/
lemma Inv.safe_truncate_iff (htotal : total ⊆ Iio len) (hcall : sys.truncate o length = some sys') :
    (sys.Unfilled o length → sys'.ram.mem = sys.ram.mem) ∧
    (sys'.Safe ↔ ∀ k, sys.Installed o k → k < endPage length) := by
  obtain ⟨A, hA⟩ := h.frames
  obtain ⟨cache, ho⟩ := exists_of_truncate hcall
  obtain ⟨sys₁, hcall', hmem, hframes, hframe, -, hspaces, -⟩ :=
    hA.exists_truncate htotal ho length
  rw [hcall'] at hcall
  cases hcall
  refine ⟨hmem, ?_, ?_⟩
  · rintro hsafe k ⟨pid, s, i, p, hs, hi, hp, rfl, rfl⟩
    by_contra hk
    obtain ⟨p', a, hp', ha, haddr⟩ := (h.spaces pid s hs).present i hi
    obtain rfl := some.inj (hp.symm.trans hp')
    refine hsafe pid s i (by rw [hspaces]; exact hs) hi ?_
    rw [haddr, hframes.pmm.isFree_iff]
    exact ⟨hA.pmm.subset (hA.mem ha), fun hmem => hmem.2 ⟨_, a, not_lt.mp hk, ha, rfl⟩⟩
  · intro hinstalled pid s i hs hi hfree
    rw [hspaces] at hs
    obtain ⟨p, a, hp, ha, haddr⟩ := (h.spaces pid s hs).present i hi
    have hkept : sys'.frame p.object.id p.objectPage = some a := by
      rw [hframe, if_neg ?_]
      · exact ha
      · rintro ⟨rfl, hk⟩
        exact not_lt.mpr hk (hinstalled _ ⟨pid, s, i, p, hs, hi, hp, rfl, rfl⟩)
    rw [haddr, hframes.pmm.isFree_iff] at hfree
    exact hfree.2 (hframes.mem hkept)

end

/-- The states that the kernel can reach from `pmm::init` on, if every truncation fills no memory
and finds the pages that it removes neither in a page table nor on their way to one. -/
inductive Reachable (pmm : Pmm) : System → Prop
  | boot (mem) : Reachable pmm (boot pmm mem)
  | step {sys sys'} : Reachable pmm sys → Step sys sys' → Reachable pmm sys'
  | truncate {sys sys' o length} : Reachable pmm sys → sys.Truncatable o length →
    sys.truncate o length = some sys' → Reachable pmm sys'

variable {pmm : Pmm} {openFiles : BitVec 32 → Option (OpenFile ObjectRef)} {length : Usize}
  {flags : BitVec 32} {offset : BitVec 64} {info : PageFaultInfo}

lemma Inv.boot {total : Set ℕ} {len : ℕ} (h : Pmm.Inv total len pmm ∅) (mem : ℕ → PageData) :
    Inv total len (boot pmm mem) := by
  refine ⟨⟨∅, h, ⟨fun owner => ?_, fun i j _ => ?_⟩, fun o addr size ho => ?_⟩, fun pid s hs => ?_,
    fun n f hf => ?_⟩
  · cases owner <;> simp [owned, System.boot, System.frame]
  · cases i <;> simp [owned, System.boot, System.frame]
  · cases ho
  · cases hs
  · cases hf

lemma Reachable.inv {m : MemoryMap} (hlen : m.len ≤ 2 ^ 40) (hinit : m.init = some pmm)
    {sys : System} (h : Reachable pmm sys) :
    registeredPages m.entries ⊆ Iio m.len ∧ Inv (registeredPages m.entries) m.len sys := by
  have htotal := m.registeredPages_subset
  refine ⟨htotal, ?_⟩
  induction h with
  | boot mem =>
    obtain ⟨p, hp, hinv⟩ := Pmm.exists_init m
    obtain rfl := some.inj (hp.symm.trans hinit)
    exact Inv.boot hinv mem
  | step _ hstep ih => exact ih.step htotal hlen hstep
  | truncate _ htrunc hcall ih => exact ih.truncate htotal htrunc hcall

/-! ### A page that is mapped and written to -/

/-- A process maps memory at `0x100000000` and writes to a page of it for the first time. The
object `new` is for an anonymous mapping, and `copy` for a private copy of the page. -/
def mapAndFault (sys : System) (pid new copy n : ℕ)
    (openFiles : BitVec 32 → Option (OpenFile ObjectRef)) (length : Usize) (flags : BitVec 32)
    (offset : BitVec 64) (info : PageFaultInfo) : Option System := do
  let (_, sys) ← sys.mmap pid new openFiles 0x100000000 length 0x3 flags 3 offset
  let s ← sys.spaces pid
  let resolved ← s.resolve info
  let (res, sys) ← (sys.setFault n (some ⟨pid, info, resolved, none⟩)).pageIn copy resolved
  let (cowObject, phys) ← res
  let sys := sys.setFault n (some ⟨pid, info, resolved, some (cowObject, phys)⟩)
  let sys ← sys.install pid info resolved cowObject phys
  some (sys.setFault n none)

/-- The steps of `mapAndFault`, and what the first of them leaves as it is. -/
lemma exists_of_mapAndFault {sys sys' : System} {pid new copy n : ℕ}
    (hcopy : sys.objects copy = none) (hne : copy ≠ new) (hn : sys.faults n = none)
    (hcall : sys.mapAndFault pid new copy n openFiles length flags offset info = some sys') :
    ∃ r sys₁ s resolved sys₂ cowObject phys sys₃,
      sys.mmap pid new openFiles 0x100000000 length 0x3 flags 3 offset = some (r, sys₁) ∧
      (sys₁.faults n = none ∧ sys₁.objects copy = none ∧ ∃ s₀ s₁, sys.spaces pid = some s₀ ∧
        s₀.mmap openFiles ⟨new, .normal⟩ 0x100000000 length 0x3 flags 3 offset = some (r, s₁) ∧
        sys₁.spaces = (sys.setSpace pid s₁).spaces) ∧
      sys₁.spaces pid = some s ∧ s.resolve info = some resolved ∧
      (sys₁.setFault n (some ⟨pid, info, resolved, none⟩)).pageIn copy resolved =
        some (some (cowObject, phys), sys₂) ∧
      (sys₂.setFault n (some ⟨pid, info, resolved, some (cowObject, phys)⟩)).install pid info
        resolved cowObject phys = some sys₃ ∧
      sys' = sys₃.setFault n none := by
  obtain ⟨⟨r, sys₁⟩, hmmap, hrest⟩ := bind_eq_some_iff.mp hcall
  obtain ⟨s, hs, hrest⟩ := bind_eq_some_iff.mp hrest
  obtain ⟨resolved, hresolve, hrest⟩ := bind_eq_some_iff.mp hrest
  obtain ⟨⟨res, sys₂⟩, hpage, hrest⟩ := bind_eq_some_iff.mp hrest
  obtain ⟨⟨cowObject, phys⟩, hres, hrest⟩ := bind_eq_some_iff.mp hrest
  obtain ⟨sys₃, hinstall, heq⟩ := bind_eq_some_iff.mp hrest
  cases heq
  subst hres
  refine ⟨r, sys₁, s, resolved, sys₂, cowObject, phys, sys₃, hmmap, ?_, hs, hresolve, hpage, hinstall,
    rfl⟩
  obtain ⟨⟨r', sys₁'⟩, hcall₁, heq⟩ := bind_eq_some_iff.mp hmmap
  obtain ⟨s₀, s₁, hs₀, hs₁, rfl⟩ := exists_of_call hcall₁
  cases heq
  split_ifs
  · refine ⟨hn, ?_, s₀, s₁, hs₀, hs₁, rfl⟩
    rw [newObject, objects_setObject, if_neg hne]
    exact hcopy
  · exact ⟨hn, hcopy, s₀, s₁, hs₀, hs₁, rfl⟩

lemma Reachable.mapAndFault {sys sys' : System} (h : Reachable pmm sys) {pid new copy n : ℕ}
    (hfiles : ∀ fd f, openFiles fd = some f → ∀ o, OpenFile.Maps f o → sys.Alive o.id)
    (hnew : sys.objects new = none) (hcopy : sys.objects copy = none) (hne : copy ≠ new)
    (hn : sys.faults n = none)
    (hcall : sys.mapAndFault pid new copy n openFiles length flags offset info = some sys') :
    Reachable pmm sys' := by
  obtain ⟨r, sys₁, s, resolved, sys₂, cowObject, phys, sys₃, hmmap, ⟨hfaults, hobjects, -⟩, hs,
    hresolve, hpage, hinstall, rfl⟩ := exists_of_mapAndFault hcopy hne hn hcall
  have h₁ := h.step (.mmap _ _ _ _ _ _ hnew hfiles hmmap)
  have h₂ := h₁.step (.resolve info hfaults hs hresolve)
  have h₃ := h₂.step (.pageIn (update_self _ _ _) rfl hobjects hpage)
  exact h₃.step (.install (update_self _ _ _) rfl hinstall)

/-- Eight pages of memory. -/
def smallMap : MemoryMap := .small 0x8000 (by decide)

lemma exists_init_smallMap : ∃ pmm, smallMap.init = some pmm :=
  isSome_iff_exists.mp (by decide +kernel)

/-- One process and one file. -/
def oneFile (pmm : Pmm) : System :=
  ((boot pmm fun _ _ => 0).setSpace 1
    ⟨fun _ => .empty, ⟨1, 2 ^ 35, 1, BTreeSet.empty⟩, BTreeSet.empty⟩).newObject 0 physPager

lemma Reachable.oneFile (pmm : Pmm) : Reachable pmm (oneFile pmm) :=
  ((boot fun _ _ => 0).step (.spawn rfl new_eq)).step (.newObject physPager rfl)

/-- A shared page of the file is in the page table after the process has written to it. -/
lemma exists_installed : ∃ pmm sys sys', smallMap.init = some pmm ∧ Reachable pmm sys ∧
    sys.Installed 0 0 ∧ sys.truncate 0 0 = some sys' := by
  have hrun : (smallMap.init.any fun pmm =>
      ((oneFile pmm).mapAndFault 1 1 2 0 (fun _ => some (.tmpfs ⟨0, .normal⟩)) 0x1000 0x11 0
        ⟨0, 0x100000000, true, true, false, false⟩).any fun sys =>
        ((sys.spaces 1).any fun s => (s.table 0x100000).isPresent &&
          (s.lookup 0x100000).any fun p => p.object.id == 0 && p.objectPage == 0) &&
        (sys.truncate 0 0).isSome) = true := by
    decide +kernel
  obtain ⟨pmm, hinit, hrun⟩ := (any_eq_true _ _).mp hrun
  obtain ⟨sys, hsys, hrun⟩ := (any_eq_true _ _).mp hrun
  rw [and_eq_true] at hrun
  obtain ⟨s, hs, hpage⟩ := (any_eq_true _ _).mp hrun.1
  rw [and_eq_true] at hpage
  obtain ⟨p, hp, hobject⟩ := (any_eq_true _ _).mp hpage.2
  rw [and_eq_true, beq_iff_eq, beq_iff_eq] at hobject
  obtain ⟨sys', hsys'⟩ := isSome_iff_exists.mp hrun.2
  have hreach : Reachable pmm sys := by
    refine (Reachable.oneFile pmm).mapAndFault (fun fd f hf o ho => ?_) rfl rfl (by decide) rfl hsys
    cases hf
    cases ho
    exact congrArg isSome (objects_setObject _ 0 _ 0)
  exact ⟨pmm, sys, sys', hinit, hreach, ⟨1, s, 0x100000, p, hs, hpage.1, hp, hobject⟩, hsys'⟩

/-- In every run whose truncations fill no memory and remove no page that is in a page table or on
its way to one, no present entry refers to a frame of the free list. A further truncation that is
not to fill anything leaves the memory as it is, so the page tables too, and after it that is still
so exactly if no page that it removes is in a page table. Physical addresses have at most 52
bits. -/
theorem Reachable.safe {m : MemoryMap} (hlen : m.len ≤ 2 ^ 40) {pmm : Pmm}
    (hinit : m.init = some pmm) {sys : System} (h : Reachable pmm sys) :
    sys.Safe ∧ ∀ o length sys', sys.truncate o length = some sys' → sys.Unfilled o length →
      sys'.ram.mem = sys.ram.mem ∧
        (sys'.Safe ↔ ∀ k, sys.Installed o k → k < endPage length) := by
  obtain ⟨htotal, hinv⟩ := h.inv hlen hinit
  refine ⟨hinv.toSafe, fun o length sys' hcall hunfilled => ?_⟩
  exact (hinv.safe_truncate_iff htotal hcall).imp_left (· hunfilled)

/-- The page of a file that a process has written to is still safe. -/
theorem safe_installed : ∃ pmm sys, Reachable pmm sys ∧ sys.Installed 0 0 ∧ sys.Safe := by
  obtain ⟨pmm, sys, -, hinit, hreach, hinstalled, -⟩ := exists_installed
  exact ⟨pmm, sys, hreach, hinstalled, (Reachable.safe (by decide) hinit hreach).1⟩

/-- A process still has the page of a file that has been truncated, and can write to it. -/
theorem truncate_not_safe : ∃ pmm sys sys', smallMap.init = some pmm ∧ Reachable pmm sys ∧
    sys.truncate 0 0 = some sys' ∧ ¬ sys'.Safe := by
  obtain ⟨pmm, sys, sys', hinit, hreach, hinstalled, htrunc⟩ := exists_installed
  obtain ⟨htotal, hinv⟩ := hreach.inv (by decide) hinit
  refine ⟨pmm, sys, sys', hinit, hreach, htrunc, fun hsafe => ?_⟩
  exact absurd ((hinv.safe_truncate_iff htotal htrunc).2.mp hsafe 0 hinstalled) (by decide)

end System

end Zinnia
