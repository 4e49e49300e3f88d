import Zinnia.Memory.System.Fetch
import Zinnia.Vfs.File

/-!
# Stores to files that are mapped

The access mode of an open file is not looked at when the file is mapped. Stores to regular files
go through descriptors that have been opened for writing as long as the processes themselves ask
for no more than that.
-/

namespace Zinnia

open AddressSpace Function Option Bool Zinnia.System

/-- The pages that are mapped. -/
lemma AddressSpace.Backs.inRange_iff {start addr : VirtAddr} {len size : NonZeroUsize}
    {offset : BitVec 64} (h : Backs start len addr size) (hmap : Mappable addr size offset)
    (page : ℕ) : InRange addr size page ↔ MmapPage start len page := by
  obtain ⟨haligned, -, -, hend⟩ := hmap
  have hpos := size.toNat_pos
  cases h with
  | same =>
    rw [isPageAligned] at haligned
    rw [MmapPage]
    simp only [InRange, pageSize] at *
    omega
  | rounded hsize =>
    rw [InRange, MmapPage, toNat_pageStart, toNat_rounded hsize]
    rw [toNat_rounded hsize] at hpos
    simp only [pageSize] at *
    omega

lemma System.processes_truncate {sys sys' : System} {o length : ℕ}
    (h : sys.truncate o length = some sys') :
    sys'.spaces = sys.spaces ∧ sys'.faults = sys.faults := by
  obtain ⟨m, -, hrest⟩ := bind_eq_some_iff.mp h
  cases m with
  | buffer addr size => cases hrest
  | paged cache =>
    obtain ⟨⟨cache', ram⟩, -, heq⟩ := bind_eq_some_iff.mp hrest
    cases heq
    exact ⟨rfl, rfl⟩

namespace INode

variable {inode : INode} {flags : OpenFlags} {sys sys' : System}

lemma processes_truncate {r : EResult Unit} (h : inode.truncate flags sys = some (r, sys')) :
    sys'.spaces = sys.spaces ∧ sys'.faults = sys.faults := by
  unfold INode.truncate at h
  split at h
  · split_ifs at h
    · cases h
      exact ⟨rfl, rfl⟩
    · obtain ⟨sys₁, htrunc, heq⟩ := map_eq_some_iff.mp h
      cases heq
      exact System.processes_truncate htrunc
  · split_ifs at h
    · cases h
      exact ⟨rfl, rfl⟩
    · split at h
      · cases h
        exact ⟨rfl, rfl⟩
      · obtain ⟨sys₁, htrunc, heq⟩ := map_eq_some_iff.mp h
        cases heq
        exact System.processes_truncate htrunc
  · cases h
    exact ⟨rfl, rfl⟩

/-- Opening a file may truncate it, and leaves the processes alone. -/
lemma processes_open {r : EResult File} (h : inode.open flags sys = some (r, sys')) :
    sys'.spaces = sys.spaces ∧ sys'.faults = sys.faults := by
  unfold INode.open INode.doOpenInode at h
  split_ifs at h
  · cases h
    exact ⟨rfl, rfl⟩
  · cases h
    exact ⟨rfl, rfl⟩
  · split at h
    · cases h
      exact ⟨rfl, rfl⟩
    · obtain ⟨⟨res, sys₁⟩, htrunc, heq⟩ := map_eq_some_iff.mp h
      cases heq
      exact processes_truncate htrunc
  · split at h
    all_goals
      cases h
      exact ⟨rfl, rfl⟩

end INode

namespace Provenance

variable {caches : Set ℕ} {t t' : Provenance}

/-- A page of a process may be what it is if it has been mapped through `origin`: a shared page of
a regular file has an open file, and is writable only if that is open for writing. -/
def Grants (caches : Set ℕ) (origin : Option File) (p : PageMapping ObjectRef) : Prop :=
  p.flags.shared → p.object.id ∈ caches →
    ∃ file, origin = some file ∧ (p.flags.write → file.flags.write)

/-- The private copies that are about to be installed are not pages of files. -/
def CopyOf (caches : Set ℕ) (f : Fault) : Prop :=
  ∀ cowObject phys, f.paged = some (cowObject, phys) →
    cowObject.isSome = f.resolved.cowWrite ∧ ∀ o, cowObject = some o → o.id ∉ caches

structure Inv (caches : Set ℕ) (t : Provenance) : Prop where
  wf : ∀ pid s, t.sys.spaces pid = some s → s.Wf
  copies : ∀ n f, t.sys.faults n = some f → CopyOf caches f
  origins : ∀ pid s page p, t.sys.spaces pid = some s → s.lookup page = some p →
    Grants caches (t.origin pid page) p

lemma Inv.writesAllowed (h : t.Inv caches) : t.WritesAllowed caches := by
  rintro pid page offset byte sys' hstore ⟨p, hp, hshared, hcache⟩
  obtain ⟨s, hs, hwrite, -⟩ := exists_of_store hstore
  obtain ⟨s', hs', hlook⟩ := mapping_eq_some.mp hp
  rw [hs] at hs'
  cases hs'
  obtain ⟨file, hfile, hflag⟩ := h.origins pid s page p hs hlook hshared hcache
  exact ⟨file, hfile, hflag ((h.wf pid s hs).writable page p hwrite hlook).1⟩

/-- The page of a process is no more than it was. -/
lemma Grants.mono {origin : Option File} {p q : PageMapping ObjectRef} (h : Grants caches origin p)
    (hshared : q.flags.shared → p.flags.shared) (hobject : q.object = p.object)
    (hwrite : q.flags.write → p.flags.write) : Grants caches origin q := by
  intro hq hcache
  obtain ⟨file, hfile, hflag⟩ := h (hshared hq) (hobject ▸ hcache)
  exact ⟨file, hfile, fun hw => hflag (hwrite hw)⟩

section

variable (h : t.Inv caches) {pid : ℕ} {addr : VirtAddr} {sys' : System} {size : Usize}
  {r : EResult Usize}

include h

/-- The address spaces stay as they are. -/
lemma Inv.quiet (horigin : t'.origin = t.origin) (hspaces : t'.sys.spaces = t.sys.spaces)
    (hfaults : ∀ n f, t'.sys.faults n = some f → CopyOf caches f) : t'.Inv caches := by
  refine ⟨fun pid s hs => h.wf pid s (hspaces ▸ hs), hfaults, fun pid s page p hs hp => ?_⟩
  rw [horigin]
  exact h.origins pid s page p (hspaces ▸ hs) hp

/-- One address space changes. -/
lemma Inv.setSpace {s' : AddressSpace ObjectRef} (hwf : s'.Wf)
    (hspaces : t'.sys.spaces = (t.sys.setSpace pid s').spaces)
    (hfaults : ∀ n f, t'.sys.faults n = some f → t.sys.faults n = some f)
    (horigin : ∀ pid', pid' ≠ pid → t'.origin pid' = t.origin pid')
    (hgrants : ∀ page q, s'.lookup page = some q → Grants caches (t'.origin pid page) q) :
    t'.Inv caches := by
  refine ⟨fun pid' s hs => ?_, fun n f hf => h.copies n f (hfaults n f hf),
    fun pid' s page p hs hp => ?_⟩
  all_goals
    rw [hspaces, spaces_setSpace] at hs
    split_ifs at hs with hpid
  · cases hs
    exact hwf
  · exact h.wf pid' s hs
  · cases hs
    exact hpid ▸ hgrants page p hp
  · rw [horigin pid' hpid]
    exact h.origins pid' s page p hs hp

lemma Inv.mmap {new : ℕ} {length : Usize} {prot flags fd : BitVec 32} {offset : BitVec 64}
    {r : EResult VirtAddr} (hnew : new ∉ caches)
    (hpermitted : t.Permitted caches (.mmap pid prot flags fd))
    (hcall : t.sys.mmap pid new (t.ops pid) addr length prot flags fd offset = some (r, sys')) :
    Inv caches { t with
      sys := sys', origin := t.mapped pid length (t.mmapFile pid flags fd) r } := by
  obtain ⟨⟨r', sys₁⟩, hspace, heq⟩ := bind_eq_some_iff.mp hcall
  cases heq
  obtain ⟨s, s', hs, hs', rfl⟩ := exists_of_call hspace
  obtain ⟨rfl, e, rfl⟩ | ⟨len, start, object, addr', size, vmProt, offset', hlen, -, rfl, hasks, heff,
    hmap⟩ := mmap_cases (h.wf pid s hs) hs'
  · exact h.setSpace (h.wf pid _ hs) (by split_ifs <;> rfl) (by split_ifs <;> exact fun _ _ => id)
      (fun _ _ => rfl) fun page q hq => h.origins pid _ page q hs hq
  · refine h.setSpace ((h.wf pid s hs).map heff) (by split_ifs <;> rfl)
      (by split_ifs <;> exact fun _ _ => id) (fun pid' hpid => ?_) fun page q hq => ?_
    · exact update_of_ne hpid _ _
    · have horigin : t.mapped pid length (t.mmapFile pid flags fd) (.ok start) pid page =
          if MmapPage start len page then t.mmapFile pid flags fd else t.origin pid page := by
        simp only [mapped, update_self, hlen]
      simp only [heff.lookup, hasks.range.inRange_iff hmap] at hq
      dsimp only
      rw [horigin]
      split_ifs at hq ⊢
      · cases hq
        intro hshared hcache
        obtain ⟨-, hobject⟩ | ⟨hanon, f, hf, -⟩ := hasks.object
        · rw [hobject] at hcache
          exact absurd hcache hnew
        · obtain ⟨file, hfile, -⟩ := map_eq_some_iff.mp hf
          have hmmap : t.mmapFile pid flags fd = some file := by
            rw [mmapFile, if_neg hanon, hfile]
          refine ⟨file, hmmap, fun hwrite => ?_⟩
          exact hpermitted (hasks.shared ▸ hshared) (hasks.write ▸ hwrite) file hmmap
      · exact h.origins pid s page q hs hq

lemma Inv.mprotect {prot : BitVec 32}
    (hpermitted : t.Permitted caches (.mprotect pid addr size prot))
    (hcall : t.sys.mprotect pid addr size prot = some (r, sys')) :
    Inv caches { t with sys := sys' } := by
  obtain ⟨s, s', hs, hs', rfl⟩ := exists_of_call hcall
  have hwf := h.wf pid s hs
  obtain rfl | ⟨-, len, hlen, heff⟩ := mprotect_cases hwf hs'
  · exact h.setSpace hwf rfl (fun _ _ => id) (fun _ _ => rfl) fun page q hq =>
      h.origins pid _ page q hs hq
  · refine h.setSpace (hwf.protect heff) rfl (fun _ _ => id) (fun _ _ => rfl) fun page q hq => ?_
    rw [heff.lookup] at hq
    split_ifs at hq with hin
    · obtain ⟨p, hp, rfl⟩ := map_eq_some_iff.mp hq
      intro hshared hcache
      obtain ⟨file, hfile, -⟩ := h.origins pid s page p hs hp hshared hcache
      refine ⟨file, hfile, fun hwrite => ?_⟩
      exact hpermitted hwrite len page hlen hin.1
        ⟨p, mapping_eq_some.mpr ⟨s, hs, hp⟩, hshared, hcache⟩ file hfile
    · exact h.origins pid s page q hs hq

lemma Inv.munmap (hcall : t.sys.munmap pid addr size = some (r, sys')) :
    Inv caches { t with sys := sys' } := by
  obtain ⟨s, s', hs, hs', rfl⟩ := exists_of_call hcall
  obtain rfl | ⟨hwf, len, heff⟩ := munmap_cases (h.wf pid s hs) hs'
  · exact h.setSpace (h.wf pid _ hs) rfl (fun _ _ => id) (fun _ _ => rfl) fun page q hq =>
      h.origins pid _ page q hs hq
  · refine h.setSpace hwf rfl (fun _ _ => id) (fun _ _ => rfl) fun page q hq => ?_
    rw [heff.lookup] at hq
    split_ifs at hq
    exact h.origins pid s page q hs hq

lemma Inv.fork {child : ℕ} (hcall : t.sys.fork pid child = some sys')
    (openFiles : ℕ → BitVec 32 → Option File) :
    Inv caches ⟨sys', openFiles, update t.origin child (t.origin pid)⟩ := by
  obtain ⟨s, hs, heq⟩ := bind_eq_some_iff.mp hcall
  cases heq
  have hwf := h.wf pid s hs
  have hgrants : ∀ page q, (s.lookup page).map (·.fork) = some q →
      Grants caches (t.origin pid page) q := by
    intro page q hq
    obtain ⟨p, hp, rfl⟩ := map_eq_some_iff.mp hq
    refine (h.origins pid s page p hs hp).mono ?_ p.same_fork.object ?_
    · exact p.same_fork.shared ▸ id
    · rw [PageMapping.fork]
      split_ifs <;> exact id
  have hparent : Inv caches { t with sys := t.sys.setSpace pid s.fork.1 } :=
    h.setSpace hwf.fork_parent rfl (fun _ _ => id) (fun _ _ => rfl) fun page q hq =>
      hgrants page q (lookup_fork_parent s page ▸ hq)
  refine hparent.setSpace hwf.fork_child rfl (fun _ _ => id) (fun pid' hpid => ?_)
    fun page q hq => ?_
  · exact update_of_ne hpid _ _
  · dsimp only
    rw [update_self]
    exact hgrants page q (lookup_fork_child s page ▸ hq)

lemma Inv.install {n : ℕ} {f : Fault} {cowObject : Option ObjectRef} {phys : PhysAddr}
    (hf : t.sys.faults n = some f) (hpaged : f.paged = some (cowObject, phys))
    (hcall : t.sys.install f.pid f.info f.resolved cowObject phys = some sys') :
    Inv caches { t with sys := sys'.setFault n none } := by
  obtain ⟨s, s', hs, hs', rfl⟩ := exists_of_install hcall
  have hwf := h.wf f.pid s hs
  obtain ⟨hcow, hobject⟩ := h.copies n f hf cowObject phys hpaged
  have hfaults : ∀ n' f', ((t.sys.setSpace f.pid s').setFault n none).faults n' = some f' →
      t.sys.faults n' = some f' := by
    intro n' f' hf'
    rw [faults_setFault] at hf'
    split_ifs at hf'
    exact hf'
  obtain rfl | ⟨p, heff⟩ := effect_of_install hwf hs'
  · exact h.setSpace hwf rfl hfaults (fun _ _ => rfl) fun page q hq => h.origins _ _ page q hs hq
  · refine h.setSpace (hwf.fault hcow heff) rfl hfaults (fun _ _ => rfl) fun page q hq => ?_
    rw [heff.lookup] at hq
    split_ifs at hq with hpage
    · cases cowObject with
      | none =>
        cases hq
        exact hpage ▸ h.origins _ s _ _ hs heff.mapped
      | some o =>
        cases hq
        exact fun _ hcache => absurd hcache (hobject o rfl)
    · exact h.origins _ s page q hs hq

lemma Inv.store {page : ℕ} {offset : Fin pageSize} {byte : BitVec 8}
    (hcall : t.sys.store pid page offset byte = some sys') : Inv caches { t with sys := sys' } := by
  obtain ⟨s, hs, -, rfl⟩ := exists_of_store hcall
  refine h.setSpace ((h.wf pid s hs).sameCore (sameCore_touch s.table page true)) rfl
    (fun _ _ => id) (fun _ _ => rfl) fun page q hq => h.origins pid s page q hs hq

lemma Inv.step {e : Event} (hpermitted : t.Permitted caches e) (hstep : Step caches t e t') :
    t'.Inv caches := by
  cases hstep with
  | spawn hfree hnew =>
    refine h.setSpace (Wf.new hnew) rfl (fun _ _ => id) (fun _ _ => rfl) fun page q hq => ?_
    cases hnew
    cases hq
  | newObject source hfree => exact h.quiet rfl rfl h.copies
  | openat inode oflag hfd hopen =>
    obtain ⟨hspaces, hfaults⟩ := INode.processes_open hopen
    exact h.quiet rfl hspaces fun n f hf => h.copies n f (hfaults ▸ hf)
  | openatError inode oflag hopen =>
    obtain ⟨hspaces, hfaults⟩ := INode.processes_open hopen
    exact h.quiet rfl hspaces fun n f hf => h.copies n f (hfaults ▸ hf)
  | close pid fd => exact h.quiet rfl rfl h.copies
  | mmap addr length prot flags fd offset _ hcaches hcall => exact h.mmap hcaches hpermitted hcall
  | mprotect addr size prot hcall => exact h.mprotect hpermitted hcall
  | munmap addr size hcall => exact h.munmap hcall
  | fork hfree hcall => exact h.fork hcall _
  | exit pid =>
    have hspaces : ∀ pid' s, (t.sys.exit pid).spaces pid' = some s → t.sys.spaces pid' = some s := by
      intro pid' s hs
      simp only [exit, update_apply] at hs
      split_ifs at hs
      exact hs
    exact ⟨fun pid' s hs => h.wf pid' s (hspaces pid' s hs),
      fun n f hf => h.copies n f (filter_eq_some_iff.mp hf).1,
      fun pid' s page p hs => h.origins pid' s page p (hspaces pid' s hs)⟩
  | resolve info hfree hs hresolve =>
    refine h.quiet rfl rfl fun n f hf => ?_
    rw [faults_setFault] at hf
    split_ifs at hf
    · cases hf
      exact fun _ _ hpaged => by cases hpaged
    · exact h.copies n f hf
  | pageIn hf hpaged hnew hcaches hcall =>
    obtain ⟨hfetch, hcow⟩ := fetch_pageIn hnew hcall
    obtain ⟨hspaces, hfaults⟩ := processes_of_fetch hfetch
    refine h.quiet rfl hspaces fun n f' hf' => ?_
    rw [faults_setFault] at hf'
    split_ifs at hf'
    · obtain ⟨⟨cowObject, phys⟩, hres, rfl⟩ := map_eq_some_iff.mp hf'
      intro cowObject' phys' hpaged'
      cases hpaged'
      obtain rfl := hcow cowObject phys hres
      split_ifs with hwrite
      · refine ⟨hwrite.symm, fun o ho => ?_⟩
        cases ho
        exact hcaches
      · exact ⟨(eq_false_of_not_eq_true hwrite).symm, fun o ho => by cases ho⟩
    · exact h.copies n f' (hfaults ▸ hf')
  | install hf hpaged hcall => exact h.install hf hpaged hcall
  | store page offset byte hcall => exact h.store hcall

end

lemma Reachable.inv {pmm : Pmm} (h : Reachable caches (Permitted caches) pmm t) :
    t.Inv caches := by
  induction h with
  | boot mem =>
    refine ⟨fun pid s hs => ?_, fun n f hf => ?_, fun pid s page p hs => ?_⟩
    · cases hs
    · cases hf
    · cases hs
  | step _ hpermitted hstep ih => exact ih.step hpermitted hstep

/-- In every run whose steps give no shared page of a regular file write permission unless its
descriptor was opened for writing, every store to a shared page of a regular file is to one that
was mapped through a descriptor that had been opened for writing. -/
theorem Reachable.writesAllowed_of_permitted {pmm : Pmm}
    (h : Reachable caches (Permitted caches) pmm t) : t.WritesAllowed caches :=
  h.inv.writesAllowed

/-! ### A file that is opened and mapped -/

/-- A process has opened a file with the descriptor 3. -/
def opened (pmm : Pmm) (oflag : BitVec 32) : Provenance :=
  { sys := System.oneFile pmm
    openFiles := update (fun _ _ => none) 1
      (update (fun _ => none) 3 (some ⟨.ext2 ⟨0, .normal⟩, .ofBits oflag⟩))
    origin := fun _ _ => none }

lemma ops_opened (pmm : Pmm) (oflag : BitVec 32) :
    (opened pmm oflag).ops 1 = update (fun _ => none) 3 (some (.ext2 ⟨0, .normal⟩)) := by
  funext fd
  simp only [ops, opened, update_self, update_apply, apply_ite (Option.map _),
    Option.map_some, Option.map_none]

/-- The process then maps a shared page of the file with read and write permission, and is able to
store to it. -/
lemma exists_mapped (Guard : Provenance → Event → Prop) (oflag : BitVec 32)
    (hother : ∀ t, Guard t .other)
    (hmmap : ∀ pmm, Guard (opened pmm oflag) (.mmap 1 0x3 0x11 3))
    (hopen : ∀ sys, INode.open ⟨true, false, .ext2 ⟨0, .normal⟩, ⟨.ok (), .ok ()⟩⟩ (.ofBits oflag)
      sys = some (.ok ⟨.ext2 ⟨0, .normal⟩, .ofBits oflag⟩, sys)) :
    ∃ pmm t sys', smallMap.init = some pmm ∧
      Reachable {0} Guard pmm t ∧ t.sys.store 1 0x100000 0 7 = some sys' ∧
      t.SharedFile {0} 1 0x100000 ∧
      t.origin 1 0x100000 = some ⟨.ext2 ⟨0, .normal⟩, .ofBits oflag⟩ ∧
      t.sys.content 0 0 0 = 0 ∧ sys'.content 0 0 0 = 7 := by
  have hrun : (smallMap.init.any fun pmm =>
      (((oneFile pmm).mmap 1 1 (update (fun _ => none) 3
        (some (.ext2 ⟨0, .normal⟩))) 0x100000000 0x1000 0x3 0x11 3 0).any fun x =>
          x.1.toOption == some 0x100000000) &&
      ((oneFile pmm).mapAndFault 1 1 2 0 (update (fun _ => none) 3
        (some (.ext2 ⟨0, .normal⟩))) 0x1000 0x11 0 ⟨0, 0x100000000, true, true, false, false⟩).any
          fun sys => ((sys.mapping 1 0x100000).any fun p => p.flags.shared && p.object.id == 0) &&
            sys.content 0 0 0 == 0 &&
            (sys.store 1 0x100000 0 7).any fun sys' => sys'.content 0 0 0 == 7) = true := by
    decide +kernel
  obtain ⟨pmm, hinit, hrun⟩ := (any_eq_true _ _).mp hrun
  rw [and_eq_true, ← ops_opened pmm oflag] at hrun
  obtain ⟨⟨r, sys₀⟩, hstart, hr⟩ := (any_eq_true _ _).mp hrun.1
  obtain ⟨sys', hsys, hrest⟩ := (any_eq_true _ _).mp hrun.2
  simp only [and_eq_true, beq_iff_eq] at hrest
  obtain ⟨p, hp, hshared⟩ := (any_eq_true _ _).mp hrest.1.1
  rw [and_eq_true, beq_iff_eq] at hshared
  obtain ⟨sys'', hstore, hbyte⟩ := (any_eq_true _ _).mp hrest.2
  obtain ⟨r', sys₁, s, resolved, sys₂, cowObject, phys, sys₃, hcall, ⟨hfaults, hobjects, -⟩, hs,
    hresolve, hpage, hinstall, rfl⟩ := exists_of_mapAndFault rfl (by decide) rfl hsys
  rw [hcall] at hstart
  cases hstart
  have h₀ : Reachable {0} Guard pmm (opened pmm oflag) :=
    (((Reachable.boot fun _ _ => 0).step (hother _) (.spawn rfl new_eq)).step (hother _)
      (.newObject physPager rfl)).step (hother _) (.openat _ oflag rfl (hopen _))
  have h₁ := h₀.step (hmmap pmm) (.mmap _ _ _ _ _ _ rfl (by decide) hcall)
  have h₂ := h₁.step (hother _) (.resolve _ hfaults hs hresolve)
  have h₃ := h₂.step (hother _) (.pageIn (update_self _ _ _) rfl hobjects (by decide) hpage)
  have h₄ := h₃.step (hother _) (.install (update_self _ _ _) rfl hinstall)
  refine ⟨pmm, _, sys'', hinit, h₄, hstore, ⟨p, hp, hshared.1, hshared.2⟩, ?_, hrest.1.2,
    beq_iff_eq.mp hbyte⟩
  cases r with
  | error e => cases hr
  | ok start =>
    obtain rfl : start = 0x100000000 := some.inj (beq_iff_eq.mp hr)
    rfl

/-- A file that was opened for reading and writing. -/
theorem writesAllowed_readWrite : ∃ pmm t sys', Reachable {0} (Permitted {0}) pmm t ∧
    t.sys.store 1 0x100000 0 7 = some sys' ∧ t.SharedFile {0} 1 0x100000 ∧
    ∃ file, t.origin 1 0x100000 = some file ∧ file.flags.write := by
  obtain ⟨pmm, t, sys', -, hreach, hstore, hshared, -⟩ :=
    exists_mapped (Permitted {0}) 0x3 (fun _ => trivial) (fun pmm _ _ file hfile => by
      cases hfile
      rfl) fun _ => rfl
  exact ⟨pmm, t, sys', hreach, hstore, hshared,
    hreach.writesAllowed_of_permitted 1 0x100000 0 7 sys' hstore hshared⟩

/-- A file that was opened for reading only. The store changes the file. -/
theorem not_writesAllowed_readOnly : ∃ pmm t sys',
    System.smallMap.init = some pmm ∧ Reachable {0} (fun _ _ => True) pmm t ∧
      t.sys.store 1 0x100000 0 7 = some sys' ∧
      t.SharedFile {0} 1 0x100000 ∧ t.sys.content 0 0 0 = 0 ∧ sys'.content 0 0 0 = 7 ∧
      t.origin 1 0x100000 = some ⟨.ext2 ⟨0, .normal⟩, .ofBits 0x1⟩ ∧
      ¬ (OpenFlags.ofBits 0x1).write ∧ ¬ t.WritesAllowed {0} := by
  obtain ⟨pmm, t, sys', hinit, hreach, hstore, hshared, horigin, hbefore, hafter⟩ :=
    exists_mapped (fun _ _ => True) 0x1 (fun _ => trivial) (fun _ => trivial) fun _ => rfl
  have hread : ¬ (OpenFlags.ofBits 0x1).write := by decide
  refine ⟨pmm, t, sys', hinit, hreach, hstore, hshared, hbefore, hafter, horigin, hread,
    fun hall => ?_⟩
  obtain ⟨file, hfile, hwrite⟩ := hall 1 0x100000 0 7 sys' hstore hshared
  rw [horigin] at hfile
  cases hfile
  exact hread hwrite

end Provenance

end Zinnia
