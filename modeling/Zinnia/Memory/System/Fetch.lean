import Zinnia.Memory.System

/-!
# Bringing in a page

The second part of the page fault handler fetches pages of objects, creates an object for a private
copy, and copies bytes. Whatever is kept by each of these is kept by the whole.
-/

namespace Zinnia.System

open Option

/-- One of the things that are done to bring in a page. -/
inductive Fetch (sys : System) : System → Prop
  | getPage {o k res sys'} : sys.tryGetPage o k = some (res, sys') → Fetch sys sys'
  | newObject {o} : sys.objects o = none → Fetch sys (sys.newObject o physPager)
  | ram (ram) : Fetch sys { sys with ram }

open Relation

variable {sys sys' : System}

lemma objects_tryGetPage {o o' k : ℕ} {res : EResult (Option PhysAddr)}
    (ho' : sys.objects o' = none) (h : sys.tryGetPage o k = some (res, sys')) :
    sys'.objects o' = none := by
  obtain ⟨m, ho, hrest⟩ := bind_eq_some_iff.mp h
  obtain ⟨⟨res', m', ram⟩, -, heq⟩ := bind_eq_some_iff.mp hrest
  cases heq
  rw [objects_setObject, if_neg]
  · exact ho'
  · rintro rfl
    rw [ho] at ho'
    cases ho'

lemma fetch_copyFrom {target targetOffset src srcOffset len fuel progress : ℕ} {res : EResult ℕ}
    (h : copyFrom target targetOffset src srcOffset len fuel progress sys = some (res, sys')) :
    ReflTransGen Fetch sys sys' := by
  induction fuel generalizing progress sys with
  | zero => cases h
  | succ fuel ih =>
    rw [copyFrom] at h
    split_ifs at h
    · obtain ⟨⟨res₁, sys₁⟩, hget, hrest⟩ := bind_eq_some_iff.mp h
      refine .head (.getPage hget) ?_
      rcases res₁ with e | (_ | page)
      · cases hrest
        exact .refl
      · cases hrest
        exact .refl
      · obtain ⟨⟨res₂, sys₂⟩, hget', hrest⟩ := bind_eq_some_iff.mp hrest
        refine .head (.getPage hget') ?_
        rcases res₂ with e | (_ | srcPage)
        · cases hrest
          exact .refl
        · cases hrest
          exact .refl
        · exact .head (.ram _) (ih hrest)
    · cases h
      exact .refl

variable {new : ℕ} {resolved : ResolvedFault ObjectRef}
  {res : Option (Option ObjectRef × PhysAddr)}

/-- What is copied is a page of the new object. -/
lemma fetch_privateCopy (hnew : sys.objects new = none)
    (h : sys.privateCopy new resolved = some (res, sys')) : ReflTransGen Fetch sys sys' ∧
      ∀ cowObject phys, res = some (cowObject, phys) → cowObject = some ⟨new, .normal⟩ := by
  obtain ⟨⟨res₁, sys₁⟩, hcopy, hrest⟩ := bind_eq_some_iff.mp h
  have hfetch : ReflTransGen Fetch sys sys₁ := .head (.newObject hnew) (fetch_copyFrom hcopy)
  cases res₁ with
  | error e =>
    cases hrest
    exact ⟨hfetch, fun _ _ hres => by cases hres⟩
  | ok n =>
    obtain ⟨⟨res₂, sys₂⟩, hget, hrest⟩ := bind_eq_some_iff.mp hrest
    have hfetch' := hfetch.tail (.getPage hget)
    rcases res₂ with e | (_ | phys)
    · cases hrest
      exact ⟨hfetch', fun _ _ hres => by cases hres⟩
    · cases hrest
      exact ⟨hfetch', fun _ _ hres => by cases hres⟩
    · cases hrest
      refine ⟨hfetch', fun _ _ hres => ?_⟩
      cases hres
      rfl

/-- There is a private copy exactly if the page is to be copied, and it is a page of the new
object. -/
lemma fetch_pageIn (hnew : sys.objects new = none)
    (h : sys.pageIn new resolved = some (res, sys')) : ReflTransGen Fetch sys sys' ∧
      ∀ cowObject phys, res = some (cowObject, phys) →
        cowObject = if resolved.cowWrite then some ⟨new, .normal⟩ else none := by
  obtain ⟨⟨res₁, sys₁⟩, hget, hrest⟩ := bind_eq_some_iff.mp h
  rcases res₁ with e | (_ | phys)
  · cases hrest
    exact ⟨.single (.getPage hget), fun _ _ hres => by cases hres⟩
  · cases hrest
    exact ⟨.single (.getPage hget), fun _ _ hres => by cases hres⟩
  · dsimp only at hrest
    split_ifs at hrest with hcow
    · obtain ⟨hfetch, hobject⟩ := fetch_privateCopy (objects_tryGetPage hnew hget) hrest
      rw [if_pos hcow]
      exact ⟨.head (.getPage hget) hfetch, hobject⟩
    · cases hrest
      refine ⟨.single (.getPage hget), fun _ _ hres => ?_⟩
      cases hres
      rw [if_neg hcow]

/-- The processes and their faults do not change. -/
lemma Fetch.processes (h : Fetch sys sys') :
    sys'.spaces = sys.spaces ∧ sys'.faults = sys.faults := by
  cases h with
  | getPage hget =>
    obtain ⟨m, -, hrest⟩ := bind_eq_some_iff.mp hget
    obtain ⟨⟨res, m', ram⟩, -, heq⟩ := bind_eq_some_iff.mp hrest
    cases heq
    exact ⟨rfl, rfl⟩
  | newObject _ => exact ⟨rfl, rfl⟩
  | ram _ => exact ⟨rfl, rfl⟩

lemma processes_of_fetch (h : ReflTransGen Fetch sys sys') :
    sys'.spaces = sys.spaces ∧ sys'.faults = sys.faults := by
  induction h with
  | refl => exact ⟨rfl, rfl⟩
  | tail _ hstep ih => exact ⟨hstep.processes.1.trans ih.1, hstep.processes.2.trans ih.2⟩

end Zinnia.System
