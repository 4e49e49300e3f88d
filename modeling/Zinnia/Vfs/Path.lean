import Zinnia.Util

/-!
# Absolute paths

Entries have a name and a parent, mounts have a root and a mount point; the number of an entry or
of a mount stands for the pointer to it. The path of a node is assembled from its end, on the way
up through parents and mount points. Mounts may share their root, as those of devtmpfs do.
-/

namespace Zinnia.Vfs

/-- The bytes of a path or of one of its components. -/
abbrev Name := List UInt8

abbrev slash : UInt8 := 47

/-- `PATH_MAX`. -/
abbrev pathMax : ℕ := 4096

structure PathNode where
  mount : ℕ
  entry : ℕ
deriving DecidableEq

structure Entry where
  name : Name
  parent : Option ℕ

structure Mount where
  root : ℕ
  mountPoint : Option PathNode

/-- All entries and mounts. -/
structure Tree where
  entry : ℕ → Entry
  mount : ℕ → Mount

/-- An error that is returned, or a panic of the kernel. -/
inductive Fault where
  | errno (e : Errno)
  | panic
deriving DecidableEq

namespace Tree

section

variable (s : Tree)

/-- The loop of `PathNode::absolute_path`, if it ends after at most `fuel` rounds. `path` is the end
of the buffer that is filled. -/
def pathFrom (root : PathNode) : ℕ → PathNode → List UInt8 → Option (Except Fault (List UInt8))
  | 0, _, _ => none
  | fuel + 1, node, path =>
    if node = root then some (.ok path)
    else if node.entry = (s.mount node.mount).root then
      match (s.mount node.mount).mountPoint with
      | some mountPoint => pathFrom root fuel mountPoint path
      | none => some (.error (.errno .enoent))
    else
      let name := (s.entry node.entry).name
      -- the cursor wraps around, and the slice is out of range
      if name ≠ [] ∧ pathMax < path.length + name.length + 1 then some (.error .panic)
      else
        match (s.entry node.entry).parent with
        | some parent =>
          pathFrom root fuel ⟨node.mount, parent⟩
            (if name = [] then path else slash :: name ++ path)
        | none => some (.error (.errno .enoent))

/-- `PathNode::absolute_path`. The root itself resolves to `/`. -/
def absolutePath (fuel : ℕ) (node root : PathNode) : Option (Except Fault (List UInt8)) :=
  (s.pathFrom root fuel node []).map (·.map fun path => if path = [] then [slash] else path)

/-- The next node on the way up: the parent or, at the root of a mount, the mount point. -/
def above (node : PathNode) : Option PathNode :=
  if node.entry = (s.mount node.mount).root then (s.mount node.mount).mountPoint
  else (s.entry node.entry).parent.map (⟨node.mount, ·⟩)

/-- The name that a node adds to a path. The root of a mount has that of its mount point. -/
def pathName (node : PathNode) : Name :=
  if node.entry = (s.mount node.mount).root then [] else (s.entry node.entry).name

end

variable {s : Tree} {root node : PathNode} {names : List Name} {found : Bool} {path : List UInt8}

/-- The names from `root` to a node; if `root` is not found, from where the way up ends. -/
inductive Leads (s : Tree) (root : PathNode) : PathNode → List Name → Bool → Prop where
  | root : Leads s root root [] true
  | lost {node : PathNode} (hne : node ≠ root) (hup : s.above node = none) :
      Leads s root node [s.pathName node] false
  | up {node up : PathNode} {names : List Name} {found : Bool} (hne : node ≠ root)
      (hup : s.above node = some up) (h : Leads s root up names found) :
      Leads s root node (names ++ [s.pathName node]) found

/-- Names with a slash before each of them. -/
def joined (names : List Name) : List UInt8 :=
  names.flatMap fun name => if name = [] then [] else slash :: name

/-- One round of the loop, while the path so far fits. -/
lemma pathFrom_succ (hne : node ≠ root) (fuel : ℕ) (hpath : path.length ≤ pathMax) :
    s.pathFrom root (fuel + 1) node path =
      if (joined [s.pathName node] ++ path).length ≤ pathMax then
        match s.above node with
        | some up => s.pathFrom root fuel up (joined [s.pathName node] ++ path)
        | none => some (.error (.errno .enoent))
      else some (.error .panic) := by
  rw [pathFrom, if_neg hne]
  by_cases htop : node.entry = (s.mount node.mount).root
  · simp only [above, pathName, if_pos htop]
    exact (if_pos hpath).symm
  · simp only [above, pathName, if_neg htop]
    by_cases hname : (s.entry node.entry).name = []
    · have hjoined : joined [(s.entry node.entry).name] = [] := by simp [joined, hname]
      rw [hjoined, List.nil_append, if_pos hpath, if_neg (by simp [hname]), if_pos hname]
      cases (s.entry node.entry).parent <;> rfl
    · have hjoined : joined [(s.entry node.entry).name] = slash :: (s.entry node.entry).name := by
        simp [joined, hname]
      rw [hjoined, List.length_append, List.length_cons, if_neg hname]
      by_cases hfits : (s.entry node.entry).name.length + 1 + path.length ≤ pathMax
      · rw [if_pos hfits, if_neg (by omega)]
        cases (s.entry node.entry).parent <;> rfl
      · rw [if_neg hfits, if_pos ⟨hname, by omega⟩]

/-- What the loop returns for the names on the way up. -/
def outcome (names : List Name) (found : Bool) (path : List UInt8) : Except Fault (List UInt8) :=
  if (joined names ++ path).length ≤ pathMax then
    if found then .ok (joined names ++ path) else .error (.errno .enoent)
  else .error .panic

lemma Leads.pathFrom_eq (h : s.Leads root node names found) :
    ∃ rounds, ∀ fuel ≥ rounds, ∀ path, path.length ≤ pathMax →
      s.pathFrom root fuel node path = some (outcome names found path) := by
  induction h with
  | root =>
    refine ⟨1, fun fuel hfuel path hpath => ?_⟩
    obtain ⟨fuel, rfl⟩ := Nat.exists_eq_add_of_le' hfuel
    rw [pathFrom, if_pos rfl, outcome, if_pos (by exact hpath)]
    rfl
  | lost hne hup =>
    refine ⟨1, fun fuel hfuel path hpath => ?_⟩
    obtain ⟨fuel, rfl⟩ := Nat.exists_eq_add_of_le' hfuel
    rw [pathFrom_succ hne fuel hpath, hup, outcome]
    split_ifs with hfits hfound
    · cases hfound
    · rfl
    · rfl
  | @up node up names found hne hup h ih =>
    obtain ⟨rounds, ih⟩ := ih
    refine ⟨rounds + 1, fun fuel hfuel path hpath => ?_⟩
    obtain ⟨fuel, rfl⟩ := Nat.exists_eq_add_of_le' (Nat.one_le_of_lt hfuel)
    have hjoined : joined (names ++ [s.pathName node]) ++ path =
        joined names ++ (joined [s.pathName node] ++ path) := by
      rw [← List.append_assoc]
      exact congrArg (· ++ path) List.flatMap_append
    rw [pathFrom_succ hne fuel hpath, hup, outcome, hjoined]
    split_ifs with hname hfits hfound hfits
    · exact (ih fuel (by omega) _ hname).trans (by rw [outcome, if_pos hfits, if_pos hfound])
    · exact (ih fuel (by omega) _ hname).trans (by rw [outcome, if_pos hfits, if_neg hfound])
    · exact (ih fuel (by omega) _ hname).trans (by rw [outcome, if_neg hfits])
    -- the path does not get shorter on the way up
    · rw [List.length_append] at hfits
      omega
    · rw [List.length_append] at hfits
      omega
    · rfl

/-- What is to be returned: the names from the root to the node, each behind a slash, or an error if
these do not fit or the root is not found. -/
def Resolves (names : List Name) (found : Bool) : Except Fault (List UInt8) → Prop
  | .ok path => found ∧ (joined names).length ≤ pathMax ∧
      path = if joined names = [] then [slash] else joined names
  | .error (.errno _) => ¬ (found ∧ (joined names).length ≤ pathMax)
  | .error .panic => False

/-- The loop ends for every node, and returns what it should exactly if the names on the way up fit
into the buffer. -/
theorem absolutePath_iff (h : s.Leads root node names found) :
    ∃ result rounds, (∀ fuel ≥ rounds, s.absolutePath fuel node root = some result) ∧
      (Resolves names found result ↔ (joined names).length ≤ pathMax) := by
  obtain ⟨rounds, hrounds⟩ := h.pathFrom_eq
  refine ⟨(outcome names found []).map fun path => if path = [] then [slash] else path, rounds,
    fun fuel hfuel => ?_, ?_⟩
  · rw [absolutePath, hrounds fuel hfuel [] (Nat.zero_le _)]
    rfl
  · rw [outcome, List.append_nil]
    split_ifs with hfits hfound
    · exact ⟨fun _ => hfits, fun _ => ⟨hfound, hfits, rfl⟩⟩
    · exact ⟨fun _ => hfits, fun _ h => hfound h.1⟩
    · exact ⟨False.elim, fun h => hfits h⟩

/-- Two file systems: the root has an entry of the given name, on which another is mounted. Its root
is older than that entry, and has an entry `tty`. -/
def devices (name : Name) : Tree where
  entry
    | 2 => ⟨name, some 1⟩
    | 3 => ⟨[116, 116, 121], some 0⟩
    | _ => ⟨[], none⟩
  mount
    | 0 => ⟨1, none⟩
    | _ => ⟨0, some ⟨0, 2⟩⟩

lemma leads_devices (name : Name) :
    (devices name).Leads ⟨0, 1⟩ ⟨1, 3⟩ [name, [], [116, 116, 121]] true := by
  have hentry : (devices name).Leads ⟨0, 1⟩ ⟨0, 2⟩ [name] true := .up (by decide) rfl .root
  have hroot : (devices name).Leads ⟨0, 1⟩ ⟨1, 0⟩ [name, []] true := .up (by decide) rfl hentry
  exact .up (by decide) rfl hroot

/-- The path `/dev/tty`. -/
theorem absolutePath_devices : ∃ result rounds,
    (∀ fuel ≥ rounds, (devices [100, 101, 118]).absolutePath fuel ⟨1, 3⟩ ⟨0, 1⟩ = some result) ∧
      Resolves [[100, 101, 118], [], [116, 116, 121]] true result := by
  obtain ⟨result, rounds, hresult, hiff⟩ := absolutePath_iff (leads_devices [100, 101, 118])
  exact ⟨result, rounds, hresult, hiff.mpr (by decide)⟩

/-- A name of `PATH_MAX` bytes leaves no room for the slash, and the cursor underflows. -/
theorem absolutePath_longName :
    (devices (List.replicate pathMax 97)).absolutePath 2 ⟨0, 2⟩ ⟨0, 1⟩ = some (.error .panic) := by
  decide +kernel

end Tree

end Zinnia.Vfs
