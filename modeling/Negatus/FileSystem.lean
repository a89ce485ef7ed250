import Negatus.Foundations.FileTree
import Negatus.Foundations.Words
import Negatus.Shell

/-!
# Paths and the calls of NSPR on a file system

`PR_GetFileInfo` and `PR_OpenDir` follow the links of a path to its end,
`PR_Delete` and `PR_RmDir` act on the entry itself. Each call may be denied, and
which ones are may depend on all the calls made before.
-/

namespace Negatus

open Foundations

/-! ## Paths -/

def isSlash (b : UInt8) : Bool := b = 47

/-- What a directory may call an entry. -/
structure IsEntryName (word : Bytes) : Prop where
  ne_nil : word ≠ []
  no_slash : ∀ b ∈ word, isSlash b = false
  ne_here : word ≠ str "."
  ne_up : word ≠ str ".."

instance (word : Bytes) : Decidable (IsEntryName word) :=
  decidable_of_iff (word ≠ [] ∧ word.all (!isSlash ·) = true ∧ word ≠ str "." ∧ word ≠ str "..") <| by
    rw [List.all_eq_true]
    constructor
    · rintro ⟨hne, hslash, hhere, hup⟩
      exact ⟨hne, fun b hb => by simpa using hslash b hb, hhere, hup⟩
    · rintro ⟨hne, hslash, hhere, hup⟩
      exact ⟨hne, fun b hb => by simpa using hslash b hb, hhere, hup⟩

abbrev Name : Type := {word : Bytes // IsEntryName word}

def stepOf (word : Bytes) : PathStep Name :=
  if h : IsEntryName word then .down ⟨word, h⟩ else if word = str ".." then .up else .here

def steps (path : Bytes) : List (PathStep Name) := (words isSlash path).map stepOf

/-- `joinPaths(path, entry->name)` -/
def child (path : Bytes) (name : Name) : Bytes :=
  (if path.getLast? = some 47 then path.dropLast else path) ++ 47 :: name.1

theorem joinPaths_eq {path : Bytes} (hpath : path ≠ []) (name : Name) :
    Shell.joinPaths path name.1 = .ok (child path name) := by
  have hfirst : name.1.head? ≠ some 47 := by
    intro hhead
    have hslash := name.2.no_slash 47 (List.mem_of_head? hhead)
    cases hslash
  unfold Shell.joinPaths
  rw [if_neg hpath]
  dsimp only
  rw [if_neg hfirst, List.append_assoc]
  rfl

section

variable {path : Bytes} {name : Name}

theorem child_ne_nil : child path name ≠ [] := by
  unfold child
  exact List.append_ne_nil_of_right_ne_nil _ (List.cons_ne_nil _ _)

theorem child_not_trailing : (child path name).getLast? ≠ some 47 := by
  obtain ⟨b, hlast⟩ := Option.ne_none_iff_exists'.mp
    (fun h => name.2.ne_nil (List.getLast?_eq_none_iff.mp h))
  have hchild : (child path name).getLast? = some b := by
    unfold child
    rw [List.getLast?_append, List.getLast?_cons, hlast]
    rfl
  rw [hchild, Ne, Option.some.injEq]
  rintro rfl
  have hslash := name.2.no_slash 47 (List.mem_of_getLast? hlast)
  cases hslash

theorem child_head (hpath : path ≠ []) : (child path name).head? = path.head? := by
  obtain ⟨b, rest, rfl⟩ := List.exists_cons_of_ne_nil hpath
  unfold child
  split
  · rename_i hlast
    cases rest with
    | nil =>
        obtain rfl : b = 47 := Option.some.inj hlast
        rfl
    | cons b' rest => rfl
  · rfl

/-- The steps of the path, and one more. -/
theorem steps_child : steps (child path name) = steps path ++ [.down name] := by
  have hcut : words isSlash (if path.getLast? = some 47 then path.dropLast else path) =
      words isSlash path := by
    split
    · rename_i hlast
      have hpath : path.dropLast ++ [47] = path := List.dropLast_append_getLast? 47 hlast
      have hwords : words isSlash (path.dropLast ++ 47 :: []) =
          words isSlash path.dropLast ++ words isSlash [] := words_append_cons rfl _ _
      rw [hpath, words_nil, List.append_nil] at hwords
      exact hwords.symm
    · rfl
  unfold steps child
  rw [words_append_cons rfl, hcut, words_single name.2.ne_nil name.2.no_slash, List.map_append]
  simp [stepOf, name.2]

end

/-! ## Calls -/

inductive DiskCall where
  | getFileInfo (path : Bytes)
  | openDir (path : Bytes)
  | readDir
  | closeDir
  | delete (path : Bytes)
  | rmDir (path : Bytes)
deriving DecidableEq, Repr

/-- Where the agent runs. -/
structure Host where
  /-- how many links a path may lead through -/
  maxLinks : Nat
  /-- the working directory -/
  cwd : List Name
  /-- the calls that are denied, by all the calls up to then, the last one first -/
  denied : List DiskCall → Bool

structure Disk where
  tree : FileTree Name
  calls : List DiskCall := []

namespace Host

variable (host : Host)

/-- Where a path starts. -/
def start (path : Bytes) : List Name := if path.head? = some 47 then [] else host.cwd

def walk (t : FileTree Name) (path : Bytes) : Option (Nat × List Name) :=
  if path = [] then none else t.walk host.maxLinks (host.start path) (steps path)

/-- What a path means, links at the end included. A slash at the end asks for a directory. -/
def resolve (t : FileTree Name) (path : Bytes) : Option (List Name) :=
  match host.walk t path with
  | none => none
  | some (_, place) =>
      if path.getLast? = some 47 ∧ t.isDir place = false then none
      else if t.node place = none then none
      else some place

/-- The directory that a path means. -/
def dirAt (t : FileTree Name) (path : Bytes) : Option (List Name) :=
  (host.resolve t path).filter t.isDir

/-- The entry of a path itself. -/
def entry (t : FileTree Name) (path : Bytes) : Option (List Name) :=
  match (steps path).reverse with
  | .down name :: rest =>
      (t.walk host.maxLinks (host.start path) rest.reverse).map fun end_ => name :: end_.2
  | _ => none

/-- A call of NSPR: what it comes to where it is denied, and what it does otherwise. -/
def attempt {α : Type} (call : DiskCall) (failed : α)
    (run : FileTree Name → α × FileTree Name) : EStateM Fault Disk α := modifyGet fun disk =>
  let calls := call :: disk.calls
  if host.denied calls then (failed, { disk with calls })
  else
    let (result, tree) := run disk.tree
    (result, { tree, calls })

/-- `PR_GetFileInfo`: is it a directory? -/
def getFileInfo (path : Bytes) : EStateM Fault Disk (Option Bool) :=
  host.attempt (.getFileInfo path) none fun t => ((host.resolve t path).map t.isDir, t)

/-- `PR_OpenDir`, with the entries that `PR_ReadDir` will return. -/
def openDir (path : Bytes) : EStateM Fault Disk (Option (List Bytes)) :=
  host.attempt (.openDir path) none fun t =>
    ((host.dirAt t path).map fun place => (t.names place).map (·.1), t)

/-- Does the next `PR_ReadDir` return the entry that is due? -/
def readDir : EStateM Fault Disk Bool := host.attempt .readDir false fun t => (true, t)

def closeDir : EStateM Fault Disk Bool := host.attempt .closeDir false fun t => (true, t)

/-- The entry that `PR_Delete` takes away: a file or a link. -/
def unlinked (t : FileTree Name) (path : Bytes) : Option (List Name) :=
  if path.getLast? = some 47 then none
  else (host.entry t path).filter fun e => (t.node e).isSome && !t.isDir e

/-- The entry that `PR_RmDir` takes away: an empty directory. -/
def emptied (t : FileTree Name) (path : Bytes) : Option (List Name) :=
  (host.entry t path).filter fun e => t.isDir e && (t.names e).isEmpty

def takeAway (t : FileTree Name) : Option (List Name) → Bool × FileTree Name
  | none => (false, t)
  | some e => (true, t.remove e)

/-- `PR_Delete` -/
def delete (path : Bytes) : EStateM Fault Disk Bool :=
  host.attempt (.delete path) false fun t => takeAway t (host.unlinked t path)

/-- `PR_RmDir` -/
def rmDir (path : Bytes) : EStateM Fault Disk Bool :=
  host.attempt (.rmDir path) false fun t => takeAway t (host.emptied t path)

/-! ## What a path leads to -/

section

variable {host} {t t' : FileTree Name} {path : Bytes} {q e : List Name}

theorem start_child (hpath : path ≠ []) (name : Name) :
    host.start (child path name) = host.start path := by
  unfold start
  rw [child_head hpath]

theorem resolve_walks (h : host.resolve t path = some q) :
    path ≠ [] ∧ t.node q ≠ none ∧
      ∃ k, t.Walks host.maxLinks (host.start path) (steps path) k q := by
  unfold resolve at h
  split at h
  · cases h
  · rename_i k place hwalk
    split at h
    · cases h
    · split at h
      · cases h
      · rename_i hnode
        obtain rfl := Option.some.inj h
        unfold walk at hwalk
        split at hwalk
        · cases hwalk
        · rename_i hpath
          exact ⟨hpath, hnode, k, FileTree.walk_iff.mp hwalk⟩

theorem resolve_of_walks {k : Nat} (hpath : path ≠ [])
    (hwalks : t.Walks host.maxLinks (host.start path) (steps path) k q)
    (hdir : t.node q = some .dir) : host.resolve t path = some q := by
  unfold resolve walk
  rw [if_neg hpath, FileTree.walk_iff.mpr hwalks]
  dsimp only
  rw [if_neg, if_neg]
  · exact hdir ▸ Option.some_ne_none _
  · rw [FileTree.isDir_iff.mpr hdir]
    exact fun h => Bool.noConfusion h.2

theorem dirAt_iff : host.dirAt t path = some q ↔
    host.resolve t path = some q ∧ t.node q = some .dir := by
  unfold dirAt
  rw [Option.filter_eq_some_iff, FileTree.isDir_iff]

theorem dirAt_walks (h : host.dirAt t path = some q) :
    path ≠ [] ∧ t.node q = some .dir ∧
      ∃ k, t.Walks host.maxLinks (host.start path) (steps path) k q := by
  obtain ⟨hresolve, hdir⟩ := dirAt_iff.mp h
  obtain ⟨hpath, -, hwalks⟩ := resolve_walks hresolve
  exact ⟨hpath, hdir, hwalks⟩

/-- What is a directory in a smaller tree was one before. -/
theorem dirAt_mono (hle : t' ≤ t) (h : host.dirAt t' path = some q) :
    host.dirAt t path = some q := by
  obtain ⟨hpath, hdir, k, hwalks⟩ := dirAt_walks h
  have hdir := hle q _ hdir
  exact dirAt_iff.mpr ⟨resolve_of_walks hpath (hwalks.mono hle) hdir, hdir⟩

theorem entry_iff : host.entry t path = some e ↔
    ∃ init name k place, steps path = init ++ [.down name] ∧
      t.Walks host.maxLinks (host.start path) init k place ∧ e = name :: place := by
  unfold entry
  constructor
  · intro h
    split at h
    · rename_i name rest hrev
      obtain ⟨⟨k, place⟩, hwalk, rfl⟩ := Option.map_eq_some_iff.mp h
      refine ⟨rest.reverse, name, k, place, ?_, FileTree.walk_iff.mp hwalk, rfl⟩
      rw [← List.reverse_reverse (steps path), hrev, List.reverse_cons]
    · cases h
  · rintro ⟨init, name, k, place, hsteps, hwalks, rfl⟩
    rw [hsteps, List.reverse_append]
    simp [FileTree.walk_iff.mpr hwalks]

/-- In a smaller tree the entry is the same or there is none. -/
theorem entry_mono (hle : t' ≤ t) (h : host.entry t' path = some e) :
    host.entry t path = some e := by
  obtain ⟨init, name, k, place, hsteps, hwalks, rfl⟩ := entry_iff.mp h
  exact entry_iff.mpr ⟨init, name, k, place, hsteps, hwalks.mono hle, rfl⟩

theorem unlinked_entry (h : host.unlinked t path = some e) :
    host.entry t path = some e ∧ t.node e ≠ none ∧ t.isDir e = false := by
  unfold unlinked at h
  split at h
  · cases h
  · obtain ⟨hentry, hkind⟩ := Option.filter_eq_some_iff.mp h
    rw [Bool.and_eq_true, Option.isSome_iff_ne_none, Bool.not_eq_true'] at hkind
    exact ⟨hentry, hkind.1, hkind.2⟩

theorem emptied_entry (h : host.emptied t path = some e) :
    host.entry t path = some e ∧ t.node e = some .dir ∧ t.names e = [] := by
  unfold emptied at h
  obtain ⟨hentry, hkind⟩ := Option.filter_eq_some_iff.mp h
  rw [Bool.and_eq_true, FileTree.isDir_iff, List.isEmpty_iff] at hkind
  exact ⟨hentry, hkind.1, hkind.2⟩

end

/-! ## Rules of the calls -/

section

variable {host} {E : Fault → Disk → Prop} {disk : Disk}

theorem attempt_spec {α : Type} {call : DiskCall} {failed : α}
    {run : FileTree Name → α × FileTree Name} {Q : α → Disk → Prop}
    (hdenied : host.denied (call :: disk.calls) = true →
      Q failed ⟨disk.tree, call :: disk.calls⟩)
    (hrun : host.denied (call :: disk.calls) = false →
      Q (run disk.tree).1 ⟨(run disk.tree).2, call :: disk.calls⟩) :
    Ensures (host.attempt call failed run) disk Q E := by
  unfold attempt
  rw [ensures_modifyGet]
  dsimp only
  cases h : host.denied (call :: disk.calls) with
  | true => exact hdenied h
  | false => exact hrun h

/-- `PR_Delete` and `PR_RmDir`: the entry goes, or nothing happens. -/
theorem takeAway_spec {call : DiskCall} {taken : FileTree Name → Option (List Name)}
    {Q : Bool → Disk → Prop}
    (hkept : host.denied (call :: disk.calls) = true ∨ taken disk.tree = none →
      Q false ⟨disk.tree, call :: disk.calls⟩)
    (htaken : ∀ e, host.denied (call :: disk.calls) = false → taken disk.tree = some e →
      Q true ⟨disk.tree.remove e, call :: disk.calls⟩) :
    Ensures (host.attempt call false fun t => takeAway t (taken t)) disk Q E := by
  apply attempt_spec
  · exact fun hdenied => hkept (.inl hdenied)
  · intro hrun
    cases htake : taken disk.tree with
    | none => exact hkept (.inr htake)
    | some e => exact htaken e hrun htake

end

end Host

end Negatus
