import Negatus.FileSystem
import Negatus.Foundations.Tape

/-!
# The commands that work on files

`cd`, `dirw`, `isdir`, `ls`, `mkdr` and `rm` of `CommandEventHandler.cpp` on a file system
and the working directory of the agent, which all connections share. In `Shell` the same
commands read the answers of the system off a tape; `command_mirrored` says that they do
what they do here if the tape has the answers of the file system.
-/

namespace Negatus

open Foundations

/-- The calls on files, as far as these commands make them. -/
inductive FileCall where
  | getFileInfo (path : Bytes)
  | access (path : Bytes)
  | chdir (path : Bytes)
  | openDir (path : Bytes)
  | closeDir
  | mkDir (path : Bytes)
  | delete (path : Bytes)
deriving DecidableEq, Repr

/-- What the system has to say besides what is on disk. -/
structure Kernel where
  /-- how many links a path may lead through -/
  maxLinks : Nat
  /-- the calls that are denied, by all the calls up to then, the last one first -/
  denied : List FileCall → Bool

/-- The file system and the working directory. -/
structure View where
  tree : FileTree Name
  cwd : List Name

structure Site extends View where
  calls : List FileCall := []

def View.host (K : Kernel) (v : View) : Host := ⟨K.maxLinks, v.cwd, fun _ => false⟩

namespace Site

variable (K : Kernel)

/-- A call: what it comes to where it is denied, and what it does otherwise. -/
def attempt {α : Type} (call : FileCall) (failed : α) (run : Site → α × Site) :
    EStateM Crash Site α := modifyGet fun s =>
  let calls := call :: s.calls
  if K.denied calls then (failed, { s with calls })
  else
    let (result, s) := run s
    (result, { s with calls })

/-- `PR_GetFileInfo`: is it a directory? -/
def getFileInfo (path : Bytes) : EStateM Crash Site (Option Bool) :=
  attempt K (.getFileInfo path) none fun s =>
    (((s.host K).resolve s.tree path).map s.tree.isDir, s)

/-- `PR_Access` -/
def access (path : Bytes) : EStateM Crash Site Bool :=
  attempt K (.access path) false fun s => (((s.host K).resolve s.tree path).isSome, s)

def chdir (path : Bytes) : EStateM Crash Site Bool :=
  attempt K (.chdir path) false fun s =>
    match (s.host K).dirAt s.tree path with
    | none => (false, s)
    | some cwd => (true, { s with cwd })

/-- `PR_OpenDir`, with the entries that `PR_ReadDir` will return. -/
def openDir (path : Bytes) : EStateM Crash Site (Option (List Bytes)) :=
  attempt K (.openDir path) none fun s =>
    (((s.host K).dirAt s.tree path).map fun place => (s.tree.names place).map (·.1), s)

def closeDir : EStateM Crash Site Bool := attempt K .closeDir false fun s => (true, s)

/-- The entry that `PR_MkDir` makes: there is none of its name in its directory. -/
def made (host : Host) (t : FileTree Name) (path : Bytes) : Option (Name × List Name) :=
  match host.entry t path with
  | some (name :: place) =>
      if t.isDir place = true ∧ name ∉ t.names place then some (name, place) else none
  | _ => none

/-- `PR_MkDir` -/
def mkDir (path : Bytes) : EStateM Crash Site Bool :=
  attempt K (.mkDir path) false fun s =>
    match made (s.host K) s.tree path with
    | none => (false, s)
    | some (name, place) => (true, { s with tree := s.tree.add name place .dir })

/-- `PR_Delete` -/
def delete (path : Bytes) : EStateM Crash Site Bool :=
  attempt K (.delete path) false fun s =>
    match (s.host K).unlinked s.tree path with
    | none => (false, s)
    | some e => (true, { s with tree := s.tree.remove e })

/-! ## The commands -/

def isDir (path : Bytes) : EStateM Crash Site Bytes := do
  match ← getFileInfo K path with
  | some true => pure (str "TRUE")
  | _ => pure (str "FALSE")

/-- The answer of `isDir`, checked as `cd`, `dirw` and `ls` check it. -/
def withDir (path : Bytes) (onDir : EStateM Crash Site Bytes) : EStateM Crash Site Bytes := do
  let ret ← isDir K path
  if ret ≠ str "TRUE" then
    if ret = str "FALSE" then pure (agentWarn (str "path is not a dir")) else pure ret
  else onDir

/-- The argument of a command, with its default. -/
def pathOf (default : Bytes) (args : List Bytes) : Bytes :=
  if args.headD [] = [] then default else args.headD []

def cd (args : List Bytes) : EStateM Crash Site Bytes :=
  let path := pathOf (str "/") args
  withDir K path do
    if ← access K path then
      if ← chdir K path then return []
    return agentWarn (str "no permissions")

def dirw (args : List Bytes) : EStateM Crash Site Bytes :=
  let path := args.headD []
  withDir K path do
    if ← access K path then return path ++ str " is writable"
    return path ++ str " is not writable"

/-- The entries of a directory, without the newline behind the last one. -/
def listing (entries : List Bytes) : Bytes := eraseLast (entries.flatMap (· ++ endl))

def ls (args : List Bytes) : EStateM Crash Site Bytes :=
  let path := pathOf (str ".") args
  withDir K path do
    match ← openDir K path with
    | none => throw .nullDeref     -- `PR_ReadDir(NULL)`
    | some entries =>
        if !(← closeDir K) then return agentWarn (str "could not close dir object")
        return listing entries

def mkdr : List Bytes → EStateM Crash Site Bytes
  | [] => pure (agentWarnInvalidNumArgs 1)
  | path :: _ => do
      if !(← mkDir K path) then return agentWarn (str "Could not create directory " ++ path)
      return path ++ str " successfuly created"

def rm : List Bytes → EStateM Crash Site Bytes
  | [] => pure (agentWarnInvalidNumArgs 1)
  | path :: _ => do
      if ← delete K path then return str "removing file" ++ path
      return agentWarn (str "error: could not delete " ++ path)

def isDirArgs : List Bytes → EStateM Crash Site Bytes
  | [] => pure (agentWarnInvalidNumArgs 1)
  | path :: _ => isDir K path

inductive Command where
  | cd
  | dirw
  | isdir
  | ls
  | mkdr
  | rm
deriving DecidableEq, Repr

def Command.word : Command → Bytes
  | .cd => str "cd"
  | .dirw => str "dirw"
  | .isdir => str "isdir"
  | .ls => str "ls"
  | .mkdr => str "mkdr"
  | .rm => str "rm"

def command : Command → List Bytes → EStateM Crash Site Bytes
  | .cd => cd K
  | .dirw => dirw K
  | .isdir => isDirArgs K
  | .ls => ls K
  | .mkdr => mkdr K
  | .rm => rm K

end Site

/-! ## The same commands on a tape -/

/-- An answer of the system. -/
inductive Answer where
  | check (ok : Bool)
  | dir (entries : Option (List Bytes))
  | kind (isDir : Option Bool)
deriving DecidableEq, Repr

def Answer.put : Answer → System → System
  | .check ok, s => { s with checks := ok :: s.checks }
  | .dir entries, s => { s with dirs := entries :: s.dirs }
  | .kind isDir, s => { s with kinds := isDir :: s.kinds }

namespace Site

variable {K : Kernel}

theorem attempt_run {α : Type} (call : FileCall) (failed : α) (run : Site → α × Site) (s : Site) :
    ∃ a s', attempt K call failed run s = .ok a s' :=
  ⟨_, _, rfl⟩

theorem check_mirrored (call : FileCall) (run : Site → Bool × Site) :
    Mirrors Answer.put (Shell.ask System.check) (attempt K call false run) :=
  Mirrors.call fun s =>
    have ⟨ok, s', hrun⟩ := attempt_run (K := K) call false run s
    ⟨ok, s', .check ok, hrun, fun _ => rfl⟩

theorem isDir_mirrored (path : Bytes) : Mirrors Answer.put Shell.isDir (isDir K path) := by
  refine Mirrors.bind (Mirrors.call fun s => ?_) fun kind => ?_
  · obtain ⟨kind, s', hrun⟩ := attempt_run (K := K) (.getFileInfo path) none
      (fun s => (((s.host K).resolve s.tree path).map s.tree.isDir, s)) s
    exact ⟨kind, s', .kind kind, hrun, fun _ => rfl⟩
  · rcases kind with _ | _ | _ <;> exact Mirrors.pure _

theorem withDir_mirrored (path : Bytes) {m : Sys Bytes} {m' : EStateM Crash Site Bytes}
    (h : Mirrors Answer.put m m') : Mirrors Answer.put (Shell.withDir m) (withDir K path m') :=
  (isDir_mirrored path).bind fun _ =>
    Mirrors.ite (Mirrors.ite (Mirrors.pure _) (Mirrors.pure _)) h

theorem ls_mirrored (args : List Bytes) : Mirrors Answer.put (Shell.ls args) (ls K args) := by
  refine withDir_mirrored _ (Mirrors.bind (Mirrors.call fun s => ?_) fun entries => ?_)
  · obtain ⟨entries, s', hrun⟩ := attempt_run (K := K) (.openDir (pathOf (str ".") args)) none
      (fun s => (((s.host K).dirAt s.tree (pathOf (str ".") args)).map
        fun place => (s.tree.names place).map (·.1), s)) s
    exact ⟨entries, s', .dir entries, hrun, fun _ => rfl⟩
  · cases entries with
    | none => exact Mirrors.throw _
    | some entries =>
        exact (check_mirrored _ _).bind fun _ => Mirrors.ite (Mirrors.pure _) (Mirrors.pure _)

/-- **The commands on a tape are those on a file system.** With the answers that the file
system gives, each of these commands of the shell replies what it replies there. -/
theorem command_mirrored (P : Platform) (K : Kernel) (c : Command) (args : List Bytes) :
    ∃ m, Shell.command P c.word args = some m ∧ Mirrors Answer.put m (command K c args) := by
  cases c with
  | cd =>
      refine ⟨_, rfl, withDir_mirrored _ ((check_mirrored _ _).bind fun ok => ?_)⟩
      cases ok with
      | false => exact Mirrors.pure _
      | true => exact (check_mirrored _ _).bind fun _ => Mirrors.ite (Mirrors.pure _) (Mirrors.pure _)
  | dirw =>
      exact ⟨_, rfl, withDir_mirrored _ ((check_mirrored _ _).bind fun _ =>
        Mirrors.ite (Mirrors.pure _) (Mirrors.pure _))⟩
  | isdir =>
      refine ⟨_, rfl, ?_⟩
      cases args with
      | nil => exact Mirrors.pure _
      | cons path args => exact isDir_mirrored path
  | ls => exact ⟨_, rfl, ls_mirrored args⟩
  | mkdr =>
      refine ⟨_, rfl, ?_⟩
      cases args with
      | nil => exact Mirrors.pure _
      | cons path args =>
          exact (check_mirrored _ _).bind fun _ => Mirrors.ite (Mirrors.pure _) (Mirrors.pure _)
  | rm =>
      refine ⟨_, rfl, ?_⟩
      cases args with
      | nil => exact Mirrors.pure _
      | cons path args =>
          exact (check_mirrored _ _).bind fun _ => Mirrors.ite (Mirrors.pure _) (Mirrors.pure _)

end Site

end Negatus
