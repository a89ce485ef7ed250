import Negatus.FileCommands
import Negatus.Rmdr

/-!
# `rmdr` on a tape

In `Shell` the agent's `rmdr` reads the answers of the system off a tape, and the depth of
the recursion is bounded by the number of answers. With the answers that a file system gives
it replies what it replies there. A `PR_ReadDir` that fails in the midst of a directory is,
on the tape, a directory that ends there.
-/

namespace Negatus

open Foundations

/-- The answers of `PR_GetFileInfo` bound the depth of `do_rmdr`. -/
def Answer.cost : Answer → Nat
  | .kind _ => 1
  | _ => 0

theorem Answer.foldr_kinds (answers : List Answer) (s : System) :
    (answers.foldr Answer.put s).kinds.length = (answers.map Answer.cost).sum + s.kinds.length := by
  induction answers with
  | nil => exact (Nat.zero_add _).symm
  | cons answer answers ih =>
      rw [List.foldr_cons, List.map_cons, List.sum_cons, Nat.add_assoc, ← ih]
      cases answer with
      | kind isDir => exact Nat.add_comm _ 1
      | _ => exact (Nat.zero_add _).symm

namespace Disk

variable {host : Host} {disk : Disk} {α : Type}

/-- What a program of the shell does, on a tape with the answers of the disk. -/
abbrev OnTape (m : Nat → Sys α) (m' : EStateM Fault Disk α) (disk : Disk) : Prop :=
  MirrorsFrom Answer.put Answer.cost Fault.crash m m' disk

theorem attempt_run (call : DiskCall) (failed : α) (run : FileTree Name → α × FileTree Name)
    (disk : Disk) : ∃ a disk', host.attempt call failed run disk = .ok a disk' :=
  ⟨_, _, rfl⟩

theorem crash_injective : Function.Injective Fault.crash := fun _ _ => Fault.crash.inj

/-- A call that succeeds or fails. -/
theorem onTape_check {call : DiskCall} {run : FileTree Name → Bool × FileTree Name}
    {f : Bool → Nat → Sys α} {f' : Bool → EStateM Fault Disk α}
    (h : ∀ ok disk', OnTape (f ok) (f' ok) disk') :
    OnTape (fun depth => Shell.ask System.check >>= fun ok => f ok depth)
      (host.attempt call false run >>= f') disk := by
  obtain ⟨ok, disk', hrun⟩ := attempt_run call false run disk
  exact MirrorsFrom.call (.check ok) hrun (fun _ => rfl) (h ok disk')

theorem rm_onTape (path : Bytes) :
    OnTape (fun _ => Shell.rmPath path) (rm host path) disk := by
  refine onTape_check fun ok disk' => ?_
  cases ok <;> exact mirrorsFrom_pure _ _

/-- The end of `do_rmdr`, on a tape. -/
def closing (path out : Bytes) : Sys Bytes := do
  let closed ← Shell.ask System.check
  let out := if closed then out else out ++ str "error: could not close dir object" ++ endl
  let removed ← Shell.ask System.check
  return if removed then out else out ++ str "error: could not remove " ++ path ++ endl

theorem removeDir_onTape (path out : Bytes) :
    OnTape (fun _ => closing path out) (removeDir host path out) disk :=
  onTape_check fun _ _ => onTape_check fun _ _ => mirrorsFrom_pure _ _

/-- One entry, on a tape. -/
def visit (depth : Nat) (path out entry : Bytes) : Sys Bytes :=
  match Shell.joinPaths path entry with
  | .error e => throw e
  | .ok p => do
      let more ← Shell.doRmdr depth p
      pure (out ++ more)

theorem visit_error {path entry : Bytes} {e : Crash} (h : Shell.joinPaths path entry = .error e)
    (depth : Nat) (out : Bytes) : visit depth path out entry = throw e := by
  unfold visit
  rw [h]

theorem visit_ok {path entry p : Bytes} (h : Shell.joinPaths path entry = .ok p) (depth : Nat)
    (out : Bytes) :
    visit depth path out entry = Shell.doRmdr depth p >>= fun more => pure (out ++ more) := by
  unfold visit
  rw [h]

/-- The rest of the loop, behind what is in `out`. -/
def looping (host : Host) (fuel : Nat) (path : Bytes) (entries : List Bytes) (out : Bytes) :
    EStateM Fault Disk Bytes := do
  let rest ← rmdrLoop host (doRmdr host fuel) path entries
  pure (out ++ rest)

section

variable {fuel : Nat} {path entry p out : Bytes} {entries : List Bytes} {disk' : Disk}

/-- `PR_ReadDir` has failed. -/
theorem looping_ends (hread : host.readDir disk = .ok false disk') :
    looping host fuel path (entry :: entries) out disk = .ok out disk' := by
  have hloop : rmdrLoop host (doRmdr host fuel) path (entry :: entries) disk = .ok [] disk' := by
    unfold rmdrLoop
    exact bind_ok hread
  refine (bind_ok hloop).trans ?_
  rw [List.append_nil]
  rfl

theorem looping_error {e : Crash} (hread : host.readDir disk = .ok true disk')
    (hjoin : Shell.joinPaths path entry = .error e) :
    looping host fuel path (entry :: entries) out disk = .error (.crash e) disk' := by
  refine bind_error ?_
  unfold rmdrLoop
  rw [hjoin]
  exact bind_ok hread

theorem looping_ok (hread : host.readDir disk = .ok true disk')
    (hjoin : Shell.joinPaths path entry = .ok p) :
    looping host fuel path (entry :: entries) out disk =
      (doRmdr host fuel p >>= fun more => looping host fuel path entries (out ++ more)) disk' := by
  unfold looping
  rw [rmdrLoop, hjoin]
  refine (congrFun (bind_assoc _ _ _) disk).trans ((bind_ok hread).trans ?_)
  simp only [if_true, bind_assoc, pure_bind, List.append_assoc]

end

/-- The directory ends where `PR_ReadDir` fails. -/
theorem looping_onTape {fuel : Nat} {path : Bytes}
    (hchild : ∀ p disk, OnTape (Shell.doRmdr · p) (doRmdr host fuel p) disk)
    (entries : List Bytes) (out : Bytes) (disk : Disk) :
    ∃ k, OnTape (fun depth => (entries.take k).foldlM (visit depth path) out)
      (looping host fuel path entries out) disk := by
  induction entries generalizing out disk with
  | nil =>
      refine ⟨0, (mirrorsFrom_pure out disk).congr ?_⟩
      show EStateM.Result.ok (out ++ []) disk = _
      rw [List.append_nil]
      rfl
  | cons entry entries ih =>
      obtain ⟨more, disk', hread⟩ := attempt_run .readDir false (fun t => (true, t)) disk
      cases more with
      | false => exact ⟨0, (mirrorsFrom_pure out disk').congr (looping_ends hread)⟩
      | true =>
          cases hjoin : Shell.joinPaths path entry with
          | error e =>
              have htape : (fun depth => ((entry :: entries).take 1).foldlM (visit depth path) out) =
                  fun _ => (throw e : Sys Bytes) := by
                funext depth
                rw [List.take_succ_cons, List.foldlM_cons, visit_error hjoin]
                rfl
              refine ⟨1, ?_⟩
              rw [htape]
              exact (mirrorsFrom_throw crash_injective e disk').congr (looping_error hread hjoin)
          | ok p =>
              have htape : ∀ k, (fun depth =>
                  ((entry :: entries).take (k + 1)).foldlM (visit depth path) out) =
                  fun depth => Shell.doRmdr depth p >>= fun more =>
                    (entries.take k).foldlM (visit depth path) (out ++ more) := by
                intro k
                funext depth
                rw [List.take_succ_cons, List.foldlM_cons, visit_ok hjoin, bind_assoc]
                rfl
              -- how many entries the tape is to have depends on what comes of the first
              cases hrun : doRmdr host fuel p disk' with
              | error e disk'' =>
                  refine ⟨1, MirrorsFrom.congr ?_ (looping_ok hread hjoin)⟩
                  rw [htape]
                  refine (hchild p disk').bind fun more s' hok => ?_
                  cases hrun.symm.trans hok
              | ok more disk'' =>
                  obtain ⟨k, hk⟩ := ih (out ++ more) disk''
                  refine ⟨k + 1, MirrorsFrom.congr ?_ (looping_ok hread hjoin)⟩
                  rw [htape]
                  refine (hchild p disk').bind fun more' s' hok => ?_
                  cases hrun.symm.trans hok
                  exact hk

/-! ## The recursion -/

/-- The entries of a directory, then the directory, on a tape. -/
def entering (depth : Nat) (path : Bytes) : Sys Bytes := do
  match ← Shell.ask System.openDir with
  | none => throw .nullDeref
  | some entries =>
      let out ← entries.foldlM (visit depth path) []
      closing path out

/-- What `do_rmdr` does with the answer of `isDir`. -/
theorem shell_doRmdr_eq (depth : Nat) (path : Bytes) :
    Shell.doRmdr (depth + 1) path = modifyGet System.kind >>= fun kind =>
      if kind = some true then entering depth path
      else Shell.rmPath path >>= fun _ => pure [] := by
  rw [Shell.doRmdr]
  unfold Shell.isDir
  rw [bind_assoc]
  refine congrArg _ (funext fun kind => ?_)
  rcases kind with _ | _ | _ <;> rfl

theorem doRmdr_eq (fuel : Nat) (path : Bytes) :
    doRmdr host (fuel + 1) path = host.getFileInfo path >>= fun kind =>
      if kind = some true then rmdrDir host (doRmdr host fuel) path
      else rm host path >>= fun _ => pure [] := by
  rw [doRmdr]
  unfold isDir
  rw [bind_assoc]
  refine congrArg _ (funext fun kind => ?_)
  rcases kind with _ | _ | _ <;> rfl

theorem rmdrDir_onTape {fuel : Nat}
    (hchild : ∀ p disk, OnTape (Shell.doRmdr · p) (doRmdr host fuel p) disk) (path : Bytes)
    (disk : Disk) :
    OnTape (entering · path) (rmdrDir host (doRmdr host fuel) path) disk := by
  obtain ⟨entries, disk', hopen⟩ := attempt_run (.openDir path) none
    (fun t => ((host.dirAt t path).map fun place => (t.names place).map (·.1), t)) disk
  cases entries with
  | none =>
      exact MirrorsFrom.call (.dir none) hopen (fun _ => rfl)
        (mirrorsFrom_throw crash_injective .nullDeref disk')
  | some entries =>
      obtain ⟨k, hloop⟩ := looping_onTape hchild entries [] disk'
      refine MirrorsFrom.call (.dir (some (entries.take k))) hopen (fun _ => rfl) ?_
      have hempty : looping host fuel path entries [] =
          rmdrLoop host (doRmdr host fuel) path entries := bind_pure _
      rw [hempty] at hloop
      exact hloop.bind fun out disk'' _ => removeDir_onTape path out

theorem doRmdr_onTape (fuel : Nat) (path : Bytes) (disk : Disk) :
    OnTape (Shell.doRmdr · path) (doRmdr host fuel path) disk := by
  induction fuel generalizing path disk with
  | zero => exact ⟨[], fun _ _ _ => nofun⟩
  | succ fuel ih =>
      rw [doRmdr_eq]
      obtain ⟨kind, disk', hinfo⟩ := attempt_run (.getFileInfo path) none
        (fun t => ((host.resolve t path).map t.isDir, t)) disk
      refine MirrorsFrom.descend (.kind kind) (shell_doRmdr_eq · path) Nat.one_pos hinfo
        (fun _ => rfl) ?_
      split
      · exact rmdrDir_onTape ih path disk'
      · exact (rm_onTape path).bind fun _ disk'' _ => mirrorsFrom_pure [] disk''

/-- **`rmdr` on a tape is `rmdr` on a file system.** On every file system, with any calls
denied, there are answers with which the shell's `rmdr` replies what it replies there, or
goes wrong as it does there. -/
theorem rmdr_mirrored (host : Host) (args : List Bytes) (disk : Disk) :
    ∃ answers : List Answer, ∀ rest,
      match rmdr host args disk with
      | .ok out _ => Shell.rmdr args (answers.foldr Answer.put rest) = .ok out rest
      | .error e _ => e = .crash .nullDeref ∧
          ∃ rest', Shell.rmdr args (answers.foldr Answer.put rest) = .error .nullDeref rest' := by
  cases args with
  | nil => exact ⟨[], fun rest => rfl⟩
  | cons path args =>
      obtain ⟨answers, hanswers⟩ :=
        doRmdr_onTape (rmdrFuel host disk.tree) path disk
      refine ⟨answers, fun rest => ?_⟩
      have hbound : (answers.map Answer.cost).sum ≤ (answers.foldr Answer.put rest).kinds.length := by
        rw [Answer.foldr_kinds]
        exact Nat.le_add_right _ _
      have hagrees := hanswers _ rest hbound
      have hfits : Fits host disk.tree (rmdrFuel host disk.tree) path := fits_rmdrFuel path
      have hends := doRmdr_ends hfits (le_refl disk.tree)
      have hworld : rmdr host (path :: args) disk = doRmdr host (rmdrFuel host disk.tree) path disk := rfl
      have htape : Shell.rmdr (path :: args) (answers.foldr Answer.put rest) =
          Shell.doRmdr (answers.foldr Answer.put rest).kinds.length path
            (answers.foldr Answer.put rest) := rfl
      rw [hworld, htape]
      unfold Ensures at hends
      cases hrun : doRmdr host (rmdrFuel host disk.tree) path disk with
      | ok out disk' =>
          rw [hrun] at hagrees
          exact hagrees
      | error e disk' =>
          rw [hrun] at hagrees hends
          obtain ⟨rfl, -⟩ := hends
          exact ⟨rfl, hagrees .nullDeref rfl⟩

end Disk

end Negatus
