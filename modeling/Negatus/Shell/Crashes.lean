import Negatus.Shell

/-!
# What a command dies of

A command looks at most of the answers that it gets. `Risky` are those that do not: they go on
with a directory that could not be opened, read bytes that nothing has written, or store a
number where it does not fit. No other command does any harm, whatever the system answers,
and each of these does with some answers. None of them goes on for ever.
-/

namespace Negatus

open Foundations

namespace Shell

/-- Whatever the system answers, `m` fails in one of the ways `F`, if it fails. -/
def Throws {α : Type} (F : Crash → Prop) (m : Sys α) : Prop :=
  ∀ s, Ensures m s (fun _ _ => True) fun e _ => F e

/-- Whatever the system answers, there is a result. -/
abbrev Returns {α : Type} (m : Sys α) : Prop := Throws (fun _ => False) m

section

variable {α β : Type} {F : Crash → Prop} {m m' : Sys α}

theorem throws_pure (a : α) : Throws F (pure a) := fun _ => trivial

theorem throws_throw {e : Crash} (h : F e) : Throws F (throw e : Sys α) := fun _ => h

theorem throws_ask (call : System → α × System) : Throws F (ask call) := fun _ => trivial

theorem Throws.bind {f : α → Sys β} (h : Throws F m) (hf : ∀ a, Throws F (f a)) :
    Throws F (m >>= f) :=
  fun s => Ensures.bind (h s) fun a s' _ => hf a s'

theorem Throws.ite {p : Prop} [Decidable p] (h : p → Throws F m) (h' : ¬ p → Throws F m') :
    Throws F (if p then m else m') := by
  split
  · rename_i hp
    exact h hp
  · rename_i hp
    exact h' hp

theorem Returns.throws (h : Returns m) : Throws F m :=
  fun s => (h s).mono (fun _ _ _ => trivial) fun _ _ => False.elim

theorem throws_foldlM {f : β → α → Sys β} (hf : ∀ b a, Throws F (f b a)) (as : List α) (b : β) :
    Throws F (as.foldlM f b) := by
  induction as generalizing b with
  | nil => exact throws_pure b
  | cons a as ih =>
      rw [List.foldlM_cons]
      exact (hf b a).bind ih

end

theorem isDir_returns : Returns isDir := by
  refine (throws_ask _).bind fun kind => ?_
  split
  · exact throws_pure _
  · exact throws_pure _

/-- One of the tokens is a number that does not fit. -/
def Unfit (P : Platform) (toks : List Bytes) : Prop := ∃ tok ∈ toks, P.strtod tok = none

/-- Numbers of `settime` that are looked at and do not fit. -/
def Untimely (P : Platform) (dates times : Bytes) : Prop :=
  Unfit P (strtok (· = 47) dates) ∨
    (3 ≤ (strtok (· = 47) dates).length ∧ Unfit P (strtok (· = 58) times))

/-- Words of the shell that may go wrong. -/
def Risky (P : Platform) (cmd : Bytes) (args : List Bytes) : Prop :=
  cmd = str "cwd" ∨ cmd = str "ls" ∨ (cmd = str "kill" ∧ args.length = 1) ∨
    (cmd = str "rmdr" ∧ args ≠ []) ∨
      (cmd = str "info" ∧
        (args = [str "id"] ∨ args = [str "memory"] ∨ args = [str "uptimemillis"])) ∨
        (cmd = str "settime" ∧
          ∃ dates times more, args = dates :: times :: more ∧ Untimely P dates times) ∨
          (cmd = str "setutime" ∧ ∃ times more, args = times :: more ∧ P.strtod times = none)

/-- Whatever the system answers, `m` does not go on for ever. -/
def Ends {α : Type} (m : Sys α) : Prop := Throws (· ≠ .hang) m

theorem rmPath_returns (path : Bytes) : Returns (rmPath path) :=
  (throws_ask _).bind fun _ => Throws.ite (fun _ => throws_pure _) fun _ => throws_pure _

theorem doRmdr_ends (depth : Nat) (path : Bytes) : Ends (doRmdr depth path) := by
  induction depth generalizing path with
  | zero =>
      refine isDir_returns.throws.bind fun _ => ?_
      exact (rmPath_returns path).throws.bind fun _ => throws_pure _
  | succ depth ih =>
      refine isDir_returns.throws.bind fun ret => Throws.ite (fun _ => ?_) fun _ => ?_
      · exact (rmPath_returns path).throws.bind fun _ => throws_pure _
      · refine (throws_ask _).bind fun entries => ?_
        cases entries with
        | none => exact throws_throw nofun
        | some entries =>
            refine (throws_foldlM (fun out entry => ?_) entries _).bind fun out => ?_
            · cases hjoin : joinPaths path entry with
              | error e =>
                  refine throws_throw ?_
                  rintro rfl
                  unfold joinPaths at hjoin
                  split at hjoin <;> cases hjoin
              | ok p => exact (ih p).bind fun more => throws_pure _
            · exact (throws_ask _).bind fun closed => (throws_ask _).bind fun removed => throws_pure _

end Shell

end Negatus
