import Negatus.CommandEventHandler.Exec
import Negatus.CommandEventHandler.Reader
import Negatus.Shell.Crashes

/-!
# What a connection dies of

A line is risky if its command is, if `exec` cannot take its arguments apart, if it stops the
reactor and replies, or if it stores a number where it does not fit. It is risky as well where
it is logged and has conversions, since it is the format of its own entry in the log. No other
line does any harm, whatever the system answers, and each of these does with some answers.
-/

namespace Negatus

open Foundations BufferedSocket

/-! ## The lines -/

/-- Arguments that `exec` cannot take apart: the quote is all there is, behind the variables
there is no program, or the loop over the variables does not end. -/
def ExecRisky (arg : Bytes) (args : List Bytes) : Prop :=
  arg = str "\"" ∨ ∃ env, envPart [arg] = some env ∧ (args = [] ∨ ¬ Assigns env)

/-- Commands that may kill the process. -/
def CommandLine.Risky (P : Platform) (l : CommandLine) : Prop :=
  Shell.Risky P l.cmd l.args ∨
    ((l.cmd = str "exec" ∨ l.cmd = str "execsu") ∧
      ∃ arg args, l.args = arg :: args ∧ ExecRisky arg args) ∨
    (l.cmd = str "pull" ∧ ∃ path args, l.args = path :: args ∧ Shell.Unfit P (args.take 2)) ∨
    (l.cmd = str "push" ∧
      ∃ path size more, l.args = path :: size :: more ∧ P.strtod size = none) ∨
    (l.cmd = str "rebt" ∧ (l.args.length = 0 ∨ l.args.length = 2))

section

variable (P : Platform)

end

/-- Lines that may kill the process. -/
def RiskyLine (P : Platform) (line : Bytes) : Prop :=
  CommandEventHandler.LogFails P line ∨ (CommandLine.new line).Risky P

/-- The same of what a line is made into. -/
def LineKind.Risky : LineKind → Prop
  | .answer result => ¬ Shell.Returns result
  | .exec args => ∃ e, parseExec args = .error e
  | .reboot _ => True
  | _ => False

namespace CommandEventHandler

section

variable {P : Platform} {c : Connection}

/-- Arguments of `exec` for which the loop over the variables has no end. -/
def ExecHangs (k : LineKind) : Prop := ∃ args, k = .exec args ∧ parseExec args = .error .hang

end

/-! ## The calls -/

/-- The line that has been dispatched last. -/
def lastLine (t : List Event) : Option Bytes :=
  (t.filterMap fun
    | .handleLine line => some line
    | _ => none).getLast?

/-- A connection dies in the line that it has dispatched last, or of one that is too long
for an `int`. It goes on for ever only in a line of `exec`. -/
inductive Fatal (P : Platform) : Fault → Connection → Prop
  | line (fault : Fault) (c : Connection) (line : Bytes) (hlast : lastLine c.trace = some line)
      (hrisky : RiskyLine P line)
      (hhangs : fault = .crash .hang → ExecHangs (lineKind P line)) : Fatal P fault c
  | overlong (c : Connection) (hlong : ¬ FirstLineFits (drain 256 c.io).unread) :
      Fatal P (.crash .undefined) c

section

variable {P : Platform} {c : Connection}

/-- A timer kills it if and only if there is no data handler. -/
theorem handleTimeout_fatal (hs : c.Sound) :
    Ensures (handleTimeout P) c (fun _ _ => c.mDataEventHandler ≠ none)
      (fun fault _ => fault = .crash .nullDeref ∧ c.mDataEventHandler = none) := by
  unfold handleTimeout
  rw [ensures_bind, ensures_self, if_neg (Bool.eq_false_iff.mp hs.alive)]
  split
  · rename_i hidle
    exact ⟨rfl, hidle⟩
  · rename_i h hdata
    have hbusy : c.mDataEventHandler ≠ none := fun hidle => nomatch hidle.symm.trans hdata
    refine Ensures.bind (M := fun _ _ => True) ?_ fun h' c' _ => ?_
    · unfold ifOpen
      split
      · trivial
      · rename_i hrun
        exact (dataTimeout_leads hs hdata (Bool.not_eq_true _ ▸ hrun)).mono
          (fun _ _ _ => trivial) fun _ _ => False.elim
    · rw [ensures_bind, ensures_modify]
      split <;> exact hbusy

end

end CommandEventHandler

end Negatus
