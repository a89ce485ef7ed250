import Negatus.Config
import Negatus.Os

/-!
# The options of `main`

`main` goes through the answers of `PL_GetNextOpt` and leaves the loop at the first that is
wrong: an option that is not known, or a port that is not positive. It ends with 1 then,
before it has done anything else.
-/

namespace Negatus

namespace SUTAgent

/-- What `PL_GetNextOpt` finds next. The value is missing where the arguments end before it. -/
inductive OptAnswer where
  | bad                                                  -- `PL_OPT_BAD`
  | positional
  | option (longOption : UInt8) (value : Option Bytes)
deriving DecidableEq, Repr

structure Options where
  port : Int16 := 20701
  heartbeatPort : Int16 := 20700
  testRoot : Bytes := []
deriving DecidableEq, Repr

variable (P : Platform)

/-- `PR_strtod(optState->value, NULL)`, stored in a `PRInt16`. -/
def readPort : Option Bytes → Except Crash Int16
  | none => .error .nullDeref
  | some value =>
      match P.strtodPort value with
      | none => .error .undefined
      | some port => .ok port

/-- A port, and where it is stored; nothing where it is not positive. -/
def takePort (store : Int16 → Options → Options) (value : Option Bytes) :
    Except Crash (Option (Options → Options)) := do
  let port ← readPort P value
  if port ≤ 0 then .ok none else .ok (some (store port))

/-- What one round of the loop changes; nothing where it leaves the loop with `optionError`. -/
def takeOption : OptAnswer → Except Crash (Option (Options → Options))
  | .bad => .ok none
  | .positional => .ok (some id)
  | .option longOption value =>
      if longOption = 104 then .ok (some id)             -- `h` prints the usage
      else if longOption = 112 then
        takePort P (fun port options => { options with port }) value
      else if longOption = 98 then
        takePort P (fun heartbeatPort options => { options with heartbeatPort }) value
      else if longOption = 116 then
        match value with
        | none => .error .exception                      -- `std::string(NULL)`
        | some testRoot => .ok (some fun options => { options with testRoot })
      else .ok (some id)

/-- The loop, up to `PL_OPT_EOL`. -/
def readOptions : List OptAnswer → Options → Except Crash (Option Options)
  | [], options => .ok (some options)
  | a :: answers, options =>
      match takeOption P a with
      | .error e => .error e
      | .ok none => .ok none
      | .ok (some change) => readOptions answers (change options)

/-! ## Which options are wrong -/

/-- An option that is not known, or one for a port that is not positive. -/
def OptAnswer.Wrong : OptAnswer → Prop
  | .bad => True
  | .positional => False
  | .option longOption value =>
      (longOption = 112 ∨ longOption = 98) ∧ ∃ port, readPort P value = .ok port ∧ port ≤ 0

/-- The loop goes on after this option. -/
def OptAnswer.Accepted (a : OptAnswer) : Prop := ∃ change, takeOption P a = .ok (some change)

/-- The first option that is not accepted is wrong. -/
def WrongOptions (answers : List OptAnswer) : Prop :=
  ∃ before a after, answers = before ++ a :: after ∧ (∀ b ∈ before, b.Accepted P) ∧ a.Wrong P

variable {P}

theorem takePort_wrong_iff (store : Int16 → Options → Options) (value : Option Bytes) :
    takePort P store value = .ok none ↔ ∃ port, readPort P value = .ok port ∧ port ≤ 0 := by
  unfold takePort
  cases readPort P value with
  | error e => exact iff_of_false nofun (by simp)
  | ok port =>
      show (if port ≤ 0 then .ok none else .ok (some (store port)) :
        Except Crash (Option (Options → Options))) = .ok none ↔ _
      by_cases hle : port ≤ 0 <;> simp [hle]

theorem takeOption_wrong_iff (a : OptAnswer) : takeOption P a = .ok none ↔ a.Wrong P := by
  cases a with
  | bad => exact iff_of_true rfl trivial
  | positional => exact iff_of_false nofun id
  | option longOption value =>
      simp only [takeOption, OptAnswer.Wrong]
      by_cases hhelp : longOption = 104
      · subst hhelp
        exact iff_of_false nofun fun h => absurd h.1 (by decide)
      by_cases hcommand : longOption = 112
      · rw [if_neg hhelp, if_pos hcommand, takePort_wrong_iff]
        simp [hcommand]
      by_cases hheartbeat : longOption = 98
      · rw [if_neg hhelp, if_neg hcommand, if_pos hheartbeat, takePort_wrong_iff]
        simp [hheartbeat]
      rw [if_neg hhelp, if_neg hcommand, if_neg hheartbeat]
      refine iff_of_false ?_ fun h => h.1.elim hcommand hheartbeat
      split
      · cases value <;> exact nofun
      · exact nofun

/-- **The loop ends with `optionError` exactly when an option is wrong** that it comes to. -/
theorem readOptions_wrong_iff (answers : List OptAnswer) (options : Options) :
    readOptions P answers options = .ok none ↔ WrongOptions P answers := by
  induction answers generalizing options with
  | nil =>
      refine iff_of_false nofun ?_
      rintro ⟨before, a, after, hsplit, -⟩
      exact absurd hsplit.symm (List.append_ne_nil_of_right_ne_nil _ (List.cons_ne_nil a after))
  | cons a answers ih =>
      unfold readOptions
      cases htake : takeOption P a with
      | error e =>
          refine iff_of_false nofun ?_
          rintro ⟨_ | ⟨b, before⟩, a', after, hsplit, hbefore, hwrong⟩
          · obtain ⟨rfl, rfl⟩ := List.cons.inj hsplit
            cases htake.symm.trans ((takeOption_wrong_iff a).mpr hwrong)
          · obtain ⟨rfl, rfl⟩ := List.cons.inj hsplit
            obtain ⟨change, hchange⟩ := hbefore a List.mem_cons_self
            cases htake.symm.trans hchange
      | ok o =>
          cases o with
          | none =>
              refine iff_of_true rfl ⟨[], a, answers, rfl, nofun, ?_⟩
              exact (takeOption_wrong_iff a).mp htake
          | some change =>
              refine (ih (change options)).trans ⟨?_, ?_⟩
              · rintro ⟨before, b, after, rfl, hbefore, hwrong⟩
                refine ⟨a :: before, b, after, rfl, fun b hb => ?_, hwrong⟩
                rcases List.mem_cons.mp hb with rfl | hb
                · exact ⟨change, htake⟩
                · exact hbefore b hb
              · rintro ⟨_ | ⟨b, before⟩, a', after, hsplit, hbefore, hwrong⟩
                · obtain ⟨rfl, rfl⟩ := List.cons.inj hsplit
                  cases htake.symm.trans ((takeOption_wrong_iff a).mpr hwrong)
                · obtain ⟨rfl, rfl⟩ := List.cons.inj hsplit
                  exact ⟨before, a', after, rfl,
                    fun b hb => hbefore b (List.mem_cons_of_mem _ hb), hwrong⟩

/-- A port of zero behind one that is accepted. -/
example : readOptions .plain [.option 112 (some (str "20703")), .option 98 (some (str "0")),
    .bad] {} = .ok none := by decide +kernel

end SUTAgent

end Negatus
