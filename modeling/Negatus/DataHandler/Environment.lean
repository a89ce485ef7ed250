import Negatus.DataHandler.Subprocess
import Negatus.Foundations.SortedMap

/-!
# The environment of a child

The variables of an `exec` are set in the agent itself, for as long as `popen`
runs. Their old values are read one by one while earlier ones of the same list
are already changed, and put back in the same order, where the empty value stands
for a variable that was not set.
-/

namespace Negatus

open Foundations

/-- Names that a variable can have. -/
def IsName (name : Bytes) : Prop := name ≠ [] ∧ 61 ∉ name

/-- The environment `before`, overridden by `vars`: the last pair of a name wins. -/
def override (before : Bytes → Option Bytes) (vars : List (Bytes × Bytes)) (name : Bytes) :
    Option Bytes :=
  (vars.reverse.lookup name).or (before name)

/-- A value as the backup keeps it: the empty value is taken for none. -/
def keep : Option Bytes → Option Bytes
  | some [] => none
  | value => value

/-- What the backup keeps of a variable, at the last pair of its name, is what it was
before the list. -/
def Restorable (before : Bytes → Option Bytes) (vars : List (Bytes × Bytes)) : Prop :=
  ∀ pre name value suf, vars = pre ++ (name, value) :: suf → IsName name →
    name ∉ suf.map Prod.fst → keep (override before pre name) = before name

@[simp] theorem override_nil (before : Bytes → Option Bytes) : override before [] = before := rfl

theorem override_cons (before : Bytes → Option Bytes) (var : Bytes × Bytes)
    (vars : List (Bytes × Bytes)) (name : Bytes) :
    override before (var :: vars) name =
      override (fun x => if x = var.1 then some var.2 else before x) vars name := by
  unfold override
  rw [List.reverse_cons, List.lookup_append, Option.or_assoc]
  congr 1
  rw [SortedMap.lookup_cons]
  show _ = if name = var.1 then some var.2 else before name
  split
  · rfl
  · rfl

/-- Only the value at the name matters. -/
theorem override_congr {before before' : Bytes → Option Bytes} {name : Bytes}
    (h : before name = before' name) (vars : List (Bytes × Bytes)) :
    override before vars name = override before' vars name := by
  unfold override
  rw [h]

namespace Os

theorem lookup_filter (environ : Environ) (name x : Bytes) :
    (environ.filter (·.1 ≠ name)).lookup x = if x = name then none else environ.lookup x := by
  induction environ with
  | nil => simp
  | cons var environ ih =>
      by_cases hvar : var.1 = name
      · have hdrop : (var :: environ).filter (·.1 ≠ name) = environ.filter (·.1 ≠ name) :=
          List.filter_cons_of_neg (by simpa using hvar)
        rw [hdrop, ih]
        split
        · rfl
        · rename_i hx
          rw [SortedMap.lookup_cons, if_neg (hvar ▸ hx)]
      · have hkeep : (var :: environ).filter (·.1 ≠ name) = var :: environ.filter (·.1 ≠ name) :=
          List.filter_cons_of_pos (by simpa using hvar)
        rw [hkeep, SortedMap.lookup_cons, SortedMap.lookup_cons, ih]
        by_cases hx : x = var.1
        · have hname : x ≠ name := fun heq => hvar (hx.symm.trans heq)
          rw [if_pos hx, if_pos hx, if_neg hname]
        · rw [if_neg hx, if_neg hx]

theorem getenv_unsetenv (os : Os) (name x : Bytes) :
    (os.unsetenv name).getenv x = if x = name then none else os.getenv x :=
  lookup_filter os.environ name x

theorem getenv_setenv (os : Os) {name x : Bytes} (hx : IsName x) (value : Bytes) :
    (os.setenv name value).getenv x = if x = name then some value else os.getenv x := by
  unfold setenv
  split
  · rename_i hbad
    rw [if_neg]
    rintro rfl
    rcases hbad with hempty | hequals
    · exact hx.1 hempty
    · exact hx.2 hequals
  · show (os.environ.filter (·.1 ≠ name) ++ [(name, value)]).lookup x = _
    rw [List.lookup_append, lookup_filter, SortedMap.lookup_cons]
    split
    · rfl
    · exact Option.or_none

end Os

/-- The last pair of a name. -/
theorem last_pair {vars : List (Bytes × Bytes)} {name : Bytes} (h : name ∈ vars.map Prod.fst) :
    ∃ pre suf, (∃ value, vars = pre ++ (name, value) :: suf) ∧ name ∉ suf.map Prod.fst := by
  induction vars with
  | nil => cases h
  | cons var vars ih =>
      by_cases hlater : name ∈ vars.map Prod.fst
      · obtain ⟨pre, suf, ⟨value, rfl⟩, hlast⟩ := ih hlater
        exact ⟨var :: pre, suf, ⟨value, rfl⟩, hlast⟩
      · obtain rfl : name = var.1 := by
          rcases List.mem_cons.mp h with h | h
          · exact h
          · exact absurd h hlater
        exact ⟨[], vars, ⟨var.2, rfl⟩, hlater⟩

namespace SubprocessEventHandler

/-- The environment in which `popen` runs. -/
theorem setVars_getenv (os : Os) (vars : List (Bytes × Bytes)) {x : Bytes} (hx : IsName x) :
    (setVars os vars).2.getenv x = override os.getenv vars x := by
  induction vars generalizing os with
  | nil => rfl
  | cons var vars ih =>
      rw [override_cons]
      refine (ih (os.setenv var.1 var.2)).trans (override_congr ?_ vars)
      exact os.getenv_setenv hx var.2

/-- A variable that is not on the list is left alone. -/
theorem restoreVars_other (os : Os) {vars : List (Bytes × Bytes)} {x : Bytes} (hx : IsName x)
    (hnot : x ∉ vars.map Prod.fst) : (restoreVars os vars).getenv x = os.getenv x := by
  induction vars generalizing os with
  | nil => rfl
  | cons var vars ih =>
      rw [List.map_cons, List.mem_cons, not_or] at hnot
      refine (ih _ hnot.2).trans ?_
      split
      · rw [Os.getenv_unsetenv, if_neg hnot.1]
      · rw [Os.getenv_setenv _ hx, if_neg hnot.1]

/-- A variable gets back what was kept of it at the last pair of its name. -/
theorem restoreVars_kept (os os' : Os) {x : Bytes} (hx : IsName x) (pre : List (Bytes × Bytes))
    (value : Bytes) {suf : List (Bytes × Bytes)} (hlast : x ∉ suf.map Prod.fst) :
    (restoreVars os' (((pre ++ (x, value) :: suf).map Prod.fst).zip
      (setVars os (pre ++ (x, value) :: suf)).1)).getenv x =
        keep (override os.getenv pre x) := by
  induction pre generalizing os os' with
  | nil =>
      have hnot : x ∉ ((suf.map Prod.fst).zip (setVars (os.setenv x value) suf).1).map Prod.fst := by
        intro hmem
        obtain ⟨⟨name, old⟩, hpair, rfl⟩ := List.mem_map.mp hmem
        exact hlast (List.of_mem_zip hpair).1
      refine (restoreVars_other _ hx hnot).trans ?_
      rw [override_nil]
      cases hold : os.getenv x with
      | none => exact (Os.getenv_unsetenv _ _ _).trans (if_pos rfl)
      | some old =>
          cases old with
          | nil => exact (Os.getenv_unsetenv _ _ _).trans (if_pos rfl)
          | cons b old => exact (Os.getenv_setenv _ hx _).trans (if_pos rfl)
  | cons var pre ih =>
      rw [override_cons]
      refine (ih (os.setenv var.1 var.2) _).trans (congrArg keep (override_congr ?_ pre))
      exact os.getenv_setenv hx var.2

/-- The environments of the constructor: around `popen`, and behind it. -/
theorem new_environ (P : Platform) (cmdLine : Bytes) (vars : List (Bytes × Bytes)) (io : Io) :
    (new P cmdLine vars io).2.os.environ = (restoreVars (setVars io.os vars).2.popen.2
        ((vars.map Prod.fst).zip (setVars io.os vars).1)).environ ∧
      ∃ ok, (new P cmdLine vars io).2.trace =
        io.trace ++ [.popen cmdLine (setVars io.os vars).2.environ ok] := by
  unfold new
  dsimp only
  cases (setVars io.os vars).2.popen.1 with
  | true => exact ⟨rfl, true, rfl⟩
  | false => exact ⟨rfl, false, rfl⟩

/-- **When the environment is left untouched.** Whether or not `popen` succeeds, it runs in
the environment overridden by the pairs, and the environment behind the constructor is the
one before it if and only if every variable of the list is kept. -/
theorem environment_untouched_iff (P : Platform) (cmdLine : Bytes) (vars : List (Bytes × Bytes))
    (io : Io) :
    ∃ environ ok, (new P cmdLine vars io).2.trace = io.trace ++ [.popen cmdLine environ ok] ∧
      (((∀ name, IsName name →
            (new P cmdLine vars io).2.os.getenv name = io.os.getenv name) ∧
          ∀ name, IsName name → environ.lookup name = override io.os.getenv vars name) ↔
        Restorable io.os.getenv vars) := by
  obtain ⟨henviron, ok, htrace⟩ := new_environ P cmdLine vars io
  refine ⟨_, ok, htrace, ?_⟩
  have hset : ∀ name, IsName name → (setVars io.os vars).2.environ.lookup name =
      override io.os.getenv vars name := fun name hname => setVars_getenv io.os vars hname
  have hafter : ∀ name, (new P cmdLine vars io).2.os.getenv name =
      (restoreVars (setVars io.os vars).2.popen.2
        ((vars.map Prod.fst).zip (setVars io.os vars).1)).getenv name :=
    fun name => congrArg (List.lookup name) henviron
  rw [and_iff_left hset]
  constructor
  · rintro hsame pre name value suf rfl hname hlast
    rw [← hsame name hname, hafter, restoreVars_kept io.os _ hname pre value hlast]
  · intro hkept name hname
    rw [hafter]
    by_cases hmem : name ∈ vars.map Prod.fst
    · obtain ⟨pre, suf, hsplit, hlast⟩ := last_pair hmem
      obtain ⟨value, rfl⟩ := hsplit
      rw [restoreVars_kept io.os _ hname pre value hlast]
      exact hkept pre name value suf rfl hname hlast
    · have hnot : name ∉ ((vars.map Prod.fst).zip (setVars io.os vars).1).map Prod.fst := by
        intro h
        obtain ⟨⟨n, old⟩, hpair, rfl⟩ := List.mem_map.mp h
        exact hmem (List.of_mem_zip hpair).1
      rw [restoreVars_other _ hname hnot]
      refine (hset name hname).trans ?_
      unfold override
      have hnone : vars.reverse.lookup name = none := by
        rw [List.lookup_eq_none_iff]
        intro var hvar
        rw [bne_iff_ne]
        rintro rfl
        exact hmem (List.mem_map_of_mem (List.mem_reverse.mp hvar))
      rw [hnone]
      rfl

/-- `exec "A=1,A=2" ls`, with `A` unset before: afterwards the agent has `A=1`. -/
theorem environment_kept_by_repetition :
    let io : Io := { sock := .new 7, os := {} }
    let vars := [(str "A", str "1"), (str "A", str "2")]
    parseExec [str "\"A=1,A=2\"", str "ls"] = .ok (str "ls", vars) ∧
      io.os.getenv (str "A") = none ∧
      (new .plain (str "ls") vars io).2.os.getenv (str "A") = some (str "1") := by
  refine ⟨rfl, ?_⟩
  decide

end SubprocessEventHandler

end Negatus
