import Negatus.CommandEventHandler.Lines
import Negatus.Foundations.Words

/-!
# The command line of `exec`

The first argument may hold variables, `"name=value,…"`. It is stripped of its
quotes, split at commas and at the first `=` of each piece; the other arguments
are the program and what it is given.
-/

namespace Negatus

open Foundations

/-! ## The loop over the variables -/

/-- Every nonempty piece between commas has a `=`. -/
def Assigns (arg : Bytes) : Prop := ∀ piece ∈ strtok (· = 44) arg, 61 ∈ piece

instance (arg : Bytes) : Decidable (Assigns arg) :=
  inferInstanceAs (Decidable (∀ piece ∈ strtok (· = 44) arg, 61 ∈ piece))

/-- The first argument without its quotes, if it is taken for variables. -/
def envPart : List Bytes → Option Bytes
  | [] => none
  | arg :: _ =>
      match unquote arg with
      | .ok arg => if 61 ∈ arg then some arg else none
      | .error _ => none

theorem envPart_unquoted {arg arg' : Bytes} (hquote : unquote arg = .ok arg') (args : List Bytes) :
    envPart (arg :: args) = if 61 ∈ arg' then some arg' else none := by
  unfold envPart
  dsimp only
  rw [hquote]

theorem envPart_unquote_error {arg : Bytes} {e : Crash} (hquote : unquote arg = .error e)
    (args : List Bytes) : envPart (arg :: args) = none := by
  unfold envPart
  dsimp only
  rw [hquote]

/-- The loop `while (env)`: its piece, what `strtok_r` will return, and the pairs so far. -/
structure EnvLoop where
  env : Option Bytes
  rest : List Bytes
  vars : List (Bytes × Bytes)

namespace EnvLoop

def start (arg : Bytes) : EnvLoop :=
  let pieces := strtok (· = 44) arg
  ⟨pieces.head?, pieces.tail, []⟩

/-- One round. A piece without a `=` is left by `continue`, before `strtok_r`. -/
def round (s : EnvLoop) : EnvLoop :=
  match s.env with
  | none => s
  | some env =>
      match env.findIdx? (· = 61) with
      | none => s
      | some pos =>
          ⟨s.rest.head?, s.rest.tail, s.vars ++ [(env.take pos, env.drop (pos + 1))]⟩

/-- Finitely many rounds come to the end of the list. -/
def Ends (s : EnvLoop) : Prop := ∃ n, (round^[n] s).env = none

/-- The name and the value in front of and behind the first `=`. -/
def assigned (env : Bytes) : Bytes × Bytes :=
  let pos := env.findIdx (· = 61)
  (env.take pos, env.drop (pos + 1))

theorem findIdx?_equals (env : Bytes) :
    env.findIdx? (· = 61) = if 61 ∈ env then some (env.findIdx (· = 61)) else none := by
  split
  · rename_i hmem
    have hex : ∃ b ∈ env, decide (b = 61) = true := ⟨61, hmem, by decide⟩
    rw [List.findIdx?_eq_guard_findIdx_lt, Option.guard_eq_some_iff]
    exact ⟨rfl, by simpa using List.findIdx_lt_length_of_exists hex⟩
  · rename_i hnone
    rw [List.findIdx?_eq_none_iff]
    exact decide_eq_of_notMem hnone

theorem parseAssignment_eq (env : Bytes) :
    parseAssignment env = if 61 ∈ env then .ok (assigned env) else .error .hang := by
  unfold parseAssignment
  rw [findIdx?_equals]
  by_cases hmem : 61 ∈ env
  · rw [if_pos hmem, if_pos hmem]
    rfl
  · rw [if_neg hmem, if_neg hmem]

theorem round_assigned {s : EnvLoop} {env : Bytes} (henv : s.env = some env) (hmem : 61 ∈ env) :
    s.round = ⟨s.rest.head?, s.rest.tail, s.vars ++ [assigned env]⟩ := by
  unfold round
  rw [henv]
  dsimp only
  rw [findIdx?_equals, if_pos hmem]
  rfl

/-- A piece without a `=` stays for ever. -/
theorem stuck {s : EnvLoop} {env : Bytes} (henv : s.env = some env) (hnone : 61 ∉ env) :
    ¬ s.Ends := by
  have hround : s.round = s := by
    unfold round
    rw [henv]
    dsimp only
    rw [findIdx?_equals, if_neg hnone]
  rintro ⟨n, hn⟩
  rw [Function.iterate_fixed hround, henv] at hn
  cases hn

/-- The loop over some pieces ends if all of them have a `=`, and then it has collected
what they assign. -/
theorem collects {pieces : List Bytes} (hall : ∀ piece ∈ pieces, 61 ∈ piece)
    (vars : List (Bytes × Bytes)) :
    ∃ n, round^[n] ⟨pieces.head?, pieces.tail, vars⟩ = ⟨none, [], vars ++ pieces.map assigned⟩ := by
  induction pieces generalizing vars with
  | nil => exact ⟨0, by simp⟩
  | cons piece pieces ih =>
      obtain ⟨hpiece, hall⟩ := List.forall_mem_cons.mp hall
      obtain ⟨n, hn⟩ := ih hall (vars ++ [assigned piece])
      refine ⟨n + 1, ?_⟩
      rw [Function.iterate_succ_apply]
      have hround := round_assigned (s := ⟨some piece, pieces, vars⟩) rfl hpiece
      rw [List.head?_cons, List.tail_cons, hround, hn, List.append_assoc]
      rfl

/-- Otherwise it comes to the first piece that has none. -/
theorem gets_stuck {pieces : List Bytes} (hsome : ∃ piece ∈ pieces, 61 ∉ piece)
    (vars : List (Bytes × Bytes)) : ¬ Ends ⟨pieces.head?, pieces.tail, vars⟩ := by
  induction pieces generalizing vars with
  | nil =>
      obtain ⟨piece, hmem, -⟩ := hsome
      cases hmem
  | cons piece pieces ih =>
      by_cases hpiece : 61 ∈ piece
      · have hlater := ((List.exists_mem_cons_iff _ piece pieces).mp hsome).resolve_left
          (not_not.mpr hpiece)
        have hround := round_assigned (s := ⟨some piece, pieces, vars⟩) rfl hpiece
        rintro ⟨n, hn⟩
        cases n with
        | zero => cases hn
        | succ n =>
            rw [Function.iterate_succ_apply, List.head?_cons, List.tail_cons, hround] at hn
            exact ih hlater _ ⟨n, hn⟩
      · exact stuck rfl hpiece

theorem start_ends_iff (arg : Bytes) :
    (start arg).Ends ↔ Assigns arg := by
  unfold Assigns
  constructor
  · intro hends
    by_contra hnot
    push Not at hnot
    exact gets_stuck hnot [] hends
  · intro hall
    obtain ⟨n, hn⟩ := collects hall []
    exact ⟨n, congrArg EnvLoop.env hn⟩

end EnvLoop

theorem mapM_assigned {pieces : List Bytes} (hall : ∀ piece ∈ pieces, 61 ∈ piece) :
    pieces.mapM parseAssignment = .ok (pieces.map EnvLoop.assigned) := by
  induction pieces with
  | nil => rfl
  | cons piece pieces ih =>
      rw [List.mapM_cons, ih fun piece h => hall piece (List.mem_cons_of_mem _ h),
        EnvLoop.parseAssignment_eq, if_pos (hall piece List.mem_cons_self)]
      rfl

theorem mapM_hangs {pieces : List Bytes} (hsome : ∃ piece ∈ pieces, 61 ∉ piece) :
    pieces.mapM parseAssignment = .error .hang := by
  induction pieces with
  | nil =>
      obtain ⟨piece, hmem, -⟩ := hsome
      cases hmem
  | cons piece pieces ih =>
      rw [List.mapM_cons, EnvLoop.parseAssignment_eq]
      by_cases hpiece : 61 ∈ piece
      · have hlater := ((List.exists_mem_cons_iff _ piece pieces).mp hsome).resolve_left
          (not_not.mpr hpiece)
        rw [if_pos hpiece, ih hlater]
        rfl
      · rw [if_neg hpiece]
        rfl

/-! ## When `exec` comes to an end -/

/-- The loop over the variables ends, if there is one. -/
def LoopEnds (args : List Bytes) : Prop := ∀ arg, envPart args = some arg → (EnvLoop.start arg).Ends

/-- The first argument is not taken for variables, or every piece of it has a `=`. -/
def Assigning (args : List Bytes) : Prop := ∀ arg, envPart args = some arg → Assigns arg

/-- What `exec` comes to, once the first argument has been stripped of its quotes. -/
theorem parseExec_unquoted {arg arg' : Bytes} (hquote : unquote arg = .ok arg')
    (args : List Bytes) :
    parseExec (arg :: args) =
      if 61 ∈ arg' then
        if Assigns arg' then
          match args with
          | [] => .error .undefined
          | prog :: rest =>
              .ok (prog ++ rest.flatMap (str " " ++ ·),
                (strtok (· = 44) arg').map EnvLoop.assigned)
        else .error .hang
      else .ok (arg' ++ args.flatMap (str " " ++ ·), []) := by
  unfold parseExec
  dsimp only
  rw [hquote]
  show (if 61 ∈ arg' then _ else _) = _
  split
  · by_cases hall : Assigns arg'
    · rw [mapM_assigned hall, if_pos hall]
      cases args <;> rfl
    · have hsome : ∃ piece ∈ strtok (· = 44) arg', 61 ∉ piece := by
        unfold Assigns at hall
        push Not at hall
        exact hall
      rw [mapM_hangs hsome, if_neg hall]
      rfl
  · rfl

theorem unquote_error {arg : Bytes} {e : Crash} (h : unquote arg = .error e) :
    arg = [34] ∧ e = .exception := by
  unfold unquote at h
  split at h
  · rename_i hquote
    split at h
    · rename_i htail
      cases h
      refine ⟨?_, rfl⟩
      cases arg with
      | nil => cases hquote
      | cons b arg =>
          obtain rfl : b = 34 := Option.some.inj hquote
          obtain rfl : arg = [] := htail
          rfl
    · cases h
  · cases h

theorem parseExec_unquote_error {arg : Bytes} {e : Crash} (h : unquote arg = .error e)
    (args : List Bytes) : parseExec (arg :: args) = .error .exception := by
  obtain ⟨-, rfl⟩ := unquote_error h
  unfold parseExec
  dsimp only
  rw [h]
  rfl

/-- **When the parsing of an `exec` ends.** The loop over the variables comes to an end if
and only if every piece has a `=`; otherwise `exec` hangs. -/
theorem exec_ends_iff (arg : Bytes) (args : List Bytes) :
    (LoopEnds (arg :: args) ↔ Assigning (arg :: args)) ∧
      (parseExec (arg :: args) = .error .hang ↔ ¬ LoopEnds (arg :: args)) := by
  have hiff : LoopEnds (arg :: args) ↔ Assigning (arg :: args) :=
    forall₂_congr fun arg _ => EnvLoop.start_ends_iff arg
  refine ⟨hiff, ?_⟩
  rw [hiff]
  unfold Assigning
  cases hquote : unquote arg with
  | error e =>
      rw [parseExec_unquote_error hquote, envPart_unquote_error hquote]
      refine iff_of_false (fun h => nomatch h) fun h => h ?_
      exact fun arg' harg => nomatch harg
  | ok arg' =>
      rw [parseExec_unquoted hquote, envPart_unquoted hquote]
      by_cases hequals : 61 ∈ arg'
      · rw [if_pos hequals, if_pos hequals]
        by_cases hall : Assigns arg'
        · rw [if_pos hall]
          refine iff_of_false ?_ fun h => h fun arg'' harg => Option.some.inj harg ▸ hall
          cases args <;> exact fun h => nomatch h
        · rw [if_neg hall]
          exact iff_of_true rfl fun h => hall (h arg' rfl)
      · rw [if_neg hequals, if_neg hequals]
        refine iff_of_false (fun h => nomatch h) fun h => h ?_
        exact fun arg'' harg => nomatch harg

/-- `exec A=1,b ls`: the loop stays at `b`. -/
theorem exec_hangs_on_word :
    (CommandLine.new (str "exec A=1,b ls")) = ⟨str "exec", [str "A=1,b", str "ls"]⟩ ∧
      ¬ LoopEnds [str "A=1,b", str "ls"] := by
  refine ⟨rfl, fun hends => ?_⟩
  have hpieces := (EnvLoop.start_ends_iff (str "A=1,b")).mp (hends _ rfl)
  exact absurd (hpieces (str "b") (by decide)) (by decide)

/-! ## What parsing does to the words -/

/-- Nothing but double quotes stands around `arg'` in `arg`. -/
def OnlyQuotesAround (arg' arg : Bytes) : Prop :=
  ∃ pre suf, arg = pre ++ arg' ++ suf ∧ ∀ b ∈ pre ++ suf, b = 34

/-- `exec` throws nothing, reads no argument that is not there and strips the first one
of quotes only. -/
structure ExecSafe (arg : Bytes) (args : List Bytes) : Prop where
  throws : parseExec (arg :: args) ≠ .error .exception
  reads : parseExec (arg :: args) ≠ .error .undefined
  strips : ∀ arg', unquote arg = .ok arg' → OnlyQuotesAround arg' arg

/-- A double quote at the beginning has its partner at the end. -/
def Quoted (arg : Bytes) : Prop :=
  arg.head? = some 34 → ∃ inner, arg = str "\"" ++ inner ++ str "\""

/-- Behind an only argument that is taken for variables, all of them with a `=`, `exec`
looks for a program. -/
def LacksProgram (arg : Bytes) (args : List Bytes) : Prop :=
  args = [] ∧ ∃ env, envPart [arg] = some env ∧ Assigns env

theorem unquote_quoted (inner : Bytes) : unquote (str "\"" ++ inner ++ str "\"") = .ok inner := by
  have hquotes : str "\"" ++ inner ++ str "\"" = 34 :: (inner ++ [34]) := rfl
  rw [hquotes]
  unfold unquote
  rw [List.head?_cons, if_pos rfl, List.tail_cons, if_neg (by simp), List.dropLast_concat]

theorem unquote_plain {arg : Bytes} (h : arg.head? ≠ some 34) : unquote arg = .ok arg :=
  if_neg h

/-- Without the partner the byte at the end is lost. -/
theorem unquote_strips_iff {arg arg' : Bytes} (h : unquote arg = .ok arg') :
    OnlyQuotesAround arg' arg ↔ Quoted arg := by
  by_cases hhead : arg.head? = some 34
  · constructor
    · rintro ⟨pre, suf, harg, hquotes⟩ -
      obtain ⟨tail, rfl⟩ : ∃ tail, arg = 34 :: tail := List.head?_eq_some_iff.mp hhead
      unfold unquote at h
      rw [if_pos hhead, List.tail_cons] at h
      split at h
      · cases h
      rename_i htail
      obtain rfl : tail.dropLast = arg' := Except.ok.inj h
      -- the bytes other than quotes are those of `arg'`
      have hothers := congrArg (List.filter (· ≠ 34)) harg
      rw [List.filter_append, List.filter_append] at hothers
      have hpre : pre.filter (· ≠ 34) = [] := by
        rw [List.filter_eq_nil_iff]
        intro b hb
        simp [hquotes b (List.mem_append_left _ hb)]
      have hsuf : suf.filter (· ≠ 34) = [] := by
        rw [List.filter_eq_nil_iff]
        intro b hb
        simp [hquotes b (List.mem_append_right _ hb)]
      rw [hpre, hsuf, List.nil_append, List.append_nil, List.filter_cons_of_neg (by simp)] at hothers
      rw [← List.dropLast_append_getLast htail, List.filter_append, List.dropLast_concat] at hothers
      have hlast := List.append_right_eq_self.mp hothers
      have hquote : tail.getLast htail = 34 := by
        by_contra hne
        rw [List.filter_cons_of_pos (by simpa using hne)] at hlast
        cases hlast
      refine ⟨tail.dropLast, ?_⟩
      show 34 :: tail = 34 :: (tail.dropLast ++ [34])
      rw [← hquote, List.dropLast_append_getLast]
    · intro hquoted
      obtain ⟨inner, rfl⟩ := hquoted hhead
      rw [unquote_quoted] at h
      obtain rfl := Except.ok.inj h
      refine ⟨[34], [34], rfl, fun b hb => ?_⟩
      rcases List.mem_append.mp hb with hb | hb
      · exact List.mem_singleton.mp hb
      · exact List.mem_singleton.mp hb
  · rw [unquote_plain hhead] at h
    obtain rfl := Except.ok.inj h
    refine iff_of_true ⟨[], [], by simp, by simp⟩ ?_
    exact fun h => absurd h hhead

theorem Quoted.unquoted {arg : Bytes} (h : Quoted arg) : ∃ arg', unquote arg = .ok arg' := by
  by_cases hhead : arg.head? = some 34
  · obtain ⟨inner, rfl⟩ := h hhead
    exact ⟨inner, unquote_quoted inner⟩
  · exact ⟨arg, unquote_plain hhead⟩

/-- Once the quotes are off, only a missing program goes wrong. -/
theorem parseExec_safe_iff {arg arg' : Bytes} (hquote : unquote arg = .ok arg')
    (args : List Bytes) :
    (parseExec (arg :: args) ≠ .error .exception) ∧
      (parseExec (arg :: args) ≠ .error .undefined ↔ ¬ LacksProgram arg args) := by
  unfold LacksProgram
  rw [parseExec_unquoted hquote, envPart_unquoted hquote]
  by_cases hequals : 61 ∈ arg'
  · rw [if_pos hequals, if_pos hequals]
    by_cases hall : Assigns arg'
    · rw [if_pos hall]
      cases args with
      | nil => simp [hall]
      | cons prog rest => simp
    · rw [if_neg hall]
      simp [hall]
  · rw [if_neg hequals, if_neg hequals]
    simp

theorem safe_iff (arg : Bytes) (args : List Bytes) :
    ExecSafe arg args ↔ Quoted arg ∧ ¬ LacksProgram arg args := by
  constructor
  · rintro ⟨hthrows, hreads, hstrips⟩
    cases hquote : unquote arg with
    | error e => exact absurd (parseExec_unquote_error hquote args) hthrows
    | ok arg' =>
        refine ⟨(unquote_strips_iff hquote).mp (hstrips arg' hquote), ?_⟩
        exact (parseExec_safe_iff hquote args).2.mp hreads
  · rintro ⟨hquoted, hprogram⟩
    obtain ⟨arg', hquote⟩ := hquoted.unquoted
    obtain ⟨hthrows, hreads⟩ := parseExec_safe_iff hquote args
    refine ⟨hthrows, hreads.mpr hprogram, ?_⟩
    intro arg'' hquote'
    exact (unquote_strips_iff hquote').mpr hquoted

/-- **When the parsing of an `exec` is safe.** The first argument is closed if it opens
with a quote, and it is not all that a program is looked for behind. -/
theorem exec_safe_iff (P : Platform) {line arg : Bytes} {args : List Bytes}
    (hcmd : (CommandLine.new (trim line)).cmd = str "exec" ∨
      (CommandLine.new (trim line)).cmd = str "execsu")
    (hargs : (CommandLine.new (trim line)).args = arg :: args) :
    CommandEventHandler.lineKind P (trim line) = .exec (arg :: args) ∧
      (ExecSafe arg args ↔ Quoted arg ∧ ¬ LacksProgram arg args) := by
  refine ⟨?_, safe_iff arg args⟩
  unfold CommandEventHandler.lineKind CommandEventHandler.classify
  dsimp only
  rw [hargs]
  rcases hcmd with hcmd | hcmd <;> rw [hcmd] <;> rfl

theorem exec_safe_closed_quote :
    CommandEventHandler.lineKind .plain (trim (str "exec \"A=1\" ls\n")) =
        .exec [str "\"A=1\"", str "ls"] ∧
      (ExecSafe (str "\"A=1\"") [str "ls"] ↔
        Quoted (str "\"A=1\"") ∧ ¬ LacksProgram (str "\"A=1\"") [str "ls"]) :=
  exec_safe_iff .plain (.inl rfl) rfl

/-- `exec "` throws, `exec A=1` reads behind its arguments, and `exec "ls -l"` runs `l -l"`. -/
theorem exec_not_always_safe :
    (CommandLine.new (trim (str "exec \"\n")) = ⟨str "exec", [str "\""]⟩ ∧
      parseExec [str "\""] = .error .exception) ∧
    (CommandLine.new (trim (str "exec A=1\n")) = ⟨str "exec", [str "A=1"]⟩ ∧
      parseExec [str "A=1"] = .error .undefined) ∧
    (CommandLine.new (trim (str "exec \"ls -l\"\n")) = ⟨str "exec", [str "\"ls", str "-l\""]⟩ ∧
      parseExec [str "\"ls", str "-l\""] = .ok (str "l -l\"", [])) :=
  ⟨⟨rfl, rfl⟩, ⟨rfl, rfl⟩, rfl, rfl⟩

end Negatus
