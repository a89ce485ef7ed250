import Negatus.CommandEventHandler.Exec

/-!
# The wire form of an `exec`

What a client writes down as `exec "name=value,…" program argument …` is what
`exec` reads back: the line is trimmed, split at blanks, each word is trimmed,
the quotes are taken off, and the variables are split at commas and at the first
`=` of each.
-/

namespace Negatus

open Foundations

/-- A run of blanks between two words. -/
def IsGap (gap : Bytes) : Prop := gap ≠ [] ∧ ∀ b ∈ gap, b = 32 ∨ b = 9

/-- What `trim` takes away at both ends. -/
def IsPadding (pad : Bytes) : Prop := ∀ b ∈ pad, isBlank b = true

structure IsWord (word : Bytes) : Prop where
  ne_nil : word ≠ []
  plain : ∀ b ∈ word, b ∉ [(32 : UInt8), 9, 10, 0]
  front : word.head? ≠ some 13
  back : word.getLast? ≠ some 13

structure IsVariable (var : Bytes × Bytes) : Prop where
  name : ∀ b ∈ var.1, b ∉ [(32 : UInt8), 9, 10, 0, 44, 61]
  value : ∀ b ∈ var.2, b ∉ [(32 : UInt8), 9, 10, 0, 44]

instance (gap : Bytes) : Decidable (IsGap gap) :=
  decidable_of_iff (gap ≠ [] ∧ gap.all (fun b => b = 32 || b = 9) = true) <| by
    simp [IsGap]

instance (pad : Bytes) : Decidable (IsPadding pad) :=
  decidable_of_iff (pad.all isBlank = true) List.all_eq_true

instance (word : Bytes) : Decidable (IsWord word) :=
  decidable_of_iff (word ≠ [] ∧ word.all (fun b => decide (b ∉ [(32 : UInt8), 9, 10, 0])) = true ∧
      word.head? ≠ some 13 ∧ word.getLast? ≠ some 13) <| by
    rw [List.all_eq_true]
    constructor
    · rintro ⟨hne, hplain, hfront, hback⟩
      exact ⟨hne, fun b hb => of_decide_eq_true (hplain b hb), hfront, hback⟩
    · rintro ⟨hne, hplain, hfront, hback⟩
      exact ⟨hne, fun b hb => decide_eq_true (hplain b hb), hfront, hback⟩

instance (var : Bytes × Bytes) : Decidable (IsVariable var) :=
  decidable_of_iff (var.1.all (fun b => decide (b ∉ [(32 : UInt8), 9, 10, 0, 44, 61])) = true ∧
      var.2.all (fun b => decide (b ∉ [(32 : UInt8), 9, 10, 0, 44])) = true) <| by
    rw [List.all_eq_true, List.all_eq_true]
    constructor
    · rintro ⟨hname, hvalue⟩
      exact ⟨fun b hb => of_decide_eq_true (hname b hb),
        fun b hb => of_decide_eq_true (hvalue b hb)⟩
    · rintro ⟨hname, hvalue⟩
      exact ⟨fun b hb => decide_eq_true (hname b hb), fun b hb => decide_eq_true (hvalue b hb)⟩

/-- `name=value` -/
def assignment (var : Bytes × Bytes) : Bytes := var.1 ++ str "=" ++ var.2

/-- `"name=value,…"`, with its quotes -/
def environment (vars : List (Bytes × Bytes)) : Bytes :=
  str "\"" ++ (str ",").intercalate (vars.map assignment) ++ str "\""

/-- The line, with the gap in front of each word. -/
def execLine (gap : Bytes) (vars : List (Bytes × Bytes)) (words : List (Bytes × Bytes)) : Bytes :=
  str "exec" ++ ((gap, environment vars) :: words).flatMap fun gw => gw.1 ++ gw.2

/-! ## Trimming -/

theorem trim_padded {pre suf s : Bytes} (hpre : IsPadding pre) (hsuf : IsPadding suf)
    (hfront : ∀ b, s.head? = some b → isBlank b = false)
    (hback : ∀ b, s.getLast? = some b → isBlank b = false) (hne : s ≠ []) :
    trim (pre ++ s ++ suf) = s := by
  have hend : ((pre ++ s ++ suf).reverse.dropWhile isBlank).reverse = pre ++ s := by
    rw [List.reverse_append, List.dropWhile_append_of_pos fun b hb =>
      hsuf b (List.mem_reverse.mp hb)]
    rw [List.reverse_eq_iff, ← List.dropLast_append_getLast hne, ← List.append_assoc,
      List.reverse_concat, List.dropWhile_cons_of_neg]
    rw [hback _ (List.getLast?_eq_some_getLast hne)]
    exact Bool.false_ne_true
  unfold trim
  dsimp only
  rw [hend, List.dropWhile_append_of_pos hpre]
  obtain ⟨b, rest, rfl⟩ := List.exists_cons_of_ne_nil hne
  rw [List.dropWhile_cons_of_neg]
  rw [hfront b rfl]
  exact Bool.false_ne_true

theorem not_blank {b : UInt8} (hplain : b ∉ [(32 : UInt8), 9, 10, 0]) (hreturn : b ≠ 13) :
    isBlank b = false := by
  unfold isBlank
  simp only [List.mem_cons, List.not_mem_nil, or_false, not_or] at hplain
  simp [hplain, hreturn]

theorem IsWord.not_blank_front {word : Bytes} (h : IsWord word) (b : UInt8)
    (hb : word.head? = some b) : isBlank b = false :=
  not_blank (h.plain b (List.mem_of_head? hb)) fun hreturn => h.front (hreturn ▸ hb)

theorem IsWord.not_blank_back {word : Bytes} (h : IsWord word) (b : UInt8)
    (hb : word.getLast? = some b) : isBlank b = false :=
  not_blank (h.plain b (List.mem_of_getLast? hb)) fun hreturn => h.back (hreturn ▸ hb)

theorem IsWord.trim {word : Bytes} (h : IsWord word) : trim word = word := by
  have hnone : IsPadding [] := by
    intro b hb
    cases hb
  have hpadded := trim_padded hnone hnone h.not_blank_front h.not_blank_back h.ne_nil
  rwa [List.nil_append, List.append_nil] at hpadded

/-! ## Words -/

theorem assignment_eq (var : Bytes × Bytes) : assignment var = var.1 ++ 61 :: var.2 := by
  unfold assignment
  rw [List.append_assoc]
  rfl

theorem environment_eq (vars : List (Bytes × Bytes)) :
    environment vars = 34 :: (([44] : Bytes).intercalate (vars.map assignment) ++ [34]) := rfl

theorem isWord_exec : IsWord (str "exec") := by
  decide

theorem mem_assignment {var : Bytes × Bytes} (hvar : IsVariable var) {b : UInt8}
    (hb : b ∈ assignment var) : b ∉ [(32 : UInt8), 9, 10, 0, 44] := by
  rw [assignment_eq, List.mem_append, List.mem_cons] at hb
  rcases hb with hb | rfl | hb
  · intro hmem
    exact hvar.name b hb (List.mem_append_left [61] hmem)
  · decide
  · exact hvar.value b hb

theorem mem_environment {vars : List (Bytes × Bytes)} (hvars : ∀ var ∈ vars, IsVariable var)
    {b : UInt8} (hb : b ∈ environment vars) : b ∉ [(32 : UInt8), 9, 10, 0] := by
  rw [environment_eq, List.mem_cons, List.mem_append, List.mem_singleton] at hb
  rcases hb with rfl | hb | rfl
  · decide
  · rcases mem_intercalate hb with hb | ⟨piece, hpiece, hb⟩
    · obtain rfl := List.mem_singleton.mp hb
      decide
    · obtain ⟨var, hvar, rfl⟩ := List.mem_map.mp hpiece
      intro hmem
      exact mem_assignment (hvars var hvar) hb (List.mem_append_left [44] hmem)
  · decide

/-- The quotes keep `trim` away from the variables. -/
theorem isWord_environment {vars : List (Bytes × Bytes)} (hvars : ∀ var ∈ vars, IsVariable var) :
    IsWord (environment vars) where
  ne_nil := List.cons_ne_nil _ _
  plain := fun _ hb => mem_environment hvars hb
  front := by
    rw [environment_eq, List.head?_cons]
    decide
  back := by
    rw [environment_eq, ← List.cons_append, List.getLast?_concat]
    decide

theorem IsWord.separate {word : Bytes} (h : IsWord word) (b : UInt8) (hb : b ∈ word) :
    (b = 32 || b = 9 : Bool) = false := by
  have hplain := h.plain b hb
  simp only [List.mem_cons, List.not_mem_nil, or_false, not_or] at hplain
  simp [hplain]

theorem IsGap.separates {gap : Bytes} (h : IsGap gap) (b : UInt8) (hb : b ∈ gap) :
    (b = 32 || b = 9 : Bool) = true := by
  simpa using h.2 b hb

section

variable {words : List (Bytes × Bytes)}

theorem nul_notMem_words (hwords : ∀ gw ∈ words, IsGap gw.1 ∧ IsWord gw.2) :
    0 ∉ words.flatMap fun gw => gw.1 ++ gw.2 := by
  intro hmem
  obtain ⟨gw, hgw, hmem⟩ := List.mem_flatMap.mp hmem
  obtain ⟨hgap, hword⟩ := hwords gw hgw
  rcases List.mem_append.mp hmem with hmem | hmem
  · rcases hgap.2 0 hmem with h | h <;> cases h
  · exact hword.plain 0 hmem (by decide)

/-- The end of the line is the end of a word. -/
theorem getLast?_words (hwords : ∀ gw ∈ words, IsGap gw.1 ∧ IsWord gw.2) (hne : words ≠ []) :
    ∃ gw ∈ words, (words.flatMap fun gw => gw.1 ++ gw.2).getLast? = gw.2.getLast? := by
  refine ⟨words.getLast hne, List.getLast_mem hne, ?_⟩
  have hword := (hwords _ (List.getLast_mem hne)).2
  conv_lhs => rw [← List.dropLast_append_getLast hne]
  rw [List.flatMap_append, List.flatMap_singleton, ← List.append_assoc,
    List.getLast?_append_of_ne_nil _ hword.ne_nil]

/-- `CommandLine` takes the line apart. -/
theorem commandLine_words (hwords : ∀ gw ∈ words, IsGap gw.1 ∧ IsWord gw.2) {cmd : Bytes}
    (hcmd : IsWord cmd) :
    CommandLine.new (cmd ++ words.flatMap fun gw => gw.1 ++ gw.2) =
      ⟨cmd, words.map Prod.snd⟩ := by
  have hnul : 0 ∉ cmd ++ words.flatMap fun gw => gw.1 ++ gw.2 := by
    rw [List.mem_append, not_or]
    exact ⟨fun hmem => hcmd.plain 0 hmem (by decide), nul_notMem_words hwords⟩
  have hsplit : strtok (fun c => c = 32 || c = 9) (cmd ++ words.flatMap fun gw => gw.1 ++ gw.2) =
      cmd :: words.map Prod.snd := by
    unfold strtok
    rw [cstr_of_notMem hnul]
    refine words_joined hcmd.ne_nil hcmd.separate fun gw hgw => ?_
    obtain ⟨hgap, hword⟩ := hwords gw hgw
    exact ⟨⟨hgap.1, hgap.separates⟩, hword.ne_nil, hword.separate⟩
  have htrim : (words.map Prod.snd).map trim = words.map Prod.snd := by
    rw [List.map_map]
    exact List.map_congr_left fun gw hgw => (hwords gw hgw).2.trim
  unfold CommandLine.new
  rw [hsplit]
  dsimp only
  rw [htrim]

theorem trim_words (hwords : ∀ gw ∈ words, IsGap gw.1 ∧ IsWord gw.2) (hne : words ≠ [])
    {cmd pre suf : Bytes} (hcmd : IsWord cmd) (hpre : IsPadding pre) (hsuf : IsPadding suf) :
    trim (pre ++ (cmd ++ words.flatMap fun gw => gw.1 ++ gw.2) ++ suf) =
      cmd ++ words.flatMap fun gw => gw.1 ++ gw.2 := by
  obtain ⟨gw, hgw, hlast⟩ := getLast?_words hwords hne
  have hrest : (words.flatMap fun gw => gw.1 ++ gw.2) ≠ [] := by
    intro hnil
    rw [hnil, List.getLast?_nil, eq_comm, List.getLast?_eq_none_iff] at hlast
    exact (hwords gw hgw).2.ne_nil hlast
  apply trim_padded hpre hsuf
  · rw [List.head?_append_of_ne_nil _ hcmd.ne_nil]
    exact hcmd.not_blank_front
  · rw [List.getLast?_append_of_ne_nil _ hrest, hlast]
    exact (hwords gw hgw).2.not_blank_back
  · exact fun hnil => hcmd.ne_nil (List.append_eq_nil_iff.mp hnil).1

end

/-! ## Variables -/

theorem assigned_assignment {var : Bytes × Bytes} (hvar : IsVariable var) :
    EnvLoop.assigned (assignment var) = var := by
  have hname : var.1.findIdx (· = 61) = var.1.length := by
    apply List.findIdx_eq_length_of_false
    exact decide_eq_of_notMem fun hmem => hvar.name 61 hmem (by decide)
  have hpos : (assignment var).findIdx (· = 61) = var.1.length := by
    rw [assignment_eq, List.findIdx_append, hname, if_neg (Nat.lt_irrefl _), List.findIdx_cons]
    simp
  unfold EnvLoop.assigned
  dsimp only
  rw [hpos, assignment_eq, List.take_left, ← List.drop_drop, List.drop_left]
  rfl

theorem equals_mem_assignment (var : Bytes × Bytes) : 61 ∈ assignment var := by
  rw [assignment_eq]
  exact List.mem_append_right _ List.mem_cons_self

theorem strtok_assignments {vars : List (Bytes × Bytes)} (hvars : ∀ var ∈ vars, IsVariable var) :
    strtok (· = 44) (([44] : Bytes).intercalate (vars.map assignment)) = vars.map assignment := by
  have hnul : 0 ∉ ([44] : Bytes).intercalate (vars.map assignment) := by
    intro hmem
    have henv : 0 ∈ environment vars :=
      List.mem_cons_of_mem _ (List.mem_append_left _ hmem)
    exact mem_environment hvars henv (by decide)
  unfold strtok
  rw [cstr_of_notMem hnul]
  apply words_intercalate (by decide)
  intro piece hpiece
  obtain ⟨var, hvar, rfl⟩ := List.mem_map.mp hpiece
  refine ⟨List.ne_nil_of_mem (equals_mem_assignment var), ?_⟩
  exact decide_eq_of_notMem fun hmem => mem_assignment (hvars var hvar) hmem (by decide)

theorem equals_mem_assignments {vars : List (Bytes × Bytes)} (hne : vars ≠ []) :
    61 ∈ ([44] : Bytes).intercalate (vars.map assignment) := by
  obtain ⟨var, rest, rfl⟩ := List.exists_cons_of_ne_nil hne
  cases rest with
  | nil => simpa [List.intercalate] using equals_mem_assignment var
  | cons var' rest =>
      simp only [List.map_cons, List.intercalate, List.intersperse_cons_cons, List.flatten_cons]
      exact List.mem_append_left _ (equals_mem_assignment var)

theorem joined_intercalate (prog : Bytes) (args : List Bytes) :
    prog ++ args.flatMap (str " " ++ ·) = (str " ").intercalate (prog :: args) := by
  induction args generalizing prog with
  | nil => simp [List.intercalate]
  | cons arg args ih =>
      have hsplit : (str " ").intercalate (prog :: arg :: args) =
          prog ++ (str " " ++ (str " ").intercalate (arg :: args)) := by
        simp [List.intercalate]
      rw [hsplit, ← ih, List.flatMap_cons, List.append_assoc]

/-- `exec` reads the variables back, and joins the words behind them. -/
theorem parseExec_environment {vars : List (Bytes × Bytes)} (hne : vars ≠ [])
    (hvars : ∀ var ∈ vars, IsVariable var) (prog : Bytes) (args : List Bytes) :
    parseExec (environment vars :: prog :: args) =
      .ok ((str " ").intercalate (prog :: args), vars) := by
  have hassigns : Assigns (([44] : Bytes).intercalate (vars.map assignment)) := by
    unfold Assigns
    rw [strtok_assignments hvars]
    intro piece hpiece
    obtain ⟨var, -, rfl⟩ := List.mem_map.mp hpiece
    exact equals_mem_assignment var
  have hback : (vars.map assignment).map EnvLoop.assigned = vars := by
    rw [List.map_map]
    refine Eq.trans ?_ (List.map_id vars)
    exact List.map_congr_left fun var hvar => assigned_assignment (hvars var hvar)
  have hquote : unquote (environment vars) = .ok (([44] : Bytes).intercalate (vars.map assignment)) :=
    unquote_quoted _
  rw [parseExec_unquoted hquote, if_pos (equals_mem_assignments hne), if_pos hassigns,
    strtok_assignments hvars, hback]
  dsimp only
  rw [joined_intercalate]

namespace CommandEventHandler

/-- A `SubprocessEventHandler` is built from a command line and variables, and becomes the
data handler if it has not closed itself. -/
def passed (P : Platform) (cmdLine : Bytes) (vars : List (Bytes × Bytes)) : Call Bytes := fun c =>
  match SubprocessEventHandler.new P cmdLine vars c.io with
  | (h, io) =>
      if h.mClosed then .ok (agentWarn (str "failed to launch process")) (c.setIo io)
      else .ok [] (attached (.subprocess h) io c)

theorem launch_parsed (P : Platform) {args : List Bytes} {cmdLine : Bytes}
    {vars : List (Bytes × Bytes)} (hparse : parseExec args = .ok (cmdLine, vars)) :
    launch P args = passed P cmdLine vars := by
  funext c
  unfold launch passed
  rw [hparse]
  show (match SubprocessEventHandler.new P cmdLine vars c.io with
    | (h, io) => (do
        set (c.setIo io)
        if h.mClosed then pure (agentWarn (str "failed to launch process"))
        else
          attach (.subprocess h)
          pure [] : Call Bytes)) c = _
  cases hnew : SubprocessEventHandler.new P cmdLine vars c.io with
  | mk h io =>
      dsimp only
      split
      · rfl
      · rfl

/-- **`exec` reads its wire form back.** The variables and the program with its arguments
reach the `SubprocessEventHandler` as the client wrote them. -/
theorem exec_reads_back (P : Platform) {vars words : List (Bytes × Bytes)} {gap pre suf : Bytes}
    (hsome : vars ≠ []) (hvars : ∀ var ∈ vars, IsVariable var) (hgap : IsGap gap)
    (hprog : words ≠ []) (hwords : ∀ gw ∈ words, IsGap gw.1 ∧ IsWord gw.2)
    (hpre : IsPadding pre) (hsuf : IsPadding suf) :
    let cl := CommandLine.new (trim (pre ++ execLine gap vars words ++ suf))
    dispatch P cl.cmd cl.args = passed P ((str " ").intercalate (words.map Prod.snd)) vars := by
  have hall : ∀ gw ∈ (gap, environment vars) :: words, IsGap gw.1 ∧ IsWord gw.2 :=
    List.forall_mem_cons.mpr ⟨⟨hgap, isWord_environment hvars⟩, hwords⟩
  obtain ⟨⟨gap', prog⟩, rest, rfl⟩ := List.exists_cons_of_ne_nil hprog
  have hline : trim (pre ++ execLine gap vars ((gap', prog) :: rest) ++ suf) =
      execLine gap vars ((gap', prog) :: rest) :=
    trim_words hall (List.cons_ne_nil _ _) isWord_exec hpre hsuf
  have hsplit : CommandLine.new (execLine gap vars ((gap', prog) :: rest)) =
      ⟨str "exec", environment vars :: prog :: rest.map Prod.snd⟩ :=
    commandLine_words hall isWord_exec
  intro cl
  have hcl : cl = ⟨str "exec", environment vars :: prog :: rest.map Prod.snd⟩ := by
    show CommandLine.new (trim _) = _
    rw [hline, hsplit]
  rw [hcl]
  exact launch_parsed P (parseExec_environment hsome hvars prog (rest.map Prod.snd))

theorem exec_reads_back_two_variables :
    let cl := CommandLine.new (trim (str " " ++ execLine (str " ")
      [(str "A", str "b=\"c"), (str "D", [])] [(str "\t ", str "ls"), (str " ", str "-l")] ++
        str "\r\n"))
    dispatch .plain cl.cmd cl.args =
      passed .plain (str "ls -l") [(str "A", str "b=\"c"), (str "D", [])] :=
  exec_reads_back .plain (by decide)
    (List.forall_mem_cons.mpr ⟨by decide,
      List.forall_mem_cons.mpr ⟨by decide, List.forall_mem_nil _⟩⟩)
    (by decide) (by decide)
    (List.forall_mem_cons.mpr ⟨⟨by decide, by decide⟩,
      List.forall_mem_cons.mpr ⟨⟨by decide, by decide⟩, List.forall_mem_nil _⟩⟩)
    (by decide) (by decide)

end CommandEventHandler

end Negatus
