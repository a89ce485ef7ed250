import Negatus.Foundations.FirstSplit
import Negatus.Foundations.Tokenizer
import Negatus.Strings

/-!
# `Config.cpp`

The default test root is on the SD card if `/proc/mounts` has it. The loop over the
mounts writes into the buffer that `strtok` walks, and has two ways back to its head that
do not go through `strtok`.
-/

namespace Negatus

open Foundations

namespace Config

def sdCardMount : Bytes := str "/mnt/sdcard"

def testrootSdCard : Bytes := str "/mnt/sdcard/test"

/-- `TESTROOT_NO_SD_CARD`, with and without `NEGATUS_LINUX_DESKTOP_BUILD` -/
def testrootNoSdCard (desktop : Bool) : Bytes :=
  if desktop then str "/tmp" else str "/data/local/tmp"

/-- `strchr`, as an offset into the buffer -/
def strchr (buffer : Bytes) (s : Nat) (c : UInt8) : Option Nat :=
  ((stringAt 0 buffer s).findIdx? (· = c)).map (s + ·)

/-- The loop over the mounts; `line` is `none` when it has been left. -/
structure MountLoop where
  mountsc : Tokenizer UInt8
  line : Option Nat
  mTestRoot : Bytes

/-- `line = strtok(.., "\n");` -/
def MountLoop.nextLine (s : MountLoop) : MountLoop :=
  let (line, mountsc) := s.mountsc.next 0 (· = newline)
  { s with mountsc, line }

def MountLoop.start (mounts mTestRoot : Bytes) : MountLoop :=
  MountLoop.nextLine { mountsc := ⟨cstr mounts ++ [0], 0⟩, line := none, mTestRoot }

/-- One round. -/
def MountLoop.round (s : MountLoop) : MountLoop :=
  match s.line with
  | none => s
  | some line =>
      match strchr s.mountsc.buffer line 32 with
      | none => s                                                   -- `continue`
      | some beg =>
          match strchr s.mountsc.buffer (beg + 1) 32 with
          | none => s                                               -- `continue`
          | some end_ =>
              let s := { s with mountsc.buffer := s.mountsc.buffer.set end_ 0 }
              if stringAt 0 s.mountsc.buffer (beg + 1) = sdCardMount then
                { s with mTestRoot := testrootSdCard, line := none }  -- `break`
              else s.nextLine

/-- The loop, if it is left within so many rounds. -/
def MountLoop.run : Nat → MountLoop → Option Bytes
  | 0, s => if s.line = none then some s.mTestRoot else none
  | fuel + 1, s => if s.line = none then some s.mTestRoot else s.round.run fuel

/-- `readTextFile("/proc/mounts", mounts)`, with what `fopen` finds. -/
def readMounts (file : Option Bytes) : Option Bytes :=
  file.map fun text => eraseLast (fgetsAll text)

/-- `setDefaultTestRoot`: the new `mTestRoot`, if it returns within so many rounds. -/
def setDefaultTestRoot (desktop : Bool) (fuel : Nat) (file : Option Bytes) (mTestRoot : Bytes) :
    Option Bytes := do
  let mTestRoot ←
    match readMounts file with
    | none => some mTestRoot
    | some mounts => (MountLoop.start mounts mTestRoot).run fuel
  return if mTestRoot = [] then testrootNoSdCard desktop else mTestRoot

/-- `setTestRoot`: the new `mTestRoot`, which need not be a directory. -/
def setTestRoot (desktop : Bool) (fuel : Nat) (file : Option Bytes) (testRoot mTestRoot : Bytes) :
    Option Bytes :=
  if testRoot = [] then setDefaultTestRoot desktop fuel file mTestRoot else some testRoot

/-! ## What the lines say -/

/-- The field between the first two blanks. -/
def secondField (line : Bytes) : Option Bytes :=
  match line.splitOn 32 with
  | _ :: field :: _ :: _ => some field
  | _ => none

/-- The test root that a text asks for. -/
def wanted (desktop : Bool) (text : Bytes) : Bytes :=
  if ∃ line ∈ text.splitOn newline, secondField line = some sdCardMount then testrootSdCard
  else testrootNoSdCard desktop

/-- `setDefaultTestRoot` returns, and with the test root that the text asks for. A NUL in
the file ends the buffer that it is read in; without one the text is the file. -/
def FindsSdCard (desktop : Bool) (file : Bytes) : Prop :=
  ∃ fuel, setDefaultTestRoot desktop fuel (some file) [] = some (wanted desktop (fgetsAll file))

/-- The lines that the loop meets in front of the SD card; the text is read without its
last character. -/
def linesBefore (text : Bytes) : List Bytes :=
  (strtok (· = newline) (eraseLast text)).takeWhile (secondField · ≠ some sdCardMount)

section

variable {a field b line : Bytes}

theorem splitOn_cons (ha : 32 ∉ a) (b : Bytes) :
    (a ++ 32 :: b).splitOn 32 = a :: b.splitOn 32 := by
  have hone : a.splitOnP (· == 32) = [a] := List.splitOn_eq_singleton ha
  show (a ++ 32 :: b).splitOnP (· == 32) = _
  rw [List.splitOnP_append_cons a b (by decide), hone]
  rfl

theorem secondField_two (ha : 32 ∉ a) (hfield : 32 ∉ field) (b : Bytes) :
    secondField (a ++ 32 :: (field ++ 32 :: b)) = some field := by
  obtain ⟨c, rest, hrest⟩ := List.exists_cons_of_ne_nil (List.splitOn_ne_nil 32 b)
  unfold secondField
  rw [splitOn_cons ha, splitOn_cons hfield, hrest]

theorem secondField_one (ha : 32 ∉ a) (hb : 32 ∉ b) : secondField (a ++ 32 :: b) = none := by
  unfold secondField
  rw [splitOn_cons ha, List.splitOn_eq_singleton hb]

theorem secondField_zero (ha : 32 ∉ a) : secondField a = none := by
  unfold secondField
  rw [List.splitOn_eq_singleton ha]

/-- A line has no blank, or one, or a second field. -/
theorem fields_cases (line : Bytes) : 32 ∉ line ∨
    (∃ a b, line = a ++ 32 :: b ∧ 32 ∉ a ∧ 32 ∉ b) ∨
      ∃ a field b, line = a ++ 32 :: (field ++ 32 :: b) ∧ 32 ∉ a ∧ 32 ∉ field := by
  by_cases hline : 32 ∈ line
  · obtain ⟨a, rest, rfl, ha⟩ := List.eq_append_cons_of_mem hline
    by_cases hrest : 32 ∈ rest
    · obtain ⟨field, b, rfl, hfield⟩ := List.eq_append_cons_of_mem hrest
      exact .inr (.inr ⟨a, field, b, rfl, ha, hfield⟩)
    · exact .inr (.inl ⟨a, rest, rfl, ha, hrest⟩)
  · exact .inl hline

/-- A line with a second field. -/
theorem secondField_some (h : secondField line = some field) :
    ∃ a b, line = a ++ 32 :: (field ++ 32 :: b) ∧ 32 ∉ a ∧ 32 ∉ field := by
  rcases fields_cases line with hline | ⟨a, b, rfl, ha, hb⟩ | ⟨a, field', b, rfl, ha, hfield⟩
  · cases (secondField_zero hline).symm.trans h
  · cases (secondField_one ha hb).symm.trans h
  · obtain rfl := Option.some.inj ((secondField_two ha hfield b).symm.trans h)
    exact ⟨a, b, rfl, ha, hfield⟩

/-- A line without one: there is no first blank, or none behind it. -/
theorem secondField_none (h : secondField line = none) :
    32 ∉ line ∨ ∃ a b, line = a ++ 32 :: b ∧ 32 ∉ a ∧ 32 ∉ b := by
  rcases fields_cases line with hline | hone | ⟨a, field, b, rfl, ha, hfield⟩
  · exact .inl hline
  · exact .inr hone
  · cases (secondField_two ha hfield b).symm.trans h

theorem secondField_isSome_iff : (secondField line).isSome ↔ 2 ≤ line.count 32 := by
  cases h : secondField line with
  | none =>
      have hfew : line.count 32 < 2 := by
        rcases secondField_none h with hline | ⟨a, b, rfl, ha, hb⟩
        · rw [List.count_eq_zero.mpr hline]
          decide
        · rw [List.count_append, List.count_cons_self, List.count_eq_zero.mpr ha,
            List.count_eq_zero.mpr hb]
          decide
      simpa using hfew
  | some field =>
      obtain ⟨a, b, rfl, -, -⟩ := secondField_some h
      rw [List.count_append, List.count_cons_self, List.count_append, List.count_cons_self]
      simp only [Option.isSome_some, true_iff]
      omega

end

/-! ## One line -/

section

variable {buffer : Bytes} {pos : Nat} {c : UInt8}

theorem strchr_none (h : c ∉ stringAt 0 buffer pos) : strchr buffer pos c = none := by
  unfold strchr
  rw [List.findIdx?_eq_none_iff.mpr (decide_eq_of_notMem h)]
  rfl

theorem strchr_some {a b : Bytes} (h : stringAt 0 buffer pos = a ++ c :: b) (ha : c ∉ a) :
    strchr buffer pos c = some (pos + a.length) ∧
      stringAt 0 buffer (pos + a.length + 1) = b := by
  constructor
  · unfold strchr
    rw [h, findIdx?_first (decide_eq_of_notMem ha) (decide_eq_true rfl)]
    rfl
  · rw [Nat.add_assoc, stringAt_add (by rw [h, List.length_append, List.length_cons]; omega), h,
      List.drop_length_add_append]
    rfl

end

variable {s : MountLoop} {pos : Nat} {line field : Bytes}

/-- A line without a second field stays for ever. -/
theorem round_stuck (hpos : s.line = some pos) (hline : stringAt 0 s.mountsc.buffer pos = line)
    (hfield : secondField line = none) : s.round = s := by
  unfold MountLoop.round
  rw [hpos]
  dsimp only
  rcases secondField_none hfield with hnone | ⟨a, b, hsplit, ha, hb⟩
  · rw [strchr_none (hline ▸ hnone)]
  · obtain ⟨hbeg, hrest⟩ := strchr_some (hline.trans hsplit) ha
    rw [hbeg]
    dsimp only
    rw [strchr_none (hrest ▸ hb)]

/-- The round for a line with one writes into that line. -/
theorem round_field (hpos : s.line = some pos) (hline : stringAt 0 s.mountsc.buffer pos = line)
    (hfield : secondField line = some field) :
    ∃ e < pos + line.length, s.round =
      if field = sdCardMount then
        ⟨⟨s.mountsc.buffer.set e 0, s.mountsc.save⟩, none, testrootSdCard⟩
      else
        MountLoop.nextLine ⟨⟨s.mountsc.buffer.set e 0, s.mountsc.save⟩, s.line, s.mTestRoot⟩ := by
  obtain ⟨a, b, hsplit, ha, hnot⟩ := secondField_some hfield
  obtain ⟨hbeg, hrest⟩ := strchr_some (hline.trans hsplit) ha
  obtain ⟨hend, -⟩ := strchr_some hrest hnot
  refine ⟨pos + a.length + 1 + field.length, ?_, ?_⟩
  · rw [hsplit]
    simp only [List.length_append, List.length_cons]
    omega
  · have hcut : stringAt 0 (s.mountsc.buffer.set (pos + a.length + 1 + field.length) 0)
        (pos + a.length + 1) = field := by
      rw [stringAt_set_nul (by rw [hrest, List.length_append, List.length_cons]; omega), hrest,
        List.take_left]
    unfold MountLoop.round
    rw [hpos]
    dsimp only
    rw [hbeg]
    dsimp only
    rw [hend]
    dsimp only
    rw [hcut]

/-! ## All lines -/

/-- The loop has these lines in front of it. -/
inductive MountLoop.At (s : MountLoop) : List Bytes → Prop
  | left (hline : s.line = none) : At s []
  | line {pos : Nat} {line : Bytes} {lines : List Bytes} (hpos : s.line = some pos)
      (hline : stringAt 0 s.mountsc.buffer pos = line)
      (hsave : pos + line.length ≤ s.mountsc.save)
      (hlines : words (· = newline) (s.mountsc.text 0) = lines) : At s (line :: lines)

theorem MountLoop.At.nextLine {lines : List Bytes}
    (h : words (· = newline) (s.mountsc.text 0) = lines) : s.nextLine.At lines := by
  cases lines with
  | nil => exact .left (Tokenizer.next_none h)
  | cons line lines =>
      obtain ⟨pos, hpos, hline, hsave, hlines⟩ := Tokenizer.next_some h
      exact .line hpos hline hsave hlines

theorem MountLoop.At.start (mounts mTestRoot : Bytes) :
    (MountLoop.start mounts mTestRoot).At (strtok (· = newline) mounts) := by
  apply MountLoop.At.nextLine
  have htext : Tokenizer.text 0 ⟨cstr mounts ++ [0], 0⟩ = cstr mounts := by
    show (cstr mounts ++ [0]).takeWhile (· ≠ 0) = cstr mounts
    rw [List.takeWhile_append_of_pos (decide_ne_of_notMem (nul_notMem_cstr mounts))]
    simp
  show words (· = newline) (Tokenizer.text 0 ⟨cstr mounts ++ [0], 0⟩) = _
  rw [htext]
  rfl

/-- A line with another second field is left behind; nothing behind it has been written to. -/
theorem MountLoop.At.round {lines : List Bytes} (h : s.At (line :: lines))
    (hfield : secondField line = some field) (hother : field ≠ sdCardMount) :
    s.round.At lines ∧ s.round.mTestRoot = s.mTestRoot := by
  cases h with
  | line hpos hline hsave hlines =>
      obtain ⟨e, he, hround⟩ := round_field hpos hline hfield
      rw [if_neg hother] at hround
      rw [hround]
      refine ⟨MountLoop.At.nextLine ?_, rfl⟩
      show words (· = newline) (stringAt 0 (s.mountsc.buffer.set e 0) s.mountsc.save) = lines
      rw [stringAt_set_before (Nat.lt_of_lt_of_le he hsave)]
      exact hlines

/-- What the loop comes to: whether it has found the SD card, if it ends. -/
def search : List Bytes → Option Bool
  | [] => some false
  | line :: lines =>
      match secondField line with
      | none => none
      | some field => if field = sdCardMount then some true else search lines

theorem run_over (hline : s.line = none) (fuel : Nat) : s.run fuel = some s.mTestRoot := by
  cases fuel with
  | zero => exact if_pos hline
  | succ fuel => exact if_pos hline

theorem run_round (hpos : s.line = some pos) (fuel : Nat) :
    s.run (fuel + 1) = s.round.run fuel := by
  have hline : s.line ≠ none := by
    rw [hpos]
    exact Option.some_ne_none pos
  exact if_neg hline

theorem run_zero (hpos : s.line = some pos) : s.run 0 = none := by
  have hline : s.line ≠ none := by
    rw [hpos]
    exact Option.some_ne_none pos
  exact if_neg hline

/-- In the end the loop has found what the search has. -/
theorem MountLoop.At.run_some {lines : List Bytes} {found : Bool} (h : s.At lines)
    (hsearch : search lines = some found) :
    ∃ fuel, s.run fuel = some (if found then testrootSdCard else s.mTestRoot) := by
  induction lines generalizing s with
  | nil =>
      cases h with
      | left hline =>
          cases hsearch
          exact ⟨0, run_over hline 0⟩
  | cons line lines ih =>
      have hnext := h
      cases h with
      | line hpos hline hsave hlines =>
          unfold search at hsearch
          cases hfield : secondField line with
          | none =>
              rw [hfield] at hsearch
              cases hsearch
          | some field =>
              rw [hfield] at hsearch
              by_cases hsd : field = sdCardMount
              · simp only [if_pos hsd] at hsearch
                cases hsearch
                obtain ⟨e, -, hround⟩ := round_field hpos hline hfield
                rw [if_pos hsd] at hround
                refine ⟨1, ?_⟩
                rw [run_round hpos, hround]
                exact run_over rfl 0
              · simp only [if_neg hsd] at hsearch
                obtain ⟨hat, hroot⟩ := hnext.round hfield hsd
                obtain ⟨fuel, hrun⟩ := ih hat hsearch
                refine ⟨fuel + 1, ?_⟩
                rw [run_round hpos, hrun, hroot]

/-- A loop whose search does not end does not end. -/
theorem MountLoop.At.run_none {lines : List Bytes} (h : s.At lines) (hsearch : search lines = none)
    (fuel : Nat) : s.run fuel = none := by
  induction fuel generalizing s lines with
  | zero =>
      cases h with
      | left hline => cases hsearch
      | line hpos hline hsave hlines => exact run_zero hpos
  | succ fuel ih =>
      have hnext := h
      cases h with
      | left hline => cases hsearch
      | @line pos line lines hpos hline hsave hlines =>
          rw [run_round hpos]
          unfold search at hsearch
          cases hfield : secondField line with
          | none =>
              rw [round_stuck hpos hline hfield]
              refine ih hnext ?_
              unfold search
              rw [hfield]
          | some field =>
              rw [hfield] at hsearch
              by_cases hsd : field = sdCardMount
              · simp only [if_pos hsd] at hsearch
                cases hsearch
              · simp only [if_neg hsd] at hsearch
                exact ih (hnext.round hfield hsd).1 hsearch

theorem search_none_iff (lines : List Bytes) :
    search lines = none ↔ ∃ line ∈ lines.takeWhile (secondField · ≠ some sdCardMount),
      secondField line = none := by
  induction lines with
  | nil => simp [search]
  | cons line lines ih =>
      unfold search
      cases hfield : secondField line with
      | none => simp [hfield]
      | some field =>
          by_cases hsd : field = sdCardMount
          · simp [hfield, hsd]
          · simp [hfield, hsd, ih]

theorem search_found {lines : List Bytes} {found : Bool} (h : search lines = some found) :
    found = true ↔ ∃ line ∈ lines, secondField line = some sdCardMount := by
  induction lines with
  | nil =>
      cases h
      simp
  | cons line lines ih =>
      unfold search at h
      cases hfield : secondField line with
      | none =>
          rw [hfield] at h
          cases h
      | some field =>
          rw [hfield] at h
          by_cases hsd : field = sdCardMount
          · simp only [if_pos hsd] at h
            cases h
            simp [hfield, hsd]
          · simp only [if_neg hsd] at h
            rw [ih h]
            simp [hfield, hsd]

/-! ## The last character -/

theorem secondField_append (h : secondField line = some field) (rest : Bytes) :
    secondField (line ++ rest) = some field := by
  obtain ⟨a, b, rfl, ha, hfield⟩ := secondField_some h
  rw [List.append_assoc, List.cons_append, List.append_assoc, List.cons_append]
  exact secondField_two ha hfield _

/-- The last character is in the last line, or ends it. -/
theorem splitOn_concat (text : Bytes) (c : UInt8) :
    ∃ lines line, text.splitOn newline = lines ++ [line] ∧
      (text ++ [c]).splitOn newline =
        lines ++ if c = newline then [line, []] else [line ++ [c]] := by
  have hone : ∀ {s : Bytes}, newline ∉ s → s.splitOnP (· == newline) = [s] :=
    fun h => List.splitOn_eq_singleton h
  have happ : ∀ s t : Bytes, (s ++ newline :: t).splitOnP (· == newline) =
      s.splitOnP (· == newline) ++ t.splitOnP (· == newline) :=
    fun s t => List.splitOnP_append_cons s t (by decide)
  -- the text from the last newline on
  have htail : ∀ {line : Bytes}, newline ∉ line → (line ++ [c]).splitOnP (· == newline) =
      if c = newline then [line, []] else [line ++ [c]] := by
    intro line hline
    by_cases hc : c = newline
    · rw [if_pos hc, hc, happ, hone hline]
      rfl
    · rw [if_neg hc, hone]
      simpa [hline] using Ne.symm hc
  show ∃ lines line, text.splitOnP (· == newline) = lines ++ [line] ∧
    (text ++ [c]).splitOnP (· == newline) = _
  by_cases hmem : newline ∈ text
  · obtain ⟨u, line, rfl, hline⟩ := exists_last hmem
    refine ⟨u.splitOnP (· == newline), line, ?_, ?_⟩
    · rw [happ, hone hline]
    · rw [List.append_assoc, List.cons_append, happ, htail hline]
  · exact ⟨[], text, hone hmem, htail hmem⟩

theorem mem_strtok {text line : Bytes} (hnul : 0 ∉ text) :
    line ∈ strtok (· = newline) text ↔ line ∈ text.splitOn newline ∧ line ≠ [] := by
  unfold strtok
  rw [cstr_of_notMem hnul, List.mem_filter, decide_eq_true_eq]
  rfl

/-- When the loop ends, the character that is lost does not matter. -/
theorem found_iff {text : Bytes} (hnul : 0 ∉ text)
    (h : ∀ line ∈ linesBefore text, (secondField line).isSome) :
    (∃ line ∈ text.splitOn newline, secondField line = some sdCardMount) ↔
      ∃ line ∈ strtok (· = newline) (eraseLast text), secondField line = some sdCardMount := by
  have hempty : secondField [] = none := by decide
  have hone : ∀ c : UInt8, secondField [c] = none := by
    intro c
    cases hfield : secondField [c] with
    | none => rfl
    | some field =>
        have hcount := secondField_isSome_iff.mp (Option.isSome_of_eq_some hfield)
        have hlen : [c].count 32 ≤ 1 := List.count_le_length
        omega
  have hnul' : 0 ∉ eraseLast text := fun hmem => hnul ((List.dropLast_prefix text).subset hmem)
  rcases List.eq_nil_or_concat text with rfl | ⟨pre, c, rfl⟩
  · decide
  have herase : eraseLast (pre.concat c) = pre := by
    unfold eraseLast
    simp
  unfold linesBefore at h
  rw [herase] at h hnul' ⊢
  obtain ⟨lines, last, hpre, htext⟩ := splitOn_concat pre c
  rw [List.concat_eq_append, htext]
  have hword : ∀ line, line ∈ strtok (· = newline) pre ↔ line ∈ lines ++ [last] ∧ line ≠ [] := by
    intro line
    rw [mem_strtok hnul', hpre]
  constructor
  · rintro ⟨line, hline, hsd⟩
    by_contra hnone
    have hother : ∀ word ∈ strtok (· = newline) pre, secondField word ≠ some sdCardMount :=
      fun word hmem hsd => hnone ⟨word, hmem, hsd⟩
    -- the loop has met all lines, so each of them has a second field
    rw [List.takeWhile_eq_self_iff.mpr fun word hmem => decide_eq_true (hother word hmem)] at h
    have hne : line ≠ [] := by
      rintro rfl
      cases hempty.symm.trans hsd
    rcases List.mem_append.mp hline with hmem | hmem
    · exact hother line ((hword line).mpr ⟨List.mem_append_left _ hmem, hne⟩) hsd
    by_cases hc : c = newline
    · rw [if_pos hc, List.mem_pair] at hmem
      have hlast : line = last := hmem.resolve_right hne
      exact hother line ((hword line).mpr ⟨by simp [hlast], hne⟩) hsd
    · rw [if_neg hc, List.mem_singleton] at hmem
      by_cases hlast : last = []
      · rw [hmem, hlast, List.nil_append, hone] at hsd
        cases hsd
      · have hlastWord := (hword last).mpr ⟨by simp, hlast⟩
        obtain ⟨field, hfield⟩ := Option.isSome_iff_exists.mp (h last hlastWord)
        rw [hmem, secondField_append hfield] at hsd
        exact hother last hlastWord (hfield.trans hsd)
  · rintro ⟨line, hline, hsd⟩
    rcases List.mem_append.mp ((hword line).mp hline).1 with hmem | hmem
    · exact ⟨line, List.mem_append_left _ hmem, hsd⟩
    rw [List.mem_singleton.mp hmem] at hsd
    by_cases hc : c = newline
    · exact ⟨last, by simp [hc], hsd⟩
    · exact ⟨last ++ [c], by simp [hc], secondField_append hsd [c]⟩

/-! ## The test root -/

/-- With a file, and no test root so far. -/
theorem setDefaultTestRoot_eq (desktop : Bool) (fuel : Nat) (file : Bytes) :
    setDefaultTestRoot desktop fuel (some file) [] =
      ((MountLoop.start (eraseLast (fgetsAll file)) []).run fuel).map fun mTestRoot =>
        if mTestRoot = [] then testrootNoSdCard desktop else mTestRoot := by
  show Option.bind _ _ = _
  rw [Option.map_eq_bind]
  rfl

/-- **When the SD card is found**: the loop ends exactly if each line that it meets, up
to the SD card, has two blanks; and then it finds what there is. -/
theorem finds_sd_card_iff (desktop : Bool) (file : Bytes) :
    FindsSdCard desktop file ↔ ∀ line ∈ linesBefore (fgetsAll file), 2 ≤ line.count 32 := by
  have hat := MountLoop.At.start (eraseLast (fgetsAll file)) []
  constructor
  · rintro ⟨fuel, hroot⟩ line hline
    rw [← secondField_isSome_iff]
    by_contra hnone
    have hsearch := (search_none_iff _).mpr ⟨line, hline, by simpa using hnone⟩
    rw [setDefaultTestRoot_eq, hat.run_none hsearch fuel] at hroot
    cases hroot
  · intro h
    simp only [← secondField_isSome_iff] at h
    cases hsearch : search (strtok (· = newline) (eraseLast (fgetsAll file))) with
    | none =>
        obtain ⟨line, hline, hnone⟩ := (search_none_iff _).mp hsearch
        have hsome := h line hline
        rw [hnone] at hsome
        cases hsome
    | some found =>
        obtain ⟨fuel, hrun⟩ := hat.run_some hsearch
        refine ⟨fuel, ?_⟩
        rw [setDefaultTestRoot_eq, hrun]
        have hfound := (search_found hsearch).trans (found_iff (nul_notMem_fgetsAll file) h).symm
        unfold wanted
        cases found with
        | true =>
            rw [if_pos (hfound.mp rfl)]
            rfl
        | false =>
            rw [if_neg fun hex => Bool.false_ne_true (hfound.mpr hex)]
            rfl

/-- A mount without a blank, and the agent does not start. -/
theorem sd_card_behind_malformed :
    ¬ FindsSdCard true (str "none\n/dev/block /mnt/sdcard vfat rw 0 0\n") := by
  have htext : fgetsAll (str "none\n/dev/block /mnt/sdcard vfat rw 0 0\n") =
      str "none\n/dev/block /mnt/sdcard vfat rw 0 0\n" := fgetsAll_eq (by decide)
  have hsearch : search (strtok (· = newline)
      (eraseLast (str "none\n/dev/block /mnt/sdcard vfat rw 0 0\n"))) = none := by decide
  rintro ⟨fuel, hroot⟩
  have hat := MountLoop.At.start (eraseLast (str "none\n/dev/block /mnt/sdcard vfat rw 0 0\n")) []
  rw [setDefaultTestRoot_eq, htext, hat.run_none hsearch fuel] at hroot
  cases hroot

end Config

end Negatus
