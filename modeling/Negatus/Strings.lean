import Mathlib.Data.List.Basic
import Mathlib.Data.List.TakeWhile
import Negatus.Machine

/-!
# `Strings.cpp`, `Logging.cpp` and the command line

A received line is trimmed, cut at its first NUL (it passes through `strdup` of
a `c_str()`) and split at blanks into a command word and arguments.
-/

namespace Negatus

def endl : Bytes := str "\n"

/-- `c_str()` as a C function sees it. -/
def cstr (s : Bytes) : Bytes := s.takeWhile (· ≠ 0)

theorem decide_eq_of_notMem {c : UInt8} {s : Bytes} (h : c ∉ s) :
    ∀ x ∈ s, decide (x = c) = false := by
  intro x hx
  rw [decide_eq_false_iff_not]
  rintro rfl
  exact h hx

theorem decide_ne_of_notMem {c : UInt8} {s : Bytes} (h : c ∉ s) :
    ∀ x ∈ s, decide (x ≠ c) = true := by
  intro x hx
  rw [decide_eq_true_eq]
  rintro rfl
  exact h hx

theorem cstr_of_notMem {s : Bytes} (h : 0 ∉ s) : cstr s = s := by
  unfold cstr
  rw [List.takeWhile_eq_self_iff]
  exact decide_ne_of_notMem h

def isBlank (c : UInt8) : Bool := c = 10 || c = 13 || c = 32 || c = 9

/-- The blanks at the end, then those at the beginning. -/
def trim (s : Bytes) : Bytes :=
  let s := (s.reverse.dropWhile isBlank).reverse
  s.dropWhile isBlank

def itoa (i : Nat) : Bytes := str (toString i)

/-- `out << ret` for an `int` -/
def intStr (i : Int) : Bytes := str (toString i)

/-! ### Numbers are short -/

theorem str_length (s : String) : (str s).length = s.utf8ByteSize := by
  unfold str
  rw [Array.length_toList]
  rfl

theorem utf8ByteSize_le (cs : List Char) : (String.ofList cs).utf8ByteSize ≤ 4 * cs.length := by
  induction cs with
  | nil => simp
  | cons c cs ih =>
      have hsplit : String.ofList (c :: cs) = String.singleton c ++ String.ofList cs :=
        String.ofList_cons
      have hc : c.utf8Size ≤ 4 := c.utf8Size_le_four
      rw [hsplit, String.utf8ByteSize_append, String.utf8ByteSize_singleton, List.length_cons]
      omega

theorem toString_digits (n : Nat) : toString n = String.ofList (Nat.toDigits 10 n) := by
  simp [Nat.repr_eq_ofList_toDigits]

theorem itoa_length {n : Nat} (h : n < 10 ^ 20) : (itoa n).length ≤ 80 := by
  have hlen := (Nat.length_toDigits_le_iff (b := 10) (n := n) (k := 20) (by decide)
    (by decide)).mpr h
  have hsize := utf8ByteSize_le (Nat.toDigits 10 n)
  unfold itoa
  rw [str_length, toString_digits]
  omega

theorem intStr_length (i : Int32) : (intStr i.toInt).length ≤ 81 := by
  have hlo := i.le_toInt
  have hhi := i.toInt_lt
  unfold intStr
  cases hi : i.toInt with
  | ofNat n =>
      rw [hi] at hhi
      have hn : n < 2 ^ 31 := Int.ofNat_lt.mp hhi
      exact Nat.le_succ_of_le (itoa_length (by omega))
  | negSucc n =>
      rw [hi] at hlo
      have hrepr : toString (Int.negSucc n) = "-" ++ toString (n + 1) := rfl
      have hlen : (str (toString (n + 1))).length ≤ 80 := itoa_length (by omega)
      have hminus : "-".utf8ByteSize = 1 := by decide
      rw [str_length] at hlen ⊢
      rw [hrepr, String.utf8ByteSize_append, hminus]
      omega

/-! ### Numbers can be read back -/

theorem str_injective {s t : String} (h : str s = str t) : s = t := by
  unfold str at h
  have hdata : s.toUTF8.data = t.toUTF8.data := Array.toList_inj.mp h
  exact String.toByteArray_inj.mp (ByteArray.ext hdata)

theorem itoa_injective {m n : Nat} (h : itoa m = itoa n) : m = n := by
  have hstr := str_injective h
  rw [toString_digits, toString_digits, String.ofList_inj] at hstr
  have hback := congrArg (Nat.ofDigitChars 10 · 0) hstr
  simpa only [Nat.ofDigitChars_toDigits (b := 10) (by decide) (by decide)] using hback

theorem newline_notMem_digit {c : Char} (h : c.isDigit = true) :
    newline ∉ str (String.singleton c) := by
  have hrange : 48 ≤ c.toNat ∧ c.toNat ≤ 57 := by
    unfold Char.isDigit at h
    rw [Bool.and_eq_true, decide_eq_true_eq, decide_eq_true_eq] at h
    exact ⟨UInt32.le_iff_toNat_le.mp h.1, UInt32.le_iff_toNat_le.mp h.2⟩
  have hcases : c.toNat = 48 ∨ c.toNat = 49 ∨ c.toNat = 50 ∨ c.toNat = 51 ∨ c.toNat = 52 ∨
      c.toNat = 53 ∨ c.toNat = 54 ∨ c.toNat = 55 ∨ c.toNat = 56 ∨ c.toNat = 57 := by
    omega
  rw [← Char.ofNat_toNat c]
  rcases hcases with hc | hc | hc | hc | hc | hc | hc | hc | hc | hc <;> rw [hc] <;> decide

theorem str_ofList_cons (c : Char) (cs : List Char) :
    str (String.ofList (c :: cs)) = str (String.singleton c) ++ str (String.ofList cs) := by
  rw [String.ofList_cons]
  unfold str String.toUTF8
  rw [String.toByteArray_append, ByteArray.data_append, Array.toList_append]

theorem newline_notMem_itoa (n : Nat) : newline ∉ itoa n := by
  have hall : ∀ c ∈ Nat.toDigits 10 n, c.isDigit = true := fun c hc =>
    Nat.isDigit_of_mem_toDigits (by decide) (by decide) hc
  unfold itoa
  rw [toString_digits]
  generalize Nat.toDigits 10 n = cs at hall
  induction cs with
  | nil => decide
  | cons c cs ih =>
      rw [str_ofList_cons, List.mem_append]
      rintro (hmem | hmem)
      · exact newline_notMem_digit (hall c List.mem_cons_self) hmem
      · exact ih (fun c hc => hall c (List.mem_cons_of_mem _ hc)) hmem

/-! ### Words of a line -/

theorem trim_length_le (s : Bytes) : (trim s).length ≤ s.length := by
  have hback := (s.reverse.dropWhile_suffix isBlank).length_le
  have hfront := ((s.reverse.dropWhile isBlank).reverse.dropWhile_suffix isBlank).length_le
  unfold trim
  simp only [List.length_reverse] at hback hfront ⊢
  omega

theorem splitOnP_length {p : UInt8 → Bool} {s piece : Bytes} (h : piece ∈ s.splitOnP p) :
    piece.length ≤ s.length := by
  induction s generalizing piece with
  | nil =>
      simp at h
      simp [h]
  | cons b s ih =>
      rw [List.splitOnP_cons_eq_if_modifyHead] at h
      split at h
      · rcases List.mem_cons.mp h with rfl | h
        · exact Nat.zero_le _
        · exact Nat.le_succ_of_le (ih h)
      · obtain ⟨head, rest, hsplit⟩ := List.exists_cons_of_ne_nil (List.splitOnP_ne_nil p s)
        rw [hsplit, List.modifyHead_cons] at h
        rcases List.mem_cons.mp h with rfl | h
        · have hhead := ih (hsplit ▸ List.mem_cons_self)
          rw [List.length_cons, List.length_cons]
          omega
        · exact Nat.le_succ_of_le (ih (hsplit ▸ List.mem_cons_of_mem _ h))

/-- `strtok` until it returns NULL: the pieces between delimiters, without the
empty ones. -/
def strtok (delim : UInt8 → Bool) (s : Bytes) : List Bytes :=
  ((cstr s).splitOnP delim).filter (· ≠ [])

def agentWarn (errStr : Bytes) : Bytes := str "##AGENT-WARNING## " ++ errStr

def agentWarnInvalidNumArgs (numReqArgs : Nat) : Bytes :=
  agentWarn (str "Invalid number of args: " ++ itoa numReqArgs ++ str " args required")

structure CommandLine where
  cmd : Bytes
  args : List Bytes
deriving DecidableEq, Repr

def CommandLine.new (line : Bytes) : CommandLine :=
  match strtok (fun c => c = 32 || c = 9) line with
  | [] => ⟨[], []⟩
  | cmd :: args => ⟨cmd, args.map trim⟩

theorem strtok_length {delim : UInt8 → Bool} {s piece : Bytes} (h : piece ∈ strtok delim s) :
    piece.length ≤ s.length := by
  unfold strtok at h
  have hpiece := splitOnP_length (List.mem_filter.mp h).1
  have hcstr : (cstr s).length ≤ s.length := (List.takeWhile_prefix _).length_le
  omega

theorem CommandLine.arg_length {line arg : Bytes} (h : arg ∈ (CommandLine.new line).args) :
    arg.length ≤ line.length := by
  unfold CommandLine.new at h
  split at h
  · cases h
  · rename_i cmd args hwords
    obtain ⟨word, hmem, rfl⟩ := List.mem_map.mp h
    have hword := strtok_length (hwords ▸ List.mem_cons_of_mem cmd hmem)
    have htrim := trim_length_le word
    omega

/-! ## Reading text with `fgets`

The callers read into `char buffer[BUFSIZE]` and append it as a C string. -/

def bufSize : Nat := 1024

/-- One `fgets(buffer, BUFSIZE, fp)`: through a newline, at most `BUFSIZE - 1`
bytes. The rest of the text is the second component. -/
def fgets (s : Bytes) : Bytes × Bytes :=
  let piece := s.take (bufSize - 1)
  match piece.findIdx? (· = newline) with
  | none => (piece, s.drop piece.length)
  | some k => (piece.take (k + 1), s.drop (k + 1))

theorem fgets_append (s : Bytes) : (fgets s).1 ++ (fgets s).2 = s := by
  unfold fgets
  dsimp only
  cases hk : (s.take (bufSize - 1)).findIdx? (· = newline) with
  | none =>
      show s.take (bufSize - 1) ++ s.drop (s.take (bufSize - 1)).length = s
      rw [List.length_take, List.take_eq_take_min, List.take_append_drop]
  | some k =>
      have hlt := (List.findIdx?_eq_some_iff_getElem.mp hk).1
      rw [List.length_take] at hlt
      show (s.take (bufSize - 1)).take (k + 1) ++ s.drop (k + 1) = s
      rw [List.take_take, Nat.min_eq_left (by omega), List.take_append_drop]

theorem fgets_ne_nil {s : Bytes} (h : s ≠ []) : (fgets s).1 ≠ [] := by
  obtain ⟨c, s, rfl⟩ := List.exists_cons_of_ne_nil h
  unfold fgets
  dsimp only
  cases hk : ((c :: s).take (bufSize - 1)).findIdx? (· = newline) with
  | none => simp [bufSize]
  | some k => simp [bufSize]

/-- The rest of the text is shorter. -/
theorem fgets_shorter {s : Bytes} (hs : s ≠ []) : (fgets s).2.length < s.length := by
  have happ := congrArg List.length (fgets_append s)
  have hpos := List.length_pos_of_ne_nil (fgets_ne_nil hs)
  rw [List.length_append] at happ
  omega

theorem fgets_length (s : Bytes) : (fgets s).1.length ≤ bufSize - 1 := by
  have htake : (s.take (bufSize - 1)).length ≤ bufSize - 1 := List.length_take_le _ _
  unfold fgets
  dsimp only
  split
  · exact htake
  · exact le_trans (List.length_take_le' _ _) htake

/-- The buffers that `while (fgets(buffer, BUFSIZE, fp))` sees. -/
def fgetsBufs : Bytes → List Bytes
  | [] => []
  | c :: s => (fgets (c :: s)).1 :: fgetsBufs (fgets (c :: s)).2
termination_by s => s.length
decreasing_by exact fgets_shorter (List.cons_ne_nil c s)

theorem fgetsBufs_nil : fgetsBufs [] = [] := by
  rw [fgetsBufs]

theorem fgetsBufs_eq {s : Bytes} (hs : s ≠ []) :
    fgetsBufs s = (fgets s).1 :: fgetsBufs (fgets s).2 := by
  obtain ⟨c, s, rfl⟩ := List.exists_cons_of_ne_nil hs
  rw [fgetsBufs]

theorem fgetsBufs_flatten (s : Bytes) : (fgetsBufs s).flatten = s := by
  induction s using fgetsBufs.induct with
  | case1 => rw [fgetsBufs, List.flatten_nil]
  | case2 c s ih => rw [fgetsBufs, List.flatten_cons, ih, fgets_append]

/-- `while (fgets(..)) output << std::string(buffer);` -/
def fgetsAll (s : Bytes) : Bytes := (fgetsBufs s).flatMap cstr

theorem nul_notMem_cstr (s : Bytes) : 0 ∉ cstr s := by
  intro hmem
  have hne := List.mem_takeWhile_imp hmem
  rw [decide_eq_true_eq] at hne
  exact hne rfl

theorem nul_notMem_fgetsAll (s : Bytes) : 0 ∉ fgetsAll s := by
  intro hmem
  obtain ⟨buf, -, hbuf⟩ := List.mem_flatMap.mp hmem
  exact nul_notMem_cstr buf hbuf

/-- Buffers without NULs are put together as they are. -/
theorem flatMap_cstr {bufs : List Bytes} (hnul : 0 ∉ bufs.flatten) :
    bufs.flatMap cstr = bufs.flatten := by
  have hcstr : ∀ buf ∈ bufs, cstr buf = buf := fun buf hbuf =>
    cstr_of_notMem fun hmem => hnul (List.mem_flatten_of_mem hbuf hmem)
  rw [List.flatMap_def, List.map_congr_left hcstr, List.map_id']

/-- A text without NULs is read as it is. -/
theorem fgetsAll_eq {s : Bytes} (hnul : 0 ∉ s) : fgetsAll s = s := by
  rw [← fgetsBufs_flatten s] at hnul
  rw [fgetsAll, flatMap_cstr hnul, fgetsBufs_flatten]

/-- `if (str.size()) str.erase(str.size() - 1);` -/
def eraseLast (s : Bytes) : Bytes := s.dropLast

end Negatus
