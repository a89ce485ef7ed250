import Negatus.CommandEventHandler.Lines
import Negatus.Foundations.Words

/-!
# The reboot callback

`rebt` writes an address and a port into a file in the test root, and after the
reboot `handle_reboot` of `SUTAgent.cpp` looks for the file in its working
directory, reads one line of it into `line[100]` and scans the line into
`r_ipaddr[40]` and `r_port`.
-/

namespace Negatus

open Foundations

def rebootFile : Bytes := str ".SUTAgent_rebt"

/-- What the agent relies on outside of itself: which file a name means in a working
directory, and what `%d` stores for a number. -/
structure Surroundings where
  /-- the file behind a name: the working directory, then the name -/
  resolve : Bytes → Bytes → Bytes
  /-- `sscanf` with `%d`, into 32 bits -/
  scanInt : Int → UInt32
  /-- a number that fits an `int` is stored as it is -/
  scanInt_fits : ∀ n : Nat, n < 2 ^ 31 → scanInt n = UInt32.ofNat n

/-- Names are joined to the working directory, and `%d` keeps the low 32 bits. -/
def Surroundings.posix : Surroundings where
  resolve cwd name := if name.head? = some 47 then name else cwd ++ str "/" ++ name
  scanInt i := UInt32.ofNat (uint32 i)
  scanInt_fits _ hsmall := congrArg UInt32.ofNat (uint32_ofNat (Nat.lt_trans hsmall (by decide)))

/-- The files on disk. -/
abbrev Files : Type := Bytes → Option Bytes

namespace Files

def write (file contents : Bytes) (fs : Files) : Files :=
  fun f => if f = file then some contents else fs f

/-- `PR_Delete` -/
def delete (file : Bytes) (fs : Files) : Files := fun f => if f = file then none else fs f

/-- What the calls of `rebt` leave on disk. -/
def after (S : Surroundings) (cwd : Bytes) (fs : Files) : List Event → Files
  | .openRebootFile path true :: .writeRebootFile contents :: t =>
      after S cwd (fs.write (S.resolve cwd path) contents) t
  | _ :: t => after S cwd fs t
  | [] => fs

end Files

namespace SUTAgent

/-- `isspace` -/
def isSpace (c : UInt8) : Bool := c = 32 || (9 ≤ c && c ≤ 13)

/-- `fgets(line, size, fp)`: at most `size - 1` bytes, through a newline. -/
def fgets (size : Nat) (s : Bytes) : Bytes :=
  let piece := s.take (size - 1)
  match piece.findIdx? (· = newline) with
  | none => piece
  | some k => piece.take (k + 1)

def decimal (digits : Bytes) : Nat := digits.foldl (fun n d => 10 * n + (d.toNat - 48)) 0

/-- The number that `%d` reads, if there is one. -/
def readInt (s : Bytes) : Option Int :=
  let s := s.dropWhile isSpace
  let negative := s.head? = some 45
  let s := if s.head? = some 43 ∨ s.head? = some 45 then s.tail else s
  let digits := s.takeWhile Shell.isDigit
  if digits = [] then none
  else some (if negative then -(decimal digits : Int) else decimal digits)

/-- `sscanf(line, "%s %d", r_ipaddr, &r_port)`. An item that is missing leaves its variable
without a value, and a word of 40 bytes does not fit into `r_ipaddr` with its NUL. -/
def scanCallback (S : Surroundings) (line : Bytes) : Except Crash (Bytes × UInt32) :=
  let s := (cstr line).dropWhile isSpace
  let word := s.takeWhile (!isSpace ·)
  if word = [] ∨ 40 ≤ word.length then .error .undefined
  else
    match readInt (s.dropWhile (!isSpace ·)) with
    | none => .error .undefined
    | some port => .ok (word, S.scanInt port)

/-- `handle_reboot`: what `send_query` is called with, and the files behind it. -/
def handleReboot (S : Surroundings) (cwd : Bytes) (fs : Files) :
    Except Crash (Option (Bytes × UInt32) × Files) :=
  match fs (S.resolve cwd rebootFile) with
  | none => .ok (none, fs)
  | some contents => do
      -- nothing is read from an empty file
      if contents = [] then throw .undefined
      let callback ← scanCallback S (fgets 100 contents)
      .ok (some callback, fs.delete (S.resolve cwd rebootFile))

/-! ## What may be written -/

structure IsToken (address : Bytes) : Prop where
  ne_nil : address ≠ []
  plain : ∀ b ∈ address, isSpace b = false ∧ b ≠ 0

instance (address : Bytes) : Decidable (IsToken address) :=
  decidable_of_iff (address ≠ [] ∧ address.all (fun b => !isSpace b && b != 0) = true) <| by
    rw [List.all_eq_true]
    constructor
    · rintro ⟨hne, hplain⟩
      exact ⟨hne, fun b hb => by simpa using hplain b hb⟩
    · rintro ⟨hne, hplain⟩
      exact ⟨hne, fun b hb => by simpa using hplain b hb⟩

/-- A decimal number of 32 bits. -/
structure IsPort (port : Bytes) : Prop where
  ne_nil : port ≠ []
  digits : ∀ b ∈ port, Shell.isDigit b = true
  fits : decimal port < 2 ^ 32

instance (port : Bytes) : Decidable (IsPort port) :=
  decidable_of_iff (port ≠ [] ∧ port.all Shell.isDigit = true ∧ decimal port < 2 ^ 32) <| by
    rw [List.all_eq_true]
    exact ⟨fun h => ⟨h.1, h.2.1, h.2.2⟩, fun h => ⟨h.ne_nil, h.digits, h.fits⟩⟩

/-- `handle_reboot` calls `send_query` with the address and the port, and the file is gone. -/
def CallbackSurvives (S : Surroundings) (cwd : Bytes) (fs : Files) (file address port : Bytes) :
    Prop :=
  ∃ fs', handleReboot S cwd fs = .ok (some (address, UInt32.ofNat (decimal port)), fs') ∧
    fs' file = none

/-- The port is in the part of the line that is read, or it is zero, and `%d` can store it. -/
def PortFits (S : Surroundings) (address port : Bytes) : Prop :=
  (address.length + 1 + port.length ≤ 99 ∨ decimal port = 0) ∧
    (decimal port < 2 ^ 31 ∨ S.scanInt (decimal port) = UInt32.ofNat (decimal port))

/-! ## Reading the line back -/

def callbackLine (address port : Bytes) : Bytes := address ++ str " " ++ port ++ str "\n"

theorem callbackLine_eq (address port : Bytes) :
    callbackLine address port = address ++ 32 :: (port ++ [10]) := by
  unfold callbackLine
  rw [List.append_assoc, List.append_assoc]
  rfl

section

variable {address port : Bytes}

theorem newline_notMem (haddress : IsToken address) (hport : IsPort port) :
    newline ∉ address ++ 32 :: port := by
  rw [List.mem_append, List.mem_cons]
  rintro (hmem | hmem | hmem)
  · exact absurd (haddress.plain _ hmem).1 (by decide)
  · cases hmem
  · exact absurd (hport.digits _ hmem) (by decide)

/-- The only newline of the line is its last byte. -/
theorem fgets_callbackLine (haddress : IsToken address) (hport : IsPort port) :
    fgets 100 (callbackLine address port) = (callbackLine address port).take 99 := by
  have hline : callbackLine address port = (address ++ 32 :: port) ++ [10] := by
    rw [callbackLine_eq]
    simp
  unfold fgets
  dsimp only
  split
  · rfl
  · rename_i k hk
    obtain ⟨hlt, hnewline, -⟩ := List.findIdx?_eq_some_iff_getElem.mp hk
    have hend : (address ++ 32 :: port).length ≤ k := by
      by_contra hless
      rw [Nat.not_le] at hless
      rw [decide_eq_true_eq, List.getElem_take] at hnewline
      simp only [hline] at hnewline
      rw [List.getElem_append_left hless] at hnewline
      exact newline_notMem haddress hport (hnewline ▸ List.getElem_mem hless)
    apply List.take_of_length_le
    rw [hline, List.length_take, List.length_append]
    exact Nat.le_trans (Nat.min_le_right _ _) (Nat.succ_le_succ hend)

theorem notSpace_of_digit {b : UInt8} (h : Shell.isDigit b = true) :
    isSpace b = false ∧ b ≠ 0 ∧ b ≠ 43 ∧ b ≠ 45 := by
  unfold Shell.isDigit at h
  rw [Bool.and_eq_true, decide_eq_true_eq] at h
  have hlo : 48 ≤ b.toNat := UInt8.le_iff_toNat_le.mp h.1
  have hne : ∀ k : UInt8, k.toNat < 48 → b ≠ k := by
    rintro k hk rfl
    omega
  refine ⟨?_, hne 0 (by decide), hne 43 (by decide), hne 45 (by decide)⟩
  have hhi : ¬ b ≤ 13 := fun hle => by
    have hle : b.toNat ≤ 13 := UInt8.le_iff_toNat_le.mp hle
    omega
  simp [isSpace, hne 32 (by decide), hhi]

/-- What `handle_reboot` sees of the line has no NUL. -/
theorem cstr_line (haddress : IsToken address) (hport : IsPort port) :
    cstr ((callbackLine address port).take 99) = (callbackLine address port).take 99 := by
  apply cstr_of_notMem
  intro hmem
  have hmem := List.mem_of_mem_take hmem
  rw [callbackLine_eq, List.mem_append, List.mem_cons, List.mem_append, List.mem_singleton] at hmem
  rcases hmem with hb | hb | hb | hb
  · exact (haddress.plain 0 hb).2 rfl
  · cases hb
  · exact (notSpace_of_digit (hport.digits 0 hb)).2.1 rfl
  · cases hb

/-- The word in front of the blank, and what comes behind it. -/
theorem span_word {word : Bytes} (hword : IsToken word) (rest : Bytes) :
    (word ++ rest).dropWhile isSpace = word ++ rest ∧
      (word ++ rest).takeWhile (!isSpace ·) = word ++ rest.takeWhile (!isSpace ·) ∧
      (word ++ rest).dropWhile (!isSpace ·) = rest.dropWhile (!isSpace ·) := by
  have hplain : ∀ b ∈ word, (!isSpace b) = true := fun b hb => by
    rw [(hword.plain b hb).1]
    rfl
  refine ⟨?_, List.takeWhile_append_of_pos hplain, List.dropWhile_append_of_pos hplain⟩
  obtain ⟨b, word, rfl⟩ := List.exists_cons_of_ne_nil hword.ne_nil
  rw [List.cons_append, List.dropWhile_cons_of_neg]
  rw [(hword.plain b List.mem_cons_self).1]
  exact Bool.false_ne_true

/-- A word of 40 bytes overruns `r_ipaddr`. -/
theorem scan_overrun (S : Surroundings) (haddress : IsToken address) (hport : IsPort port)
    (hlong : 40 ≤ address.length) :
    scanCallback S ((callbackLine address port).take 99) = .error .undefined := by
  have hword : IsToken (address.take 99) := by
    constructor
    · rw [ne_eq, List.take_eq_nil_iff]
      rintro (h | h)
      · cases h
      · exact haddress.ne_nil h
    · exact fun b hb => haddress.plain b (List.mem_of_mem_take hb)
  have hlen : 40 ≤ (address.take 99).length := by
    rw [List.length_take]
    exact Nat.le_min.mpr ⟨by decide, hlong⟩
  unfold scanCallback
  dsimp only
  rw [cstr_line haddress hport, callbackLine_eq, List.take_append, (span_word hword _).1,
    (span_word hword _).2.1, if_pos]
  right
  rw [List.length_append]
  exact Nat.le_add_right_of_le hlen

/-- The digits of the port, up to what cuts them off. -/
theorem readInt_digits {digits tail : Bytes} (hne : digits ≠ [])
    (hdigits : ∀ b ∈ digits, Shell.isDigit b = true)
    (htail : tail.takeWhile Shell.isDigit = []) :
    readInt (32 :: (digits ++ tail)) = some (decimal digits : Int) := by
  have htake : (digits ++ tail).takeWhile Shell.isDigit = digits := by
    rw [List.takeWhile_append_of_pos hdigits, htail, List.append_nil]
  obtain ⟨b, digits, rfl⟩ := List.exists_cons_of_ne_nil hne
  obtain ⟨hspace, -, hplus, hminus⟩ := notSpace_of_digit (hdigits b List.mem_cons_self)
  have hstart : (32 :: (b :: digits ++ tail)).dropWhile isSpace = b :: digits ++ tail := by
    rw [List.dropWhile_cons_of_pos rfl, List.cons_append, List.dropWhile_cons_of_neg]
    rw [hspace]
    exact Bool.false_ne_true
  unfold readInt
  dsimp only
  rw [hstart]
  simp only [List.cons_append, List.head?_cons, Option.some.injEq, hplus, hminus, or_self,
    if_false]
  rw [← List.cons_append, htake]
  rfl

/-- A shorter one is read back, with as many digits as are left in the line. -/
theorem scan_short (S : Surroundings) (haddress : IsToken address) (hport : IsPort port)
    (hshort : address.length < 40) :
    scanCallback S ((callbackLine address port).take 99) =
      .ok (address, S.scanInt (decimal (port.take (98 - address.length)))) := by
  have hline : (callbackLine address port).take 99 =
      address ++ 32 :: (port.take (98 - address.length) ++
        [10].take (98 - address.length - port.length)) := by
    have hroom : 99 - address.length = (98 - address.length) + 1 := by
      omega
    rw [callbackLine_eq, List.take_append, List.take_of_length_le (by omega), hroom,
      List.take_succ_cons, List.take_append]
  have hread : readInt (32 :: (port.take (98 - address.length) ++
      [10].take (98 - address.length - port.length))) =
        some (decimal (port.take (98 - address.length)) : Int) := by
    apply readInt_digits
    · rw [ne_eq, List.take_eq_nil_iff]
      rintro (h | h)
      · omega
      · exact hport.ne_nil h
    · exact fun b hb => hport.digits b (List.mem_of_mem_take hb)
    · cases 98 - address.length - port.length <;> rfl
  unfold scanCallback
  dsimp only
  rw [cstr_line haddress hport, hline, (span_word haddress _).1, (span_word haddress _).2.1,
    (span_word haddress _).2.2, List.takeWhile_cons_of_neg (by decide), List.append_nil,
    List.dropWhile_cons_of_neg (by decide), hread, if_neg]
  rintro (h | h)
  · exact haddress.ne_nil h
  · omega

/-! ## The port -/

/-- Digits behind a number `n`. -/
theorem foldl_decimal (n : Nat) (digits : Bytes) :
    digits.foldl (fun n d => 10 * n + (d.toNat - 48)) n =
      n * 10 ^ digits.length + decimal digits := by
  unfold decimal
  induction digits generalizing n with
  | nil => simp
  | cons d digits ih =>
      rw [List.foldl_cons, List.foldl_cons, ih, ih (10 * 0 + _), List.length_cons, Nat.pow_succ,
        Nat.add_mul, ← Nat.add_assoc, Nat.mul_zero, Nat.zero_add, Nat.mul_comm 10 n,
        Nat.mul_assoc n 10, Nat.mul_comm 10 (10 ^ _)]

/-- A part of the digits in front is a smaller number, but for zero. -/
theorem decimal_cut {digits : Bytes} {k : Nat} (hcut : k < digits.length) :
    10 * decimal (digits.take k) ≤ decimal digits := by
  have hsplit : decimal digits =
      decimal (digits.take k) * 10 ^ (digits.drop k).length + decimal (digits.drop k) := by
    rw [← foldl_decimal]
    unfold decimal
    rw [← List.foldl_append, List.take_append_drop]
  have hten : 10 ≤ 10 ^ (digits.drop k).length := by
    apply Nat.le_self_pow
    rw [List.length_drop]
    omega
  calc 10 * decimal (digits.take k)
      ≤ decimal (digits.take k) * 10 ^ (digits.drop k).length := by
        rw [Nat.mul_comm]
        exact Nat.mul_le_mul_left _ hten
    _ ≤ decimal digits := by
        rw [hsplit]
        exact Nat.le_add_right _ _

/-- The number read is the port exactly when its digits were in the line and `%d` has
stored them. -/
theorem port_fits_iff (S : Surroundings) (hport : IsPort port) (hshort : address.length < 40) :
    S.scanInt (decimal (port.take (98 - address.length))) = UInt32.ofNat (decimal port) ↔
      PortFits S address port := by
  unfold PortFits
  rcases Nat.lt_or_ge (98 - address.length) port.length with hcut | hfit
  · have hten := decimal_cut hcut
    have hfits := hport.fits
    rw [S.scanInt_fits _ (by omega)]
    constructor
    · intro heq
      have hnat := congrArg UInt32.toNat heq
      rw [UInt32.toNat_ofNat', UInt32.toNat_ofNat', Nat.mod_eq_of_lt (by omega),
        Nat.mod_eq_of_lt hfits] at hnat
      exact ⟨.inr (by omega), .inl (by omega)⟩
    · rintro ⟨hlen | hzero, -⟩
      · omega
      · rw [hzero] at hten ⊢
        rw [Nat.le_zero.mp (Nat.le_of_mul_le_mul_left hten (by decide))]
  · rw [List.take_of_length_le hfit]
    constructor
    · intro heq
      exact ⟨.inl (by omega), .inr heq⟩
    · rintro ⟨-, hsmall | heq⟩
      · exact S.scanInt_fits _ hsmall
      · exact heq

end

/-! ## Writer and reader -/

/-- The two calls of `close` and the deletion touch no file. -/
theorem after_stopped (S : Surroundings) (cwd : Bytes) (fs : Files) (c : Connection) :
    ∃ es, (CommandEventHandler.stopped c).trace = c.trace ++ es ∧ Files.after S cwd fs es = fs := by
  have hclose : ∀ io : Io, ∃ es, (BufferedSocket.close io).trace = io.trace ++ es ∧
      (es = [] ∨ es = [.closeSocket]) := by
    intro io
    unfold BufferedSocket.close
    split
    · exact ⟨[], (List.append_nil _).symm, .inl rfl⟩
    · exact ⟨[.closeSocket], rfl, .inr rfl⟩
  obtain ⟨es, hes, hcase⟩ := hclose c.io
  obtain ⟨es', hes', hcase'⟩ := hclose (BufferedSocket.close c.io)
  refine ⟨es ++ es' ++ [.reboot], ?_, ?_⟩
  · show (BufferedSocket.close (BufferedSocket.close c.io)).trace ++ [.reboot] = _
    rw [hes', hes]
    show (c.io.trace ++ es ++ es') ++ [.reboot] = c.io.trace ++ (es ++ es' ++ [.reboot])
    simp
  · rcases hcase with rfl | rfl <;> rcases hcase' with rfl | rfl <;> rfl

/-- A `rebt` that succeeds has written the line into the file in the test root. -/
theorem rebt_writes (S : Surroundings) (cwd : Bytes) (fs : Files) {c c' : Connection}
    {address port : Bytes} {es : List Event}
    (hrebt : CommandEventHandler.rebt [address, port] c = .ok [] c')
    (hes : c'.trace = c.trace ++ es) :
    ∃ path, Shell.joinPaths c.io.os.testRoot rebootFile = .ok path ∧
      Files.after S cwd fs es = fs.write (S.resolve cwd path) (callbackLine address port) := by
  have hensures : Ensures (CommandEventHandler.rebt [address, port]) c
      (fun r c' => r = [] → ∃ path, Shell.joinPaths c.io.os.testRoot rebootFile = .ok path ∧
        ∃ s, c' = CommandEventHandler.stopped (((c.setSystem s).log
          (.openRebootFile path true)).log (.writeRebootFile (callbackLine address port))))
      fun _ _ => True := by
    show Ensures (CommandEventHandler.rebootWith (some (callbackLine address port))) c _ _
    unfold CommandEventHandler.rebootWith
    rw [ensures_bind, ensures_get]
    split
    · exact trivial
    · rename_i path hpath
      rw [ensures_bind, CommandEventHandler.onSystem, ensures_zoom]
      unfold Shell.ask
      rw [ensures_modifyGet, ensures_bind, CommandEventHandler.modifyIo, ensures_modify]
      split
      · rename_i hopened
        rw [hopened]
        exact fun _ => ⟨path, hpath, _, rfl⟩
      · -- the warning is not empty
        exact fun h => absurd (congrArg List.length h) (by decide)
  obtain ⟨path, hpath, s, rfl⟩ := (ensures_ok hrebt).mp hensures rfl
  obtain ⟨es', hes', hafter⟩ := after_stopped S cwd
    (fs.write (S.resolve cwd path) (callbackLine address port))
    (((c.setSystem s).log (.openRebootFile path true)).log
      (.writeRebootFile (callbackLine address port)))
  refine ⟨path, hpath, ?_⟩
  rw [hes'] at hes
  have hcut : es =
      .openRebootFile path true :: .writeRebootFile (callbackLine address port) :: es' := by
    apply List.append_cancel_left
    rw [← hes]
    show c.io.trace ++ [_] ++ [_] ++ es' = c.io.trace ++ _
    simp
  rw [hcut]
  exact hafter

/-- `handle_reboot` on a file that is there. -/
theorem handleReboot_found (S : Surroundings) {cwd contents : Bytes} {fs : Files}
    (hfound : fs (S.resolve cwd rebootFile) = some contents) (hne : contents ≠ []) :
    handleReboot S cwd fs = (scanCallback S (fgets 100 contents)).map fun callback =>
      (some callback, fs.delete (S.resolve cwd rebootFile)) := by
  unfold handleReboot
  rw [hfound]
  dsimp only
  rw [if_neg hne]
  cases scanCallback S (fgets 100 contents) <;> rfl

/-- It deletes no other file than the one it looks for. -/
theorem handleReboot_keeps (S : Surroundings) {cwd file : Bytes} {fs fs' : Files}
    {callback : Option (Bytes × UInt32)} (hcall : handleReboot S cwd fs = .ok (callback, fs'))
    (hother : file ≠ S.resolve cwd rebootFile) : fs' file = fs file := by
  cases hfound : fs (S.resolve cwd rebootFile) with
  | none =>
      unfold handleReboot at hcall
      rw [hfound] at hcall
      cases hcall
      rfl
  | some contents =>
      by_cases hempty : contents = []
      · unfold handleReboot at hcall
        rw [hfound, hempty] at hcall
        cases hcall
      · rw [handleReboot_found S hfound hempty] at hcall
        cases hscan : scanCallback S (fgets 100 contents) with
        | error e =>
            rw [hscan] at hcall
            cases hcall
        | ok port =>
            rw [hscan] at hcall
            cases hcall
            exact if_neg hother

/-- **The callback data survives exactly when writer and reader agree**: on the file that is
meant, on the room for the address and on what is left of the line for the port. -/
theorem reboot_callback_survives_iff (S : Surroundings) (cwd cwd' : Bytes) (fs : Files)
    {c c' : Connection} {address port : Bytes} {es : List Event}
    (haddress : IsToken address) (hport : IsPort port)
    (hrebt : CommandEventHandler.rebt [address, port] c = .ok [] c')
    (hes : c'.trace = c.trace ++ es) :
    ∃ path, Shell.joinPaths c.io.os.testRoot rebootFile = .ok path ∧
      (CallbackSurvives S cwd' (Files.after S cwd fs es) (S.resolve cwd path) address port ↔
        S.resolve cwd path = S.resolve cwd' rebootFile ∧ address.length < 40 ∧
          PortFits S address port) := by
  obtain ⟨path, hpath, hafter⟩ := rebt_writes S cwd fs hrebt hes
  refine ⟨path, hpath, ?_⟩
  rw [hafter]
  generalize hfile : S.resolve cwd path = file
  have hwritten : fs.write file (callbackLine address port) file =
      some (callbackLine address port) := if_pos rfl
  have hline : callbackLine address port ≠ [] := by
    rw [callbackLine_eq]
    exact List.append_ne_nil_of_right_ne_nil _ (List.cons_ne_nil _ _)
  have hread : ∀ cwd', file = S.resolve cwd' rebootFile →
      handleReboot S cwd' (fs.write file (callbackLine address port)) =
        (scanCallback S ((callbackLine address port).take 99)).map fun callback =>
          (some callback, (fs.write file (callbackLine address port)).delete file) := by
    rintro cwd' hsame
    rw [handleReboot_found S (hsame ▸ hwritten) hline, fgets_callbackLine haddress hport, ← hsame]
  unfold CallbackSurvives
  constructor
  · rintro ⟨fs', hcall, hgone⟩
    -- another file is not deleted, and the one that was written would still be there
    have hsame : file = S.resolve cwd' rebootFile := by
      by_contra hother
      rw [handleReboot_keeps S hcall hother, hwritten] at hgone
      cases hgone
    rw [hread cwd' hsame] at hcall
    rcases Nat.lt_or_ge address.length 40 with hshort | hlong
    · rw [scan_short S haddress hport hshort] at hcall
      refine ⟨hsame, hshort, (port_fits_iff S hport hshort).mp ?_⟩
      have hpair := (Prod.mk.inj (Except.ok.inj hcall)).1
      exact (Prod.mk.inj (Option.some.inj hpair)).2
    -- `%s` writes past the end of `r_ipaddr`
    · rw [scan_overrun S haddress hport hlong] at hcall
      cases hcall
  · rintro ⟨hsame, hshort, hfits⟩
    refine ⟨(fs.write file (callbackLine address port)).delete file, ?_, if_pos rfl⟩
    rw [hread cwd' hsame, scan_short S haddress hport hshort,
      (port_fits_iff S hport hshort).mpr hfits]
    rfl

/-- A connection to an agent with the test root of a device without an SD card. -/
def onDevice : Connection := CommandEventHandler.new 3 { testRoot := str "/data/local/tmp" }

/-- The connection after `rebt 10.0.0.1 20701`. -/
def rebooted : Connection :=
  CommandEventHandler.stopped ((onDevice.log
    (.openRebootFile (str "/data/local/tmp/.SUTAgent_rebt") true)).log
      (.writeRebootFile (callbackLine (str "10.0.0.1") (str "20701"))))

/-- An agent that runs in its test root calls back. -/
theorem reboot_callback_survives_in_test_root :
    CallbackSurvives .posix (str "/data/local/tmp")
      (Files.after .posix (str "/") (fun _ => none) (rebooted.trace.drop 2))
      (str "/data/local/tmp/.SUTAgent_rebt") (str "10.0.0.1") (str "20701") := by
  have hrebt : CommandEventHandler.rebt [str "10.0.0.1", str "20701"] onDevice =
      .ok [] rebooted := rfl
  have htrace : rebooted.trace = onDevice.trace ++ rebooted.trace.drop 2 := rfl
  obtain ⟨path, hpath, hiff⟩ := reboot_callback_survives_iff .posix (str "/")
    (str "/data/local/tmp") (fun _ => none) (by decide) (by decide) hrebt htrace
  have hsame : path = str "/data/local/tmp/.SUTAgent_rebt" := Except.ok.inj hpath.symm
  rw [hsame] at hiff
  apply hiff.mpr
  refine ⟨rfl, by decide, .inl (by decide), .inl (by decide)⟩

/-- An agent that is restarted in the root directory does not find the file in its test root. -/
theorem reboot_callback_lost_outside_test_root :
    IsToken (str "10.0.0.1") ∧ IsPort (str "20701") ∧
      CommandEventHandler.rebt [str "10.0.0.1", str "20701"] onDevice = .ok [] rebooted ∧
      ¬ CallbackSurvives .posix (str "/")
        (Files.after .posix (str "/") (fun _ => none) (rebooted.trace.drop 2))
        (str "/data/local/tmp/.SUTAgent_rebt") (str "10.0.0.1") (str "20701") := by
  refine ⟨by decide, by decide, rfl, ?_⟩
  rintro ⟨fs', hcall, -⟩
  cases hcall

end SUTAgent

end Negatus
