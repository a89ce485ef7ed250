import Negatus.Shell

/-!
# What a command replies

A reply is a text: whatever the system answers, there is no NUL in it, as the strings that
the system and the command line give are C strings. What is printed of a number or of the
machine's address does not break the line either.
-/

namespace Negatus

open Foundations

/-- Neither a newline nor a NUL. -/
def IsLine (s : Bytes) : Prop := newline ∉ s ∧ 0 ∉ s

theorem IsLine.append {s t : Bytes} (hs : IsLine s) (ht : IsLine t) : IsLine (s ++ t) :=
  ⟨fun h => (List.mem_append.mp h).elim hs.1 ht.1, fun h => (List.mem_append.mp h).elim hs.2 ht.2⟩

/-- A C string as it is. -/
def IsText (s : Bytes) : Prop := 0 ∉ s

instance (s : Bytes) : Decidable (IsText s) := inferInstanceAs (Decidable (0 ∉ s))

theorem IsText.append {s t : Bytes} (hs : IsText s) (ht : IsText t) : IsText (s ++ t) :=
  fun h => (List.mem_append.mp h).elim hs ht

theorem IsText.of_subset {s t : Bytes} (ht : IsText t) (h : s ⊆ t) : IsText s := fun hmem => ht (h hmem)

theorem isText_nil : IsText [] := List.not_mem_nil

theorem isText_cstr (s : Bytes) : IsText (cstr s) := nul_notMem_cstr s

theorem agentWarn_text {errStr : Bytes} (h : IsText errStr) : IsText (agentWarn errStr) :=
  IsText.append (by decide) h

theorem trim_text {s : Bytes} (h : IsText s) : IsText (trim s) := by
  refine h.of_subset fun b hb => ?_
  have hback := (List.dropWhile_suffix _).subset hb
  rw [List.mem_reverse] at hback
  exact List.mem_reverse.mp ((List.dropWhile_suffix _).subset hback)

theorem splitOnP_subset {p : UInt8 → Bool} {s piece : Bytes} (h : piece ∈ s.splitOnP p) :
    piece ⊆ s := by
  induction s generalizing piece with
  | nil =>
      rw [List.splitOnP_nil, List.mem_singleton] at h
      rw [h]
      exact List.Subset.refl _
  | cons b s ih =>
      rw [List.splitOnP_cons_eq_if_modifyHead] at h
      split at h
      · rcases List.mem_cons.mp h with rfl | h
        · exact List.nil_subset _
        · exact List.subset_cons_of_subset b (ih h)
      · obtain ⟨head, rest, hsplit⟩ := List.exists_cons_of_ne_nil (List.splitOnP_ne_nil p s)
        rw [hsplit, List.modifyHead_cons] at h
        rcases List.mem_cons.mp h with rfl | h
        · exact List.cons_subset_cons b (ih (hsplit ▸ List.mem_cons_self))
        · exact List.subset_cons_of_subset b (ih (hsplit ▸ List.mem_cons_of_mem _ h))

/-- What `strtok` returns is a part of a C string. -/
theorem strtok_text {delim : UInt8 → Bool} {s piece : Bytes} (h : piece ∈ strtok delim s) :
    IsText piece := (isText_cstr s).of_subset (splitOnP_subset (List.mem_filter.mp h).1)

theorem CommandLine.arg_text {line arg : Bytes} (h : arg ∈ (CommandLine.new line).args) :
    IsText arg := by
  unfold CommandLine.new at h
  split at h
  · cases h
  · rename_i cmd args hwords
    obtain ⟨word, hmem, rfl⟩ := List.mem_map.mp h
    exact trim_text (strtok_text (hwords ▸ List.mem_cons_of_mem cmd hmem))

/-! ## Numbers -/

theorem isLine_of_digits {s : Bytes} (h : ∀ b ∈ s, Shell.isDigit b = true) : IsLine s :=
  ⟨fun hmem => absurd (h _ hmem) (by decide), fun hmem => absurd (h _ hmem) (by decide)⟩

/-- The bytes of a digit. -/
theorem str_digit {c : Char} (h : c.isDigit = true) :
    ∃ b, str (String.singleton c) = [b] ∧ Shell.isDigit b = true := by
  have hrange : 48 ≤ c.toNat ∧ c.toNat ≤ 57 := by
    unfold Char.isDigit at h
    rw [Bool.and_eq_true, decide_eq_true_eq, decide_eq_true_eq] at h
    exact ⟨UInt32.le_iff_toNat_le.mp h.1, UInt32.le_iff_toNat_le.mp h.2⟩
  have hcases : c.toNat = 48 ∨ c.toNat = 49 ∨ c.toNat = 50 ∨ c.toNat = 51 ∨ c.toNat = 52 ∨
      c.toNat = 53 ∨ c.toNat = 54 ∨ c.toNat = 55 ∨ c.toNat = 56 ∨ c.toNat = 57 := by
    omega
  rw [← Char.ofNat_toNat c]
  rcases hcases with hc | hc | hc | hc | hc | hc | hc | hc | hc | hc <;> rw [hc] <;>
    exact ⟨_, rfl, by decide⟩

theorem str_digits {cs : List Char} (h : ∀ c ∈ cs, c.isDigit = true) :
    (str (String.ofList cs)).length = cs.length ∧
      ∀ b ∈ str (String.ofList cs), Shell.isDigit b = true := by
  induction cs with
  | nil => exact ⟨rfl, nofun⟩
  | cons c cs ih =>
      obtain ⟨hlen, hdigits⟩ := ih fun c hc => h c (List.mem_cons_of_mem _ hc)
      obtain ⟨b, hb, hdigit⟩ := str_digit (h c List.mem_cons_self)
      rw [str_ofList_cons, hb]
      refine ⟨congrArg (· + 1) hlen, fun b' hb' => ?_⟩
      rcases List.mem_cons.mp hb' with rfl | hb'
      · exact hdigit
      · exact hdigits b' hb'

theorem itoa_digits (n : Nat) :
    (itoa n).length = (Nat.toDigits 10 n).length ∧ ∀ b ∈ itoa n, Shell.isDigit b = true := by
  unfold itoa
  rw [toString_digits]
  exact str_digits fun c hc => Nat.isDigit_of_mem_toDigits (by decide) (by decide) hc

theorem isText_of_digits {s : Bytes} (h : ∀ b ∈ s, Shell.isDigit b = true) : IsText s :=
  (isLine_of_digits h).2

theorem itoa_text (n : Nat) : IsText (itoa n) := isText_of_digits (itoa_digits n).2

theorem intStr_text (i : Int) : IsText (intStr i) := by
  cases i with
  | ofNat n => exact itoa_text n
  | negSucc n =>
      have hminus : intStr (Int.negSucc n) = str "-" ++ itoa (n + 1) := by
        show str ("-" ++ toString (n + 1)) = _
        unfold itoa str String.toUTF8
        rw [String.toByteArray_append, ByteArray.data_append, Array.toList_append]
      rw [hminus]
      exact IsText.append (by decide) (itoa_text _)

theorem itoa_length_le {n k : Nat} (hk : 0 < k) (h : n < 10 ^ k) : (itoa n).length ≤ k := by
  rw [(itoa_digits n).1]
  exact (Nat.length_toDigits_le_iff (by decide) hk).mpr h

/-- The entries of directories and the test root are C strings. -/
structure System.Named (s : System) : Prop where
  names : ∀ names, some names ∈ s.dirs → ∀ name ∈ names, IsText name
  root : IsText s.testRoot

theorem System.Named.of_same {s s' : System} (h : s.Named) (hdirs : s'.dirs = s.dirs)
    (hroot : s'.testRoot = s.testRoot) : s'.Named := by
  constructor
  · rw [hdirs]
    exact h.names
  · rw [hroot]
    exact h.root

namespace Shell

theorem pad_digits (width n : Nat) : ∀ b ∈ pad width n, isDigit b = true := by
  intro b hb
  rcases List.mem_append.mp hb with hb | hb
  · rw [(List.mem_replicate.mp hb).2]
    decide
  · exact (itoa_digits n).2 b hb

theorem pad_length {width n : Nat} (hwidth : 0 < width) (h : n < 10 ^ width) :
    (pad width n).length = width := by
  have hle := itoa_length_le hwidth h
  unfold pad
  rw [List.length_append, List.length_replicate]
  omega

/-! ## The address -/

theorem dropLast_prefix_dropLast {s t : Bytes} (h : s <+: t) : s.dropLast <+: t.dropLast := by
  obtain ⟨u, rfl⟩ := h
  rcases List.eq_nil_or_concat u with rfl | ⟨u, b, rfl⟩
  · exact (List.append_nil s).symm ▸ List.prefix_rfl
  · rw [List.concat_eq_append, ← List.append_assoc, List.dropLast_concat]
    exact (List.dropLast_prefix s).trans (List.prefix_append s u)

/-- A newline can only be the last byte that `fgets` reads. -/
theorem newline_notMem_fgets (s : Bytes) : newline ∉ (fgets s).1.dropLast := by
  unfold fgets
  dsimp only
  generalize s.take (bufSize - 1) = piece
  cases hk : piece.findIdx? (· = newline) with
  | none =>
      intro hmem
      have hno := List.findIdx?_eq_none_iff.mp hk newline (List.dropLast_subset _ hmem)
      exact absurd hno (by decide)
  | some k =>
      obtain ⟨hlt, -, hbefore⟩ := List.findIdx?_eq_some_iff_getElem.mp hk
      show newline ∉ (piece.take (k + 1)).dropLast
      rw [List.take_succ_eq_append_getElem hlt, List.dropLast_concat]
      intro hmem
      obtain ⟨i, hi, heq⟩ := List.mem_iff_getElem.mp hmem
      rw [List.length_take] at hi
      have hno := hbefore i (by omega)
      rw [List.getElem_take] at heq
      rw [heq] at hno
      exact absurd hno (by decide)

/-- What is left of the buffer without its last byte stays on one line. -/
theorem address_line {buffer : Bytes} {s : System} (hline : IsLine buffer.dropLast)
    (hlen : buffer.length < bufSize) :
    Ensures (if buffer = [] then throw .undefined else pure buffer.dropLast : Sys Bytes) s
      (fun address _ => IsLine address ∧ address.length < bufSize) (fun _ _ => True) := by
  split
  · trivial
  · exact ⟨hline, Nat.lt_of_le_of_lt (List.dropLast_sublist _).length_le hlen⟩

/-- What `id` returns is at most one line. -/
theorem id_line (s : System) :
    Ensures id s (fun address _ => IsLine address ∧ address.length < bufSize) (fun _ _ => True) := by
  have hgo : ∀ (ifaces : List Bytes) (s : System),
      (∀ iface ∈ ifaces, IsLine iface ∧ iface.length < 10) →
      Ensures (id.go ifaces) s (fun address _ => IsLine address ∧ address.length < bufSize)
        (fun _ _ => True) := by
    intro ifaces
    induction ifaces with
    | nil => exact fun s _ => ⟨⟨by decide, by decide⟩, by decide⟩
    | cons iface ifaces ih =>
        intro s hifaces
        unfold id.go
        refine ensures_bind.mpr (ensures_modifyGet.mpr ?_)
        split
        · exact ih _ fun iface h => hifaces iface (List.mem_cons_of_mem _ h)
        · rename_i text _
          dsimp only
          split
          · -- the path of the file is the buffer
            obtain ⟨hline, hshort⟩ := hifaces iface List.mem_cons_self
            have hpath : IsLine (str "/sys/class/net/" ++ iface ++ str "/address") :=
              IsLine.append (IsLine.append ⟨by decide, by decide⟩ hline) ⟨by decide, by decide⟩
            have hconst : (str "/sys/class/net/").length + (str "/address").length = 23 := by decide
            have hsize : bufSize = 1024 := rfl
            refine address_line ⟨fun h => hpath.1 (List.dropLast_subset _ h),
              fun h => hpath.2 (List.dropLast_subset _ h)⟩ ?_
            rw [List.length_append, List.length_append]
            omega
          · have hprefix : cstr (fgets text).1 <+: (fgets text).1 := List.takeWhile_prefix _
            refine address_line ⟨fun h => newline_notMem_fgets text
              ((dropLast_prefix_dropLast hprefix).subset h),
              fun h => nul_notMem_cstr _ (List.dropLast_subset _ h)⟩ ?_
            exact Nat.lt_of_le_of_lt (le_trans hprefix.length_le (fgets_length text)) (by decide)
  refine hgo _ s fun iface h => ?_
  simp only [List.mem_cons, List.not_mem_nil, or_false] at h
  rcases h with rfl | rfl | rfl | rfl <;> exact ⟨⟨by decide, by decide⟩, by decide⟩

/-! ## Replies -/

section

variable {args : List Bytes}

theorem check_keeps : Keeps System.Named (fun _ => True) (ask System.check) :=
  keeps_modifyGet fun _ hs => ⟨hs.of_same rfl rfl, trivial⟩

theorem text_keeps : Keeps System.Named (fun _ => True) (ask System.text) :=
  keeps_modifyGet fun _ hs => ⟨hs.of_same rfl rfl, trivial⟩

theorem kind_keeps : Keeps System.Named (fun _ => True) (ask System.kind) :=
  keeps_modifyGet fun _ hs => ⟨hs.of_same rfl rfl, trivial⟩

theorem prNow_keeps : Keeps System.Named (fun _ => True) (ask System.prNow) :=
  keeps_modifyGet fun _ hs => ⟨hs.of_same rfl rfl, trivial⟩

/-- The entries of a directory that could be opened. -/
def Entries (entries : Option (List Bytes)) : Prop :=
  ∀ names, entries = some names → ∀ name ∈ names, IsText name

theorem openDir_keeps : Keeps System.Named Entries (ask System.openDir) := by
  refine keeps_modifyGet fun s hs => ⟨?_, fun names hentries => ?_⟩
  · exact ⟨fun names hmem => hs.names names (List.mem_of_mem_tail hmem), hs.root⟩
  · change s.dirs.headD none = some names at hentries
    cases hdirs : s.dirs with
    | nil =>
        rw [hdirs] at hentries
        cases hentries
    | cons entries dirs =>
        rw [hdirs] at hentries
        exact hs.names names (hdirs ▸ hentries ▸ List.mem_cons_self)

theorem cmdOutput_keeps : Keeps System.Named IsText (ask getCmdOutput) := by
  refine keeps_modifyGet fun s hs => ?_
  unfold getCmdOutput
  dsimp only
  split
  · exact ⟨hs.of_same rfl rfl, isText_nil⟩
  · rename_i text _
    exact ⟨hs.of_same rfl rfl,
      IsText.of_subset (nul_notMem_fgetsAll text) (List.dropLast_subset _)⟩

theorem fileHash_keeps : Keeps System.Named IsText (ask fileHash) := by
  refine keeps_modifyGet fun s hs => ?_
  obtain ⟨hnamed, htext⟩ := cmdOutput_keeps s hs
  exact ⟨hnamed, htext.of_subset (List.takeWhile_prefix _).subset⟩

theorem readTextFile_keeps : Keeps System.Named (fun text => ∀ t ∈ text, IsText t) readTextFile := by
  refine text_keeps.bind fun text _ => keeps_pure fun t ht => ?_
  obtain ⟨content, -, rfl⟩ := Option.map_eq_some_iff.mp ht
  exact IsText.of_subset (nul_notMem_fgetsAll content) (List.dropLast_subset _)

theorem isDir_keeps : Keeps System.Named IsText isDir := by
  refine kind_keeps.bind fun kind _ => ?_
  split
  · exact keeps_pure (by decide)
  · exact keeps_pure (by decide)

theorem warn_keeps {errStr : Bytes} (h : IsText errStr) :
    Keeps System.Named IsText (pure (agentWarn errStr) : Sys Bytes) := keeps_pure (agentWarn_text h)

theorem invalidNumArgs_keeps (n : Nat) :
    Keeps System.Named IsText (pure (agentWarnInvalidNumArgs n) : Sys Bytes) :=
  warn_keeps ((IsText.append (by decide) (itoa_text n)).append (by decide))

theorem withDir_keeps {onDir : Sys Bytes} (h : Keeps System.Named IsText onDir) :
    Keeps System.Named IsText (withDir onDir) := by
  refine isDir_keeps.bind fun ret hret => Keeps.ite (fun _ => ?_) fun _ => h
  exact Keeps.ite (fun _ => warn_keeps (by decide)) fun _ => keeps_pure hret

theorem cd_keeps (args : List Bytes) : Keeps System.Named IsText (cd args) := by
  refine withDir_keeps (check_keeps.bind fun _ _ => ?_)
  refine Keeps.ite (fun _ => check_keeps.bind fun _ _ => ?_) fun _ => warn_keeps (by decide)
  exact Keeps.ite (fun _ => keeps_pure isText_nil) fun _ => warn_keeps (by decide)

theorem cwd_keeps : Keeps System.Named IsText cwd := by
  refine text_keeps.bind fun buffer _ => ?_
  split
  · exact keeps_throw
  · exact keeps_pure (isText_cstr _)

theorem clok_keeps : Keeps System.Named IsText clok :=
  prNow_keeps.bind fun _ _ => keeps_pure (itoa_text _)

theorem dirw_keeps (hargs : ∀ arg ∈ args, IsText arg) : Keeps System.Named IsText (dirw args) := by
  have hpath : IsText (args.headD []) := by
    cases args with
    | nil => exact isText_nil
    | cons path args => exact hargs path List.mem_cons_self
  refine withDir_keeps (check_keeps.bind fun _ _ => Keeps.ite (fun _ => ?_) fun _ => ?_)
  · exact keeps_pure (hpath.append (by decide))
  · exact keeps_pure (hpath.append (by decide))

theorem hash_keeps (hargs : ∀ arg ∈ args, IsText arg) : Keeps System.Named IsText (hash args) := by
  cases args with
  | nil => exact invalidNumArgs_keeps 1
  | cons path args =>
      have hpath := hargs path List.mem_cons_self
      refine check_keeps.bind fun _ _ => Keeps.ite (fun _ => ?_) fun _ => fileHash_keeps
      exact warn_keeps ((IsText.append (by decide) hpath).append (by decide))

/-! ### `info` -/

theorem pad_text (width n : Nat) : IsText (pad width n) := isText_of_digits (pad_digits width n)

theorem id_keeps : Keeps System.Named IsText id := by
  have hgo : ∀ ifaces : List Bytes, Keeps System.Named (fun _ => True) (id.go ifaces) := by
    intro ifaces
    induction ifaces with
    | nil => exact keeps_pure trivial
    | cons iface ifaces ih =>
        refine text_keeps.bind fun text _ => ?_
        split
        · exact ih
        · exact Keeps.ite (fun _ => keeps_throw) fun _ => keeps_pure trivial
  intro s hs
  refine ((hgo _ s hs).and (id_line s)).mono ?_ fun _ _ _ => trivial
  rintro address s' ⟨⟨hnamed, -⟩, hline, -⟩
  exact ⟨hnamed, hline.2⟩

theorem systime_keeps (P : Platform) : Keeps System.Named IsText (systime P) := by
  refine prNow_keeps.bind fun _ _ => keeps_pure ?_
  have hslash : IsText (str "/") := by decide
  have hcolon : IsText (str ":") := by decide
  have hblank : IsText (str " ") := by decide
  exact (((((((((((itoa_text _).append hslash).append (pad_text _ _)).append hslash).append
    (pad_text _ _)).append hblank).append (pad_text _ _)).append hcolon).append
      (pad_text _ _)).append hcolon).append (pad_text _ _)).append hcolon |>.append (pad_text _ _)

theorem uptimemillis_keeps (P : Platform) : Keeps System.Named IsText (uptimemillis P) := by
  refine readTextFile_keeps.bind fun uptime _ => ?_
  cases uptime with
  | none => exact warn_keeps (by decide)
  | some uptime =>
      dsimp only
      cases P.scanMillis (cstr uptime) with
      | none => exact keeps_throw
      | some millis => exact keeps_pure (intStr_text millis)

theorem screen_keeps : Keeps System.Named IsText screen := by
  refine readTextFile_keeps.bind fun out hout => ?_
  cases out with
  | none => exact warn_keeps (by decide)
  | some out => exact keeps_pure (hout out rfl)

theorem scanFirstInt_keeps (buffer : Bytes) :
    Keeps System.Named (fun _ => True) (scanFirstInt buffer) := by
  unfold scanFirstInt
  split
  · exact keeps_throw
  · exact Keeps.ite (fun _ => keeps_pure trivial) fun _ => keeps_throw

theorem memory_keeps : Keeps System.Named IsText memory := by
  refine text_keeps.bind fun meminfo _ => ?_
  split
  · exact warn_keeps (by decide)
  · rename_i meminfo
    have hscan : ∀ line line', Keeps System.Named IsText (do
        let total ← scanFirstInt line
        let available ← scanFirstInt line'
        pure (str "Total: " ++ itoa (total * 1000 % 2 ^ 64) ++ str "; Available: " ++
          itoa (available * 1000 % 2 ^ 64) ++ str ".")) := by
      intro line line'
      refine (scanFirstInt_keeps _).bind fun total _ => ?_
      refine (scanFirstInt_keeps _).bind fun available _ => keeps_pure ?_
      exact (((IsText.append (by decide) (itoa_text _)).append (by decide)).append
        (itoa_text _)).append (by decide)
    refine Keeps.ite (fun _ => ?_) fun _ => hscan _ _
    exact Keeps.bind (V := fun _ => True) keeps_throw fun _ _ => hscan _ _

theorem power_keeps : Keeps System.Named IsText power := by
  refine readTextFile_keeps.bind fun capacity hcapacity => ?_
  cases capacity with
  | none => exact warn_keeps (by decide)
  | some capacity =>
      refine readTextFile_keeps.bind fun status hstatus => ?_
      cases status with
      | none => exact warn_keeps (by decide)
      | some status =>
          refine keeps_pure ?_
          have hlabel : IsText (str "Power status:" ++ endl ++ str "\tCurrent %: ") := by decide
          exact ((hlabel.append (hcapacity _ rfl)).append (by decide)).append (hstatus _ rfl)

theorem info_keeps (P : Platform) (args : List Bytes) : Keeps System.Named IsText (info P args) := by
  unfold info
  split
  · refine Keeps.ite (fun _ => id_keeps) fun _ => ?_
    refine Keeps.ite (fun _ => keeps_pure (by decide)) fun _ => ?_
    refine Keeps.ite (fun _ => systime_keeps P) fun _ => ?_
    refine Keeps.ite (fun _ => cmdOutput_keeps) fun _ => ?_
    refine Keeps.ite (fun _ => uptimemillis_keeps P) fun _ => ?_
    refine Keeps.ite (fun _ => screen_keeps) fun _ => ?_
    refine Keeps.ite (fun _ => memory_keeps) fun _ => ?_
    exact Keeps.ite (fun _ => power_keeps) fun _ => warn_keeps (by decide)
  · exact invalidNumArgs_keeps 1

/-! ### Files and processes -/

theorem isDirArgs_keeps (args : List Bytes) : Keeps System.Named IsText (isDirArgs args) := by
  cases args with
  | nil => exact invalidNumArgs_keeps 1
  | cons path args => exact isDir_keeps

theorem killLoop_keeps (procname : Bytes) (entries : List Bytes) (killed : Bool) :
    Keeps System.Named (fun _ => True) (killLoop procname entries killed) := by
  induction entries generalizing killed with
  | nil => exact keeps_pure trivial
  | cons entry entries ih =>
      refine Keeps.ite (fun _ => ?_) fun _ => ih killed
      refine readTextFile_keeps.bind fun comm _ => ?_
      split
      · exact ih killed
      · exact Keeps.ite (fun _ => check_keeps.bind fun _ _ => ih _) fun _ => ih killed

theorem kill_keeps (hargs : ∀ arg ∈ args, IsText arg) : Keeps System.Named IsText (kill args) := by
  unfold kill
  split
  · rename_i procname
    have hname := hargs procname List.mem_cons_self
    refine openDir_keeps.bind fun entries _ => ?_
    split
    · exact keeps_throw
    · refine (killLoop_keeps procname _ false).bind fun killed _ => ?_
      refine Keeps.ite (fun _ => ?_) fun _ => ?_
      · exact keeps_pure (IsText.append (by decide) hname)
      · exact keeps_pure (IsText.append (by decide) hname)
  · exact invalidNumArgs_keeps 1

theorem ls_keeps (args : List Bytes) : Keeps System.Named IsText (ls args) := by
  refine withDir_keeps (openDir_keeps.bind fun entries hentries => ?_)
  split
  · exact keeps_throw
  · rename_i names
    refine check_keeps.bind fun _ _ => Keeps.ite (fun _ => warn_keeps (by decide)) fun _ => ?_
    refine keeps_pure (IsText.of_subset (fun hmem => ?_) (List.dropLast_subset _))
    obtain ⟨name, hname, hmem⟩ := List.mem_flatMap.mp hmem
    exact IsText.append (hentries names rfl name hname) (by decide) hmem

theorem mkdr_keeps (hargs : ∀ arg ∈ args, IsText arg) : Keeps System.Named IsText (mkdr args) := by
  cases args with
  | nil => exact invalidNumArgs_keeps 1
  | cons path args =>
      have hpath := hargs path List.mem_cons_self
      refine check_keeps.bind fun _ _ => Keeps.ite (fun _ => ?_) fun _ => ?_
      · exact warn_keeps (IsText.append (by decide) hpath)
      · exact keeps_pure (hpath.append (by decide))

theorem rmPath_keeps {path : Bytes} (hpath : IsText path) :
    Keeps System.Named IsText (rmPath path) := by
  refine check_keeps.bind fun _ _ => Keeps.ite (fun _ => ?_) fun _ => ?_
  · exact keeps_pure (IsText.append (by decide) hpath)
  · exact warn_keeps (IsText.append (by decide) hpath)

theorem rm_keeps (hargs : ∀ arg ∈ args, IsText arg) : Keeps System.Named IsText (rm args) := by
  cases args with
  | nil => exact invalidNumArgs_keeps 1
  | cons path args => exact rmPath_keeps (hargs path List.mem_cons_self)

theorem joinPaths_text {p1 p2 p : Bytes} (h1 : IsText p1) (h2 : IsText p2)
    (h : joinPaths p1 p2 = .ok p) : IsText p := by
  unfold joinPaths at h
  split at h
  · cases h
  · obtain rfl := Except.ok.inj h
    refine IsText.append (IsText.append ?_ (by decide)) ?_
    · split
      · exact h1.of_subset (List.dropLast_subset _)
      · exact h1
    · split
      · exact h2.of_subset fun _ => List.mem_of_mem_tail
      · exact h2

theorem doRmdr_keeps (depth : Nat) {path : Bytes} (hpath : IsText path) :
    Keeps System.Named IsText (doRmdr depth path) := by
  induction depth generalizing path with
  | zero =>
      refine isDir_keeps.bind fun _ _ => (rmPath_keeps hpath).bind fun _ _ => ?_
      exact keeps_pure isText_nil
  | succ depth ih =>
      refine isDir_keeps.bind fun ret _ => Keeps.ite (fun _ => ?_) fun _ => ?_
      · exact (rmPath_keeps hpath).bind fun _ _ => keeps_pure isText_nil
      · refine openDir_keeps.bind fun entries hentries => ?_
        split
        · exact keeps_throw
        · rename_i names
          refine Keeps.bind (V := IsText) (keeps_foldlM isText_nil ?_) fun out hout => ?_
          · intro entry hentry out hout
            split
            · exact keeps_throw
            · rename_i p hjoin
              have hp := joinPaths_text hpath (hentries names rfl entry hentry) hjoin
              exact (ih hp).bind fun more hmore => keeps_pure (hout.append hmore)
          · refine check_keeps.bind fun closed _ => check_keeps.bind fun removed _ => keeps_pure ?_
            have hclosed : IsText (if closed then out
                else out ++ str "error: could not close dir object" ++ endl) := by
              split
              · exact hout
              · exact (hout.append (by decide)).append (by decide)
            split
            · exact hclosed
            · exact ((hclosed.append (by decide)).append hpath).append (by decide)

theorem rmdr_keeps (hargs : ∀ arg ∈ args, IsText arg) : Keeps System.Named IsText (rmdr args) := by
  cases args with
  | nil => exact invalidNumArgs_keeps 1
  | cons path args =>
      exact (keeps_get fun _ _ => trivial).bind (V := fun _ => True) fun s _ =>
        doRmdr_keeps s.kinds.length (hargs path List.mem_cons_self)

theorem strtod_keeps (P : Platform) (text : Bytes) :
    Keeps System.Named (fun _ => True) (strtod P text) := by
  unfold strtod
  cases P.strtod text with
  | none => exact keeps_throw
  | some n => exact keeps_pure trivial

theorem pushInts_keeps (P : Platform) (toks : List Bytes) :
    Keeps System.Named (fun _ => True) (pushInts P toks) := by
  induction toks with
  | nil => exact keeps_pure trivial
  | cons tok toks ih =>
      refine (strtod_keeps P tok).bind fun n _ => ?_
      exact ih.bind fun ints _ => keeps_pure trivial

theorem settime_keeps (P : Platform) (args : List Bytes) :
    Keeps System.Named IsText (settime P args) := by
  unfold settime
  split
  · refine (pushInts_keeps P _).bind fun dates _ => ?_
    refine Keeps.ite (fun _ => warn_keeps (by decide)) fun _ => ?_
    refine (pushInts_keeps P _).bind fun times _ => ?_
    refine Keeps.ite (fun _ => warn_keeps (by decide)) fun _ => ?_
    refine prNow_keeps.bind fun _ _ => keeps_pure ?_
    have hslash : IsText (str "/") := by decide
    have hcolon : IsText (str ":") := by decide
    have hblank : IsText (str " ") := by decide
    exact ((((((((((itoa_text _).append hslash).append (itoa_text _)).append hslash).append
      (itoa_text _)).append hblank).append (itoa_text _)).append hcolon).append
        (itoa_text _)).append hcolon).append (itoa_text _)
  · exact invalidNumArgs_keeps 2

theorem setutime_keeps (P : Platform) (args : List Bytes) :
    Keeps System.Named IsText (setutime P args) := by
  cases args with
  | nil => exact invalidNumArgs_keeps 1
  | cons times args => exact (strtod_keeps P times).bind fun _ _ => clok_keeps

theorem testroot_keeps : Keeps System.Named IsText testroot :=
  (keeps_get fun _ hs => hs.root).bind fun _ hroot => keeps_pure hroot

/-- One round of the `if` chain. -/
theorem keeps_chain {p : Prop} [Decidable p] {m : Sys Bytes} {o : Option (Sys Bytes)}
    (h : Keeps System.Named IsText m) (h' : ∀ m ∈ o, Keeps System.Named IsText m) :
    ∀ m' ∈ if p then some m else o, Keeps System.Named IsText m' := by
  split
  · rintro m' ⟨⟩
    exact h
  · exact h'

/-- **Replies are texts.** -/
theorem command_keeps (P : Platform) (cmd : Bytes) (hargs : ∀ arg ∈ args, IsText arg) :
    ∀ m ∈ command P cmd args, Keeps System.Named IsText m := by
  unfold command
  refine keeps_chain (cd_keeps args) ?_
  refine keeps_chain cwd_keeps ?_
  refine keeps_chain clok_keeps ?_
  refine keeps_chain (dirw_keeps hargs) ?_
  refine keeps_chain (hash_keeps hargs) ?_
  refine keeps_chain (info_keeps P args) ?_
  refine keeps_chain cmdOutput_keeps ?_
  refine keeps_chain (isDirArgs_keeps args) ?_
  refine keeps_chain (kill_keeps hargs) ?_
  refine keeps_chain (ls_keeps args) ?_
  refine keeps_chain (mkdr_keeps hargs) ?_
  refine keeps_chain (rm_keeps hargs) ?_
  refine keeps_chain (rmdr_keeps hargs) ?_
  refine keeps_chain (settime_keeps P args) ?_
  refine keeps_chain (setutime_keeps P args) ?_
  refine keeps_chain testroot_keeps ?_
  refine keeps_chain (keeps_pure (by decide)) ?_
  exact nofun

end

end Shell

end Negatus
