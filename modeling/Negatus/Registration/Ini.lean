import Negatus.Foundations.FirstSplit
import Negatus.Registration

/-!
# What an `.ini` file says

Line by line a file says `Entry`s, and `foldLines` is what they come to. `read_ini`
does the same with what `fgets` returns, which is a line only as long as it fits into
the buffer; the rest of a longer line is read as a line of its own.
-/

namespace Negatus

open Foundations

namespace Registration

/-- What a line can say. -/
inductive Entry where
  | nothing
  | header (name : Bytes)
  | badHeader
  | pair (name value : Bytes)
deriving DecidableEq, Repr

/-- What there is in front of the last `c`. -/
def beforeLast (c : UInt8) (s : Bytes) : Bytes := (s.reverse.dropWhile (· ≠ c)).tail.reverse

/-- What a line says: `#` is a comment, `[` begins a section, a pair has a `=`. -/
def entryOf (line : Bytes) : Entry :=
  let text := trim line
  if text = [] ∨ text.head? = some 35 then .nothing
  else if text.head? = some 91 then
    if 93 ∈ text then .header (trim (beforeLast 93 text).tail) else .badHeader
  else if 61 ∈ text then
    .pair (trim (text.takeWhile (· ≠ 61))) (trim (text.dropWhile (· ≠ 61)).tail)
  else .nothing

/-- The pairs of a section, and the sections. -/
abbrev Sections : Type := Bytes → Option (Bytes → Option Bytes)

/-- What has been read, and the section that the next pair belongs to. -/
structure Reading where
  sections : Sections
  current : Bytes

/-- A header begins its section anew; of two pairs with one name the last one wins. -/
def Reading.obey (s : Reading) : Entry → Option Reading
  | .nothing => some s
  | .header name => some ⟨Function.update s.sections name (some fun _ => none), name⟩
  | .badHeader => none
  | .pair name value =>
      let section_ := (s.sections s.current).getD fun _ => none
      some { s with
        sections := Function.update s.sections s.current
          (some (Function.update section_ name (some value))) }

/-- Entries up to the first bad header. -/
def Reading.obeyAll (s : Reading) : List Entry → Bool × Reading
  | [] => (true, s)
  | e :: es =>
      match s.obey e with
      | none => (false, s)
      | some s => s.obeyAll es

def foldLines (s : Reading) (lines : List Bytes) : Bool × Reading := s.obeyAll (lines.map entryOf)

/-- What a map of maps stands for. -/
def sectionsOf (data : SortedMap Bytes Dict) : Sections := fun name =>
  (data.get? name).map SortedMap.get?

def IniReader.reading (r : IniReader) : Reading := ⟨sectionsOf r.data, r.c_section⟩

/-- `read_ini` is the fold over the lines of the file. -/
structure LineByLine (content : Bytes) (data : SortedMap Bytes Dict) : Prop where
  result : (readIni (some content) data).1 =
    (foldLines ⟨sectionsOf data, []⟩ (content.splitOn newline)).1
  sections : sectionsOf (readIni (some content) data).2 =
    (foldLines ⟨sectionsOf data, []⟩ (content.splitOn newline)).2.sections
  fails : (readIni (some content) data).1 = false ↔ ∃ line ∈ content.splitOn newline,
    (trim line).head? = some 91 ∧ 93 ∉ trim line

/-- What is said by some lines, as far as they are read. -/
def said : List Bytes → List Entry
  | [] => []
  | line :: lines =>
      match entryOf line with
      | .nothing => said lines
      | .badHeader => [.badHeader]
      | e => e :: said lines

/-- The lines up to the one that ends the reading. -/
def linesRead : List Bytes → List Bytes
  | [] => []
  | line :: lines => if entryOf line = .badHeader then [line] else line :: linesRead lines

/-- The buffers that a line is read into say together what the line says. -/
def Faithful (line : Bytes) : Prop := said (fgetsBufs line) = said [line]

/-! ## One buffer -/

section

variable {c : UInt8} {s : Bytes} {idx : Nat}

theorem find_none : find c s = none ↔ c ∉ s := by
  unfold find
  rw [List.findIdx?_eq_none_iff]
  constructor
  · intro h hmem
    simpa using h c hmem
  · exact decide_eq_of_notMem

theorem find_some (h : find c s = some idx) :
    s.takeWhile (· ≠ c) = substr s 0 idx ∧ (s.dropWhile (· ≠ c)).tail = s.drop (idx + 1) := by
  obtain ⟨-, hidx⟩ := List.findIdx?_eq_some_iff_findIdx_eq.mp h
  have hsame : (fun a => !decide (a ≠ c)) = fun a : UInt8 => decide (a = c) := by
    funext a
    by_cases ha : a = c
    · simp [ha]
    · simp [ha]
  rw [List.takeWhile_eq_take_findIdx_not, List.dropWhile_eq_drop_findIdx_not, hsame, hidx,
    List.tail_drop]
  exact ⟨rfl, rfl⟩

theorem findLastOf_none : findLastOf c s = none ↔ c ∉ s := by
  unfold findLastOf
  rw [Option.map_eq_none_iff]
  show find c s.reverse = none ↔ _
  rw [find_none, List.mem_reverse]

theorem findLastOf_some (h : findLastOf c s = some idx) : beforeLast c s = s.take idx := by
  obtain ⟨j, hj, rfl⟩ := Option.map_eq_some_iff.mp h
  unfold beforeLast
  rw [(find_some hj).2, List.drop_reverse, List.reverse_reverse, Nat.sub_sub, Nat.add_comm]

end

theorem sectionsOf_set (data : SortedMap Bytes Dict) (name : Bytes) (section_ : Dict) :
    sectionsOf (data.set name section_) =
      Function.update (sectionsOf data) name (some section_.get?) := by
  funext x
  unfold sectionsOf
  rw [SortedMap.get?_set, Function.update_apply]
  split <;> rfl

theorem get?_set_eq (section_ : Dict) (name value : Bytes) :
    (section_.set name value).get? = Function.update section_.get? name (some value) := by
  funext x
  rw [SortedMap.get?_set, Function.update_apply]

theorem reading_store (r : IniReader) (name value : Bytes) :
    r.reading.obey (.pair name value) = some (r.store name value).reading := by
  have hsection : (sectionsOf r.data r.c_section).getD (fun _ => none) =
      ((r.data.get? r.c_section).getD .empty).get? := by
    unfold sectionsOf
    cases r.data.get? r.c_section <;> rfl
  unfold IniReader.reading IniReader.store Reading.obey
  dsimp only
  rw [hsection, sectionsOf_set, get?_set_eq]

/-- One buffer does what its text says. -/
theorem readBuf_reading (r : IniReader) {buf : Bytes} (hnul : 0 ∉ buf) :
    r.reading.obey (entryOf buf) = (readBuf r buf).map IniReader.reading := by
  unfold readBuf entryOf
  rw [cstr_of_notMem hnul]
  dsimp only
  generalize trim buf = text
  by_cases hempty : text = []
  · rw [if_pos (Or.inl hempty), if_pos hempty]
    rfl
  by_cases hcomment : text.head? = some 35
  · rw [if_pos (Or.inr hcomment), if_neg hempty, if_pos hcomment]
    rfl
  rw [if_neg (not_or.mpr ⟨hempty, hcomment⟩), if_neg hempty, if_neg hcomment]
  by_cases hheader : text.head? = some 91
  · rw [if_pos hheader, if_pos hheader]
    cases hidx : findLastOf 93 text with
    | none =>
        rw [if_neg (findLastOf_none.mp hidx)]
        rfl
    | some idx =>
        have hmem : 93 ∈ text := by
          by_contra hnot
          cases (findLastOf_none.mpr hnot).symm.trans hidx
        -- `substr(1, idx - 1)` is what stands between the brackets
        have hname : (beforeLast 93 text).tail = substr text 1 (idx - 1) := by
          rw [findLastOf_some hidx]
          unfold substr
          rw [← List.drop_one, List.drop_take]
        rw [if_pos hmem, hname]
        show some (Reading.mk _ _) = some (IniReader.reading _)
        unfold IniReader.reading
        rw [sectionsOf_set]
        rfl
  · rw [if_neg hheader, if_neg hheader]
    cases hidx : find 61 text with
    | none =>
        rw [if_neg (find_none.mp hidx)]
        rfl
    | some idx =>
        have hmem : 61 ∈ text := by
          by_contra hnot
          cases (find_none.mpr hnot).symm.trans hidx
        obtain ⟨hname, hvalue⟩ := find_some hidx
        rw [if_pos hmem, hname, hvalue, reading_store]
        rfl

/-! ## All buffers -/

/-- The loop does what the buffers say. -/
theorem readLoop_reading (r : IniReader) {bufs : List Bytes} (hnul : ∀ buf ∈ bufs, 0 ∉ buf) :
    (readLoop r bufs).1 = (foldLines r.reading bufs).1 ∧
      (readLoop r bufs).2.reading = (foldLines r.reading bufs).2 := by
  induction bufs generalizing r with
  | nil => exact ⟨rfl, rfl⟩
  | cons buf bufs ih =>
      obtain ⟨hbuf, hbufs⟩ := List.forall_mem_cons.mp hnul
      have hstep := readBuf_reading r hbuf
      unfold readLoop foldLines
      rw [List.map_cons, Reading.obeyAll, hstep]
      cases readBuf r buf with
      | none => exact ⟨rfl, rfl⟩
      | some r' => exact ih r' hbufs

/-- Lines that say nothing, and those that are not read, can be left out. -/
theorem foldLines_said (s : Reading) (lines : List Bytes) :
    foldLines s lines = s.obeyAll (said lines) := by
  induction lines generalizing s with
  | nil => rfl
  | cons line lines ih =>
      unfold foldLines said
      rw [List.map_cons, Reading.obeyAll]
      cases entryOf line with
      | nothing => exact ih s
      | header name => exact ih _
      | badHeader => rfl
      | pair name value => exact ih _

theorem foldLines_append (s : Reading) (lines lines' : List Bytes) :
    foldLines s (lines ++ lines') =
      if (foldLines s lines).1 then foldLines (foldLines s lines).2 lines'
      else foldLines s lines := by
  induction lines generalizing s with
  | nil => rfl
  | cons line lines ih =>
      unfold foldLines at ih ⊢
      rw [List.cons_append, List.map_cons, List.map_cons, Reading.obeyAll, Reading.obeyAll]
      cases s.obey (entryOf line) with
      | none => rfl
      | some s' => exact ih s'

/-- Lines that say the same can stand for each other. -/
theorem foldLines_congr {lines lines' : List Bytes} (h : said lines = said lines') (s : Reading)
    (rest : List Bytes) : foldLines s (lines ++ rest) = foldLines s (lines' ++ rest) := by
  rw [foldLines_append, foldLines_append, foldLines_said s lines, h, ← foldLines_said]

theorem obeyAll_fails (s : Reading) (es : List Entry) :
    (s.obeyAll es).1 = false ↔ .badHeader ∈ es := by
  induction es generalizing s with
  | nil => simp [Reading.obeyAll]
  | cons e es ih =>
      unfold Reading.obeyAll
      cases e <;> simp [Reading.obey, ih]

theorem entryOf_bad (line : Bytes) :
    entryOf line = .badHeader ↔ (trim line).head? = some 91 ∧ 93 ∉ trim line := by
  unfold entryOf
  dsimp only
  generalize trim line = text
  by_cases hheader : text.head? = some 91
  · have hnot : ¬ (text = [] ∨ text.head? = some 35) := by
      rintro (rfl | hcomment)
      · cases hheader
      · cases hheader.symm.trans hcomment
    rw [if_neg hnot, if_pos hheader, and_iff_right hheader]
    split <;> simp [*]
  · rw [if_neg hheader]
    split
    · simp [hheader]
    · split <;> simp [hheader]

/-! ## Buffers and lines -/

/-- `fgets` on a text without a newline. -/
theorem fgets_plain {pre : Bytes} (hpre : newline ∉ pre) :
    fgets pre = (pre.take (bufSize - 1), pre.drop (bufSize - 1)) := by
  have hnone : (pre.take (bufSize - 1)).findIdx? (· = newline) = none :=
    find_none.mpr fun hmem => hpre (List.mem_of_mem_take hmem)
  unfold fgets
  dsimp only
  rw [hnone]
  dsimp only
  rw [List.length_take]
  by_cases hlen : bufSize - 1 ≤ pre.length
  · rw [Nat.min_eq_left hlen]
  · rw [Nat.min_eq_right (by omega), List.drop_length, List.drop_eq_nil_of_le (by omega)]

/-- `fgets` on a line that fits into the buffer, with its newline. -/
theorem fgets_short {pre : Bytes} (hpre : newline ∉ pre) (hlen : pre.length < bufSize - 1)
    (rest : Bytes) : fgets (pre ++ newline :: rest) = (pre ++ [newline], rest) := by
  obtain ⟨k, hk⟩ : ∃ k, bufSize - 1 - pre.length = k + 1 :=
    ⟨bufSize - 1 - pre.length - 1, by omega⟩
  have hpiece : (pre ++ newline :: rest).take (bufSize - 1) = pre ++ newline :: rest.take k := by
    rw [List.take_append, List.take_of_length_le (Nat.le_of_lt hlen), hk, List.take_succ_cons]
  have hidx : (pre ++ newline :: rest.take k).findIdx? (· = newline) = some pre.length :=
    findIdx?_first (decide_eq_of_notMem hpre) (decide_eq_true rfl)
  unfold fgets
  dsimp only
  rw [hpiece, hidx]
  dsimp only
  rw [List.take_length_add_append, List.take_succ_cons, List.take_zero, List.drop_length_add_append,
    List.drop_succ_cons, List.drop_zero]

/-- `fgets` on a line that does not. -/
theorem fgets_long {pre : Bytes} (hpre : newline ∉ pre) (hlen : bufSize - 1 ≤ pre.length)
    (rest : Bytes) :
    fgets (pre ++ newline :: rest) =
      (pre.take (bufSize - 1), pre.drop (bufSize - 1) ++ newline :: rest) := by
  have hpiece : (pre ++ newline :: rest).take (bufSize - 1) = pre.take (bufSize - 1) :=
    List.take_append_of_le_length hlen
  have hnone : (pre.take (bufSize - 1)).findIdx? (· = newline) = none :=
    find_none.mpr fun hmem => hpre (List.mem_of_mem_take hmem)
  unfold fgets
  dsimp only
  rw [hpiece, hnone]
  dsimp only
  rw [List.length_take, Nat.min_eq_left hlen, List.drop_append_of_le_length hlen]

/-- A line is read before anything behind it. -/
theorem fgetsBufs_line {pre : Bytes} (hpre : newline ∉ pre) (rest : Bytes) :
    fgetsBufs (pre ++ newline :: rest) = fgetsBufs (pre ++ [newline]) ++ fgetsBufs rest := by
  have hsome : ∀ (pre rest : Bytes), pre ++ newline :: rest ≠ [] := by simp
  induction hn : pre.length using Nat.strongRecOn generalizing pre with
  | ind n ih =>
      rw [fgetsBufs_eq (hsome pre rest), fgetsBufs_eq (hsome pre [])]
      by_cases hlen : pre.length < bufSize - 1
      · rw [fgets_short hpre hlen, fgets_short hpre hlen]
        dsimp only
        rw [fgetsBufs_nil]
        rfl
      · rw [fgets_long hpre (Nat.le_of_not_lt hlen), fgets_long hpre (Nat.le_of_not_lt hlen)]
        have hless : (pre.drop (bufSize - 1)).length < n := by
          rw [List.length_drop]
          have hbuf : bufSize = 1024 := rfl
          omega
        have hrest := ih _ hless (fun hmem => hpre (List.mem_of_mem_drop hmem)) rfl
        dsimp only
        rw [hrest]
        rfl

/-- A line that fits into the buffer is one buffer. -/
theorem faithful_of_short {pre : Bytes} (hpre : newline ∉ pre) (hlen : pre.length ≤ bufSize - 1) :
    Faithful pre := by
  unfold Faithful
  by_cases hempty : pre = []
  · rw [hempty, fgetsBufs_nil]
    rfl
  · rw [fgetsBufs_eq hempty, fgets_plain hpre, List.take_of_length_le hlen,
      List.drop_eq_nil_of_le hlen, fgetsBufs_nil]

/-! ## All lines -/

theorem notMem_of_mem_splitOn {line content : Bytes} (h : line ∈ content.splitOn newline) :
    newline ∉ line := by
  induction content generalizing line with
  | nil =>
      rw [List.splitOn_nil, List.mem_singleton] at h
      rw [h]
      exact List.not_mem_nil
  | cons b content ih =>
      rw [List.splitOn_cons_eq_if_modifyHead] at h
      split at h
      · rcases List.mem_cons.mp h with rfl | h
        · exact List.not_mem_nil
        · exact ih h
      · rename_i hb
        obtain ⟨head, rest, hsplit⟩ :=
          List.exists_cons_of_ne_nil (List.splitOn_ne_nil newline content)
        rw [hsplit, List.modifyHead_cons] at h
        rcases List.mem_cons.mp h with rfl | h
        · rw [List.mem_cons, not_or]
          refine ⟨fun heq => hb (beq_iff_eq.mpr heq.symm), ih (hsplit ▸ List.mem_cons_self)⟩
        · exact ih (hsplit ▸ List.mem_cons_of_mem _ h)

/-- The newline at the end of a line is trimmed. -/
theorem trim_newline (line : Bytes) : trim (line ++ [newline]) = trim line := by
  unfold trim
  rw [List.reverse_append]
  rfl

theorem entryOf_newline (line : Bytes) : entryOf (line ++ [newline]) = entryOf line := by
  unfold entryOf
  rw [trim_newline]

theorem said_cons (line : Bytes) {lines lines' : List Bytes} (h : said lines = said lines') :
    said (line :: lines) = said (line :: lines') := by
  unfold said
  rw [h]

/-- A newline that does not fit into the last buffer of its line is a buffer that says
nothing. -/
theorem said_newline {pre : Bytes} (hpre : newline ∉ pre) :
    said (fgetsBufs (pre ++ [newline])) = said (fgetsBufs pre) := by
  induction hn : pre.length using Nat.strongRecOn generalizing pre with
  | ind n ih =>
      by_cases hempty : pre = []
      · have hfgets : fgets [newline] = ([newline], []) := by decide
        rw [hempty, fgetsBufs_nil, List.nil_append, fgetsBufs_eq (List.cons_ne_nil _ _), hfgets,
          fgetsBufs_nil]
        rfl
      rw [fgetsBufs_eq (s := pre ++ [newline]) (by simp), fgetsBufs_eq hempty, fgets_plain hpre]
      by_cases hlen : pre.length < bufSize - 1
      · rw [fgets_short hpre hlen, List.take_of_length_le (Nat.le_of_lt hlen),
          List.drop_eq_nil_of_le (Nat.le_of_lt hlen), fgetsBufs_nil]
        unfold said
        rw [entryOf_newline]
      · rw [fgets_long hpre (Nat.le_of_not_lt hlen)]
        have hless : (pre.drop (bufSize - 1)).length < n := by
          rw [List.length_drop]
          have hbuf : bufSize = 1024 := rfl
          omega
        exact said_cons _ (ih _ hless (fun hmem => hpre (List.mem_of_mem_drop hmem)) rfl)

/-- The buffers of a file are those of its lines. -/
theorem foldLines_bufs {lines : List Bytes} (hlines : ∀ line ∈ lines, newline ∉ line)
    (s : Reading) :
    foldLines s (fgetsBufs ([newline].intercalate lines)) =
      foldLines s (lines.flatMap fgetsBufs) := by
  induction lines generalizing s with
  | nil =>
      rw [List.intercalate_nil, fgetsBufs_nil]
      rfl
  | cons line lines ih =>
      obtain ⟨hline, hrest⟩ := List.forall_mem_cons.mp hlines
      cases lines with
      | nil => simp
      | cons line' lines =>
          rw [List.intercalate_cons_cons, List.append_assoc, List.singleton_append,
            fgetsBufs_line hline, foldLines_congr (said_newline hline), List.flatMap_cons,
            foldLines_append, foldLines_append]
          split
          · exact ih hrest _
          · rfl

/-- Lines whose buffers say what they say. -/
theorem foldLines_faithful {lines : List Bytes} (h : ∀ line ∈ linesRead lines, Faithful line)
    (s : Reading) : foldLines s (lines.flatMap fgetsBufs) = foldLines s lines := by
  induction lines generalizing s with
  | nil => rfl
  | cons line lines ih =>
      unfold linesRead at h
      have hline : Faithful line := by
        split at h
        · exact h line List.mem_cons_self
        · exact h line List.mem_cons_self
      rw [List.flatMap_cons, foldLines_congr hline, List.singleton_append]
      unfold foldLines at ih ⊢
      rw [List.map_cons, List.map_cons, Reading.obeyAll, Reading.obeyAll]
      by_cases hbad : entryOf line = .badHeader
      · rw [hbad]
        rfl
      · rw [if_neg hbad] at h
        cases s.obey (entryOf line) with
        | none => rfl
        | some s' => exact ih (fun line hmem => h line (List.mem_cons_of_mem _ hmem)) s'

theorem mem_of_mem_linesRead {line : Bytes} {lines : List Bytes} (h : line ∈ linesRead lines) :
    line ∈ lines := by
  induction lines with
  | nil => exact h
  | cons line' lines ih =>
      unfold linesRead at h
      split at h
      · rw [List.mem_singleton.mp h]
        exact List.mem_cons_self
      · rcases List.mem_cons.mp h with rfl | h
        · exact List.mem_cons_self
        · exact List.mem_cons_of_mem _ (ih h)

theorem buf_nul {content buf : Bytes} (hnul : 0 ∉ content) (hbuf : buf ∈ fgetsBufs content) :
    0 ∉ buf := by
  intro hmem
  apply hnul
  rw [← fgetsBufs_flatten content]
  exact List.mem_flatten_of_mem hbuf hmem

/-- `read_ini` does what the buffers say. -/
theorem readIni_reading {content : Bytes} (hnul : 0 ∉ content) (data : SortedMap Bytes Dict) :
    (readIni (some content) data).1 =
        (foldLines ⟨sectionsOf data, []⟩ (fgetsBufs content)).1 ∧
      sectionsOf (readIni (some content) data).2 =
        (foldLines ⟨sectionsOf data, []⟩ (fgetsBufs content)).2.sections := by
  obtain ⟨hresult, hreading⟩ := readLoop_reading { data } fun buf hbuf => buf_nul hnul hbuf
  exact ⟨hresult, congrArg Reading.sections hreading⟩

/-- As long as the buffers of each line say together what the line says. -/
theorem lineByLine_of_faithful {content : Bytes} (hnul : 0 ∉ content)
    (h : ∀ line ∈ linesRead (content.splitOn newline), Faithful line)
    (data : SortedMap Bytes Dict) : LineByLine content data := by
  obtain ⟨hresult, hsections⟩ := readIni_reading hnul data
  have hbufs : ∀ s, foldLines s (fgetsBufs content) = foldLines s (content.splitOn newline) := by
    intro s
    have hplain : ∀ line ∈ content.splitOn newline, newline ∉ line :=
      fun _ hline => notMem_of_mem_splitOn hline
    have hlines := foldLines_bufs hplain s
    rw [List.intercalate_splitOn] at hlines
    rw [hlines, foldLines_faithful h]
  rw [hbufs] at hresult hsections
  refine ⟨hresult, hsections, ?_⟩
  rw [hresult]
  unfold foldLines
  rw [obeyAll_fails, List.mem_map]
  simp only [entryOf_bad]

/-- Files whose lines fit into the buffer are read line by line. -/
theorem lineByLine_of_short {content : Bytes} (hnul : 0 ∉ content)
    (h : ∀ line ∈ content.splitOn newline, line.length ≤ bufSize - 1)
    (data : SortedMap Bytes Dict) : LineByLine content data := by
  apply lineByLine_of_faithful hnul
  intro line hline
  have hmem := mem_of_mem_linesRead hline
  exact faithful_of_short (notMem_of_mem_splitOn hmem) (h line hmem)

end Registration

end Negatus
