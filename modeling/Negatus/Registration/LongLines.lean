import Mathlib.Data.List.Count
import Negatus.Foundations.FirstSplit
import Negatus.Registration.Ini

/-!
# Lines that do not fit into the buffer

A line that is cut is read as several lines. What these say together is only
then what the whole line says when they say it at once: an entry takes all that is in
front of its separator, so a second piece that says something makes the entry of the
whole line heavier than its own.
-/

namespace Negatus

open Foundations

namespace Registration

/-! ## What an entry weighs -/

/-- The characters that are not trimmed away. -/
def weight (s : Bytes) : Nat := s.countP fun c => !isBlank c

@[simp] theorem weight_append (s t : Bytes) : weight (s ++ t) = weight s + weight t :=
  List.countP_append

theorem weight_cons {c : UInt8} (hc : isBlank c = false) (s : Bytes) :
    weight (c :: s) = weight s + 1 := by
  unfold weight
  rw [List.countP_cons_of_pos (by rw [hc]; rfl)]

theorem weight_blank {s : Bytes} (h : ∀ c ∈ s, isBlank c = true) : weight s = 0 := by
  unfold weight
  rw [List.countP_eq_zero]
  intro c hc
  rw [h c hc]
  decide

/-- A text is what is left of it between blanks. -/
theorem exists_trim (s : Bytes) : ∃ p q, s = p ++ trim s ++ q ∧
    (∀ c ∈ p, isBlank c = true) ∧ ∀ c ∈ q, isBlank c = true := by
  refine ⟨((s.reverse.dropWhile isBlank).reverse).takeWhile isBlank,
    (s.reverse.takeWhile isBlank).reverse, ?_, ?_, ?_⟩
  · unfold trim
    dsimp only
    rw [List.takeWhile_append_dropWhile, ← List.reverse_append, List.takeWhile_append_dropWhile,
      List.reverse_reverse]
  · intro c hc
    exact List.mem_takeWhile_imp hc
  · intro c hc
    exact List.mem_takeWhile_imp (List.mem_reverse.mp hc)

@[simp] theorem weight_trim (s : Bytes) : weight (trim s) = weight s := by
  obtain ⟨p, q, hs, hp, hq⟩ := exists_trim s
  conv_rhs => rw [hs]
  rw [weight_append, weight_append, weight_blank hp, weight_blank hq]
  omega

section

variable {c : UInt8} {x y u v : Bytes}

theorem cut_first (hx : c ∉ x) :
    (x ++ c :: y).takeWhile (· ≠ c) = x ∧ ((x ++ c :: y).dropWhile (· ≠ c)).tail = y := by
  have hall := decide_ne_of_notMem hx
  rw [List.takeWhile_append_of_pos hall, List.dropWhile_append_of_pos hall]
  simp

theorem beforeLast_cut (hy : c ∉ y) : beforeLast c (x ++ c :: y) = x := by
  have hrev : (x ++ c :: y).reverse = y.reverse ++ c :: x.reverse := by simp
  unfold beforeLast
  rw [hrev, (cut_first fun hmem => hy (List.mem_reverse.mp hmem)).2, List.reverse_reverse]

end

theorem trim_of_header {line name : Bytes} (h : entryOf line = .header name) :
    (trim line).head? = some 91 ∧ 93 ∈ trim line ∧
      name = trim (beforeLast 93 (trim line)).tail := by
  unfold entryOf at h
  dsimp only at h
  split at h
  · cases h
  split at h
  · rename_i hhead
    split at h
    · rename_i hmem
      exact ⟨hhead, hmem, (Entry.header.inj h).symm⟩
    · cases h
  · split at h
    · cases h
    · cases h

theorem trim_of_pair {line name value : Bytes} (h : entryOf line = .pair name value) :
    61 ∈ trim line ∧ name = trim ((trim line).takeWhile (· ≠ 61)) ∧
      value = trim ((trim line).dropWhile (· ≠ 61)).tail := by
  unfold entryOf at h
  dsimp only at h
  split at h
  · cases h
  split at h
  · split at h
    · cases h
    · cases h
  · split at h
    · rename_i hmem
      obtain ⟨hname, hvalue⟩ := Entry.pair.inj h
      exact ⟨hmem, hname.symm, hvalue.symm⟩
    · cases h

/-- A header takes all that is in front of the last `]`. -/
theorem header_cut {line name : Bytes} (h : entryOf line = .header name) :
    ∃ x y, line = x ++ 93 :: y ∧ 93 ∉ y ∧ weight x = weight name + 1 := by
  obtain ⟨hhead, hmem, rfl⟩ := trim_of_header h
  obtain ⟨p, q, hline, hp, hq⟩ := exists_trim line
  obtain ⟨x, y, hcut, hy⟩ := exists_last hmem
  have hx : ∃ x', x = 91 :: x' := by
    cases x with
    | nil =>
        rw [hcut] at hhead
        exact absurd (Option.some.inj hhead) (by decide)
    | cons c x' =>
        rw [hcut] at hhead
        exact ⟨x', by rw [Option.some.inj hhead]⟩
  obtain ⟨x', rfl⟩ := hx
  refine ⟨p ++ 91 :: x', y ++ q, ?_, ?_, ?_⟩
  · conv_lhs => rw [hline, hcut]
    simp
  · rw [List.mem_append, not_or]
    exact ⟨hy, fun hmem => absurd (hq 93 hmem) (by decide)⟩
  · rw [hcut, beforeLast_cut hy, weight_trim, weight_append, weight_blank hp,
      weight_cons (by decide), List.tail_cons]
    omega

/-- A pair takes all that is in front of the first `=`, and all behind it. -/
theorem pair_cut {line name value : Bytes} (h : entryOf line = .pair name value) :
    ∃ x y, line = x ++ 61 :: y ∧ 61 ∉ x ∧ weight x = weight name ∧ weight y = weight value := by
  obtain ⟨hmem, rfl, rfl⟩ := trim_of_pair h
  obtain ⟨p, q, hline, hp, hq⟩ := exists_trim line
  obtain ⟨x, y, hcut, hx⟩ := List.eq_append_cons_of_mem hmem
  obtain ⟨hname, hvalue⟩ := cut_first (y := y) hx
  refine ⟨p ++ x, y ++ q, ?_, ?_, ?_, ?_⟩
  · conv_lhs => rw [hline, hcut]
    simp
  · rw [List.mem_append, not_or]
    exact ⟨fun hmem => absurd (hp 61 hmem) (by decide), hx⟩
  · rw [hcut, hname, weight_trim, weight_append, weight_blank hp, Nat.zero_add]
  · rw [hcut, hvalue, weight_trim, weight_append, weight_blank hq, Nat.add_zero]

theorem weight_ne_zero {line : Bytes} (h : entryOf line ≠ .nothing) : weight line ≠ 0 := by
  intro hzero
  have hblank : ∀ c ∈ line.reverse, isBlank c = true := by
    intro c hc
    have hnot := List.countP_eq_zero.mp hzero c (List.mem_reverse.mp hc)
    simpa using hnot
  have hempty : trim line = [] := by
    unfold trim
    rw [List.dropWhile_eq_nil_iff.mpr hblank]
    rfl
  apply h
  unfold entryOf
  rw [hempty]
  rfl

/-! ## A piece says less than its line -/

section

variable {line pre piece post : Bytes}

theorem header_lighter {name : Bytes} (hline : line = pre ++ piece ++ post)
    (h : entryOf line = .header name)
    (hpiece : entryOf piece = .header name) : weight pre = 0 := by
  obtain ⟨x, y, hx, hy, hweight⟩ := header_cut h
  obtain ⟨x', y', hx', -, hweight'⟩ := header_cut hpiece
  have happ : x ++ 93 :: y = (pre ++ x') ++ 93 :: (y' ++ post) := by
    rw [← hx, hline, hx']
    simp
  -- the last `]` of the line is not in front of the last one of the piece
  have hmore : weight (pre ++ x') ≤ weight x := by
    rcases append_cons_cases happ with rfl | ⟨w, -, rfl⟩ | ⟨w, rfl, -⟩
    · exact Nat.le_refl _
    · exact absurd (List.mem_append_right w List.mem_cons_self) hy
    · rw [weight_append (pre ++ x')]
      exact Nat.le_add_right _ _
  rw [weight_append] at hmore
  omega

theorem pair_lighter {name value : Bytes} (hline : line = pre ++ piece ++ post)
    (h : entryOf line = .pair name value)
    (hpiece : entryOf piece = .pair name value) : weight pre = 0 := by
  obtain ⟨x, y, hx, hnot, hname, hvalue⟩ := pair_cut h
  obtain ⟨x', y', hx', -, hname', hvalue'⟩ := pair_cut hpiece
  have happ : x ++ 61 :: y = (pre ++ x') ++ 61 :: (y' ++ post) := by
    rw [← hx, hline, hx']
    simp
  rcases append_cons_cases happ with rfl | ⟨w, -, rfl⟩ | ⟨w, rfl, -⟩
  · rw [weight_append] at hname
    omega
  · -- the piece and its `=` are in the value
    rw [weight_append, weight_cons (by decide), weight_append] at hvalue
    omega
  · exact absurd (List.mem_append_right _ List.mem_cons_self) hnot

end

/-! ## The last entry of some pieces -/

theorem said_cons_eq {line : Bytes} {lines : List Bytes} (h : entryOf line ≠ .nothing)
    (hbad : entryOf line ≠ .badHeader) : said (line :: lines) = entryOf line :: said lines := by
  rw [said]
  cases hentry : entryOf line with
  | nothing => exact absurd hentry h
  | badHeader => exact absurd hentry hbad
  | header name => rfl
  | pair name value => rfl

/-- The piece that says the last entry, and that there is something in front of it when
there are other entries. -/
theorem said_snoc {pieces : List Bytes} {es : List Entry} {e : Entry}
    (h : said pieces = es ++ [e]) :
    .badHeader ∉ es ∧ e ≠ .nothing ∧ ∃ pre piece post, pieces.flatten = pre ++ piece ++ post ∧
      entryOf piece = e ∧ (weight pre = 0 → es = []) := by
  induction pieces generalizing es with
  | nil => exact absurd h.symm (by simp [said])
  | cons line lines ih =>
      by_cases hnothing : entryOf line = .nothing
      · have hrest : said (line :: lines) = said lines := by
          rw [said, hnothing]
        obtain ⟨hbad, he, pre, piece, post, hflat, hpiece, hpre⟩ := ih (hrest ▸ h)
        refine ⟨hbad, he, line ++ pre, piece, post, by simp [hflat], hpiece, ?_⟩
        intro hzero
        rw [weight_append] at hzero
        exact hpre (by omega)
      -- behind a header without `]` nothing is read
      by_cases hbadHeader : entryOf line = .badHeader
      · have hlast : said (line :: lines) = [] ++ [.badHeader] := by
          rw [said, hbadHeader]
          rfl
        obtain ⟨rfl, he⟩ := List.append_inj' (hlast.symm.trans h) rfl
        cases he
        exact ⟨List.not_mem_nil, by simp, [], line, lines.flatten, rfl, hbadHeader, fun _ => rfl⟩
      rw [said_cons_eq hnothing hbadHeader] at h
      cases es with
      | nil =>
          rw [List.nil_append, List.cons.injEq] at h
          exact ⟨List.not_mem_nil, h.1 ▸ hnothing, [], line, lines.flatten, rfl, h.1, fun _ => rfl⟩
      | cons e' es =>
          rw [List.cons_append, List.cons.injEq] at h
          obtain ⟨hbad, he, pre, piece, post, hflat, hpiece, -⟩ := ih h.2
          refine ⟨?_, he, line ++ pre, piece, post, by simp [hflat], hpiece, ?_⟩
          · rw [List.mem_cons, not_or]
            exact ⟨fun heq => hbadHeader (h.1.trans heq.symm), hbad⟩
          · intro hzero
            rw [weight_append] at hzero
            exact absurd (Nat.eq_zero_of_add_eq_zero hzero).1 (weight_ne_zero hnothing)

theorem obeyAll_snoc (s : Reading) {es : List Entry} (hbad : .badHeader ∉ es) (e : Entry) :
    s.obeyAll (es ++ [e]) = (s.obeyAll es).2.obeyAll [e] := by
  induction es generalizing s with
  | nil => rfl
  | cons e' es ih =>
      rw [List.mem_cons, not_or] at hbad
      rw [List.cons_append, Reading.obeyAll, Reading.obeyAll]
      cases e' with
      | badHeader => exact absurd rfl hbad.1
      | nothing => exact ih _ hbad.2
      | header name => exact ih _ hbad.2
      | pair name value => exact ih _ hbad.2

theorem nothing_notMem_said (pieces : List Bytes) : .nothing ∉ said pieces := by
  induction pieces with
  | nil => exact List.not_mem_nil
  | cons line lines ih =>
      rw [said]
      cases entryOf line with
      | nothing => exact ih
      | badHeader => simp
      | header name => simpa using ih
      | pair name value => simpa using ih

/-- Nothing has been read. -/
def Reading.start : Reading := ⟨fun _ => none, []⟩

theorem header_sections (s : Reading) (name : Bytes) :
    (s.obeyAll [.header name]).2.sections =
      Function.update s.sections name (some fun _ => none) :=
  rfl

theorem pair_sections (s : Reading) (name value : Bytes) :
    (s.obeyAll [.pair name value]).2.sections =
      Function.update s.sections s.current
        (some (Function.update ((s.sections s.current).getD fun _ => none) name (some value))) :=
  rfl

/-- The sections show that something has been read. -/
theorem obeyAll_shows (s : Reading) {es : List Entry} (hes : es ≠ []) (hbad : .badHeader ∉ es)
    (hnothing : .nothing ∉ es) : (s.obeyAll es).2.sections ≠ Reading.start.sections := by
  obtain ⟨es, e, rfl⟩ := (List.eq_nil_or_concat es).resolve_left hes
  rw [List.concat_eq_append, List.mem_append, not_or, List.mem_singleton] at hbad hnothing
  rw [List.concat_eq_append, obeyAll_snoc s hbad.1]
  intro hsections
  cases e with
  | nothing => exact hnothing.2 rfl
  | badHeader => exact hbad.2 rfl
  | header name =>
      have hname := congrFun hsections name
      rw [header_sections, Function.update_self] at hname
      cases hname
  | pair name value =>
      have hname := congrFun hsections (s.obeyAll es).2.current
      rw [pair_sections, Function.update_self] at hname
      cases hname

/-- A new section in what has been read. -/
theorem last_header {name : Bytes} {e : Entry}
    (hname : (Reading.start.obeyAll [e]).2.sections name = some fun _ => none)
    (hresult : (Reading.start.obeyAll [e]).1 = true) : e = .header name := by
  cases e with
  | nothing => cases hname
  | badHeader => cases hresult
  | header name' =>
      rw [header_sections, Function.update_apply] at hname
      split at hname
      · rename_i heq
        rw [heq]
      · cases hname
  | pair name' value' =>
      rw [pair_sections, Function.update_apply] at hname
      split at hname
      · have hvalue := congrFun (Option.some.inj hname) name'
        rw [Function.update_self] at hvalue
        cases hvalue
      · cases hname

/-- A pair in what has been read. -/
theorem last_pair {current name value : Bytes} {section_ : Bytes → Option Bytes} {e : Entry}
    (hname : (Reading.start.obeyAll [e]).2.sections current = some section_)
    (hvalue : section_ name = some value) (hresult : (Reading.start.obeyAll [e]).1 = true) :
    e = .pair name value := by
  cases e with
  | nothing => cases hname
  | badHeader => cases hresult
  | header name' =>
      rw [header_sections, Function.update_apply] at hname
      split at hname
      · rw [← Option.some.inj hname] at hvalue
        cases hvalue
      · cases hname
  | pair name' value' =>
      rw [pair_sections, Function.update_apply] at hname
      split at hname
      · rw [← Option.some.inj hname, Function.update_apply] at hvalue
        split at hvalue
        · rename_i heq
          rw [heq, Option.some.inj hvalue]
        · cases hvalue
      · cases hname

/-- The sections show what the last entry was. -/
theorem last_of_shows (s : Reading) {e e' : Entry} (he : e ≠ .nothing)
    (hresult : (s.obeyAll [e]).1 = (Reading.start.obeyAll [e']).1)
    (hsections : (s.obeyAll [e]).2.sections = (Reading.start.obeyAll [e']).2.sections) :
    e = e' := by
  cases e with
  | nothing => exact absurd rfl he
  | badHeader =>
      cases e' with
      | badHeader => rfl
      | nothing => cases hresult
      | header name' => cases hresult
      | pair name' value' => cases hresult
  | header name =>
      have hsection := congrFun hsections name
      rw [header_sections, Function.update_self] at hsection
      exact (last_header hsection.symm hresult.symm).symm
  | pair name value =>
      have hsection := congrFun hsections s.current
      rw [pair_sections, Function.update_self] at hsection
      exact (last_pair hsection.symm (Function.update_self ..) hresult.symm).symm

/-! ## What the pieces of a line say -/

/-- Pieces that come to the same as their line say the same. -/
theorem said_of_fold {pieces : List Bytes}
    (hresult : (foldLines .start pieces).1 = (foldLines .start [pieces.flatten]).1)
    (hsections : (foldLines .start pieces).2.sections =
      (foldLines .start [pieces.flatten]).2.sections) : said pieces = said [pieces.flatten] := by
  have hnothing := nothing_notMem_said pieces
  rw [foldLines_said .start pieces] at hresult hsections
  change _ = (Reading.start.obeyAll [entryOf pieces.flatten]).1 at hresult
  change _ = (Reading.start.obeyAll [entryOf pieces.flatten]).2.sections at hsections
  rcases List.eq_nil_or_concat (said pieces) with hnil | ⟨es, e, hsnoc⟩
  · rw [hnil] at hresult hsections ⊢
    -- the pieces say nothing; a line that said something would show
    have hline : entryOf pieces.flatten = .nothing := by
      by_contra hline
      by_cases hbad : entryOf pieces.flatten = .badHeader
      · rw [hbad] at hresult
        cases hresult
      · exact obeyAll_shows .start (List.cons_ne_nil _ []) (by simpa using Ne.symm hbad)
          (by simpa using Ne.symm hline) hsections.symm
    rw [said, hline]
    rfl
  · rw [List.concat_eq_append] at hsnoc
    -- the last entry of the pieces shows, and is the one of the line; the piece that says it has
    -- the weight of the line, so no other piece says anything
    obtain ⟨hbad, he, pre, piece, post, hflat, hpiece, hpre⟩ := said_snoc hsnoc
    rw [hsnoc, List.mem_append, not_or] at hnothing
    rw [hsnoc, obeyAll_snoc _ hbad] at hresult hsections
    have hsame : e = entryOf pieces.flatten := last_of_shows _ he hresult hsections
    have hes : es = [] := by
      cases e with
      | nothing => exact absurd rfl he
      | badHeader =>
          by_contra hes
          rw [← hsame] at hsections
          exact obeyAll_shows .start hes hbad hnothing.1 hsections
      | header name => exact hpre (header_lighter hflat hsame.symm hpiece)
      | pair name value => exact hpre (pair_lighter hflat hsame.symm hpiece)
    rw [hsnoc, hes, said, ← hsame]
    cases e with
    | nothing => exact absurd rfl he
    | badHeader => rfl
    | header name => rfl
    | pair name value => rfl

/-- A file of one line is read right only if its pieces say what it says. -/
theorem faithful_of_lineByLine {line : Bytes} (hnul : 0 ∉ line) (hline : newline ∉ line)
    (h : LineByLine line .empty) : Faithful line := by
  obtain ⟨hresult, hsections⟩ := readIni_reading hnul .empty
  have hone : line.splitOn newline = [line] := List.splitOn_eq_singleton hline
  rw [h.result, hone] at hresult
  rw [h.sections, hone] at hsections
  have hsaid := @said_of_fold (fgetsBufs line)
  rw [fgetsBufs_flatten] at hsaid
  exact hsaid hresult.symm hsections.symm

/-- **When `read_ini` works on whole lines**: as long as the pieces of each line say
together what the line says. For a file of one line this is what it takes; a longer file
may hide a piece that was misread, under a later section or pair of the same name. -/
theorem read_ini_line_by_line (content : Bytes) (hnul : 0 ∉ content) :
    ((∀ line ∈ linesRead (content.splitOn newline), Faithful line) →
      ∀ data, LineByLine content data) ∧
    (newline ∉ content → LineByLine content .empty → Faithful content) :=
  ⟨fun h data => lineByLine_of_faithful hnul h data, faithful_of_lineByLine hnul⟩

/-- A file of two lines. -/
theorem read_ini_line_by_line_query : LineByLine (str "[agent]\nNAME = SUTAgent") .empty := by
  refine (read_ini_line_by_line (str "[agent]\nNAME = SUTAgent") (by decide)).1 ?_ .empty
  intro line hline
  have hmem := mem_of_mem_linesRead hline
  apply faithful_of_short (notMem_of_mem_splitOn hmem)
  have hlen : (str "[agent]\nNAME = SUTAgent").length ≤ bufSize - 1 := by decide
  exact Nat.le_trans (splitOnP_length hmem) hlen

/-- A comment of 1023 bytes, and the text behind it. -/
def longComment : Bytes := 35 :: List.replicate 1022 120 ++ str "[s]"

/-- Text in a comment becomes a section. -/
theorem read_ini_comment_section : 0 ∉ longComment ∧ ¬ LineByLine longComment .empty := by
  have hplain : newline ∉ longComment := by decide +kernel
  have hnul : 0 ∉ longComment := by decide +kernel
  have hfirst : fgets longComment = (longComment.take 1023, str "[s]") := by
    rw [fgets_plain hplain]
    decide +kernel
  have hsecond : fgets (str "[s]") = (str "[s]", []) := by decide
  have hpieces : fgetsBufs longComment = [longComment.take 1023, str "[s]"] := by
    rw [fgetsBufs_eq (by decide), hfirst, fgetsBufs_eq (by decide), hsecond, fgetsBufs_nil]
  have hsaid : said [longComment.take 1023, str "[s]"] = [.header (str "s")] := by
    decide +kernel
  have hline : said [longComment] = [] := by decide +kernel
  refine ⟨hnul, fun h => ?_⟩
  have hfaithful := faithful_of_lineByLine hnul hplain h
  unfold Faithful at hfaithful
  rw [hpieces, hsaid, hline] at hfaithful
  cases hfaithful

end Registration

end Negatus
