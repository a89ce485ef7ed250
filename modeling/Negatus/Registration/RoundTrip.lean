import Negatus.Registration.LongLines

/-!
# Files that say what is in a map

Whatever the file, `read_ini` returns maps of a certain kind only: names are trimmed, a key
has no `=`, and a section or a pair fits into the buffer. Each map of this kind is what
`read_ini` returns for the file that is written down from it.
-/

namespace Negatus

open Foundations

namespace Registration

/-- A text on a line of its own: there is nothing to trim. -/
structure IsField (s : Bytes) : Prop where
  trimmed : trim s = s
  oneLine : newline ∉ s
  noNul : 0 ∉ s

structure IsTitle (name : Bytes) : Prop extends IsField name where
  fits : name.length + 2 ≤ bufSize - 1

structure IsPair (p : Bytes × Bytes) : Prop where
  name : IsField p.1
  value : IsField p.2
  noEquals : 61 ∉ p.1
  noComment : p.1.head? ≠ some 35
  noHeader : p.1.head? ≠ some 91
  fits : p.1.length + p.2.length + 1 ≤ bufSize - 1

/-- What a file can say. -/
structure Writable (data : SortedMap Bytes Dict) : Prop where
  titles : ∀ s ∈ data.pairs, IsTitle s.1
  pairs : ∀ s ∈ data.pairs, ∀ p ∈ s.2.pairs, IsPair p

def headerLine (name : Bytes) : Bytes := 91 :: name ++ [93]

def pairLine (p : Bytes × Bytes) : Bytes := p.1 ++ 61 :: p.2

def sectionLines (s : Bytes × Dict) : List Bytes := headerLine s.1 :: s.2.pairs.map pairLine

def iniLines (data : SortedMap Bytes Dict) : List Bytes := data.pairs.flatMap sectionLines

/-- The file that says what is in `data`. -/
def iniText (data : SortedMap Bytes Dict) : Bytes := [newline].intercalate (iniLines data)

/-! ## Trimming -/

theorem head_dropWhile {p : UInt8 → Bool} {s : Bytes} {b : UInt8}
    (h : (s.dropWhile p).head? = some b) : p b = false := by
  have hhead := List.head?_dropWhile_not p s
  rw [h] at hhead
  exact hhead

theorem dropWhile_of_head {p : UInt8 → Bool} {s : Bytes} (h : ∀ b, s.head? = some b → p b = false) :
    s.dropWhile p = s := by
  cases s with
  | nil => rfl
  | cons b s => exact List.dropWhile_cons_of_neg (by rw [h b rfl]; exact Bool.false_ne_true)

theorem trim_head {s : Bytes} {b : UInt8} (h : (trim s).head? = some b) : isBlank b = false :=
  head_dropWhile h

theorem trim_last {s : Bytes} {b : UInt8} (h : (trim s).getLast? = some b) : isBlank b = false := by
  obtain ⟨front, hfront⟩ : trim s <:+ (s.reverse.dropWhile isBlank).reverse :=
    List.dropWhile_suffix _
  have hlast : (s.reverse.dropWhile isBlank).head? = some b := by
    rw [← List.getLast?_reverse, ← hfront, List.getLast?_append, h]
    rfl
  exact head_dropWhile hlast

theorem trim_of_ends {s : Bytes} (hhead : ∀ b, s.head? = some b → isBlank b = false)
    (hlast : ∀ b, s.getLast? = some b → isBlank b = false) : trim s = s := by
  have hback : s.reverse.dropWhile isBlank = s.reverse :=
    dropWhile_of_head fun b hb => hlast b (by rwa [List.head?_reverse] at hb)
  unfold trim
  rw [hback, List.reverse_reverse, dropWhile_of_head hhead]

theorem trim_trim (s : Bytes) : trim (trim s) = trim s :=
  trim_of_ends (fun _ => trim_head) fun _ => trim_last

theorem mem_of_mem_trim {s : Bytes} {b : UInt8} (h : b ∈ trim s) : b ∈ s := by
  obtain ⟨p, q, hs, -, -⟩ := exists_trim s
  rw [hs]
  exact List.mem_append_left _ (List.mem_append_right _ h)

/-- What is trimmed out of a text is a field, if the text is on one line. -/
theorem isField_trim {s : Bytes} (hline : newline ∉ s) (hnul : 0 ∉ s) : IsField (trim s) where
  trimmed := trim_trim s
  oneLine hmem := hline (mem_of_mem_trim hmem)
  noNul hmem := hnul (mem_of_mem_trim hmem)

/-! ## What is read -/

/-- A buffer of `fgets`, up to its NUL. -/
structure IsLine (line : Bytes) : Prop where
  oneLine : newline ∉ trim line
  noNul : 0 ∉ trim line
  fits : (trim line).length ≤ bufSize - 1

theorem IsLine.title {line name : Bytes} (hline : IsLine line) (h : entryOf line = .header name) :
    IsTitle name := by
  obtain ⟨hhead, hmem, rfl⟩ := trim_of_header h
  obtain ⟨x, y, hcut, hy⟩ := exists_last hmem
  rw [hcut, beforeLast_cut hy]
  have hpart : ∀ b ∈ x.tail, b ∈ trim line := by
    intro b hb
    rw [hcut]
    exact List.mem_append_left _ (List.mem_of_mem_tail hb)
  have hlen := hline.fits
  rw [hcut] at hhead hlen
  refine ⟨isField_trim (fun hb => hline.oneLine (hpart _ hb)) fun hb => hline.noNul (hpart _ hb), ?_⟩
  have htrim := trim_length_le x.tail
  cases x with
  | nil => cases hhead
  | cons b x =>
      rw [List.length_append, List.length_cons, List.length_cons] at hlen
      rw [List.tail_cons] at htrim ⊢
      omega

theorem pair_head {line name value : Bytes} (h : entryOf line = .pair name value) :
    (trim line).head? ≠ some 35 ∧ (trim line).head? ≠ some 91 := by
  unfold entryOf at h
  dsimp only at h
  split at h
  · cases h
  rename_i hnot
  split at h
  · split at h
    · cases h
    · cases h
  · rename_i hheader
    exact ⟨fun hcomment => hnot (.inr hcomment), hheader⟩

theorem IsLine.pair {line name value : Bytes} (hline : IsLine line)
    (h : entryOf line = .pair name value) : IsPair (name, value) := by
  obtain ⟨hcomment, hheader⟩ := pair_head h
  obtain ⟨hmem, rfl, rfl⟩ := trim_of_pair h
  obtain ⟨x, y, hcut, hx⟩ := List.eq_append_cons_of_mem hmem
  obtain ⟨hname, hvalue⟩ := cut_first (y := y) hx
  have hleft : ∀ b ∈ x, b ∈ trim line := fun b hb => hcut ▸ List.mem_append_left _ hb
  have hright : ∀ b ∈ y, b ∈ trim line := fun b hb =>
    hcut ▸ List.mem_append_right _ (List.mem_cons_of_mem _ hb)
  have hlen := hline.fits
  -- the key begins where the line begins
  have hbegins : ∀ b, (trim x).head? = some b → (trim line).head? = some b := by
    intro b hb
    obtain ⟨p, q, hblank, hp, -⟩ := exists_trim x
    cases p with
    | nil =>
        rw [hcut, hblank, List.nil_append, List.append_assoc, List.head?_append, hb]
        rfl
    | cons c p =>
        have hhead : (trim line).head? = some c := by
          rw [hcut, hblank]
          rfl
        cases (trim_head hhead).symm.trans (hp c List.mem_cons_self)
  rw [hcut, List.length_append, List.length_cons] at hlen
  rw [hcut, hname, hvalue]
  have hkey := trim_length_le x
  have hrest := trim_length_le y
  refine ⟨isField_trim (fun hb => hline.oneLine (hleft _ hb)) fun hb => hline.noNul (hleft _ hb),
    isField_trim (fun hb => hline.oneLine (hright _ hb)) fun hb => hline.noNul (hright _ hb),
    fun hb => hx (mem_of_mem_trim hb), fun hb => hcomment (hbegins _ hb),
    fun hb => hheader (hbegins _ hb), ?_⟩
  dsimp only
  omega

/-- What `fgets` returns is one line, with its newline or without. -/
theorem fgets_line (s : Bytes) :
    ∃ pre, newline ∉ pre ∧ ((fgets s).1 = pre ∨ (fgets s).1 = pre ++ [newline]) := by
  by_cases hmem : newline ∈ s
  · obtain ⟨pre, rest, rfl, hpre⟩ := List.eq_append_cons_of_mem hmem
    by_cases hlen : pre.length < bufSize - 1
    · exact ⟨pre, hpre, .inr (by rw [fgets_short hpre hlen])⟩
    · refine ⟨pre.take (bufSize - 1), fun h => hpre (List.mem_of_mem_take h), .inl ?_⟩
      rw [fgets_long hpre (Nat.le_of_not_lt hlen)]
  · refine ⟨s.take (bufSize - 1), fun h => hmem (List.mem_of_mem_take h), .inl ?_⟩
    rw [fgets_plain hmem]

theorem isLine_fgets (s : Bytes) : IsLine (cstr (fgets s).1) where
  oneLine hmem := by
    obtain ⟨pre, hpre, hbuf | hbuf⟩ := fgets_line s
    · rw [hbuf] at hmem
      exact hpre (List.takeWhile_subset _ (mem_of_mem_trim hmem))
    · rw [hbuf] at hmem
      by_cases hnul : (0 : UInt8) ∈ pre
      · obtain ⟨t, rest, rfl, ht⟩ := List.eq_append_cons_of_mem hnul
        have hcut : cstr (t ++ 0 :: rest ++ [newline]) = t := by
          unfold cstr
          rw [List.append_assoc, List.cons_append]
          exact (cut_first ht).1
        rw [hcut] at hmem
        exact hpre (List.mem_append_left _ (mem_of_mem_trim hmem))
      · have hwhole : (0 : UInt8) ∉ pre ++ [newline] := by
          rw [List.mem_append, not_or]
          exact ⟨hnul, by decide⟩
        rw [cstr_of_notMem hwhole, trim_newline] at hmem
        exact hpre (mem_of_mem_trim hmem)
  noNul hmem := by
    have hne := List.mem_takeWhile_imp (mem_of_mem_trim hmem)
    simp at hne
  fits := le_trans (trim_length_le _)
    (le_trans (List.takeWhile_sublist _).length_le (fgets_length s))

/-- A buffer is passed over, begins a section or stores a pair. -/
theorem readBuf_cases {r r' : IniReader} {buf : Bytes} (h : readBuf r buf = some r') :
    r' = r ∨
      (∃ name, entryOf (cstr buf) = .header name ∧ r' = ⟨r.data.set name .empty, name⟩) ∨
      ∃ name value, entryOf (cstr buf) = .pair name value ∧ r' = r.store name value := by
  unfold readBuf at h
  unfold entryOf
  dsimp only at h ⊢
  generalize trim (cstr buf) = text at h ⊢
  by_cases hempty : text = []
  · rw [if_pos hempty] at h
    exact .inl (Option.some.inj h).symm
  by_cases hcomment : text.head? = some 35
  · rw [if_neg hempty, if_pos hcomment] at h
    exact .inl (Option.some.inj h).symm
  rw [if_neg hempty, if_neg hcomment] at h
  rw [if_neg (not_or.mpr ⟨hempty, hcomment⟩)]
  by_cases hheader : text.head? = some 91
  · rw [if_pos hheader] at h ⊢
    cases hidx : findLastOf 93 text with
    | none =>
        rw [hidx] at h
        cases h
    | some idx =>
        rw [hidx] at h
        have hmem : 93 ∈ text := by
          by_contra hnot
          cases (findLastOf_none.mpr hnot).symm.trans hidx
        have hname : (beforeLast 93 text).tail = substr text 1 (idx - 1) := by
          rw [findLastOf_some hidx]
          unfold substr
          rw [← List.drop_one, List.drop_take]
        refine .inr (.inl ⟨_, if_pos hmem, ?_⟩)
        rw [hname]
        exact (Option.some.inj h).symm
  · rw [if_neg hheader] at h ⊢
    cases hidx : find 61 text with
    | none =>
        rw [hidx] at h
        exact .inl (Option.some.inj h).symm
    | some idx =>
        rw [hidx] at h
        have hmem : 61 ∈ text := by
          by_contra hnot
          cases (find_none.mpr hnot).symm.trans hidx
        obtain ⟨hname, hvalue⟩ := find_some hidx
        refine .inr (.inr ⟨_, _, if_pos hmem, ?_⟩)
        rw [hname, hvalue]
        exact (Option.some.inj h).symm

theorem mem_set {β : Type} {m : SortedMap Bytes β} {k : Bytes} {v : β} {p : Bytes × β}
    (h : p ∈ (m.set k v).pairs) : p = (k, v) ∨ p ∈ m.pairs :=
  SortedMap.mem_insertPair h

/-- A reader that has read nothing but what can be written. -/
structure IniReader.Sound (r : IniReader) : Prop where
  data : Writable r.data
  c_section : IsTitle r.c_section

theorem IniReader.Sound.readBuf {r r' : IniReader} (h : r.Sound) {buf : Bytes}
    (hline : IsLine (cstr buf)) (hread : readBuf r buf = some r') : r'.Sound := by
  rcases readBuf_cases hread with rfl | ⟨name, hentry, rfl⟩ | ⟨name, value, hentry, rfl⟩
  · exact h
  · have htitle := hline.title hentry
    refine ⟨⟨fun s hs => ?_, fun s hs p hp => ?_⟩, htitle⟩
    · rcases mem_set hs with rfl | hs
      · exact htitle
      · exact h.data.titles s hs
    · rcases mem_set hs with rfl | hs
      · cases hp
      · exact h.data.pairs s hs p hp
  · refine ⟨⟨fun s hs => ?_, fun s hs p hp => ?_⟩, h.c_section⟩
    · rcases mem_set hs with rfl | hs
      · exact h.c_section
      · exact h.data.titles s hs
    · rcases mem_set hs with rfl | hs
      · rcases mem_set hp with rfl | hp
        · exact hline.pair hentry
        · cases hget : r.data.get? r.c_section with
          | none =>
              rw [hget] at hp
              cases hp
          | some section_ =>
              rw [hget] at hp
              exact h.data.pairs _ (SortedMap.get?_eq_some.mp hget) p hp
      · exact h.data.pairs s hs p hp

theorem mem_fgetsBufs {buf s : Bytes} (h : buf ∈ fgetsBufs s) : ∃ t, buf = (fgets t).1 := by
  induction hn : s.length using Nat.strongRecOn generalizing s with
  | ind n ih =>
      by_cases hs : s = []
      · rw [hs, fgetsBufs_nil] at h
        cases h
      · rw [fgetsBufs_eq hs] at h
        rcases List.mem_cons.mp h with rfl | h
        · exact ⟨s, rfl⟩
        · exact ih _ (hn ▸ fgets_shorter hs) h rfl

theorem IniReader.Sound.readLoop {r : IniReader} (h : r.Sound) {bufs : List Bytes}
    (hbufs : ∀ buf ∈ bufs, IsLine (cstr buf)) : (readLoop r bufs).2.Sound := by
  induction bufs generalizing r with
  | nil => exact h
  | cons buf bufs ih =>
      obtain ⟨hbuf, hbufs⟩ := List.forall_mem_cons.mp hbufs
      unfold Registration.readLoop
      cases hread : Registration.readBuf r buf with
      | none => exact h
      | some r' => exact ih (h.readBuf hbuf hread) hbufs

/-- Whatever the file, what is read can be written. -/
theorem readIni_writable {data : SortedMap Bytes Dict} (h : Writable data) (file : Option Bytes) :
    Writable (readIni file data).2 := by
  cases file with
  | none => exact h
  | some content =>
      have htitle : IsTitle [] := ⟨⟨rfl, List.not_mem_nil, List.not_mem_nil⟩, by decide⟩
      have hsound : IniReader.Sound { data } := ⟨h, htitle⟩
      refine (hsound.readLoop fun buf hbuf => ?_).data
      obtain ⟨t, rfl⟩ := mem_fgetsBufs hbuf
      exact isLine_fgets t

/-! ## What is written -/

theorem IsTitle.entryOf {name : Bytes} (h : IsTitle name) : entryOf (headerLine name) = .header name := by
  have htrim : trim (headerLine name) = 91 :: name ++ [93] := by
    refine trim_of_ends (fun b hb => ?_) fun b hb => ?_
    · cases hb
      decide
    · rw [show headerLine name = 91 :: name ++ [93] from rfl, List.getLast?_concat] at hb
      cases hb
      decide
  have hname : beforeLast 93 (91 :: name ++ [93]) = 91 :: name := beforeLast_cut List.not_mem_nil
  unfold Registration.entryOf
  have hhead : List.head? (91 :: name ++ [93]) = some 91 := rfl
  rw [htrim]
  dsimp only
  rw [hname, List.tail_cons, h.trimmed, if_neg (by simp), if_pos hhead, if_pos (by simp)]

theorem IsPair.entryOf {p : Bytes × Bytes} (h : IsPair p) : entryOf (pairLine p) = .pair p.1 p.2 := by
  obtain ⟨name, value⟩ := p
  obtain ⟨hname, hvalue, hequals, hcomment, hheader, -⟩ := h
  dsimp only at hname hvalue hequals hcomment hheader ⊢
  have hhead : (pairLine (name, value)).head? = if name = [] then some 61 else name.head? := by
    cases name <;> rfl
  have htrim : trim (pairLine (name, value)) = name ++ 61 :: value := by
    refine trim_of_ends (fun b hb => ?_) fun b hb => ?_
    · rw [hhead] at hb
      split at hb
      · cases hb
        decide
      · exact trim_head (hname.trimmed.symm ▸ hb)
    · have hlast : (pairLine (name, value)).getLast? = (61 :: value).getLast? := by
        unfold pairLine
        rw [List.getLast?_append_of_ne_nil _ (List.cons_ne_nil _ _)]
      rw [hlast] at hb
      cases hlast' : value.getLast? with
      | none =>
          rw [List.getLast?_eq_none_iff.mp hlast'] at hb
          cases hb
          decide
      | some c =>
          rw [List.getLast?_cons, hlast'] at hb
          cases hb
          exact trim_last (hvalue.trimmed.symm ▸ hlast')
  have hnone : ¬ (name ++ 61 :: value = [] ∨ (name ++ 61 :: value).head? = some 35) := by
    rw [show name ++ 61 :: value = pairLine (name, value) from rfl, hhead]
    rintro (hnil | hsharp)
    · exact absurd hnil (by simp [pairLine])
    · split at hsharp
      · cases hsharp
      · exact hcomment hsharp
  have hno : (name ++ 61 :: value).head? ≠ some 91 := by
    rw [show name ++ 61 :: value = pairLine (name, value) from rfl, hhead]
    split
    · decide
    · exact hheader
  obtain ⟨hkey, hrest⟩ := cut_first (y := value) hequals
  unfold Registration.entryOf
  rw [htrim]
  dsimp only
  rw [hkey, hrest, hname.trimmed, hvalue.trimmed, if_neg hnone, if_neg hno, if_pos (by simp)]

theorem foldLines_cons (s : Reading) (line : Bytes) (lines : List Bytes) :
    foldLines s (line :: lines) = s.obeyAll (entryOf line :: lines.map entryOf) := rfl

/-- The pairs of a section, read one after the other. -/
theorem foldLines_pairs {s : Reading} {f : Bytes → Option Bytes}
    (hcurrent : s.sections s.current = some f) {ps : List (Bytes × Bytes)}
    (hps : ∀ p ∈ ps, IsPair p) (hsorted : ps.Pairwise fun a b => a.1 < b.1) :
    foldLines s (ps.map pairLine) =
      (true, { s with
        sections := Function.update s.sections s.current
          (some fun x => (ps.lookup x).or (f x)) }) := by
  induction ps generalizing s f with
  | nil =>
      have hsame : Function.update s.sections s.current (some f) = s.sections := by
        rw [← hcurrent]
        exact Function.update_eq_self _ _
      show (true, s) = (true, { s with sections := Function.update s.sections s.current (some f) })
      rw [hsame]
  | cons p ps ih =>
      obtain ⟨hp, hps⟩ := List.forall_mem_cons.mp hps
      obtain ⟨habove, hsorted⟩ := List.pairwise_cons.mp hsorted
      have hstep : s.obey (entryOf (pairLine p)) =
          some { s with
            sections := Function.update s.sections s.current
              (some (Function.update f p.1 (some p.2))) } := by
        rw [hp.entryOf, Reading.obey, hcurrent]
        rfl
      have hfound : (fun x => (ps.lookup x).or (Function.update f p.1 (some p.2) x)) =
          fun x => ((p :: ps).lookup x).or (f x) := by
        funext x
        rw [Function.update_apply, SortedMap.lookup_cons]
        by_cases hx : x = p.1
        · rw [if_pos hx, if_pos hx, hx, SortedMap.lookup_above habove]
          rfl
        · rw [if_neg hx, if_neg hx]
      let stored : Reading := ⟨Function.update s.sections s.current
        (some (Function.update f p.1 (some p.2))), s.current⟩
      have hrest := ih (s := stored) (Function.update_self _ _ _) hps hsorted
      rw [List.map_cons, foldLines_cons, Reading.obeyAll, hstep]
      refine hrest.trans ?_
      simp only [stored, Function.update_idem, hfound]

/-- The sections, read one after the other. -/
theorem foldLines_sections {s : Reading} {secs : List (Bytes × Dict)}
    (htitles : ∀ p ∈ secs, IsTitle p.1) (hpairs : ∀ p ∈ secs, ∀ q ∈ p.2.pairs, IsPair q)
    (hsorted : secs.Pairwise fun a b => a.1 < b.1) :
    (foldLines s (secs.flatMap sectionLines)).1 = true ∧
      (foldLines s (secs.flatMap sectionLines)).2.sections =
        fun x => ((secs.lookup x).map SortedMap.get?).or (s.sections x) := by
  induction secs generalizing s with
  | nil => exact ⟨rfl, rfl⟩
  | cons sec secs ih =>
      obtain ⟨htitle, htitles⟩ := List.forall_mem_cons.mp htitles
      obtain ⟨hpair, hpairs⟩ := List.forall_mem_cons.mp hpairs
      obtain ⟨habove, hsorted⟩ := List.pairwise_cons.mp hsorted
      let opened : Reading := ⟨Function.update s.sections sec.1 (some fun _ => none), sec.1⟩
      let filled : Reading := ⟨Function.update s.sections sec.1 (some sec.2.get?), sec.1⟩
      have hsection : foldLines s (sectionLines sec) = (true, filled) := by
        have hfill := foldLines_pairs (s := opened) (Function.update_self _ _ _) hpair sec.2.sorted
        have hopen : s.obey (entryOf (headerLine sec.1)) = some opened := by
          rw [htitle.entryOf]
          rfl
        unfold sectionLines
        rw [foldLines_cons, Reading.obeyAll, hopen]
        dsimp only
        refine hfill.trans ?_
        simp only [opened, Function.update_idem, Option.or_none]
        rfl
      rw [List.flatMap_cons, foldLines_append, hsection, if_pos rfl]
      obtain ⟨hok, hsections⟩ := ih (s := filled) htitles hpairs hsorted
      refine ⟨hok, hsections.trans ?_⟩
      funext x
      dsimp only [filled]
      rw [SortedMap.lookup_cons, Function.update_apply]
      by_cases hx : x = sec.1
      · rw [if_pos hx, if_pos hx, hx, SortedMap.lookup_above habove]
        rfl
      · rw [if_neg hx, if_neg hx]

/-! ## The file that is written -/

section

variable {data : SortedMap Bytes Dict}

theorem Writable.lines (h : Writable data) {line : Bytes} (hline : line ∈ iniLines data) :
    newline ∉ line ∧ 0 ∉ line ∧ line.length ≤ bufSize - 1 := by
  obtain ⟨s, hs, hline⟩ := List.mem_flatMap.mp hline
  rcases List.mem_cons.mp hline with rfl | hline
  · have htitle := h.titles s hs
    have hlen := htitle.fits
    unfold headerLine
    refine ⟨?_, ?_, ?_⟩
    · simpa using ⟨by decide, htitle.oneLine, by decide⟩
    · simpa using htitle.noNul
    · rw [List.length_append, List.length_cons, List.length_singleton]
      omega
  · obtain ⟨p, hp, rfl⟩ := List.mem_map.mp hline
    have hpair := h.pairs s hs p hp
    have hlen := hpair.fits
    unfold pairLine
    refine ⟨?_, ?_, ?_⟩
    · simpa using ⟨hpair.name.oneLine, by decide, hpair.value.oneLine⟩
    · simpa using ⟨hpair.name.noNul, hpair.value.noNul⟩
    · rw [List.length_append, List.length_cons]
      omega

theorem notMem_intercalate {c sep : UInt8} {lines : List Bytes} (hsep : c ≠ sep)
    (hlines : ∀ line ∈ lines, c ∉ line) : c ∉ [sep].intercalate lines := by
  induction lines with
  | nil => simp
  | cons line lines ih =>
      obtain ⟨hline, hlines⟩ := List.forall_mem_cons.mp hlines
      cases lines with
      | nil => simpa using hline
      | cons line' lines =>
          rw [List.intercalate_cons_cons, List.mem_append, List.mem_append, List.mem_singleton]
          rintro ((hmem | hmem) | hmem)
          · exact hline hmem
          · exact hsep hmem
          · exact ih hlines hmem

/-- The lines of the file are those that have been written. -/
theorem foldLines_iniText (h : Writable data) (s : Reading) :
    foldLines s ((iniText data).splitOn newline) = foldLines s (iniLines data) := by
  unfold iniText
  by_cases hnone : iniLines data = []
  · rw [hnone]
    rfl
  · rw [List.splitOn_intercalate newline (fun line hline => (h.lines hline).1) hnone]

/-- What has been written is read. -/
theorem readIni_iniText (h : Writable data) : readIni (some (iniText data)) .empty = (true, data) := by
  have hnul : 0 ∉ iniText data :=
    notMem_intercalate (by decide) fun line hline => (h.lines hline).2.1
  have hshort : ∀ line ∈ (iniText data).splitOn newline, line.length ≤ bufSize - 1 := by
    intro line hline
    unfold iniText at hline
    by_cases hnone : iniLines data = []
    · rw [hnone] at hline
      rw [List.mem_singleton.mp hline]
      exact Nat.zero_le _
    · rw [List.splitOn_intercalate newline (fun line hline => (h.lines hline).1) hnone] at hline
      exact (h.lines hline).2.2
  have hread := lineByLine_of_short hnul hshort .empty
  obtain ⟨hok, hsections⟩ :=
    foldLines_sections (s := ⟨sectionsOf .empty, []⟩) h.titles h.pairs data.sorted
  have hsame : sectionsOf (readIni (some (iniText data)) .empty).2 = sectionsOf data := by
    rw [hread.sections, foldLines_iniText h]
    refine hsections.trans ?_
    funext name
    exact Option.or_none
  refine Prod.ext_iff.mpr ⟨?_, SortedMap.get?_injective (funext fun name => ?_)⟩
  · rw [hread.result, foldLines_iniText h]
    exact hok
  · exact Option.map_injective SortedMap.get?_injective (congrFun hsame name)

end

/-- **The maps that `read_ini` returns are those that can be written down.** A map is what
`read_ini` returns for some file if and only if it is what `read_ini` returns, without an
error, for the file that is written from it; and these are the maps whose names are trimmed
and fit into the buffer. -/
theorem ini_round_trip (data : SortedMap Bytes Dict) :
    [Writable data, readIni (some (iniText data)) .empty = (true, data),
      ∃ file, (readIni file .empty).2 = data].TFAE := by
  tfae_have 1 → 2 := readIni_iniText
  tfae_have 2 → 3 := fun h => ⟨_, congrArg Prod.snd h⟩
  tfae_have 3 → 1 := by
    rintro ⟨file, rfl⟩
    have hempty : Writable .empty :=
      ⟨fun _ hs => absurd hs List.not_mem_nil, fun _ hs => absurd hs List.not_mem_nil⟩
    exact readIni_writable hempty file
  tfae_finish

/-- The order of the sections and of the keys, comments, blanks and what is said twice are
forgotten. -/
example : iniText (readIni (some (str "[b]\n\n[ a ]\n y = 2\n# x=3\nx = 1\ny=3\n")) .empty).2 =
    str "[a]\nx=1\ny=3\n[b]" := by
  decide +kernel

end Registration

end Negatus
