import Negatus.Shell

/-!
# What is read of a text

`readTextFile` and `getCmdOutput` are two copies of one loop: they put together, as C
strings, the pieces that `fgets` fills its buffer with, and erase the last character.
Any pieces of a text without NULs give the whole text again. The character that is
erased is the final newline only where there is one.
-/

namespace Negatus

/-- What is returned for the pieces of a text. -/
def readPieces (pieces : List Bytes) : Bytes := eraseLast (pieces.flatMap cstr)

/-- The content without its final newline, if it ends in one. -/
def withoutNewline (content : Bytes) : Bytes :=
  if content.getLast? = some newline then content.dropLast else content

/-! ## Both loops -/

theorem getCmdOutput_of_text {s s' : System} {content : Bytes}
    (h : s.text = (some content, s')) :
    getCmdOutput s = (readPieces (fgetsBufs content), s') := by
  rw [getCmdOutput, h]
  rfl

theorem Shell.readTextFile_of_text {s s' : System} {content : Bytes}
    (h : s.text = (some content, s')) :
    Shell.readTextFile s = .ok (some (readPieces (fgetsBufs content))) s' := by
  show EStateM.Result.ok (s.text.1.map fun t => eraseLast (fgetsAll t)) s.text.2 = _
  rw [h]
  rfl

/-- Where the pieces are cut is not seen in what is returned. -/
theorem readPieces_eq {pieces : List Bytes} (hnul : 0 ∉ pieces.flatten) :
    readPieces pieces = eraseLast pieces.flatten := by
  rw [readPieces, flatMap_cstr hnul]

/-- The last character is the one to be removed, or there is none. -/
theorem eraseLast_eq_withoutNewline {content : Bytes} :
    eraseLast content = withoutNewline content ↔
      content = [] ∨ content.getLast? = some newline := by
  unfold eraseLast withoutNewline
  constructor
  · intro h
    by_cases hlast : content.getLast? = some newline
    · exact Or.inr hlast
    · left
      rw [if_neg hlast] at h
      by_contra hne
      have hlen := congrArg List.length h
      have hpos := List.length_pos_of_ne_nil hne
      rw [List.length_dropLast] at hlen
      omega
  · rintro (rfl | hlast)
    · -- `if (str.size())`
      rfl
    · rw [if_pos hlast]

/-! ## The texts that are read right -/

/-- At most one final newline is removed from the content, by both functions and
wherever its pieces are cut. -/
structure ReadsText (content : Bytes) : Prop where
  file : ∀ s s' : System, s.text = (some content, s') →
    Shell.readTextFile s = .ok (some (withoutNewline content)) s'
  command : ∀ s s' : System, s.text = (some content, s') →
    getCmdOutput s = (withoutNewline content, s')
  agree : ∀ s s' : System, s.text = (some content, s') →
    Shell.readTextFile s = .ok (some (getCmdOutput s).1) (getCmdOutput s).2
  pieces : ∀ pieces, pieces.flatten = content → readPieces pieces = withoutNewline content

/-- The two functions agree on every content, NULs included. -/
theorem readTextFile_agrees {s s' : System} {content : Bytes} (h : s.text = (some content, s')) :
    Shell.readTextFile s = .ok (some (getCmdOutput s).1) (getCmdOutput s).2 := by
  rw [Shell.readTextFile_of_text h, getCmdOutput_of_text h]

/-- **A text is read right iff it is empty or ends in a newline.** -/
theorem readsText_iff {content : Bytes} (hnul : 0 ∉ content) :
    ReadsText content ↔ content = [] ∨ content.getLast? = some newline := by
  have hpieces : ∀ pieces, pieces.flatten = content →
      readPieces pieces = eraseLast content := by
    rintro pieces rfl
    exact readPieces_eq hnul
  constructor
  · intro h
    -- the whole content in one piece is enough for this direction
    have hread := h.pieces [content] List.flatten_singleton
    rw [hpieces [content] List.flatten_singleton] at hread
    exact eraseLast_eq_withoutNewline.mp hread
  · intro h
    have hright := eraseLast_eq_withoutNewline.mpr h
    have hread := (hpieces _ (fgetsBufs_flatten content)).trans hright
    refine ⟨fun s s' htext => ?_, fun s s' htext => ?_, fun s s' => readTextFile_agrees,
      fun pieces hflat => (hpieces pieces hflat).trans hright⟩
    · rw [Shell.readTextFile_of_text htext, hread]
    · rw [getCmdOutput_of_text htext, hread]

theorem capacity_readsText : ReadsText (str "87\n") :=
  (readsText_iff (by decide)).mpr (Or.inr (by decide))

/-- Without a newline at its end the text loses a digit. -/
theorem capacity_not_readsText :
    (getCmdOutput { texts := [some (str "87")] }).1 = str "8" ∧ ¬ ReadsText (str "87") := by
  have hread : getCmdOutput { texts := [some (str "87")] } = (str "8", {}) := by
    rw [getCmdOutput_of_text rfl, readPieces_eq (by rw [fgetsBufs_flatten]; decide),
      fgetsBufs_flatten]
    decide
  refine ⟨by rw [hread], fun h => ?_⟩
  have hright := h.command { texts := [some (str "87")] } {} rfl
  rw [hread] at hright
  revert hright
  decide

end Negatus
