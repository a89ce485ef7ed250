import Mathlib.Data.List.Basic
import Mathlib.Data.List.TakeWhile

/-!
# Words between separators

`words p l` are the maximal pieces of `l` without an element with `p`, as a
tokenizer hands them out: runs of separators count as one, and those at the ends
do not count at all.
-/

namespace Foundations

variable {α : Type*} {p : α → Bool}

def words (p : α → Bool) (l : List α) : List (List α) := (l.splitOnP p).filter (· ≠ [])

@[simp] theorem words_nil : words p [] = [] := by
  simp [words]

/-- A separator ends what stands in front of it. -/
theorem words_append_cons {sep : α} (hsep : p sep = true) (l m : List α) :
    words p (l ++ sep :: m) = words p l ++ words p m := by
  unfold words
  rw [List.splitOnP_append_cons l m hsep, List.filter_append]

/-- A piece without separators is one word. -/
theorem words_single {w : List α} (hne : w ≠ []) (hw : ∀ a ∈ w, p a = false) :
    words p w = [w] := by
  unfold words
  rw [List.splitOnP_eq_singleton hw, List.filter_cons_of_pos (by simpa using hne)]
  rfl

/-- A run of separators in front counts for nothing. -/
theorem words_append_of_seps {gap : List α} (hgap : ∀ a ∈ gap, p a = true) (l : List α) :
    words p (gap ++ l) = words p l := by
  induction gap with
  | nil => rfl
  | cons a gap ih =>
      obtain ⟨ha, hgap⟩ := List.forall_mem_cons.mp hgap
      have hfirst := words_append_cons ha [] (gap ++ l)
      rw [words_nil, List.nil_append, List.nil_append, ih hgap] at hfirst
      exact hfirst

theorem words_dropWhile (l : List α) : words p (l.dropWhile p) = words p l := by
  conv_rhs => rw [← List.takeWhile_append_dropWhile (p := p) (l := l)]
  exact (words_append_of_seps (fun _ ha => List.mem_takeWhile_imp ha) _).symm

/-- The first word, and the rest behind its separator. -/
theorem words_eq_cons {a : α} {l : List α} (ha : p a = false) :
    words p (a :: l) = ((a :: l).takeWhile fun a => !p a) ::
      words p ((a :: l).dropWhile fun a => !p a).tail := by
  have hne : (a :: l).takeWhile (fun a => !p a) ≠ [] := by simp [ha]
  have hword : ∀ b ∈ (a :: l).takeWhile fun a => !p a, p b = false := by
    intro b hb
    simpa using List.mem_takeWhile_imp hb
  conv_lhs => rw [← List.takeWhile_append_dropWhile (p := fun a => !p a) (l := a :: l)]
  cases hrest : (a :: l).dropWhile fun a => !p a with
  | nil => rw [List.append_nil, words_single hne hword, List.tail_nil, words_nil]
  | cons sep rest =>
      have hsep : p sep = true := by
        have hhead := List.head?_dropWhile_not (fun a => !p a) (a :: l)
        rw [hrest] at hhead
        simpa using hhead
      rw [words_append_cons hsep, words_single hne hword]
      rfl

/-- Words with runs of separators between them. -/
theorem words_joined {w : List α} (hne : w ≠ []) (hw : ∀ a ∈ w, p a = false)
    {rest : List (List α × List α)}
    (hrest : ∀ gw ∈ rest, (gw.1 ≠ [] ∧ ∀ a ∈ gw.1, p a = true) ∧
      gw.2 ≠ [] ∧ ∀ a ∈ gw.2, p a = false) :
    words p (w ++ rest.flatMap fun gw => gw.1 ++ gw.2) = w :: rest.map Prod.snd := by
  induction rest generalizing w with
  | nil => simpa using words_single hne hw
  | cons gw rest ih =>
      obtain ⟨⟨⟨hgap, hseps⟩, hne', hw'⟩, hrest⟩ := List.forall_mem_cons.mp hrest
      obtain ⟨sep, gap, hcons⟩ := List.exists_cons_of_ne_nil hgap
      rw [hcons] at hseps
      obtain ⟨hsep, hseps⟩ := List.forall_mem_cons.mp hseps
      rw [List.flatMap_cons, hcons, List.append_assoc, List.cons_append, words_append_cons hsep,
        words_append_of_seps hseps, words_single hne hw, ih hne' hw' hrest]
      rfl

/-- Words with single separators between them. -/
theorem words_intercalate {sep : α} (hsep : p sep = true) {ws : List (List α)}
    (hws : ∀ w ∈ ws, w ≠ [] ∧ ∀ a ∈ w, p a = false) : words p ([sep].intercalate ws) = ws := by
  induction ws with
  | nil => simp
  | cons w ws ih =>
      obtain ⟨⟨hne, hw⟩, hws⟩ := List.forall_mem_cons.mp hws
      cases ws with
      | nil => simpa [List.intercalate] using words_single hne hw
      | cons w' ws =>
          have hsplit : [sep].intercalate (w :: w' :: ws) = w ++ sep :: [sep].intercalate (w' :: ws) := by
            simp [List.intercalate]
          rw [hsplit, words_append_cons hsep, words_single hne hw, ih hws]
          rfl

/-! ## Pieces, empty or not -/

section

variable [DecidableEq α] {sep : α}

/-- A separator ends a piece. -/
theorem length_splitOn (sep : α) (l : List α) : (l.splitOn sep).length = l.count sep + 1 := by
  induction l with
  | nil => rfl
  | cons a l ih =>
      unfold List.splitOn at ih ⊢
      rw [List.splitOnP_cons_eq_if_modifyHead]
      by_cases ha : a = sep
      · rw [if_pos (beq_iff_eq.mpr ha), List.length_cons, ih, ha, List.count_cons_self]
      · rw [if_neg (mt beq_iff_eq.mp ha), List.length_modifyHead, ih, List.count_cons_of_ne ha]

/-- A piece behind a separator has the number of the separators up to there. -/
theorem splitOn_between {w : List α} (hw : sep ∉ w) (l m : List α) :
    ((l ++ sep :: (w ++ sep :: m)).splitOn sep)[l.count sep + 1]? = some w := by
  have hcut : ∀ l m : List α, (l ++ sep :: m).splitOn sep = l.splitOn sep ++ m.splitOn sep :=
    fun l m => List.splitOnP_append_cons l m (beq_iff_eq.mpr rfl)
  rw [hcut, hcut, List.splitOn_eq_singleton hw, ← length_splitOn,
    List.getElem?_append_right (Nat.le_refl _), Nat.sub_self]
  rfl

end

theorem mem_intercalate {sep : List α} {ws : List (List α)} {a : α}
    (h : a ∈ sep.intercalate ws) : a ∈ sep ∨ ∃ w ∈ ws, a ∈ w := by
  induction ws with
  | nil => cases h
  | cons w ws ih =>
      cases ws with
      | nil => exact .inr ⟨w, List.mem_cons_self, by simpa [List.intercalate] using h⟩
      | cons w' ws =>
          have hsplit : sep.intercalate (w :: w' :: ws) = w ++ (sep ++ sep.intercalate (w' :: ws)) := by
            simp [List.intercalate]
          rw [hsplit, List.mem_append, List.mem_append] at h
          rcases h with h | h | h
          · exact .inr ⟨w, List.mem_cons_self, h⟩
          · exact .inl h
          · rcases ih h with h | ⟨w'', hmem, h⟩
            · exact .inl h
            · exact .inr ⟨w'', List.mem_cons_of_mem _ hmem, h⟩

end Foundations
