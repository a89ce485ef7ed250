import Negatus.Foundations.Words

/-!
# A tokenizer that works in its buffer

A string in a buffer ends at the first `nul`. `next` ends the word that it hands out
by a `nul` of its own and goes on behind it. What it hands out are the `words` of the
string, also when the words that have been handed out are written into.
-/

namespace Foundations

variable {α : Type*} [DecidableEq α] {nul : α} {buffer : List α} {pos n : Nat}

/-- The string that begins at a position. -/
def stringAt (nul : α) (buffer : List α) (pos : Nat) : List α :=
  (buffer.drop pos).takeWhile (· ≠ nul)

/-- A position inside a string. -/
theorem stringAt_add (h : n ≤ (stringAt nul buffer pos).length) :
    stringAt nul buffer (pos + n) = (stringAt nul buffer pos).drop n := by
  unfold stringAt at h ⊢
  rw [← List.drop_drop]
  generalize buffer.drop pos = l at h
  induction n generalizing l with
  | zero => rfl
  | succ n ih =>
      cases l with
      | nil => cases h
      | cons a l =>
          rw [List.takeWhile_cons] at h ⊢
          split
          · rename_i ha
            rw [if_pos ha, List.length_cons] at h
            exact ih l (Nat.le_of_succ_le_succ h)
          · rename_i ha
            rw [if_neg ha] at h
            cases h

/-- What is written in front of a string does not change it. -/
theorem stringAt_set_before {a : α} (h : n < pos) :
    stringAt nul (buffer.set n a) pos = stringAt nul buffer pos := by
  unfold stringAt
  rw [List.drop_set_of_lt h]

/-- A `nul` that is written into a string ends it. -/
theorem stringAt_set_nul (h : n < (stringAt nul buffer pos).length) :
    stringAt nul (buffer.set (pos + n) nul) pos = (stringAt nul buffer pos).take n := by
  unfold stringAt at h ⊢
  rw [List.drop_set, if_neg (by omega), Nat.add_sub_cancel_left]
  generalize buffer.drop pos = l at h
  induction n generalizing l with
  | zero =>
      cases l with
      | nil => rfl
      | cons a l => simp
  | succ n ih =>
      cases l with
      | nil => cases h
      | cons a l =>
          rw [List.set_cons_succ, List.takeWhile_cons, List.takeWhile_cons]
          rw [List.takeWhile_cons] at h
          split
          · rename_i ha
            rw [if_pos ha, List.length_cons] at h
            rw [List.take_succ_cons, ih l (Nat.lt_of_succ_lt_succ h)]
          · rfl

/-- The buffer, and where the next word is looked for. -/
structure Tokenizer (α : Type*) where
  buffer : List α
  save : Nat

namespace Tokenizer

variable {sep : α → Bool} {t : Tokenizer α}

/-- What is still to be split. -/
def text (nul : α) (t : Tokenizer α) : List α := stringAt nul t.buffer t.save

/-- The position of the next word. -/
def next (nul : α) (sep : α → Bool) (t : Tokenizer α) : Option Nat × Tokenizer α :=
  let start := t.save + ((t.text nul).takeWhile sep).length
  let rest := stringAt nul t.buffer start
  if rest = [] then (none, { t with save := start })
  else
    let stop := start + (rest.takeWhile fun a => !sep a).length
    if stringAt nul t.buffer stop = [] then (some start, { t with save := stop })
    else (some start, ⟨t.buffer.set stop nul, stop + 1⟩)

omit [DecidableEq α] in
theorem drop_takeWhile_length (l : List α) :
    l.drop (l.takeWhile sep).length = l.dropWhile sep := by
  calc l.drop (l.takeWhile sep).length
    _ = (l.takeWhile sep ++ l.dropWhile sep).drop (l.takeWhile sep).length := by
          rw [List.takeWhile_append_dropWhile]
    _ = l.dropWhile sep := List.drop_left

/-- The string from the next word on. -/
theorem stringAt_start (t : Tokenizer α) :
    stringAt nul t.buffer (t.save + ((t.text nul).takeWhile sep).length) =
      (t.text nul).dropWhile sep := by
  have hlen : ((t.text nul).takeWhile sep).length ≤ (t.text nul).length :=
    (List.takeWhile_prefix _).length_le
  rw [stringAt_add hlen]
  exact drop_takeWhile_length (t.text nul)

/-- There are no more words. -/
theorem next_none (h : words sep (t.text nul) = []) : (t.next nul sep).1 = none := by
  unfold next
  dsimp only
  rw [stringAt_start]
  cases hrest : (t.text nul).dropWhile sep with
  | nil => rw [if_pos rfl]
  | cons a rest =>
      have ha : sep a = false := by
        have hhead := List.head?_dropWhile_not sep (t.text nul)
        rw [hrest] at hhead
        simpa using hhead
      rw [← words_dropWhile, hrest, words_eq_cons ha] at h
      cases h

/-- The next word stands in the buffer, and the others behind it. -/
theorem next_some {w : List α} {ws : List (List α)} (h : words sep (t.text nul) = w :: ws) :
    ∃ pos, (t.next nul sep).1 = some pos ∧ stringAt nul (t.next nul sep).2.buffer pos = w ∧
      pos + w.length ≤ (t.next nul sep).2.save ∧
      words sep ((t.next nul sep).2.text nul) = ws := by
  have hstart : stringAt nul t.buffer (t.save + ((t.text nul).takeWhile sep).length) =
      (t.text nul).dropWhile sep := stringAt_start t
  unfold next
  dsimp only
  generalize t.save + ((t.text nul).takeWhile sep).length = start at hstart ⊢
  cases hrest : (t.text nul).dropWhile sep with
  | nil =>
      rw [← words_dropWhile, hrest, words_nil] at h
      cases h
  | cons a rest =>
      have ha : sep a = false := by
        have hhead := List.head?_dropWhile_not sep (t.text nul)
        rw [hrest] at hhead
        simpa using hhead
      rw [← words_dropWhile, hrest, words_eq_cons ha, List.cons.injEq] at h
      obtain ⟨hw, hws⟩ := h
      rw [hrest] at hstart
      rw [hstart, if_neg (List.cons_ne_nil a rest), hw]
      have hlen : w.length ≤ (a :: rest).length := hw ▸ (List.takeWhile_prefix _).length_le
      have hstop : stringAt nul t.buffer (start + w.length) =
          (a :: rest).dropWhile fun a => !sep a := by
        rw [stringAt_add (hstart ▸ hlen), hstart, ← hw]
        exact drop_takeWhile_length (a :: rest)
      have htake : (a :: rest).take w.length = w := by
        rw [← hw]
        exact (List.prefix_iff_eq_take.mp (List.takeWhile_prefix _)).symm
      have hsplit : w ++ (a :: rest).dropWhile (fun a => !sep a) = a :: rest := by
        rw [← hw, List.takeWhile_append_dropWhile]
      rw [hstop]
      cases hbehind : (a :: rest).dropWhile fun a => !sep a with
      | nil =>
          -- the word is the last one
          rw [hbehind] at hws hstop hsplit
          rw [if_pos rfl]
          refine ⟨start, rfl, ?_, Nat.le_refl _, ?_⟩
          · rw [hstart, ← hsplit, List.append_nil]
          · show words sep (stringAt nul t.buffer (start + w.length)) = ws
            rw [hstop]
            exact hws
      | cons s behind =>
          rw [hbehind] at hws hsplit
          rw [if_neg (List.cons_ne_nil s behind)]
          have hlonger : w.length + 1 ≤ (stringAt nul t.buffer start).length := by
            rw [hstart, ← hsplit, List.length_append, List.length_cons]
            omega
          refine ⟨start, rfl, ?_, Nat.le_succ _, ?_⟩
          · rw [stringAt_set_nul hlonger, hstart, htake]
          · show words sep (stringAt nul (t.buffer.set (start + w.length) nul)
              (start + w.length + 1)) = ws
            rw [stringAt_set_before (Nat.lt_add_one _), Nat.add_assoc, stringAt_add hlonger,
              hstart, ← hsplit, List.drop_length_add_append]
            exact hws

end Tokenizer

end Foundations
