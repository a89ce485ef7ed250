import Mathlib.Data.List.Basic

/-!
# Splitting a list after its first marked element

`splitAfter p l` is the shortest prefix of `l` that ends in an element with
`p`, together with the rest of `l`. It is how a line reader sees a stream.
-/

namespace Foundations

variable {α : Type*} {p : α → Bool}

def splitAfter (p : α → Bool) : List α → Option (List α × List α)
  | [] => none
  | a :: l =>
      if p a then some ([a], l)
      else (splitAfter p l).map fun s => (a :: s.1, s.2)

theorem splitAfter_eq_none {l : List α} :
    splitAfter p l = none ↔ ∀ a ∈ l, p a = false := by
  induction l with
  | nil => simp [splitAfter]
  | cons a l ih =>
      by_cases h : p a = true
      · simp [splitAfter, h]
      · simp [splitAfter, h, ih]

theorem splitAfter_append_eq {l x y : List α} (h : splitAfter p l = some (x, y)) :
    x ++ y = l := by
  induction l generalizing x with
  | nil => simp [splitAfter] at h
  | cons a l ih =>
      by_cases ha : p a = true
      · simp only [splitAfter, ha, if_true, Option.some.injEq, Prod.mk.injEq] at h
        simp [← h.1, h.2]
      · simp only [splitAfter, ha, Bool.false_eq_true, if_false, Option.map_eq_some_iff,
          Prod.mk.injEq, Prod.exists] at h
        obtain ⟨x', y', hl, rfl, rfl⟩ := h
        simp [ih hl]

theorem splitAfter_at {l m : List α} {a : α} (hl : ∀ x ∈ l, p x = false) (ha : p a = true) :
    splitAfter p (l ++ a :: m) = some (l ++ [a], m) := by
  induction l with
  | nil => simp [splitAfter, ha]
  | cons x l ih =>
      obtain ⟨hx, hrest⟩ := List.forall_mem_cons.mp hl
      simp [splitAfter, hx, ih hrest]

theorem splitAfter_ne_nil {l x y : List α} (h : splitAfter p l = some (x, y)) :
    x ≠ [] := by
  rintro rfl
  cases l with
  | nil => simp [splitAfter] at h
  | cons a l =>
      by_cases ha : p a = true
      · simp [splitAfter, ha] at h
      · simp [splitAfter, ha] at h

/-- A split ends in the first marked element. -/
theorem splitAfter_eq_some {l x y : List α} (h : splitAfter p l = some (x, y)) :
    ∃ pre a, x = pre ++ [a] ∧ p a = true ∧ ∀ b ∈ pre, p b = false := by
  induction l generalizing x with
  | nil => simp [splitAfter] at h
  | cons a l ih =>
      by_cases ha : p a = true
      · simp only [splitAfter, ha, if_true, Option.some.injEq, Prod.mk.injEq] at h
        exact ⟨[], a, h.1.symm, ha, by simp⟩
      · simp only [splitAfter, ha, Bool.false_eq_true, if_false, Option.map_eq_some_iff,
          Prod.mk.injEq, Prod.exists] at h
        obtain ⟨x', y', hl, rfl, rfl⟩ := h
        obtain ⟨pre, c, rfl, hc, hpre⟩ := ih hl
        refine ⟨a :: pre, c, rfl, hc, ?_⟩
        intro b hb
        rcases List.mem_cons.mp hb with rfl | hb
        · simpa using ha
        · exact hpre b hb

/-- The split is found by index: it lies just behind the first marked element. -/
theorem splitAfter_eq_findIdx? (l : List α) :
    splitAfter p l = (l.findIdx? p).map fun i => (l.take (i + 1), l.drop (i + 1)) := by
  induction l with
  | nil => simp [splitAfter]
  | cons a l ih =>
      by_cases ha : p a = true
      · simp [splitAfter, List.findIdx?_cons, ha]
      · simp [splitAfter, List.findIdx?_cons, ha, ih, Function.comp_def]

/-- The last place where an element stands. -/
theorem exists_last {l : List α} {a : α} (h : a ∈ l) : ∃ u v, l = u ++ a :: v ∧ a ∉ v := by
  obtain ⟨v, u, hsplit, hv⟩ := List.eq_append_cons_of_mem (List.mem_reverse.mpr h)
  refine ⟨u.reverse, v.reverse, ?_, fun hmem => hv (List.mem_reverse.mp hmem)⟩
  rw [← List.reverse_reverse l, hsplit]
  simp

/-- Two places of one element in a list are one, or the first is in front of the second, or
the other way round. -/
theorem append_cons_cases {x y u v : List α} {a : α} (h : x ++ a :: y = u ++ a :: v) :
    x = u ∨ (∃ w, u = x ++ a :: w ∧ y = w ++ a :: v) ∨ ∃ w, x = u ++ a :: w ∧ v = w ++ a :: y := by
  rcases List.append_eq_append_iff.mp h with ⟨w, hw, hrest⟩ | ⟨w, hw, hrest⟩
  · cases w with
    | nil => exact .inl (by rw [hw, List.append_nil])
    | cons b w =>
        rw [List.cons_append, List.cons.injEq] at hrest
        exact .inr (.inl ⟨w, hrest.1 ▸ hw, hrest.2⟩)
  · cases w with
    | nil => exact .inl (by rw [hw, List.append_nil])
    | cons b w =>
        rw [List.cons_append, List.cons.injEq] at hrest
        exact .inr (.inr ⟨w, hrest.1 ▸ hw, hrest.2⟩)

theorem findIdx?_first {l m : List α} {a : α} (hl : ∀ x ∈ l, p x = false) (ha : p a = true) :
    (l ++ a :: m).findIdx? p = some l.length := by
  have hnone : l.findIdx? p = none := List.findIdx?_eq_none_iff.mpr hl
  rw [List.findIdx?_append, hnone, List.findIdx?_cons, ha]
  simp

end Foundations
