import Mathlib.Data.List.Induction
import Mathlib.Data.List.Infix

/-!
# Laws of a history

A history is the list of events that have happened. A law allows or forbids an
event by what happened before it. `Always ok h` says that every event of `h`
was allowed when it happened, so it is a property of all moments of `h`, and it
is checked event by event.

Most laws look at a summary of the past only, kept up to date event by event.
`Along ok next s h` checks such a law from the summary `s` on.
-/

namespace Foundations

variable {α : Type*} {ok : List α → α → Prop} {h : List α} {a : α}

/-- Every event of `h` was allowed when it happened. -/
def Always (ok : List α → α → Prop) (h : List α) : Prop :=
  ∀ past a, past ++ [a] <+: h → ok past a

@[simp] theorem always_nil : Always ok [] := by
  intro past a hpre
  have := hpre.length_le
  simp at this

/-- A history goes on lawfully with every event that its law allows. -/
theorem always_concat : Always ok (h ++ [a]) ↔ Always ok h ∧ ok h a := by
  constructor
  · intro hall
    exact ⟨fun past b hpre => hall past b (hpre.trans (List.prefix_append _ _)),
      hall h a List.prefix_rfl⟩
  · rintro ⟨hall, hok⟩ past b hpre
    rcases List.prefix_concat_iff.mp hpre with heq | hpre
    · obtain ⟨rfl, hb⟩ := List.append_inj' heq rfl
      obtain rfl : b = a := by simpa using hb
      exact hok
    · exact hall past b hpre

theorem Always.of_prefix {h' : List α} (hall : Always ok h) (hpre : h' <+: h) : Always ok h' :=
  fun past a hpast => hall past a (hpast.trans hpre)

/-- A moment just behind an event `a` does not lie in a piece of history without `a`. -/
theorem prefix_of_notMem {past es : List α} (hpre : past ++ [a] <+: h ++ es) (ha : a ∉ es) :
    past ++ [a] <+: h := by
  induction es using List.reverseRecOn with
  | nil => simpa using hpre
  | append_singleton es e ih =>
      rw [← List.append_assoc] at hpre
      rcases List.prefix_concat_iff.mp hpre with heq | hpre
      · have hlast := List.append_inj_right' heq rfl
        exact absurd (List.mem_append_right es (hlast ▸ List.mem_singleton_self a)) ha
      · exact ih hpre fun hmem => ha (List.mem_append_left _ hmem)

/-! ## Laws of a summary -/

variable {σ : Type*} {allowed : σ → α → Prop} {next : σ → α → σ} {s : σ}

/-- Every event is allowed by the summary of what happened before it. -/
def Along (allowed : σ → α → Prop) (next : σ → α → σ) : σ → List α → Prop
  | _, [] => True
  | s, a :: as => allowed s a ∧ Along allowed next (next s a) as

@[simp] theorem along_nil : Along allowed next s [] := trivial

@[simp] theorem along_cons {as : List α} :
    Along allowed next s (a :: as) ↔ allowed s a ∧ Along allowed next (next s a) as := Iff.rfl

instance [∀ s a, Decidable (allowed s a)] (s : σ) (as : List α) :
    Decidable (Along allowed next s as) :=
  match as with
  | [] => .isTrue trivial
  | a :: as =>
      have : Decidable (Along allowed next (next s a) as) := instDecidableAlong _ as
      inferInstanceAs (Decidable (allowed s a ∧ Along allowed next (next s a) as))

theorem along_append {as : List α} :
    Along allowed next s (h ++ as) ↔
      Along allowed next s h ∧ Along allowed next (h.foldl next s) as := by
  induction h generalizing s with
  | nil => simp
  | cons b h ih => simp only [List.cons_append, along_cons, List.foldl_cons, ih, and_assoc]

/-- What happens in a lawful history is allowed by some summary. -/
theorem Along.of_mem {as : List α} (hall : Along allowed next s as) (ha : a ∈ as) :
    ∃ s', allowed s' a := by
  induction as generalizing s with
  | nil => cases ha
  | cons b as ih =>
      rcases List.mem_cons.mp ha with rfl | ha
      · exact ⟨s, hall.1⟩
      · exact ih hall.2 ha

/-- A law of a summary is a law. -/
theorem always_iff_along :
    Always (fun past a => allowed (past.foldl next s) a) h ↔ Along allowed next s h := by
  induction h using List.reverseRecOn with
  | nil => exact iff_of_true always_nil trivial
  | append_singleton h a ih =>
      rw [always_concat, ih, along_append]
      simp

end Foundations
