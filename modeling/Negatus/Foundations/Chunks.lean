import Mathlib.Data.List.Basic

/-!
# Streams in chunks

A stream is offered chunk by chunk, and of every chunk only a prefix is kept.
The kept bytes are a prefix of the stream as long as nothing is kept behind a
chunk that was cut.
-/

namespace Foundations

variable {α : Type*}

/-- The stream that is offered: the first components, in order. -/
def offered (chunks : List (List α × List α)) : List α := chunks.flatMap Prod.fst

/-- What is kept of it: the second components, in order. -/
def kept (chunks : List (List α × List α)) : List α := chunks.flatMap Prod.snd

/-- Nothing is kept behind a chunk that was cut. -/
def Gapless (chunks : List (List α × List α)) : Prop :=
  chunks.Pairwise fun x y => x.2 ≠ x.1 → y.2 = []

theorem kept_eq_nil {chunks : List (List α × List α)} (h : ∀ y ∈ chunks, y.2 = []) :
    kept chunks = [] := by
  simpa [kept, List.flatMap_eq_nil_iff] using h

theorem Gapless.kept_isPrefix {chunks : List (List α × List α)} (h : Gapless chunks)
    (hcut : ∀ x ∈ chunks, x.2 <+: x.1) : kept chunks <+: offered chunks := by
  induction chunks with
  | nil => exact List.prefix_rfl
  | cons x chunks ih =>
      obtain ⟨hx, hrest⟩ := List.pairwise_cons.mp h
      have hcuts : ∀ y ∈ chunks, y.2 <+: y.1 := fun y hy => hcut y (List.mem_cons_of_mem _ hy)
      by_cases hwhole : x.2 = x.1
      · show x.2 ++ kept chunks <+: x.1 ++ offered chunks
        rw [hwhole]
        exact (List.prefix_append_right_inj _).mpr (ih hrest hcuts)
      · have hnone : kept chunks = [] := kept_eq_nil fun y hy => hx y hy hwhole
        show x.2 ++ kept chunks <+: x.1 ++ offered chunks
        rw [hnone, List.append_nil]
        exact (hcut x List.mem_cons_self).trans (List.prefix_append _ _)

theorem Gapless.take {chunks : List (List α × List α)} (h : Gapless chunks) (k : Nat) :
    Gapless (chunks.take k) :=
  List.Pairwise.sublist (List.take_sublist k chunks) h

end Foundations
