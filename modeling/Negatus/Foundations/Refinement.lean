import Mathlib.Data.List.Basic

/-!
# Refinement of operation sequences

An implementation is a partial step function on concrete states, a
specification a total one on abstract states. One square per operation gives the
square for every legal sequence: the implementation is defined all the way, its
answers are the specified ones, and its representation invariant holds at the
end.
-/

namespace Foundations

variable {Op Ans σ α : Type*}

def runOps (step : σ → Op → Option (Ans × σ)) : σ → List Op → Option (List Ans × σ)
  | s, [] => some ([], s)
  | s, op :: ops => do
      let (a, s') ← step s op
      let (as, s'') ← runOps step s' ops
      some (a :: as, s'')

def runSpec (spec : α → Op → Ans × α) : α → List Op → List Ans × α
  | q, [] => ([], q)
  | q, op :: ops =>
      let r := runSpec spec (spec q op).2 ops
      ((spec q op).1 :: r.1, r.2)

/-- Every operation is called where the specification allows it. -/
def LegalRun (legal : α → Op → Prop) (spec : α → Op → Ans × α) : α → List Op → Prop
  | _, [] => True
  | q, op :: ops => legal q op ∧ LegalRun legal spec (spec q op).2 ops

structure Refines (step : σ → Op → Option (Ans × σ)) (spec : α → Op → Ans × α)
    (legal : α → Op → Prop) (abs : σ → α) (inv : σ → Prop) : Prop where
  square : ∀ s op, inv s → legal (abs s) op →
    ∃ s', step s op = some ((spec (abs s) op).1, s') ∧ inv s' ∧ abs s' = (spec (abs s) op).2

theorem Refines.run {step : σ → Op → Option (Ans × σ)} {spec : α → Op → Ans × α}
    {legal : α → Op → Prop} {abs : σ → α} {inv : σ → Prop}
    (h : Refines step spec legal abs inv) {s : σ} (hs : inv s) {ops : List Op}
    (hl : LegalRun legal spec (abs s) ops) :
    ∃ s', runOps step s ops = some ((runSpec spec (abs s) ops).1, s') ∧ inv s' ∧
      abs s' = (runSpec spec (abs s) ops).2 := by
  induction ops generalizing s with
  | nil => exact ⟨s, rfl, hs, rfl⟩
  | cons op ops ih =>
      obtain ⟨hop, hrest⟩ := hl
      obtain ⟨s₁, hstep, hs₁, habs⟩ := h.square s op hs hop
      rw [← habs] at hrest
      obtain ⟨s₂, hrun, hs₂, habs₂⟩ := ih hs₁ hrest
      refine ⟨s₂, ?_, hs₂, ?_⟩
      · simp [runOps, runSpec, hstep, hrun, habs]
      · simp [runSpec, habs₂, habs]

/-! ## Runs of allowed operations -/

/-- Every operation is called in a state that allows it. A run ends where the
implementation is undefined. -/
def AllowedRun (ok : σ → Op → Prop) (step : σ → Op → Option (Ans × σ)) : σ → List Op → Prop
  | _, [] => True
  | s, op :: ops => ok s op ∧ ∀ a s', step s op = some (a, s') → AllowedRun ok step s' ops

variable {ok : σ → Op → Prop} {step : σ → Op → Option (Ans × σ)}

theorem AllowedRun.invariant {inv : σ → Prop}
    (hstep : ∀ s op a s', inv s → ok s op → step s op = some (a, s') → inv s')
    {s s' : σ} {ops : List Op} {as : List Ans} (hs : inv s) (hok : AllowedRun ok step s ops)
    (hrun : runOps step s ops = some (as, s')) : inv s' := by
  induction ops generalizing s as with
  | nil =>
      obtain ⟨-, rfl⟩ := Prod.mk.inj (Option.some.inj hrun)
      exact hs
  | cons op ops ih =>
      obtain ⟨hop, hrest⟩ := hok
      obtain ⟨⟨a, s₁⟩, hone, htail⟩ := Option.bind_eq_some_iff.mp hrun
      obtain ⟨⟨as', s₂⟩, hops, heq⟩ := Option.bind_eq_some_iff.mp htail
      obtain ⟨-, rfl⟩ := Prod.mk.inj (Option.some.inj heq)
      exact ih (hstep s op a s₁ hs hop hone) (hrest a s₁ hone) hops

theorem answers_cons {s s' : σ} {op : Op} {a : Ans} (ops : List Op)
    (h : step s op = some (a, s')) :
    (runOps step s (op :: ops)).map Prod.fst =
      ((runOps step s' ops).map Prod.fst).map (a :: ·) := by
  simp only [runOps, h, Option.bind_eq_bind, Option.bind_some]
  cases runOps step s' ops <;> rfl

/-- Related states are both undefined under an operation, or answer the same and
stay related: then no run tells them apart. -/
theorem AllowedRun.same_answers {R : σ → σ → Prop}
    (hstep : ∀ s t op, R s t → ok t op → (step s op = none ∧ step t op = none) ∨
      ∃ a s' t', step s op = some (a, s') ∧ step t op = some (a, t') ∧ R s' t')
    {s t : σ} {ops : List Op} (hst : R s t) (hok : AllowedRun ok step t ops) :
    (runOps step s ops).map Prod.fst = (runOps step t ops).map Prod.fst := by
  induction ops generalizing s t with
  | nil => rfl
  | cons op ops ih =>
      obtain ⟨hop, hrest⟩ := hok
      rcases hstep s t op hst hop with ⟨hs, ht⟩ | ⟨a, s', t', hs, ht, hst'⟩
      · simp only [runOps, hs, ht, Option.bind_eq_bind, Option.bind_none]
      · rw [answers_cons ops hs, answers_cons ops ht, ih hst' (hrest a t' ht)]

end Foundations
