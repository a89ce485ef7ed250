import Mathlib.Data.Prod.Lex
import Negatus.Reactor

/-!
# `run` comes to its end

The loops of `run` come one after the other, and each goes through a list. Handlers that
are called on the way set timeouts and register handlers, and may stop the reactor. None of
this adds to the loop that is under way, so `run` ends whatever the handlers are, if their
member functions do.
-/

namespace Negatus

open Foundations

namespace Reactor

variable {σ : Type} {api : EventHandlers σ} {r r' : Reactor σ}

/-- The loop that `run` is in, counted from the end, and the rounds that it has left. -/
def rank (r : Reactor σ) : Nat ×ₗ Nat :=
  match r.phase with
  | .top => toLex (0, 0)
  | .events _ pds => toLex (4, pds.length)
  | .scan i _ => toLex (3, r.mTimeouts.length - i)
  | .timeouts expiredHandlers => toLex (2, expiredHandlers.length)
  | .deleteClosed i => toLex (1, r.mEvtHandlers.length - i)

theorem stopLoop_phase {hs : List Nat} (h : stopLoop api hs r = .ok () r') :
    r'.phase = r.phase := by
  induction hs generalizing r with
  | nil =>
      cases h
      rfl
  | cons k hs ih =>
      unfold stopLoop at h
      split at h
      · cases h
      · have hrest := ih h
        exact hrest

/-- Calls of member functions leave the local variables of `run` alone. -/
theorem perform_phase {o : Outcome σ} (h : perform api o r = .ok () r') :
    r'.phase = r.phase := by
  induction o generalizing r with
  | returns world calls =>
      cases h
      exact obeyAll_phase
  | fails fault world calls => cases h
  | stops world calls resume ih =>
      unfold perform at h
      split at h
      · rename_i r₁ hstop
        have hphase : r₁.phase = (r.obeyAll world calls).phase := stopLoop_phase hstop
        exact (ih _ h).trans (hphase.trans obeyAll_phase)
      · cases h

theorem invoke_phase {k : Nat} {member : σ → Outcome σ} (h : invoke api k member r = .ok () r') :
    r'.phase = r.phase := by
  unfold invoke at h
  split at h
  · cases h
  · exact perform_phase h

theorem events_next {map : List (Option Nat × Nat)} {desc : PollDesc} {pds : List PollDesc}
    (hphase : r.phase = .events map (desc :: pds)) (h : step api r = .ok () r') :
    r'.phase = .events map pds := by
  unfold step at h
  rw [hphase] at h
  dsimp only at h
  split at h
  · cases h
    rfl
  · split at h
    · cases h
    · exact invoke_phase h

theorem timeouts_next {e : Entry} {es : List Entry} (hphase : r.phase = .timeouts (e :: es))
    (h : step api r = .ok () r') : r'.phase = .timeouts es := by
  rw [step_timeout hphase] at h
  exact invoke_phase h

/-- Each step leads to a later loop, or to the next round of the same. -/
theorem step_rank (hphase : r.phase ≠ .top) (h : step api r = .ok () r') :
    rank r' < rank r := by
  cases hp : r.phase with
  | top => exact absurd hp hphase
  | events map pds =>
      cases pds with
      | nil =>
          unfold step at h
          rw [hp] at h
          cases h
          unfold rank
          rw [hp]
          exact Prod.Lex.left _ _ (by decide)
      | cons desc pds =>
          have hnext := events_next hp h
          unfold rank
          rw [hp, hnext]
          exact Prod.Lex.right _ (Nat.lt_succ_self _)
  | scan i expiredHandlers =>
      unfold step at h
      rw [hp] at h
      dsimp only at h
      cases hget : r.mTimeouts[i]? with
      | none =>
          rw [hget] at h
          cases h
          unfold rank
          rw [hp]
          exact Prod.Lex.left _ _ (by decide)
      | some e =>
          rw [hget] at h
          dsimp only at h
          have hlt : i < r.mTimeouts.length := (List.getElem?_eq_some_iff.mp hget).1
          split at h
          · cases h
            unfold rank
            rw [hp]
            refine Prod.Lex.right _ ?_
            rw [List.length_eraseIdx_of_lt hlt]
            omega
          · cases h
            unfold rank
            rw [hp]
            refine Prod.Lex.right _ ?_
            rw [List.length_set]
            omega
  | timeouts expiredHandlers =>
      cases expiredHandlers with
      | nil =>
          unfold step at h
          rw [hp] at h
          cases h
          unfold rank
          rw [hp]
          exact Prod.Lex.left _ _ (by decide)
      | cons e expiredHandlers =>
          have hnext := timeouts_next hp h
          unfold rank
          rw [hp, hnext]
          exact Prod.Lex.right _ (Nat.lt_succ_self _)
  | deleteClosed i =>
      unfold step at h
      rw [hp] at h
      dsimp only at h
      cases hget : r.mEvtHandlers[i]? with
      | none =>
          rw [hget] at h
          cases h
          unfold rank
          rw [hp]
          exact Prod.Lex.left _ _ (by decide)
      | some k =>
          rw [hget] at h
          dsimp only at h
          have hlt : i < r.mEvtHandlers.length := (List.getElem?_eq_some_iff.mp hget).1
          split at h
          · cases h
          split at h
          · cases h
            have hnext : (r.deleteAt i k).phase = .deleteClosed i := hp
            unfold rank
            rw [hp, hnext]
            refine Prod.Lex.right _ ?_
            show (r.mEvtHandlers.eraseIdx i).length - i < r.mEvtHandlers.length - i
            rw [List.length_eraseIdx_of_lt hlt]
            omega
          · cases h
            unfold rank
            rw [hp]
            refine Prod.Lex.right _ ?_
            show r.mEvtHandlers.length - (i + 1) < r.mEvtHandlers.length - i
            omega

/-- Steps one after the other. -/
theorem steps_succ {n : Nat} (h : step api r = .ok () r') : steps api (n + 1) r = steps api n r' := by
  rw [steps, h]

/-- Some steps more, after the first `n`. -/
theorem steps_add (m n : Nat) : steps api (m + n) r = steps api m (steps api n r) := by
  induction n generalizing r with
  | zero => rfl
  | succ n ih =>
      cases hstep : step api r with
      | ok _ r' => rw [← Nat.add_assoc, steps_succ hstep, steps_succ hstep, ih]
      | error fault r' =>
          have hstuck : ∀ n, steps api n r = r := by
            intro n
            cases n with
            | zero => rfl
            | succ n => rw [steps, hstep]
          rw [hstuck, hstuck, hstuck]

theorem failure_of_error {fault : Fault} (h : step api r = .error fault r') :
    failure api r = some fault := by
  unfold failure
  rw [h]

theorem failing_now {fault : Fault} (h : step api r = .error fault r') :
    failure api (steps api 0 r) ≠ none := by
  show failure api r ≠ none
  rw [failure_of_error h]
  exact nofun

/-- **Each call of `run` ends**, if it does not fail. -/
theorem round_ends (api : EventHandlers σ) (r : Reactor σ) :
    ∃ n, (steps api n r).phase = .top ∨ failure api (steps api n r) ≠ none := by
  induction hrank : rank r using WellFoundedLT.induction generalizing r with
  | ind a ih =>
      subst hrank
      by_cases hphase : r.phase = .top
      · exact ⟨0, .inl hphase⟩
      cases hstep : step api r with
      | error fault r' => exact ⟨0, .inr (failing_now hstep)⟩
      | ok _ r' =>
          obtain ⟨n, hn⟩ := ih (rank r') (step_rank hphase hstep) r' rfl
          exact ⟨n + 1, (steps_succ hstep).symm ▸ hn⟩

/-- A loop that goes through a list comes to each of its items. -/
theorem loop_comes {α : Type} {loop : List α → Phase} {items : List α} {a : α}
    (hnext : ∀ r r' a items, r.phase = loop (a :: items) → step api r = .ok () r' →
      r'.phase = loop items)
    (hphase : r.phase = loop items) (ha : a ∈ items) :
    ∃ n, (∃ rest, (steps api n r).phase = loop (a :: rest)) ∨
      failure api (steps api n r) ≠ none := by
  induction items generalizing r with
  | nil => cases ha
  | cons first items ih =>
      rcases List.mem_cons.mp ha with rfl | ha
      · exact ⟨0, .inl ⟨items, hphase⟩⟩
      cases hstep : step api r with
      | error fault r' => exact ⟨0, .inr (failing_now hstep)⟩
      | ok _ r' =>
          obtain ⟨n, hn⟩ := ih (hnext r r' first items hphase hstep) ha
          exact ⟨n + 1, (steps_succ hstep).symm ▸ hn⟩

/-- `run` comes to each descriptor that `PR_Poll` has reported about. -/
theorem event_comes {map : List (Option Nat × Nat)} {pds : List PollDesc} {desc : PollDesc}
    (hphase : r.phase = .events map pds) (hdesc : desc ∈ pds) :
    ∃ n, (∃ rest, (steps api n r).phase = .events map (desc :: rest)) ∨
      failure api (steps api n r) ≠ none :=
  loop_comes (fun _ _ _ _ => events_next) hphase hdesc

/-- `run` comes to each entry that a scan has taken. -/
theorem timeout_comes {es : List Entry} {e : Entry} (hphase : r.phase = .timeouts es)
    (he : e ∈ es) :
    ∃ n, (∃ rest, (steps api n r).phase = .timeouts (e :: rest)) ∨
      failure api (steps api n r) ≠ none :=
  loop_comes (fun _ _ _ _ => timeouts_next) hphase he

end Reactor

end Negatus
