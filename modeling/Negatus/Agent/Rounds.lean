import Negatus.Agent.Delivery
import Negatus.Agent.Wakeups
import Negatus.Reactor.Rounds

/-!
# The agent comes back to its loop

No loop of a handler is cut short in the model. So a call of `run` that does not come back to
the loop of `main` has crashed, or has called a handler that never returns: the loop of `exec`
over its variables has no end where one of them has no `=`. On the way `run` comes to each
event that `PR_Poll` has reported, and to each timer that has expired.
-/

namespace Negatus

open Foundations

namespace Agent

open Reactor

variable {P : Platform} {k : Nat} {w w' : Agent} {fault : Option Fault}
  {calls : List ReactorCall} {r r' : Reactor Agent}

/-- No loop of a connection is cut short. -/
theorem failing_fueled {e : Fault} {c c' : Connection}
    (h : CommandEventHandler.Failing P e c c') : e ≠ .outOfFuel := by
  cases h with
  | overlong => exact nofun
  | noData => exact nofun
  | line _ _ raw b _ hopen hidle hraw hget hline =>
      generalize CommandEventHandler.lineKind P (trim raw) = kind at hline
      cases hline <;> exact nofun

/-- Member functions whose loops are not cut short. -/
structure Fueled (m : Call Unit) (mh : EStateM Fault HeartbeatEventHandler Unit) : Prop where
  command : ∀ c, CommandEventHandler.Rested c →
    Ensures m c (fun _ _ => True) (fun e _ => e ≠ .outOfFuel)
  heartbeat : ∀ h, Ensures mh h (fun _ _ => True) (fun e _ => e ≠ .outOfFuel)

theorem event_fueled (desc : PollDesc) :
    Fueled (CommandEventHandler.handleEvent P desc) (HeartbeatEventHandler.handleEvent desc) where
  command _ hr :=
    Ensures.mono (CommandEventHandler.handleEvent_leads (P := P) hr.toSound desc)
      (fun _ _ _ => trivial) fun _ _ ⟨_, _, hfail⟩ => failing_fueled hfail
  heartbeat h :=
    (h.handleEvent_ensures desc).mono (fun _ _ _ => trivial) fun _ _ hfail => hfail.1 ▸ nofun

theorem timeout_fueled :
    Fueled (CommandEventHandler.handleTimeout P) (HeartbeatEventHandler.handleTimeout P) where
  command _ hr :=
    Ensures.mono (CommandEventHandler.handleTimeout_settles (P := P) hr.toSound hr.recvOpen)
      (fun _ _ _ => trivial) fun _ _ ⟨_, _, hfail⟩ => failing_fueled hfail
  heartbeat h :=
    (h.handleTimeout_ensures P).mono (fun _ _ _ => trivial) fun _ _ ⟨_, hfail⟩ => hfail ▸ nofun

theorem Called.fueled {m : Call Unit} {mh : EStateM Fault HeartbeatEventHandler Unit}
    {stopped : Bool} (h : Called P m mh k w stopped fault w' calls) (hm : Fueled m mh)
    (hw : AllCalm w) : fault ≠ some .outOfFuel := by
  rintro rfl
  cases h with
  | command c c' _ _ hget hrun =>
      exact (hm.command _ (resume_rested (hw k _ hget).1 w.os)).of_yields hrun rfl
  | heartbeat h h' _ hget hrun => exact (hm.heartbeat _).of_yields hrun rfl

/-- No step of the agent is cut short. -/
theorem Tidy.fueled (h : Tidy r) {fault : Fault} (hfail : Reactor.step (api P) r = .error fault r') :
    fault ≠ .outOfFuel := by
  have hyields : Yields (Reactor.step (api P)) r (some fault) r' := hfail
  rcases h.yields hyields with hturn | ⟨hfault, -⟩
  · rintro rfl
    cases hturn with
    | event map desc pds k hphase hflags hmap hlive fault world calls hends =>
        exact (handleEvent_ends hends).fueled (event_fueled desc) h.calm rfl
    | timeout e es hphase hlive fault world calls hends =>
        exact (handleTimeout_ends hends).fueled timeout_fueled h.calm rfl
  · rw [Option.some.inj hfault]
    exact nofun

/-- The next step calls a handler that goes on for ever. -/
def Hangs (P : Platform) (r : Reactor Agent) : Prop := failure (api P) r = some (.crash .hang)

/-- The next step goes wrong: NULL or freed memory is used, nothing catches an exception, or
the C++ has no defined behaviour. -/
def Crashes (P : Platform) (r : Reactor Agent) : Prop :=
  ∃ fault, failure (api P) r = some fault ∧ fault ≠ .outOfFuel ∧ fault ≠ .crash .hang

theorem Tidy.crashes (h : Tidy r) (hfail : failure (api P) r ≠ none) :
    Hangs P r ∨ Crashes P r := by
  obtain ⟨fault, hfault⟩ := Option.ne_none_iff_exists'.mp hfail
  obtain ⟨r', hstep⟩ := failure_eq_some (api P) hfault
  by_cases hhang : fault = .crash .hang
  · exact .inl (hfault.trans (congrArg some hhang))
  · exact .inr ⟨fault, hfault, h.fueled hstep, hhang⟩

/-- `run` calls handler `k` with an answer of `PR_Poll` next. -/
def Calls (r : Reactor Agent) (k : Nat) (desc : PollDesc) : Prop :=
  ∃ map pds, r.phase = .events map (desc :: pds) ∧ desc.out_flags ≠ {} ∧
    map.lookup desc.fd = some k

/-- **The agent comes back to its loop, and on the way to all that is to be done.** From every
state of a run finitely many steps lead back to the loop of `main`. While `run` works
through the answers of `PR_Poll`, it comes to each event that is left, and calls the handler
that has asked for it; and it comes to each timer that the scan has taken. All this unless the
process crashes first, or a handler is called that never returns: no loop of `run` itself
goes on for ever. -/
theorem rounds_end (P : Platform) (os : Os) (polls : List (List PollFlags))
    (accepts : List Bool) (r : Reactor Agent)
    (h : Reached (api P) (fun _ => True) (start os polls accepts) r) :
    (∃ n, (Reactor.steps (api P) n r).phase = .top ∨
      Hangs P (Reactor.steps (api P) n r) ∨ Crashes P (Reactor.steps (api P) n r)) ∧
      (∀ map pds desc, r.phase = .events map pds → desc ∈ pds → desc.out_flags ≠ {} →
        ∃ n, (∃ k, Calls (Reactor.steps (api P) n r) k desc ∧
            Asked (Reactor.steps (api P) n r).world k desc) ∨
          Hangs P (Reactor.steps (api P) n r) ∨ Crashes P (Reactor.steps (api P) n r)) ∧
      ∀ es e, r.phase = .timeouts es → e ∈ es →
        ∃ n, next? (Reactor.steps (api P) n r).phase = some e ∨
          Hangs P (Reactor.steps (api P) n r) ∨ Crashes P (Reactor.steps (api P) n r) := by
  have hreached : ∀ n, Reached (api P) (fun _ => True) (start os polls accepts)
      (Reactor.steps (api P) n r) := fun n => h.steps fun _ _ => trivial
  have hcrashes : ∀ n, failure (api P) (Reactor.steps (api P) n r) ≠ none →
      Hangs P (Reactor.steps (api P) n r) ∨ Crashes P (Reactor.steps (api P) n r) :=
    fun n => (reached_tidy (hreached n)).crashes
  refine ⟨?_, ?_, ?_⟩
  · obtain ⟨n, hn⟩ := round_ends (api P) r
    exact ⟨n, hn.imp_right (hcrashes n)⟩
  · intro map pds desc hphase hdesc hflags
    obtain ⟨n, hn⟩ := event_comes hphase hdesc
    refine ⟨n, hn.imp ?_ (hcrashes n)⟩
    rintro ⟨rest, hnext⟩
    obtain ⟨k, hasked, hmap⟩ :=
      (reached_delivered (hreached n) map (desc :: rest) hnext).looked_up List.mem_cons_self
    exact ⟨k, ⟨map, rest, hnext, hflags, hmap⟩, hasked⟩
  · intro es e hphase he
    obtain ⟨n, hn⟩ := timeout_comes hphase he
    refine ⟨n, hn.imp ?_ (hcrashes n)⟩
    rintro ⟨rest, hnext⟩
    rw [hnext]
    rfl

/-- `run` has just polled, and a connection has something to read. -/
theorem rounds_end_connection :
    let r := Reactor.steps (api .plain) 13 rebooting
    ∃ n, (∃ k, Calls (Reactor.steps (api .plain) n r) k ⟨some 2, { read := true }, { read := true }⟩ ∧
        Asked (Reactor.steps (api .plain) n r).world k
          ⟨some 2, { read := true }, { read := true }⟩) ∨
      Hangs .plain (Reactor.steps (api .plain) n r) ∨
        Crashes .plain (Reactor.steps (api .plain) n r) := by
  intro r
  have hphase : r.phase = .events [(some 3, 3), (some 2, 2), (some 1, 1), (some 0, 0)]
      [⟨some 0, { read := true }, {}⟩, ⟨some 1, { read := true }, {}⟩,
        ⟨some 2, { read := true }, { read := true }⟩, ⟨some 3, { read := true }, {}⟩] := by
    decide +kernel
  have hreached : Reached (api .plain) (fun _ => True) rebooting r :=
    Reached.start.steps fun _ _ => trivial
  exact (rounds_end .plain _ _ _ r hreached).2.1 _ _ _ hphase (by decide) (by decide)

end Agent

end Negatus
