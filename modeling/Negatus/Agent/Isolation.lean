import Negatus.Agent.Delivery
import Negatus.Agent.Wakeups

/-!
# Connections do not interfere

Handlers share the reactor and the answers of the system. A connection of the agent still
behaves as one that is alone with a reactor of its own: whatever the others do, it is where
some run of a lone connection comes to. So what holds of all runs of a connection holds of
each connection of the agent, in any interleaving.

The two differ in what belongs to the reactor: the answers that are left, and the timers,
which a lone connection keeps.
-/

namespace Negatus

open Foundations

namespace CommandEventHandler

variable {P : Platform} {socket : Nat} {os : Os} {acts : List Act} {s c c' : Connection}

theorem run_append (acts : List Act) (act : Act) :
    run P (acts ++ [act]) = (do run P acts; handle P act) := by
  induction acts with
  | nil =>
      show (handle P act >>= fun _ => pure ()) = (pure () >>= fun _ => handle P act)
      rw [pure_bind]
      exact bind_pure _
  | cons first acts ih =>
      show (handle P first >>= fun _ => run P (acts ++ [act])) = _
      rw [ih]
      exact (bind_assoc (handle P first) (fun _ => run P acts) fun _ => handle P act).symm

/-- A run goes on with one more call. -/
theorem reached_append (h : returns P socket os acts = true) {act : Act} {fault : Option Fault}
    (hrun : Yields (handle P act) (reached P socket os acts) fault c') :
    reached P socket os (acts ++ [act]) = c' ∧
      returns P socket os (acts ++ [act]) = fault.isNone := by
  have hbefore := run_of_returns h
  have hafter : run P (acts ++ [act]) (new socket os) = handle P act (reached P socket os acts) := by
    rw [run_append]
    exact bind_ok hbefore
  unfold returns
  unfold reached at hafter hrun ⊢
  rw [hafter]
  cases fault with
  | none =>
      rw [show handle P act _ = .ok () c' from hrun]
      exact ⟨rfl, rfl⟩
  | some e =>
      rw [show handle P act _ = .error e c' from hrun]
      exact ⟨rfl, rfl⟩

/-- The connections `s` and `c` differ in the reactor's part. -/
def Alike (s c : Connection) : Prop := c = s.meanwhile c.io.os c.io.timers

theorem Alike.resumed (h : Alike s c) (os : Os) :
    c.setIo (EventHandler.resume os c.io) = s.meanwhile os [] := by
  rw [Alike] at h
  rw [h]
  rfl

/-- A connection that waits for its socket is called with an answer of `PR_Poll`. -/
theorem Alike.event (h : Alike s c) (hnone : s.io.timers = []) {asked : PollDesc}
    (hasked : getPollDescs c = [asked]) {flags : PollFlags}
    (hflags : (asked.report flags).out_flags ≠ {}) (os : Os) :
    handle P (.event flags os) s =
      handleEvent P (asked.report flags) (c.setIo (EventHandler.resume os c.io)) := by
  have hasked' : getPollDescs s = [asked] := by
    rw [Alike] at h
    rw [h] at hasked
    exact hasked
  rw [h.resumed, handle, bind_ok (show (get : Call Connection) s = .ok s s from rfl), hasked', hnone]
  exact congrFun (if_neg hflags) s

/-- A connection that waits for a timer is called when it has expired. -/
theorem Alike.timeout (h : Alike s c) {t : Timeout} (hone : s.io.timers = [t]) (os : Os) :
    handle P (.timeout os) s = handleTimeout P (c.setIo (EventHandler.resume os c.io)) := by
  rw [h.resumed, handle, bind_ok (show (get : Call Connection) s = .ok s s from rfl), hone]
  rfl

/-- A timeout leaves a connection without a data handler as it is, and fails. -/
theorem handleTimeout_idle (hlive : c.deleted = false) (hidle : c.mDataEventHandler = none) :
    handleTimeout P c = .error (.crash .nullDeref) c := by
  have hself : self c = .ok c c := by
    show (if c.deleted then throw .useAfterFree else pure c : Call Connection) c = _
    rw [hlive]
    rfl
  unfold handleTimeout
  rw [bind_ok hself, hidle]
  rfl

end CommandEventHandler

namespace Agent

open Reactor CommandEventHandler

variable {P : Platform} {k : Nat} {w w' : Agent} {fault : Option Fault}
  {calls : List ReactorCall} {r r' : Reactor Agent}

/-- Connection `c` is where a run of a lone connection comes to. The timers of an open one
are those that the reactor has for it. -/
structure Lone (P : Platform) (k : Nat) (c : Connection) (os : Os) (acts : List Act) : Prop where
  alike : Alike (reached P k os acts) c
  returns : returns P k os acts = true
  timers : c.mClosed = false → (reached P k os acts).io.timers.length = c.credit

/-- All connections are as in a run of a lone connection. -/
def Isolated (P : Platform) (w : Agent) : Prop :=
  ∀ (k : Nat) (c : Connection), w.handlers[k]? = some (.command c) → ∃ os acts, Lone P k c os acts

/-- A member function does with a connection what the reactor of a lone one does with it, or
fails at once. -/
def Mimicked (P : Platform) (due : Nat) (m : Call Unit) (os : Os) (s c : Connection) : Prop :=
  (c.credit = due ∧ ∃ act, handle P act s = m (c.setIo (EventHandler.resume os c.io))) ∨
    ∃ e, m (c.setIo (EventHandler.resume os c.io)) = .error e (c.setIo (EventHandler.resume os c.io))

theorem born_lone {socket : Nat} {os : Os} {c : Connection} {io : Io}
    (hborn : Born P socket os (.command c) io) : Lone P socket c os [] := by
  cases hborn
  exact ⟨rfl, rfl, fun _ => congrArg List.length (new_facts socket os).2.2⟩

/-- A call that returns goes on with the run of a lone connection. -/
theorem Called.isolated {m : Call Unit} {mh : EStateM Fault HeartbeatEventHandler Unit} {due : Nat}
    (hcalled : Called P m mh k w false none w' calls) (hm : Punctual due m mh)
    (hcalm : AllCalm w) (hw : Isolated P w)
    (hmimicked : ∀ c os acts, w.handlers[k]? = some (.command c) → Lone P k c os acts →
      Mimicked P due m w.os (reached P k os acts) c) : Isolated P w' := by
  cases hcalled with
  | nothing => exact hw
  | created a accepts h io hget hborn =>
      intro j c hget'
      rcases getElem?_created hget' with ⟨rfl, rfl⟩ | ⟨-, hget'⟩
      · exact ⟨_, _, born_lone hborn⟩
      · exact hw j c hget'
  | heartbeat b b' _ hget hrun =>
      intro j c hget'
      rcases getElem?_update hget' with ⟨-, hc⟩ | ⟨-, hget'⟩
      · cases hc
      · exact hw j c hget'
  | command c c' _ _ hget hrun =>
      intro j d hget'
      rcases getElem?_update hget' with ⟨rfl, hd⟩ | ⟨-, hget'⟩
      · cases hd
        obtain ⟨os, acts, hlone⟩ := hw j c hget
        rcases hmimicked c os acts hget hlone with ⟨rfl, act, hact⟩ | ⟨e, hfail⟩
        · have hrun' : Yields (handle P act) (reached P j os acts) none c' := hact.trans hrun
          obtain ⟨hreached, hreturns⟩ := reached_append hlone.returns hrun'
          refine ⟨os, acts ++ [act], ?_, hreturns, fun hopen => ?_⟩
          · rw [hreached]
            rfl
          · have hspec := (hm.command _ (resume_rested (hcalm j _ hget).1 w.os) rfl).of_yields hrun
            obtain ⟨-, hcount⟩ := hspec hopen
            have hcredit : (c.setIo (EventHandler.resume w.os c.io)).credit = c.credit := rfl
            rw [hcredit] at hcount
            rw [hreached]
            exact Nat.add_right_cancel (hcount le_rfl)
        · cases hfail.symm.trans hrun
      · exact hw j d hget'

/-- A call that fails has gone on with that run as well, or has left the connection alone. -/
theorem Called.alike {m : Call Unit} {mh : EStateM Fault HeartbeatEventHandler Unit} {due : Nat}
    (hcalled : Called P m mh k w false fault w' calls) (hw : Isolated P w)
    (hmimicked : ∀ c os acts, w.handlers[k]? = some (.command c) → Lone P k c os acts →
      Mimicked P due m w.os (reached P k os acts) c) :
    ∀ (j : Nat) (c : Connection), w'.handlers[j]? = some (.command c) →
      ∃ os acts, Alike (reached P j os acts) c := by
  have hbefore : ∀ (j : Nat) (c : Connection), w.handlers[j]? = some (.command c) →
      ∃ os acts, Alike (reached P j os acts) c := fun j c hget =>
    have ⟨os, acts, hlone⟩ := hw j c hget
    ⟨os, acts, hlone.alike⟩
  intro j c hget'
  cases hcalled with
  | nothing => exact hbefore j c hget'
  | refused => exact hbefore j c hget'
  | created a accepts h io hget hborn =>
      rcases getElem?_created hget' with ⟨rfl, rfl⟩ | ⟨-, hget'⟩
      · exact ⟨_, _, (born_lone hborn).alike⟩
      · exact hbefore j c hget'
  | heartbeat b b' _ hget hrun =>
      rcases getElem?_update hget' with ⟨-, hc⟩ | ⟨-, hget'⟩
      · cases hc
      · exact hbefore j c hget'
  | command d d' _ _ hget hrun =>
      rcases getElem?_update hget' with ⟨rfl, hd⟩ | ⟨-, hget'⟩
      · cases hd
        obtain ⟨os, acts, hlone⟩ := hw j d hget
        rcases hmimicked d os acts hget hlone with ⟨-, act, hact⟩ | ⟨e, hfail⟩
        · have hrun' : Yields (handle P act) (reached P j os acts) fault c := by
            unfold Yields at hrun ⊢
            rw [hact]
            exact hrun
          refine ⟨os, acts ++ [act], ?_⟩
          rw [(reached_append hlone.returns hrun').1]
          rfl
        · obtain ⟨-, rfl⟩ := hrun.of_error hfail
          exact ⟨os, acts, hlone.alike.resumed w.os⟩
      · exact hbefore j c hget'

/-! ## What the reactor calls -/

/-- A connection that asks about its socket has no timer. -/
theorem credit_of_polled {c : Connection} {desc : PollDesc}
    (h : CommandEventHandler.getPollDescs c = [desc]) : c.credit = 0 := by
  unfold CommandEventHandler.getPollDescs at h
  unfold Connection.credit
  split at h
  · cases h
  · cases hdata : c.mDataEventHandler with
    | none => rfl
    | some d =>
        cases d with
        | subprocess d =>
            rw [hdata] at h
            cases h
        | _ => rfl

theorem event_mimicked {map : List (Option Nat × Nat)} {desc : PollDesc} {pds : List PollDesc}
    (hdelivered : Delivered r) (hphase : r.phase = .events map (desc :: pds))
    (hflags : desc.out_flags ≠ {}) (hmap : map.lookup desc.fd = some k) {c : Connection} {os : Os}
    {acts : List Act} (hget : r.world.handlers[k]? = some (.command c)) (hlone : Lone P k c os acts) :
    Mimicked P 0 (CommandEventHandler.handleEvent P desc) r.world.os (reached P k os acts) c := by
  obtain ⟨j, hasked, hfound⟩ := (hdelivered map (desc :: pds) hphase).looked_up List.mem_cons_self
  obtain rfl : j = k := Option.some.inj (hfound.symm.trans hmap)
  obtain ⟨-, h, asked, flags, hget', hopen, hdescs, rfl⟩ := hasked
  obtain rfl := Option.some.inj (hget.symm.trans hget')
  have hcredit := credit_of_polled hdescs
  have hnone := List.length_eq_zero_iff.mp ((hlone.timers hopen).trans hcredit)
  exact .inl ⟨hcredit, .event flags r.world.os, hlone.alike.event hnone hdescs hflags r.world.os⟩

theorem timeout_mimicked (h : Awake r) {e : Entry} {es : List Entry}
    (hphase : r.phase = .timeouts (e :: es)) {c : Connection} {os : Os} {acts : List Act}
    (hget : r.world.handlers[e.evtHandler]? = some (.command c))
    (hlone : Lone P e.evtHandler c os acts) :
    Mimicked P 1 (CommandEventHandler.handleTimeout P) r.world.os
      (reached P e.evtHandler os acts) c := by
  have hr := (h.calm _ _ hget).1
  cases hclosed : c.mClosed with
  | true => exact .inr ⟨_, handleTimeout_idle hr.alive (hr.idle hclosed)⟩
  | false =>
      obtain ⟨d, hdata⟩ := (h.attended_iff hphase hget).mpr hclosed
      have hcredit : c.credit = 1 := by
        unfold Connection.credit
        rw [hdata]
        exact if_neg (Bool.eq_false_iff.mp (hr.dataOpen _ hdata))
      obtain ⟨t, hone⟩ := List.length_eq_one_iff.mp ((hlone.timers hclosed).trans hcredit)
      exact .inl ⟨hcredit, .timeout r.world.os, hlone.alike.timeout hone r.world.os⟩

theorem Isolated.turn (h : Isolated P r.world) (hawake : Awake r) (hdelivered : Delivered r)
    (hturn : Turn (api P) r none r') : Isolated P r'.world := by
  cases hturn with
  | event map desc pds j hphase hflags hmap hlive fault world calls hends =>
      rw [obeyAll_world]
      exact (handleEvent_ends hends).isolated (event_punctual desc) hawake.calm h
        fun c os acts => event_mimicked hdelivered hphase hflags hmap
  | timeout e es hphase hlive fault world calls hends =>
      rw [obeyAll_world]
      exact (handleTimeout_ends hends).isolated timeout_punctual hawake.calm h
        fun c os acts => timeout_mimicked hawake hphase
  | _ => exact h

theorem Isolated.alike (h : Isolated P r.world) (hawake : Awake r) (hdelivered : Delivered r)
    (hturn : Turn (api P) r fault r') :
    ∀ (j : Nat) (c : Connection), r'.world.handlers[j]? = some (.command c) →
      ∃ os acts, Alike (reached P j os acts) c := by
  have hbefore : ∀ (j : Nat) (c : Connection), r.world.handlers[j]? = some (.command c) →
      ∃ os acts, Alike (reached P j os acts) c := fun j c hget =>
    have ⟨os, acts, hlone⟩ := h j c hget
    ⟨os, acts, hlone.alike⟩
  cases hturn with
  | event map desc pds j hphase hflags hmap hlive fault world calls hends =>
      rw [obeyAll_world]
      exact (handleEvent_ends hends).alike h
        fun c os acts => event_mimicked hdelivered hphase hflags hmap
  | timeout e es hphase hlive fault world calls hends =>
      rw [obeyAll_world]
      exact (handleTimeout_ends hends).alike h fun c os acts => timeout_mimicked hawake hphase
  | _ => exact hbefore

theorem start_isolated (os : Os) (polls : List (List PollFlags)) (accepts : List Bool) :
    Isolated P (start os polls accepts).world := by
  intro k c hget
  rcases List.mem_pair.mp (List.mem_of_getElem? hget) with hc | hc <;> cases hc

theorem reached_isolated {os : Os} {polls : List (List PollFlags)} {accepts : List Bool}
    (h : Reached (api P) (Unstopped (api P)) (start os polls accepts) r) : Isolated P r.world := by
  induction h with
  | start => exact start_isolated os polls accepts
  | step h hstopless hstep ih =>
      have hyields : Yields (step (api P)) _ none _ := hstep
      exact ih.turn (reached_awake h) (reached_delivered h) (turn_of_yields hyields hstopless)

/-- **Connections do not interfere.** In every state of a run without `stop`, whatever other
connections and heartbeats do in between, each connection is where a run of a lone
connection comes to, but for the answers of the system and the timers, which are the
reactor's. As long as no call of the agent has failed, none of that run has. -/
theorem connections_isolated (P : Platform) (os : Os) (polls : List (List PollFlags))
    (accepts : List Bool) (r : Reactor Agent)
    (h : Moment (api P) (Unstopped (api P)) (start os polls accepts) r) (k : Nat) (c : Connection)
    (hget : r.world.handlers[k]? = some (.command c)) :
    ∃ os' acts, Alike (CommandEventHandler.reached P k os' acts) c ∧
      (Reached (api P) (Unstopped (api P)) (start os polls accepts) r →
        returns P k os' acts = true) := by
  by_cases hreached : Reached (api P) (Unstopped (api P)) (start os polls accepts) r
  · obtain ⟨os', acts, hlone⟩ := reached_isolated hreached k c hget
    exact ⟨os', acts, hlone.alike, fun _ => hlone.returns⟩
  · obtain ⟨r₁, fault, hbefore, hstopless, hfail⟩ := h.resolve_left hreached
    have hturn : Turn (api P) r₁ (some fault) r :=
      turn_of_yields (show Yields (step (api P)) r₁ (some fault) r from hfail) hstopless
    obtain ⟨os', acts, halike⟩ := (reached_isolated hbefore).alike (reached_awake hbefore)
      (reached_delivered hbefore) hturn k c hget
    exact ⟨os', acts, halike, fun h => absurd h hreached⟩

/-- Two clients, of which one sends a word that is no command and the other quits, in one
round. -/
def twoClients : Reactor Agent :=
  start { recvs := [.data 104 (str "i\n"), .wouldBlock, .wouldBlock, .data 113 (str "uit\n")] }
    [[{ read := true }], [{ read := true }], [{}, {}, { read := true }, { read := true }]] []

theorem connections_isolated_both :
    let r := Reactor.steps (api .plain) 27 twoClients
    ∃ c c', r.world.handlers[2]? = some (.command c) ∧ r.world.handlers[3]? = some (.command c') ∧
      c.mClosed = false ∧ c'.mClosed = true ∧
      (∃ os acts, Alike (CommandEventHandler.reached .plain 2 os acts) c) ∧
      ∃ os acts, Alike (CommandEventHandler.reached .plain 3 os acts) c' := by
  intro r
  have hfirst : (r.world.handlers[2]?.bind EventHandler.connection?).any (!·.mClosed) = true := by
    decide +kernel
  have hsecond : (r.world.handlers[3]?.bind EventHandler.connection?).any (·.mClosed) = true := by
    decide +kernel
  have hsteps : Reached (api .plain) (fun _ => True) twoClients r :=
    Reached.start.steps fun _ _ => trivial
  have hreached : Reached (api .plain) (Unstopped (api .plain)) twoClients r :=
    reached_unstopped hsteps
  obtain ⟨c, hc, hopen⟩ := (Option.any_eq_true _ _).mp hfirst
  obtain ⟨c', hc', hclosed⟩ := (Option.any_eq_true _ _).mp hsecond
  have hget := EventHandler.bind_connection hc
  have hget' := EventHandler.bind_connection hc'
  obtain ⟨os, acts, halike, -⟩ :=
    connections_isolated .plain _ _ _ r (.inl hreached) 2 c hget
  obtain ⟨os', acts', halike', -⟩ :=
    connections_isolated .plain _ _ _ r (.inl hreached) 3 c' hget'
  exact ⟨c, c', hget, hget', by simpa using hopen, hclosed, ⟨os, acts, halike⟩, os', acts', halike'⟩

end Agent

end Negatus
