import Mathlib.Data.List.ReduceOption
import Negatus.Agent.Rounds
import Negatus.CommandEventHandler.Crashes

/-!
# What the agent dies of

The next step fails by the doing of the handler that `run` calls, and in no other way. An
acceptor does not look at what `PR_Accept` returns. A connection comes to a risky line. A
connection or a heartbeat receives a line that is too long for an `int`. A timer comes to a
connection that has been closed. A heartbeat finds no address. The process dies of these; only
in a line of `exec` it goes on for ever instead. What kills it from outside, its own `kill`
among it, is not a failure of a step.
-/

namespace Negatus

open Foundations BufferedSocket

/-! ## Heartbeats -/

namespace Shell

/-- The address of the first interface that has one begins with a NUL. -/
def NoAddress (s : System) : Prop := ∃ text, (s.texts.take 4).reduceOption.head? = some (0 :: text)

theorem cstr_fgets_eq_nil (b : UInt8) (text : Bytes) :
    cstr (fgets (b :: text)).1 = [] ↔ b = 0 := by
  obtain ⟨more, hmore⟩ : ∃ more, (fgets (b :: text)).1 = b :: more := by
    have hsplit := fgets_append (b :: text)
    cases hline : (fgets (b :: text)).1 with
    | nil =>
        have hshort := fgets_shorter (List.cons_ne_nil b text)
        rw [hline, List.nil_append] at hsplit
        rw [hsplit] at hshort
        exact absurd hshort (lt_irrefl _)
    | cons c more =>
        rw [hline, List.cons_append] at hsplit
        exact ⟨more, by rw [(List.cons.inj hsplit).1]⟩
  rw [hmore]
  by_cases hb : b = 0
  · simp [cstr, hb]
  · simp [cstr, hb]

/-- `id` goes wrong only there. -/
theorem id_go_fails (ifaces : List Bytes) (s : System) :
    Ensures (id.go ifaces) s
      (fun _ _ => ¬ ∃ text, (s.texts.take ifaces.length).reduceOption.head? = some (0 :: text))
      (fun e _ => e = .undefined ∧
        ∃ text, (s.texts.take ifaces.length).reduceOption.head? = some (0 :: text)) := by
  induction ifaces generalizing s with
  | nil => exact nofun
  | cons iface ifaces ih =>
      unfold id.go
      rw [ensures_bind]
      unfold ask
      rw [ensures_modifyGet]
      obtain ⟨checks, texts, dirs, kinds, nows, testRoot⟩ := s
      rcases texts with _ | ⟨_ | text, texts⟩
      -- the file cannot be opened: the next interface
      · simpa [System.text] using ih ⟨checks, [], dirs, kinds, nows, testRoot⟩
      · simpa [System.text, List.reduceOption_cons_of_none] using
          ih ⟨checks, texts, dirs, kinds, nows, testRoot⟩
      · show Ensures (if (if text = [] then str "/sys/class/net/" ++ iface ++ str "/address"
          else cstr (fgets text).1) = [] then throw Crash.undefined else _ : Sys Bytes) _ _ _
        cases text with
        | nil =>
            rw [if_pos rfl, if_neg (List.append_ne_nil_of_right_ne_nil _ (by decide))]
            rintro ⟨text, htext⟩
            cases htext
        | cons b text =>
            rw [if_neg (List.cons_ne_nil b text)]
            by_cases hb : b = 0
            · rw [if_pos ((cstr_fgets_eq_nil b text).mpr hb), hb]
              exact ⟨rfl, text, rfl⟩
            · rw [if_neg (mt (cstr_fgets_eq_nil b text).mp hb)]
              rintro ⟨text', htext⟩
              exact hb (List.cons.inj (Option.some.inj htext)).1

theorem id_fails (s : System) :
    Ensures id s (fun _ _ => ¬ NoAddress s) (fun e _ => e = .undefined ∧ NoAddress s) :=
  id_go_fails [str "wlan0", str "usb0", str "eth0", str "lo"] s

end Shell

namespace HeartbeatEventHandler

/-- A thump kills it if and only if there is no address. -/
theorem handleTimeout_fatal (P : Platform) (h : HeartbeatEventHandler) :
    Ensures (handleTimeout P) h (fun _ _ => ¬ Shell.NoAddress h.io.os.toSystem)
      (fun fault _ => fault = .crash .undefined ∧ Shell.NoAddress h.io.os.toSystem) := by
  unfold handleTimeout onIo
  rw [ensures_zoom, ensures_bind, ensures_modify]
  unfold sendThump onSystem
  rw [ensures_bind, ensures_zoom]
  unfold Shell.ask
  rw [ensures_modifyGet, ensures_bind, ensures_zoom]
  refine (Shell.id_fails _).mono (fun id s hok => hok) ?_
  rintro fault s ⟨rfl, hno⟩
  exact ⟨rfl, hno⟩

end HeartbeatEventHandler

namespace Agent

open Reactor

variable {P : Platform} {k : Nat} {w w' : Agent} {fault : Option Fault}
  {calls : List ReactorCall} {r : Reactor Agent}

/-- Why the next step fails, and how. -/
inductive Cause (P : Platform) (r : Reactor Agent) : Fault → Prop
  /-- a connection comes to a line that is risky, or too long -/
  | connection (k : Nat) (desc : PollDesc) (c c' : Connection) (fault : Fault)
      (hcalls : Calls r k desc) (hget : r.world.handlers[k]? = some (.command c))
      (hrun : CommandEventHandler.handleEvent P desc
        (c.setIo (EventHandler.resume r.world.os c.io)) = .error fault c')
      (hfatal : CommandEventHandler.Fatal P fault c') : Cause P r fault
  /-- a heartbeat comes to a line that is too long -/
  | heartbeat (k : Nat) (desc : PollDesc) (h h' : HeartbeatEventHandler)
      (hcalls : Calls r k desc) (hget : r.world.handlers[k]? = some (.heartbeat h))
      (hrun : HeartbeatEventHandler.handleEvent desc
        { h with io := EventHandler.resume r.world.os h.io } = .error (.crash .undefined) h')
      (hlong : ¬ FirstLineFits (drain 256 h'.io).unread) : Cause P r (.crash .undefined)
  /-- `PR_Accept` returns NULL -/
  | acceptor (k : Nat) (desc : PollDesc) (a : SocketAcceptor)
      (hcalls : Calls r k desc) (hget : r.world.handlers[k]? = some (.acceptor a))
      (hread : desc.out_flags.read = true) (hnull : r.world.accepts.headD true = false) :
      Cause P r (.crash .nullDeref)
  /-- the timer of a connection that has been closed in the same round -/
  | unattended (e : Entry) (es : List Entry) (c : Connection) (hphase : r.phase = .timeouts (e :: es))
      (hget : r.world.handlers[e.evtHandler]? = some (.command c)) (hclosed : c.mClosed = true) :
      Cause P r (.crash .nullDeref)
  /-- no interface has an address -/
  | thump (e : Entry) (es : List Entry) (h : HeartbeatEventHandler)
      (hphase : r.phase = .timeouts (e :: es))
      (hget : r.world.handlers[e.evtHandler]? = some (.heartbeat h))
      (hno : Shell.NoAddress r.world.os.toSystem) : Cause P r (.crash .undefined)

/-! ## How the next step fails -/

/-- The step fails as the member function does that it calls. -/
theorem Tidy.invoke_fault (h : Tidy r) (hk : k ∈ r.mEvtHandlers) {member : Agent → Outcome Agent}
    {m : Call Unit} {mh : EStateM Fault HeartbeatEventHandler Unit} (hm : Member m mh)
    {stopped : Bool} (phase : Phase) (fired : List (Entry × Nat))
    (heq : member r.world = leaving stopped fault w' calls)
    (hcalled : Called P m mh k r.world stopped fault w' calls) :
    Yields (invoke (api P) k member) { r with phase, fired } fault
      (if stopped then ({ r with phase, fired }.obeyAll w' calls).halted (api P)
        else { r with phase, fired }.obeyAll w' calls) := by
  let r₁ : Reactor Agent := { r with phase, fired }
  have hlive : k ∉ r.deleted := h.kept k hk
  have hinvoke : invoke (api P) k member r₁ = perform (api P) (leaving stopped fault w' calls) r₁ := by
    unfold invoke
    rw [if_neg hlive, heq]
  cases stopped with
  | false =>
      cases fault with
      | none => exact hinvoke
      | some fault => exact hinvoke
  | true =>
      obtain rfl := (hcalled.freed_iff hm h.calm).mpr rfl
      exact hinvoke.trans
        (perform_stops (r := r₁) h.once h.kept (hcalled.stopped_handlers r₁) .useAfterFree)

theorem failure_of_yields {m : EStateM Fault (Reactor Agent) Unit} {r₁ r' : Reactor Agent}
    (hstep : Reactor.step (api P) r = m r₁) (h : Yields m r₁ fault r') :
    Reactor.failure (api P) r = fault := by
  unfold Reactor.failure
  rw [hstep]
  cases fault with
  | none => rw [show m r₁ = .ok () r' from h]
  | some fault => rw [show m r₁ = .error fault r' from h]

theorem Tidy.failure_event (h : Tidy r) {desc : PollDesc} (hcalls : Calls r k desc)
    {stopped : Bool}
    (heq : (api P).handleEvent k desc r.world = leaving stopped fault w' calls)
    (hcalled : Called P (CommandEventHandler.handleEvent P desc)
      (HeartbeatEventHandler.handleEvent desc) k r.world stopped fault w' calls) :
    Reactor.failure (api P) r = fault := by
  obtain ⟨map, pds, hphase, hflags, hmap⟩ := hcalls
  exact failure_of_yields (step_event hphase hflags hmap)
    (h.invoke_fault (h.looked_up hphase hmap) (event_member desc) (.events map pds) r.fired heq hcalled)

theorem Tidy.failure_timeout (h : Tidy r) {e : Entry} {es : List Entry} {stopped : Bool}
    (hphase : r.phase = .timeouts (e :: es))
    (heq : (api P).handleTimeout e.evtHandler r.world = leaving stopped fault w' calls)
    (hcalled : Called P (CommandEventHandler.handleTimeout P) (HeartbeatEventHandler.handleTimeout P)
      e.evtHandler r.world stopped fault w' calls) :
    Reactor.failure (api P) r = fault := by
  have hinside := h.inside
  rw [hphase] at hinside
  exact failure_of_yields (step_timeout hphase)
    (h.invoke_fault (hinside _ List.mem_cons_self) timeout_member (.timeouts es)
      (r.fired ++ [(e, r.scans)]) heq hcalled)

/-- What an acceptor comes to. -/
theorem acceptEvent_leaves {desc : PollDesc} {a : SocketAcceptor} (hfd : desc.fd = a.mSocket) :
    ∃ w' calls, acceptEvent P desc a w = leaving false
      (if desc.out_flags.read = true ∧ w.accepts.headD true = false then some (.crash .nullDeref)
        else none) w' calls := by
  unfold acceptEvent
  rw [if_neg (not_not.mpr hfd)]
  cases desc.out_flags.read with
  | false => exact ⟨_, _, rfl⟩
  | true =>
      cases w.accepts.headD true with
      | false => exact ⟨_, _, rfl⟩
      | true =>
          unfold createEventHandler
          cases a.mHandlerFactory <;> exact ⟨_, _, rfl⟩

section

variable {m : Call Unit} {mh : EStateM Fault HeartbeatEventHandler Unit} {stopped : Bool}

/-- A call of a connection is a run of its member function. -/
theorem Called.connection (h : Called P m mh k w stopped fault w' calls) {c : Connection}
    (hget : w.handlers[k]? = some (.command c)) :
    ∃ c', Yields m (c.setIo (EventHandler.resume w.os c.io)) fault c' := by
  cases h with
  | nothing hcommand => exact absurd hget (hcommand c)
  | refused a accepts hget' => cases hget.symm.trans hget'
  | created a accepts hd io hget' => cases hget.symm.trans hget'
  | command c₁ c' _ _ hget' hrun =>
      cases hget.symm.trans hget'
      exact ⟨c', hrun⟩
  | heartbeat b b' _ hget' => cases hget.symm.trans hget'

theorem Called.beat (h : Called P m mh k w stopped fault w' calls) {b : HeartbeatEventHandler}
    (hget : w.handlers[k]? = some (.heartbeat b)) :
    ∃ b', Yields mh { b with io := EventHandler.resume w.os b.io } fault b' := by
  cases h with
  | nothing _ hheartbeat => exact absurd hget (hheartbeat b)
  | refused a accepts hget' => cases hget.symm.trans hget'
  | created a accepts hd io hget' => cases hget.symm.trans hget'
  | command c₁ c' _ _ hget' => cases hget.symm.trans hget'
  | heartbeat b₁ b' _ hget' hrun =>
      cases hget.symm.trans hget'
      exact ⟨b', hrun⟩

end

section

variable {desc : PollDesc} {e : Entry} {es : List Entry}

/-! The next step fails as the member function does that it calls. -/

theorem Tidy.event_connection (h : Tidy r) {c : Connection} (hcalls : Calls r k desc)
    (hget : r.world.handlers[k]? = some (.command c)) :
    ∃ c', Yields (CommandEventHandler.handleEvent P desc)
      (c.setIo (EventHandler.resume r.world.os c.io)) (Reactor.failure (api P) r) c' := by
  obtain ⟨stopped, fault, w', calls, heq, hcalled⟩ := handleEvent_called P k desc r.world
  rw [h.failure_event hcalls heq hcalled]
  exact hcalled.connection hget

theorem Tidy.event_heartbeat (h : Tidy r) {b : HeartbeatEventHandler} (hcalls : Calls r k desc)
    (hget : r.world.handlers[k]? = some (.heartbeat b)) :
    ∃ b', Yields (HeartbeatEventHandler.handleEvent desc)
      { b with io := EventHandler.resume r.world.os b.io } (Reactor.failure (api P) r) b' := by
  obtain ⟨stopped, fault, w', calls, heq, hcalled⟩ := handleEvent_called P k desc r.world
  rw [h.failure_event hcalls heq hcalled]
  exact hcalled.beat hget

theorem Tidy.event_acceptor (h : Tidy r) (hdelivered : Delivered r) {a : SocketAcceptor}
    (hcalls : Calls r k desc) (hget : r.world.handlers[k]? = some (.acceptor a)) :
    Reactor.failure (api P) r =
      if desc.out_flags.read = true ∧ r.world.accepts.headD true = false then
        some (.crash .nullDeref) else none := by
  have hfd : desc.fd = a.mSocket := by
    obtain ⟨map, pds, hphase, -, hmap⟩ := hcalls
    obtain ⟨j, ⟨-, hd, asked, flags, hj, -, hasked, rfl⟩, hfound⟩ :=
      (hdelivered map (desc :: pds) hphase).looked_up List.mem_cons_self
    obtain rfl : j = k := Option.some.inj (hfound.symm.trans hmap)
    cases hget.symm.trans hj
    change a.getPollDescs = [asked] at hasked
    unfold SocketAcceptor.getPollDescs at hasked
    split at hasked
    · rw [← (List.cons.inj hasked).1]
      rfl
    · cases hasked
  obtain ⟨stopped, fault, w', calls, heq, hcalled⟩ := handleEvent_called P k desc r.world
  rw [h.failure_event hcalls heq hcalled]
  obtain ⟨w₁, calls₁, hleaves⟩ := acceptEvent_leaves (P := P) (w := r.world) hfd
  have hacceptor : (api P).handleEvent k desc r.world = acceptEvent P desc a r.world := by
    show handleEvent P k desc r.world = _
    unfold handleEvent
    rw [hget]
  have hends := leaving_stopless
    (if desc.out_flags.read = true ∧ r.world.accepts.headD true = false then
      some (.crash .nullDeref) else none) w₁ calls₁
  rw [← hleaves, ← hacceptor, heq] at hends
  exact (leaving_ends hends).2.1

theorem Tidy.timeout_connection (h : Tidy r) {c : Connection} (hphase : r.phase = .timeouts (e :: es))
    (hget : r.world.handlers[e.evtHandler]? = some (.command c)) :
    ∃ c', Yields (CommandEventHandler.handleTimeout P)
      (c.setIo (EventHandler.resume r.world.os c.io)) (Reactor.failure (api P) r) c' := by
  obtain ⟨stopped, fault, w', calls, heq, hcalled⟩ := handleTimeout_called P e.evtHandler r.world
  rw [h.failure_timeout hphase heq hcalled]
  exact hcalled.connection hget

theorem Tidy.timeout_heartbeat (h : Tidy r) {b : HeartbeatEventHandler}
    (hphase : r.phase = .timeouts (e :: es))
    (hget : r.world.handlers[e.evtHandler]? = some (.heartbeat b)) :
    ∃ b', Yields (HeartbeatEventHandler.handleTimeout P)
      { b with io := EventHandler.resume r.world.os b.io } (Reactor.failure (api P) r) b' := by
  obtain ⟨stopped, fault, w', calls, heq, hcalled⟩ := handleTimeout_called P e.evtHandler r.world
  rw [h.failure_timeout hphase heq hcalled]
  exact hcalled.beat hget

end

section

variable {os : Os} {polls : List (List PollFlags)} {accepts : List Bool} {fault : Fault}

/-- Each cause is enough. -/
theorem Cause.failure (h : Reached (api P) (fun _ => True) (start os polls accepts) r)
    (hcause : Cause P r fault) : Reactor.failure (api P) r = some fault := by
  have htidy := reached_tidy h
  cases hcause with
  | connection k desc c c' _ hcalls hget hrun =>
      obtain ⟨c₁, hyields⟩ := htidy.event_connection (P := P) hcalls hget
      exact (hyields.of_error hrun).1
  | heartbeat k desc b b' hcalls hget hrun =>
      obtain ⟨b₁, hyields⟩ := htidy.event_heartbeat (P := P) hcalls hget
      exact (hyields.of_error hrun).1
  | acceptor k desc a hcalls hget hread hnull =>
      rw [htidy.event_acceptor (reached_delivered h) hcalls hget, if_pos ⟨hread, hnull⟩]
  | unattended e es c hphase hget hclosed =>
      obtain ⟨c', hrun⟩ := htidy.timeout_connection (P := P) hphase hget
      have hrested := resume_rested (htidy.calm _ _ hget).1 r.world.os
      have hspec := (CommandEventHandler.handleTimeout_fatal hrested.toSound).of_yields hrun
      cases hfail : Reactor.failure (api P) r with
      | none =>
          rw [hfail] at hspec
          exact absurd (hrested.idle hclosed) hspec
      | some fault =>
          rw [hfail] at hspec
          rw [hspec.1]
  | thump e es b hphase hget hno =>
      obtain ⟨b', hrun⟩ := htidy.timeout_heartbeat (P := P) hphase hget
      have hspec := (HeartbeatEventHandler.handleTimeout_fatal P _).of_yields hrun
      cases hfail : Reactor.failure (api P) r with
      | none =>
          rw [hfail] at hspec
          exact absurd hno hspec
      | some fault =>
          rw [hfail] at hspec
          rw [hspec.1]

end

end Agent

end Negatus
