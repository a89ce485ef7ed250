import Mathlib.Data.List.Range
import Negatus.Agent.Delivery
import Negatus.Agent.Options

/-!
# `main` from the first acceptor to the last handler

`main` reads its options and sets up two acceptors, and returns 1 if an option is wrong or one
of the acceptors cannot listen. Otherwise it calls `run` until a signal comes, and stops the
reactor at the end. By then each handler that has been created has been deleted, once, and
each socket that a handler has opened or accepted has been closed, once. The sockets of
`send_query` belong to no handler and are not among these.
-/

namespace Negatus

open Foundations BufferedSocket

/-- The answers of NSPR when a socket is set up: do the calls succeed? -/
structure Listening where
  openTCPSocket : Bool := true
  bind : Bool := true
  listen : Bool := true
deriving DecidableEq, Repr

def Listening.succeeds (a : Listening) : Bool := a.openTCPSocket && a.bind && a.listen

/-- `SocketAcceptor::listen`: its status. The acceptor registers with the reactor if it
succeeds. -/
def SocketAcceptor.listen (socket : Nat) (a : Listening) (h : SocketAcceptor) (os : Os) :
    Bool × SocketAcceptor × Os :=
  if h.mSocket.isSome then (false, h, os)
  else
    let mSocket := if a.openTCPSocket then some socket else none
    let h := { h with mSocket }
    let os := os.note (.openTCPSocket mSocket)
    if mSocket.isNone then (false, h, os)
    else
      let os := (os.note (.setSocketOption mSocket)).note (.setSocketOption mSocket)
      if !a.bind then (false, h, os)
      else (a.listen, h, os)

namespace Agent

open Reactor

def setUpAcceptor (fact : EventHandlerFactory) (a : Listening) (r : Reactor Agent) :
    Bool × Reactor Agent :=
  let k := r.world.handlers.length
  let (status, acceptor, os) := SocketAcceptor.listen k a ⟨fact, none, false⟩ r.world.os
  let r := { r with world := { r.world with handlers := r.world.handlers ++ [.acceptor acceptor], os } }
  (status, if status then r.registerHandler k else r)

/-- The acceptors of `main`, for commands and for heartbeats. -/
def setUp (commands heartbeats : Listening) (os : Os) (polls : List (List PollFlags))
    (accepts : List Bool) : Bool × Reactor Agent :=
  let (ok, r) := setUpAcceptor .command commands
    { world := { os := { os with calls := [] }, handlers := [], polls, accepts } }
  if !ok then (false, r)
  else setUpAcceptor .heartbeat heartbeats r

/-- What `main` is answered before its loop. -/
structure Startup where
  options : List SUTAgent.OptAnswer := []
  desktop : Bool := false
  /-- `/proc/mounts`, if it can be opened -/
  mounts : Option Bytes := none
  /-- the sockets for commands and for heartbeats, by their ports -/
  commands : Int16 → Listening := fun _ => {}
  heartbeats : Int16 → Listening := fun _ => {}

/-- Both acceptors can listen at the ports of the options. -/
def Startup.listens (s : Startup) (options : SUTAgent.Options) : Bool :=
  (s.commands options.port).succeeds && (s.heartbeats options.heartbeatPort).succeeds

/-- `main` has read its options and found the test root. -/
structure Startup.Configured (P : Platform) (s : Startup) (options : SUTAgent.Options)
    (mTestRoot : Bytes) : Prop where
  read : SUTAgent.readOptions P s.options {} = .ok (some options)
  found : ∃ fuel, Config.setTestRoot s.desktop fuel s.mounts options.testRoot [] = some mTestRoot

/-- How `main` ends: what it returns, and what it leaves. Between the acceptors and the loop it
sends its registration, on sockets of its own. The signal that ends the loop comes at any
time, and the loop looks for it between two calls of `run`. -/
inductive MainEnds (P : Platform) (s : Startup) (os : Os) (polls : List (List PollFlags))
    (accepts : List Bool) : Nat → Reactor Agent → Prop
  | optionError (hoptions : SUTAgent.readOptions P s.options {} = .ok none) :
      MainEnds P s os polls accepts 1
        { world := { os := { os with calls := [] }, handlers := [], polls, accepts } }
  | refused (options : SUTAgent.Options) (mTestRoot : Bytes) (r : Reactor Agent)
      (hconfigured : s.Configured P options mTestRoot)
      (hsetUp : setUp (s.commands options.port) (s.heartbeats options.heartbeatPort)
        { os with testRoot := mTestRoot } polls accepts = (false, r)) :
      MainEnds P s os polls accepts 1 r
  | stopped (options : SUTAgent.Options) (mTestRoot : Bytes) (r₀ r₁ r : Reactor Agent)
      (hconfigured : s.Configured P options mTestRoot)
      (hsetUp : setUp (s.commands options.port) (s.heartbeats options.heartbeatPort)
        { os with testRoot := mTestRoot } polls accepts = (true, r₀))
      (hrun : Reached (api P) (fun _ => True) r₀ r₁) (htop : r₁.phase = .top)
      (hstop : stop (api P) r₁ = .ok () r) : MainEnds P s os polls accepts 0 r

variable {P : Platform} {k : Nat} {w w' : Agent} {fault : Option Fault}
  {calls : List ReactorCall} {r r' : Reactor Agent}

/-! ## The acceptors -/

theorem listen_spec (socket : Nat) (a : Listening) (fact : EventHandlerFactory) (os : Os) :
    SocketAcceptor.listen socket a ⟨fact, none, false⟩ os =
      (a.succeeds, ⟨fact, if a.openTCPSocket then some socket else none, false⟩,
        { os with calls := os.calls ++
            if a.openTCPSocket then listening socket else [.openTCPSocket none] }) := by
  obtain ⟨opened, bound, listens⟩ := a
  have hos : ((os.note (.openTCPSocket (some socket))).note (.setSocketOption (some socket))).note
      (.setSocketOption (some socket)) = { os with calls := os.calls ++ listening socket } := by
    unfold Os.note
    simp only [List.append_assoc]
    rfl
  cases opened with
  | false => rfl
  | true =>
      cases bound with
      | false => exact congrArg (fun os => (false, _, os)) hos
      | true =>
          cases listens with
          | false => exact congrArg (fun os => (false, _, os)) hos
          | true => exact congrArg (fun os => (true, _, os)) hos

/-- `main` comes to its loop if both acceptors listen. -/
theorem setUp_ok {commands heartbeats : Listening} (os : Os) (polls : List (List PollFlags))
    (accepts : List Bool) :
    (setUp commands heartbeats os polls accepts).1 = (commands.succeeds && heartbeats.succeeds) ∧
      ((setUp commands heartbeats os polls accepts).1 = true →
        (setUp commands heartbeats os polls accepts).2 = start os polls accepts) := by
  unfold setUp setUpAcceptor
  simp only [listen_spec]
  cases hcommands : commands.succeeds with
  | false => exact ⟨rfl, nofun⟩
  | true =>
      have hopen : commands.openTCPSocket = true := by
        unfold Listening.succeeds at hcommands
        simp only [Bool.and_eq_true] at hcommands
        exact hcommands.1.1
      refine ⟨rfl, fun hheartbeats => ?_⟩
      change heartbeats.succeeds = true at hheartbeats
      have hopen' : heartbeats.openTCPSocket = true := by
        unfold Listening.succeeds at hheartbeats
        simp only [Bool.and_eq_true] at hheartbeats
        exact hheartbeats.1.1
      simp only [hopen, hopen', hheartbeats]
      rfl

/-! ## Handlers and sockets that are accounted for -/

/-- A call that returns the descriptor `fd`. -/
def Opens (fd : Nat) (call : NsprCall) : Prop :=
  call = .openTCPSocket (some fd) ∨ call = .accept (some fd)

/-- The descriptors that have been opened are those of handlers that have been created. -/
def Numbered (w : Agent) : Prop :=
  ∀ fd, ∀ call ∈ w.os.calls, Opens fd call → fd < w.handlers.length

/-- Each handler that has been created is registered or has been deleted, once. -/
structure Accounted (r : Reactor Agent) : Prop where
  all : ∀ k < r.world.handlers.length, k ∈ r.mEvtHandlers ∨ k ∈ r.deleted
  once : r.deleted.Nodup
  numbered : Numbered r.world

theorem usage_opens {fd fd' : Option Nat} {news : List NsprCall} (h : Usage fd fd' news) {n : Nat}
    {call : NsprCall} (hmem : call ∈ news) : ¬ Opens n call := by
  have huses : ∀ {call : NsprCall}, Uses fd call → ¬ Opens n call := by
    rintro call ⟨m, -, hcall | hcall⟩ (hopen | hopen) <;> cases hcall.symm.trans hopen
  cases h with
  | used _ _ h => exact huses (h call hmem)
  | closed m calls h =>
      rcases List.mem_append.mp hmem with hmem | hmem
      · exact huses (h call hmem)
      · rintro (hopen | hopen) <;> subst hopen <;> simp at hmem

theorem Numbered.append (h : Numbered w) {news : List NsprCall}
    (hcalls : w'.os.calls = w.os.calls ++ news)
    (hlen : w'.handlers.length = w.handlers.length) (hnews : ∀ n, ∀ call ∈ news, ¬ Opens n call) :
    Numbered w' := by
  intro fd call hmem hopen
  rw [hcalls] at hmem
  rw [hlen]
  rcases List.mem_append.mp hmem with hmem | hmem
  · exact h fd call hmem hopen
  · exact absurd hopen (hnews fd call hmem)

/-- A call opens the descriptor of a handler that it creates, and no other. -/
theorem Called.numbered {m : Call Unit} {mh : EStateM Fault HeartbeatEventHandler Unit}
    {stopped : Bool} (hcalled : Called P m mh k w stopped fault w' calls) (hm : Member m mh)
    (hw : Sockets w) (h : Numbered w) : Numbered w' := by
  cases hcalled with
  | nothing => exact h
  | refused a accepts =>
      refine h.append (List.append_assoc ..) rfl ?_
      rintro n call hmem (hopen | hopen) <;> subst hopen <;> simp at hmem
  | created a accepts hd io hget hborn =>
      obtain ⟨-, -, news, hcalls, husage⟩ := hborn.lives
      intro fd call hmem hopen
      show fd < (w.handlers ++ [hd]).length
      rw [List.length_append]
      change call ∈ io.os.calls at hmem
      rw [hcalls] at hmem
      rcases List.mem_append.mp hmem with hmem | hmem
      · change call ∈ w.os.calls ++ [.accept (some w.handlers.length)] ++
          [.setSocketOption (some w.handlers.length)] at hmem
        rw [List.append_assoc] at hmem
        rcases List.mem_append.mp hmem with hmem | hmem
        · exact Nat.lt_succ_of_lt (h fd call hmem hopen)
        · rcases hopen with rfl | rfl
          · simp at hmem
          · have hfd : fd = w.handlers.length := by simpa using hmem
            exact hfd ▸ Nat.lt_succ_self _
      · exact absurd hopen (usage_opens husage hmem)
  | command c c' _ _ hget hrun =>
      obtain ⟨-, news, hcalls, husage⟩ :=
        ((hm.commandLives _).of_yields hrun).lives (hw.owned k _ hget).consistent
      exact h.append hcalls List.length_set fun _ _ => usage_opens husage
  | heartbeat b b' _ hget hrun =>
      obtain ⟨-, news, hcalls, husage⟩ :=
        ((hm.heartbeatLives _).of_yields hrun).lives (hw.owned k _ hget).consistent
      exact h.append hcalls List.length_set fun _ _ => usage_opens husage

/-- A call registers the handler that it creates. -/
theorem Called.registers {m : Call Unit} {mh : EStateM Fault HeartbeatEventHandler Unit}
    {stopped : Bool} (hcalled : Called P m mh k r.world stopped fault w' calls)
    (h : ∀ k < r.world.handlers.length, k ∈ r.mEvtHandlers ∨ k ∈ r.deleted) :
    ∀ k < w'.handlers.length, k ∈ (r.obeyAll w' calls).mEvtHandlers ∨ k ∈ r.deleted := by
  rcases hcalled.calls_shape with ⟨hlen, io, rfl⟩ | ⟨hlen, io, rfl⟩
  · obtain ⟨es, -, -, -, hhandlers⟩ := obey_settings (k := k) { r with world := w' } io
    intro j hj
    rw [show (r.obeyAll w' (settings k io)).mEvtHandlers = r.mEvtHandlers from hhandlers]
    exact h j (hlen ▸ hj)
  · let n := r.world.handlers.length
    let r₁ : Reactor Agent := { r with world := w' }
    obtain ⟨es, -, -, -, hhandlers⟩ := obey_settings (k := n) (r₁.registerHandler n) io
    intro j hj
    rw [show (r.obeyAll w' (.registerHandler n :: settings n io)).mEvtHandlers =
      r.mEvtHandlers ++ [n] from hhandlers]
    rcases Nat.lt_or_eq_of_le (Nat.le_of_lt_succ (hlen ▸ hj)) with hlt | rfl
    · exact (h j hlt).imp_left (List.mem_append_left _)
    · exact .inl (List.mem_append_right _ List.mem_cons_self)

theorem Accounted.called {m : Call Unit} {mh : EStateM Fault HeartbeatEventHandler Unit}
    {stopped : Bool} (h : Accounted r) (hm : Member m mh) (hw : Sockets r.world)
    (hcalled : Called P m mh k r.world stopped fault w' calls) :
    Accounted (r.obeyAll w' calls) where
  all := by
    rw [obeyAll_world, obeyAll_deleted]
    exact hcalled.registers h.all
  once := by
    rw [obeyAll_deleted]
    exact h.once
  numbered := by
    rw [obeyAll_world]
    exact hcalled.numbered hm hw h.numbered

theorem Accounted.turn (h : Accounted r) (hlinked : Linked r) (hw : Sockets r.world)
    (hturn : Turn (api P) r none r') : Accounted r' := by
  cases hturn with
  | event map desc pds j hphase hflags hmap hlive fault world calls hends =>
      let r₁ : Reactor Agent := { r with phase := .events map pds }
      have h₁ : Accounted r₁ := ⟨h.all, h.once, h.numbered⟩
      exact h₁.called (event_member desc) hw (handleEvent_ends hends)
  | timeout e es hphase hlive fault world calls hends =>
      let r₁ : Reactor Agent := { r with phase := .timeouts es, fired := r.fired ++ [(e, r.scans)] }
      have h₁ : Accounted r₁ := ⟨h.all, h.once, h.numbered⟩
      exact h₁.called timeout_member hw (handleTimeout_ends hends)
  | delete i k hphase hget hlive hclosed =>
      refine ⟨fun j hj => ?_, List.nodup_cons.mpr ⟨hlive, h.once⟩, h.numbered⟩
      by_cases hjk : j = k
      · exact .inr (hjk ▸ List.mem_cons_self)
      · refine (h.all j hj).imp (fun hmem => ?_) (List.mem_cons_of_mem _)
        exact (hlinked.mem_eraseIdx hget).mpr ⟨hjk, hmem⟩
  | _ => exact ⟨h.all, h.once, h.numbered⟩

theorem start_accounted (os : Os) (polls : List (List PollFlags)) (accepts : List Bool) :
    Accounted (start os polls accepts) where
  all k hk := by
    have hk : k < 2 := hk
    refine .inl ?_
    show k ∈ [0, 1]
    rw [List.mem_pair]
    omega
  once := List.nodup_nil
  numbered fd call hmem hopen := by
    change call ∈ listening 0 ++ listening 1 at hmem
    show fd < 2
    rcases hopen with rfl | rfl
    · have : fd = 0 ∨ fd = 1 := by simpa [listening] using hmem
      omega
    · simp [listening] at hmem

theorem reached_accounted {ok : Reactor Agent → Prop} {os : Os} {polls : List (List PollFlags)}
    {accepts : List Bool} (h : Reached (api P) ok (start os polls accepts) r) : Accounted r := by
  induction h with
  | start => exact start_accounted os polls accepts
  | step h _ hstep ih =>
      have htidy := reached_tidy h
      have hyields : Yields (step (api P)) _ none _ := hstep
      exact ih.turn htidy.toLinked (reached_described h).sockets
        (turn_of_yields hyields (htidy.unstopped hstep))

/-! ## The end -/

theorem Numbered.close (h : Numbered w) (hw : Sockets w) (k : Nat) :
    Numbered ((api P).close k w) := by
  cases hget : w.handlers[k]? with
  | none =>
      rw [api_close_none P hget]
      exact h
  | some hd =>
      obtain ⟨-, -, -, news, hcalls, husage⟩ :=
        close_handler hd w.os (hw.owned k hd hget).consistent
      rw [api_close P hget]
      exact h.append hcalls List.length_set fun _ _ => usage_opens husage

theorem closeAll_numbered {hs : List Nat} (h : Numbered w) (hw : Sockets w) :
    Numbered (hs.foldl (fun w k => (api P).close k w) w) ∧
      (hs.foldl (fun w k => (api P).close k w) w).handlers.length = w.handlers.length := by
  induction hs generalizing w with
  | nil => exact ⟨h, rfl⟩
  | cons k hs ih =>
      obtain ⟨hnumbered, hlen⟩ := ih (h.close (P := P) hw k) (hw.close (P := P) k)
      exact ⟨hnumbered, hlen.trans (close_length k)⟩

/-- Nothing is left: each handler has been deleted once, and its socket closed once. -/
structure Cleared (r : Reactor Agent) : Prop where
  handlers : r.mEvtHandlers = []
  deleted : r.deleted.Perm (List.range r.world.handlers.length)
  sockets : ∀ (k : Nat) (h : EventHandler), r.world.handlers[k]? = some h →
    h.closed = true ∧ h.socket = none
  closed : ∀ fd, ∀ call ∈ r.world.os.calls, Opens fd call → closes fd r.world.os.calls = 1

/-- `stop` leaves nothing of a reactor in which all handlers are accounted for. -/
theorem Accounted.halted (h : Accounted r) (htidy : Tidy r) (hr : Described r) :
    Cleared (r.halted (api P)) := by
  have hend := hr.halted (P := P) fun k hk => htidy.made k (.inl hk)
  obtain ⟨hnumbered, hlen⟩ := closeAll_numbered (P := P) h.numbered hr.sockets
  have hdead : ∀ k, k ∈ (r.halted (api P)).deleted ↔ k < r.world.handlers.length := by
    intro k
    show k ∈ r.mEvtHandlers.reverse ++ r.deleted ↔ _
    rw [List.mem_append, List.mem_reverse]
    exact ⟨htidy.made k, h.all k⟩
  have hsockets : ∀ (k : Nat) (hd : EventHandler), (r.halted (api P)).world.handlers[k]? = some hd →
      hd.closed = true ∧ hd.socket = none := by
    intro k hd hget
    have hlt : k < r.world.handlers.length := hlen ▸ (List.getElem?_eq_some_iff.mp hget).1
    obtain ⟨hd', hget', hclosed⟩ := hend.deleted k ((hdead k).mpr hlt)
    obtain rfl := Option.some.inj (hget.symm.trans hget')
    exact ⟨hclosed, (hend.sockets.owned k hd hget).shut hclosed⟩
  refine ⟨rfl, ?_, hsockets, ?_⟩
  · refine (List.perm_ext_iff_of_nodup ?_ List.nodup_range).mpr fun k => ?_
    · refine List.nodup_append.mpr ⟨List.nodup_reverse.mpr htidy.once, h.once, ?_⟩
      rintro k hk j hj rfl
      exact htidy.kept k (List.mem_reverse.mp hk) hj
    · rw [hdead, List.mem_range]
      show k < r.world.handlers.length ↔ k < (r.halted (api P)).world.handlers.length
      rw [show (r.halted (api P)).world.handlers.length = r.world.handlers.length from hlen]
  · intro fd call hmem hopen
    have hlt := hnumbered fd call hmem hopen
    obtain ⟨hd, hget⟩ : ∃ hd, (r.halted (api P)).world.handlers[fd]? = some hd :=
      ⟨_, List.getElem?_eq_getElem hlt⟩
    rcases (hend.sockets.owned fd hd hget).state with ⟨hsome, -⟩ | ⟨-, hone⟩
    · cases (hsockets fd hd hget).2.symm.trans hsome
    · exact hone

/-- No handler has been called: there are but acceptors, `PR_Poll` and `PR_Accept` have not
been called, and no other answer of the system has been taken. -/
structure Untouched (os : Os) (polls : List (List PollFlags)) (accepts : List Bool)
    (r : Reactor Agent) : Prop where
  phase : r.phase = .top
  polls : r.world.polls = polls
  accepts : r.world.accepts = accepts
  os : r.world.os = { os with calls := r.world.os.calls, testRoot := r.world.os.testRoot }
  acceptors : ∀ h ∈ r.world.handlers, ∃ a, h = .acceptor a
  calls : ∀ call ∈ r.world.os.calls, ∃ fd, call = .openTCPSocket fd ∨ call = .setSocketOption fd
  fired : r.fired = []
  deleted : r.deleted = []

/-- Before the acceptors are set up there is nothing. -/
theorem untouched_empty (os : Os) (polls : List (List PollFlags)) (accepts : List Bool) :
    Untouched os polls accepts
      { world := { os := { os with calls := [] }, handlers := [], polls, accepts } } where
  phase := rfl
  polls := rfl
  accepts := rfl
  os := rfl
  acceptors _ hmem := absurd hmem List.not_mem_nil
  calls _ hmem := absurd hmem List.not_mem_nil
  fired := rfl
  deleted := rfl

/-- No socket is closed either. -/
theorem Untouched.closes {os : Os} {polls : List (List PollFlags)} {accepts : List Bool}
    (h : Untouched os polls accepts r) (fd : Nat) : closes fd r.world.os.calls = 0 := by
  refine List.count_eq_zero.mpr fun hmem => ?_
  obtain ⟨fd', hcall | hcall⟩ := h.calls _ hmem <;> cases hcall

/-- `setUpAcceptor` calls no handler. -/
theorem Untouched.setUpAcceptor {os : Os} {polls : List (List PollFlags)} {accepts : List Bool}
    (h : Untouched os polls accepts r) (fact : EventHandlerFactory) (a : Listening) :
    Untouched os polls accepts (setUpAcceptor fact a r).2 := by
  have hcalls : ∀ call ∈ (if a.openTCPSocket then listening r.world.handlers.length
      else [.openTCPSocket none]), ∃ fd, call = .openTCPSocket fd ∨ call = .setSocketOption fd := by
    intro call hmem
    split at hmem
    · simp only [listening, List.mem_cons, List.not_mem_nil, or_false] at hmem
      rcases hmem with rfl | rfl | rfl
      · exact ⟨_, .inl rfl⟩
      · exact ⟨_, .inr rfl⟩
      · exact ⟨_, .inr rfl⟩
    · exact ⟨_, .inl (List.mem_singleton.mp hmem)⟩
  unfold Agent.setUpAcceptor
  simp only [listen_spec]
  have hadded : Untouched os polls accepts { r with world := { r.world with
      handlers := r.world.handlers ++
        [.acceptor ⟨fact, if a.openTCPSocket then some r.world.handlers.length else none, false⟩]
      os := { r.world.os with calls := r.world.os.calls ++
        if a.openTCPSocket then listening r.world.handlers.length else [.openTCPSocket none] } } } := by
    refine ⟨h.phase, h.polls, h.accepts, ?_, fun hd hmem => ?_, fun call hmem => ?_, h.fired,
      h.deleted⟩
    · dsimp only
      rw [h.os]
    · rcases List.mem_append.mp hmem with hmem | hmem
      · exact h.acceptors hd hmem
      · exact ⟨_, List.mem_singleton.mp hmem⟩
    · rcases List.mem_append.mp hmem with hmem | hmem
      · exact h.calls call hmem
      · exact hcalls call hmem
  split
  · exact ⟨hadded.phase, hadded.polls, hadded.accepts, hadded.os, hadded.acceptors, hadded.calls,
      hadded.fired, hadded.deleted⟩
  · exact hadded

/-- Where an acceptor cannot listen, sockets stay open and handlers are kept. -/
theorem setUp_untouched (commands heartbeats : Listening) (os : Os)
    (polls : List (List PollFlags)) (accepts : List Bool) :
    Untouched os polls accepts (setUp commands heartbeats os polls accepts).2 := by
  have hcommands := (untouched_empty os polls accepts).setUpAcceptor .command commands
  unfold setUp
  dsimp only
  split
  · exact hcommands
  · exact hcommands.setUpAcceptor .heartbeat heartbeats

/-- Why `main` returns 1: an option that it comes to is wrong, or an acceptor cannot listen. -/
def Refuses (P : Platform) (s : Startup) : Prop :=
  SUTAgent.WrongOptions P s.options ∨
    ∃ options, SUTAgent.readOptions P s.options {} = .ok (some options) ∧ s.listens options = false

/-- **`main` leaves nothing behind.** It returns 1 if and only if one of its options is wrong
or an acceptor cannot listen: no handler has been called then, and no socket closed. When
it returns 0, after any run, no handler is registered, each handler that has been created has
been closed and deleted, once, and each socket that a handler has opened or accepted has been
closed, once. -/
theorem main_ends {s : Startup} {os : Os} {polls : List (List PollFlags)} {accepts : List Bool}
    {code : Nat} (h : MainEnds P s os polls accepts code r) :
    (code = 0 ∨ code = 1) ∧ (code = 1 ↔ Refuses P s) ∧ (code = 0 → Cleared r) ∧
      (code = 1 → Untouched os polls accepts r ∧ ∀ fd, closes fd r.world.os.calls = 0) := by
  have hwrong := SUTAgent.readOptions_wrong_iff (P := P) s.options {}
  have hrefuses : ∀ options, SUTAgent.readOptions P s.options {} = .ok (some options) →
      (Refuses P s ↔ s.listens options = false) := by
    intro options hread
    have hright : ¬ SUTAgent.WrongOptions P s.options := fun h => by
      cases hread.symm.trans (hwrong.mpr h)
    refine ⟨fun h => ?_, fun h => .inr ⟨options, hread, h⟩⟩
    obtain ⟨options', hread', hrefused⟩ := h.resolve_left hright
    cases hread.symm.trans hread'
    exact hrefused
  cases h with
  | optionError hoptions =>
      have huntouched := untouched_empty os polls accepts
      exact ⟨.inr rfl, iff_of_true rfl (.inl (hwrong.mp hoptions)), nofun,
        fun _ => ⟨huntouched, huntouched.closes⟩⟩
  | refused options mTestRoot r hconfigured hsetUp =>
      obtain ⟨hok, -⟩ := setUp_ok
        { os with testRoot := mTestRoot } polls accepts
      have hlater := setUp_untouched (s.commands options.port) (s.heartbeats options.heartbeatPort)
        { os with testRoot := mTestRoot } polls accepts
      rw [hsetUp] at hok hlater
      have huntouched : Untouched os polls accepts r :=
        ⟨hlater.phase, hlater.polls, hlater.accepts, hlater.os, hlater.acceptors, hlater.calls,
          hlater.fired, hlater.deleted⟩
      exact ⟨.inr rfl, iff_of_true rfl ((hrefuses options hconfigured.read).mpr hok.symm), nofun,
        fun _ => ⟨huntouched, huntouched.closes⟩⟩
  | stopped options mTestRoot r₀ r₁ _ hconfigured hsetUp hrun htop hstop =>
      obtain ⟨hok, hstart⟩ := setUp_ok
        { os with testRoot := mTestRoot } polls accepts
      rw [hsetUp] at hok hstart
      obtain rfl : r₀ = start { os with testRoot := mTestRoot } polls accepts := hstart rfl
      have htidy := reached_tidy hrun
      rw [stop_ok htidy.once htidy.kept] at hstop
      cases hstop
      have hlistens : s.listens options = true := hok.symm
      refine ⟨.inl rfl, iff_of_false nofun fun h => ?_, fun _ => ?_, nofun⟩
      · cases hlistens.symm.trans ((hrefuses options hconfigured.read).mp h)
      · exact (reached_accounted hrun).halted htidy (reached_described hrun)

/-- An agent that is given its test root, when a connection quits, with a heartbeat. -/
def quitting : Reactor Agent :=
  start { recvs := [.data 113 (str "uit\n")], testRoot := str "/tmp" }
    [[{ read := true }, { read := true }], [{}, {}, { read := true }]] []

/-- The connection has been deleted when the signal comes, and the other three have not. -/
theorem main_ends_quit :
    ∃ r, MainEnds .plain { options := [.option 116 (some (str "/tmp"))] }
        { recvs := [.data 113 (str "uit\n")] }
        [[{ read := true }, { read := true }], [{}, {}, { read := true }]] [] 0 r ∧
      r.world.handlers.length = 4 ∧ Cleared r := by
  let r₁ := Reactor.steps (api .plain) 26 quitting
  have hrun : Reached (api .plain) (fun _ => True) quitting r₁ :=
    Reached.start.steps fun _ _ => trivial
  have htop : r₁.phase = .top := by decide +kernel
  have hmade : (r₁.halted (api .plain)).world.handlers.length = 4 := by decide +kernel
  have htidy := reached_tidy hrun
  have hends : MainEnds .plain { options := [.option 116 (some (str "/tmp"))] }
      { recvs := [.data 113 (str "uit\n")] }
      [[{ read := true }, { read := true }], [{}, {}, { read := true }]] [] 0
      (r₁.halted (api .plain)) :=
    .stopped { testRoot := str "/tmp" } (str "/tmp") quitting r₁ _ ⟨rfl, 0, rfl⟩ rfl hrun htop
      (stop_ok htidy.once htidy.kept)
  exact ⟨_, hends, hmade, (main_ends hends).2.2.1 rfl⟩

end Agent

end Negatus
