import Negatus.Agent
import Negatus.CommandEventHandler.Sockets

/-!
# What a call of the reactor comes to

`Called` lists what a member function of an agent's handler does to the world and what
it asks of the reactor, for functions that do not stop the reactor. A handler changes
nothing but itself; only an acceptor creates a handler, one at a time, and this one is
registered before its timers are set.
-/

namespace Negatus

open Foundations

namespace EventHandler

def connection? : EventHandler → Option Connection
  | .command c => some c
  | _ => none

def heartbeat? : EventHandler → Option HeartbeatEventHandler
  | .heartbeat h => some h
  | _ => none

theorem bind_connection {o : Option EventHandler} {c : Connection}
    (h : o.bind connection? = some c) : o = some (.command c) := by
  obtain ⟨hd, rfl, hc⟩ := Option.bind_eq_some_iff.mp h
  cases hd with
  | command c' => rw [show c' = c from Option.some.inj hc]
  | _ => cases hc

theorem bind_heartbeat {o : Option EventHandler} {b : HeartbeatEventHandler}
    (h : o.bind heartbeat? = some b) : o = some (.heartbeat b) := by
  obtain ⟨hd, rfl, hb⟩ := Option.bind_eq_some_iff.mp h
  cases hd with
  | heartbeat b' => rw [show b' = b from Option.some.inj hb]
  | _ => cases hb

end EventHandler

namespace Agent

open Reactor

/-- `close` of a handler that has been created. -/
theorem api_close (P : Platform) {k : Nat} {w : Agent} {h : EventHandler}
    (hget : w.handlers[k]? = some h) :
    (api P).close k w = w.update k (h.close w.os).1 (h.close w.os).2 := by
  simp only [api, hget]

theorem api_close_none (P : Platform) {k : Nat} {w : Agent} (hget : w.handlers[k]? = none) :
    (api P).close k w = w := by
  simp only [api, hget]

variable {P : Platform} {k : Nat} {w w' : Agent} {fault : Option Fault}
  {calls : List ReactorCall}

/-- A handler that has just been created on a socket, and its parts in the system. -/
inductive Born (P : Platform) (socket : Nat) (os : Os) : EventHandler → Io → Prop
  | command : Born P socket os (.command (CommandEventHandler.new socket os))
      (CommandEventHandler.new socket os).io
  | heartbeat : Born P socket os (.heartbeat (HeartbeatEventHandler.new P socket os))
      (HeartbeatEventHandler.new P socket os).io

/-- `PR_Accept` returns a descriptor, and `PR_SetSocketOption` is called on it. -/
def accepting (fd : Option Nat) (os : Os) : Os := (os.note (.accept fd)).note (.setSocketOption fd)

/-- How a member function of a handler leaves the agent. One that has stopped the reactor
does nothing more but return, or go on with what has been deleted. -/
def leaving (stopped : Bool) (fault : Option Fault) (w : Agent) (calls : List ReactorCall) :
    Outcome Agent :=
  if stopped then .stops w calls fun w => finish fault w [] else finish fault w calls

theorem getElem?_update {j : Nat} {h h' : EventHandler} {os : Os}
    (hget : (w.update k h os).handlers[j]? = some h') :
    j = k ∧ h' = h ∨ j ≠ k ∧ w.handlers[j]? = some h' := by
  by_cases hj : j = k
  · obtain rfl := hj
    obtain ⟨hlt, heq⟩ := List.getElem?_eq_some_iff.mp hget
    exact .inl ⟨rfl, heq.symm.trans (List.getElem_set_self _)⟩
  · refine .inr ⟨hj, ?_⟩
    rwa [Agent.update, List.getElem?_set_ne (Ne.symm hj)] at hget

theorem getElem?_created {j : Nat} {h h' : EventHandler}
    (hget : (w.handlers ++ [h])[j]? = some h') :
    j = w.handlers.length ∧ h' = h ∨ j ≠ w.handlers.length ∧ w.handlers[j]? = some h' := by
  by_cases hj : j = w.handlers.length
  · subst hj
    exact .inl ⟨rfl, Option.some.inj (hget.symm.trans List.getElem?_concat_length)⟩
  · have hlt : j < (w.handlers ++ [h]).length := (List.getElem?_eq_some_iff.mp hget).1
    rw [List.length_append] at hlt
    rw [List.getElem?_append_left (Nat.lt_of_le_of_ne (Nat.le_of_lt_succ hlt) hj)] at hget
    exact .inr ⟨hj, hget⟩

/-- What a call of handler `k` comes to, by the member functions that connections and
heartbeats have for it. -/
inductive Called (P : Platform) (onCommand : Call Unit)
    (onHeartbeat : EStateM Fault HeartbeatEventHandler Unit) (k : Nat) (w : Agent) :
    Bool → Option Fault → Agent → List ReactorCall → Prop
  | nothing (hcommand : ∀ c, w.handlers[k]? ≠ some (.command c))
      (hheartbeat : ∀ h, w.handlers[k]? ≠ some (.heartbeat h)) :
      Called P onCommand onHeartbeat k w false none w []
  | refused (a : SocketAcceptor) (accepts : List Bool)
      (hget : w.handlers[k]? = some (.acceptor a)) :
      Called P onCommand onHeartbeat k w false (some (.crash .nullDeref))
        { w with accepts, os := accepting none w.os } []
  | created (a : SocketAcceptor) (accepts : List Bool) (h : EventHandler) (io : Io)
      (hget : w.handlers[k]? = some (.acceptor a))
      (hborn : Born P w.handlers.length (accepting (some w.handlers.length) w.os) h io) :
      Called P onCommand onHeartbeat k w false none
        { w with accepts, handlers := w.handlers ++ [h], os := io.os }
        (.registerHandler w.handlers.length :: settings w.handlers.length io)
  | command (c c' : Connection) (stopped : Bool) (fault : Option Fault)
      (hget : w.handlers[k]? = some (.command c))
      (hrun : Yields onCommand (c.setIo (EventHandler.resume w.os c.io)) fault c')
      (hdeleted : c'.deleted = stopped) :
      Called P onCommand onHeartbeat k w stopped fault (w.update k (.command c') c'.io.os)
        (settings k c'.io)
  | heartbeat (h h' : HeartbeatEventHandler) (fault : Option Fault)
      (hget : w.handlers[k]? = some (.heartbeat h))
      (hrun : Yields onHeartbeat { h with io := EventHandler.resume w.os h.io } fault h') :
      Called P onCommand onHeartbeat k w false fault (w.update k (.heartbeat h') h'.io.os)
        (settings k h'.io)

section

variable {m : Call Unit} {mh : EStateM Fault HeartbeatEventHandler Unit}

theorem runCommand_called {c : Connection} (hget : w.handlers[k]? = some (.command c)) :
    ∃ stopped fault w' calls, runCommand k m c w = leaving stopped fault w' calls ∧
      Called P m mh k w stopped fault w' calls := by
  unfold runCommand
  dsimp only
  split
  · rename_i u c' hrun
    exact ⟨_, _, _, _, rfl, .command c c' c'.deleted none hget hrun rfl⟩
  · rename_i e c' hrun
    exact ⟨_, _, _, _, rfl, .command c c' c'.deleted (some e) hget hrun rfl⟩

theorem runHeartbeat_called {h : HeartbeatEventHandler}
    (hget : w.handlers[k]? = some (.heartbeat h)) :
    ∃ stopped fault w' calls, runHeartbeat k mh h w = leaving stopped fault w' calls ∧
      Called P m mh k w stopped fault w' calls := by
  unfold runHeartbeat
  dsimp only
  split
  · rename_i u h' hrun
    exact ⟨_, _, _, _, rfl, .heartbeat h h' none hget hrun⟩
  · rename_i e h' hrun
    exact ⟨_, _, _, _, rfl, .heartbeat h h' (some e) hget hrun⟩

theorem acceptEvent_called {desc : PollDesc} {h : SocketAcceptor}
    (hget : w.handlers[k]? = some (.acceptor h)) :
    ∃ stopped fault w' calls, acceptEvent P desc h w = leaving stopped fault w' calls ∧
      Called P m mh k w stopped fault w' calls := by
  have hnothing : Called P m mh k w false none w [] :=
    .nothing (by simp [hget]) (by simp [hget])
  unfold acceptEvent
  split
  · exact ⟨_, _, _, _, rfl, hnothing⟩
  split
  · exact ⟨_, _, _, _, rfl, hnothing⟩
  cases w.accepts.headD true with
  | false => exact ⟨_, _, _, _, rfl, .refused h w.accepts.tail hget⟩
  | true =>
      unfold createEventHandler
      cases h.mHandlerFactory with
      | command => exact ⟨_, _, _, _, rfl, .created h w.accepts.tail _ _ hget .command⟩
      | heartbeat => exact ⟨_, _, _, _, rfl, .created h w.accepts.tail _ _ hget .heartbeat⟩

end

theorem handleEvent_called (P : Platform) (k : Nat) (desc : PollDesc) (w : Agent) :
    ∃ stopped fault w' calls, (api P).handleEvent k desc w = leaving stopped fault w' calls ∧
      Called P (CommandEventHandler.handleEvent P desc) (HeartbeatEventHandler.handleEvent desc) k
        w stopped fault w' calls := by
  show ∃ stopped fault w' calls, handleEvent P k desc w = leaving stopped fault w' calls ∧ _
  unfold handleEvent
  split
  · rename_i a hget
    exact acceptEvent_called hget
  · rename_i c hget
    exact runCommand_called hget
  · rename_i b hget
    exact runHeartbeat_called hget
  · rename_i hget
    exact ⟨_, _, _, _, rfl, .nothing (by simp [hget]) (by simp [hget])⟩

theorem handleTimeout_called (P : Platform) (k : Nat) (w : Agent) :
    ∃ stopped fault w' calls, (api P).handleTimeout k w = leaving stopped fault w' calls ∧
      Called P (CommandEventHandler.handleTimeout P) (HeartbeatEventHandler.handleTimeout P) k
        w stopped fault w' calls := by
  show ∃ stopped fault w' calls, handleTimeout P k w = leaving stopped fault w' calls ∧ _
  unfold handleTimeout
  split
  · rename_i c hget
    exact runCommand_called hget
  · rename_i b hget
    exact runHeartbeat_called hget
  · rename_i a hget
    exact ⟨_, _, _, _, rfl, .nothing (by simp [hget]) (by simp [hget])⟩
  · rename_i hget
    exact ⟨_, _, _, _, rfl, .nothing (by simp [hget]) (by simp [hget])⟩

/-- A member function that ends has not stopped the reactor. -/
theorem leaving_ends {stopped : Bool} {fault' : Option Fault} {w₁ : Agent}
    {calls' : List ReactorCall} (h : Ends (leaving stopped fault' w₁ calls') fault w' calls) :
    stopped = false ∧ fault' = fault ∧ w₁ = w' ∧ calls' = calls := by
  cases stopped with
  | true => cases h
  | false =>
      cases fault' with
      | none =>
          change Ends (.returns w₁ calls') fault w' calls at h
          cases h
          exact ⟨rfl, rfl, rfl, rfl⟩
      | some fault' =>
          change Ends (.fails fault' w₁ calls') fault w' calls at h
          cases h
          exact ⟨rfl, rfl, rfl, rfl⟩

theorem leaving_stopless (fault : Option Fault) (w : Agent) (calls : List ReactorCall) :
    Ends (leaving false fault w calls) fault w calls := by
  cases fault with
  | none => exact .returns w calls
  | some fault => exact .fails fault w calls

theorem handleEvent_ends {desc : PollDesc}
    (h : Ends ((api P).handleEvent k desc w) fault w' calls) :
    Called P (CommandEventHandler.handleEvent P desc) (HeartbeatEventHandler.handleEvent desc) k w
      false fault w' calls := by
  obtain ⟨stopped, fault', w₁, calls', heq, hcalled⟩ := handleEvent_called P k desc w
  rw [heq] at h
  obtain ⟨rfl, rfl, rfl, rfl⟩ := leaving_ends h
  exact hcalled

theorem handleTimeout_ends (h : Ends ((api P).handleTimeout k w) fault w' calls) :
    Called P (CommandEventHandler.handleTimeout P) (HeartbeatEventHandler.handleTimeout P) k w
      false fault w' calls := by
  obtain ⟨stopped, fault', w₁, calls', heq, hcalled⟩ := handleTimeout_called P k w
  rw [heq] at h
  obtain ⟨rfl, rfl, rfl, rfl⟩ := leaving_ends h
  exact hcalled

/-! ## The calls of the reactor -/

/-- A call sets timers for its handler, or registers a new one and sets timers for that. -/
theorem Called.calls_shape {m : Call Unit} {mh : EStateM Fault HeartbeatEventHandler Unit}
    {stopped : Bool} (h : Called P m mh k w stopped fault w' calls) :
    (w'.handlers.length = w.handlers.length ∧ ∃ io, calls = settings k io) ∨
      (w'.handlers.length = w.handlers.length + 1 ∧
        ∃ io, calls = .registerHandler w.handlers.length :: settings w.handlers.length io) := by
  cases h with
  | nothing => exact .inl ⟨rfl, { sock := {}, os := w.os }, rfl⟩
  | refused => exact .inl ⟨rfl, { sock := {}, os := w.os }, rfl⟩
  | created _ _ h io => exact .inr ⟨List.length_append, io, rfl⟩
  | command _ c' => exact .inl ⟨List.length_set, c'.io, rfl⟩
  | heartbeat _ h' => exact .inl ⟨List.length_set, h'.io, rfl⟩

/-- A call changes no other handler. -/
theorem Called.others {m : Call Unit} {mh : EStateM Fault HeartbeatEventHandler Unit}
    {stopped : Bool} (h : Called P m mh k w stopped fault w' calls) {j : Nat} (hj : j ≠ k)
    (hlt : j < w.handlers.length) : w'.handlers[j]? = w.handlers[j]? := by
  cases h with
  | nothing => rfl
  | refused => rfl
  | created => exact List.getElem?_append_left hlt
  | command => exact List.getElem?_set_ne (Ne.symm hj)
  | heartbeat => exact List.getElem?_set_ne (Ne.symm hj)

/-- Setting timers appends entries of that handler. -/
theorem obey_settings {σ : Type} (r : Reactor σ) (io : Io) :
    ∃ es : List Entry, (∀ e ∈ es, e.evtHandler = k) ∧ es.length = io.timers.length ∧
      ((settings k io).foldl obey r).mTimeouts = r.mTimeouts ++ es ∧
      ((settings k io).foldl obey r).mEvtHandlers = r.mEvtHandlers := by
  unfold settings
  generalize io.timers = timers
  induction timers generalizing r with
  | nil => exact ⟨[], nofun, rfl, (List.append_nil _).symm, rfl⟩
  | cons t timers ih =>
      obtain ⟨es, hmine, hlen, htimeouts, hhandlers⟩ := ih (r.setTimeout ⟨t, k, io.os.now⟩)
      refine ⟨⟨⟨t, k, io.os.now⟩, r.settings.length, r.scans, []⟩ :: es, ?_, ?_, ?_, hhandlers⟩
      · exact List.forall_mem_cons.mpr ⟨rfl, hmine⟩
      · rw [List.length_cons, List.length_cons, hlen]
      · exact htimeouts.trans (List.append_assoc _ [_] es)

/-! ## Between two calls -/

/-- What the calls of a member function have in common. -/
structure Member (m : Call Unit) (mh : EStateM Fault HeartbeatEventHandler Unit) : Prop where
  command : ∀ c, CommandEventHandler.Rested c →
    Ensures m c (fun _ => CommandEventHandler.Rested)
      (fun e c' => e = .useAfterFree ↔ c'.deleted = true)
  commandLives : ∀ c, Within Connection.Lives m c
  heartbeat : ∀ h : HeartbeatEventHandler, h.Rested →
    Ensures mh h (fun _ => HeartbeatEventHandler.Rested) (fun e _ => e ≠ .useAfterFree)
  heartbeatLives : ∀ h, Within HeartbeatEventHandler.SocketLives mh h

/-- A call uses what has been deleted if and only if it has stopped the reactor. -/
theorem failing_deleted {e : Fault} {c c' : Connection} (halive : c.deleted = false)
    (h : CommandEventHandler.Failing P e c c') : e = .useAfterFree ↔ c'.deleted = true := by
  cases h with
  | overlong => simp [halive]
  | noData => simp [halive]
  | line _ _ raw b _ hopen hidle hraw hget hline =>
      generalize CommandEventHandler.lineKind P (trim raw) = kind at hline
      cases hline with
      | crash => exact iff_of_false nofun (Bool.eq_false_iff.mp halive)
      | reboot => exact iff_of_true rfl rfl
      | rebootCallback => exact iff_of_true rfl rfl

theorem event_member (desc : PollDesc) :
    Member (CommandEventHandler.handleEvent P desc) (HeartbeatEventHandler.handleEvent desc) where
  command c hr := by
    have hsound : ∀ {c'}, Relation.ReflTransGen (fun c c' => CommandEventHandler.Step P c c' ∧
        CommandEventHandler.InStep c c') c c' → c'.Sound := fun hpath =>
      CommandEventHandler.sound_path
        (Relation.ReflTransGen.mono (fun _ _ h => h.1) _ _ hpath) hr.toSound
    refine Ensures.mono (CommandEventHandler.handleEvent_leads (P := P) hr.toSound desc) ?_ ?_
    · rintro - c' ⟨hpath, hsettled⟩
      exact hsettled.rested (hsound hpath)
    · rintro e c' ⟨c₁, hpath, hfail⟩
      exact failing_deleted (hsound hpath).alive hfail
  commandLives c := CommandEventHandler.handleEvent_lives c desc
  heartbeat h _ := (h.handleEvent_ensures desc).mono (fun _ _ h' => h'.1)
    (fun e _ h' => h'.1 ▸ nofun)
  heartbeatLives h := h.handleEvent_lives desc

theorem timeout_member :
    Member (CommandEventHandler.handleTimeout P) (HeartbeatEventHandler.handleTimeout P) where
  command c hr := by
    have hsound : ∀ {c'}, Relation.ReflTransGen (CommandEventHandler.Work P) c c' → c'.Sound :=
      fun hpath => CommandEventHandler.sound_path (CommandEventHandler.Work.path hpath) hr.toSound
    refine Ensures.mono (CommandEventHandler.handleTimeout_settles (P := P) hr.toSound
      hr.recvOpen) ?_ ?_
    · rintro - c' ⟨hpath, hsettled⟩
      exact hsettled.rested (hsound hpath)
    · rintro e c' ⟨c₁, hpath, hfail⟩
      exact failing_deleted (hsound hpath).alive hfail
  commandLives c := CommandEventHandler.handleTimeout_lives c
  heartbeat h hr := (h.handleTimeout_ensures P).mono
    (fun _ h' hh => hr.imp hh.1.trans hh.2.1.trans) (fun e _ ⟨x, hx⟩ => hx ▸ nofun)
  heartbeatLives h := h.handleTimeout_lives P

/-- Control is back in the reactor, and the socket is in order. -/
def Calm : EventHandler → Prop
  | .acceptor _ => True
  | .command c => CommandEventHandler.Rested c ∧ c.io.sock.Consistent
  | .heartbeat h => h.Rested ∧ h.io.sock.Consistent

def AllCalm (w : Agent) : Prop :=
  ∀ (k : Nat) (h : EventHandler), w.handlers[k]? = some h → Calm h

theorem resume_rested {c : Connection} (hr : CommandEventHandler.Rested c) (os : Os) :
    CommandEventHandler.Rested (c.setIo (EventHandler.resume os c.io)) :=
  ⟨(CommandEventHandler.Step.wait (P := .plain) c os []).sound hr.toSound, hr.recvOpen, hr.dataOpen⟩

theorem born_calm {socket : Nat} {os : Os} {h : EventHandler} {io : Io}
    (hborn : Born P socket os h io) : Calm h := by
  have hnew := BufferedSocket.new_consistent socket
  cases hborn with
  | command =>
      have hlives := CommandEventHandler.writePrompt_lives [] { sock := .new socket, os }
      exact ⟨CommandEventHandler.new_rested socket os, (hlives hnew).1⟩
  | heartbeat =>
      exact ⟨(HeartbeatEventHandler.new_rested P socket os).1,
        (HeartbeatEventHandler.new_lives P socket os hnew).1⟩

theorem set_calm {k : Nat} {h : EventHandler} {os : Os} (hw : AllCalm w) (hh : Calm h) :
    AllCalm (w.update k h os) := by
  intro j h' hget
  rcases getElem?_update hget with ⟨-, rfl⟩ | ⟨-, hget⟩
  · exact hh
  · exact hw j h' hget

section

variable {m : Call Unit} {mh : EStateM Fault HeartbeatEventHandler Unit} {stopped : Bool}

/-- A call that returns leaves all handlers calm. -/
theorem Called.calm (h : Called P m mh k w stopped none w' calls) (hm : Member m mh)
    (hw : AllCalm w) : AllCalm w' := by
  cases h with
  | nothing => exact hw
  | created a accepts h io _ hborn =>
      intro j h' hget
      rcases getElem?_created hget with ⟨-, rfl⟩ | ⟨-, hget⟩
      · exact born_calm hborn
      · exact hw j h' hget
  | command c c' _ _ hget hrun =>
      obtain ⟨hr, hconsistent⟩ := hw k _ hget
      have hr' := resume_rested hr w.os
      refine set_calm hw ⟨(hm.command _ hr').of_yields hrun, ?_⟩
      exact (((hm.commandLives _).of_yields hrun).lives hconsistent).1
  | heartbeat h h' _ hget hrun =>
      obtain ⟨hr, hconsistent⟩ := hw k _ hget
      have hr' : HeartbeatEventHandler.Rested { h with io := EventHandler.resume w.os h.io } := hr
      refine set_calm hw ⟨(hm.heartbeat _ hr').of_yields hrun, ?_⟩
      exact (((hm.heartbeatLives _).of_yields hrun).lives hconsistent).1

/-- A call uses what has been deleted if and only if it has stopped the reactor. -/
theorem Called.freed_iff (h : Called P m mh k w stopped fault w' calls) (hm : Member m mh)
    (hw : AllCalm w) : fault = some .useAfterFree ↔ stopped = true := by
  cases h with
  | nothing => simp
  | refused => simp
  | created => simp
  | command c c' _ _ hget hrun hdeleted =>
      have hspec := (hm.command _ (resume_rested (hw k _ hget).1 w.os)).of_yields hrun
      rw [← hdeleted]
      cases fault with
      | none => exact iff_of_false nofun (Bool.eq_false_iff.mp hspec.alive)
      | some fault => exact (Option.some_inj).trans hspec
  | heartbeat h h' _ hget hrun =>
      have hr' : HeartbeatEventHandler.Rested { h with io := EventHandler.resume w.os h.io } :=
        (hw k _ hget).1
      refine iff_of_false ?_ Bool.false_ne_true
      rintro rfl
      exact (hm.heartbeat _ hr').of_yields hrun rfl

end

end Agent

end Negatus
