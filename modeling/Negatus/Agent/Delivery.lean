import Negatus.Agent.Sockets

/-!
# Whose event it is

`run` asks `PR_Poll` about the descriptors of all handlers at once, and tells by
`handleMap` whose event it is. While it works through the answers, handlers are created
and close their sockets. The answers that are left still belong to the handlers that
have asked for them, since a handler is called with one answer of `PR_Poll` at most.
-/

namespace Negatus

open Foundations

namespace EventHandler

/-- A handler asks about its own socket, and has none otherwise. -/
theorem getPollDescs_cases (h : EventHandler) :
    h.getPollDescs = [] ∨
      ∃ k flags, h.socket = some k ∧ h.getPollDescs = [⟨some k, flags, {}⟩] := by
  cases h with
  | acceptor h =>
      show h.getPollDescs = [] ∨ ∃ k flags, h.mSocket = some k ∧ h.getPollDescs = _
      unfold SocketAcceptor.getPollDescs
      cases h.mSocket with
      | none => exact .inl rfl
      | some k => exact .inr ⟨k, _, rfl, rfl⟩
  | command c =>
      show CommandEventHandler.getPollDescs c = [] ∨
        ∃ k flags, c.io.sock.mSocket = some k ∧ CommandEventHandler.getPollDescs c = _
      unfold CommandEventHandler.getPollDescs BufferedSocket.closed
      cases hsocket : c.io.sock.mSocket with
      | none => exact .inl rfl
      | some k =>
          cases c.mDataEventHandler with
          | none =>
              cases c.io.sock.mRecvClosed with
              | true => exact .inl rfl
              | false => exact .inr ⟨k, _, rfl, rfl⟩
          | some d =>
              cases d with
              | pull d =>
                  refine .inr ⟨k, { write := true }, rfl, ?_⟩
                  show PullFileEventHandler.getPollDescs c.io = _
                  unfold PullFileEventHandler.getPollDescs BufferedSocket.closed
                  rw [hsocket]
                  rfl
              | push d =>
                  refine .inr ⟨k, { read := true }, rfl, ?_⟩
                  show PushFileEventHandler.getPollDescs c.io = _
                  unfold PushFileEventHandler.getPollDescs BufferedSocket.closed
                  rw [hsocket]
                  rfl
              | subprocess d => exact .inl rfl
  | heartbeat h =>
      show h.getPollDescs = [] ∨ ∃ k flags, h.io.sock.mSocket = some k ∧ h.getPollDescs = _
      unfold HeartbeatEventHandler.getPollDescs BufferedSocket.closed
      cases h.io.sock.mSocket with
      | none => exact .inl rfl
      | some k =>
          cases h.io.sock.mRecvClosed with
          | true => exact .inl rfl
          | false => exact .inr ⟨k, _, rfl, rfl⟩

end EventHandler

namespace Agent

open Reactor

variable {P : Platform} {k : Nat} {w w' : Agent} {fault : Option Fault}
  {calls : List ReactorCall} {r r' : Reactor Agent}

/-- `desc` is what `PR_Poll` has said about the socket of handler `k`, which still asks
about it. -/
structure Asked (w : Agent) (k : Nat) (desc : PollDesc) : Prop where
  fd : desc.fd = some k
  asked : ∃ (h : EventHandler) (asked : PollDesc) (flags : PollFlags),
    w.handlers[k]? = some h ∧ h.closed = false ∧ h.getPollDescs = [asked] ∧
      desc = asked.report flags

/-- The answers of `PR_Poll` that are left. -/
structure Answers (w : Agent) (map : List (Option Nat × Nat)) (pds : List PollDesc) : Prop where
  own : ∀ d ∈ map, d.1 = some d.2
  once : (pds.map (·.fd)).Nodup
  asked : ∀ desc ∈ pds, ∃ k, Asked w k desc ∧ (some k, k) ∈ map

def Delivered (r : Reactor Agent) : Prop :=
  ∀ map pds, r.phase = .events map pds → Answers r.world map pds

theorem report_fd (descs : List PollDesc) (flags : List PollFlags) :
    (report descs flags).map (·.fd) = descs.map (·.fd) := by
  induction descs generalizing flags with
  | nil => rfl
  | cons desc descs ih => exact congrArg (desc.fd :: ·) (ih flags.tail)

theorem mem_report {descs : List PollDesc} {flags : List PollFlags} {desc : PollDesc}
    (h : desc ∈ report descs flags) : ∃ asked ∈ descs, ∃ flags, desc = asked.report flags := by
  induction descs generalizing flags with
  | nil => cases h
  | cons asked descs ih =>
      rcases List.mem_cons.mp h with rfl | h
      · exact ⟨asked, List.mem_cons_self, _, rfl⟩
      · obtain ⟨asked', hmem, hflags⟩ := ih h
        exact ⟨asked', List.mem_cons_of_mem _ hmem, hflags⟩

/-- What handler `k` asks about is its own descriptor. -/
theorem Sockets.getPollDescs (hw : Sockets w) {h : EventHandler}
    (hget : w.handlers[k]? = some h) :
    h.getPollDescs = [] ∨
      h.closed = false ∧ ∃ flags, h.getPollDescs = [⟨some k, flags, {}⟩] := by
  have ho := hw.owned k h hget
  rcases h.getPollDescs_cases with hnone | ⟨j, flags, hsocket, hdescs⟩
  · exact .inl hnone
  · refine .inr ⟨?_, flags, ?_⟩
    · refine Bool.eq_false_iff.mpr fun hclosed => ?_
      cases (ho.shut hclosed).symm.trans hsocket
    · rcases ho.state with ⟨hk, -⟩ | ⟨hnone, -⟩
      · obtain rfl := Option.some.inj (hk.symm.trans hsocket)
        exact hdescs
      · cases hnone.symm.trans hsocket

/-- The descriptors that `run` hands to `PR_Poll`, each with the number of its handler. -/
def polled (w : Agent) (P : Platform) (evtHandlers : List Nat) : List (PollDesc × Nat) :=
  evtHandlers.flatMap fun h => ((api P).getPollDescs h w).map fun desc => (desc, h)

theorem Sockets.mem_polled (hw : Sockets w) {hs : List Nat} {d : PollDesc × Nat}
    (hd : d ∈ polled w P hs) :
    d.2 ∈ hs ∧ d.1.fd = some d.2 ∧ ∃ h : EventHandler, w.handlers[d.2]? = some h ∧
      h.closed = false ∧ h.getPollDescs = [d.1] := by
  obtain ⟨k, hk, hd⟩ := List.mem_flatMap.mp hd
  obtain ⟨desc, hdesc, rfl⟩ := List.mem_map.mp hd
  change desc ∈ w.handlers[k]?.elim [] EventHandler.getPollDescs at hdesc
  cases hget : w.handlers[k]? with
  | none =>
      rw [hget] at hdesc
      cases hdesc
  | some h =>
      rw [hget] at hdesc
      change desc ∈ h.getPollDescs at hdesc
      rcases hw.getPollDescs hget with hnone | ⟨hopen, flags, hdescs⟩
      · rw [hnone] at hdesc
        cases hdesc
      · rw [hdescs] at hdesc
        obtain rfl := List.mem_singleton.mp hdesc
        exact ⟨hk, rfl, h, rfl, hopen, hdescs⟩

/-- No two handlers ask about one descriptor, and none asks twice. -/
theorem Sockets.polled_once (hw : Sockets w) {hs : List Nat} (honce : hs.Nodup) :
    ((polled w P hs).map fun d => d.1.fd).Nodup := by
  induction hs with
  | nil => exact List.nodup_nil
  | cons k hs ih =>
      obtain ⟨hfresh, honce⟩ := List.nodup_cons.mp honce
      have hsplit : polled w P (k :: hs) =
          ((api P).getPollDescs k w).map (fun desc => (desc, k)) ++ polled w P hs :=
        List.flatMap_cons
      rw [hsplit, List.map_append]
      refine List.nodup_append.mpr ⟨?_, ih honce, ?_⟩
      · show (List.map _ ((w.handlers[k]?.elim [] EventHandler.getPollDescs).map _)).Nodup
        cases hget : w.handlers[k]? with
        | none => exact List.nodup_nil
        | some h =>
            show (List.map _ (h.getPollDescs.map _)).Nodup
            rcases hw.getPollDescs hget with hnone | ⟨-, flags, hdescs⟩
            · rw [hnone]
              exact List.nodup_nil
            · rw [hdescs]
              exact List.nodup_singleton _
      · rintro fd hfd fd' hfd' rfl
        obtain ⟨d, hd, rfl⟩ := List.mem_map.mp hfd
        obtain ⟨desc, hdesc, rfl⟩ := List.mem_map.mp hd
        obtain ⟨d', hd', heq⟩ := List.mem_map.mp hfd'
        have hpolled : (desc, k) ∈ polled w P [k] := List.mem_flatMap.mpr ⟨k, List.mem_cons_self, hd⟩
        have hown : desc.fd = some k := (hw.mem_polled hpolled).2.1
        obtain ⟨hmem, hown', -⟩ := hw.mem_polled hd'
        have : some d'.2 = some k := hown'.symm.trans (heq.trans hown)
        exact hfresh (Option.some.inj this ▸ hmem)

/-- What `PR_Poll` answers is for the handlers that it was asked for. -/
theorem Sockets.answers (hw : Sockets w) {hs : List Nat} (honce : hs.Nodup)
    (flags : List PollFlags) (polls : List (List PollFlags)) :
    Answers { w with polls } (handleMap (polled w P hs))
      (report ((polled w P hs).map Prod.fst) flags) where
  own d hd := by
    obtain ⟨d', hd', rfl⟩ := List.mem_map.mp (List.mem_reverse.mp hd)
    exact (hw.mem_polled hd').2.1
  once := by
    rw [report_fd, List.map_map]
    exact hw.polled_once honce
  asked desc hdesc := by
    obtain ⟨asked, hasked, flags, rfl⟩ := mem_report hdesc
    obtain ⟨d, hd, rfl⟩ := List.mem_map.mp hasked
    obtain ⟨-, hfd, h, hget, hopen, hdescs⟩ := hw.mem_polled hd
    refine ⟨d.2, ⟨hfd, h, d.1, flags, hget, hopen, hdescs, rfl⟩, ?_⟩
    refine List.mem_reverse.mpr (List.mem_map.mpr ⟨d, hd, ?_⟩)
    exact Prod.ext hfd rfl

theorem Answers.fresh {map : List (Option Nat × Nat)} {desc : PollDesc} {pds : List PollDesc}
    (h : Answers w map (desc :: pds)) : ∀ later ∈ pds, later.fd ≠ desc.fd := by
  intro later hlater heq
  have hfresh : desc.fd ∉ pds.map (·.fd) := (List.nodup_cons.mp h.once).1
  exact hfresh (heq ▸ List.mem_map_of_mem hlater)

/-- A call of one handler leaves the answers for the others as they are. -/
theorem Answers.called {m : Call Unit} {mh : EStateM Fault HeartbeatEventHandler Unit}
    {stopped : Bool} {map : List (Option Nat × Nat)} {desc : PollDesc} {pds : List PollDesc}
    (h : Answers w map (desc :: pds)) (hfd : desc.fd = some k)
    (hcalled : Called P m mh k w stopped fault w' calls) : Answers w' map pds where
  own := h.own
  once := (List.nodup_cons.mp h.once).2
  asked later hlater := by
    obtain ⟨j, ⟨hj, hd, asked, flags, hget, hasked⟩, hmem⟩ :=
      h.asked later (List.mem_cons_of_mem _ hlater)
    have hjk : j ≠ k := by
      rintro rfl
      exact h.fresh later hlater (hj.trans hfd.symm)
    have hlt : j < w.handlers.length := (List.getElem?_eq_some_iff.mp hget).1
    exact ⟨j, ⟨hj, hd, asked, flags, (hcalled.others hjk hlt).trans hget, hasked⟩, hmem⟩

theorem Answers.lookup {map : List (Option Nat × Nat)} {pds : List PollDesc} {j : Nat}
    (h : Answers w map pds) (hmap : map.lookup (some j) = some k) : k = j := by
  obtain ⟨before, after, heq, -⟩ := List.lookup_eq_some_iff.mp hmap
  have hown := h.own (some j, k) (heq ▸ List.mem_append_right _ List.mem_cons_self)
  exact (Option.some.inj hown).symm

/-- The map finds the handler that an answer is for. -/
theorem Answers.looked_up {map : List (Option Nat × Nat)} {pds : List PollDesc} {desc : PollDesc}
    (h : Answers w map pds) (hdesc : desc ∈ pds) :
    ∃ k, Asked w k desc ∧ map.lookup desc.fd = some k := by
  obtain ⟨k, hasked, hmem⟩ := h.asked desc hdesc
  refine ⟨k, hasked, ?_⟩
  rw [hasked.fd]
  cases hmap : map.lookup (some k) with
  | none => exact absurd (List.lookup_eq_none_iff.mp hmap _ hmem) (by simp)
  | some j => rw [h.lookup hmap]

theorem Delivered.turn (h : Delivered r) (hsockets : Sockets r.world) (honce : r.mEvtHandlers.Nodup)
    (hturn : Turn (api P) r none r') : Delivered r' := by
  cases hturn with
  | poll hphase hlive descs hdescs =>
      rintro map pds ⟨⟩
      rw [hdescs]
      exact hsockets.answers (P := P) honce (r.world.polls.headD []) r.world.polls.tail
  | idle map desc pds hphase =>
      rintro map' pds' ⟨⟩
      obtain ⟨hmap, hnodup, hasked⟩ := h map (desc :: pds) hphase
      exact ⟨hmap, (List.nodup_cons.mp hnodup).2,
        fun desc hdesc => hasked desc (List.mem_cons_of_mem _ hdesc)⟩
  | event map desc pds j hphase hflags hmap hlive fault world calls hends =>
      intro map' pds' hphase'
      rw [obeyAll_phase] at hphase'
      cases hphase'
      rw [obeyAll_world]
      have hanswers := h map (desc :: pds) hphase
      obtain ⟨k, hasked, hfound⟩ := hanswers.looked_up List.mem_cons_self
      obtain rfl : k = j := Option.some.inj (hfound.symm.trans hmap)
      exact hanswers.called hasked.fd (handleEvent_ends hends)
  | timeout e es hphase =>
      intro map' pds' hphase'
      rw [obeyAll_phase] at hphase'
      cases hphase'
  | delete i j hphase =>
      intro map' pds' hphase'
      cases hphase.symm.trans hphase'
  | _ => exact nofun

theorem reached_described {ok : Reactor Agent → Prop} {os : Os} {polls : List (List PollFlags)}
    {accepts : List Bool} (h : Reached (api P) ok (start os polls accepts) r) : Described r := by
  induction h with
  | start => exact start_described os polls accepts
  | step h _ hstep ih =>
      have hyields : Yields (step (api P)) _ none _ := hstep
      exact ih.step (reached_tidy h) hyields

theorem reached_delivered {ok : Reactor Agent → Prop} {os : Os} {polls : List (List PollFlags)}
    {accepts : List Bool} (h : Reached (api P) ok (start os polls accepts) r) : Delivered r := by
  induction h with
  | start => exact nofun
  | step h _ hstep ih =>
      have htidy := reached_tidy h
      have hyields : Yields (step (api P)) _ none _ := hstep
      exact ih.turn (reached_described h).sockets htidy.once
        (turn_of_yields hyields (htidy.unstopped hstep))

/-- **Events are delivered to the handlers that have asked for them, once.** Whenever `run`
comes to an answer of `PR_Poll`, the map finds the handler that owns the socket; the handler
is registered, open and asks about this very descriptor now; and no answer that is left is
about the same socket. -/
theorem events_delivered (P : Platform) (os : Os) (polls : List (List PollFlags))
    (accepts : List Bool) (r : Reactor Agent)
    (h : Reached (api P) (fun _ => True) (start os polls accepts) r)
    (map : List (Option Nat × Nat)) (desc : PollDesc) (pds : List PollDesc)
    (hphase : r.phase = .events map (desc :: pds)) :
    ∃ k, map.lookup desc.fd = some k ∧ Asked r.world k desc ∧
      k ∈ r.mEvtHandlers ∧ k ∉ r.deleted ∧ ∀ later ∈ pds, later.fd ≠ desc.fd := by
  have hanswers := reached_delivered h map (desc :: pds) hphase
  have htidy := reached_tidy h
  obtain ⟨k, hasked, hmap⟩ := hanswers.looked_up List.mem_cons_self
  have hregistered := htidy.looked_up hphase hmap
  exact ⟨k, hmap, hasked, hregistered, htidy.kept k hregistered, hanswers.fresh⟩

/-- In the second round, a connection has something to read, and a heartbeat has not. -/
theorem events_delivered_connection :
    let r := Reactor.steps (api .plain) 15 rebooting
    Asked r.world 2 ⟨some 2, { read := true }, { read := true }⟩ ∧ 2 ∈ r.mEvtHandlers := by
  intro r
  have hphase : r.phase = .events [(some 3, 3), (some 2, 2), (some 1, 1), (some 0, 0)]
      [⟨some 2, { read := true }, { read := true }⟩, ⟨some 3, { read := true }, {}⟩] := by
    decide +kernel
  have hreached : Reached (api .plain) (fun _ => True) rebooting r :=
    Reached.start.steps fun _ _ => trivial
  obtain ⟨k, -, hasked, hregistered, -⟩ :=
    events_delivered .plain _ _ _ r hreached _ _ _ hphase
  obtain rfl : 2 = k := Option.some.inj hasked.fd
  exact ⟨hasked, hregistered⟩

end Agent

end Negatus
