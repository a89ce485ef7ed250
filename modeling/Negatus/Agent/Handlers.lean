import Mathlib.Data.List.Nodup
import Negatus.Agent.Calls

/-!
# Which handlers the reactor has pointers to

Pointers to handlers are in `mEvtHandlers`, in `mTimeouts` and in two local variables of
`run`. A handler that is deleted at the end of `run` is taken out of the first two, and
the other two are gone by then. `stop` takes the handlers out of `mEvtHandlers` only: it is
safe for `main`, which does not come back to `run`, and not for a handler.
-/

namespace Negatus

open Foundations

/-- The handlers that the local variables of `run` point to. -/
def Reactor.Phase.pointers : Reactor.Phase → List Nat
  | .events handleMap _ => handleMap.map Prod.snd
  | .scan _ expiredHandlers => expiredHandlers.map (·.evtHandler)
  | .timeouts expiredHandlers => expiredHandlers.map (·.evtHandler)
  | .top => []
  | .deleteClosed _ => []

namespace Agent

open Reactor

variable {P : Platform} {k : Nat} {w w' : Agent} {fault : Option Fault}
  {calls : List ReactorCall} {r r' : Reactor Agent}

/-- Handlers are registered once, and all pointers are to handlers that are registered. -/
structure Linked (r : Reactor Agent) : Prop where
  once : r.mEvtHandlers.Nodup
  made : ∀ k, k ∈ r.mEvtHandlers ∨ k ∈ r.deleted → k < r.world.handlers.length
  kept : ∀ k ∈ r.mEvtHandlers, k ∉ r.deleted
  timeouts : ∀ e ∈ r.mTimeouts, e.evtHandler ∈ r.mEvtHandlers
  inside : ∀ k ∈ r.phase.pointers, k ∈ r.mEvtHandlers

theorem start_linked (os : Os) (polls : List (List PollFlags)) (accepts : List Bool) :
    Linked (start os polls accepts) where
  once := (by decide : [0, 1].Nodup)
  made k hk := by
    rcases hk with hk | hk
    · show k < 2
      simp only [start, List.mem_cons, List.not_mem_nil, or_false] at hk
      omega
    · cases hk
  kept _ _ := List.not_mem_nil
  timeouts := nofun
  inside := nofun

theorem start_calm (os : Os) (polls : List (List PollFlags)) (accepts : List Bool) :
    AllCalm (start os polls accepts).world := by
  intro k h hget
  rcases List.mem_pair.mp (List.mem_of_getElem? hget) with rfl | rfl <;> trivial

/-! ## One step -/

/-- Less is pointed to. -/
theorem Linked.frame (h : Linked r) (hhandlers : r'.mEvtHandlers = r.mEvtHandlers)
    (hdeleted : r'.deleted = r.deleted)
    (hworld : r'.world.handlers.length = r.world.handlers.length)
    (htimeouts : ∀ e ∈ r'.mTimeouts, e.evtHandler ∈ r.mEvtHandlers)
    (hpointers : ∀ k ∈ r'.phase.pointers, k ∈ r.mEvtHandlers) : Linked r' where
  once := hhandlers ▸ h.once
  made k hk := by
    rw [hhandlers, hdeleted] at hk
    rw [hworld]
    exact h.made k hk
  kept k hk := by
    rw [hhandlers] at hk
    rw [hdeleted]
    exact h.kept k hk
  timeouts := hhandlers ▸ htimeouts
  inside := hhandlers ▸ hpointers

/-- There are more handlers than before. -/
theorem Linked.grow (h : Linked r) (hlen : r.world.handlers.length ≤ w'.handlers.length) :
    Linked { r with world := w' } :=
  { h with made := fun k hk => Nat.lt_of_lt_of_le (h.made k hk) hlen }

theorem Linked.register (h : Linked r) (hk : k < r.world.handlers.length)
    (hnew : k ∉ r.mEvtHandlers) (halive : k ∉ r.deleted) : Linked (r.registerHandler k) where
  once := by
    show (r.mEvtHandlers ++ [k]).Nodup
    rw [← List.concat_eq_append]
    exact List.Nodup.concat hnew h.once
  made j hj := by
    rcases hj with hj | hj
    · rcases List.mem_append.mp hj with hj | hj
      · exact h.made j (.inl hj)
      · exact List.mem_singleton.mp hj ▸ hk
    · exact h.made j (.inr hj)
  kept j hj := by
    rcases List.mem_append.mp hj with hj | hj
    · exact h.kept j hj
    · exact List.mem_singleton.mp hj ▸ halive
  timeouts e he := List.mem_append_left _ (h.timeouts e he)
  inside j hj := List.mem_append_left _ (h.inside j hj)

/-- The timers of a handler that is registered. -/
theorem Linked.settings (h : Linked r) (hk : k ∈ r.mEvtHandlers) (io : Io) :
    Linked ((settings k io).foldl Reactor.obey r) := by
  unfold Agent.settings
  generalize io.timers = timers
  induction timers generalizing r with
  | nil => exact h
  | cons t timers ih =>
      have hset : Linked (r.setTimeout ⟨t, k, io.os.now⟩) := by
        refine h.frame rfl rfl rfl ?_ h.inside
        intro e he
        rcases List.mem_append.mp he with he | he
        · exact h.timeouts e he
        · rw [List.mem_singleton.mp he]
          exact hk
      exact ih hset hk

/-- A call keeps the pointers in order: a new handler is registered before anything points
to it. -/
theorem Linked.obeyAll {m : Call Unit} {mh : EStateM Fault HeartbeatEventHandler Unit}
    {stopped : Bool} (h : Linked r) (hk : k ∈ r.mEvtHandlers)
    (hcalled : Called P m mh k r.world stopped fault w' calls) : Linked (r.obeyAll w' calls) := by
  rcases hcalled.calls_shape with ⟨hlen, io, rfl⟩ | ⟨hlen, io, rfl⟩
  · exact (h.grow (Nat.le_of_eq hlen.symm)).settings hk io
  · let n := r.world.handlers.length
    have hnew : n ∉ r.mEvtHandlers := fun hn => lt_irrefl n (h.made n (.inl hn))
    have halive : n ∉ r.deleted := fun hn => lt_irrefl n (h.made n (.inr hn))
    have hlt : n < w'.handlers.length := hlen ▸ Nat.lt_succ_self n
    exact ((h.grow (Nat.le_of_lt hlt)).register hlt hnew halive).settings
      (List.mem_append_right _ List.mem_cons_self) io

theorem mem_handleMap {descs : List (PollDesc × Nat)} {d : Option Nat × Nat}
    (h : d ∈ handleMap descs) : ∃ desc ∈ descs, desc.2 = d.2 := by
  obtain ⟨desc, hdesc, rfl⟩ := List.mem_map.mp (List.mem_reverse.mp h)
  exact ⟨desc, hdesc, rfl⟩

theorem Linked.looked_up {map : List (Option Nat × Nat)} {pds : List PollDesc} {fd : Option Nat}
    (h : Linked r) (hphase : r.phase = .events map pds) (hmap : map.lookup fd = some k) :
    k ∈ r.mEvtHandlers := by
  refine h.inside k ?_
  rw [hphase]
  obtain ⟨before, after, heq, -⟩ := List.lookup_eq_some_iff.mp hmap
  exact List.mem_map.mpr ⟨(fd, k), heq ▸ List.mem_append_right _ List.mem_cons_self, rfl⟩

/-- What is left in `mEvtHandlers` when handler `k` is taken out. -/
theorem Linked.mem_eraseIdx {i j : Nat} (h : Linked r) (hget : r.mEvtHandlers[i]? = some k) :
    j ∈ r.mEvtHandlers.eraseIdx i ↔ j ≠ k ∧ j ∈ r.mEvtHandlers := by
  obtain ⟨hlt, rfl⟩ := List.getElem?_eq_some_iff.mp hget
  rw [← h.once.erase_getElem _ hlt, h.once.mem_erase_iff]

/-- Every turn of the reactor keeps the pointers in order. -/
theorem Linked.turn (h : Linked r) (hturn : Turn (api P) r fault r') : Linked r' := by
  have hinside := h.inside
  cases hturn with
  | pollFreed => exact h
  | deleteFreed => exact h
  -- the map of this turn is made of handlers that are registered
  | poll hphase hlive descs hdescs =>
      refine h.frame rfl rfl rfl h.timeouts fun k hk => ?_
      obtain ⟨d, hd, rfl⟩ := List.mem_map.mp hk
      obtain ⟨desc, hdesc, hsnd⟩ := mem_handleMap hd
      rw [hdescs] at hdesc
      obtain ⟨j, hj, hdesc⟩ := List.mem_flatMap.mp hdesc
      obtain ⟨_, -, rfl⟩ := List.mem_map.mp hdesc
      exact hsnd ▸ hj
  | polled map hphase => exact h.frame rfl rfl rfl h.timeouts nofun
  | idle map desc pds hphase =>
      rw [hphase] at hinside
      exact h.frame rfl rfl rfl h.timeouts hinside
  | unmapped map desc pds hphase =>
      rw [hphase] at hinside
      exact h.frame rfl rfl rfl h.timeouts hinside
  | eventFreed map desc pds j hphase =>
      rw [hphase] at hinside
      exact h.frame rfl rfl rfl h.timeouts hinside
  | event map desc pds j hphase hflags hmap hlive fault world calls hends =>
      have hj := h.looked_up hphase hmap
      rw [hphase] at hinside
      have hnext : Linked { r with phase := .events map pds } :=
        h.frame rfl rfl rfl h.timeouts hinside
      exact hnext.obeyAll hj (handleEvent_ends hends)
  | scanned i es hphase =>
      rw [hphase] at hinside
      exact h.frame rfl rfl rfl h.timeouts hinside
  -- an entry that expires takes its pointer from one list to the other
  | expire i es e hphase hget =>
      rw [hphase] at hinside
      refine h.frame rfl rfl rfl ?_ ?_
      · exact fun e' he' => h.timeouts e' (List.mem_of_mem_eraseIdx he')
      · intro k hk
        obtain ⟨e', he', rfl⟩ := List.mem_map.mp hk
        rcases List.mem_append.mp he' with he' | he'
        · exact hinside _ (List.mem_map_of_mem he')
        · rw [List.mem_singleton.mp he']
          exact h.timeouts e (List.mem_of_getElem? hget)
  | keep i es e hphase hget =>
      rw [hphase] at hinside
      refine h.frame rfl rfl rfl (fun e' he' => ?_) hinside
      rcases List.mem_or_eq_of_mem_set he' with he' | rfl
      · exact h.timeouts e' he'
      · exact h.timeouts e (List.mem_of_getElem? hget)
  | fired hphase => exact h.frame rfl rfl rfl h.timeouts nofun
  | timeoutFreed e es hphase =>
      rw [hphase] at hinside
      exact h.frame rfl rfl rfl h.timeouts fun k hk => hinside k (List.mem_cons_of_mem _ hk)
  | timeout e es hphase hlive fault world calls hends =>
      rw [hphase] at hinside
      have hnext : Linked { r with phase := .timeouts es, fired := r.fired ++ [(e, r.scans)] } :=
        h.frame rfl rfl rfl h.timeouts fun k hk => hinside k (List.mem_cons_of_mem _ hk)
      exact hnext.obeyAll (hinside _ List.mem_cons_self) (handleTimeout_ends hends)
  | checked i hphase => exact h.frame rfl rfl rfl h.timeouts nofun
  | spare i j hphase => exact h.frame rfl rfl rfl h.timeouts nofun
  -- the entries with the pointer are erased as well
  | delete i j hphase hget =>
      have hrest : ∀ {k}, k ∈ r.mEvtHandlers.eraseIdx i ↔ k ≠ j ∧ k ∈ r.mEvtHandlers :=
        h.mem_eraseIdx hget
      refine ⟨h.once.eraseIdx i, ?_, ?_, ?_, ?_⟩
      · intro k hk
        rcases hk with hk | hk
        · exact h.made k (.inl (hrest.mp hk).2)
        rcases List.mem_cons.mp hk with rfl | hk
        · exact h.made k (.inl (List.mem_of_getElem? hget))
        · exact h.made k (.inr hk)
      · intro k hk hdead
        obtain ⟨hne, hk⟩ := hrest.mp hk
        rcases List.mem_cons.mp hdead with heq | hdead
        · exact hne heq
        · exact h.kept k hk hdead
      · intro e he
        obtain ⟨he, hne⟩ := List.mem_filter.mp he
        exact hrest.mpr ⟨of_decide_eq_true hne, h.timeouts e he⟩
      · show ∀ k ∈ r.phase.pointers, _
        rw [hphase]
        nofun

/-- A turn of the reactor that goes well leaves all handlers calm. -/
theorem turn_calm (h : AllCalm r.world) (hturn : Turn (api P) r none r') : AllCalm r'.world := by
  cases hturn with
  | event map desc pds j hphase hflags hmap hlive fault world calls hends =>
      rw [obeyAll_world]
      exact (handleEvent_ends hends).calm (event_member desc) h
  | timeout e es hphase hlive fault world calls hends =>
      rw [obeyAll_world]
      exact (handleTimeout_ends hends).calm timeout_member h
  | _ => exact h

/-- No turn of the reactor calls a handler that has been deleted. -/
theorem turn_live (h : Linked r) (hcalm : AllCalm r.world) (hturn : Turn (api P) r fault r') :
    fault ≠ some .useAfterFree := by
  have hinside := h.inside
  rintro rfl
  cases hturn with
  | pollFreed k hphase hmem hdead => exact h.kept k hmem hdead
  | eventFreed map desc pds k hphase hmap hdead => exact h.kept k (h.looked_up hphase hmap) hdead
  | event map desc pds k hphase hflags hmap hlive fault world calls hends =>
      have := (handleEvent_ends hends).freed_iff (event_member desc) hcalm
      exact Bool.false_ne_true (this.mp rfl)
  | timeoutFreed e es hphase hdead =>
      rw [hphase] at hinside
      exact h.kept _ (hinside _ List.mem_cons_self) hdead
  | timeout e es hphase hlive fault world calls hends =>
      have := (handleTimeout_ends hends).freed_iff timeout_member hcalm
      exact Bool.false_ne_true (this.mp rfl)
  | deleteFreed i k hphase hget hdead => exact h.kept k (List.mem_of_getElem? hget) hdead

/-! ## A handler that stops the reactor -/

/-- Handler `k`, which is registered, stops the reactor. -/
inductive Halts (P : Platform) (r : Reactor Agent) : Reactor Agent → Prop
  | mk (k : Nat) (hk : k ∈ r.mEvtHandlers) (m : Call Unit)
      (mh : EStateM Fault HeartbeatEventHandler Unit) (hm : Member m mh)
      (phase : Phase) (fired : List (Entry × Nat)) (w : Agent) (calls : List ReactorCall)
      (hcalled : Called P m mh k r.world true (some .useAfterFree) w calls) :
      Halts P r (({ r with phase, fired }.obeyAll w calls).halted (api P))

/-- A call that stops the reactor registers no handler. -/
theorem Called.stopped_handlers {m : Call Unit} {mh : EStateM Fault HeartbeatEventHandler Unit}
    (hcalled : Called P m mh k w true fault w' calls) (r : Reactor Agent) :
    (r.obeyAll w' calls).mEvtHandlers = r.mEvtHandlers := by
  cases hcalled with
  | command c c' =>
      obtain ⟨es, -, -, -, hhandlers⟩ :=
        obey_settings (k := k) { r with world := w.update k (.command c') c'.io.os } c'.io
      exact hhandlers

/-- The handler is deleted with all others, and goes on. -/
theorem perform_stops {w : Agent} (honce : r.mEvtHandlers.Nodup)
    (hkept : ∀ k ∈ r.mEvtHandlers, k ∉ r.deleted)
    (hhandlers : (r.obeyAll w calls).mEvtHandlers = r.mEvtHandlers) (fault : Fault) :
    perform (api P) (leaving true (some fault) w calls) r =
      .error fault ((r.obeyAll w calls).halted (api P)) := by
  have hstop : stop (api P) (r.obeyAll w calls) = .ok () ((r.obeyAll w calls).halted (api P)) := by
    refine stop_ok ?_ ?_
    · rw [hhandlers]
      exact honce
    · rw [hhandlers, obeyAll_deleted]
      exact hkept
  simp only [leaving, if_true, perform, hstop]
  rfl

/-- A step in which a member function stops the reactor fails. -/
theorem stopped_step (h : Linked r) (hcalm : AllCalm r.world) (hstop : ¬ Unstopped (api P) r) :
    ∃ r', step (api P) r = .error .useAfterFree r' ∧ Halts P r r' := by
  -- what one call that stops comes to, by the part of the state that the loop has changed
  let r₁ (phase : Phase) (fired : List (Entry × Nat)) : Reactor Agent := { r with phase, fired }
  have hcall : ∀ (k : Nat) (member : Agent → Outcome Agent) (m : Call Unit)
      (mh : EStateM Fault HeartbeatEventHandler Unit) (phase : Phase) (fired : List (Entry × Nat)),
      Member m mh → k ∈ r.mEvtHandlers →
      (∃ stopped fault w' calls, member r.world = leaving stopped fault w' calls ∧
        Called P m mh k r.world stopped fault w' calls) →
      (¬ ∃ fault w' calls, Ends (member r.world) fault w' calls) →
      ∃ r', invoke (api P) k member { r with phase, fired } = .error .useAfterFree r' ∧
        Halts P r r' := by
    rintro k member m mh phase fired hm hk ⟨stopped, fault, w', calls, heq, hcalled⟩ hno
    cases stopped with
    | false => exact absurd ⟨fault, w', calls, heq ▸ leaving_stopless fault w' calls⟩ hno
    | true =>
        obtain rfl := (hcalled.freed_iff hm hcalm).mpr rfl
        refine ⟨_, ?_, .mk k hk m mh hm phase fired w' calls hcalled⟩
        unfold invoke
        rw [if_neg (h.kept k hk)]
        show perform (api P) (member r.world) { r with phase, fired } = _
        rw [heq]
        exact perform_stops (r := r₁ phase fired) h.once h.kept (hcalled.stopped_handlers _) _
  by_contra hnone
  refine hstop ⟨?_, ?_⟩
  · intro map desc pds k hphase hflags hmap
    by_contra hno
    refine hnone ?_
    rw [step_event hphase hflags hmap]
    exact hcall k _ _ _ _ _ (event_member desc) (h.looked_up hphase hmap)
      (handleEvent_called P k desc r.world) hno
  · intro e es hphase
    by_contra hno
    refine hnone ?_
    have hinside := h.inside
    rw [hphase] at hinside
    rw [step_timeout hphase]
    exact hcall _ _ _ _ _ _ timeout_member (hinside _ List.mem_cons_self)
      (handleTimeout_called P _ r.world) hno

/-! ## Runs -/

/-- Pointers in order, and handlers calm. -/
structure Tidy (r : Reactor Agent) : Prop extends Linked r where
  calm : AllCalm r.world

theorem start_tidy (os : Os) (polls : List (List PollFlags)) (accepts : List Bool) :
    Tidy (start os polls accepts) :=
  ⟨start_linked os polls accepts, start_calm os polls accepts⟩

/-- A step from a tidy state is a turn of the reactor, or a handler stops the reactor. -/
theorem Tidy.yields (h : Tidy r) (hstep : Yields (step (api P)) r fault r') :
    Turn (api P) r fault r' ∨ fault = some .useAfterFree ∧ Halts P r r' := by
  by_cases hstopless : Unstopped (api P) r
  · exact .inl (turn_of_yields hstep hstopless)
  · obtain ⟨r₁, heq, hhalts⟩ := stopped_step h.toLinked h.calm hstopless
    obtain ⟨hfault, rfl⟩ := hstep.of_error heq
    exact .inr ⟨hfault, hhalts⟩

theorem Tidy.step (h : Tidy r) (hstep : Reactor.step (api P) r = .ok () r') : Tidy r' := by
  rcases h.yields (show Yields (Reactor.step (api P)) r none r' from hstep) with hturn | ⟨hfault, -⟩
  · exact ⟨h.turn hturn, turn_calm h.calm hturn⟩
  · cases hfault

/-- A step that goes well does not stop the reactor. -/
theorem Tidy.unstopped (h : Tidy r) (hstep : Reactor.step (api P) r = .ok () r') :
    Unstopped (api P) r := by
  by_contra hstop
  obtain ⟨r₁, hfail, -⟩ := stopped_step h.toLinked h.calm hstop
  rw [hfail] at hstep
  cases hstep

theorem reached_tidy {ok : Reactor Agent → Prop} {os : Os} {polls : List (List PollFlags)}
    {accepts : List Bool} (h : Reached (api P) ok (start os polls accepts) r) : Tidy r :=
  h.invariant (start_tidy os polls accepts) fun _ _ _ hr hstep => hr.step hstep

theorem reached_unstopped {ok : Reactor Agent → Prop} {os : Os} {polls : List (List PollFlags)}
    {accepts : List Bool} (h : Reached (api P) ok (start os polls accepts) r) :
    Reached (api P) (Unstopped (api P)) (start os polls accepts) r := by
  induction h with
  | start => exact .start
  | step h _ hstep ih => exact .step ih ((reached_tidy h).unstopped hstep) hstep

/-- The pointers in `mEvtHandlers` and `mTimeouts` are to handlers that have not been
deleted. -/
def Live (r : Reactor Agent) : Prop :=
  (∀ k ∈ r.mEvtHandlers, k ∉ r.deleted) ∧ ∀ e ∈ r.mTimeouts, e.evtHandler ∉ r.deleted

theorem Linked.live (h : Linked r) : Live r :=
  ⟨h.kept, fun e he => h.kept _ (h.timeouts e he)⟩

/-- **Handlers that are deleted are used no more, unless a handler calls `stop`.** In every
state that a run without `stop` comes to, the pointers are to handlers that have not been
deleted, and the `stop` of `main` would close each of them once. The next step uses a handler
that has been deleted if and only if the member function that it calls stops the reactor. -/
theorem handlers_kept (P : Platform) (os : Os) (polls : List (List PollFlags))
    (accepts : List Bool) :
    (∀ r, Moment (api P) (Unstopped (api P)) (start os polls accepts) r → Live r) ∧
      ∀ r, Reached (api P) (Unstopped (api P)) (start os polls accepts) r →
        ((∃ r', step (api P) r = .error .useAfterFree r') ↔ ¬ Unstopped (api P) r) ∧
          stop (api P) r = .ok () (r.halted (api P)) := by
  constructor
  · intro r h
    have hlinked : Linked r := by
      rcases h with h | ⟨r₁, fault, h, hstopless, hfail⟩
      · exact (reached_tidy h).toLinked
      · have hstep : Yields (step (api P)) r₁ (some fault) r := hfail
        exact (reached_tidy h).turn (turn_of_yields hstep hstopless)
    exact hlinked.live
  · intro r h
    have htidy := reached_tidy h
    refine ⟨⟨?_, fun hstop => ?_⟩, stop_ok htidy.once htidy.kept⟩
    · rintro ⟨r', hfail⟩ hstopless
      have hstep : Yields (step (api P)) r (some .useAfterFree) r' := hfail
      exact turn_live htidy.toLinked htidy.calm (turn_of_yields hstep hstopless) rfl
    · obtain ⟨r', hfail, -⟩ := stopped_step htidy.toLinked htidy.calm hstop
      exact ⟨r', hfail⟩

/-- A client of each of the two ports, and the line `rebt`. -/
def rebooting : Reactor Agent :=
  start { recvs := [.data 114 (str "ebt\n")] }
    [[{ read := true }, { read := true }], [{}, {}, { read := true }]] []

/-- The connection goes on after `stop` has deleted it, and the timer of the heartbeat,
which is deleted too, is left. -/
theorem rebt_keeps_freed :
    ∃ r r', Reached (api .plain) (fun _ => True) rebooting r ∧
      step (api .plain) r = .error .useAfterFree r' ∧ ¬ Live r' := by
  have hrun : (match step (api .plain) (Reactor.steps (api .plain) 15 rebooting) with
      | .error .useAfterFree r' => r'.mTimeouts.any fun e => e.evtHandler ∈ r'.deleted
      | _ => false) = true := by
    decide +kernel
  split at hrun
  · rename_i r' hfail
    refine ⟨_, r', Reached.start.steps fun _ _ => trivial, hfail, fun hlive => ?_⟩
    obtain ⟨e, he, hdead⟩ := List.any_eq_true.mp hrun
    exact hlive.2 e he (of_decide_eq_true hdead)
  · cases hrun

end Agent

end Negatus
