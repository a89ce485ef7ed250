import Mathlib.Data.List.Perm.Basic
import Negatus.Agent.Handlers

/-!
# How a handler is woken up

The timer of a subprocess is set by the data handler and belongs to the connection. So
the entries of a connection in the reactor have to agree with its data handler: there is
one while a subprocess runs, and none otherwise. They do as long as the connection is
open. `close` drops the data handler, and its entry stays until the end of `run`.
-/

namespace Negatus

open Foundations

/-- The entries that `run` has taken out of `mTimeouts` and has still to call. -/
def Reactor.Phase.due : Reactor.Phase → List Reactor.Entry
  | .scan _ expiredHandlers => expiredHandlers
  | .timeouts expiredHandlers => expiredHandlers
  | .top => []
  | .events _ _ => []
  | .deleteClosed _ => []

/-- The entries of handler `k`. -/
def Reactor.pending {σ : Type} (k : Nat) (r : Reactor σ) : Nat :=
  ((r.mTimeouts ++ r.phase.due).map (·.evtHandler)).count k

/-- The entries that a handler is to have while it is open. -/
def EventHandler.credit : EventHandler → Nat
  | .acceptor _ => 0
  | .command c => c.credit
  | .heartbeat _ => 1

namespace Agent

open Reactor

variable {P : Platform} {k : Nat} {w w' : Agent} {fault : Option Fault}
  {calls : List ReactorCall} {r r' : Reactor Agent}

/-! ## Calls -/

/-- A member function that uses up `due` entries leaves as many as the handler is to have,
and opens nothing that was closed. -/
structure Punctual (due : Nat) (m : Call Unit)
    (mh : EStateM Fault HeartbeatEventHandler Unit) : Prop where
  command : ∀ c, CommandEventHandler.Rested c → c.io.timers = [] →
    Ensures m c (fun _ c' => c'.mClosed = false → c.mClosed = false ∧
      (due ≤ c.credit → c'.io.timers.length + c.credit = c'.credit + due)) (fun _ _ => True)
  heartbeat : ∀ h : HeartbeatEventHandler, h.Rested → h.io.timers = [] →
    Ensures mh h (fun _ h' => h'.mClosed = false → h.mClosed = false ∧ h'.io.timers.length = due)
      (fun _ _ => True)

theorem event_punctual (desc : PollDesc) :
    Punctual 0 (CommandEventHandler.handleEvent P desc)
      (HeartbeatEventHandler.handleEvent desc) where
  command c hr hnone := by
    refine Ensures.mono (CommandEventHandler.handleEvent_leads (P := P) hr.toSound desc) ?_
      (fun _ _ _ => trivial)
    rintro - c' ⟨hpath, -⟩
    have hinStep : CommandEventHandler.InStep c c' := by
      induction hpath with
      | refl => exact .refl c
      | tail _ hstep ih => exact ih.trans hstep.2
    intro hopen
    obtain ⟨hopen, hsame⟩ := hinStep hopen
    rw [hnone] at hsame
    exact ⟨hopen, fun _ => hsame.trans (Nat.zero_add _)⟩
  heartbeat h hr hnone := by
    refine (h.handleEvent_ensures desc).mono ?_ (fun _ _ _ => trivial)
    rintro - h' ⟨-, htimers, hclosed⟩ hopen
    exact ⟨hclosed hopen, by rw [htimers, hnone]; rfl⟩

theorem timeout_punctual :
    Punctual 1 (CommandEventHandler.handleTimeout P)
      (HeartbeatEventHandler.handleTimeout P) where
  command c hr hnone := by
    refine Ensures.mono (CommandEventHandler.handleTimeout_leads (P := P) hr.toSound) ?_
      (fun _ _ _ => trivial)
    rintro - c' ⟨-, -, -, hopen, htimers⟩
    refine fun _ => ⟨hopen, fun hdue => ?_⟩
    have hone : c.credit = 1 := Nat.le_antisymm c.credit_le hdue
    rw [hnone] at htimers
    rw [htimers, hone]
    simp
  heartbeat h hr hnone := by
    refine (h.handleTimeout_ensures P).mono ?_ (fun _ _ _ => trivial)
    rintro - h' ⟨hclosed, -, htimers⟩ hopen
    exact ⟨hclosed ▸ hopen, by rw [htimers, hnone]; rfl⟩

/-- Timers that are set for handler `k` become its entries, and those of no other. -/
theorem pending_settings (r : Reactor Agent) (io : Io) (j : Nat) :
    ((settings k io).foldl obey r).pending j =
      r.pending j + if j = k then io.timers.length else 0 := by
  obtain ⟨es, hmine, hlen, htimeouts, -⟩ := obey_settings (k := k) r io
  have hphase : (r.obeyAll r.world (settings k io)).phase = r.phase := obeyAll_phase
  change ((settings k io).foldl obey r).phase = r.phase at hphase
  have howners : es.map (·.evtHandler) = List.replicate io.timers.length k := by
    rw [← hlen]
    refine List.eq_replicate_iff.mpr ⟨List.length_map _, fun a ha => ?_⟩
    obtain ⟨e, he, rfl⟩ := List.mem_map.mp ha
    exact hmine e he
  unfold Reactor.pending
  rw [htimeouts, hphase]
  simp only [List.map_append, List.count_append, howners, List.count_replicate, beq_iff_eq,
    @eq_comm _ k j]
  omega

/-- The entries after a call that has set timers. -/
theorem pending_set (r : Reactor Agent) (w : Agent) (io : Io) (j : Nat) :
    (r.obeyAll w (settings k io)).pending j =
      r.pending j + if j = k then io.timers.length else 0 :=
  pending_settings { r with world := w } io j

/-- The entries after a call that has created handler `k`. -/
theorem pending_created (r : Reactor Agent) (w : Agent) (io : Io) (j : Nat) :
    (r.obeyAll w (.registerHandler k :: settings k io)).pending j =
      r.pending j + if j = k then io.timers.length else 0 := by
  let r₁ : Reactor Agent := { r with world := w }
  exact pending_settings (r₁.registerHandler k) io j

/-- A handler that has just been created has set its timers. -/
theorem Born.credit {socket : Nat} {os : Os} {h : EventHandler} {io : Io}
    (hborn : Born P socket os h io) : io.timers.length = h.credit := by
  cases hborn with
  | command => exact congrArg List.length (CommandEventHandler.new_facts socket os).2.2
  | heartbeat => exact (HeartbeatEventHandler.new_rested P socket os).2.2

/-- The entries agree with what the handlers do, as long as these are open. -/
def Agrees (r : Reactor Agent) : Prop :=
  ∀ (k : Nat) (h : EventHandler), r.world.handlers[k]? = some h → h.closed = false →
    r.pending k = h.credit

/-- No entry belongs to a handler that is still to be created. -/
theorem Linked.pending_new (h : Linked r) : r.pending r.world.handlers.length = 0 := by
  refine List.count_eq_zero.mpr fun hmem => ?_
  obtain ⟨e, he, heq⟩ := List.mem_map.mp hmem
  have hreg : e.evtHandler ∈ r.mEvtHandlers := by
    rcases List.mem_append.mp he with he | he
    · exact h.timeouts e he
    · refine h.inside _ ?_
      cases hphase : r.phase with
      | scan i es =>
          rw [hphase] at he
          exact List.mem_map_of_mem he
      | timeouts es =>
          rw [hphase] at he
          exact List.mem_map_of_mem he
      | _ =>
          rw [hphase] at he
          cases he
  exact lt_irrefl _ (heq ▸ h.made _ (.inl hreg))

/-- A call that has used up `due` entries of its handler restores the agreement. -/
theorem Called.agrees {m : Call Unit} {mh : EStateM Fault HeartbeatEventHandler Unit} {due : Nat}
    (hcalled : Called P m mh k r.world false none w' calls) (hm : Punctual due m mh)
    (hlinked : Linked r) (hcalm : AllCalm r.world)
    (hpending : ∀ (j : Nat) (h : EventHandler), r.world.handlers[j]? = some h → h.closed = false →
      r.pending j + (if j = k then due else 0) = h.credit) : Agrees (r.obeyAll w' calls) := by
  intro j h hget hopen
  rw [obeyAll_world] at hget
  have hother : j ≠ k → r.world.handlers[j]? = some h → r.pending j = h.credit := by
    intro hj hget
    have := hpending j h hget hopen
    rwa [if_neg hj] at this
  -- acceptors have no entries
  have hacceptor : ∀ {a : SocketAcceptor}, r.world.handlers[k]? = some (.acceptor a) →
      r.world.handlers[j]? = some h → r.pending j = h.credit := by
    intro a ha hget
    by_cases hj : j = k
    · subst hj
      have hzero := hpending j h hget hopen
      obtain rfl := Option.some.inj (ha.symm.trans hget)
      exact (Nat.add_eq_zero_iff.mp hzero).1
    · exact hother hj hget
  cases hcalled with
  | nothing hcommand hheartbeat =>
      cases h with
      | acceptor a =>
          by_cases hj : j = k
          · exact hacceptor (hj ▸ hget) hget
          · exact hother hj hget
      | command c =>
          exact hother (fun hj => hcommand c (hj ▸ hget)) hget
      | heartbeat b =>
          exact hother (fun hj => hheartbeat b (hj ▸ hget)) hget
  | created a accepts h' io ha hborn =>
      rw [pending_created]
      rcases getElem?_created hget with ⟨rfl, rfl⟩ | ⟨hj, hget⟩
      · rw [if_pos rfl, hlinked.pending_new, Nat.zero_add]
        exact hborn.credit
      · rw [if_neg hj]
        exact hacceptor ha hget
  | command c c' _ _ hget' hrun =>
      rw [pending_set]
      have hspec := (hm.command _ (resume_rested (hcalm k _ hget').1 r.world.os) rfl).of_yields hrun
      rcases getElem?_update hget with ⟨rfl, rfl⟩ | ⟨hj, hget⟩
      · obtain ⟨hopen₀, htimed⟩ := hspec hopen
        have hcount := hpending j _ hget' hopen₀
        rw [if_pos rfl] at hcount ⊢
        have hcredit : (c.setIo (EventHandler.resume r.world.os c.io)).credit = c.credit := rfl
        change r.pending j + due = c.credit at hcount
        have := htimed (by omega)
        show r.pending j + c'.io.timers.length = c'.credit
        omega
      · rw [if_neg hj]
        exact hother hj hget
  | heartbeat b b' _ hget' hrun =>
      rw [pending_set]
      have hr : HeartbeatEventHandler.Rested { b with io := EventHandler.resume r.world.os b.io } :=
        (hcalm k _ hget').1
      have hspec := (hm.heartbeat _ hr rfl).of_yields hrun
      rcases getElem?_update hget with ⟨rfl, rfl⟩ | ⟨hj, hget⟩
      · obtain ⟨hopen₀, htimers⟩ := hspec hopen
        have hcount := hpending j _ hget' hopen₀
        rw [if_pos rfl] at hcount ⊢
        rw [htimers]
        exact hcount
      · rw [if_neg hj]
        exact hother hj hget

/-! ## Turns -/

/-- The handlers that `deleteClosed` has found open: all of them once it has ended. -/
def swept (evtHandlers : List Nat) : Phase → List Nat
  | .top => evtHandlers
  | .deleteClosed i => evtHandlers.take i
  | _ => []

structure Awake (r : Reactor Agent) : Prop extends Tidy r where
  agrees : Agrees r
  swept : ∀ k ∈ swept r.mEvtHandlers r.phase, ∀ h : EventHandler,
    r.world.handlers[k]? = some h → h.closed = false

theorem Agrees.frame (h : Agrees r) (hworld : r'.world.handlers = r.world.handlers)
    (howners : ((r'.mTimeouts ++ r'.phase.due).map (·.evtHandler)).Perm
      ((r.mTimeouts ++ r.phase.due).map (·.evtHandler))) : Agrees r' := by
  intro k hk hget hopen
  rw [hworld] at hget
  exact (howners.count_eq k).trans (h k hk hget hopen)

theorem Agrees.phase (h : Agrees r) (hworld : r'.world.handlers = r.world.handlers)
    (htimeouts : r'.mTimeouts = r.mTimeouts) (hdue : r'.phase.due = r.phase.due) : Agrees r' := by
  refine h.frame hworld ?_
  rw [htimeouts, hdue]

/-- Looking at an entry leaves it to its handler. -/
theorem owners_set {es : List Entry} {i : Nat} {e : Entry} (hget : es[i]? = some e) (now : Nat) :
    (es.set i (e.seen now)).map (·.evtHandler) = es.map (·.evtHandler) := by
  obtain ⟨hlt, rfl⟩ := List.getElem?_eq_some_iff.mp hget
  rw [List.map_set]
  refine List.ext_getElem (List.length_set ..) fun j hj hj' => ?_
  rw [List.getElem_set]
  split
  · rename_i hij
    subst hij
    rw [List.getElem_map]
    rfl
  · rfl

theorem owners_erase {es es' : List Entry} {i : Nat} {e : Entry} (hget : es[i]? = some e)
    (now : Nat) : ((es.eraseIdx i ++ (es' ++ [e.seen now])).map (·.evtHandler)).Perm
      ((es ++ es').map (·.evtHandler)) := by
  obtain ⟨hlt, rfl⟩ := List.getElem?_eq_some_iff.mp hget
  have hperm : (es[i] :: es.eraseIdx i).Perm es := List.getElem_cons_eraseIdx_perm hlt
  have hback : (es.eraseIdx i ++ (es' ++ [es[i]])).Perm (es ++ es') := by
    rw [← List.append_assoc]
    refine (List.perm_append_singleton _ _).trans ?_
    rw [← List.cons_append]
    exact hperm.append_right es'
  have hmap := hback.map (·.evtHandler)
  simp only [List.map_append] at hmap ⊢
  exact hmap

theorem Agrees.turn (h : Agrees r) (htidy : Tidy r) (hturn : Turn (api P) r none r') :
    Agrees r' := by
  cases hturn with
  | poll hphase => exact h.phase rfl rfl (by rw [hphase]; rfl)
  | polled map hphase => exact h.phase rfl rfl (by rw [hphase]; rfl)
  | idle map desc pds hphase => exact h.phase rfl rfl (by rw [hphase]; rfl)
  | event map desc pds j hphase hflags hmap hlive fault world calls hends =>
      let r₁ : Reactor Agent := { r with phase := .events map pds }
      have hinside := htidy.inside
      rw [hphase] at hinside
      have hlinked : Linked r₁ := htidy.frame rfl rfl rfl htidy.timeouts hinside
      have hagrees : Agrees r₁ := h.phase rfl rfl (by rw [hphase]; rfl)
      have hcalled := handleEvent_ends hends
      refine hcalled.agrees (r := r₁) (event_punctual desc) hlinked htidy.calm ?_
      intro i hi hget hopen
      rw [ite_self, Nat.add_zero]
      exact hagrees i hi hget hopen
  | scanned i es hphase => exact h.phase rfl rfl (by rw [hphase]; rfl)
  | expire i es e hphase hget =>
      refine h.frame rfl ?_
      rw [hphase]
      exact owners_erase hget _
  | keep i es e hphase hget =>
      refine h.frame rfl ?_
      rw [hphase, List.map_append, List.map_append]
      exact (List.Perm.of_eq (owners_set hget _)).append_right _
  | fired hphase => exact h.phase rfl rfl (by rw [hphase]; rfl)
  | timeout e es hphase hlive fault world calls hends =>
      let r₁ : Reactor Agent :=
        { r with phase := .timeouts es, fired := r.fired ++ [(e, r.scans)] }
      have hinside := htidy.inside
      rw [hphase] at hinside
      have hlinked : Linked r₁ :=
        htidy.frame rfl rfl rfl htidy.timeouts fun k hk => hinside k (List.mem_cons_of_mem _ hk)
      have hcalled := handleTimeout_ends hends
      refine hcalled.agrees (r := r₁) timeout_punctual hlinked htidy.calm ?_
      intro i hi hget hopen
      rw [← h i hi hget hopen]
      unfold Reactor.pending
      rw [hphase]
      show ((r.mTimeouts ++ es).map (·.evtHandler)).count i + _ =
        ((r.mTimeouts ++ e :: es).map (·.evtHandler)).count i
      simp only [List.map_append, List.map_cons, List.count_append, List.count_cons, beq_iff_eq,
        @eq_comm _ e.evtHandler i, Nat.add_assoc]
  | checked i hphase => exact h.phase rfl rfl (by rw [hphase]; rfl)
  | spare i j hphase => exact h.phase rfl rfl (by rw [hphase]; rfl)
  | delete i j hphase hget hlive hclosed =>
      intro k hk hget' hopen
      rw [← h k hk hget' hopen]
      have hkj : k ≠ j := by
        rintro rfl
        change (r.world.handlers[k]?.elim false EventHandler.closed) = true at hclosed
        have hget'' : r.world.handlers[k]? = some hk := hget'
        rw [hget''] at hclosed
        exact Bool.false_ne_true (hopen.symm.trans hclosed)
      have hothers : (((r.mTimeouts.filter (·.evtHandler ≠ j))).map (·.evtHandler)).count k =
          (r.mTimeouts.map (·.evtHandler)).count k := by
        simp only [List.count_eq_countP, List.countP_map, List.countP_filter]
        refine List.countP_congr fun e _ => ?_
        simp only [Function.comp, Bool.and_eq_true, beq_iff_eq, decide_eq_true_eq,
          and_iff_left_iff_imp]
        rintro rfl
        exact hkj
      unfold Reactor.pending
      rw [List.map_append, List.count_append, List.map_append, List.count_append]
      exact congrArg (· + _) hothers

/-- `deleteClosed` passes handlers that are open, and ends when it has passed all. -/
theorem Awake.swept_turn (h : Awake r) (hturn : Turn (api P) r none r') :
    ∀ k ∈ Agent.swept r'.mEvtHandlers r'.phase, ∀ h : EventHandler,
      r'.world.handlers[k]? = some h → h.closed = false := by
  have hswept := h.swept
  cases hturn with
  | event map desc pds j hphase =>
      rw [obeyAll_phase]
      nofun
  | timeout e es hphase =>
      rw [obeyAll_phase]
      nofun
  | fired hphase => exact nofun
  | checked i hphase hend =>
      rw [hphase] at hswept
      have hlen : r.mEvtHandlers.length ≤ i := List.getElem?_eq_none_iff.mp hend
      intro k hk
      refine hswept k ?_
      show k ∈ r.mEvtHandlers.take i
      rwa [List.take_of_length_le hlen]
  | spare i j hphase hget hlive hopen =>
      rw [hphase] at hswept
      intro k hk hd hget'
      change k ∈ r.mEvtHandlers.take (i + 1) at hk
      rw [List.take_add_one, hget] at hk
      rcases List.mem_append.mp hk with hk | hk
      · exact hswept k hk hd hget'
      · obtain rfl := List.mem_singleton.mp hk
        change r.world.handlers[k]?.elim false EventHandler.closed = false at hopen
        have hsome : r.world.handlers[k]? = some hd := hget'
        rwa [hsome] at hopen
  | delete i j hphase hget =>
      rw [hphase] at hswept
      intro k hk
      refine hswept k ?_
      change k ∈ Agent.swept (r.mEvtHandlers.eraseIdx i) r.phase at hk
      rw [hphase] at hk
      change k ∈ (r.mEvtHandlers.eraseIdx i).take i at hk
      rwa [List.take_eraseIdx_eq_take_of_le _ _ _ le_rfl] at hk
  | _ => exact nofun

theorem Awake.turn (h : Awake r) (hturn : Turn (api P) r none r') : Awake r' where
  toLinked := h.toLinked.turn hturn
  calm := turn_calm h.calm hturn
  agrees := h.agrees.turn h.toTidy hturn
  swept := h.swept_turn hturn

theorem start_awake (os : Os) (polls : List (List PollFlags)) (accepts : List Bool) :
    Awake (start os polls accepts) where
  toTidy := start_tidy os polls accepts
  agrees k h hget _ := by
    rcases List.mem_pair.mp (List.mem_of_getElem? hget) with rfl | rfl <;> rfl
  swept k _ h hget := by
    rcases List.mem_pair.mp (List.mem_of_getElem? hget) with rfl | rfl <;> rfl

theorem reached_awake {os : Os} {polls : List (List PollFlags)} {accepts : List Bool}
    (h : Reached (api P) (Unstopped (api P)) (start os polls accepts) r) : Awake r :=
  h.invariant (start_awake os polls accepts) fun _ _ hstopless hr hstep =>
    hr.turn (turn_of_yields (show Yields (step (api P)) _ none _ from hstep) hstopless)

/-! ## Timeouts of connections -/

theorem credit_le (h : EventHandler) : h.credit ≤ 1 := by
  cases h with
  | acceptor => exact Nat.zero_le 1
  | command c => exact c.credit_le
  | heartbeat => exact le_rfl

/-- The handler that `run` is about to call has a subprocess if and only if it is open. -/
theorem Awake.attended_iff (h : Awake r) {e : Entry} {es : List Entry} {c : Connection}
    (hphase : r.phase = .timeouts (e :: es))
    (hget : r.world.handlers[e.evtHandler]? = some (.command c)) :
    (∃ s, c.mDataEventHandler = some (.subprocess s)) ↔ c.mClosed = false := by
  constructor
  · rintro ⟨s, hdata⟩
    exact (h.calm _ _ hget).1.toSound.open_of_busy hdata
  · intro hopen
    have hcredit : r.pending e.evtHandler = c.credit := h.agrees _ _ hget hopen
    have hpos : 0 < c.credit := by
      rw [← hcredit]
      refine List.count_pos_iff.mpr (List.mem_map_of_mem (List.mem_append_right _ ?_))
      rw [hphase]
      exact List.mem_cons_self
    unfold Connection.credit at hpos
    cases hdata : c.mDataEventHandler with
    | none =>
        rw [hdata] at hpos
        exact absurd hpos (lt_irrefl 0)
    | some d =>
        rw [hdata] at hpos
        cases d with
        | subprocess s => exact ⟨s, rfl⟩
        | pull => exact absurd hpos (lt_irrefl 0)
        | push => exact absurd hpos (lt_irrefl 0)

/-- When `run` calls `handleTimeout` of a connection, a subprocess is attached. -/
def Attended (r : Reactor Agent) : Prop :=
  ∀ (e : Entry) (es : List Entry) (c : Connection), r.phase = .timeouts (e :: es) →
    r.world.handlers[e.evtHandler]? = some (.command c) →
      ∃ s, c.mDataEventHandler = some (.subprocess s)

/-- The next step does not take the entry of a closed connection out of `mTimeouts`. -/
def TakesOpen (P : Platform) (r : Reactor Agent) : Prop :=
  ∀ (i : Nat) (es : List Entry) (e : Entry) (c : Connection), r.phase = .scan i es →
    r.mTimeouts[i]? = some e → r.world.handlers[e.evtHandler]? = some (.command c) →
      e.expired ((api P).intervalNow r.world).1 = true → c.mClosed = false

/-- The connections that `run` has still to call are open. -/
def DueOpen (r : Reactor Agent) : Prop :=
  ∀ e ∈ r.phase.due, ∀ c : Connection, r.world.handlers[e.evtHandler]? = some (.command c) →
    c.mClosed = false

/-- A handler that is a connection behind a call was one before. -/
theorem Called.was_connection {m : Call Unit} {mh : EStateM Fault HeartbeatEventHandler Unit}
    {stopped : Bool} {fault : Option Fault} (h : Called P m mh k w stopped fault w' calls)
    {c' : Connection} (hget : w'.handlers[k]? = some (.command c')) :
    ∃ c, w.handlers[k]? = some (.command c) := by
  cases h with
  | nothing hcommand => exact absurd hget (hcommand c')
  | refused => exact ⟨c', hget⟩
  | created a accepts hd io ha hborn =>
      obtain ⟨hlt, -⟩ := List.getElem?_eq_some_iff.mp ha
      rw [List.getElem?_append_left hlt] at hget
      exact ⟨c', hget⟩
  | command c _ _ _ hget' => exact ⟨c, hget'⟩
  | heartbeat b b' _ hget' =>
      rcases getElem?_update hget with ⟨-, heq⟩ | ⟨hne, -⟩
      · cases heq
      · exact absurd rfl hne

theorem DueOpen.turn (h : DueOpen r) (hr : Awake r) (htakes : TakesOpen P r)
    (hturn : Turn (api P) r none r') : DueOpen r' := by
  cases hturn with
  | event map desc pds j hphase =>
      unfold DueOpen
      rw [obeyAll_phase]
      nofun
  | scanned i es hphase =>
      unfold DueOpen at h
      rw [hphase] at h
      exact h
  | expire i es e hphase hget hexpired =>
      unfold DueOpen at h
      rw [hphase] at h
      intro e' he' c hgetc
      rcases List.mem_append.mp he' with he' | he'
      · exact h e' he' c hgetc
      · rw [List.mem_singleton.mp he'] at hgetc
        exact htakes i es e c hphase hget hgetc hexpired
  | keep i es e hphase =>
      unfold DueOpen at h
      rw [hphase] at h
      exact h
  | timeout e es hphase hlive fault world calls hends =>
      have hcalled := handleTimeout_ends hends
      have hinside := hr.inside
      unfold DueOpen at h
      rw [hphase] at h hinside
      have hlt : ∀ e' ∈ e :: es, e'.evtHandler < r.world.handlers.length := fun e' he' =>
        hr.made _ (.inl (hinside _ (List.mem_map_of_mem he')))
      -- an open connection has one entry at most, and that is the first
      have hother : ∀ e' ∈ es, ∀ c, world.handlers[e'.evtHandler]? = some (.command c) →
          e'.evtHandler ≠ e.evtHandler := by
        intro e' he' c' hget' heq
        obtain ⟨c, hget⟩ := hcalled.was_connection (heq ▸ hget')
        have hcount := hr.agrees _ _ hget (h e List.mem_cons_self _ hget)
        have hone := credit_le (.command c)
        have hmore : 0 < (es.map (·.evtHandler)).count e.evtHandler :=
          List.count_pos_iff.mpr (List.mem_map.mpr ⟨e', he', heq⟩)
        unfold Reactor.pending at hcount
        rw [hphase] at hcount
        simp only [Phase.due, List.map_append, List.map_cons, List.count_append,
          List.count_cons_self] at hcount
        omega
      unfold DueOpen
      rw [obeyAll_phase, obeyAll_world]
      intro e' he' c hget
      have hne := hother e' he' c hget
      rw [hcalled.others hne (hlt e' (List.mem_cons_of_mem _ he'))] at hget
      exact h e' (List.mem_cons_of_mem _ he') c hget
  | fired hphase => exact nofun
  | delete i j hphase =>
      intro e he
      change e ∈ r.phase.due at he
      rw [hphase] at he
      cases he
  | _ => exact nofun

/-- **A timeout of a connection finds a subprocess, unless the connection has been closed**,
in every run without `stop`. It does throughout if no scan takes the entry of a connection that
has been closed before it in the same round. -/
theorem timeouts_attended (P : Platform) (os : Os) (polls : List (List PollFlags))
    (accepts : List Bool) :
    (∀ r, Reached (api P) (Unstopped (api P)) (start os polls accepts) r →
      ∀ (e : Entry) (es : List Entry) (c : Connection), r.phase = .timeouts (e :: es) →
        r.world.handlers[e.evtHandler]? = some (.command c) →
          ((∃ s, c.mDataEventHandler = some (.subprocess s)) ↔ c.mClosed = false)) ∧
      ∀ r, Reached (api P) (fun r => Unstopped (api P) r ∧ TakesOpen P r)
        (start os polls accepts) r → Attended r := by
  refine ⟨fun r h e es c hphase hget => (reached_awake h).attended_iff hphase hget, ?_⟩
  intro r h
  have hdue : DueOpen r ∧ Awake r := by
    refine h.invariant (I := fun r => DueOpen r ∧ Awake r)
      ⟨nofun, start_awake os polls accepts⟩ ?_
    rintro r r' ⟨hstopless, htakes⟩ ⟨hdue, hr⟩ hstep
    have hturn : Turn (api P) r none r' :=
      turn_of_yields (show Yields (step (api P)) r none r' from hstep) hstopless
    exact ⟨hdue.turn hr htakes hturn, hr.turn hturn⟩
  intro e es c hphase hget
  refine (hdue.2.attended_iff hphase hget).mpr ?_
  refine hdue.1 e ?_ _ hget
  rw [hphase]
  exact List.mem_cons_self

/-- The entry whose handler `run` calls next. -/
def next? : Phase → Option Entry
  | .timeouts (e :: _) => some e
  | _ => none

theorem next?_eq_some {phase : Phase} {e : Entry} (h : next? phase = some e) :
    ∃ es, phase = .timeouts (e :: es) := by
  cases phase with
  | timeouts es =>
      cases es with
      | nil => cases h
      | cons e' es =>
          cases h
          exact ⟨es, rfl⟩
  | _ => cases h

/-- A client that sends a line and closes its side, and a round of more than 100 ms. -/
def interrupted : Reactor Agent :=
  start { recvs := [.data 101 (str "xec ls\n"), .eof], ticks := [0, 101] }
    [[{ read := true }], [{}, {}, { read := true }]] []

/-- The connection has been closed at EOF, and the timer of its subprocess is taken in the
same round. -/
theorem exec_unattended :
    ∃ r, Reached (api .plain) (Unstopped (api .plain)) interrupted r ∧ ¬ Attended r ∧
      ∃ r', step (api .plain) r = .error (.crash .nullDeref) r' := by
  let r := Reactor.steps (api .plain) 17 interrupted
  have hnext : (next? r.phase).any (fun e => (r.world.handlers[e.evtHandler]?.bind
      EventHandler.connection?).any (·.mDataEventHandler.isNone)) = true := by
    decide +kernel
  have hfail : failure (api .plain) r = some (.crash .nullDeref) := by decide +kernel
  have hreached : Reached (api .plain) (fun _ => True) interrupted r :=
    Reached.start.steps fun _ _ => trivial
  refine ⟨r, reached_unstopped hreached, fun hattended => ?_, failure_eq_some _ hfail⟩
  obtain ⟨e, he, hconnection⟩ := (Option.any_eq_true _ _).mp hnext
  obtain ⟨c, hc, hnone⟩ := (Option.any_eq_true _ _).mp hconnection
  obtain ⟨es, hphase⟩ := next?_eq_some he
  obtain ⟨s, hdata⟩ := hattended e es c hphase (EventHandler.bind_connection hc)
  rw [hdata] at hnone
  cases hnone

/-! ## Between two calls of `run` -/

/-- What wakes up a connection. -/
inductive Wakeup where
  | read
  | write
  | timer
deriving DecidableEq, Repr

/-- `PR_Poll` is asked about the socket of a handler, for `flags`. -/
def PolledFor (flags : PollFlags) (socket : Option Nat) (descs : List PollDesc) : Prop :=
  ∃ fd, socket = some fd ∧ descs = [⟨some fd, flags, {}⟩]

/-- A connection that has `timers` entries is woken up by `u`, and by nothing else. -/
def WokenBy (c : Connection) (timers : Nat) : Wakeup → Prop
  | .read =>
      (c.mDataEventHandler = none ∨ ∃ h, c.mDataEventHandler = some (.push h) ∧ h.mClosed = false) ∧
        PolledFor { read := true } c.io.sock.mSocket (CommandEventHandler.getPollDescs c) ∧
        timers = 0
  | .write =>
      (∃ h, c.mDataEventHandler = some (.pull h) ∧ h.mClosed = false) ∧
        PolledFor { write := true } c.io.sock.mSocket (CommandEventHandler.getPollDescs c) ∧
        timers = 0
  | .timer =>
      (∃ h, c.mDataEventHandler = some (.subprocess h) ∧ h.mClosed = false) ∧
        CommandEventHandler.getPollDescs c = [] ∧ timers = 1

/-- The data handler decides what wakes up a connection. -/
def wakeupOf : Option DataEventHandler → Wakeup
  | none => .read
  | some (.push _) => .read
  | some (.pull _) => .write
  | some (.subprocess _) => .timer

theorem WokenBy.eq {c : Connection} {timers : Nat} {u : Wakeup} (h : WokenBy c timers u) :
    u = wakeupOf c.mDataEventHandler := by
  cases u with
  | read =>
      rcases h.1 with hdata | ⟨d, hdata, -⟩
      · rw [hdata]
        rfl
      · rw [hdata]
        rfl
  | write =>
      obtain ⟨⟨d, hdata, -⟩, -⟩ := h
      rw [hdata]
      rfl
  | timer =>
      obtain ⟨⟨d, hdata, -⟩, -⟩ := h
      rw [hdata]
      rfl

/-- An open connection with as many entries as it is to have can be woken up. -/
theorem wokenBy_credit {c : Connection} (hr : CommandEventHandler.Rested c)
    (hconsistent : c.io.sock.Consistent) (hopen : c.mClosed = false) :
    WokenBy c c.credit (wakeupOf c.mDataEventHandler) := by
  have hrecv : c.io.sock.mRecvClosed = false :=
    hr.recvOpen.resolve_left (Bool.eq_false_iff.mp hopen)
  obtain ⟨fd, hfd⟩ := hconsistent.open (.inl hrecv)
  have hsocket : c.io.sock.closed = false := by
    unfold BufferedSocket.closed
    rw [hfd]
    rfl
  unfold WokenBy PolledFor Connection.credit CommandEventHandler.getPollDescs
  rw [hsocket, hrecv, hfd]
  cases hdata : c.mDataEventHandler with
  | none => exact ⟨.inl rfl, ⟨fd, rfl, rfl⟩, rfl⟩
  | some d =>
      have hrun := hr.dataOpen d hdata
      cases d with
      | push d =>
          refine ⟨.inr ⟨d, rfl, hrun⟩, ⟨fd, rfl, ?_⟩, rfl⟩
          show (if c.io.sock.closed then [] else [(⟨c.io.sock.mSocket, _, _⟩ : PollDesc)]) = _
          rw [hsocket, hfd]
          rfl
      | pull d =>
          refine ⟨⟨d, rfl, hrun⟩, ⟨fd, rfl, ?_⟩, rfl⟩
          show (if c.io.sock.closed then [] else [(⟨c.io.sock.mSocket, _, _⟩ : PollDesc)]) = _
          rw [hsocket, hfd]
          rfl
      | subprocess d => exact ⟨⟨d, rfl, hrun⟩, rfl, if_neg (Bool.eq_false_iff.mp hrun)⟩

/-- At the top of `run` all entries are in `mTimeouts`. -/
theorem pending_top (htop : r.phase = .top) (k : Nat) :
    r.pending k = r.mTimeouts.countP (·.evtHandler = k) := by
  unfold Reactor.pending
  rw [htop]
  show ((r.mTimeouts ++ []).map fun e : Entry => e.evtHandler).count k = _
  rw [List.append_nil, List.count_eq_countP, List.countP_map]
  exact List.countP_congr fun e _ => by simp

/-- **No handler is left without a way to wake up.** Whenever `run` has returned in a run
without `stop`, all connections and heartbeats that are registered are open, and each is
woken up in exactly one way: by its socket, or by one timer; a heartbeat by both. -/
theorem handlers_wake {P : Platform} {os : Os} {polls : List (List PollFlags)}
    {accepts : List Bool} {r : Reactor Agent}
    (h : Reached (api P) (Unstopped (api P)) (start os polls accepts) r) (htop : r.phase = .top) :
    ∀ k ∈ r.mEvtHandlers,
      (∀ c, r.world.handlers[k]? = some (.command c) →
        c.mClosed = false ∧ c.io.sock.mRecvClosed = false ∧
          (∀ d, c.mDataEventHandler = some d → d.closed = false) ∧
          ∃! u, WokenBy c (r.mTimeouts.countP (·.evtHandler = k)) u) ∧
      ∀ b, r.world.handlers[k]? = some (.heartbeat b) →
        b.mClosed = false ∧ PolledFor { read := true } b.io.sock.mSocket b.getPollDescs ∧
          r.mTimeouts.countP (·.evtHandler = k) = 1 := by
  have hr := reached_awake h
  have hswept := hr.swept
  rw [htop] at hswept
  intro k hk
  refine ⟨fun c hget => ?_, fun b hget => ?_⟩
  · have hopen : c.mClosed = false := hswept k hk _ hget
    obtain ⟨hrested, hconsistent⟩ := hr.calm k _ hget
    have hcredit : r.pending k = c.credit := hr.agrees k _ hget hopen
    have hwoken := wokenBy_credit hrested hconsistent hopen
    rw [← hcredit, pending_top htop] at hwoken
    refine ⟨hopen, hrested.recvOpen.resolve_left (Bool.eq_false_iff.mp hopen), hrested.dataOpen,
      _, hwoken, fun u hu => hu.eq⟩
  · have hopen : b.mClosed = false := hswept k hk _ hget
    obtain ⟨hrested, hconsistent⟩ := hr.calm k _ hget
    have hcredit : r.pending k = 1 := hr.agrees k _ hget hopen
    have hrecv : b.io.sock.mRecvClosed = false :=
      hrested.resolve_left (Bool.eq_false_iff.mp hopen)
    obtain ⟨fd, hfd⟩ := hconsistent.open (.inl hrecv)
    refine ⟨hopen, ⟨fd, hfd, ?_⟩, (pending_top htop k).symm.trans hcredit⟩
    unfold HeartbeatEventHandler.getPollDescs BufferedSocket.closed
    rw [hfd, hrecv]
    rfl

/-- A connection and a heartbeat, each after its first round. -/
theorem handlers_wake_both :
    let r := Reactor.steps (api .plain) 12 rebooting
    r.phase = .top ∧ r.mEvtHandlers = [0, 1, 2, 3] ∧
      (∃ c, r.world.handlers[2]? = some (.command c) ∧ c.mClosed = false ∧ WokenBy c 0 .read) ∧
      ∃ b, r.world.handlers[3]? = some (.heartbeat b) ∧ b.mClosed = false ∧
        r.mTimeouts.countP (·.evtHandler = 3) = 1 := by
  intro r
  have hsteps : Reached (api .plain) (fun _ => True) rebooting r :=
    Reached.start.steps fun _ _ => trivial
  have hreached : Reached (api .plain) (Unstopped (api .plain)) rebooting r :=
    reached_unstopped hsteps
  have htop : r.phase = .top := by decide +kernel
  have hregistered : r.mEvtHandlers = [0, 1, 2, 3] := by decide +kernel
  have hidle : r.mTimeouts.countP (·.evtHandler = 2) = 0 := by decide +kernel
  have hconnection : (r.world.handlers[2]?.bind EventHandler.connection?).any
      (·.mDataEventHandler.isNone) = true := by
    decide +kernel
  have hheartbeat : (r.world.handlers[3]?.bind EventHandler.heartbeat?).isSome = true := by
    decide +kernel
  obtain ⟨c, hc, hnone⟩ := (Option.any_eq_true _ _).mp hconnection
  obtain ⟨b, hb⟩ := Option.isSome_iff_exists.mp hheartbeat
  have hget := EventHandler.bind_connection hc
  have hget' := EventHandler.bind_heartbeat hb
  refine ⟨htop, hregistered, ⟨c, hget, ?_⟩, b, hget', ?_⟩
  · obtain ⟨hopen, -, -, u, hwoken, -⟩ :=
      (handlers_wake hreached htop 2 (by rw [hregistered]; decide)).1 c hget
    rw [hidle] at hwoken
    have hread : u = .read := by
      rw [hwoken.eq, Option.isNone_iff_eq_none.mp hnone]
      rfl
    exact ⟨hopen, hread ▸ hwoken⟩
  · obtain ⟨hopen, -, hone⟩ :=
      (handlers_wake hreached htop 3 (by rw [hregistered]; decide)).2 b hget'
    exact ⟨hopen, hone⟩

end Agent

end Negatus
