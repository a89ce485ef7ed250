import Negatus.Agent.Spacing
import Negatus.HeartbeatEventHandler.Messages

/-!
# The heartbeats of the agent

What a monitor reads from a heartbeat is one line of trace output and then one line for each
timer of the heartbeat that `run` has called. Nothing else that happens in the agent adds a
line, and nothing takes one away.
-/

namespace Negatus

open Foundations

namespace HeartbeatEventHandler

open BufferedSocket

/-- The first line and what `n` timers have sent. Once the send side has been closed, a timer
sends nothing. -/
inductive Told (P : Platform) (n : Nat) (b : HeartbeatEventHandler) : Prop
  | mk (first : Bytes) (thumps : List Bytes) (hfirst : TraceOutput P first)
      (hthumps : ∀ line ∈ thumps, Thump P line)
      (hsent : sent b.io.trace = (first :: thumps).map message) (hle : thumps.length ≤ n)
      (hall : b.io.sock.mSendClosed = false → thumps.length = n)

variable {P : Platform} {n : Nat} {b b' : HeartbeatEventHandler}

theorem Told.mute (h : Told P n b) (hmute : Mute b.io b'.io) : Told P n b' := by
  obtain ⟨first, thumps, hfirst, hthumps, hsent, hle, hall⟩ := h
  refine ⟨first, thumps, hfirst, hthumps, hmute.sent.trans hsent, hle, fun hopen => hall ?_⟩
  refine Bool.eq_false_iff.mpr fun hclosed => ?_
  exact Bool.false_ne_true (hopen.symm.trans (hmute.closed hclosed))

theorem Told.sends (h : Told P n b) (hsends : Sends (Thump P) b.io b'.io) : Told P (n + 1) b' := by
  obtain ⟨first, thumps, hfirst, hthumps, hsent, hle, hall⟩ := h
  cases hsends with
  | silent hclosed hclosed' hsame =>
      refine ⟨first, thumps, hfirst, hthumps, hsame.trans hsent, hle.trans n.le_succ, fun hopen => ?_⟩
      exact absurd (hopen.symm.trans hclosed') Bool.false_ne_true
  | line line hok hopen hadded =>
      have hlength : (thumps ++ [line]).length = thumps.length + 1 := List.length_append
      refine ⟨first, thumps ++ [line], hfirst, fun thump hthump => ?_, ?_, ?_, fun _ => ?_⟩
      · rcases List.mem_append.mp hthump with hthump | hthump
        · exact hthumps thump hthump
        · exact List.mem_singleton.mp hthump ▸ hok
      · rw [hadded, hsent, ← List.cons_append, List.map_append]
        rfl
      · exact hlength ▸ Nat.succ_le_succ hle
      · exact hlength.trans (congrArg (· + 1) (hall hopen))

/-- Once the send side has been closed nothing is sent, and it stays closed. -/
def Hushed (io io' : Io) : Prop :=
  io.sock.mSendClosed = true → io'.sock.mSendClosed = true ∧ sent io'.trace = sent io.trace

instance : IsPreorder Io Hushed where
  refl _ hclosed := ⟨hclosed, rfl⟩
  trans _ _ _ h h' hclosed := by
    obtain ⟨hmid, hsame⟩ := h hclosed
    obtain ⟨hend, hsame'⟩ := h' hmid
    exact ⟨hend, hsame'.trans hsame⟩

theorem handleEvent_hushed (b : HeartbeatEventHandler) (desc : PollDesc) :
    Ensures (handleEvent desc) b (fun _ b' => Hushed b.io b'.io) (fun _ _ => True) :=
  (handleEvent_mute b desc).mono (fun _ _ hmute hclosed => ⟨hmute.closed hclosed, hmute.sent⟩)
    fun _ _ _ => trivial

theorem handleTimeout_hushed (hdated : P.Dated) (b : HeartbeatEventHandler) :
    Ensures (handleTimeout P) b (fun _ b' => Hushed b.io b'.io) (fun _ _ => True) := by
  refine (handleTimeout_sends hdated b).mono (fun _ b' hsends hclosed => ?_) fun _ _ _ => trivial
  cases hsends with
  | silent _ hclosed' hsame => exact ⟨hclosed', hsame⟩
  | line line hok hopen => exact absurd (hopen.symm.trans hclosed) Bool.false_ne_true

theorem new_told (hdated : P.Dated) (socket : Nat) (os : Os) : Told P 0 (new P socket os) := by
  obtain ⟨line, hfirst, hsent⟩ := new_sends hdated socket os
  exact ⟨line, [], hfirst, nofun, hsent, le_rfl, fun _ => rfl⟩

end HeartbeatEventHandler

namespace Agent

open Reactor HeartbeatEventHandler

variable {P : Platform} {k : Nat} {w w' : Agent} {fault : Option Fault} {calls : List ReactorCall}
  {r r' : Reactor Agent}

/-- The timers of handler `k` that `run` has called. -/
def timesFired (k : Nat) (r : Reactor Agent) : Nat := (own k (r.fired.map Prod.fst)).length

/-- Each heartbeat has sent what its timers have asked for. -/
def Telling (P : Platform) (r : Reactor Agent) : Prop :=
  ∀ (k : Nat) (b : HeartbeatEventHandler), r.world.handlers[k]? = some (.heartbeat b) →
    Told P (timesFired k r) b

theorem start_telling (os : Os) (polls : List (List PollFlags)) (accepts : List Bool) :
    Telling P (start os polls accepts) := by
  intro k b hget
  rcases List.mem_pair.mp (List.mem_of_getElem? hget) with hb | hb <;> cases hb

theorem Telling.frame (h : Telling P r) (hhandlers : r'.world.handlers = r.world.handlers)
    (hfired : r'.fired = r.fired) : Telling P r' := by
  intro k b hget
  unfold timesFired
  rw [hfired]
  exact h k b (hhandlers ▸ hget)

/-- No timer has been called of a handler that is still to be created. -/
theorem Spaced.timesFired_new (h : Spaced P r) : timesFired r.world.handlers.length r = 0 := by
  refine List.length_eq_zero_iff.mpr (List.filter_eq_nil_iff.mpr fun e he => ?_)
  have hmem : e ∈ r.timeline := by
    rw [timeline_eq]
    exact List.mem_append_left _ he
  obtain ⟨hd, hget, -⟩ := h.owned e hmem
  obtain ⟨hlt, -⟩ := List.getElem?_eq_some_iff.mp hget
  exact fun heq => hlt.ne (of_decide_eq_true heq)

theorem Born.told (hdated : P.Dated) {socket : Nat} {os : Os} {h : EventHandler} {io : Io}
    (hborn : Born P socket os h io) (b : HeartbeatEventHandler) (hb : h = .heartbeat b) :
    Told P 0 b := by
  cases hborn with
  | command => cases hb
  | heartbeat => exact EventHandler.heartbeat.inj hb ▸ new_told hdated socket os

/-- A call that `due` timers of its handler account for. -/
theorem Called.told {m : Call Unit} {mh : EStateM Fault HeartbeatEventHandler Unit} (due : Nat)
    (hcalled : Called P m mh k w false none w' calls) (hdated : P.Dated) {fires : Nat → Nat}
    (htold : ∀ j b, w.handlers[j]? = some (.heartbeat b) → Told P (fires j) b)
    (hnew : fires w.handlers.length = 0)
    (hm : ∀ n b, Told P n b → Ensures mh b (fun _ b' => Told P (n + due) b') (fun _ _ => True))
    (j : Nat) (b : HeartbeatEventHandler) (hget : w'.handlers[j]? = some (.heartbeat b)) :
    Told P (fires j + if j = k then due else 0) b := by
  have hother : ∀ {j b}, j ≠ k → w.handlers[j]? = some (.heartbeat b) →
      Told P (fires j + if j = k then due else 0) b := by
    intro j b hj hget
    rw [if_neg hj]
    exact htold j b hget
  cases hcalled with
  | nothing hcommand hheartbeat => exact hother (fun hj => hheartbeat b (hj ▸ hget)) hget
  | created a accepts h io ha hborn =>
      obtain ⟨hlt, -⟩ := List.getElem?_eq_some_iff.mp ha
      rcases getElem?_created hget with ⟨rfl, hb⟩ | ⟨hj, hget⟩
      · rw [if_neg hlt.ne', hnew]
        exact hborn.told hdated b hb.symm
      · refine hother (fun hjk => ?_) hget
        cases (hjk ▸ ha).symm.trans hget
  | command c c' _ _ hget' hrun =>
      rcases getElem?_update hget with ⟨-, heq⟩ | ⟨hj, hget⟩
      · cases heq
      · exact hother hj hget
  | heartbeat b₀ b' _ hget' hrun =>
      rcases getElem?_update hget with ⟨rfl, heq⟩ | ⟨hj, hget⟩
      · obtain rfl := EventHandler.heartbeat.inj heq
        rw [if_pos rfl]
        have hresumed : Told P (fires j) { b₀ with io := EventHandler.resume w.os b₀.io } :=
          (htold j b₀ hget').mute ⟨rfl, id⟩
        exact (hm _ _ hresumed).of_yields hrun
      · exact hother hj hget

theorem Telling.turn (h : Telling P r) (hdated : P.Dated) (hspaced : Spaced P r)
    (hturn : Turn (api P) r none r') : Telling P r' := by
  cases hturn with
  | event map desc pds j hphase hflags hmap hlive _ world calls hends =>
      intro k b hget
      rw [obeyAll_world] at hget
      have htold := (handleEvent_ends hends).told 0 hdated h hspaced.timesFired_new
        (fun n b hb => (handleEvent_mute b desc).mono (fun _ _ hmute => hb.mute hmute)
          fun _ _ _ => trivial) k b hget
      unfold timesFired
      rw [obeyAll_fired]
      rwa [ite_self] at htold
  | timeout e es hphase hlive _ world calls hends =>
      intro k b hget
      rw [obeyAll_world] at hget
      have htold := (handleTimeout_ends hends).told 1 hdated h hspaced.timesFired_new
        (fun n b hb => (handleTimeout_sends hdated b).mono (fun _ _ hsends => hb.sends hsends)
          fun _ _ _ => trivial) k b hget
      have hcount : own k ((r.fired ++ [(e, r.scans)]).map Prod.fst) =
          own k (r.fired.map Prod.fst) ++ if e.evtHandler = k then [e] else [] := by
        rw [List.map_append, own_append]
        exact congrArg (own k (r.fired.map Prod.fst) ++ ·)
          ((own_cons e []).trans (List.append_nil _))
      unfold timesFired at htold ⊢
      rw [obeyAll_fired]
      show Told P (own k ((r.fired ++ [(e, r.scans)]).map Prod.fst)).length b
      rw [hcount, List.length_append]
      by_cases hk : k = e.evtHandler
      · rw [if_pos hk] at htold
        rwa [if_pos hk.symm]
      · rw [if_neg hk] at htold
        rwa [if_neg (Ne.symm hk)]
  | _ => exact h.frame rfl rfl

theorem reached_telling {os : Os} {polls : List (List PollFlags)} {accepts : List Bool}
    (hdated : P.Dated) (h : Reached (api P) (Unstopped (api P)) (start os polls accepts) r) :
    Telling P r := by
  induction h with
  | start => exact start_telling os polls accepts
  | step h hstopless hstep ih =>
      have hyields : Yields (step (api P)) _ none _ := hstep
      exact ih.turn hdated (reached_spaced h) (turn_of_yields hyields hstopless)

/-! ## Send sides that have been closed -/

/-- What is said of the heartbeats of a world, one by one, and of what they have become. -/
def AllHushed (w w' : Agent) : Prop :=
  ∀ (k : Nat) (b : HeartbeatEventHandler), w.handlers[k]? = some (.heartbeat b) →
    ∃ b', w'.handlers[k]? = some (.heartbeat b') ∧ Hushed b.io b'.io

theorem AllHushed.of_same (h : w'.handlers = w.handlers) : AllHushed w w' :=
  fun _ b hget => ⟨b, h ▸ hget, Std.Refl.refl b.io⟩

theorem AllHushed.trans {w'' : Agent} (h : AllHushed w w') (h' : AllHushed w' w'') :
    AllHushed w w'' := by
  intro k b hget
  obtain ⟨b', hget', hhushed⟩ := h k b hget
  obtain ⟨b'', hget'', hhushed'⟩ := h' k b' hget'
  exact ⟨b'', hget'', IsTrans.trans _ _ _ hhushed hhushed'⟩

theorem Called.hushed {m : Call Unit} {mh : EStateM Fault HeartbeatEventHandler Unit}
    (hcalled : Called P m mh k w false none w' calls)
    (hm : ∀ b, Ensures mh b (fun _ b' => Hushed b.io b'.io) (fun _ _ => True)) :
    AllHushed w w' := by
  intro j b hget
  obtain ⟨hlt, -⟩ := List.getElem?_eq_some_iff.mp hget
  have hkept : ∀ h os, j ≠ k → (w.update k h os).handlers[j]? = some (.heartbeat b) := by
    intro h os hj
    rw [Agent.update, List.getElem?_set_ne (Ne.symm hj)]
    exact hget
  cases hcalled with
  | nothing => exact ⟨b, hget, Std.Refl.refl b.io⟩
  | created a accepts h io ha hborn =>
      exact ⟨b, (List.getElem?_append_left hlt).trans hget, Std.Refl.refl b.io⟩
  | command c c' _ _ hget' hrun =>
      by_cases hj : j = k
      · cases (hj ▸ hget).symm.trans hget'
      · exact ⟨b, hkept _ _ hj, Std.Refl.refl b.io⟩
  | heartbeat b₀ b' _ hget' hrun =>
      by_cases hj : j = k
      · obtain rfl := hj
        cases hget.symm.trans hget'
        refine ⟨b', List.getElem?_set_self hlt, ?_⟩
        have hhushed : Hushed (EventHandler.resume w.os b.io) b'.io := (hm _).of_yields hrun
        exact fun hclosed => hhushed hclosed
      · exact ⟨b, hkept _ _ hj, Std.Refl.refl b.io⟩

theorem turn_hushed (hdated : P.Dated) (hturn : Turn (api P) r none r') :
    AllHushed r.world r'.world := by
  cases hturn with
  | event map desc pds j hphase hflags hmap hlive _ world calls hends =>
      rw [obeyAll_world]
      exact (handleEvent_ends hends).hushed fun b => handleEvent_hushed b desc
  | timeout e es hphase hlive _ world calls hends =>
      rw [obeyAll_world]
      exact (handleTimeout_ends hends).hushed fun b => handleTimeout_hushed hdated b
  | _ => exact .of_same rfl

theorem reached_hushed (hdated : P.Dated) (h : Reached (api P) (Unstopped (api P)) r r') :
    AllHushed r.world r'.world := by
  induction h with
  | start => exact .of_same rfl
  | step h hstopless hstep ih =>
      have hyields : Yields (step (api P)) _ none _ := hstep
      exact ih.trans (turn_hushed hdated (turn_of_yields hyields hstopless))

/-- **A heartbeat thumps once for each of its timers.** In every state that a run without
`stop` comes to, what a heartbeat has sent is a line of trace output and then lines that say
when and where, one for each of its timers that `run` has called, as long as its send side is
open. Once it has been closed nothing more is sent, however the run goes on. No line has a
newline or a NUL, and the NUL behind each tells where it ends. While the heartbeat is open it
has one timer more, which has still to be called. -/
theorem heartbeats_thump (P : Platform) (hdated : P.Dated) (os : Os)
    (polls : List (List PollFlags)) (accepts : List Bool) (r : Reactor Agent)
    (h : Reached (api P) (Unstopped (api P)) (start os polls accepts) r) (k : Nat)
    (b : HeartbeatEventHandler) (hget : r.world.handlers[k]? = some (.heartbeat b)) :
    (∃ first thumps, TraceOutput P first ∧ (∀ line ∈ thumps, Thump P line) ∧
      (∀ line ∈ first :: thumps, IsLine line) ∧
      (sent b.io.trace).flatten.splitOn 0 = (first :: thumps).map (· ++ endl) ++ [[]] ∧
      (sent b.io.trace).length = thumps.length + 1 ∧ thumps.length ≤ timesFired k r ∧
      (b.io.sock.mSendClosed = false → thumps.length = timesFired k r)) ∧
    (b.io.sock.mSendClosed = true → ∀ r', Reached (api P) (Unstopped (api P)) r r' →
      ∃ b', r'.world.handlers[k]? = some (.heartbeat b') ∧ sent b'.io.trace = sent b.io.trace) ∧
    (b.mClosed = false → (own k r.waiting).length = 1) := by
  refine ⟨?_, fun hclosed r' hlater => ?_, fun hopen => ?_⟩
  · obtain ⟨first, thumps, hfirst, hthumps, hsent, hle, hall⟩ := reached_telling hdated h k b hget
    have hlines : ∀ line ∈ first :: thumps, IsLine line := by
      intro line hline
      rcases List.mem_cons.mp hline with rfl | hline
      · exact hfirst.isLine
      · exact (hthumps line hline).isLine
    refine ⟨first, thumps, hfirst, hthumps, hlines, ?_, ?_, hle, hall⟩
    · rw [hsent]
      exact messages_split hlines
    · rw [hsent, List.length_map]
      rfl
  · obtain ⟨b', hget', hhushed⟩ := reached_hushed hdated hlater k b hget
    exact ⟨b', hget', (hhushed hclosed).2⟩
  · rw [← pending_eq]
    exact (reached_awake h).agrees k _ hget hopen

/-- Two minutes of a heartbeat: three lines have been sent, and a timer is left. -/
theorem heartbeats_thump_beating :
    let r := Reactor.steps (api .plain) 21 beating
    ∃ b first thumps, r.world.handlers[2]? = some (.heartbeat b) ∧ TraceOutput .plain first ∧
      (∀ line ∈ thumps, Thump .plain line) ∧ thumps.length = 2 ∧
      (sent b.io.trace).flatten.splitOn 0 = (first :: thumps).map (· ++ endl) ++ [[]] ∧
      (own 2 r.waiting).length = 1 := by
  intro r
  have hbeats : (r.world.handlers[2]?.bind EventHandler.heartbeat?).any
      (fun b => !b.io.sock.mSendClosed && !b.mClosed) = true := by
    decide +kernel
  have hdated : Platform.plain.Dated := by
    intro t
    show 1970 < 2 ^ 15 ∧ 0 < 12 ∧ 1 < 32 ∧ 0 < 24 ∧ 0 < 60 ∧ 0 < 62
    decide
  have hsteps : Reached (api .plain) (fun _ => True) beating r :=
    Reached.start.steps fun _ _ => trivial
  obtain ⟨b, hb, hopen⟩ := (Option.any_eq_true _ _).mp hbeats
  obtain ⟨hsend, hopen⟩ := Bool.and_eq_true_iff.mp hopen
  have hget := EventHandler.bind_heartbeat hb
  obtain ⟨⟨first, thumps, hfirst, hthumps, -, hsplit, -, -, hall⟩, -, hwaiting⟩ :=
    heartbeats_thump .plain hdated _ _ _ r (reached_unstopped hsteps) 2 b hget
  have hfires : timesFired 2 r = 2 := by
    decide +kernel
  exact ⟨b, first, thumps, hget, hfirst, hthumps, (hall (by simpa using hsend)).trans hfires, hsplit,
    hwaiting (by simpa using hopen)⟩

end Agent

end Negatus
