import Negatus.Agent.Clock
import Negatus.Agent.Wakeups

/-!
# The timers of the agent

A subprocess has a timer of its own period, and so has a heartbeat. A handler never has two
timers at once, and its next one is set when the last has been taken. So two calls of its
`handleTimeout` are more than a period apart, whatever the others do.
-/

namespace Negatus

open Foundations

/-- The interval of the timers that a handler sets. -/
def EventHandler.period (P : Platform) : EventHandler → Option UInt32
  | .acceptor _ => none
  | .command _ => some (P.millisecondsToInterval SubprocessEventHandler.pollPeriodMs)
  | .heartbeat _ => some (P.secondsToInterval HeartbeatEventHandler.timeout)

namespace Reactor

variable {σ : Type} {r r' : Reactor σ} {k : Nat}

/-- The entries that have not been dropped, those that have expired in front. -/
def timeline (r : Reactor σ) : List Entry := r.expiries.map Prod.fst ++ r.mTimeouts

/-- The entries of handler `k`. -/
def own (k : Nat) (es : List Entry) : List Entry := es.filter (·.evtHandler = k)

/-- The entries that are in `mTimeouts`, or that a scan has taken and `run` has still to call. -/
def waiting (r : Reactor σ) : List Entry := r.phase.due ++ r.mTimeouts

/-- All scans that have looked at `e` came before `e'` was set. -/
def Entry.Before (e e' : Entry) : Prop := ∀ now ∈ e.checks, now ≤ e'.setAt

@[simp] theorem own_nil : own k [] = [] := rfl

theorem own_append (es es' : List Entry) : own k (es ++ es') = own k es ++ own k es' :=
  List.filter_append es es'

theorem own_cons (e : Entry) (es : List Entry) :
    own k (e :: es) = (if e.evtHandler = k then [e] else []) ++ own k es := by
  unfold own
  rw [List.filter_cons]
  by_cases h : e.evtHandler = k <;> simp [h]

theorem map_expiries (r : Reactor σ) : r.expiries.map Prod.fst = r.fired.map Prod.fst ++ r.phase.due := by
  have hdue : r.taken.map Prod.fst = r.phase.due := by
    unfold taken Phase.due
    cases r.phase with
    | scan i es => exact (List.map_map ..).trans (List.map_id es)
    | timeouts es => exact (List.map_map ..).trans (List.map_id es)
    | _ => rfl
  unfold expiries
  rw [List.map_append, hdue]

theorem timeline_eq (r : Reactor σ) : r.timeline = r.fired.map Prod.fst ++ r.waiting := by
  unfold timeline waiting
  rw [map_expiries, List.append_assoc]

/-- A scan moves an entry from its place in `mTimeouts` to another. -/
theorem split_getElem {es : List Entry} {i : Nat} {e : Entry} (hget : es[i]? = some e) :
    ∃ before after, es = before ++ e :: after ∧ es.eraseIdx i = before ++ after ∧
      ∀ e', es.set i e' = before ++ e' :: after := by
  obtain ⟨hlt, rfl⟩ := List.getElem?_eq_some_iff.mp hget
  refine ⟨es.take i, es.drop (i + 1), ?_, List.eraseIdx_eq_take_drop_succ es i, fun e' => ?_⟩
  · rw [← List.drop_eq_getElem_cons hlt, List.take_append_drop]
  · exact List.set_eq_take_append_cons_drop ▸ if_pos hlt

theorem mem_own {e : Entry} {es : List Entry} : e ∈ own k es ↔ e ∈ es ∧ e.evtHandler = k := by
  unfold own
  rw [List.mem_filter, decide_eq_true_eq]

/-- The one entry of its handler, wherever it stands. -/
theorem own_lone {es before after : List Entry} (e e' : Entry)
    (howner : e'.evtHandler = e.evtHandler)
    (hlone : (own e.evtHandler (es ++ (before ++ e :: after))).length ≤ 1) (k : Nat) :
    own k ((es ++ [e']) ++ (before ++ after)) =
        (if k = e.evtHandler then [e'] else own k (es ++ (before ++ e :: after))) ∧
      own k (es ++ (before ++ e' :: after)) =
        (if k = e.evtHandler then [e'] else own k (es ++ (before ++ e :: after))) ∧
      own e.evtHandler (es ++ (before ++ e :: after)) = [e] := by
  simp only [own_append, own_cons, if_true, List.length_append, List.length_singleton] at hlone ⊢
  have hes := List.eq_nil_of_length_eq_zero (show (own e.evtHandler es).length = 0 by omega)
  have hbefore := List.eq_nil_of_length_eq_zero (show (own e.evtHandler before).length = 0 by omega)
  have hafter := List.eq_nil_of_length_eq_zero (show (own e.evtHandler after).length = 0 by omega)
  by_cases hk : k = e.evtHandler
  · subst hk
    simp [hes, hbefore, hafter, howner]
  · simp [hes, hbefore, hafter, howner, hk, Ne.symm hk]

/-! ## Scans -/

/-- No entry has been taken before it was due. -/
structure Unhurried (api : EventHandlers σ) (r : Reactor σ) : Prop where
  clock : ∀ e ∈ r.mTimeouts, e.Read ∧ e.setAt ≤ api.time r.world
  late : ∀ e ∈ r.expiries.map Prod.fst, ∃ now, e.checks.getLast? = some now ∧ e.Due now

/-- When the counter has wrapped, the test sees less time than has really passed. -/
theorem Entry.due_of_expired {e : Entry} {now : Nat} (hread : e.Read) (hset : e.setAt ≤ now)
    (hexpired : e.expired (UInt32.ofNat now) = true) : e.Due now := by
  have hdiff : (UInt32.ofNat now - e.epoch).toNat ≤ now - e.setAt := by
    rw [show e.epoch = UInt32.ofNat e.setAt from hread, UInt32.toNat_sub]
    simp only [UInt32.toNat_ofNat']
    omega
  unfold Entry.expired at hexpired
  have hlt := UInt32.lt_iff_toNat_lt.mp (of_decide_eq_true hexpired)
  exact Nat.lt_of_lt_of_le hlt hdiff

section

variable {api : EventHandlers σ} {fault : Option Fault}

theorem Unhurried.frame (h : Unhurried api r) (htime : api.time r.world ≤ api.time r'.world)
    (htimeouts : r'.mTimeouts ⊆ r.mTimeouts)
    (hexpiries : r'.expiries.map Prod.fst ⊆ r.expiries.map Prod.fst) : Unhurried api r' where
  clock e he := ⟨(h.clock e (htimeouts he)).1, (h.clock e (htimeouts he)).2.trans htime⟩
  late e he := h.late e (hexpiries he)

theorem Unhurried.obeyAll (h : Unhurried api r) {world : σ} {calls : List ReactorCall}
    (hends : api.time r.world ≤ api.time world ∧ Timely (api.time r.world) (api.time world) calls) :
    Unhurried api (r.obeyAll world calls) := by
  have hgo : ∀ (calls : List ReactorCall) (r₁ : Reactor σ), Unhurried api r₁ →
      Timely (api.time r.world) (api.time r₁.world) calls → Unhurried api (calls.foldl obey r₁) := by
    intro calls
    induction calls with
    | nil => exact fun _ h _ => h
    | cons c calls ih =>
        intro r₁ h₁ htimely
        have hrest : Timely (api.time r.world) (api.time r₁.world) calls :=
          fun s hs => htimely s (List.mem_cons_of_mem _ hs)
        cases c with
        | registerHandler evtHandler => exact ih (r₁.registerHandler evtHandler) ⟨h₁.clock, h₁.late⟩ hrest
        | setTimeout s =>
            obtain ⟨hread, -, hset⟩ := htimely s List.mem_cons_self
            refine ih (r₁.setTimeout s) ⟨fun e he => ?_, h₁.late⟩ hrest
            rcases List.mem_append.mp he with he | he
            · exact h₁.clock e he
            · rw [List.mem_singleton.mp he]
              exact ⟨hread, hset⟩
  exact hgo calls { r with world } (h.frame hends.1 (.refl _) (.refl _)) hends.2

/-- A step takes no entry before it is due, also when the counter wraps. -/
theorem Unhurried.turn (h : Unhurried api r) (hclock : Clocked api) (hturn : Turn api r fault r') :
    Unhurried api r' := by
  have hsame : ∀ {r' : Reactor σ}, api.time r.world ≤ api.time r'.world → r'.fired = r.fired →
      r'.mTimeouts ⊆ r.mTimeouts → r'.phase.due = r.phase.due → Unhurried api r' := by
    intro r' htime hfired htimeouts hdue
    refine h.frame htime htimeouts ?_
    rw [map_expiries, map_expiries, hfired, hdue]
    exact .refl _
  have hcalled : ∀ {e es}, r.phase = .timeouts (e :: es) →
      Unhurried api { r with phase := .timeouts es, fired := r.fired ++ [(e, r.scans)] } := by
    intro e es hphase
    refine h.frame le_rfl (.refl _) ?_
    rw [map_expiries, map_expiries, hphase, List.map_append, List.append_assoc]
    exact .refl _
  cases hturn with
  | pollFreed | deleteFreed => exact h
  | poll hphase => exact hsame (hclock.poll _ _) rfl (.refl _) (by rw [hphase]; rfl)
  | polled map hphase => exact hsame le_rfl rfl (.refl _) (by rw [hphase]; rfl)
  | idle map desc pds hphase => exact hsame le_rfl rfl (.refl _) (by rw [hphase]; rfl)
  | unmapped map desc pds hphase => exact hsame le_rfl rfl (.refl _) (by rw [hphase]; rfl)
  | eventFreed map desc pds j hphase => exact hsame le_rfl rfl (.refl _) (by rw [hphase]; rfl)
  | event map desc pds j hphase hflags hmap hlive fault world calls hends =>
      have hnext : Unhurried api { r with phase := .events map pds } :=
        hsame le_rfl rfl (.refl _) (by rw [hphase]; rfl)
      exact hnext.obeyAll (hclock.handleEvent _ _ _ _ _ _ hends)
  | scanned i es hphase => exact hsame le_rfl rfl (.refl _) (by rw [hphase]; rfl)
  | expire i es e hphase hget hexpired =>
      obtain ⟨htime, hnow⟩ := hclock.intervalNow r.world
      obtain ⟨hread, hset⟩ := h.clock e (List.mem_of_getElem? hget)
      rw [hnow] at hexpired
      have hdue := Entry.due_of_expired hread (hset.trans htime) hexpired
      refine ⟨fun e' he' => ?_, fun e' he' => ?_⟩
      · obtain ⟨hread', hset'⟩ := h.clock e' (List.mem_of_mem_eraseIdx he')
        exact ⟨hread', hset'.trans htime⟩
      · rw [map_expiries] at he'
        have hlate := h.late e'
        rw [map_expiries, hphase] at hlate
        rcases List.mem_append.mp he' with he' | he'
        · exact hlate (List.mem_append_left _ he')
        · rcases List.mem_append.mp he' with he' | he'
          · exact hlate (List.mem_append_right _ he')
          · rw [List.mem_singleton.mp he']
            exact ⟨_, List.getLast?_concat, hdue⟩
  | keep i es e hphase hget =>
      obtain ⟨htime, -⟩ := hclock.intervalNow r.world
      refine ⟨fun e' he' => ?_, fun e' he' => h.late e' ?_⟩
      · rcases List.mem_or_eq_of_mem_set he' with he' | rfl
        · exact ⟨(h.clock e' he').1, (h.clock e' he').2.trans htime⟩
        · obtain ⟨hread, hset⟩ := h.clock e (List.mem_of_getElem? hget)
          exact ⟨hread, hset.trans htime⟩
      · rw [map_expiries] at he' ⊢
        rw [hphase]
        exact he'
  | fired hphase => exact hsame le_rfl rfl (.refl _) (by rw [hphase]; rfl)
  | timeoutFreed e es hphase => exact hcalled hphase
  | timeout e es hphase hlive fault world calls hends =>
      exact (hcalled hphase).obeyAll (hclock.handleTimeout _ _ _ _ _ hends)
  | checked i hphase => exact hsame le_rfl rfl (.refl _) (by rw [hphase]; rfl)
  | spare i j hphase => exact hsame le_rfl rfl (.refl _) (by rw [hphase]; rfl)
  | delete i j hphase => exact hsame le_rfl rfl (List.filter_subset_self _) rfl

end

end Reactor

namespace Agent

open Reactor

variable {P : Platform} {k : Nat} {w w' : Agent} {fault : Option Fault} {calls : List ReactorCall}
  {r r' : Reactor Agent}

/-- A handler has at most one timer at a time, and they follow each other. -/
structure Spaced (P : Platform) (r : Reactor Agent) : Prop where
  owned : ∀ e ∈ r.timeline, ∃ h, r.world.handlers[e.evtHandler]? = some h ∧
    h.period P = some e.interval
  seen : ∀ e ∈ r.timeline, ∀ now ∈ e.checks, now ≤ r.world.os.now
  lone : ∀ k, (own k r.waiting).length ≤ 1
  inTurn : ∀ k, (own k r.timeline).Pairwise Entry.Before

theorem start_spaced (os : Os) (polls : List (List PollFlags)) (accepts : List Bool) :
    Spaced P (start os polls accepts) :=
  ⟨nofun, nofun, fun _ => Nat.zero_le 1, fun _ => .nil⟩

/-- What happens to the handlers in a step: they keep their kinds. -/
def Keeps (P : Platform) (w w' : Agent) : Prop :=
  ∀ (k : Nat) (h : EventHandler), w.handlers[k]? = some h →
    ∃ h', w'.handlers[k]? = some h' ∧ h'.period P = h.period P

theorem Keeps.of_eq (h : w'.handlers = w.handlers) : Keeps P w w' :=
  fun _ h' hget => ⟨h', h ▸ hget, rfl⟩

theorem keeps_update {h h' : EventHandler} (hget : w.handlers[k]? = some h)
    (hperiod : h'.period P = h.period P) (os : Os) : Keeps P w (w.update k h' os) := by
  intro j hj hgetj
  by_cases hjk : k = j
  · subst hjk
    obtain rfl := Option.some.inj (hget.symm.trans hgetj)
    obtain ⟨hlt, -⟩ := List.getElem?_eq_some_iff.mp hget
    exact ⟨h', List.getElem?_set_self hlt, hperiod⟩
  · exact ⟨hj, (List.getElem?_set_ne hjk).trans hgetj, rfl⟩

theorem keeps_created (h : EventHandler) (accepts : List Bool) (os : Os) :
    Keeps P w { w with accepts, handlers := w.handlers ++ [h], os } := by
  intro j hj hgetj
  obtain ⟨hlt, -⟩ := List.getElem?_eq_some_iff.mp hgetj
  exact ⟨hj, (List.getElem?_append_left hlt).trans hgetj, rfl⟩

/-- Nothing is done to the entries but that some are called or dropped. -/
theorem Spaced.frame (h : Spaced P r) (hkeeps : Keeps P r.world r'.world)
    (hnow : r.world.os.now ≤ r'.world.os.now) (htimeline : r'.timeline.Sublist r.timeline)
    (hwaiting : r'.waiting.Sublist r.waiting) : Spaced P r' where
  owned e he := by
    obtain ⟨hd, hget, hperiod⟩ := h.owned e (htimeline.subset he)
    obtain ⟨hd', hget', hsame⟩ := hkeeps _ hd hget
    exact ⟨hd', hget', hsame.trans hperiod⟩
  seen e he now hchecked := (h.seen e (htimeline.subset he) now hchecked).trans hnow
  lone k := (hwaiting.filter _).length_le.trans (h.lone k)
  inTurn k := (h.inTurn k).sublist (htimeline.filter _)

/-- A scan has looked at the one entry of a handler. -/
theorem Spaced.look (h : Spaced P r) {e : Entry} (hhandlers : r'.world.handlers = r.world.handlers)
    (hnow : r.world.os.now ≤ r'.world.os.now) (hfired : r'.fired = r.fired)
    (hone : own e.evtHandler r.waiting = [e])
    (hwaiting : ∀ k, own k r'.waiting =
      if k = e.evtHandler then [e.seen r'.world.os.now] else own k r.waiting) : Spaced P r' := by
  have hmem : e ∈ r.timeline := by
    rw [timeline_eq]
    exact List.mem_append_right _ (mem_own.mp (hone ▸ List.mem_singleton_self e)).1
  have hcases : ∀ x ∈ r'.timeline, x ∈ r.timeline ∨ x = e.seen r'.world.os.now := by
    intro x hx
    rw [timeline_eq, hfired, List.mem_append] at hx
    rw [timeline_eq, List.mem_append]
    rcases hx with hx | hx
    · exact .inl (.inl hx)
    · have hown := mem_own.mpr ⟨hx, rfl⟩
      rw [hwaiting] at hown
      split at hown
      · exact .inr (List.mem_singleton.mp hown)
      · exact .inl (.inr (mem_own.mp hown).1)
  refine ⟨fun x hx => ?_, fun x hx now hchecked => ?_, fun k => ?_, fun k => ?_⟩
  · rw [hhandlers]
    rcases hcases x hx with hx | rfl
    · exact h.owned x hx
    · exact h.owned e hmem
  · rcases hcases x hx with hx | rfl
    · exact (h.seen x hx now hchecked).trans hnow
    · rcases List.mem_append.mp hchecked with hchecked | hchecked
      · exact (h.seen e hmem now hchecked).trans hnow
      · exact (List.mem_singleton.mp hchecked).le
  · rw [hwaiting]
    split
    · exact le_rfl
    · exact h.lone k
  · have hturn := h.inTurn k
    rw [timeline_eq, own_append] at hturn ⊢
    rw [hwaiting, hfired]
    split
    · rename_i hk
      subst hk
      rw [hone] at hturn
      obtain ⟨hpast, -, hlast⟩ := List.pairwise_append.mp hturn
      refine List.pairwise_append.mpr ⟨hpast, List.pairwise_singleton _ _, fun x hx y hy => ?_⟩
      rw [List.mem_singleton.mp hy]
      exact hlast x hx e (List.mem_singleton_self e)
    · exact hturn

/-- A handler without a timer sets one. -/
theorem Spaced.setTimeout (h : Spaced P r) {hd : EventHandler} {t : Timeout}
    (hget : r.world.handlers[k]? = some hd) (hperiod : hd.period P = some t.interval)
    (hnone : own k r.waiting = []) : Spaced P (r.setTimeout ⟨t, k, r.world.os.now⟩) := by
  let e : Entry := ⟨⟨t, k, r.world.os.now⟩, r.settings.length, r.scans, []⟩
  have hwaiting : (r.setTimeout ⟨t, k, r.world.os.now⟩).waiting = r.waiting ++ [e] :=
    (List.append_assoc r.phase.due r.mTimeouts [e]).symm
  have htimeline : (r.setTimeout ⟨t, k, r.world.os.now⟩).timeline = r.timeline ++ [e] :=
    (List.append_assoc _ r.mTimeouts [e]).symm
  refine ⟨fun x hx => ?_, fun x hx => ?_, fun j => ?_, fun j => ?_⟩
  · rw [htimeline] at hx
    rcases List.mem_append.mp hx with hx | hx
    · exact h.owned x hx
    · rw [List.mem_singleton.mp hx]
      exact ⟨hd, hget, hperiod⟩
  · rw [htimeline] at hx
    rcases List.mem_append.mp hx with hx | hx
    · exact h.seen x hx
    · rw [List.mem_singleton.mp hx]
      nofun
  · rw [hwaiting, own_append, own_cons]
    by_cases hj : k = j
    · subst hj
      rw [hnone]
      exact le_of_eq (congrArg (List.length <| · ++ own k []) (if_pos (show e.evtHandler = k from rfl)))
    · rw [if_neg (show ¬ e.evtHandler = j from hj), own_nil, List.append_nil, List.append_nil]
      exact h.lone j
  · rw [htimeline, own_append]
    refine List.pairwise_append.mpr ⟨h.inTurn j, (List.pairwise_singleton _ e).filter _, ?_⟩
    intro x hx y hy
    rw [List.mem_singleton.mp (mem_own.mp hy).1]
    exact h.seen x (mem_own.mp hx).1

/-! ## Calls -/

/-- A member function that leaves the clock alone where it finds a timer of its handler, and
otherwise sets at most one. -/
structure Measured (P : Platform) (m : Call Unit)
    (mh : EStateM Fault HeartbeatEventHandler Unit) (k : Nat) (r : Reactor Agent) : Prop where
  command : ∀ c, r.world.handlers[k]? = some (.command c) →
    Within (Connection.Paced P) m (c.setIo (EventHandler.resume r.world.os c.io)) ∧
      (own k r.waiting ≠ [] → Within Connection.Still m (c.setIo (EventHandler.resume r.world.os c.io)))
  heartbeat : ∀ b, r.world.handlers[k]? = some (.heartbeat b) →
    Within (HeartbeatEventHandler.Paced P) mh { b with io := EventHandler.resume r.world.os b.io } ∧
      (own k r.waiting ≠ [] → Within HeartbeatEventHandler.Still mh
        { b with io := EventHandler.resume r.world.os b.io })

/-- The handler has done what a measured member function does with the clock. -/
theorem Spaced.settings (h : Spaced P r) {hd hd' : EventHandler} {io io' : Io} {interval : UInt32}
    (hget : r.world.handlers[k]? = some hd) (hsame : hd'.period P = hd.period P)
    (hperiod : hd.period P = some interval) (hresume : io.os.now = r.world.os.now)
    (hnone : io.timers = []) (hpaced : Still io io' ∨ Wound interval io io')
    (hbusy : own k r.waiting ≠ [] → Still io io') :
    Spaced P (r.obeyAll (r.world.update k hd' io'.os) (settings k io')) := by
  have hkeeps := keeps_update hget hsame io'.os
  have hstill : Still io io' →
      Spaced P (r.obeyAll (r.world.update k hd' io'.os) (Agent.settings k io')) := by
    intro hstill
    have hsettings : Agent.settings k io' = [] := by
      unfold Agent.settings
      rw [hstill.timers, hnone]
      rfl
    rw [hsettings]
    exact h.frame hkeeps (hstill.now.trans hresume).ge (.refl _) (.refl _)
  by_cases hwaiting : own k r.waiting = []
  · rcases hpaced with hquiet | hwound
    · exact hstill hquiet
    · have hsettings : Agent.settings k io' =
          [.setTimeout ⟨⟨UInt32.ofNat io'.os.now, interval⟩, k, io'.os.now⟩] := by
        unfold Agent.settings
        rw [hwound.timers, hnone]
        rfl
      rw [hsettings]
      have hframe : Spaced P { r with world := r.world.update k hd' io'.os } :=
        h.frame hkeeps (hresume ▸ hwound.now) (.refl _) (.refl _)
      obtain ⟨hlt, -⟩ := List.getElem?_eq_some_iff.mp hget
      exact hframe.setTimeout (List.getElem?_set_self hlt) (hsame.trans hperiod) hwaiting
  · exact hstill (hbusy hwaiting)

theorem Called.spaced {m : Call Unit} {mh : EStateM Fault HeartbeatEventHandler Unit}
    (hcalled : Called P m mh k r.world false fault w' calls) (h : Spaced P r)
    (hm : Measured P m mh k r) : Spaced P (r.obeyAll w' calls) := by
  cases hcalled with
  | nothing => exact h
  | refused => exact h.frame (.of_eq rfl) le_rfl (.refl _) (.refl _)
  | created a accepts hd io hget hborn =>
      let n := r.world.handlers.length
      let w₁ : Agent := { r.world with
        accepts, handlers := r.world.handlers ++ [hd], os := io.os }
      have hkeeps : Keeps P r.world w₁ := keeps_created hd accepts io.os
      have hlast : w₁.handlers[n]? = some hd := List.getElem?_concat_length
      -- no entry belongs to a handler that is still to be created
      have hnew : own n r.waiting = [] := by
        refine List.filter_eq_nil_iff.mpr fun e he => ?_
        have hmem : e ∈ r.timeline := by
          rw [timeline_eq]
          exact List.mem_append_right _ he
        obtain ⟨hd', hget', -⟩ := h.owned e hmem
        obtain ⟨hlt, -⟩ := List.getElem?_eq_some_iff.mp hget'
        exact fun heq => hlt.ne (of_decide_eq_true heq)
      obtain ⟨hlater, -⟩ := hborn.timely (k := n)
      have hframe : Spaced P (({ r with world := w₁ } : Reactor Agent).registerHandler n) :=
        h.frame hkeeps hlater (.refl _) (.refl _)
      have hidle : io.timers = [] →
          Spaced P (r.obeyAll w₁ (.registerHandler n :: settings n io)) := by
        intro hnone
        unfold settings
        rw [hnone]
        exact hframe
      have hset : ∀ interval (io₀ : Io), io₀.timers = [] → Wound interval io₀ io →
          hd.period P = some interval →
          Spaced P (r.obeyAll w₁ (.registerHandler n :: settings n io)) := by
        intro interval io₀ hnone hwound hperiod
        unfold settings
        rw [hwound.timers, hnone]
        exact hframe.setTimeout hlast hperiod hnew
      cases hborn with
      | command => exact hidle (CommandEventHandler.new_facts _ _).2.2
      | heartbeat => exact hset _ _ rfl (HeartbeatEventHandler.new_wound P n _) rfl
  | command c c' _ _ hget hrun =>
      obtain ⟨hpaced, hbusy⟩ := hm.command c hget
      exact h.settings hget rfl rfl rfl rfl (hpaced.of_yields hrun)
        fun hwaiting => (hbusy hwaiting).of_yields hrun
  | heartbeat b b' _ hget hrun =>
      obtain ⟨hpaced, hbusy⟩ := hm.heartbeat b hget
      exact h.settings hget rfl rfl rfl rfl (hpaced.of_yields hrun)
        fun hwaiting => (hbusy hwaiting).of_yields hrun

/-! ## Turns -/

theorem pending_eq (r : Reactor Agent) (k : Nat) : r.pending k = (own k r.waiting).length := by
  unfold Reactor.pending waiting own
  rw [List.count, List.countP_map, List.countP_append, List.filter_append, List.length_append,
    Nat.add_comm, List.countP_eq_length_filter, List.countP_eq_length_filter]
  rfl

/-- A connection with a timer is closed, or a subprocess runs. -/
theorem measured_event (hagrees : Agrees r) (desc : PollDesc) (k : Nat) :
    Measured P (CommandEventHandler.handleEvent P desc) (HeartbeatEventHandler.handleEvent desc) k
      r where
  command c hget := by
    refine ⟨CommandEventHandler.handleEvent_paced _ desc, fun hwaiting => ?_⟩
    refine CommandEventHandler.handleEvent_still desc ?_
    show c.mClosed = true ∨ ∃ d, c.mDataEventHandler = some (.subprocess d) ∧ d.mClosed = false
    cases hclosed : c.mClosed with
    | true => exact .inl rfl
    | false =>
        have hcredit : r.pending k = c.credit := hagrees k _ hget hclosed
        have hpos : 0 < c.credit := by
          rw [← hcredit, pending_eq]
          exact List.length_pos_of_ne_nil hwaiting
        unfold Connection.credit at hpos
        cases hdata : c.mDataEventHandler with
        | none =>
            rw [hdata] at hpos
            exact absurd hpos (lt_irrefl 0)
        | some d =>
            rw [hdata] at hpos
            cases d with
            | subprocess d =>
                refine .inr ⟨d, rfl, ?_⟩
                by_contra hshut
                exact absurd hpos (by simp [DataEventHandler.credit, hshut])
            | _ => exact absurd hpos (lt_irrefl 0)
  heartbeat b _ := by
    have hstill := HeartbeatEventHandler.handleEvent_still
      { b with io := EventHandler.resume r.world.os b.io } desc
    exact ⟨hstill.mono (fun _ _ => .inl) fun _ _ => .inl, fun _ => hstill⟩

theorem measured_timeout (hnone : own k r.waiting = []) :
    Measured P (CommandEventHandler.handleTimeout P) (HeartbeatEventHandler.handleTimeout P) k
      r where
  command _ _ :=
    ⟨CommandEventHandler.handleTimeout_paced _, fun hwaiting => absurd hnone hwaiting⟩
  heartbeat _ _ :=
    ⟨HeartbeatEventHandler.handleTimeout_paced P _, fun hwaiting => absurd hnone hwaiting⟩

/-- A step keeps the timers apart. -/
theorem Spaced.turn (h : Spaced P r) (hawake : Awake r) (hturn : Turn (api P) r fault r') :
    Spaced P r' := by
  have hsame : ∀ {r' : Reactor Agent}, r'.world = { r.world with polls := r'.world.polls } →
      r'.fired = r.fired → r'.mTimeouts = r.mTimeouts → r'.phase.due = r.phase.due →
      Spaced P r' := by
    intro r' hworld hfired htimeouts hdue
    have hwaiting : r'.waiting = r.waiting := by
      unfold waiting
      rw [hdue, htimeouts]
    have htimeline : r'.timeline = r.timeline := by
      rw [timeline_eq, timeline_eq, hwaiting, hfired]
    have hhandlers : r'.world.handlers = r.world.handlers := by
      rw [hworld]
    have hos : r'.world.os = r.world.os := by
      rw [hworld]
    exact h.frame (.of_eq hhandlers) (congrArg Os.now hos).ge (htimeline ▸ .refl _)
      (hwaiting ▸ .refl _)
  -- an entry that is due is called: it is no longer waiting
  have hcalled : ∀ {e es}, r.phase = .timeouts (e :: es) →
      Spaced P { r with phase := .timeouts es, fired := r.fired ++ [(e, r.scans)] } ∧
        own e.evtHandler (es ++ r.mTimeouts) = [] := by
    intro e es hphase
    let r₁ : Reactor Agent := { r with phase := .timeouts es, fired := r.fired ++ [(e, r.scans)] }
    have hwaiting : r.waiting = e :: r₁.waiting := by
      unfold waiting
      rw [hphase]
      rfl
    have htimeline : r₁.timeline = r.timeline := by
      rw [timeline_eq, timeline_eq, hwaiting]
      simp [r₁]
    refine ⟨h.frame (.of_eq rfl) le_rfl (htimeline ▸ .refl _) ?_, ?_⟩
    · rw [hwaiting]
      exact List.sublist_cons_self e _
    · have hlone := h.lone e.evtHandler
      rw [hwaiting, own_cons, if_pos rfl, List.length_append, List.length_singleton] at hlone
      exact List.eq_nil_of_length_eq_zero (show (own e.evtHandler r₁.waiting).length = 0 by omega)
  cases hturn with
  | pollFreed | deleteFreed => exact h
  | poll hphase => exact hsame rfl rfl rfl (by rw [hphase]; rfl)
  | polled map hphase => exact hsame rfl rfl rfl (by rw [hphase]; rfl)
  | idle map desc pds hphase => exact hsame rfl rfl rfl (by rw [hphase]; rfl)
  | unmapped map desc pds hphase => exact hsame rfl rfl rfl (by rw [hphase]; rfl)
  | eventFreed map desc pds j hphase => exact hsame rfl rfl rfl (by rw [hphase]; rfl)
  | event map desc pds j hphase hflags hmap hlive fault world calls hends =>
      have hnext : Spaced P { r with phase := .events map pds } :=
        hsame rfl rfl rfl (by rw [hphase]; rfl)
      have hagrees : Agrees { r with phase := .events map pds } :=
        hawake.agrees.phase rfl rfl (by rw [hphase]; rfl)
      exact (handleEvent_ends hends).spaced (r := { r with phase := .events map pds }) hnext
        (measured_event hagrees desc j)
  | scanned i es hphase => exact hsame rfl rfl rfl (by rw [hphase]; rfl)
  | expire i es e hphase hget =>
      obtain ⟨before, after, hsplit, herase, -⟩ := split_getElem hget
      have hwaiting : r.waiting = es ++ (before ++ e :: after) := by
        unfold waiting
        rw [hphase, hsplit]
        rfl
      have hlone := h.lone e.evtHandler
      rw [hwaiting] at hlone
      let seen := e.seen ((api P).time ((api P).intervalNow r.world).2)
      refine h.look (e := e) rfl (Nat.le_add_right _ _) rfl ?_ fun k => ?_
      · rw [hwaiting]
        exact (own_lone e seen rfl hlone e.evtHandler).2.2
      · rw [hwaiting]
        refine Eq.trans ?_ (own_lone e seen rfl hlone k).1
        unfold waiting
        rw [herase]
        rfl
  | keep i es e hphase hget =>
      obtain ⟨before, after, hsplit, -, hset⟩ := split_getElem hget
      have hwaiting : r.waiting = es ++ (before ++ e :: after) := by
        unfold waiting
        rw [hphase, hsplit]
        rfl
      have hlone := h.lone e.evtHandler
      rw [hwaiting] at hlone
      let seen := e.seen ((api P).time ((api P).intervalNow r.world).2)
      refine h.look (e := e) rfl (Nat.le_add_right _ _) rfl ?_ fun k => ?_
      · rw [hwaiting]
        exact (own_lone e seen rfl hlone e.evtHandler).2.2
      · rw [hwaiting]
        refine Eq.trans ?_ (own_lone e seen rfl hlone k).2.1
        unfold waiting
        rw [hset]
        rfl
  | fired hphase => exact hsame rfl rfl rfl (by rw [hphase]; rfl)
  | timeoutFreed e es hphase => exact (hcalled hphase).1
  | timeout e es hphase hlive fault world calls hends =>
      obtain ⟨hnext, hnone⟩ := hcalled hphase
      exact (handleTimeout_ends hends).spaced
        (r := { r with phase := .timeouts es, fired := r.fired ++ [(e, r.scans)] }) hnext
        (measured_timeout hnone)
  | checked i hphase => exact hsame rfl rfl rfl (by rw [hphase]; rfl)
  | spare i j hphase => exact hsame rfl rfl rfl (by rw [hphase]; rfl)
  | delete i j hphase =>
      have hwaiting : (r.deleteAt i j).waiting.Sublist r.waiting :=
        (List.Sublist.refl _).append List.filter_sublist
      refine h.frame (.of_eq rfl) le_rfl ?_ hwaiting
      rw [timeline_eq, timeline_eq]
      exact (List.Sublist.refl _).append hwaiting

theorem reached_spaced {os : Os} {polls : List (List PollFlags)} {accepts : List Bool}
    (h : Reached (api P) (Unstopped (api P)) (start os polls accepts) r) : Spaced P r := by
  induction h with
  | start => exact start_spaced os polls accepts
  | step h hstopless hstep ih =>
      have hyields : Yields (step (api P)) _ none _ := hstep
      exact ih.turn (reached_awake h) (turn_of_yields hyields hstopless)

theorem moment_spaced {os : Os} {polls : List (List PollFlags)} {accepts : List Bool}
    (h : Moment (api P) (Unstopped (api P)) (start os polls accepts) r) : Spaced P r := by
  rcases h with h | ⟨r₁, fault, h, hstopless, hfail⟩
  · exact reached_spaced h
  · have hyields : Yields (step (api P)) r₁ (some fault) r := hfail
    exact (reached_spaced h).turn (reached_awake h) (turn_of_yields hyields hstopless)

/-- `e` was found due more than its interval after it was set, and `e'` after that. -/
def FollowedBy (e e' : Entry) : Prop :=
  ∃ t t', e.checks.getLast? = some t ∧ e'.checks.getLast? = some t' ∧ t + e'.interval.toNat < t'

theorem Spaced.followed (h : Spaced P r) (hunhurried : Unhurried (api P) r) (k : Nat) :
    (own k (r.expiries.map Prod.fst)).Pairwise FollowedBy := by
  have hturn : (own k (r.expiries.map Prod.fst)).Pairwise Entry.Before :=
    (h.inTurn k).sublist ((List.sublist_append_left _ _).filter _)
  refine hturn.imp_of_mem fun {e e'} he he' hbefore => ?_
  obtain ⟨t, hlast, -⟩ := hunhurried.late e (mem_own.mp he).1
  obtain ⟨t', hlast', hdue⟩ := hunhurried.late e' (mem_own.mp he').1
  refine ⟨t, t', hlast, hlast', ?_⟩
  have hset : t ≤ e'.setAt := hbefore t (List.mem_of_getLast? hlast)
  exact Nat.lt_of_le_of_lt (Nat.add_le_add_right hset _) (Nat.add_lt_of_lt_sub' hdue)

/-- **The timers of a handler follow each other.** In every state of a run without `stop`, a
handler has at most one timer that `run` has not called yet. A timer is that of a subprocess or
of a heartbeat and has the period of its kind, and a scan takes it more than that period after
it has taken the one before. A wrap of the counter can only delay it. -/
theorem timers_apart (P : Platform) (os : Os) (polls : List (List PollFlags))
    (accepts : List Bool) (r : Reactor Agent)
    (h : Moment (api P) (Unstopped (api P)) (start os polls accepts) r) (k : Nat) :
    (own k r.waiting).length ≤ 1 ∧
      (∀ e ∈ own k r.timeline, ∃ hd, r.world.handlers[k]? = some hd ∧
        hd.period P = some e.interval) ∧
      (own k (r.expiries.map Prod.fst)).Pairwise FollowedBy := by
  have hunhurried : Unhurried (api P) r :=
    h.invariant ⟨nofun, nofun⟩ fun _ _ _ hstopless hr hyields =>
      hr.turn (api_clocked P) (turn_of_yields hyields hstopless)
  have hspaced : Spaced P r := moment_spaced h
  refine ⟨hspaced.lone k, fun e he => ?_, hspaced.followed hunhurried k⟩
  obtain ⟨hmem, rfl⟩ := mem_own.mp he
  exact hspaced.owned e hmem

/-- A heartbeat, and a clock by which more than a minute passes in each round. -/
def beating : Reactor Agent :=
  start { ticks := [0, 60001, 0, 60001] } [[{}, { read := true }]] []

theorem timers_apart_beating :
    let r := Reactor.steps (api .plain) 21 beating
    (own 2 (r.expiries.map Prod.fst)).map (·.checks) = [[60001], [120002]] ∧
      (own 2 (r.expiries.map Prod.fst)).Pairwise FollowedBy := by
  intro r
  have hsteps : Reached (api .plain) (fun _ => True) beating r :=
    Reached.start.steps fun _ _ => trivial
  obtain ⟨-, -, hfollowed⟩ := timers_apart .plain _ _ _ r (.inl (reached_unstopped hsteps)) 2
  exact ⟨by decide +kernel, hfollowed⟩

end Agent

end Negatus
