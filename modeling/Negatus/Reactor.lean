import Mathlib.Data.List.Basic
import Negatus.Foundations.Program
import Negatus.Os

/-!
# `Reactor.cpp`

The reactor calls the member functions of event handlers, and these call it back:
they register handlers, set timeouts and may stop it. Handlers are known by
numbers here, and what they are is left open: `EventHandlers` says what their
member functions do to a world that holds all of them.

`step` is one round of a loop of `Reactor::run`. The phase says which loop it is
and holds its local variables, so the states between any two calls of handlers are
states of the model.

Some fields are ghosts, which the code does not have. `deleted` are the handlers
that have been deleted, and no member function of theirs may be called. An entry
of `mTimeouts` knows when it was set and when it was looked at. The calls of
`setTimeout` are kept in `settings`, and the entries that are in `mTimeouts` no more
in `fired` and `dropped`.
-/

namespace Negatus

open Foundations

/-- A call of `setTimeout`, with the reading of the clock that it is based on. The ticks
that had really passed by then are a ghost. -/
structure Setting extends Timeout where
  evtHandler : Nat
  setAt : Nat
deriving DecidableEq, Repr

inductive ReactorCall where
  | registerHandler (evtHandler : Nat)
  | setTimeout (setting : Setting)
deriving DecidableEq, Repr

/-- How a member function ends, with the calls that it has made to the reactor. After
`Reactor::stop` it goes on. -/
inductive Outcome (σ : Type) where
  | returns (world : σ) (calls : List ReactorCall)
  | fails (fault : Fault) (world : σ) (calls : List ReactorCall)
  | stops (world : σ) (calls : List ReactorCall) (resume : σ → Outcome σ)

/-- The handlers of a world, and what the reactor asks of NSPR. -/
structure EventHandlers (σ : Type) where
  getPollDescs : Nat → σ → List PollDesc
  closed : Nat → σ → Bool
  close : Nat → σ → σ
  handleEvent : Nat → PollDesc → σ → Outcome σ
  handleTimeout : Nat → σ → Outcome σ
  /-- `PR_Poll`: the descriptors with their `out_flags` -/
  poll : List PollDesc → σ → List PollDesc × σ
  intervalNow : σ → UInt32 × σ
  /-- ghost: the ticks that have really passed -/
  time : σ → Nat

namespace Reactor

structure Entry extends Setting where
  /-- ghost: the number of entries set before -/
  id : Nat
  /-- ghost: the number of scans that had come to their end before -/
  setIn : Nat
  /-- ghost: the ticks that had passed each time that a scan looked at it -/
  checks : List Nat
deriving DecidableEq, Repr

/-- The loops of `run`, with its local variables. -/
inductive Phase where
  | top
  | events (handleMap : List (Option Nat × Nat)) (pds : List PollDesc)
  | scan (i : Nat) (expiredHandlers : List Entry)
  | timeouts (expiredHandlers : List Entry)
  | deleteClosed (i : Nat)
deriving DecidableEq, Repr

end Reactor

structure Reactor (σ : Type) where
  world : σ
  mEvtHandlers : List Nat := []
  mTimeouts : List Reactor.Entry := []
  phase : Reactor.Phase := .top
  deleted : List Nat := []
  /-- the scans that have come to their end -/
  scans : Nat := 0
  /-- with the number of scans before -/
  settings : List (Setting × Nat) := []
  /-- with the number of scans, the one that has taken the entry included -/
  fired : List (Reactor.Entry × Nat) := []
  dropped : List Reactor.Entry := []

namespace Reactor

variable {σ : Type}

def registerHandler (evtHandler : Nat) (r : Reactor σ) : Reactor σ :=
  { r with mEvtHandlers := r.mEvtHandlers ++ [evtHandler] }

def setTimeout (s : Setting) (r : Reactor σ) : Reactor σ :=
  { r with
    mTimeouts := r.mTimeouts ++ [⟨s, r.settings.length, r.scans, []⟩]
    settings := r.settings ++ [(s, r.scans)] }

def obey (r : Reactor σ) : ReactorCall → Reactor σ
  | .registerHandler evtHandler => r.registerHandler evtHandler
  | .setTimeout s => r.setTimeout s

/-- The state that a member function leaves, with the calls that it has made. -/
def obeyAll (world : σ) (calls : List ReactorCall) (r : Reactor σ) : Reactor σ :=
  calls.foldl obey { r with world }

def Entry.expired (now : UInt32) (e : Entry) : Bool := now - e.epoch > e.interval

/-- A scan has looked at an entry. -/
def Entry.seen (now : Nat) (e : Entry) : Entry := { e with checks := e.checks ++ [now] }

/-- `handleMap[fd]` is what was last written there. -/
def handleMap (descs : List (PollDesc × Nat)) : List (Option Nat × Nat) :=
  (descs.map fun d => (d.1.fd, d.2)).reverse

variable (api : EventHandlers σ)

/-- `delete`, the entries of a deleted handler included. -/
def deleteAt (i evtHandler : Nat) (r : Reactor σ) : Reactor σ :=
  { r with
    mEvtHandlers := r.mEvtHandlers.eraseIdx i
    mTimeouts := r.mTimeouts.filter (·.evtHandler ≠ evtHandler)
    deleted := evtHandler :: r.deleted
    dropped := r.dropped ++ r.mTimeouts.filter (·.evtHandler = evtHandler) }

/-- The loop of `stop`. -/
def stopLoop : List Nat → EStateM Fault (Reactor σ) Unit
  | [] => pure ()
  | evtHandler :: evtHandlers => fun r =>
      if evtHandler ∈ r.deleted then .error .useAfterFree r
      else stopLoop evtHandlers
        { r with
          world := api.close evtHandler r.world
          mEvtHandlers := evtHandlers
          deleted := evtHandler :: r.deleted }

def stop : EStateM Fault (Reactor σ) Unit := fun r => stopLoop api r.mEvtHandlers r

def perform : Outcome σ → EStateM Fault (Reactor σ) Unit
  | .returns world calls => fun r => .ok () (r.obeyAll world calls)
  | .fails fault world calls => fun r => .error fault (r.obeyAll world calls)
  | .stops world calls resume => fun r =>
      match stop api (r.obeyAll world calls) with
      | .ok _ r' => perform (resume r'.world) r'
      | .error fault r' => .error fault r'

/-- A member function of a handler is called. -/
def invoke (evtHandler : Nat) (member : σ → Outcome σ) : EStateM Fault (Reactor σ) Unit := fun r =>
  if evtHandler ∈ r.deleted then .error .useAfterFree r else perform api (member r.world) r

/-- One round of a loop of `run`. -/
def step : EStateM Fault (Reactor σ) Unit := fun r =>
  match r.phase with
  | .top =>
      if r.mEvtHandlers.any (· ∈ r.deleted) then .error .useAfterFree r
      else
        let descs := r.mEvtHandlers.flatMap fun h =>
          (api.getPollDescs h r.world).map fun desc => (desc, h)
        let (pds, world) := api.poll (descs.map Prod.fst) r.world
        .ok () { r with world, phase := .events (handleMap descs) pds }
  | .events _ [] => .ok () { r with phase := .scan 0 [] }
  | .events map (desc :: pds) =>
      let r := { r with phase := .events map pds }
      if desc.out_flags = {} then .ok () r
      else
        match map.lookup desc.fd with
        | none => .error (.crash .nullDeref) r
        | some h => invoke api h (api.handleEvent h desc) r
  | .scan i expiredHandlers =>
      match r.mTimeouts[i]? with
      | none => .ok () { r with phase := .timeouts expiredHandlers, scans := r.scans + 1 }
      | some e =>
          let (now, world) := api.intervalNow r.world
          let seen := e.seen (api.time world)
          if e.expired now then
            .ok () { r with
              world
              mTimeouts := r.mTimeouts.eraseIdx i
              phase := .scan i (expiredHandlers ++ [seen]) }
          else
            .ok () { r with
              world
              mTimeouts := r.mTimeouts.set i seen
              phase := .scan (i + 1) expiredHandlers }
  | .timeouts [] => .ok () { r with phase := .deleteClosed 0 }
  | .timeouts (e :: expiredHandlers) =>
      invoke api e.evtHandler (api.handleTimeout e.evtHandler)
        { r with phase := .timeouts expiredHandlers, fired := r.fired ++ [(e, r.scans)] }
  | .deleteClosed i =>
      match r.mEvtHandlers[i]? with
      | none => .ok () { r with phase := .top }
      | some h =>
          if h ∈ r.deleted then .error .useAfterFree r
          else if api.closed h r.world then .ok () (r.deleteAt i h)
          else .ok () { r with phase := .deleteClosed (i + 1) }

/-- `n` steps, or as many as go well. -/
def steps : Nat → Reactor σ → Reactor σ
  | 0, r => r
  | n + 1, r =>
      match step api r with
      | .ok _ r' => steps n r'
      | .error _ _ => r

/-! ## What the calls of a member function leave alone -/

section

variable {r : Reactor σ} {world : σ} {calls : List ReactorCall}

/-- What no call of `registerHandler` and `setTimeout` changes is as before. -/
theorem obeyAll_keeps {β : Type*} (f : Reactor σ → β) (hobey : ∀ r c, f (obey r c) = f r) :
    f (r.obeyAll world calls) = f { r with world } := by
  unfold obeyAll
  generalize { r with world } = r
  induction calls generalizing r with
  | nil => rfl
  | cons c calls ih => exact (ih (r.obey c)).trans (hobey r c)

@[simp] theorem obeyAll_world : (r.obeyAll world calls).world = world :=
  obeyAll_keeps Reactor.world fun _ c => by cases c <;> rfl

@[simp] theorem obeyAll_phase : (r.obeyAll world calls).phase = r.phase :=
  obeyAll_keeps Reactor.phase fun _ c => by cases c <;> rfl

@[simp] theorem obeyAll_deleted : (r.obeyAll world calls).deleted = r.deleted :=
  obeyAll_keeps Reactor.deleted fun _ c => by cases c <;> rfl

@[simp] theorem obeyAll_fired : (r.obeyAll world calls).fired = r.fired :=
  obeyAll_keeps Reactor.fired fun _ c => by cases c <;> rfl

@[simp] theorem obeyAll_dropped : (r.obeyAll world calls).dropped = r.dropped :=
  obeyAll_keeps Reactor.dropped fun _ c => by cases c <;> rfl

end

/-! ## What a step does -/

/-- A member function ends without stopping the reactor. -/
inductive Ends : Outcome σ → Option Fault → σ → List ReactorCall → Prop
  | returns (world : σ) (calls : List ReactorCall) : Ends (.returns world calls) none world calls
  | fails (fault : Fault) (world : σ) (calls : List ReactorCall) :
      Ends (.fails fault world calls) (some fault) world calls

/-- What a step does, and how it fails, when no member function stops the reactor. -/
inductive Turn (r : Reactor σ) : Option Fault → Reactor σ → Prop
  | pollFreed (h : Nat) (hphase : r.phase = .top) (hmem : h ∈ r.mEvtHandlers)
      (hdead : h ∈ r.deleted) : Turn r (some .useAfterFree) r
  | poll (hphase : r.phase = .top) (hlive : ∀ h ∈ r.mEvtHandlers, h ∉ r.deleted)
      (descs : List (PollDesc × Nat))
      (hdescs : descs = r.mEvtHandlers.flatMap fun h =>
        (api.getPollDescs h r.world).map fun desc => (desc, h)) :
      Turn r none { r with
        world := (api.poll (descs.map Prod.fst) r.world).2
        phase := .events (handleMap descs) (api.poll (descs.map Prod.fst) r.world).1 }
  | polled (map : List (Option Nat × Nat)) (hphase : r.phase = .events map []) :
      Turn r none { r with phase := .scan 0 [] }
  | idle (map : List (Option Nat × Nat)) (desc : PollDesc) (pds : List PollDesc)
      (hphase : r.phase = .events map (desc :: pds)) (hflags : desc.out_flags = {}) :
      Turn r none { r with phase := .events map pds }
  | unmapped (map : List (Option Nat × Nat)) (desc : PollDesc) (pds : List PollDesc)
      (hphase : r.phase = .events map (desc :: pds)) (hmap : map.lookup desc.fd = none) :
      Turn r (some (.crash .nullDeref)) { r with phase := .events map pds }
  | eventFreed (map : List (Option Nat × Nat)) (desc : PollDesc) (pds : List PollDesc) (h : Nat)
      (hphase : r.phase = .events map (desc :: pds)) (hmap : map.lookup desc.fd = some h)
      (hdead : h ∈ r.deleted) : Turn r (some .useAfterFree) { r with phase := .events map pds }
  | event (map : List (Option Nat × Nat)) (desc : PollDesc) (pds : List PollDesc) (h : Nat)
      (hphase : r.phase = .events map (desc :: pds)) (hflags : desc.out_flags ≠ {})
      (hmap : map.lookup desc.fd = some h) (hlive : h ∉ r.deleted)
      (fault : Option Fault) (world : σ) (calls : List ReactorCall)
      (hends : Ends (api.handleEvent h desc r.world) fault world calls) :
      Turn r fault ({ r with phase := .events map pds }.obeyAll world calls)
  | scanned (i : Nat) (expiredHandlers : List Entry) (hphase : r.phase = .scan i expiredHandlers)
      (hend : r.mTimeouts[i]? = none) :
      Turn r none { r with phase := .timeouts expiredHandlers, scans := r.scans + 1 }
  | expire (i : Nat) (expiredHandlers : List Entry) (e : Entry)
      (hphase : r.phase = .scan i expiredHandlers) (hget : r.mTimeouts[i]? = some e)
      (hexpired : e.expired (api.intervalNow r.world).1) :
      Turn r none { r with
        world := (api.intervalNow r.world).2
        mTimeouts := r.mTimeouts.eraseIdx i
        phase := .scan i (expiredHandlers ++ [e.seen (api.time (api.intervalNow r.world).2)]) }
  | keep (i : Nat) (expiredHandlers : List Entry) (e : Entry)
      (hphase : r.phase = .scan i expiredHandlers) (hget : r.mTimeouts[i]? = some e)
      (hexpired : e.expired (api.intervalNow r.world).1 = false) :
      Turn r none { r with
        world := (api.intervalNow r.world).2
        mTimeouts := r.mTimeouts.set i (e.seen (api.time (api.intervalNow r.world).2))
        phase := .scan (i + 1) expiredHandlers }
  | fired (hphase : r.phase = .timeouts []) : Turn r none { r with phase := .deleteClosed 0 }
  | timeoutFreed (e : Entry) (expiredHandlers : List Entry)
      (hphase : r.phase = .timeouts (e :: expiredHandlers)) (hdead : e.evtHandler ∈ r.deleted) :
      Turn r (some .useAfterFree)
        { r with phase := .timeouts expiredHandlers, fired := r.fired ++ [(e, r.scans)] }
  | timeout (e : Entry) (expiredHandlers : List Entry)
      (hphase : r.phase = .timeouts (e :: expiredHandlers)) (hlive : e.evtHandler ∉ r.deleted)
      (fault : Option Fault) (world : σ) (calls : List ReactorCall)
      (hends : Ends (api.handleTimeout e.evtHandler r.world) fault world calls) :
      Turn r fault ({ r with
        phase := .timeouts expiredHandlers, fired := r.fired ++ [(e, r.scans)] }.obeyAll world calls)
  | checked (i : Nat) (hphase : r.phase = .deleteClosed i) (hend : r.mEvtHandlers[i]? = none) :
      Turn r none { r with phase := .top }
  | deleteFreed (i h : Nat) (hphase : r.phase = .deleteClosed i)
      (hget : r.mEvtHandlers[i]? = some h) (hdead : h ∈ r.deleted) :
      Turn r (some .useAfterFree) r
  | delete (i h : Nat) (hphase : r.phase = .deleteClosed i) (hget : r.mEvtHandlers[i]? = some h)
      (hlive : h ∉ r.deleted) (hclosed : api.closed h r.world) : Turn r none (r.deleteAt i h)
  | spare (i h : Nat) (hphase : r.phase = .deleteClosed i) (hget : r.mEvtHandlers[i]? = some h)
      (hlive : h ∉ r.deleted) (hopen : api.closed h r.world = false) :
      Turn r none { r with phase := .deleteClosed (i + 1) }

/-- The member function that the next step calls does not stop the reactor. -/
structure Unstopped (r : Reactor σ) : Prop where
  event : ∀ map desc pds h, r.phase = .events map (desc :: pds) → desc.out_flags ≠ {} →
    map.lookup desc.fd = some h →
      ∃ fault world calls, Ends (api.handleEvent h desc r.world) fault world calls
  timeout : ∀ e expiredHandlers, r.phase = .timeouts (e :: expiredHandlers) →
    ∃ fault world calls, Ends (api.handleTimeout e.evtHandler r.world) fault world calls

section

variable {api} {r r' : Reactor σ}

theorem perform_ends {o : Outcome σ} {fault : Option Fault} {world : σ} {calls : List ReactorCall}
    (hends : Ends o fault world calls) :
    perform api o r = match fault with
      | none => .ok () (r.obeyAll world calls)
      | some fault => .error fault (r.obeyAll world calls) := by
  cases hends <;> rfl

/-- What a call of a member function comes to, for one kind of state `Q` behind it. -/
theorem invoke_cases {h : Nat} {member : σ → Outcome σ} {Q : Option Fault → Reactor σ → Prop}
    (hstopless : ∃ fault world calls, Ends (member r.world) fault world calls)
    (hfreed : h ∈ r.deleted → Q (some .useAfterFree) r)
    (hcalled : h ∉ r.deleted → ∀ fault world calls, Ends (member r.world) fault world calls →
      Q fault (r.obeyAll world calls)) :
    match invoke api h member r with
    | .ok _ r' => Q none r'
    | .error fault r' => Q (some fault) r' := by
  unfold invoke
  by_cases hdead : h ∈ r.deleted
  · rw [if_pos hdead]
    exact hfreed hdead
  · rw [if_neg hdead]
    obtain ⟨fault, world, calls, hends⟩ := hstopless
    rw [perform_ends hends]
    have := hcalled hdead fault world calls hends
    cases fault <;> exact this

theorem step_cases (hstopless : Unstopped api r) :
    match step api r with
    | .ok _ r' => Turn api r none r'
    | .error fault r' => Turn api r (some fault) r' := by
  unfold step
  cases hphase : r.phase with
  | top =>
      simp only
      -- `getPollDescs` is called on every handler
      by_cases hdead : r.mEvtHandlers.any (· ∈ r.deleted) = true
      · rw [if_pos hdead]
        obtain ⟨h, hmem, hdel⟩ := List.any_eq_true.mp hdead
        exact .pollFreed h hphase hmem (of_decide_eq_true hdel)
      · rw [if_neg hdead]
        refine .poll hphase (fun h hmem hdel => hdead ?_) _ rfl
        exact List.any_eq_true.mpr ⟨h, hmem, decide_eq_true hdel⟩
  | events map pds =>
      cases pds with
      | nil => exact .polled map hphase
      | cons desc pds =>
          simp only
          -- a descriptor without an event is passed over, and so is one that the map does not know
          by_cases hflags : desc.out_flags = {}
          · rw [if_pos hflags]
            exact .idle map desc pds hphase hflags
          · rw [if_neg hflags]
            cases hmap : map.lookup desc.fd with
            | none => exact .unmapped map desc pds hphase hmap
            | some h =>
                exact invoke_cases (hstopless.event map desc pds h hphase hflags hmap)
                  (fun hdead => .eventFreed map desc pds h hphase hmap hdead)
                  fun hlive => .event map desc pds h hphase hflags hmap hlive
  | scan i expiredHandlers =>
      simp only
      cases hget : r.mTimeouts[i]? with
      | none => exact .scanned i expiredHandlers hphase hget
      | some e =>
          simp only
          by_cases hexpired : e.expired (api.intervalNow r.world).1 = true
          · rw [if_pos hexpired]
            exact .expire i expiredHandlers e hphase hget hexpired
          · rw [if_neg hexpired]
            exact .keep i expiredHandlers e hphase hget (Bool.not_eq_true _ ▸ hexpired)
  | timeouts expiredHandlers =>
      cases expiredHandlers with
      | nil => exact .fired hphase
      | cons e expiredHandlers =>
          exact invoke_cases (hstopless.timeout e expiredHandlers hphase)
            (fun hdead => .timeoutFreed e expiredHandlers hphase hdead)
            fun hlive => .timeout e expiredHandlers hphase hlive
  | deleteClosed i =>
      simp only
      cases hget : r.mEvtHandlers[i]? with
      | none => exact .checked i hphase hget
      | some h =>
          simp only
          by_cases hdead : h ∈ r.deleted
          · rw [if_pos hdead]
            exact .deleteFreed i h hphase hget hdead
          · rw [if_neg hdead]
            cases hclosed : api.closed h r.world with
            | true => exact .delete i h hphase hget hdead hclosed
            | false => exact .spare i h hphase hget hdead hclosed

theorem turn_of_yields {fault : Option Fault} (h : Yields (step api) r fault r')
    (hstopless : Unstopped api r) : Turn api r fault r' := by
  have hcases := step_cases hstopless
  cases fault with
  | none =>
      rw [show step api r = .ok () r' from h] at hcases
      exact hcases
  | some fault =>
      rw [show step api r = .error fault r' from h] at hcases
      exact hcases

end

/-! ## Stopping -/

/-- What `stop` leaves: all handlers are closed and deleted, in their order. -/
def halted (r : Reactor σ) : Reactor σ :=
  { r with
    world := r.mEvtHandlers.foldl (fun world h => api.close h world) r.world
    mEvtHandlers := []
    deleted := r.mEvtHandlers.reverse ++ r.deleted }

section

variable {api} {r : Reactor σ}

theorem stopLoop_ok {evtHandlers : List Nat} (hlist : r.mEvtHandlers = evtHandlers)
    (honce : evtHandlers.Nodup) (hlive : ∀ h ∈ evtHandlers, h ∉ r.deleted) :
    stopLoop api evtHandlers r = .ok () (r.halted api) := by
  induction evtHandlers generalizing r with
  | nil =>
      obtain ⟨world, evtHandlers, timeouts, phase, deleted, scans, settings, fired, dropped⟩ := r
      obtain rfl : evtHandlers = [] := hlist
      rfl
  | cons h evtHandlers ih =>
      obtain ⟨hfresh, honce⟩ := List.nodup_cons.mp honce
      have hrest : ∀ h' ∈ evtHandlers, h' ∉ h :: r.deleted := by
        intro h' hmem hdead
        rcases List.mem_cons.mp hdead with rfl | hdead
        · exact hfresh hmem
        · exact hlive h' (List.mem_cons_of_mem h hmem) hdead
      have hrun : stopLoop api (h :: evtHandlers) r = stopLoop api evtHandlers { r with
          world := api.close h r.world
          mEvtHandlers := evtHandlers
          deleted := h :: r.deleted } := if_neg (hlive h List.mem_cons_self)
      rw [hrun, ih rfl honce hrest]
      simp [halted, hlist]

/-- `stop` deletes each handler once, if none has been deleted before. -/
theorem stop_ok (honce : r.mEvtHandlers.Nodup) (hlive : ∀ h ∈ r.mEvtHandlers, h ∉ r.deleted) :
    stop api r = .ok () (r.halted api) :=
  stopLoop_ok rfl honce hlive

theorem step_event {map : List (Option Nat × Nat)} {desc : PollDesc} {pds : List PollDesc} {h : Nat}
    (hphase : r.phase = .events map (desc :: pds)) (hflags : desc.out_flags ≠ {})
    (hmap : map.lookup desc.fd = some h) :
    step api r = invoke api h (api.handleEvent h desc) { r with phase := .events map pds } := by
  unfold step
  rw [hphase]
  simp only [if_neg hflags, hmap]

theorem step_timeout {e : Entry} {expiredHandlers : List Entry}
    (hphase : r.phase = .timeouts (e :: expiredHandlers)) :
    step api r = invoke api e.evtHandler (api.handleTimeout e.evtHandler)
      { r with phase := .timeouts expiredHandlers, fired := r.fired ++ [(e, r.scans)] } := by
  unfold step
  rw [hphase]

end

/-! ## Runs -/

/-- How the next step fails, if it does. -/
def failure (r : Reactor σ) : Option Fault :=
  match step api r with
  | .ok _ _ => none
  | .error fault _ => some fault

theorem failure_eq_some {r : Reactor σ} {fault : Fault} (h : failure api r = some fault) :
    ∃ r', step api r = .error fault r' := by
  unfold failure at h
  split at h
  · cases h
  · rename_i fault' r' hrun
    exact ⟨r', Option.some.inj h ▸ hrun⟩

/-- The states of a run in which every step has been taken from a state with `ok`. -/
inductive Reached (ok : Reactor σ → Prop) (r₀ : Reactor σ) : Reactor σ → Prop
  | start : Reached ok r₀ r₀
  | step {r r' : Reactor σ} (h : Reached ok r₀ r) (hok : ok r) (hstep : step api r = .ok () r') :
      Reached ok r₀ r'

/-- The states in which a run can be seen, that of a failing call included. -/
def Moment (ok : Reactor σ → Prop) (r₀ r : Reactor σ) : Prop :=
  Reached api ok r₀ r ∨
    ∃ r₁ fault, Reached api ok r₀ r₁ ∧ ok r₁ ∧ step api r₁ = .error fault r

section

variable {api} {ok I : Reactor σ → Prop} {r₀ r : Reactor σ}

/-- **What holds at the start and is kept by every step holds throughout.** -/
theorem Reached.invariant (h : Reached api ok r₀ r) (hstart : I r₀)
    (hstep : ∀ r r', ok r → I r → Reactor.step api r = .ok () r' → I r') : I r := by
  induction h with
  | start => exact hstart
  | step _ hok hnext ih => exact hstep _ _ hok ih hnext

theorem Reached.steps (h : Reached api ok r₀ r) {n : Nat}
    (hok : ∀ k < n, ok (Reactor.steps api k r)) : Reached api ok r₀ (Reactor.steps api n r) := by
  induction n generalizing r with
  | zero => exact h
  | succ n ih =>
      unfold Reactor.steps
      cases hnext : Reactor.step api r with
      | error fault r' => exact h
      | ok _ r' =>
          refine ih (.step h (hok 0 n.succ_pos) hnext) fun k hk => ?_
          have := hok (k + 1) (Nat.succ_lt_succ hk)
          unfold Reactor.steps at this
          rwa [hnext] at this

theorem Moment.invariant (h : Moment api ok r₀ r) (hstart : I r₀)
    (hstep : ∀ r fault r', ok r → I r → Yields (Reactor.step api) r fault r' → I r') : I r := by
  have hinside : ∀ {r}, Reached api ok r₀ r → I r := fun h =>
    h.invariant hstart fun r r' hok hI hnext => hstep r none r' hok hI hnext
  rcases h with h | ⟨r₁, fault, h, hok, hfail⟩
  · exact hinside h
  · exact hstep r₁ (some fault) r hok (hinside h) hfail

end

end Reactor

end Negatus
