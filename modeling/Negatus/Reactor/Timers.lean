import Mathlib.Data.List.Perm.Basic
import Negatus.Reactor.Rounds

/-!
# Timers

Every call of `setTimeout` makes one entry. The entry is looked at by every scan
that comes to its end later, until one of them takes it, and the `checks` of an entry
are the times at which that happened. So `Waiting` and `Taken` say what the clock had
shown to an entry by then, and `Accounted` says that nothing gets lost on the way.

The reactor knows times by a counter of 32 bits. `Clocked` is what it relies on: time
does not go back, and `PR_IntervalNow` returns the ticks that have passed, up to a
multiple of `2 ^ 32`.
-/

namespace Negatus

open Foundations

/-- The epoch is what the counter showed when the timeout was set. -/
def Setting.Read (s : Setting) : Prop := s.epoch = UInt32.ofNat s.setAt

namespace Reactor

variable {σ : Type} {api : EventHandlers σ}

/-! ## What is said of an entry -/

/-- Strictly more ticks than its interval have passed since the entry was set. -/
def Entry.Due (now : Nat) (e : Entry) : Prop := e.interval.toNat < now - e.setAt

/-- Each of the scans since it was set has found it not due; the last of them was
number `scans`. -/
structure Entry.Waiting (scans : Nat) (e : Entry) : Prop where
  seen : e.setIn + e.checks.length = scans
  early : ∀ now ∈ e.checks, ¬ e.Due now

/-- Of the scans since it was set, number `scans` was the first that has found it due. -/
structure Entry.Taken (scans : Nat) (e : Entry) : Prop where
  seen : e.setIn + e.checks.length = scans
  due : ∃ before now, e.checks = before ++ [now] ∧ e.Due now ∧ ∀ past ∈ before, ¬ e.Due past

/-- An entry is not taken by a scan that had come to its end when it was set. -/
theorem Entry.Taken.later {e : Entry} {scans : Nat} (h : e.Taken scans) : e.setIn < scans := by
  obtain ⟨before, now, hchecks, -⟩ := h.due
  have hseen := h.seen
  simp only [hchecks, List.length_append, List.length_singleton] at hseen
  omega

/-- The call of `setTimeout` that has made the entry, as `settings` knows it. -/
def Entry.call (e : Entry) : (Setting × Nat) × Nat := ((e.toSetting, e.setIn), e.id)

theorem Entry.Waiting.seen_early {e : Entry} {scans now : Nat} (h : e.Waiting scans)
    (hearly : ¬ e.Due now) : (e.seen now).Waiting (scans + 1) := by
  refine ⟨?_, ?_⟩
  · show e.setIn + (e.checks ++ [now]).length = scans + 1
    rw [List.length_append, ← Nat.add_assoc, h.seen]
    rfl
  · intro past hpast
    rcases List.mem_append.mp hpast with hpast | hpast
    · exact h.early past hpast
    · rw [List.mem_singleton.mp hpast]
      exact hearly

theorem Entry.Waiting.seen_due {e : Entry} {scans now : Nat} (h : e.Waiting scans)
    (hdue : e.Due now) : (e.seen now).Taken (scans + 1) := by
  refine ⟨?_, e.checks, now, rfl, hdue, h.early⟩
  show e.setIn + (e.checks ++ [now]).length = scans + 1
  rw [List.length_append, ← Nat.add_assoc, h.seen]
  rfl

/-- **The test is right across a wrap of the counter**, as long as less than one round of
it has really passed. -/
theorem Entry.expired_iff {e : Entry} {now : Nat} (hread : e.Read) (hset : e.setAt ≤ now)
    (hshort : now - e.setAt < 2 ^ 32) : e.expired (UInt32.ofNat now) = true ↔ e.Due now := by
  have hdiff : (UInt32.ofNat now - e.epoch).toNat = now - e.setAt := by
    rw [show e.epoch = UInt32.ofNat e.setAt from hread, UInt32.toNat_sub]
    simp only [UInt32.toNat_ofNat']
    omega
  unfold Entry.expired Entry.Due
  rw [decide_eq_true_iff, gt_iff_lt, UInt32.lt_iff_toNat_lt, hdiff]

/-! ## What is said of a state -/

/-- What a scan has taken and not called yet, with the number of the scan. -/
def taken (r : Reactor σ) : List (Entry × Nat) :=
  match r.phase with
  | .scan _ expiredHandlers => expiredHandlers.map (·, r.scans + 1)
  | .timeouts expiredHandlers => expiredHandlers.map (·, r.scans)
  | _ => []

def expiries (r : Reactor σ) : List (Entry × Nat) := r.fired ++ r.taken

def entries (r : Reactor σ) : List Entry := r.mTimeouts ++ r.expiries.map Prod.fst ++ r.dropped

/-- What the scan that goes on has looked at and left in `mTimeouts`. -/
def looked (r : Reactor σ) : List Entry :=
  match r.phase with
  | .scan i _ => r.mTimeouts.take i
  | _ => []

/-- What no scan has looked at since the last one came to its end. -/
def unlooked (r : Reactor σ) : List Entry :=
  match r.phase with
  | .scan i _ => r.mTimeouts.drop i
  | _ => r.mTimeouts

/-- **What has become of the entries.** There is one for each call of `setTimeout`, in
`mTimeouts`, among the `expiries` or among the dropped. -/
structure Accounted (r : Reactor σ) : Prop where
  once : (r.entries.map Entry.call).Perm r.settings.zipIdx
  pending : (∀ e ∈ r.looked, e.Waiting (r.scans + 1)) ∧ ∀ e ∈ r.unlooked, e.Waiting r.scans
  expired : ∀ f ∈ r.expiries, f.1.Taken f.2
  inOrder : r.expiries.Pairwise fun f f' => f.2 < f'.2 ∨ f.2 = f'.2 ∧ f.1.id < f'.1.id
  closed : ∀ e ∈ r.dropped, e.evtHandler ∈ r.deleted ∧ ∃ scans ≤ r.scans, e.Waiting scans

/-- What is kept from step to step. -/
structure Ticking (api : EventHandlers σ) (r : Reactor σ) : Prop extends Accounted r where
  clock : ∀ e ∈ r.mTimeouts, e.Read ∧ e.setAt ≤ api.time r.world
  sorted : r.mTimeouts.Pairwise fun e e' => e.id < e'.id
  ahead : ∀ i expiredHandlers, r.phase = .scan i expiredHandlers →
    ∀ e ∈ expiredHandlers, ∀ e' ∈ r.unlooked, e.id < e'.id
  past : ∀ f ∈ r.fired, f.2 ≤ r.scans

/-! ## Changes that touch no entry -/

variable {r r' : Reactor σ}

theorem Ticking.frame (h : Ticking api r) (htime : api.time r.world ≤ api.time r'.world)
    (htimeouts : r'.mTimeouts = r.mTimeouts) (hsettings : r'.settings = r.settings)
    (hexpiries : r'.expiries = r.expiries) (hdropped : r'.dropped = r.dropped)
    (hdeleted : r'.deleted = r.deleted) (hscans : r.scans ≤ r'.scans)
    (hpending : (∀ e ∈ r'.looked, e.Waiting (r'.scans + 1)) ∧ ∀ e ∈ r'.unlooked, e.Waiting r'.scans)
    (hahead : ∀ i expiredHandlers, r'.phase = .scan i expiredHandlers →
      ∀ e ∈ expiredHandlers, ∀ e' ∈ r'.unlooked, e.id < e'.id)
    (hpast : ∀ f ∈ r'.fired, f.2 ≤ r'.scans) : Ticking api r' where
  once := by
    unfold entries
    rw [htimeouts, hexpiries, hdropped, hsettings]
    exact h.once
  pending := hpending
  expired := by
    rw [hexpiries]
    exact h.expired
  inOrder := by
    rw [hexpiries]
    exact h.inOrder
  closed e he := by
    rw [hdropped] at he
    obtain ⟨hdead, scans, hle, hwaiting⟩ := h.closed e he
    exact ⟨hdeleted ▸ hdead, scans, hle.trans hscans, hwaiting⟩
  clock e he := by
    rw [htimeouts] at he
    exact ⟨(h.clock e he).1, (h.clock e he).2.trans htime⟩
  sorted := htimeouts ▸ h.sorted
  ahead := hahead
  past := hpast

/-- Every id is the number of a call. -/
theorem Ticking.id_lt (h : Ticking api r) {e : Entry} (he : e ∈ r.entries) :
    e.id < r.settings.length := by
  have hmem : e.call ∈ r.settings.zipIdx := h.once.subset (List.mem_map_of_mem he)
  exact (List.mem_zipIdx' hmem).1

/-! ## What the handlers do -/

/-- No scan is going on. -/
def Calm (r : Reactor σ) : Prop := ∀ i expiredHandlers, r.phase ≠ .scan i expiredHandlers

theorem Calm.unlooked (h : Calm r) : r.looked = [] ∧ r.unlooked = r.mTimeouts := by
  unfold looked Reactor.unlooked
  cases hphase : r.phase with
  | scan i expiredHandlers => exact absurd hphase (h i expiredHandlers)
  | _ => exact ⟨rfl, rfl⟩

theorem Ticking.setTimeout (h : Ticking api r) (hcalm : Calm r) {s : Setting} (hread : s.Read)
    (hset : s.setAt ≤ api.time r.world) : Ticking api (r.setTimeout s) where
  once := by
    have hentries : (r.setTimeout s).entries.map Entry.call =
        r.mTimeouts.map Entry.call ++ [((s, r.scans), r.settings.length)] ++
          (r.expiries.map Prod.fst).map Entry.call ++ r.dropped.map Entry.call := by
      show ((r.mTimeouts ++ [_]) ++ r.expiries.map Prod.fst ++ r.dropped).map Entry.call = _
      simp only [List.map_append]
      rfl
    have hsettings : (r.setTimeout s).settings.zipIdx =
        r.settings.zipIdx ++ [((s, r.scans), r.settings.length)] := by
      show (r.settings ++ [_]).zipIdx = _
      rw [List.zipIdx_append, Nat.zero_add]
      rfl
    rw [hentries, hsettings]
    apply List.perm_iff_count.mpr
    intro c
    have honce := h.once.count_eq c
    simp only [entries, List.map_append, List.count_append] at honce ⊢
    omega
  pending := by
    have hafter : Calm (r.setTimeout s) := hcalm
    rw [hafter.unlooked.1, hafter.unlooked.2]
    refine ⟨fun _ he => absurd he List.not_mem_nil, fun e he => ?_⟩
    rcases List.mem_append.mp he with he | he
    · exact h.pending.2 e (hcalm.unlooked.2 ▸ he)
    · rw [List.mem_singleton.mp he]
      exact ⟨rfl, fun _ hnow => absurd hnow List.not_mem_nil⟩
  expired := h.expired
  inOrder := h.inOrder
  closed := h.closed
  clock e he := by
    rcases List.mem_append.mp he with he | he
    · exact h.clock e he
    · rw [List.mem_singleton.mp he]
      exact ⟨hread, hset⟩
  sorted := by
    refine List.pairwise_append.mpr ⟨h.sorted, List.pairwise_singleton _ _, ?_⟩
    intro e he e' he'
    rw [List.mem_singleton.mp he']
    exact h.id_lt (List.mem_append_left _ (List.mem_append_left _ he))
  ahead i expiredHandlers hphase := absurd hphase (hcalm i expiredHandlers)
  past := h.past

/-- The settings among the calls of a handler were made with the clock between `from` and
`till`. -/
def Timely (start till : Nat) (calls : List ReactorCall) : Prop :=
  ∀ s, ReactorCall.setTimeout s ∈ calls → s.Read ∧ start ≤ s.setAt ∧ s.setAt ≤ till

theorem Ticking.obey (h : Ticking api r) (hcalm : Calm r) {start : Nat} {calls : List ReactorCall}
    (htimely : Timely start (api.time r.world) calls) : Ticking api (calls.foldl Reactor.obey r) := by
  induction calls generalizing r with
  | nil => exact h
  | cons c calls ih =>
      have hrest : ∀ s, ReactorCall.setTimeout s ∈ calls →
          s.Read ∧ start ≤ s.setAt ∧ s.setAt ≤ api.time r.world :=
        fun s hs => htimely s (List.mem_cons_of_mem _ hs)
      cases c with
      | registerHandler evtHandler =>
          refine ih (r := r.registerHandler evtHandler) ?_ hcalm hrest
          exact h.frame le_rfl rfl rfl rfl rfl rfl le_rfl h.pending h.ahead h.past
      | setTimeout s =>
          obtain ⟨hread, -, hset⟩ := htimely s List.mem_cons_self
          exact ih (r := r.setTimeout s) (h.setTimeout hcalm hread hset) hcalm hrest

/-- What is relied on: the clock of the world does not go back, and the epochs of timeouts
are readings of the counter. -/
structure Clocked (api : EventHandlers σ) : Prop where
  poll : ∀ pds world, api.time world ≤ api.time (api.poll pds world).2
  intervalNow : ∀ world, api.time world ≤ api.time (api.intervalNow world).2 ∧
    (api.intervalNow world).1 = UInt32.ofNat (api.time (api.intervalNow world).2)
  handleEvent : ∀ h desc world fault world' calls,
    Ends (api.handleEvent h desc world) fault world' calls →
      api.time world ≤ api.time world' ∧ Timely (api.time world) (api.time world') calls
  handleTimeout : ∀ h world fault world' calls,
    Ends (api.handleTimeout h world) fault world' calls →
      api.time world ≤ api.time world' ∧ Timely (api.time world) (api.time world') calls

theorem Ticking.obeyAll (h : Ticking api r) (hcalm : Calm r) {world : σ}
    {calls : List ReactorCall}
    (hends : api.time r.world ≤ api.time world ∧ Timely (api.time r.world) (api.time world) calls) :
    Ticking api (r.obeyAll world calls) := by
  have hworld : Ticking api { r with world } :=
    h.frame hends.1 rfl rfl rfl rfl rfl le_rfl h.pending h.ahead h.past
  exact hworld.obey (r := { r with world }) hcalm hends.2

/-! ## What a scan does -/

/-- The entry that a scan is about to look at. -/
def current (r : Reactor σ) : Option Entry :=
  match r.phase with
  | .scan i _ => r.mTimeouts[i]?
  | _ => none

/-- Less than `2 ^ 32` ticks have passed from when an entry was set to when a scan sees it. -/
def ShortWaits (api : EventHandlers σ) (r : Reactor σ) : Prop :=
  ∀ e ∈ r.current, api.time (api.intervalNow r.world).2 - e.setAt < 2 ^ 32

instance : Decidable (ShortWaits api r) :=
  inferInstanceAs (Decidable (∀ e ∈ r.current, _ < _))

section

variable {i : Nat} {expiredHandlers : List Entry} {e : Entry}

/-- The place of a scan divides `mTimeouts`. -/
theorem split_at (hphase : r.phase = .scan i expiredHandlers) (hget : r.mTimeouts[i]? = some e) :
    ∃ after, r.mTimeouts = r.looked ++ e :: after ∧ r.unlooked = e :: after ∧
      r.looked.length = i := by
  obtain ⟨hlt, hget⟩ := List.getElem?_eq_some_iff.mp hget
  unfold looked unlooked
  rw [hphase]
  have hdrop : r.mTimeouts.drop i = e :: r.mTimeouts.drop (i + 1) := by
    rw [← hget, ← List.drop_eq_getElem_cons hlt]
  refine ⟨r.mTimeouts.drop (i + 1), ?_, hdrop, List.length_take_of_le hlt.le⟩
  exact hdrop ▸ (List.take_append_drop i _).symm

/-- What the scan finds at its place, and what the clock then shows. -/
theorem Ticking.look (h : Ticking api r) (hclock : Clocked api) (hshort : ShortWaits api r)
    (hphase : r.phase = .scan i expiredHandlers) (hget : r.mTimeouts[i]? = some e) :
    e.Waiting r.scans ∧ (e.expired (api.intervalNow r.world).1 = true ↔
      e.Due (api.time (api.intervalNow r.world).2)) := by
  obtain ⟨after, -, hunlooked, -⟩ := split_at hphase hget
  obtain ⟨hread, hset⟩ := h.clock e (List.mem_of_getElem? hget)
  obtain ⟨htime, hnow⟩ := hclock.intervalNow r.world
  refine ⟨h.pending.2 e (hunlooked ▸ List.mem_cons_self), ?_⟩
  have hcurrent : e ∈ r.current := by
    unfold current
    rw [hphase]
    exact hget
  rw [hnow]
  exact Entry.expired_iff hread (hset.trans htime) (hshort e hcurrent)

/-- A scan goes by one entry, which it leaves or catches. -/
theorem Ticking.scan (h : Ticking api r) (hphase : r.phase = .scan i expiredHandlers)
    {world : σ} (htime : api.time r.world ≤ api.time world) (kept caught : List Entry)
    {after : List Entry} (hone : kept ++ caught = [e.seen (api.time world)])
    (hkept : ∀ e ∈ kept, e.Waiting (r.scans + 1)) (hcaught : ∀ e ∈ caught, e.Taken (r.scans + 1))
    (hsplit : r.mTimeouts = r.looked ++ e :: after) (hunlooked : r.unlooked = e :: after) :
    Ticking api { r with
      world
      mTimeouts := r.looked ++ kept ++ after
      phase := .scan (r.looked ++ kept).length (expiredHandlers ++ caught) } := by
  set r' : Reactor σ := { r with
    world
    mTimeouts := r.looked ++ kept ++ after
    phase := .scan (r.looked ++ kept).length (expiredHandlers ++ caught) } with hr'
  have hexpiries : r.expiries = r.fired ++ expiredHandlers.map (·, r.scans + 1) := by
    unfold expiries taken
    rw [hphase]
  have hexpiries' : r'.expiries = r.expiries ++ caught.map (·, r.scans + 1) := by
    rw [hexpiries, List.append_assoc, ← List.map_append]
    rfl
  have hlooked' : r'.looked = r.looked ++ kept := List.take_left
  have hunlooked' : r'.unlooked = after := List.drop_left
  have hseen : ∀ {e'}, e' ∈ kept ∨ e' ∈ caught → e' = e.seen (api.time world) := fun he' =>
    List.mem_singleton.mp (hone ▸ List.mem_append.mpr he')
  have hsorted := h.sorted
  rw [hsplit] at hsorted
  refine ⟨⟨?_, ?_, ?_, ?_, h.closed⟩, ?_, ?_, ?_, h.past⟩
  -- every setting is still in one of the lists: `e` has gone over to `kept` or to `caught`
  · have hcaught : (caught.map (·, r.scans + 1)).map Prod.fst = caught := by
      rw [List.map_map]
      exact List.map_id caught
    have hentries : r'.entries =
        r.looked ++ kept ++ after ++ (r.expiries.map Prod.fst ++ caught) ++ r.dropped := by
      unfold entries
      rw [hexpiries', List.map_append, hcaught]
    rw [hentries]
    have honce := h.once
    rw [show r.entries = _ from rfl, entries, hsplit] at honce
    apply List.perm_iff_count.mpr
    intro c
    have honce := honce.count_eq c
    have hcall := congrArg (fun es => (es.map Entry.call).count c) hone
    simp only [List.map_append, List.map_cons, List.map_nil, List.count_append, List.count_cons,
      List.count_nil] at honce hcall ⊢
    rw [show (e.seen (api.time world)).call = e.call from rfl] at hcall
    rw [show r'.settings = r.settings from rfl]
    omega
  -- behind the cursor the entries have been looked at in this scan, in front of it they wait
  · rw [hlooked', hunlooked']
    refine ⟨fun e' he' => ?_, fun e' he' => h.pending.2 e' ?_⟩
    · rcases List.mem_append.mp he' with he' | he'
      · exact h.pending.1 e' he'
      · exact hkept e' he'
    · exact hunlooked ▸ List.mem_cons_of_mem e he'
  · rw [hexpiries']
    intro f hf
    rcases List.mem_append.mp hf with hf | hf
    · exact h.expired f hf
    · obtain ⟨e', he', rfl⟩ := List.mem_map.mp hf
      exact hcaught e' he'
  -- `caught` comes last, and what this scan has caught before was set to expire no later
  · rw [hexpiries']
    have hcaught : caught.Sublist [e.seen (api.time world)] := hone ▸ List.sublist_append_right _ _
    refine List.pairwise_append.mpr ⟨h.inOrder, ?_, ?_⟩
    · exact List.pairwise_map.mpr ((List.pairwise_singleton _ _).sublist hcaught)
    · intro f hf f' hf'
      obtain ⟨e', he', rfl⟩ := List.mem_map.mp hf'
      rw [hseen (.inr he')]
      rw [hexpiries] at hf
      rcases List.mem_append.mp hf with hf | hf
      · exact .inl (Nat.lt_succ_of_le (h.past f hf))
      · obtain ⟨e₀, he₀, rfl⟩ := List.mem_map.mp hf
        refine .inr ⟨rfl, h.ahead i expiredHandlers hphase e₀ he₀ e ?_⟩
        exact hunlooked ▸ List.mem_cons_self
  · intro e' he'
    have hclock : ∀ e' ∈ r.mTimeouts, e'.Read ∧ e'.setAt ≤ api.time world :=
      fun e' he' => ⟨(h.clock e' he').1, (h.clock e' he').2.trans htime⟩
    rw [hsplit] at hclock
    rcases List.mem_append.mp he' with he' | he'
    · rcases List.mem_append.mp he' with he' | he'
      · exact hclock e' (List.mem_append_left _ he')
      · rw [hseen (.inl he')]
        exact hclock e (List.mem_append_right _ List.mem_cons_self)
    · exact hclock e' (List.mem_append_right _ (List.mem_cons_of_mem e he'))
  -- reading the clock does not move an entry in the order of the list
  · have hkept : kept.Sublist [e.seen (api.time world)] := hone ▸ List.sublist_append_left _ _
    have hsub : (r.looked ++ kept ++ after).Sublist
        (r.looked ++ e.seen (api.time world) :: after) := by
      rw [List.append_assoc]
      exact (hkept.append_right after).append_left r.looked
    refine List.Pairwise.sublist hsub (List.pairwise_append.mpr ?_)
    obtain ⟨hlooked, hrest, hcross⟩ := List.pairwise_append.mp hsorted
    refine ⟨hlooked, List.pairwise_cons.mpr (List.pairwise_cons.mp hrest), ?_⟩
    intro e₁ he₁ e₂ he₂
    rcases List.mem_cons.mp he₂ with rfl | he₂
    · exact hcross e₁ he₁ e List.mem_cons_self
    · exact hcross e₁ he₁ e₂ (List.mem_cons_of_mem e he₂)
  · intro j taken hscan e₁ he₁ e₂ he₂
    obtain ⟨-, rfl⟩ := Phase.scan.inj hscan
    rw [hunlooked'] at he₂
    rcases List.mem_append.mp he₁ with he₁ | he₁
    · exact h.ahead i expiredHandlers hphase e₁ he₁ e₂ (hunlooked ▸ List.mem_cons_of_mem e he₂)
    · rw [hseen (.inr he₁)]
      exact List.rel_of_pairwise_cons (List.pairwise_append.mp hsorted).2.1 he₂

theorem Ticking.expire (h : Ticking api r) (hclock : Clocked api) (hshort : ShortWaits api r)
    (hphase : r.phase = .scan i expiredHandlers) (hget : r.mTimeouts[i]? = some e)
    (hexpired : e.expired (api.intervalNow r.world).1 = true) :
    Ticking api { r with
      world := (api.intervalNow r.world).2
      mTimeouts := r.mTimeouts.eraseIdx i
      phase := .scan i (expiredHandlers ++ [e.seen (api.time (api.intervalNow r.world).2)]) } := by
  obtain ⟨hwaiting, hdue⟩ := h.look hclock hshort hphase hget
  obtain ⟨after, hsplit, hunlooked, hlen⟩ := split_at hphase hget
  have hscan := h.scan hphase (hclock.intervalNow r.world).1 [] [_] rfl
    (fun _ he => absurd he List.not_mem_nil)
    (fun e' he' => List.mem_singleton.mp he' ▸ hwaiting.seen_due (hdue.mp hexpired))
    hsplit hunlooked
  rw [List.append_nil, hlen] at hscan
  have herase : r.mTimeouts.eraseIdx i = r.looked ++ after := by
    rw [hsplit, List.eraseIdx_append_of_length_le hlen.le, hlen, Nat.sub_self]
    rfl
  rw [herase]
  exact hscan

theorem Ticking.keep (h : Ticking api r) (hclock : Clocked api) (hshort : ShortWaits api r)
    (hphase : r.phase = .scan i expiredHandlers) (hget : r.mTimeouts[i]? = some e)
    (hexpired : e.expired (api.intervalNow r.world).1 = false) :
    Ticking api { r with
      world := (api.intervalNow r.world).2
      mTimeouts := r.mTimeouts.set i (e.seen (api.time (api.intervalNow r.world).2))
      phase := .scan (i + 1) expiredHandlers } := by
  obtain ⟨hwaiting, hdue⟩ := h.look hclock hshort hphase hget
  obtain ⟨after, hsplit, hunlooked, hlen⟩ := split_at hphase hget
  have hearly : ¬ e.Due (api.time (api.intervalNow r.world).2) :=
    fun hnow => Bool.false_ne_true (hexpired ▸ hdue.mpr hnow)
  have hscan := h.scan hphase (hclock.intervalNow r.world).1 [_] [] rfl
    (fun e' he' => List.mem_singleton.mp he' ▸ hwaiting.seen_early hearly)
    (fun _ he => absurd he List.not_mem_nil) hsplit hunlooked
  rw [List.length_append, hlen, List.append_nil, List.append_assoc] at hscan
  have hset : r.mTimeouts.set i (e.seen (api.time (api.intervalNow r.world).2)) =
      r.looked ++ (e.seen (api.time (api.intervalNow r.world).2) :: after) := by
    rw [hsplit, List.set_append_right _ _ hlen.le, hlen, Nat.sub_self]
    rfl
  rw [hset]
  exact hscan

end

/-! ## What `deleteClosed` does -/

theorem Ticking.deleteAt (h : Ticking api r) (hcalm : Calm r) (i evtHandler : Nat) :
    Ticking api (r.deleteAt i evtHandler) := by
  have hafter : Calm (r.deleteAt i evtHandler) := hcalm
  have hparts : (r.mTimeouts.filter (·.evtHandler = evtHandler) ++
      r.mTimeouts.filter (·.evtHandler ≠ evtHandler)).Perm r.mTimeouts := by
    have := List.filter_append_perm (fun e : Entry => decide (e.evtHandler = evtHandler)) r.mTimeouts
    simpa only [decide_not] using this
  have hsub {e : Entry} (he : e ∈ (r.deleteAt i evtHandler).mTimeouts) : e ∈ r.mTimeouts :=
    (List.mem_filter.mp he).1
  refine ⟨⟨?_, ?_, h.expired, h.inOrder, ?_⟩, fun e he => h.clock e (hsub he),
    h.sorted.sublist List.filter_sublist, fun j taken hscan => absurd hscan (hcalm j taken), h.past⟩
  · have hentries : (r.deleteAt i evtHandler).entries =
        r.mTimeouts.filter (·.evtHandler ≠ evtHandler) ++ r.expiries.map Prod.fst ++
          (r.dropped ++ r.mTimeouts.filter (·.evtHandler = evtHandler)) := rfl
    rw [hentries]
    apply List.perm_iff_count.mpr
    intro c
    have honce := h.once.count_eq c
    have hparts := (hparts.map Entry.call).count_eq c
    unfold entries at honce
    simp only [List.map_append, List.count_append] at honce hparts ⊢
    rw [show (r.deleteAt i evtHandler).settings = r.settings from rfl]
    omega
  · rw [hafter.unlooked.1, hafter.unlooked.2]
    refine ⟨fun _ he => absurd he List.not_mem_nil, fun e he => ?_⟩
    exact h.pending.2 e (hcalm.unlooked.2 ▸ hsub he)
  · intro e he
    rcases List.mem_append.mp he with he | he
    · obtain ⟨hdead, hwaiting⟩ := h.closed e he
      exact ⟨List.mem_cons_of_mem _ hdead, hwaiting⟩
    · obtain ⟨he, hmine⟩ := List.mem_filter.mp he
      rw [of_decide_eq_true hmine]
      exact ⟨List.mem_cons_self, r.scans, le_rfl, h.pending.2 e (hcalm.unlooked.2 ▸ he)⟩

/-! ## Runs -/

/-- Outside of the scans, a change of phase that takes nothing. -/
theorem Ticking.rephase (h : Ticking api r) (hcalm : Calm r) {world : σ} {phase : Phase}
    {fired : List (Entry × Nat)} (htime : api.time r.world ≤ api.time world)
    (hnext : Calm { r with world, phase, fired })
    (hexpiries : expiries { r with world, phase, fired } = r.expiries)
    (hpast : ∀ f ∈ fired, f.2 ≤ r.scans) : Ticking api { r with world, phase, fired } := by
  refine h.frame htime rfl rfl hexpiries rfl rfl le_rfl ?_ (fun i es hscan => absurd hscan (hnext i es))
    hpast
  rw [hnext.unlooked.1, hnext.unlooked.2]
  exact ⟨fun _ he => absurd he List.not_mem_nil, hcalm.unlooked.2 ▸ h.pending.2⟩

/-- A step keeps account of the timers. -/
theorem Ticking.turn (h : Ticking api r) (hclock : Clocked api) (hshort : ShortWaits api r)
    {fault : Option Fault} (hturn : Turn api r fault r') : Ticking api r' := by
  have hcalm : ∀ {phase}, r.phase = phase → (∀ i es, phase ≠ .scan i es) → Calm r :=
    fun hphase hne i es hscan => hne i es (hphase ▸ hscan)
  have hevents : ∀ {map pds}, r.phase = .events map pds → ∀ pds,
      Ticking api { r with phase := .events map pds } := by
    intro map pds hphase pds'
    refine h.rephase (hcalm hphase nofun) le_rfl nofun ?_ h.past
    unfold expiries taken
    rw [hphase]
  have htimeouts : ∀ {e es}, r.phase = .timeouts (e :: es) →
      Ticking api { r with phase := .timeouts es, fired := r.fired ++ [(e, r.scans)] } := by
    intro e es hphase
    refine h.rephase (hcalm hphase nofun) le_rfl nofun ?_ ?_
    · unfold expiries taken
      rw [hphase]
      exact List.append_assoc _ _ _
    · intro f hf
      rcases List.mem_append.mp hf with hf | hf
      · exact h.past f hf
      · exact (List.mem_singleton.mp hf ▸ le_rfl)
  cases hturn with
  | pollFreed | deleteFreed => exact h
  | poll hphase hlive descs hdescs =>
      refine h.rephase (hcalm hphase nofun) (hclock.poll _ _) nofun ?_ h.past
      unfold expiries taken
      rw [hphase]
  -- the scan begins: nothing has been looked at, and all entries are in front of the cursor
  | polled map hphase =>
      refine h.frame le_rfl rfl rfl ?_ rfl rfl le_rfl ?_ ?_ h.past
      · unfold expiries taken
        rw [hphase]
        rfl
      · refine ⟨fun _ he => absurd he List.not_mem_nil, fun e he => ?_⟩
        exact h.pending.2 e ((hcalm hphase nofun).unlooked.2 ▸ he)
      · intro i es hscan e he
        obtain ⟨-, rfl⟩ := Phase.scan.inj hscan
        exact absurd he List.not_mem_nil
  | idle map desc pds hphase => exact hevents hphase pds
  | unmapped map desc pds hphase => exact hevents hphase pds
  | eventFreed map desc pds evtHandler hphase => exact hevents hphase pds
  | event map desc pds evtHandler hphase hflags hmap hlive _ world calls hends =>
      exact (hevents hphase pds).obeyAll nofun (hclock.handleEvent _ _ _ _ _ _ hends)
  -- the scan ends: the cursor has passed all entries
  | scanned i es hphase hend =>
      have hlooked : r.looked = r.mTimeouts := by
        unfold looked
        rw [hphase]
        exact List.take_of_length_le (List.getElem?_eq_none_iff.mp hend)
      refine h.frame le_rfl rfl rfl ?_ rfl rfl (Nat.le_succ _) ?_ nofun
        fun f hf => (h.past f hf).trans (Nat.le_succ _)
      · unfold expiries taken
        rw [hphase]
      · exact ⟨fun _ he => absurd he List.not_mem_nil, fun e he => h.pending.1 e (hlooked ▸ he)⟩
  | expire i es e hphase hget hexpired => exact h.expire hclock hshort hphase hget hexpired
  | keep i es e hphase hget hexpired => exact h.keep hclock hshort hphase hget hexpired
  | fired hphase =>
      refine h.rephase (hcalm hphase nofun) le_rfl nofun ?_ h.past
      unfold expiries taken
      rw [hphase]
      rfl
  | timeoutFreed e es hphase => exact htimeouts hphase
  | timeout e es hphase hlive _ world calls hends =>
      exact (htimeouts hphase).obeyAll nofun (hclock.handleTimeout _ _ _ _ _ hends)
  | checked i hphase | spare i evtHandler hphase =>
      refine h.rephase (hcalm hphase nofun) le_rfl nofun ?_ h.past
      unfold expiries taken
      rw [hphase]
  | delete i evtHandler hphase => exact h.deleteAt (hcalm hphase nofun) i evtHandler

/-- A reactor before its first `run`: handlers may have been registered and timeouts set. -/
def Fresh (api : EventHandlers σ) (r : Reactor σ) : Prop :=
  ∃ world calls, r = ({ world } : Reactor σ).obeyAll world calls ∧ Timely 0 (api.time world) calls

theorem Fresh.ticking (h : Fresh api r) : Ticking api r := by
  obtain ⟨world, calls, rfl, htimely⟩ := h
  have hempty : Ticking api ({ world } : Reactor σ) :=
    ⟨⟨.refl _, ⟨nofun, nofun⟩, nofun, .nil, nofun⟩, nofun, .nil, nofun, nofun⟩
  exact hempty.obey nofun htimely

/-! ## The calls of `handleTimeout` -/

/-- The call of `handleTimeout` for the entry `e`, with all that comes of it. A handler that
has been deleted is used after it has been freed. -/
inductive Rings (api : EventHandlers σ) (e : Entry) (r : Reactor σ) :
    Option Fault → Reactor σ → Prop
  | freed (hdead : e.evtHandler ∈ r.deleted) : Rings api e r (some .useAfterFree) r
  | rings (hlive : e.evtHandler ∉ r.deleted) (fault : Option Fault) (world : σ)
      (calls : List ReactorCall)
      (hends : Ends (api.handleTimeout e.evtHandler r.world) fault world calls) :
      Rings api e r fault (r.obeyAll world calls)

/-- Whose timeouts a step fires and drops, and whose `handleTimeout` it calls. -/
structure Fates (api : EventHandlers σ) (r : Reactor σ) (fault : Option Fault) (r' : Reactor σ) :
    Prop where
  fires : ∀ f ∈ r'.fired, f ∈ r.fired ∨
    ∃ rest, r.phase = .timeouts (f.1 :: rest) ∧ f.2 = r.scans
  /-- the first entry of those that have been taken is noted in `fired` and called, once -/
  rings : ∀ e rest, r.phase = .timeouts (e :: rest) →
    Rings api e { r with phase := .timeouts rest, fired := r.fired ++ [(e, r.scans)] } fault r'
  /-- another step does the same whatever `handleTimeout` would do: it does not call it -/
  silent : (∀ e rest, r.phase ≠ .timeouts (e :: rest)) →
    ∀ handleTimeout, Yields (step { api with handleTimeout }) r fault r'
  drops : ∀ e ∈ r'.dropped, e ∈ r.dropped ∨
    ∃ i, r.phase = .deleteClosed i ∧ r.mEvtHandlers[i]? = some e.evtHandler ∧
      api.closed e.evtHandler r.world

/-- A member function that has been called calls no `handleTimeout` of its own. -/
theorem perform_silent (handleTimeout : Nat → σ → Outcome σ) (o : Outcome σ) :
    perform { api with handleTimeout } o = perform api o := by
  have hloop : ∀ hs, stopLoop { api with handleTimeout } hs = stopLoop api hs := by
    intro hs
    induction hs with
    | nil => rfl
    | cons h hs ih =>
        funext r
        unfold stopLoop
        rw [ih]
  have hstop : stop { api with handleTimeout } = stop api := funext fun r => by
    unfold stop
    rw [hloop]
  induction o with
  | returns | fails => rfl
  | stops world calls resume ih =>
      funext r
      unfold perform
      rw [hstop]
      cases stop api (r.obeyAll world calls) with
      | ok _ r' =>
          dsimp only
          rw [ih]
      | error fault r' => rfl

theorem step_silent (hphase : ∀ e rest, r.phase ≠ .timeouts (e :: rest))
    (handleTimeout : Nat → σ → Outcome σ) :
    step { api with handleTimeout } r = step api r := by
  have hinvoke : ∀ h member, invoke { api with handleTimeout } h member = invoke api h member := by
    intro h member
    funext r
    exact congrArg (fun m => if h ∈ r.deleted then .error .useAfterFree r else m r)
      (perform_silent handleTimeout (member r.world))
  unfold step
  cases hp : r.phase with
  | events map pds =>
      cases pds with
      | nil => rfl
      | cons desc pds => simp only [hinvoke]
  | timeouts es =>
      cases es with
      | nil => rfl
      | cons e rest => exact absurd hp (hphase e rest)
  | _ => rfl

theorem Turn.fires {fault : Option Fault} (h : Turn api r fault r') :
    ∀ f ∈ r'.fired, f ∈ r.fired ∨ ∃ rest, r.phase = .timeouts (f.1 :: rest) ∧ f.2 = r.scans := by
  have hfires {e : Entry} {es : List Entry} (hphase : r.phase = .timeouts (e :: es)) :
      ∀ f ∈ r.fired ++ [(e, r.scans)], f ∈ r.fired ∨
        ∃ rest, r.phase = .timeouts (f.1 :: rest) ∧ f.2 = r.scans := by
    intro f hf
    rcases List.mem_append.mp hf with hf | hf
    · exact .inl hf
    · rw [List.mem_singleton.mp hf]
      exact .inr ⟨es, hphase, rfl⟩
  cases h with
  | event =>
      intro f hf
      rw [obeyAll_fired] at hf
      exact .inl hf
  | timeoutFreed e es hphase => exact hfires hphase
  | timeout e es hphase =>
      intro f hf
      rw [obeyAll_fired] at hf
      exact hfires hphase f hf
  | _ => exact fun _ => .inl

theorem Turn.rings {fault : Option Fault} (h : Turn api r fault r') {e : Entry} {rest : List Entry}
    (hphase : r.phase = .timeouts (e :: rest)) :
    Rings api e { r with phase := .timeouts rest, fired := r.fired ++ [(e, r.scans)] } fault r' := by
  have hfirst : ∀ {e' : Entry} {es : List Entry}, r.phase = .timeouts (e' :: es) →
      e' = e ∧ es = rest := fun hphase' => by
    obtain ⟨⟩ := hphase.symm.trans hphase'
    exact ⟨rfl, rfl⟩
  cases h with
  | timeoutFreed e' es hphase' hdead =>
      obtain ⟨rfl, rfl⟩ := hfirst hphase'
      exact .freed hdead
  | timeout e' es hphase' hlive fault world calls hends =>
      obtain ⟨rfl, rfl⟩ := hfirst hphase'
      let r₁ : Reactor σ :=
        { r with phase := .timeouts es, fired := r.fired ++ [(e', r.scans)] }
      exact Rings.rings (r := r₁) hlive fault world calls hends
  | pollFreed _ hphase' | poll hphase' | polled _ hphase' | idle _ _ _ hphase'
  | unmapped _ _ _ hphase' | eventFreed _ _ _ _ hphase' | event _ _ _ _ hphase'
  | scanned _ _ hphase' | expire _ _ _ hphase' | keep _ _ _ hphase' | fired hphase'
  | checked _ hphase' | deleteFreed _ _ hphase' | delete _ _ hphase' | spare _ _ hphase' =>
      cases hphase.symm.trans hphase'

theorem Turn.drops {fault : Option Fault} (h : Turn api r fault r') :
    ∀ e ∈ r'.dropped, e ∈ r.dropped ∨
      ∃ i, r.phase = .deleteClosed i ∧ r.mEvtHandlers[i]? = some e.evtHandler ∧
        api.closed e.evtHandler r.world := by
  cases h with
  | event | timeout =>
      intro e he
      rw [obeyAll_dropped] at he
      exact .inl he
  | delete i evtHandler hphase hget hlive hclosed =>
      intro e he
      rcases List.mem_append.mp he with he | he
      · exact .inl he
      · have hmine : e.evtHandler = evtHandler := of_decide_eq_true (List.mem_filter.mp he).2
        exact .inr ⟨i, hphase, hmine ▸ hget, hmine ▸ hclosed⟩
  | _ => exact fun _ => .inl

theorem fates_of_yields {fault : Option Fault} (h : Yields (step api) r fault r')
    (hstopless : Unstopped api r) : Fates api r fault r' := by
  have hturn := turn_of_yields h hstopless
  refine ⟨hturn.fires, fun e rest => hturn.rings, fun hphase handleTimeout => ?_, hturn.drops⟩
  unfold Yields
  rw [step_silent hphase]
  exact h

/-- Steps lead from a scan to the calls for what it has taken, all that had been taken
before included. -/
theorem scan_ends {i : Nat} {es : List Entry} (hphase : r.phase = .scan i es) :
    ∃ n es', (steps api n r).phase = .timeouts es' ∧ es ⊆ es' := by
  induction hrank : rank r using WellFoundedLT.induction generalizing r i es with
  | ind a ih =>
      subst hrank
      cases hget : r.mTimeouts[i]? with
      | none =>
          have hstep : step api r =
              .ok () { r with phase := .timeouts es, scans := r.scans + 1 } := by
            unfold step
            simp only [hphase, hget]
          refine ⟨1, es, ?_, List.Subset.refl _⟩
          rw [steps_succ hstep]
          rfl
      | some e =>
          have hnext : ∃ r' i' es', step api r = .ok () r' ∧ r'.phase = .scan i' es' ∧ es ⊆ es' := by
            unfold step
            simp only [hphase, hget]
            split
            · exact ⟨_, _, _, rfl, rfl, List.subset_append_left _ _⟩
            · exact ⟨_, _, _, rfl, rfl, List.Subset.refl _⟩
          obtain ⟨r', i', es', hstep, hphase', hsub⟩ := hnext
          have hrank := step_rank (by rw [hphase]; exact nofun) hstep
          obtain ⟨n, es'', hn, hsub'⟩ := ih (rank r') hrank hphase' rfl
          exact ⟨n + 1, es'', (steps_succ hstep).symm ▸ hn, List.Subset.trans hsub hsub'⟩

/-- What a scan has taken is called, unless the run fails before. -/
theorem taken_comes {f : Entry × Nat} (hf : f ∈ r.taken) :
    ∃ n, (∃ rest, (steps api n r).phase = .timeouts (f.1 :: rest)) ∨
      failure api (steps api n r) ≠ none := by
  unfold taken at hf
  cases hphase : r.phase with
  | scan i es =>
      rw [hphase] at hf
      obtain ⟨e, he, rfl⟩ := List.mem_map.mp hf
      obtain ⟨n, es', hn, hsub⟩ := scan_ends hphase
      obtain ⟨m, hm⟩ := timeout_comes hn (hsub he)
      exact ⟨m + n, steps_add m n ▸ hm⟩
  | timeouts es =>
      rw [hphase] at hf
      obtain ⟨e, he, rfl⟩ := List.mem_map.mp hf
      exact timeout_comes hphase he
  | _ =>
      rw [hphase] at hf
      cases hf

/-- **Timers are neither lost, duplicated nor early.** At every moment of a run without
`stop`, each call of `setTimeout` has exactly one entry, and it is in `mTimeouts`, has been
taken by a scan or has been dropped. All scans since it was set have looked at it, and the
first that has found it due has taken it. The entries of one scan come in the order in which
they were set, and none of them was set after the scan before had come to its end. An entry
that has been taken comes to its step, unless the run fails before. This step adds it to
`fired` and is the call of `handleTimeout` of its handler, and no other step calls a
`handleTimeout`. A step that adds to `dropped` is the one that deletes the handler, which is
closed. -/
theorem timers_accounted (hclock : Clocked api) {r₀ : Reactor σ} (hfresh : Fresh api r₀)
    (h : Moment api (fun r => Unstopped api r ∧ ShortWaits api r) r₀ r) :
    Accounted r ∧ (∀ f ∈ r.expiries, f.1.setIn < f.2) ∧
      (∀ f ∈ r.taken, ∃ n, (∃ rest, (steps api n r).phase = .timeouts (f.1 :: rest)) ∨
        failure api (steps api n r) ≠ none) ∧
      ∀ fault r', Unstopped api r → Yields (step api) r fault r' → Fates api r fault r' := by
  have hticking : Ticking api r :=
    h.invariant hfresh.ticking fun r fault r' ⟨hstopless, hshort⟩ hr hstep =>
      hr.turn hclock hshort (turn_of_yields hstep hstopless)
  refine ⟨hticking.toAccounted, fun f hf => (hticking.expired f hf).later,
    fun f => taken_comes, ?_⟩
  exact fun fault r' hstopless hstep => fates_of_yields hstep hstopless

/-- The ticks of a clock that goes on with every reading, over a wrap of the counter and
not much further. -/
def ticked (readings : Nat) : Nat := 2 ^ 32 - 3 + min readings 9

/-- A handler whose every event sets a timeout of two ticks. -/
def ticker : EventHandlers Nat where
  getPollDescs _ _ := [⟨some 0, { read := true }, {}⟩]
  closed _ _ := false
  close _ readings := readings
  handleEvent h _ readings :=
    .returns readings [.setTimeout ⟨⟨.ofNat (ticked readings), 2⟩, h, ticked readings⟩]
  handleTimeout _ readings := .returns readings []
  poll descs readings :=
    (descs.map fun desc => { desc with out_flags := { read := true } }, readings)
  intervalNow readings := (.ofNat (ticked (readings + 1)), readings + 1)
  time := ticked

theorem timers_accounted_ticker : ∃ r : Reactor Nat,
    (r.fired.map fun f => (f.1.id, f.2)) = [(0, 3), (1, 3), (2, 3)] ∧ r.mTimeouts.length = 1 ∧
      Accounted r := by
  let r₀ : Reactor Nat := ({ world := 0 } : Reactor Nat).obeyAll 0 [.registerHandler 0]
  have hclock : Clocked ticker := by
    refine ⟨fun _ _ => le_rfl, fun readings => ⟨?_, rfl⟩, ?_, ?_⟩
    · show ticked readings ≤ ticked (readings + 1)
      unfold ticked
      omega
    · rintro h desc readings _ _ _ ⟨⟩
      refine ⟨le_rfl, fun s hs => ?_⟩
      obtain rfl := ReactorCall.setTimeout.inj (List.mem_singleton.mp hs)
      exact ⟨rfl, le_rfl, le_rfl⟩
    · rintro h readings _ _ _ ⟨⟩
      exact ⟨le_rfl, nofun⟩
  have hstopless : ∀ r, Unstopped ticker r := fun r =>
    ⟨fun _ _ _ _ _ _ _ => ⟨none, _, _, .returns _ _⟩, fun _ _ _ => ⟨none, _, _, .returns _ _⟩⟩
  have hshort : ∀ k < 33, ShortWaits ticker (steps ticker k r₀) := by decide +kernel
  refine ⟨steps ticker 33 r₀, by decide +kernel, by decide +kernel, ?_⟩
  exact (timers_accounted hclock ⟨0, [.registerHandler 0], rfl, nofun⟩
    (.inl (Reached.start.steps fun k hk => ⟨hstopless _, hshort k hk⟩))).1

end Reactor

end Negatus
