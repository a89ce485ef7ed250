import Negatus.CommandEventHandler.Steps

/-!
# Runs of a connection

The reactor hands a connection the events that its poll descriptor asks for and
the expired entries of its timers, in any order and at any time. `reached` is
the state after such a run, or the state in which one of its calls has failed.
-/

namespace Negatus

open Foundations BufferedSocket Relation

/-- What `PR_Poll` reports for a descriptor: the flags asked for, and errors. -/
def PollDesc.report (flags : PollFlags) (desc : PollDesc) : PollDesc :=
  { desc with out_flags := {
      read := desc.in_flags.read && flags.read
      write := desc.in_flags.write && flags.write
      other := flags.other } }

namespace CommandEventHandler

open Connection (handling setData released dropped meanwhile)

/-- What the reactor does to a connection, with the answers of the system to the
calls that follow. -/
inductive Act where
  | event (flags : PollFlags) (os : Os)
  | timeout (os : Os)

/-- A call by the reactor, if the poll descriptor or the timers ask for it. -/
def handle (P : Platform) : Act → Call Unit
  | .event flags os => do
      let c ← get
      match getPollDescs c with
      | [] => pure ()
      | desc :: _ =>
          if (desc.report flags).out_flags = {} then pure ()
          else
            set (c.meanwhile os c.io.timers)
            handleEvent P (desc.report flags)
  | .timeout os => do
      let c ← get
      match c.io.timers with
      | [] => pure ()
      | _ :: timers =>
          set (c.meanwhile os timers)
          handleTimeout P

def run (P : Platform) : List Act → Call Unit
  | [] => pure ()
  | act :: acts => do
      handle P act
      run P acts

/-- The state in which a run ends, or in which one of its calls fails. -/
def reached (P : Platform) (socket : Nat) (os : Os) (acts : List Act) : Connection :=
  match run P acts (new socket os) with
  | .ok _ c | .error _ c => c

/-- Does every call of a run return? -/
def returns (P : Platform) (socket : Nat) (os : Os) (acts : List Act) : Bool :=
  match run P acts (new socket os) with
  | .ok _ _ => true
  | .error _ _ => false

/-! ## Between two calls -/

/-- Control is back in the reactor. -/
structure Rested (c : Connection) : Prop extends c.Sound where
  recvOpen : c.mClosed = true ∨ c.io.sock.mRecvClosed = false
  dataOpen : ∀ h, c.mDataEventHandler = some h → h.closed = false

theorem Ended.dataOpen {P : Platform} {c c' : Connection} (h : Ended P c c') (hs : c'.Sound) :
    ∀ h, c'.mDataEventHandler = some h → h.closed = false := by
  intro h' hdata'
  cases h with
  | quit _ hclosed => exact absurd ((hs.idle hclosed).symm.trans hdata') (by simp)
  | busy _ h hdata hopen =>
      obtain rfl := Option.some.inj (hdata.symm.trans hdata')
      exact hopen
  | nothing hidle => exact absurd (hidle.symm.trans hdata') (by simp)
  | released _ t hidle => exact absurd (hidle.symm.trans hdata') (by simp)
  | noMore _ hidle => exact absurd (hidle.symm.trans hdata') (by simp)

theorem Settled.rested {P : Platform} {c c' : Connection} (h : Settled P c c') (hs : c'.Sound) :
    Rested c' := by
  cases h with
  | running _ hend hrecv => exact ⟨hs, Or.inr hrecv, hend.dataOpen hs⟩
  | eof c₁ hend hrecv => exact ⟨hs, Or.inl rfl, fun h hdata =>
      absurd ((hs.idle rfl).symm.trans hdata) (by simp)⟩

/-- What a call of the reactor leaves behind. -/
inductive Handled (P : Platform) (c : Connection) : Connection → Prop
  | skipped : Handled P c c
  | settled (os : Os) (timers : List Timeout) (c' : Connection)
      (h : Settled P (c.meanwhile os timers) c') : Handled P c c'

section

variable {P : Platform} {c : Connection}

theorem handleTimeout_settles (hs : c.Sound)
    (hrecv : c.mClosed = true ∨ c.io.sock.mRecvClosed = false) :
    Leads (Work P) (handleTimeout P) c (fun _ c' => Settled P c c') (Failing P) := by
  rcases hrecv with hclosed | hrecv
  · refine Leads.of_ensures ?_
    unfold handleTimeout
    rw [ensures_bind, ensures_self, hs.alive, if_neg (by decide), hs.idle hclosed]
    exact .noData c (hs.idle hclosed)
  · refine (handleTimeout_leads hs).mono ?_ (fun _ _ _ => id)
    rintro - c' - ⟨hend, hsame, -⟩
    exact .running c' hend (hsame.trans hrecv)

/-- Waiting for a call is part of the work on a payload. -/
theorem wait_work (hs : c.Sound) (os : Os) (timers : List Timeout) :
    Work P c (c.meanwhile os timers) := by
  refine ⟨.wait c os timers, ?_⟩
  intro hdata
  obtain ⟨h, hh⟩ := Option.ne_none_iff_exists'.mp hdata
  exact hs.open_of_busy hh

theorem timeout_leads (hr : Rested c) (os : Os) :
    Leads (Work P) (handle P (.timeout os)) c (fun _ c' => Handled P c c' ∧ Rested c')
      (Failing P) := by
  unfold handle
  refine ensures_bind.mpr (ensures_get.mpr ?_)
  split
  · exact leads_pure ⟨.skipped, hr⟩
  · rename_i t timers _
    have hwait := wait_work (P := P) hr.toSound os timers
    have hs := hwait.step.sound hr.toSound
    refine ensures_bind.mpr (ensures_set.mpr (Leads.after (.single hwait) ?_))
    refine (handleTimeout_settles hs hr.recvOpen).mono ?_ (fun _ _ _ => id)
    intro _ c' hpath hsettled
    exact ⟨.settled os timers c' hsettled, hsettled.rested (sound_path (Work.path hpath) hs)⟩

theorem handle_leads (hr : Rested c) (act : Act) :
    Leads (Step P) (handle P act) c (fun _ c' => Handled P c c' ∧ Rested c') (Failing P) := by
  cases act with
  | event flags os =>
      unfold handle
      refine ensures_bind.mpr (ensures_get.mpr ?_)
      split
      · exact leads_pure ⟨.skipped, hr⟩
      split
      · exact leads_pure ⟨.skipped, hr⟩
      · have hwait := (wait_work (P := P) hr.toSound os c.io.timers).step
        have hs := hwait.sound hr.toSound
        refine ensures_bind.mpr (ensures_set.mpr (Leads.after (.single hwait) ?_))
        refine ((handleEvent_leads hs _).of_finer fun _ _ h => h.1).mono ?_ (fun _ _ _ => id)
        intro _ c' hpath hsettled
        exact ⟨.settled os _ c' hsettled, hsettled.rested (sound_path hpath hs)⟩
  | timeout os => exact (timeout_leads hr os).of_finer fun _ _ => Work.step

theorem run_leads (hr : Rested c) (acts : List Act) :
    Leads (Step P) (run P acts) c (fun _ => Rested) (Failing P) := by
  induction acts generalizing c with
  | nil => exact leads_pure hr
  | cons act acts ih =>
      refine Leads.bind (handle_leads hr act) ?_
      rintro - c₁ - ⟨-, hr₁⟩
      exact ih hr₁

/-- A fact about rested states that every call keeps holds after every run. -/
theorem run_ensures {I : Connection → Prop}
    (hcall : ∀ c c', Rested c → Handled P c c' → ReflTransGen (Step P) c c' → I c → I c')
    (hr : Rested c) (hI : I c) (acts : List Act) :
    Ensures (run P acts) c (fun _ c' => Rested c' ∧ I c') (fun _ _ => True) := by
  induction acts generalizing c with
  | nil => exact ⟨hr, hI⟩
  | cons act acts ih =>
      refine Ensures.bind (Ensures.mono (handle_leads hr act) (fun _ _ => id)
        fun _ _ _ => trivial) ?_
      rintro - c₁ ⟨hpath, hhandled, hr₁⟩
      exact ih hr₁ (hcall c c₁ hr hhandled hpath hI)

end

/-! ## From the first prompt on -/

theorem new_facts (socket : Nat) (os : Os) :
    (new socket os).unread = [] ∧ (new socket os).io.sock.mRecvClosed = false ∧
      (new socket os).io.timers = [] := by
  have hsame := writePrompt_sameInput [] { sock := .new socket, os }
  refine ⟨hsame.unread.trans ReadBuffer.new_unread, ?_⟩
  unfold new
  rcases writePrompt_cases [] { sock := .new socket, os } with ⟨-, heq⟩ | ⟨-, io, hwrote, heq⟩
  · rw [heq]
    exact ⟨rfl, rfl⟩
  · rw [heq]
    exact ⟨hwrote.recvClosed, hwrote.timers⟩

theorem new_rested (socket : Nat) (os : Os) : Rested (new socket os) where
  alive := rfl
  idle := fun _ => rfl
  data := fun _ hdata => nomatch hdata
  recvOpen := Or.inr (new_facts socket os).2.1
  dataOpen := fun _ hdata => nomatch hdata

theorem run_of_returns {P : Platform} {socket : Nat} {os : Os} {acts : List Act}
    (h : returns P socket os acts = true) :
    run P acts (new socket os) = .ok () (reached P socket os acts) := by
  unfold returns at h
  unfold reached
  cases hres : run P acts (new socket os) with
  | ok a c => rfl
  | error e c =>
      rw [hres] at h
      cases h

/-- A run that returns is a path of steps. -/
theorem reached_path {P : Platform} {socket : Nat} {os : Os} {acts : List Act}
    (h : returns P socket os acts = true) :
    ReflTransGen (Step P) (new socket os) (reached P socket os acts) ∧
      Rested (reached P socket os acts) :=
  (ensures_ok (run_of_returns h)).mp (run_leads (new_rested socket os) acts)

/-- What a run ensures, however it ends, holds of the state that it reaches. -/
theorem ensures_reached {P : Platform} {socket : Nat} {os : Os} {acts : List Act}
    {Q : Connection → Prop} (h : Ensures (run P acts) (new socket os) (fun _ => Q) (fun _ => Q)) :
    Q (reached P socket os acts) := by
  unfold reached
  cases hres : run P acts (new socket os) with
  | ok a c => exact (ensures_ok hres).mp h
  | error e c => exact (ensures_error hres).mp h

end CommandEventHandler

end Negatus
