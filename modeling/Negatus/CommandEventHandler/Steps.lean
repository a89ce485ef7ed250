import Negatus.CommandEventHandler.Lines

/-!
# The steps of a connection

A call of `handleEvent` or `handleTimeout` is a path of steps: an answer of
`PR_Recv`, a line from its reading to its reply, a step of a data handler, the
release of a data handler. Invariants of a connection are invariants of these
steps; what the calls add is said in their postconditions, which also say that
no loop of the model is cut short.
-/

namespace Negatus

open Foundations BufferedSocket Relation
open BlockBuffer (firstLine)

/-- An open data handler has its file or its pipe. -/
def DataEventHandler.Sound : DataEventHandler → Prop
  | .pull h => h.Sound
  | .push h => h.Sound
  | .subprocess h => h.mP = true

/-- The timers that a data handler has in the reactor. -/
def DataEventHandler.credit : DataEventHandler → Nat
  | .subprocess h => if h.mClosed then 0 else 1
  | _ => 0

theorem DataEventHandler.credit_closed {h : DataEventHandler} (hclosed : h.closed = true) :
    h.credit = 0 := by
  cases h with
  | subprocess h => exact if_pos hclosed
  | _ => rfl

namespace Connection

/-- The handler has not been deleted, it works for its data handler only while it is
open, and an open data handler has what it uses. -/
structure Sound (c : Connection) : Prop where
  alive : c.deleted = false
  idle : c.mClosed = true → c.mDataEventHandler = none
  data : ∀ h, c.mDataEventHandler = some h → h.Sound

theorem Sound.open_of_busy {c : Connection} (hs : c.Sound) {h : DataEventHandler}
    (hdata : c.mDataEventHandler = some h) : c.mClosed = false := by
  cases hclosed : c.mClosed with
  | false => rfl
  | true => exact absurd ((hs.idle hclosed).symm.trans hdata) (by simp)

def credit (c : Connection) : Nat := c.mDataEventHandler.elim 0 DataEventHandler.credit

theorem credit_le (c : Connection) : c.credit ≤ 1 := by
  unfold credit
  cases c.mDataEventHandler with
  | none => exact Nat.zero_le 1
  | some h =>
      cases h with
      | subprocess h =>
          show (if h.mClosed then 0 else 1) ≤ 1
          split <;> decide
      | _ => exact Nat.zero_le 1

/-- The line `raw` has been taken from the buffer and is being handled. -/
def handling (raw : Bytes) (b : ReadBuffer) (c : Connection) : Connection :=
  c.setIo (((c.io.setBuffer b).log (.readLine raw)).log (.handleLine (trim raw)))

def setData (h : DataEventHandler) (io : Io) (c : Connection) : Connection :=
  { c with io, mDataEventHandler := some h }

/-- The data handler is gone. -/
def released (resumes : Bool) (io : Io) (c : Connection) : Connection :=
  { c with io := io.log (.release resumes), mDataEventHandler := none }

/-- A data handler that was left at EOF is gone. -/
def dropped (c : Connection) : Connection :=
  if c.mDataEventHandler.isSome then c.released false c.io else c

/-- The reactor's part: what the system will answer next, and the pending timers. -/
def meanwhile (os : Os) (timers : List Timeout) (c : Connection) : Connection :=
  { c with io := { c.io with os, timers } }

end Connection

namespace CommandEventHandler

open Connection (handling setData released dropped meanwhile)

/-- The steps of a connection: those of its calls, and what happens between them. -/
inductive Step (P : Platform) : Connection → Connection → Prop
  | recv (c : Connection) (io : Io) (hopen : c.mClosed = false) (hstep : RecvStep c.io io) :
      Step P c (c.setIo io)
  | line (c c' : Connection) (raw : Bytes) (b : ReadBuffer) (hopen : c.mClosed = false)
      (hidle : c.mDataEventHandler = none) (hraw : raw ≠ [])
      (hget : c.io.sock.mReadBuffer.getline = some (raw, (raw.length : Int), b))
      (hline : Performed P (lineKind P (trim raw)) (c.handling raw b) c') : Step P c c'
  | push (c : Connection) (h h' : PushFileEventHandler) (io : Io)
      (hdata : c.mDataEventHandler = some (.push h))
      (hstep : PushFileEventHandler.PushStep (h, c.io) (h', io)) :
      Step P c (c.setData (.push h') io)
  | pull (c : Connection) (desc : PollDesc) (h h' : PullFileEventHandler) (io : Io)
      (hdata : c.mDataEventHandler = some (.pull h)) (hopen : h.mClosed = false)
      (hrun : h.handleEvent desc c.io = .ok h' io) : Step P c (c.setData (.pull h') io)
  | release (c : Connection) (h : DataEventHandler) (resumes : Bool) (hopen : c.mClosed = false)
      (hdata : c.mDataEventHandler = some h) (hclosed : h.closed = true) :
      Step P c (c.released resumes (writePrompt [] c.io))
  | tick (c : Connection) (h : SubprocessEventHandler)
      (hdata : c.mDataEventHandler = some (.subprocess h)) (hopen : h.mClosed = false) :
      Step P c (c.setData (.subprocess (h.tick P c.io).1) (h.tick P c.io).2)
  | eof (c : Connection) (hrecv : c.io.sock.mRecvClosed = true) : Step P c (closed c.dropped)
  | wait (c : Connection) (os : Os) (timers : List Timeout) : Step P c (c.meanwhile os timers)

/-- How a call fails. -/
inductive Failing (P : Platform) : Fault → Connection → Connection → Prop
  | overlong (c : Connection) : Failing P (.crash .undefined) c c
  | line (c c' : Connection) (raw : Bytes) (b : ReadBuffer) (e : Fault) (hopen : c.mClosed = false)
      (hidle : c.mDataEventHandler = none) (hraw : raw ≠ [])
      (hget : c.io.sock.mReadBuffer.getline = some (raw, (raw.length : Int), b))
      (hline : Failed (lineKind P (trim raw)) (c.handling raw b) e c') : Failing P e c c'
  | noData (c : Connection) (hidle : c.mDataEventHandler = none) :
      Failing P (.crash .nullDeref) c c

/-! ## Lines do not touch the input -/

theorem writePrompt_cases (text : Bytes) (io : Io) :
    io.sock.mSendClosed = true ∧ writePrompt text io = io ∨
      io.sock.mSendClosed = false ∧ ∃ io',
        Wrote ((text ++ mPrompt ++ [0]).take (wrap32 (text ++ mPrompt ++ [0]).length)) io io' ∧
          writePrompt text io = io'.log .prompt := by
  have hwrote := write_wrote (Nat.mod_le (text ++ mPrompt ++ [0]).length (2 ^ 32)) io
  unfold writePrompt
  cases hclosed : io.sock.mSendClosed with
  | true => exact Or.inl ⟨rfl, hwrote.silent (Or.inr hclosed)⟩
  | false => exact Or.inr ⟨rfl, _, hwrote, rfl⟩

theorem writePrompt_sameInput (text : Bytes) (io : Io) : SameInput io (writePrompt text io) := by
  rcases writePrompt_cases text io with ⟨-, heq⟩ | ⟨-, io', hwrote, heq⟩
  · rw [heq]
    exact ⟨rfl, rfl⟩
  · rw [heq]
    exact ⟨hwrote.buffer, hwrote.frame.recvs⟩

theorem replied_sameInput (result : Bytes) {io : Io} {c : Connection} (h : SameInput io c.io) :
    SameInput io (replied result c).io := by
  unfold replied
  split
  · exact h.trans (writePrompt_sameInput _ _)
  · exact h

theorem subprocess_sameInput {P : Platform} {cmdLine : Bytes} {env : List (Bytes × Bytes)}
    {io io' : Io} {h : SubprocessEventHandler}
    (hnew : SubprocessEventHandler.new P cmdLine env io = (h, io')) : SameInput io io' := by
  obtain ⟨os, vars, ok, hrecvs, heq⟩ := SubprocessEventHandler.new_spec P cmdLine env io
  obtain ⟨-, rfl⟩ := Prod.mk.inj (hnew.symm.trans heq)
  cases ok <;> exact ⟨rfl, hrecvs⟩

/-- Handling a line takes nothing from the input. -/
theorem Performed.sameInput {P : Platform} {k : LineKind} {c c' : Connection}
    (h : Performed P k c c') : SameInput c.io c'.io := by
  cases h with
  | empty => exact ⟨rfl, rfl⟩
  | answer c result r s => exact replied_sameInput r ⟨rfl, rfl⟩
  | pull c path start size includeHeader h io hnew =>
      have hframe := PullFileEventHandler.new_frame path start size includeHeader c.io
      rw [hnew] at hframe
      exact ⟨hframe.buffer, hframe.recvs⟩
  | push c path size h io hnew =>
      have hframe := PushFileEventHandler.new_frame path size c.io
      rw [hnew] at hframe
      exact ⟨hframe.buffer, hframe.recvs⟩
  | exec c args cmdLine env h io hparse hnew =>
      have hsame := subprocess_sameInput hnew
      exact ⟨hsame.buffer, hsame.recvs⟩
  | noExec c args cmdLine env h io hparse hnew =>
      exact replied_sameInput _ (subprocess_sameInput hnew)
  | quit c => exact replied_sameInput _ (close_sameInput c.io)
  | noReboot c path contents s => exact replied_sameInput _ ⟨rfl, rfl⟩

/-! ## Soundness is kept -/

theorem Performed.alive {P : Platform} {k : LineKind} {c c' : Connection} (h : Performed P k c c') :
    c'.deleted = c.deleted := by
  cases h <;> simp [attached, closed, Connection.setSystem, Connection.log, Connection.setIo]

theorem Performed.data {P : Platform} {k : LineKind} {c c' : Connection} (h : Performed P k c c')
    (hidle : c.mDataEventHandler = none) : ∀ h, c'.mDataEventHandler = some h → h.Sound := by
  cases h with
  | pull c path start size includeHeader h io hnew =>
      rintro h' ⟨rfl⟩
      have hsound := PullFileEventHandler.new_sound path start size includeHeader c.io
      rw [hnew] at hsound
      exact hsound
  | push c path size h io hnew =>
      rintro h' ⟨rfl⟩
      have hsound := PushFileEventHandler.new_sound path size c.io
      rw [hnew] at hsound
      exact hsound
  | exec c args cmdLine env h io hparse hnew hopen =>
      rintro h' ⟨rfl⟩
      obtain ⟨os, vars, ok, -, heq⟩ := SubprocessEventHandler.new_spec P cmdLine env c.io
      obtain ⟨rfl, -⟩ := Prod.mk.inj (hnew.symm.trans heq)
      simpa [DataEventHandler.Sound] using hopen
  | _ =>
      intro h' hh'
      simp [hidle, closed, Connection.setSystem, Connection.log, Connection.setIo] at hh'

theorem dropped_of_idle {c : Connection} (hdata : c.mDataEventHandler = none) : c.dropped = c := by
  unfold dropped
  rw [hdata]
  rfl

theorem dropped_of_busy {c : Connection} {h : DataEventHandler}
    (hdata : c.mDataEventHandler = some h) : c.dropped = c.released false c.io := by
  unfold dropped
  rw [hdata]
  rfl

theorem dropped_idle (c : Connection) : c.dropped.mDataEventHandler = none := by
  cases hdata : c.mDataEventHandler with
  | none => rw [dropped_of_idle hdata, hdata]
  | some h =>
      rw [dropped_of_busy hdata]
      rfl

/-- A line closes the handler or attaches a data handler, not both. -/
theorem Performed.idle {P : Platform} {k : LineKind} {c c' : Connection} (h : Performed P k c c')
    (hopen : c.mClosed = false) (hidle : c.mDataEventHandler = none) :
    c'.mClosed = true → c'.mDataEventHandler = none := by
  cases h with
  | pull | push | exec =>
      intro hclosed
      exact absurd (hopen.symm.trans hclosed) (by decide)
  | _ => simp [hidle, closed, Connection.setSystem, Connection.log, Connection.setIo]

theorem Step.sound {P : Platform} {c c' : Connection} (h : Step P c c') (hs : c.Sound) :
    c'.Sound := by
  cases h with
  | recv io => exact ⟨hs.alive, hs.idle, hs.data⟩
  | line c' raw b hopen hidle hraw hget hline =>
      exact ⟨hline.alive.trans hs.alive, hline.idle hopen hidle, hline.data hidle⟩
  | push h h' io hdata hstep =>
      refine ⟨hs.alive, fun hclosed => absurd hclosed (by simp [setData, hs.open_of_busy hdata]), ?_⟩
      rintro _ ⟨rfl⟩
      exact hstep.sound (hs.data _ hdata)
  | pull desc h h' io hdata hopen hrun =>
      refine ⟨hs.alive, fun hclosed => absurd hclosed (by simp [setData, hs.open_of_busy hdata]), ?_⟩
      rintro _ ⟨rfl⟩
      have hspec := PullFileEventHandler.handleEvent_spec desc c.io (hs.data _ hdata) hopen
      exact ((ensures_ok hrun).mp hspec).2
  | release h resumes => exact ⟨hs.alive, fun _ => rfl, fun _ hh => nomatch hh⟩
  | tick h hdata =>
      refine ⟨hs.alive, fun hclosed => absurd hclosed (by simp [setData, hs.open_of_busy hdata]), ?_⟩
      rintro _ ⟨rfl⟩
      exact (h.poll_pipe c.io).trans (hs.data _ hdata)
  | eof =>
      refine ⟨?_, fun _ => dropped_idle c, fun h hh => nomatch (dropped_idle c).symm.trans hh⟩
      unfold dropped
      split <;> exact hs.alive
  | wait os timers => exact ⟨hs.alive, hs.idle, hs.data⟩

theorem sound_path {P : Platform} {c c' : Connection} (hpath : ReflTransGen (Step P) c c')
    (hs : c.Sound) : c'.Sound :=
  invariant_path (I := Connection.Sound) (fun _ _ h => h.sound) hpath hs

/-- A step of a call before its end, when a data handler may be left at EOF: as long as
one is attached, the connection stays open. -/
def Work (P : Platform) (c c' : Connection) : Prop :=
  Step P c c' ∧ (c.mDataEventHandler ≠ none → c'.mClosed = false)

theorem Work.step {P : Platform} {c c' : Connection} (h : Work P c c') : Step P c c' := h.1

theorem Work.path {P : Platform} {c c' : Connection} (h : ReflTransGen (Work P) c c') :
    ReflTransGen (Step P) c c' :=
  ReflTransGen.mono (fun _ _ hwork => hwork.step) _ _ h

/-! ## Timers are kept in step -/

/-- If the handler is open in the end, it has been all the time, and a timer has been
set if and only if a subprocess has been started. -/
def InStep (c c' : Connection) : Prop :=
  c'.mClosed = false →
    c.mClosed = false ∧ c'.io.timers.length + c.credit = c.io.timers.length + c'.credit

theorem InStep.refl (c : Connection) : InStep c c := fun hopen => ⟨hopen, rfl⟩

theorem InStep.trans {c₁ c₂ c₃ : Connection} (h : InStep c₁ c₂) (h' : InStep c₂ c₃) :
    InStep c₁ c₃ := by
  intro hopen
  obtain ⟨hopen₂, hsame'⟩ := h' hopen
  obtain ⟨hopen₁, hsame⟩ := h hopen₂
  exact ⟨hopen₁, by omega⟩

/-- A step of `handleEvent` before its end. -/
def Busy (P : Platform) (c c' : Connection) : Prop := Work P c c' ∧ InStep c c'

theorem Busy.work {P : Platform} {c c' : Connection} (h : Busy P c c') : Work P c c' := h.1

theorem Busy.path {P : Platform} {c c' : Connection} (h : ReflTransGen (Busy P) c c') :
    ReflTransGen (Step P) c c' :=
  ReflTransGen.mono (fun _ _ hbusy => hbusy.work.step) _ _ h

theorem writePrompt_timers (text : Bytes) (io : Io) :
    (writePrompt text io).timers = io.timers := by
  rcases writePrompt_cases text io with ⟨-, heq⟩ | ⟨-, io', hwrote, heq⟩
  · rw [heq]
  · rw [heq]
    exact hwrote.timers

theorem replied_timers (result : Bytes) (c : Connection) :
    (replied result c).io.timers = c.io.timers := by
  unfold replied
  split
  · exact writePrompt_timers _ c.io
  · rfl

theorem subprocess_timers {P : Platform} {cmdLine : Bytes} {env : List (Bytes × Bytes)}
    {io io' : Io} {h : SubprocessEventHandler}
    (hnew : SubprocessEventHandler.new P cmdLine env io = (h, io')) :
    io'.timers.length = io.timers.length + (DataEventHandler.subprocess h).credit := by
  obtain ⟨os, vars, ok, -, heq⟩ := SubprocessEventHandler.new_spec P cmdLine env io
  obtain ⟨rfl, rfl⟩ := Prod.mk.inj (hnew.symm.trans heq)
  cases ok with
  | true => exact List.length_append
  | false => rfl

/-- A line that leaves the handler open sets a timer exactly if it starts a subprocess. -/
theorem Performed.inStep {P : Platform} {k : LineKind} {c c' : Connection}
    (h : Performed P k c c') (hopen : c.mClosed = false) (hidle : c.mDataEventHandler = none) :
    InStep c c' := by
  intro hopen'
  refine ⟨hopen, ?_⟩
  have hcredit : c.credit = 0 := by
    unfold Connection.credit
    rw [hidle]
    rfl
  -- no data handler before, and no timer added
  have hnone : ∀ c₁ : Connection, c₁.mDataEventHandler = none →
      c₁.io.timers.length = c.io.timers.length →
      c₁.io.timers.length + c.credit = c.io.timers.length + c₁.credit := by
    intro c₁ hidle₁ hsame
    unfold Connection.credit
    rw [hidle, hidle₁, hsame]
  cases h with
  | empty => rfl
  | answer c result r s =>
      exact hnone _ ((replied_data r _).trans hidle) (congrArg _ (replied_timers r (c.setSystem s)))
  | pull c path start size includeHeader h io hnew =>
      have hframe := PullFileEventHandler.new_frame path start size includeHeader c.io
      rw [hnew] at hframe
      rw [hcredit]
      exact congrArg List.length hframe.timers
  | push c path size h io hnew =>
      have hframe := PushFileEventHandler.new_frame path size c.io
      rw [hnew] at hframe
      rw [hcredit]
      exact congrArg List.length hframe.timers
  | exec c args cmdLine env h io hparse hnew =>
      rw [hcredit]
      have htimers := subprocess_timers hnew
      exact htimers
  | noExec c args cmdLine env h io hparse hnew hclosed =>
      refine hnone _ ((replied_data _ _).trans hidle) ?_
      rw [replied_timers]
      have htimers := subprocess_timers hnew
      rwa [DataEventHandler.credit_closed (h := .subprocess h) hclosed] at htimers
  | quit => simp [closed] at hopen'
  | noReboot c path contents s =>
      exact hnone _ ((replied_data _ _).trans hidle) (congrArg _ (replied_timers _ _))

/-! ## The calls are paths -/

section

variable {P : Platform} {c : Connection}

theorem self_alive (halive : c.deleted = false) : self c = .ok c c := by
  show (if c.deleted then throw .useAfterFree else pure c : Call Connection) c = _
  rw [if_neg (by simp [halive])]
  rfl

theorem leads_self {R : Connection → Connection → Prop} {β : Type} {f : Connection → Call β}
    {Q : β → Connection → Prop} {F : Fault → Connection → Connection → Prop}
    (halive : c.deleted = false) (h : Leads R (f c) c Q F) : Leads R (self >>= f) c Q F := by
  refine Leads.bind (M := fun a s' => a = c ∧ s' = c) ?_ ?_
  · refine ensures_self.mpr ?_
    rw [halive]
    exact ⟨.refl, rfl, rfl⟩
  · rintro a s' - ⟨rfl, rfl⟩
    exact h

theorem setData_self {h : DataEventHandler} (hdata : c.mDataEventHandler = some h) :
    c.setData h c.io = c := by
  unfold setData
  rw [← hdata]

theorem recv_busy {io : Io} (hopen : c.mClosed = false) (hpath : ReflTransGen RecvStep c.io io) :
    ReflTransGen (Busy P) c (c.setIo io) := by
  have hwork : ∀ io io', RecvStep io io' → Busy P (c.setIo io) (c.setIo io') := by
    intro io io' hstep
    refine ⟨⟨.recv (c.setIo io) io' hopen hstep, fun _ => hopen⟩, fun _ => ⟨hopen, ?_⟩⟩
    exact congrArg (·.length + c.credit) hstep.timers
  have hlift := hpath.lift (fun io => c.setIo io) hwork
  exact hlift

theorem push_busy {h h' : PushFileEventHandler} {io : Io} (hopen : c.mClosed = false)
    (hpath : ReflTransGen PushFileEventHandler.PushStep (h, c.io) (h', io)) :
    ReflTransGen (Busy P) (c.setData (.push h) c.io) (c.setData (.push h') io) :=
  hpath.lift (fun s => c.setData (.push s.1) s.2) fun s s' hstep =>
    ⟨⟨.push (c.setData (.push s.1) s.2) s.1 s'.1 s'.2 rfl hstep, fun _ => hopen⟩,
      fun _ => ⟨hopen, congrArg List.length hstep.timers⟩⟩

/-- An event for an open data handler. -/
theorem dataEvent_leads (hs : c.Sound) (desc : PollDesc) {h : DataEventHandler}
    (hdata : c.mDataEventHandler = some h) (hopen : h.closed = false) :
    Ensures (onIo (h.handleEvent desc)) c
      (fun h' c' => ∃ io, c' = c.setIo io ∧ ReflTransGen (Busy P) c (c.setData h' io) ∧
        io.backlog ≤ c.io.backlog)
      (fun _ _ => False) := by
  have hc := setData_self hdata
  have hstay := hs.open_of_busy hdata
  unfold onIo
  rw [ensures_zoom]
  cases h with
  | pull h =>
      have hspec := PullFileEventHandler.handleEvent_spec desc c.io (hs.data _ hdata) hopen
      unfold DataEventHandler.handleEvent
      rw [ensures_map]
      cases hrun : h.handleEvent desc c.io with
      | ok h' io =>
          rw [ensures_ok hrun] at hspec ⊢
          have hcredit : c.credit = 0 := by
            unfold Connection.credit
            rw [hdata]
            rfl
          have hinStep : InStep c (c.setData (.pull h') io) := by
            refine fun _ => ⟨hstay, ?_⟩
            rw [hcredit]
            exact congrArg List.length hspec.1.timers
          exact ⟨io, rfl,
            .single ⟨⟨.pull c desc h h' io hdata hopen hrun, fun _ => hstay⟩, hinStep⟩,
            Nat.le_of_eq hspec.1.backlog⟩
      | error e io =>
          rw [ensures_error hrun] at hspec
          exact hspec.elim
  | push h =>
      unfold DataEventHandler.handleEvent
      rw [ensures_map]
      refine (PushFileEventHandler.handleEvent_spec desc (hs.data _ hdata) hopen).mono ?_
        (fun _ _ => False.elim)
      rintro h' io ⟨hpath, hle⟩
      refine ⟨io, rfl, ?_, hle⟩
      have hlift := push_busy (P := P) (c := c) hstay hpath
      rwa [hc] at hlift
  -- a subprocess does not look at events, but at its timer
  | subprocess h => exact ⟨c.io, rfl, hc.symm ▸ .refl, Nat.le_refl _⟩

/-- How `checkDataEventHandler` ends: the data handler is still open, there was
nothing to do, or it has just been released. -/
inductive Checked (desc : PollDesc) (c : Connection) : Bool → Connection → Prop
  | busy (c' : Connection) (h : DataEventHandler) (hdata : c'.mDataEventHandler = some h)
      (hopen : h.closed = false) : Checked desc c true c'
  | nothing (h : c.mClosed = true ∨ c.mDataEventHandler = none) : Checked desc c false c
  | released (c' : Connection) (t : List Event) (hopen : c'.mClosed = false)
      (hidle : c'.mDataEventHandler = none)
      (htrace : c'.trace = t ++ [.release (resumes desc c')]) : Checked desc c false c'

theorem checkDataEventHandler_leads (hs : c.Sound) (desc : PollDesc) :
    Leads (Busy P) (checkDataEventHandler desc) c
      (fun b c' => Checked desc c b c' ∧ c'.io.backlog ≤ c.io.backlog) (fun _ _ _ => False) := by
  unfold checkDataEventHandler
  refine leads_self hs.alive ?_
  split
  · rename_i h hopen hdata
    refine Ensures.bind (M := fun h' c' => ∃ io, c' = c.setIo io ∧
      ReflTransGen (Busy P) c (c.setData h' io) ∧ io.backlog ≤ c.io.backlog) ?_ ?_
    · unfold ifOpen
      split
      · refine ⟨c.io, rfl, ?_, Nat.le_refl _⟩
        rw [setData_self hdata]
      · rename_i hrun
        exact (dataEvent_leads hs desc hdata (by simpa using hrun)).mono (fun _ _ => id)
          (fun _ _ => False.elim)
    · rintro h' _ ⟨io, rfl, hpath, hle⟩
      rw [ensures_bind, ensures_modify]
      split
      -- the event has closed the data handler: it is released, and its prompt is sent
      · rename_i hclosed
        have hstep := Step.release (P := P) (c.setData h' io) h'
          (resumes desc (c.setIo (writePrompt [] io))) hopen rfl hclosed
        rw [ensures_bind, sendPrompt, modifyIo, ensures_modify, ensures_bind, ensures_self,
          if_neg (by simpa [Connection.setIo] using hs.alive)]
        have hinStep : InStep (c.setData h' io)
            ((c.setData h' io).released (resumes desc (c.setIo (writePrompt [] io)))
              (writePrompt [] io)) := by
          refine fun _ => ⟨hopen, ?_⟩
          have hcredit : (c.setData h' io).credit = 0 := DataEventHandler.credit_closed hclosed
          rw [hcredit]
          exact congrArg List.length (writePrompt_timers [] io)
        refine ⟨hpath.tail ⟨⟨hstep, fun _ => hopen⟩, hinStep⟩,
          .released _ (writePrompt [] io).trace hopen rfl rfl, ?_⟩
        exact (writePrompt_sameInput [] io).backlog ▸ hle
      · rename_i hrun
        exact ⟨hpath, .busy _ h' rfl (by simpa using hrun), hle⟩
  · rename_i hnot
    -- no data handler, or the handler is closed itself
    refine leads_pure ⟨.nothing ?_, Nat.le_refl _⟩
    cases hclosed : c.mClosed with
    | true => exact Or.inl rfl
    | false =>
        cases hdata : c.mDataEventHandler with
        | none => exact Or.inr rfl
        | some h => exact absurd hdata (hnot h hclosed)

/-! ### The loops -/

/-- `quit` has been dispatched. -/
def QuitSeen (P : Platform) (c : Connection) : Prop :=
  ∃ line, .handleLine line ∈ c.trace ∧ lineKind P line = .quit

theorem replied_trace (result : Bytes) (c : Connection) : c.trace <+: (replied result c).trace := by
  unfold replied
  split
  · show c.io.trace <+: (writePrompt (result ++ endl) c.io).trace
    rcases writePrompt_cases (result ++ endl) c.io with ⟨-, heq⟩ | ⟨-, io', hwrote, heq⟩
    · exact heq.symm ▸ List.prefix_rfl
    · obtain ⟨es, htrace, -⟩ := hwrote.frame.trace
      rw [heq, Io.log_trace, htrace, List.append_assoc]
      exact List.prefix_append _ _
  · exact List.prefix_rfl

theorem closed_trace (c : Connection) : c.trace <+: (closed c).trace := by
  show c.io.trace <+: (BufferedSocket.close c.io).trace
  unfold BufferedSocket.close
  split
  · exact List.prefix_rfl
  · exact List.prefix_append _ _

theorem dropped_trace (c : Connection) : c.trace <+: c.dropped.trace := by
  unfold dropped
  split
  · exact List.prefix_append _ _
  · exact List.prefix_rfl

/-- Handling a line only adds to the trace. -/
theorem Performed.trace_grows {k : LineKind} {c' : Connection} (h : Performed P k c c') :
    c.trace <+: c'.trace := by
  have hpopen : ∀ {cmdLine : Bytes} {env : List (Bytes × Bytes)} {h : SubprocessEventHandler}
      {io : Io}, SubprocessEventHandler.new P cmdLine env c.io = (h, io) →
      c.trace <+: io.trace := by
    intro cmdLine env h io hnew
    obtain ⟨os, vars, ok, -, heq⟩ := SubprocessEventHandler.new_spec P cmdLine env c.io
    obtain ⟨-, rfl⟩ := Prod.mk.inj (hnew.symm.trans heq)
    cases ok <;> exact List.prefix_append _ _
  cases h with
  | empty => exact List.prefix_rfl
  | answer c result r s => exact replied_trace r (c.setSystem s)
  | pull c path start size includeHeader h io hnew =>
      have hframe := PullFileEventHandler.new_frame path start size includeHeader c.io
      rw [hnew] at hframe
      exact hframe.trace_grows.trans (List.prefix_append _ _)
  | push c path size h io hnew =>
      have hframe := PushFileEventHandler.new_frame path size c.io
      rw [hnew] at hframe
      have hopened : c.trace <+: c.trace ++ [.openWrite path c.io.os.check.1] :=
        List.prefix_append _ _
      exact (hopened.trans hframe.trace_grows).trans (List.prefix_append _ _)
  | exec c args cmdLine env h io hparse hnew => exact (hpopen hnew).trans (List.prefix_append _ _)
  | noExec c args cmdLine env h io hparse hnew => exact (hpopen hnew).trans (replied_trace _ (c.setIo io))
  | quit => exact (closed_trace c).trans (replied_trace _ _)
  | noReboot c path contents s =>
      have hlog : c.trace <+: c.trace ++ [.openRebootFile path false] := List.prefix_append _ _
      exact hlog.trans (replied_trace _ ((c.setSystem s).log (.openRebootFile path false)))

/-- Every step only adds to the trace. -/
theorem Step.trace_grows {c' : Connection} (h : Step P c c') (hs : c.Sound) :
    c.trace <+: c'.trace := by
  cases h with
  | recv io hopen hstep => exact hstep.trace_grows
  | line c' raw b hopen hidle hraw hget hline =>
      have hread : c.trace <+: c.trace ++ [.readLine raw] ++ [.handleLine (trim raw)] :=
        (List.prefix_append _ _).trans (List.prefix_append _ _)
      exact hread.trans hline.trace_grows
  | push h h' io hdata hstep => exact hstep.trace_grows
  | pull desc h h' io hdata hopen hrun =>
      have hspec := PullFileEventHandler.handleEvent_spec desc c.io (hs.data _ hdata) hopen
      exact ((ensures_ok hrun).mp hspec).1.trace_grows
  | release h resumes =>
      have hprompt : c.trace <+: (writePrompt [] c.io).trace := by
        rcases writePrompt_cases [] c.io with ⟨-, heq⟩ | ⟨-, io', hwrote, heq⟩
        · exact heq.symm ▸ List.prefix_rfl
        · rw [heq]
          exact hwrote.frame.trace_grows.trans (List.prefix_append _ _)
      exact hprompt.trans (List.prefix_append _ _)
  | tick h hdata => exact h.tick_prefix P (hs.data _ hdata) c.io
  | eof =>
      refine List.IsPrefix.trans ?_ (closed_trace c.dropped)
      unfold dropped
      split
      · exact List.prefix_append _ _
      · exact List.prefix_rfl
  | wait => exact List.prefix_rfl

/-- Among the lines that return, only `quit` closes the handler. -/
theorem Performed.quit_seen {line : Bytes} {c' : Connection}
    (h : Performed P (lineKind P line) c c') (hopen : c.mClosed = false)
    (hline : .handleLine line ∈ c.trace) (hclosed : c'.mClosed = true) : QuitSeen P c' := by
  generalize hk : lineKind P line = k at h
  cases h with
  | quit =>
      exact ⟨line, (replied_trace _ _).subset ((closed_trace c).subset hline), hk⟩
  | _ =>
      simp [attached, Connection.setSystem, Connection.log, Connection.setIo, hopen] at hclosed

/-- How the inner loop ends: it has closed the handler or attached a data handler,
or there is no more to read. -/
inductive LinesRead (P : Platform) (c : Connection) : Bool → Connection → Prop
  | busy (c' : Connection)
      (h : c'.mClosed = true ∧ QuitSeen P c' ∨ c'.mClosed = false ∧ c'.mDataEventHandler ≠ none)
      (hless : c.mClosed = false → c.mDataEventHandler = none → c'.io.backlog < c.io.backlog) :
      LinesRead P c false c'
  | noMore (c' : Connection) (hopen : c'.mClosed = false) (hidle : c'.mDataEventHandler = none)
      (hline : FirstLineFits c'.unread → firstLine c'.unread = none) : LinesRead P c true c'

theorem readLine_ensures (c : Connection) :
    Ensures readLine c
      (fun r c' => ∃ io b, ReflTransGen RecvStep c.io io ∧
        io.sock.mReadBuffer.getline = some (r.1, r.2, b) ∧
        c' = c.setIo (if r.2 = 0 then io.setBuffer b else (io.setBuffer b).log (.readLine r.1)) ∧
        r.1.length + c'.io.backlog ≤ c.io.backlog)
      (fun e c' => e = .crash .undefined ∧ c' = c) := by
  cases hread : BufferedSocket.readLine c.io with
  | none =>
      have hrun : readLine c = .error (.crash .undefined) c := by simp only [readLine, hread]
      exact (ensures_error hrun).mpr ⟨rfl, rfl⟩
  | some r =>
      obtain ⟨raw, len, io'⟩ := r
      have hrun : readLine c = .ok (raw, len) (c.setIo io') := by simp only [readLine, hread]
      obtain ⟨io, b, hpath, hget, rfl, hle⟩ := readLine_spec hread
      exact (ensures_ok hrun).mpr ⟨io, b, hpath, hget, rfl, hle⟩

theorem no_line_left {io : Io} {b : ReadBuffer} {raw : Bytes}
    (hget : io.sock.mReadBuffer.getline = some (raw, 0, b)) :
    raw = [] ∧ b.unread = io.unread ∧
      (FirstLineFits b.unread → firstLine b.unread = none) := by
  obtain ⟨hsplit, hlen⟩ := ReadBuffer.getline_unread _ hget
  obtain rfl : raw = [] := List.eq_nil_of_length_eq_zero (by omega)
  have hsame : b.unread = io.unread := hsplit
  refine ⟨rfl, hsame, fun hfits => ?_⟩
  have hfits' : FirstLineFits io.unread := hsame ▸ hfits
  obtain ⟨b', ⟨hnone, -, -⟩ | ⟨line, hline, hget'⟩⟩ := io.sock.mReadBuffer.getline_firstLine hfits'
  · exact (congrArg firstLine hsame).trans hnone
  · obtain ⟨rfl, -, -⟩ : [] = line ∧ _ ∧ _ := by simpa using hget.symm.trans hget'
    exact absurd rfl (splitAfter_ne_nil hline)

/-- Every round of the inner loop but the last takes a byte from the input. -/
theorem lineLoop_leads {fuel : Nat} (hs : c.Sound) (hfuel : c.io.backlog < fuel)
    (hquit : c.mClosed = true → QuitSeen P c) :
    Leads (Busy P) (lineLoop P fuel) c
      (fun b c' => LinesRead P c b c' ∧ c'.io.backlog ≤ c.io.backlog) (Failing P) := by
  induction fuel generalizing c with
  | zero => omega
  | succ fuel ih =>
      rw [lineLoop]
      refine leads_self hs.alive ?_
      cases hopen : c.mClosed with
      | true =>
          exact leads_pure ⟨.busy c (Or.inl ⟨hopen, hquit hopen⟩) (by simp [hopen]),
            Nat.le_refl _⟩
      | false =>
          cases hidle : c.mDataEventHandler with
          | some h =>
              exact leads_pure ⟨.busy c (Or.inr ⟨hopen, by simp [hidle]⟩) (by simp [hidle]),
                Nat.le_refl _⟩
          | none =>
              -- the loop goes on: first `readLine`, which a line too long to count stops
              refine Ensures.bind ((readLine_ensures c).mono (fun _ _ => id) ?_) ?_
              · rintro e c' ⟨rfl, rfl⟩
                exact ⟨c', .refl, .overlong c'⟩
              · rintro ⟨raw, len⟩ c' ⟨io, b, hrecv, hget, rfl, hle⟩
                have hpath := recv_busy (P := P) hopen hrecv
                dsimp only at hget hle ⊢
                split
                · -- no more to read
                  rename_i hlen
                  subst hlen
                  rw [if_pos rfl] at hle
                  obtain ⟨-, hsame, hline⟩ := no_line_left hget
                  have hquiet : Busy P (c.setIo io) (c.setIo (io.setBuffer b)) :=
                    ⟨⟨.recv _ _ hopen (.quiet io io.os b hsame), fun _ => hopen⟩,
                      fun _ => ⟨hopen, rfl⟩⟩
                  exact ⟨hpath.tail hquiet, .noMore _ hopen hidle hline, by omega⟩
                · -- a line
                  rename_i hlen
                  rw [if_neg hlen] at hle
                  obtain ⟨hsplit, rfl⟩ := ReadBuffer.getline_unread _ hget
                  have hraw : raw ≠ [] := by
                    rintro rfl
                    exact hlen rfl
                  have hpos := List.length_pos_of_ne_nil hraw
                  refine Ensures.bind ((handleLine_spec P (c := c.setIo ((io.setBuffer b).log
                    (.readLine raw))) hs.alive (trim raw)).mono (fun _ _ => id) ?_) ?_
                  · exact fun e c' hfail => ⟨c.setIo io, hpath,
                      .line (c.setIo io) c' raw b e hopen hidle hraw hget hfail⟩
                  · rintro - c' hline
                    have hstep := Step.line (P := P) (c.setIo io) c' raw b hopen hidle hraw
                      hget hline
                    have hsame := hline.sameInput.backlog
                    have hinStep : InStep (c.setIo io) c' :=
                      InStep.trans (fun _ => ⟨hopen, rfl⟩)
                        (hline.inStep (c := (c.setIo io).handling raw b) hopen hidle)
                    have hpath' := hpath.tail
                      ⟨⟨hstep, fun hdata => absurd hidle hdata⟩, hinStep⟩
                    have hback : c'.io.backlog + raw.length ≤ c.io.backlog := by
                      rw [hsame]
                      exact Nat.add_comm _ _ ▸ hle
                    -- the line has been taken from the input, so there is fuel for the next round
                    refine ((ih (sound_path (Busy.path hpath') hs) (by omega) (hline.quit_seen
                      (c := (c.setIo io).handling raw b) hopen
                      (List.mem_append_right _ (List.mem_singleton_self _)))).mono ?_
                      (fun _ _ _ => id)).after hpath'
                    rintro more c'' - ⟨hread, hle'⟩
                    refine ⟨?_, by omega⟩
                    cases hread with
                    | busy c'' h hless => exact .busy c'' h fun _ _ => by omega
                    | noMore c'' hopen' hidle' hline' => exact .noMore c'' hopen' hidle' hline'

/-- How the outer loop ends. -/
inductive Ended (P : Platform) (c : Connection) : Connection → Prop
  | quit (c' : Connection) (h : c'.mClosed = true) (hquit : QuitSeen P c') : Ended P c c'
  | busy (c' : Connection) (h : DataEventHandler) (hdata : c'.mDataEventHandler = some h)
      (hopen : h.closed = false) : Ended P c c'
  /-- nothing was to be done -/
  | nothing (hidle : c.mDataEventHandler = none) : Ended P c c
  /-- the data handler has been released, and no lines are read behind it -/
  | released (c' : Connection) (t : List Event) (hidle : c'.mDataEventHandler = none)
      (htrace : c'.trace = t ++ [.release false]) : Ended P c c'
  | noMore (c' : Connection) (hidle : c'.mDataEventHandler = none)
      (hline : FirstLineFits c'.unread → firstLine c'.unread = none) : Ended P c c'

theorem Ended.from_busy {c₁ c₂ : Connection} (h : Ended P c₁ c₂)
    (hbusy : c₁.mClosed = true ∧ QuitSeen P c₁ ∨
      c₁.mClosed = false ∧ c₁.mDataEventHandler ≠ none) : Ended P c c₂ := by
  cases h with
  | quit _ h hquit => exact .quit c₂ h hquit
  | busy _ h hdata hopen => exact .busy c₂ h hdata hopen
  | nothing hidle =>
      rcases hbusy with ⟨hclosed, hquit⟩ | ⟨-, hdata⟩
      · exact .quit c₁ hclosed hquit
      · exact absurd hidle hdata
  | released _ t hidle htrace => exact .released c₂ t hidle htrace
  | noMore _ hidle hline => exact .noMore c₂ hidle hline

/-- Every round of the outer loop but the last dispatches a line. -/
theorem eventLoop_leads {desc : PollDesc} {fuel : Nat} (hs : c.Sound)
    (hfuel : c.io.backlog + 1 < fuel) :
    Leads (Busy P) (eventLoop P desc fuel) c (fun _ c' => Ended P c c') (Failing P) := by
  induction fuel generalizing c with
  | zero => omega
  | succ fuel ih =>
      rw [eventLoop]
      refine leads_self hs.alive ?_
      split
      · rename_i hclosed
        exact leads_pure (.nothing (hs.idle hclosed))
      · rename_i hopen
        rw [Bool.not_eq_true] at hopen
        refine Leads.bind ((checkDataEventHandler_leads hs desc).mono (fun _ _ _ => id)
          (fun _ _ _ => False.elim)) ?_
        rintro b c₁ hpath ⟨hchecked, hle⟩
        have hs₁ := sound_path (Busy.path hpath) hs
        cases b with
        | true =>
            cases hchecked with
            | busy _ h hdata hrun => exact leads_pure (.busy _ h hdata hrun)
        | false =>
          refine leads_self hs₁.alive ?_
          have hidle : c₁.mClosed = false ∧ c₁.mDataEventHandler = none := by
            cases hchecked with
            | nothing h => exact ⟨hopen, h.resolve_left (by simp [hopen])⟩
            | released _ t hopen' hidle => exact ⟨hopen', hidle⟩
          split
          · rename_i hstop
            rw [Bool.not_eq_true'] at hstop
            refine leads_pure ?_
            cases hchecked with
            | nothing h => exact .nothing hidle.2
            | released _ t hopen' hidle htrace => exact .released _ t hidle (hstop ▸ htrace)
          · refine Leads.bind (lineLoop_leads hs₁ (Nat.lt_succ_self _) (by simp [hidle.1])) ?_
            rintro more c₂ hpath₂ ⟨hread, hle₂⟩
            -- the loop goes on only where a line has been taken, and with it some input
            cases hread with
            | noMore _ hopen' hidle' hline => exact leads_pure (.noMore c₂ hidle' hline)
            | busy _ hbusy hless =>
                have hdec := hless hidle.1 hidle.2
                exact (ih (sound_path (Busy.path hpath₂) hs₁) (by omega)).mono
                  (fun _ _ _ hend => hend.from_busy hbusy) (fun _ _ _ => id)

theorem closeAtEof_eq (halive : c.deleted = false) :
    closeAtEof c = .ok () (if c.io.sock.mRecvClosed then closed c.dropped else c) := by
  obtain ⟨⟨⟨socket, buffer, recvClosed, sendClosed⟩, os, t, timers⟩, data, isClosed, deleted⟩ := c
  obtain rfl : deleted = false := halive
  cases recvClosed <;> cases data <;> rfl

/-- A call is its loop, and then the check for EOF. -/
theorem handleEvent_eq (halive : c.deleted = false) (desc : PollDesc) :
    handleEvent P desc c = (eventLoop P desc (c.io.backlog + 2) >>= fun _ => closeAtEof) c :=
  bind_ok (self_alive halive)

/-- How a call ends: the receive side is open, or the handler has been closed. -/
inductive Settled (P : Platform) (c : Connection) : Connection → Prop
  | running (c' : Connection) (hend : Ended P c c') (hrecv : c'.io.sock.mRecvClosed = false) :
      Settled P c c'
  | eof (c' : Connection) (hend : Ended P c c') (hrecv : c'.io.sock.mRecvClosed = true) :
      Settled P c (closed c'.dropped)

theorem handleEvent_leads (hs : c.Sound) (desc : PollDesc) :
    Leads (fun c c' => Step P c c' ∧ InStep c c') (handleEvent P desc) c
      (fun _ c' => Settled P c c') (Failing P) := by
  unfold handleEvent
  refine leads_self hs.alive ?_
  refine Leads.bind ((eventLoop_leads hs (Nat.lt_succ_self _)).of_finer
    fun _ _ hbusy => ⟨hbusy.work.step, hbusy.2⟩) ?_
  rintro - c₁ hpath hend
  have hs₁ := sound_path (ReflTransGen.mono (fun _ _ h => h.1) _ _ hpath) hs
  refine Leads.of_ensures ((ensures_ok (closeAtEof_eq hs₁.alive)).mpr ?_)
  cases hrecv : c₁.io.sock.mRecvClosed with
  | true => exact ⟨.single ⟨.eof c₁ hrecv, nofun⟩, .eof c₁ hend hrecv⟩
  | false => exact ⟨.refl, .running c₁ hend hrecv⟩

/-! ### Timers -/

/-- A timer for an open data handler. -/
theorem dataTimeout_leads (hs : c.Sound) {h : DataEventHandler}
    (hdata : c.mDataEventHandler = some h) (hopen : h.closed = false) :
    Ensures (onIo (h.handleTimeout P)) c
      (fun h' c' => ∃ io, c' = c.setIo io ∧ ReflTransGen (Work P) c (c.setData h' io) ∧
        io.sock.mRecvClosed = c.io.sock.mRecvClosed ∧
        io.timers.length = c.io.timers.length + h'.credit)
      (fun _ _ => False) := by
  have hc := setData_self hdata
  unfold onIo
  rw [ensures_zoom]
  cases h with
  | pull h => exact ⟨c.io, rfl, hc.symm ▸ .refl, rfl, rfl⟩
  | push h => exact ⟨c.io, rfl, hc.symm ▸ .refl, rfl, rfl⟩
  | subprocess h =>
      unfold DataEventHandler.handleTimeout
      rw [ensures_map, ensures_ok (h.handleTimeout_eq P (hs.data _ hdata) c.io)]
      exact ⟨_, rfl, .single ⟨.tick c h hdata hopen, fun _ => hs.open_of_busy hdata⟩,
        h.tick_recvClosed P c.io, h.tick_timers P c.io⟩

/-- A timer leaves one behind exactly if a subprocess still runs. -/
theorem handleTimeout_leads (hs : c.Sound) :
    Leads (Work P) (handleTimeout P) c
      (fun _ c' => Ended P c c' ∧ c'.io.sock.mRecvClosed = c.io.sock.mRecvClosed ∧
        c.mClosed = false ∧ c'.io.timers.length = c.io.timers.length + c'.credit)
      (Failing P) := by
  unfold handleTimeout
  refine leads_self hs.alive ?_
  split
  · rename_i hidle
    -- the timer outlived the data handler that had set it
    exact leads_throw (.noData c hidle)
  · rename_i h hdata
    have hopen := hs.open_of_busy hdata
    refine Ensures.bind (M := fun h' c' => ∃ io, c' = c.setIo io ∧
      ReflTransGen (Work P) c (c.setData h' io) ∧
      io.sock.mRecvClosed = c.io.sock.mRecvClosed ∧
      io.timers.length = c.io.timers.length + h'.credit) ?_ ?_
    · unfold ifOpen
      split
      · rename_i hclosed
        refine ⟨c.io, rfl, ?_, rfl, ?_⟩
        · rw [setData_self hdata]
        · rw [DataEventHandler.credit_closed hclosed]
          rfl
      · rename_i hrun
        exact (dataTimeout_leads hs hdata (by simpa using hrun)).mono (fun _ _ => id)
          (fun _ _ => False.elim)
    · rintro h' _ ⟨io, rfl, hpath, hrecv, htimers⟩
      rw [ensures_bind, ensures_modify]
      split
      · rename_i hclosed
        have hstep := Step.release (P := P) (c.setData h' io) h' false hopen rfl hclosed
        have hprompt : (writePrompt [] io).sock.mRecvClosed = io.sock.mRecvClosed := by
          rcases writePrompt_cases [] io with ⟨-, heq⟩ | ⟨-, io', hwrote, heq⟩
          · rw [heq]
          · rw [heq]
            exact hwrote.recvClosed
        refine ⟨hpath.tail ⟨hstep, fun _ => hopen⟩, .released _ (writePrompt [] io).trace rfl rfl,
          hprompt.trans hrecv, hopen, ?_⟩
        rw [DataEventHandler.credit_closed hclosed] at htimers
        exact (congrArg List.length (writePrompt_timers [] io)).trans htimers
      · rename_i hrun
        exact ⟨hpath, .busy _ h' rfl (by simpa using hrun), hrecv, hopen, htimers⟩

end

end CommandEventHandler

end Negatus
