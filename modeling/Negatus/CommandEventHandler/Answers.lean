import Negatus.CommandEventHandler.Prompts
import Negatus.DataHandler.Transfer

/-!
# The answer to a pull

A pull is answered by everything that is sent between its line and the next
prompt. `Answering` is what the trace says about the line that is being
answered; while all sends are accepted in full, it agrees with the data handler.
-/

namespace Negatus

open Foundations BufferedSocket Relation

/-- The line that was dispatched last, with the events since, unless it has its prompt. -/
abbrev Answering : Type := Option (Bytes × List Event)

def Answering.enter : Answering → Event → Answering
  | _, .handleLine line => some (line, [])
  | _, .prompt => none
  | a, e => a.map fun (line, es) => (line, es ++ [e])

def answering (t : List Event) : Answering := t.foldl Answering.enter none

theorem answering_append (t es : List Event) :
    answering (t ++ es) = es.foldl Answering.enter (answering t) := List.foldl_append

/-- No line is dispatched. -/
def NoLine (es : List Event) : Prop := ∀ line, .handleLine line ∉ es

/-- Calls between a line and its prompt. -/
theorem answering_between {line : Bytes} {t es : List Event} (hline : NoLine es)
    (hprompt : .prompt ∉ es) :
    es.foldl Answering.enter (some (line, t)) = some (line, t ++ es) := by
  induction es generalizing t with
  | nil => rw [List.foldl_nil, List.append_nil]
  | cons e es ih =>
      have hline' : NoLine es := fun line h => hline line (List.mem_cons_of_mem _ h)
      have hprompt' : .prompt ∉ es := fun h => hprompt (List.mem_cons_of_mem _ h)
      have hstep : Answering.enter (some (line, t)) e = some (line, t ++ [e]) := by
        cases e with
        | handleLine line => exact absurd List.mem_cons_self (hline line)
        | prompt => exact absurd List.mem_cons_self hprompt
        | _ => rfl
      rw [List.foldl_cons, hstep, ih hline' hprompt', List.append_assoc]
      rfl

/-- A step that receives, reads or answers, but does not dispatch. -/
theorem noLine_of_reading {t u rs : List Event} (hpre : t <+: u)
    (hreading : reading u = reading t ++ rs) (hrs : NoLine rs) :
    ∃ es, u = t ++ es ∧ NoLine es := by
  obtain ⟨es, rfl⟩ := hpre
  refine ⟨es, rfl, fun line hmem => ?_⟩
  rw [reading_append, List.append_cancel_left_eq] at hreading
  apply hrs line
  rw [← hreading]
  exact List.mem_filter.mpr ⟨hmem, rfl⟩

theorem noLine_of_calm {es : List Event} (hes : ∀ e ∈ es, e.isCalm = true) : NoLine es := by
  intro line hmem
  have hcalm := hes _ hmem
  cases hcalm

theorem noPrompt_of_calm {es : List Event} (hes : ∀ e ∈ es, e.isCalm = true) : .prompt ∉ es := by
  intro hmem
  have hcalm := hes _ hmem
  cases hcalm

namespace CommandEventHandler

open Connection (handling setData released dropped meanwhile)

section

variable {P : Platform} {c c' : Connection}

/-- It is not a pull that is being answered. -/
def NoPull (P : Platform) (a : Answering) : Prop :=
  ∀ line es, a = some (line, es) → ∀ path start size, lineKind P line ≠ .pull path start size true

/-- No line is dispatched before a pull has its prompt, which comes when the
transfer has ended. -/
def PullAnswered (P : Platform) (a : Answering) : Event → Prop
  | .handleLine _ => NoPull P a
  | .prompt => ∀ line es, a = some (line, es) →
      ∀ path start size, lineKind P line = .pull path start size true →
        ∃ h t, h.mClosed = true ∧ PullFileEventHandler.Transfer path start size h t ∧
          es = t ++ [.send (mPrompt ++ [0]) 3]
  | _ => True

/-- The pull that is being answered is attached, and has sent what it says. -/
def Underway (P : Platform) (c : Connection) : Prop :=
  NoPull P (answering c.trace) ∨ ∃ line es path start size h,
    answering c.trace = some (line, es) ∧ lineKind P line = .pull path start size true ∧
      c.mDataEventHandler = some (.pull h) ∧
      PullFileEventHandler.Transfer path start size h es

structure Answers (P : Platform) (c : Connection) : Prop where
  lawful : Along (PullAnswered P) Answering.enter none c.trace
  underway : c.mClosed = false → Underway P c

theorem answered_append {t es : List Event} :
    Along (PullAnswered P) Answering.enter none (t ++ es) ↔
      Along (PullAnswered P) Answering.enter none t ∧
        Along (PullAnswered P) Answering.enter (answering t) es :=
  along_append

theorem noPull_none : NoPull P none := fun _ _ h => nomatch h

/-- As long as no pull is being answered, anything but a line may happen. -/
theorem NoPull.along {a : Answering} (h : NoPull P a) {es : List Event} (hes : NoLine es) :
    Along (PullAnswered P) Answering.enter a es ∧ NoPull P (es.foldl Answering.enter a) := by
  induction es generalizing a with
  | nil => exact ⟨along_nil, h⟩
  | cons e es ih =>
      have hes' : NoLine es := fun line hmem => hes line (List.mem_cons_of_mem _ hmem)
      have hallowed : PullAnswered P a e := by
        cases e with
        | prompt =>
            intro line es' ha path start size hkind
            exact absurd hkind (h line es' ha path start size)
        | handleLine line => exact h
        | _ => trivial
      have hnext : NoPull P (a.enter e) := by
        cases e with
        | prompt => exact noPull_none
        | handleLine line => exact absurd List.mem_cons_self (hes line)
        | _ =>
            intro line es' ha
            obtain ⟨⟨line', es''⟩, hold, heq⟩ := Option.map_eq_some_iff.mp ha
            obtain ⟨rfl, -⟩ := Prod.mk.inj heq
            exact h _ _ hold
      obtain ⟨hrest, hend⟩ := ih hnext hes'
      exact ⟨⟨hallowed, hrest⟩, hend⟩

/-- Calls between a line and its prompt are lawful. -/
theorem between_along {a : Answering} {es : List Event} (hline : NoLine es)
    (hprompt : .prompt ∉ es) : Along (PullAnswered P) Answering.enter a es := by
  induction es generalizing a with
  | nil => exact along_nil
  | cons e es ih =>
      refine ⟨?_, ih (fun line h => hline line (List.mem_cons_of_mem _ h))
        (fun h => hprompt (List.mem_cons_of_mem _ h))⟩
      cases e with
      | handleLine line => exact absurd List.mem_cons_self (hline line)
      | prompt => exact absurd List.mem_cons_self hprompt
      | _ => trivial

/-! ## Which steps dispatch -/

theorem Performed.noLine {k : LineKind} (h : Performed P k c c') (hopen : c.mClosed = false)
    (hidle : c.mDataEventHandler = none) : ∃ es, c'.trace = c.trace ++ es ∧ NoLine es := by
  obtain ⟨rs, busy, mode, hopened, heq⟩ := performed_reader h hopen hidle
  exact noLine_of_reading h.trace_grows (congrArg Reader.trace heq) hopened.no_line

/-- Only a line step dispatches, one line. -/
theorem Step.noLine (h : Step P c c') (hs : c.Sound) :
    (∃ es, c'.trace = c.trace ++ es ∧ NoLine es) ∨
      ∃ raw b, c.mClosed = false ∧ c.mDataEventHandler = none ∧ raw.length < 2 ^ 31 ∧
        Performed P (lineKind P (trim raw)) (c.handling raw b) c' := by
  have hpre := h.trace_grows hs
  cases h with
  | recv io hopen hstep =>
      obtain ⟨⟨es, htrace, hes⟩, -⟩ := recvStep_silent hstep
      exact Or.inl ⟨es, htrace, noLine_of_calm fun e he => (hes e he).1⟩
  | line c' raw b hopen hidle hraw hget hline =>
      exact Or.inr ⟨raw, b, hopen, hidle, ReadBuffer.getline_short _ hget, hline⟩
  | push h h' io hdata hstep =>
      left
      cases hstep with
      | recv h io₀ io' _ hrecv =>
          obtain ⟨⟨es, htrace, hes⟩, -⟩ := recvStep_silent hrecv
          exact ⟨es, htrace, noLine_of_calm fun e he => (hes e he).1⟩
      | chunk h io₀ bs b =>
          obtain ⟨n, htrace⟩ := h.store_trace bs ((c.io.setBuffer b).log (.read bs))
          refine ⟨[.read bs, .writeFile bs n], htrace.trans (List.append_assoc ..), ?_⟩
          exact fun line => by simp
      | finish h io' =>
          refine noLine_of_reading hpre ?_ (fun _ => List.not_mem_nil)
          rw [List.append_nil]
          exact frame_reading (h.finish_frame c.io)
  | pull desc h h' io hdata hopen hrun =>
      left
      have hspec := PullFileEventHandler.handleEvent_spec desc c.io (hs.data _ hdata) hopen
      refine noLine_of_reading hpre ?_ (fun _ => List.not_mem_nil)
      rw [List.append_nil]
      exact frame_reading ((ensures_ok hrun).mp hspec).1
  | release h resumes hopen hdata hclosed =>
      left
      have hnoLine : NoLine [.release resumes] := fun line => by simp
      refine noLine_of_reading hpre ?_ hnoLine
      rw [released_reading, writePrompt_reading]
      rfl
  | tick h hdata hopen =>
      left
      refine noLine_of_reading hpre ?_ (fun _ => List.not_mem_nil)
      rw [List.append_nil]
      exact (tick_reading h c.io).1
  | eof hrecv =>
      left
      have hdropped : reading c.dropped.trace = reading c.trace ++
          (if c.mDataEventHandler.isSome then [.release false] else []) := by
        unfold dropped
        split
        · exact released_reading false c.io c
        · exact (List.append_nil _).symm
      refine noLine_of_reading hpre ((close_reading c.dropped.io).trans hdropped) ?_
      intro line
      split <;> simp
  | wait os timers => exact Or.inl ⟨[], (List.append_nil _).symm, fun _ => List.not_mem_nil⟩

theorem recvStep_noInfo {io io' : Io} (h : RecvStep io io') {es : List Event}
    (htrace : io'.trace = io.trace ++ es) {path : Bytes} : ∀ s, .fileInfo path (some s) ∉ es := by
  intro s
  cases h with
  | quiet =>
      obtain rfl : es = [] := List.append_right_eq_self.mp htrace.symm
      exact List.not_mem_nil
  | data os bs =>
      obtain rfl : [.recv bs] = es := List.append_cancel_left htrace
      simp
  | ended os =>
      obtain ⟨-, -, -, -, -, es', hes', htrace'⟩ := closeRecv_facts ((io.setOs os).log .recvEnd)
      have hsame : io.trace ++ ([.recvEnd] ++ es') = io.trace ++ es := by
        rw [← htrace, htrace']
        exact (List.append_assoc ..).symm
      obtain rfl := List.append_cancel_left hsame
      rcases hes' with rfl | rfl <;> simp

/-- At EOF the data handler and the socket go. -/
theorem eof_trace (c : Connection) : ∃ es, (closed c.dropped).trace = c.trace ++ es ∧
    NoLine es ∧ .prompt ∉ es := by
  have hdropped : ∃ es, c.dropped.trace = c.trace ++ es ∧ NoLine es ∧ .prompt ∉ es := by
    unfold dropped
    split
    · exact ⟨[.release false], rfl, fun line => by simp, by simp⟩
    · exact ⟨[], (List.append_nil _).symm, fun line => by simp, by simp⟩
  obtain ⟨es, htrace, hline, hprompt⟩ := hdropped
  show ∃ es, (BufferedSocket.close c.dropped.io).trace = c.trace ++ es ∧ _
  unfold BufferedSocket.close
  split
  · exact ⟨es, htrace, hline, hprompt⟩
  · refine ⟨es ++ [.closeSocket], ?_, fun line => by simpa using hline line, by simpa using hprompt⟩
    show c.dropped.trace ++ [.closeSocket] = _
    rw [htrace, List.append_assoc]

/-- A closed handler stays closed and says nothing. -/
theorem Step.of_closed (h : Step P c c') (hs : c.Sound) (hclosed : c.mClosed = true) :
    c'.mClosed = true ∧ ∃ es, c'.trace = c.trace ++ es ∧ NoLine es ∧ .prompt ∉ es := by
  have hidle := hs.idle hclosed
  cases h with
  | recv io hopen => exact absurd (hopen.symm.trans hclosed) (by decide)
  | line c' raw b hopen => exact absurd (hopen.symm.trans hclosed) (by decide)
  | release h resumes hopen => exact absurd (hopen.symm.trans hclosed) (by decide)
  | push h h' io hdata => exact absurd (hidle.symm.trans hdata) (by simp)
  | pull desc h h' io hdata => exact absurd (hidle.symm.trans hdata) (by simp)
  | tick h hdata => exact absurd (hidle.symm.trans hdata) (by simp)
  | eof => exact ⟨rfl, eof_trace c⟩
  | wait os timers =>
      exact ⟨hclosed, [], (List.append_nil _).symm, fun _ => List.not_mem_nil, List.not_mem_nil⟩

/-! ## The steps answer -/

/-- A step that dispatches nothing while no pull is being answered. -/
theorem Answers.unpulled (h : Answers P c) (hnone : NoPull P (answering c.trace)) {es : List Event}
    (htrace : c'.trace = c.trace ++ es) (hes : NoLine es) : Answers P c' := by
  obtain ⟨halong, hend⟩ := hnone.along hes
  constructor
  · rw [htrace, answered_append]
    exact ⟨h.lawful, halong⟩
  · intro _
    left
    rwa [htrace, answering_append]

/-- The path of a pull comes from a line, so it is short. -/
theorem pull_path_short {raw path : Bytes} {start size : UInt64} {includeHeader : Bool}
    (hkind : lineKind P (trim raw) = .pull path start size includeHeader)
    (hraw : raw.length < 2 ^ 31) : path.length < 2 ^ 31 := by
  have harg : path ∈ (CommandLine.new (trim raw)).args := by
    unfold lineKind classify at hkind
    dsimp only at hkind
    split_ifs at hkind
    · cases hargs : (CommandLine.new (trim raw)).args with
      | nil => rw [hargs] at hkind; cases hkind
      | cons arg rest =>
          rw [hargs] at hkind
          cases hkind
          exact List.mem_cons_self
    · cases hargs : (CommandLine.new (trim raw)).args <;> rw [hargs] at hkind <;> cases hkind
    · cases hargs : (CommandLine.new (trim raw)).args with
      | nil => rw [hargs] at hkind; cases hkind
      | cons arg rest =>
          rw [hargs] at hkind
          dsimp only at hkind
          split at hkind
          · cases hkind
            exact List.mem_cons_self
          · cases hkind
    · rcases hargs : (CommandLine.new (trim raw)).args with _ | ⟨arg, _ | ⟨arg', rest⟩⟩
      · rw [hargs] at hkind; cases hkind
      · rw [hargs] at hkind; cases hkind
      · rw [hargs] at hkind
        dsimp only at hkind
        split at hkind <;> cases hkind
    · rcases hargs : (CommandLine.new (trim raw)).args with _ | ⟨a, _ | ⟨b, _ | ⟨d, rest⟩⟩⟩ <;>
        rw [hargs] at hkind <;> cases hkind
  have harg' := CommandLine.arg_length harg
  have htrim := trim_length_le raw
  omega

/-- A line that is dispatched in an idle handler. -/
theorem Performed.answers {raw : Bytes} {b : ReadBuffer}
    (hline : Performed P (lineKind P (trim raw)) (c.handling raw b) c')
    (h : Answers P c) (hopen : c.mClosed = false) (hidle : c.mDataEventHandler = none)
    (hraw : raw.length < 2 ^ 31) (hsend : c.io.sock.mSendClosed = false)
    (hfull : FullSends c'.trace) : Answers P c' := by
  have hnone : NoPull P (answering c.trace) := by
    rcases h.underway hopen with hnone | ⟨_, _, _, _, _, h', -, -, hdata, -⟩
    · exact hnone
    · exact absurd (hidle.symm.trans hdata) (by simp)
  have htrace : (c.handling raw b).trace = c.trace ++ [.readLine raw] ++ [.handleLine (trim raw)] :=
    rfl
  have hnoLine : NoLine [.readLine raw] := fun line => by simp
  obtain ⟨hread, hnone'⟩ := hnone.along hnoLine
  have hlaw : Along (PullAnswered P) Answering.enter none (c.handling raw b).trace := by
    rw [htrace, answered_append, answered_append, answering_append]
    exact ⟨⟨h.lawful, hread⟩, hnone', trivial⟩
  have hnow : answering (c.handling raw b).trace = some (trim raw, []) := by
    rw [htrace, answering_append]
    rfl
  -- only a pull with a header leaves an answer to be judged at its prompt
  by_cases hpull : ∃ path start size, lineKind P (trim raw) = .pull path start size true
  · obtain ⟨path, start, size, hkind⟩ := hpull
    rw [hkind] at hline
    cases hline with
    | pull c path start size includeHeader d io hnew =>
        have hfull' : FullSends io.trace := hfull.of_prefix (List.prefix_append _ _)
        -- the constructor sends no prompt, so the answer of the pull begins with its events
        have hframe := PullFileEventHandler.new_frame path start size true
          (c.handling raw b).io
        have hnew' := @PullFileEventHandler.new_transfer path start size (c.handling raw b).io
          (pull_path_short hkind hraw) hsend
        rw [hnew] at hnew' hframe
        obtain ⟨es, hio, htransfer⟩ := hnew' hfull'
        obtain ⟨es', hio', hcalm, -⟩ := frame_calm hframe hfull' hsend
        obtain rfl : es = es' := List.append_cancel_left (hio.symm.trans hio')
        have hnoLine : NoLine (es ++ [.attach]) := by
          intro line hmem
          rcases List.mem_append.mp hmem with hmem | hmem
          · exact noLine_of_calm hcalm line hmem
          · simp at hmem
        have hnoPrompt : .prompt ∉ es ++ [.attach] := by
          intro hmem
          rcases List.mem_append.mp hmem with hmem | hmem
          · exact noPrompt_of_calm hcalm hmem
          · simp at hmem
        have htrace' : (attached (.pull d) io (c.handling raw b)).trace =
            (c.handling raw b).trace ++ (es ++ [.attach]) := by
          show io.trace ++ [.attach] = _
          rw [hio, List.append_assoc]
          rfl
        constructor
        · rw [htrace', answered_append]
          exact ⟨hlaw, between_along hnoLine hnoPrompt⟩
        · intro _
          right
          refine ⟨trim raw, es ++ [.attach], path, start, size, d, ?_, hkind, rfl, ?_⟩
          · rw [htrace', answering_append, hnow, answering_between hnoLine hnoPrompt]
            rfl
          · exact htransfer.append rfl (by simp)
  · have hquiet : Answers P (c.handling raw b) := by
      refine ⟨hlaw, fun _ => Or.inl ?_⟩
      rw [hnow]
      rintro line es heq path start size hkind
      obtain ⟨rfl, -⟩ := Prod.mk.inj (Option.some.inj heq)
      exact hpull ⟨path, start, size, hkind⟩
    obtain ⟨es, htrace', hes⟩ := hline.noLine hopen hidle
    refine hquiet.unpulled ?_ htrace' hes
    rcases hquiet.underway hopen with hnone | ⟨line, es, path, start, size, _, heq, hkind, -⟩
    · exact hnone
    · obtain ⟨rfl, -⟩ := Prod.mk.inj (Option.some.inj (hnow.symm.trans heq))
      exact absurd ⟨path, start, size, hkind⟩ hpull

/-- Calls between the line of a pull and its prompt. -/
theorem Answers.pulling (h : Answers P c) {line : Bytes} {t es : List Event} {path : Bytes}
    {start size : UInt64} {d : PullFileEventHandler}
    (hnow : answering c.trace = some (line, t))
    (hkind : lineKind P line = .pull path start size true)
    (htrace : c'.trace = c.trace ++ es) (hcalm : ∀ e ∈ es, e.isCalm = true)
    (hdata : c'.mDataEventHandler = some (.pull d))
    (htransfer : PullFileEventHandler.Transfer path start size d (t ++ es)) : Answers P c' := by
  constructor
  · rw [htrace, answered_append]
    exact ⟨h.lawful, between_along (noLine_of_calm hcalm) (noPrompt_of_calm hcalm)⟩
  · intro _
    right
    refine ⟨line, t ++ es, path, start, size, d, ?_, hkind, hdata, htransfer⟩
    rw [htrace, answering_append, hnow,
      answering_between (noLine_of_calm hcalm) (noPrompt_of_calm hcalm)]

/-- The prompt of a pull that has ended. -/
theorem Answers.prompted (h : Answers P c) {line : Bytes} {t : List Event} {path : Bytes}
    {start size : UInt64} {d : PullFileEventHandler} (resumes : Bool)
    (hnow : answering c.trace = some (line, t))
    (hkind : lineKind P line = .pull path start size true) (hclosed : d.mClosed = true)
    (htransfer : PullFileEventHandler.Transfer path start size d t)
    (htrace : c'.trace = c.trace ++ [.send (mPrompt ++ [0]) 3, .prompt, .release resumes]) :
    Answers P c' := by
  have hsent : answering (c.trace ++ [.send (mPrompt ++ [0]) 3]) =
      some (line, t ++ [.send (mPrompt ++ [0]) 3]) := by
    rw [answering_append, hnow]
    rfl
  have hprompted : answering (c.trace ++ [.send (mPrompt ++ [0]) 3] ++ [.prompt]) = none := by
    rw [answering_append]
    cases answering (c.trace ++ [.send (mPrompt ++ [0]) 3]) <;> rfl
  have hsplit : c'.trace =
      c.trace ++ [.send (mPrompt ++ [0]) 3] ++ [.prompt] ++ [.release resumes] := by
    rw [htrace]
    simp
  constructor
  · rw [hsplit, answered_append, answered_append, answered_append]
    refine ⟨⟨⟨h.lawful, trivial, trivial⟩, ?_, trivial⟩, trivial, trivial⟩
    rw [hsent]
    rintro line' es heq path' start' size' hkind'
    obtain ⟨rfl, rfl⟩ := Prod.mk.inj (Option.some.inj heq)
    obtain ⟨rfl, rfl, rfl, -⟩ := LineKind.pull.inj (hkind.symm.trans hkind')
    exact ⟨d, t, hclosed, htransfer, rfl⟩
  · intro _
    left
    rw [hsplit, answering_append, hprompted]
    exact noPull_none

/-- Every step keeps to the answer, as long as everything is sent. -/
theorem Step.answers (h : Step P c c') (hs : c.Sound) (hord : Ordered c)
    (hans : Answers P c) (hfull : FullSends c'.trace) : Answers P c' := by
  cases hclosed : c.mClosed with
  | true =>
      obtain ⟨hclosed', es, htrace, hline, hprompt⟩ := h.of_closed hs hclosed
      refine ⟨?_, fun hopen' => absurd (hclosed'.symm.trans hopen') (by decide)⟩
      rw [htrace, answered_append]
      exact ⟨hans.lawful, between_along hline hprompt⟩
  | false =>
      have hb := hord.balanced hclosed
      rcases hans.underway hclosed with hnone |
        ⟨line, t, path, start, size, d, hnow, hkind, hdata, htransfer⟩
      -- no pull is under way; a line may begin one
      · rcases h.noLine hs with ⟨es, htrace, hes⟩ | ⟨raw, b, hopen, hidle, hraw, hline⟩
        · exact hans.unpulled hnone htrace hes
        · exact hline.answers hans hopen hidle hraw hb.sendOpen hfull
      · cases h with
        -- a pull is under way, so the data handler is the pull
        | line c' raw b hopen hidle => exact absurd (hidle.symm.trans hdata) (by simp)
        | push h h' io hdata' => exact absurd (hdata'.symm.trans hdata) (by simp)
        | tick h hdata' => exact absurd (hdata'.symm.trans hdata) (by simp)
        | recv io hopen hstep =>
            obtain ⟨⟨es, htrace, hes⟩, -⟩ := recvStep_silent hstep
            have hcalm : ∀ e ∈ es, e.isCalm = true := fun e he => (hes e he).1
            have hquiet := (silent_facts fun e he => (hes e he).2).1
            exact hans.pulling hnow hkind htrace hcalm hdata
              (htransfer.append hquiet (recvStep_noInfo hstep htrace))
        | pull desc h h' io hdata' hrun hresult =>
            obtain rfl : h = d := DataEventHandler.pull.inj (Option.some.inj (hdata'.symm.trans hdata))
            have hspec := PullFileEventHandler.handleEvent_spec desc c.io (hs.data _ hdata) hrun
            obtain ⟨es, htrace, hcalm, -⟩ :=
              frame_calm ((ensures_ok hresult).mp hspec).1 hfull hb.sendOpen
            obtain ⟨es', htrace', htransfer'⟩ :=
              htransfer.handleEvent hrun hresult hb.sendOpen hfull
            obtain rfl : es = es' := List.append_cancel_left (htrace.symm.trans htrace')
            exact hans.pulling hnow hkind htrace hcalm rfl htransfer'
        | release h resumes hopen hdata' hend =>
            obtain rfl : h = .pull d := Option.some.inj (hdata'.symm.trans hdata)
            exact hans.prompted resumes hnow hkind hend htransfer
              (released_full resumes hb.sendOpen hfull).1
        | eof hrecv =>
            obtain ⟨es, htrace, hline, hprompt⟩ := eof_trace c
            refine ⟨?_, fun hopen' => nomatch hopen'⟩
            rw [htrace, answered_append]
            exact ⟨hans.lawful, between_along hline hprompt⟩
        | wait os timers =>
            exact ⟨hans.lawful, fun _ => Or.inr
              ⟨line, t, path, start, size, d, hnow, hkind, hdata, htransfer⟩⟩

end

/-! ## Runs -/

theorem new_answers (P : Platform) (socket : Nat) (os : Os) : Answers P (new socket os) := by
  have hnone : ∃ es, (new socket os).trace = [] ++ es ∧ NoLine es := by
    refine noLine_of_reading List.nil_prefix ?_ (fun _ => List.not_mem_nil)
    show reading (writePrompt [] { sock := .new socket, os }).trace = _
    rw [writePrompt_reading]
    rfl
  obtain ⟨es, htrace, hes⟩ := hnone
  rw [List.nil_append] at htrace
  obtain ⟨halong, hend⟩ := (noPull_none (P := P)).along hes
  rw [← htrace] at halong hend
  exact ⟨halong, fun _ => Or.inl hend⟩

theorem answers_path {P : Platform} {c c' : Connection} (hpath : ReflTransGen (Step P) c c')
    (hs : c.Sound) (hord : FullSends c.trace → Ordered c) (h : FullSends c.trace → Answers P c) :
    FullSends c'.trace → Answers P c' := by
  refine (invariant_path (I := fun c => c.Sound ∧ (FullSends c.trace → Ordered c) ∧
    (FullSends c.trace → Answers P c)) ?_ hpath ⟨hs, hord, h⟩).2.2
  rintro c c' hstep ⟨hs, hord, h⟩
  have hpre := hstep.trace_grows hs
  refine ⟨hstep.sound hs, fun hfull => ?_, fun hfull => ?_⟩
  · exact hstep.ordered hs (hord (hfull.of_prefix hpre)) hfull
  · exact hstep.answers hs (hord (hfull.of_prefix hpre)) (h (hfull.of_prefix hpre)) hfull

/-- Behind the line of a pull nothing is dispatched before its prompt. -/
theorem answering_pull {P : Platform} {t pre mid : List Event} {line path : Bytes}
    {start size : UInt64} (hlaw : Along (PullAnswered P) Answering.enter none t)
    (hpre : pre ++ [.handleLine line] ++ mid <+: t) (hmid : .prompt ∉ mid)
    (hkind : lineKind P line = .pull path start size true) :
    answering (pre ++ [.handleLine line] ++ mid) = some (line, mid) := by
  have hnow : answering (pre ++ [.handleLine line]) = some (line, []) := by
    rw [answering_append]
    cases answering pre <;> rfl
  induction mid using List.reverseRecOn with
  | nil => rw [List.append_nil, hnow]
  | append_singleton mid e ih =>
      rw [← List.append_assoc] at hpre ⊢
      have hbefore := ih ((List.prefix_append _ _).trans hpre)
        (fun h => hmid (List.mem_append_left _ h))
      have hallowed := (always_iff_along.mpr hlaw) _ e hpre
      change PullAnswered P (answering _) e at hallowed
      rw [answering_append, hbefore]
      rw [hbefore] at hallowed
      cases e with
      | handleLine line' => exact absurd hkind (hallowed line mid rfl path start size)
      | prompt => exact absurd (List.mem_append_right _ (List.mem_singleton_self _)) hmid
      | _ => rfl

/-- **When the header of a pull tells the truth.** In a run in which every `PR_Send` is
accepted in full, take a pull whose answer, up to its prompt, begins with `path,n`. If no
`PR_Read` fails and the content stays the same, then the header is followed by exactly
`n` bytes of the file from `start` on, and by the prompt, if and only if the range that is
asked for lies in the file. -/
theorem header_truthful_iff {P : Platform} {socket : Nat} {os : Os} {acts : List Act}
    (hreturns : returns P socket os acts = true)
    (hfull : FullSends (reached P socket os acts).trace)
    {pre mid suf : List Event} {line : Bytes}
    (htrace : (reached P socket os acts).trace =
      pre ++ [.handleLine line] ++ mid ++ [.prompt] ++ suf) (hmid : .prompt ∉ mid)
    {path : Bytes} {start size : UInt64} (hline : lineKind P line = .pull path start size true)
    {n : Nat} (hheader : PullFileEventHandler.header path n <+: accepted mid)
    {fileSize : UInt64} (hinfo : .fileInfo path (some fileSize) ∈ mid)
    {content : Bytes} (hsteady : PullFileEventHandler.Steady path content mid) :
    (∃ bytes, accepted mid = PullFileEventHandler.header path n ++ bytes ++ (mPrompt ++ [0]) ∧
      bytes.length = n ∧ bytes <+: content.drop start.toNat) ↔
      PullFileEventHandler.InFile fileSize start size content := by
  have hpath := (reached_path hreturns).1
  have hans := answers_path hpath (new_rested socket os).toSound (new_ordered socket os)
    (fun _ => new_answers P socket os) hfull
  have hpre : pre ++ [.handleLine line] ++ mid ++ [.prompt] <+: (reached P socket os acts).trace :=
    ⟨suf, htrace.symm⟩
  have hnow := answering_pull hans.lawful ((List.prefix_append _ _).trans hpre) hmid hline
  have hallowed := (always_iff_along.mpr hans.lawful) _ _ hpre
  change PullAnswered P (answering _) .prompt at hallowed
  obtain ⟨h, t, hclosed, htransfer, rfl⟩ := hallowed line mid hnow path start size hline
  have hprompt : accepted (t ++ [.send (mPrompt ++ [0]) 3]) = accepted t ++ (mPrompt ++ [0]) := by
    rw [accepted_append]
    rfl
  rw [hprompt] at hheader ⊢
  have hinfo' : .fileInfo path (some fileSize) ∈ t := by simpa using hinfo
  rw [← htransfer.truthful_iff hclosed hheader hinfo' hsteady.of_append]
  constructor
  · rintro ⟨bytes, heq, hbytes⟩
    exact ⟨bytes, List.append_cancel_right heq, hbytes⟩
  · rintro ⟨bytes, heq, hbytes⟩
    exact ⟨bytes, by rw [heq], hbytes⟩

/-- All of a file of one byte. -/
theorem header_truthful_whole_file :
    let mid : List Event := [.openRead (str "f") true, .fileInfo (str "f") (some 1),
      .send (str "f,1\n") 4, .attach, .readFile (str "f") 0 1 (some (str "x")), .send (str "x") 1,
      .closeFile (str "f"), .send (str "$>\x00") 3]
    (∃ bytes, accepted mid =
      PullFileEventHandler.header (str "f") 1 ++ bytes ++ (mPrompt ++ [0]) ∧ bytes.length = 1 ∧
        bytes <+: (str "x").drop 0) ↔ PullFileEventHandler.InFile 1 0 0 (str "x") := by
  intro mid
  have hreturns : returns .plain 7 {} [
      .event { read := true }
        { recvs := [.deliver (str "pull f\n")], sizes := [some 1], files := fun _ => str "x" },
      .event { write := true } { files := fun _ => str "x" }] = true := by decide +kernel
  have htrace : (reached .plain 7 {} [
      .event { read := true }
        { recvs := [.deliver (str "pull f\n")], sizes := [some 1], files := fun _ => str "x" },
      .event { write := true } { files := fun _ => str "x" }]).trace =
      [.send (str "$>\x00") 3, .prompt, .recv (str "pull f\n"), .readLine (str "pull f\n")] ++
        [.handleLine (str "pull f")] ++ mid ++ [.prompt] ++ [.release false] := by decide +kernel
  have hsteady : PullFileEventHandler.Steady (str "f") (str "x") mid := by
    intro pos size got hmem
    obtain ⟨rfl, rfl, rfl⟩ : pos = 0 ∧ size = 1 ∧ got = some (str "x") := by simpa [mid] using hmem
    exact ⟨0, by decide⟩
  exact header_truthful_iff hreturns (by decide +kernel) htrace (by decide) rfl (by decide)
    (by decide) hsteady

/-- Ten bytes of a file of one byte: the header says ten, and one is sent. -/
theorem header_lies_behind_end :
    let acts := [
      .event { read := true }
        { recvs := [.deliver (str "pull f 0 10\n")], sizes := [some 1], files := fun _ => str "x" },
      .event { write := true } { files := fun _ => str "x" },
      .event { write := true } { files := fun _ => str "x" }]
    let mid : List Event := [.openRead (str "f") true, .fileInfo (str "f") (some 1),
      .send (str "f,10\n") 5, .attach, .readFile (str "f") 0 10 (some (str "x")),
      .send (str "x") 1, .readFile (str "f") 1 9 (some []), .closeFile (str "f"),
      .send (str "$>\x00") 3]
    (reached .plain 7 {} acts).trace =
        [.send (str "$>\x00") 3, .prompt, .recv (str "pull f 0 10\n"),
            .readLine (str "pull f 0 10\n")] ++
          [.handleLine (str "pull f 0 10")] ++ mid ++ [.prompt] ++ [.release false] ∧
      lineKind .plain (str "pull f 0 10") = .pull (str "f") 0 10 true ∧
      PullFileEventHandler.header (str "f") 10 <+: accepted mid ∧
      FullSends (reached .plain 7 {} acts).trace ∧
      PullFileEventHandler.Steady (str "f") (str "x") mid ∧
      ¬ ∃ bytes, accepted mid =
        PullFileEventHandler.header (str "f") 10 ++ bytes ++ (mPrompt ++ [0]) ∧
          bytes.length = 10 ∧ bytes <+: (str "x").drop 0 := by
  intro acts mid
  refine ⟨by decide +kernel, rfl, by decide, by decide +kernel, ?_, ?_⟩
  · intro pos size got hmem
    obtain ⟨rfl, rfl, rfl⟩ | ⟨rfl, rfl, rfl⟩ :
        (pos = 0 ∧ size = 10 ∧ got = some (str "x")) ∨ (pos = 1 ∧ size = 9 ∧ got = some []) := by
      simpa [mid] using hmem
    · exact ⟨0, by decide⟩
    · exact ⟨0, by decide⟩
  · rintro ⟨bytes, -, hlen, hpre⟩
    have hle := hpre.length_le
    rw [hlen] at hle
    exact absurd hle (by decide)

end CommandEventHandler

end Negatus
