import Negatus.BufferedSocket.Outgoing
import Negatus.CommandEventHandler.Sequential
import Negatus.Foundations.History

/-!
# Prompts

The first prompt is sent when the connection is opened. After that every command
owes one: it is sent with the answer, or when the data handler of the command is
released. `Books` are kept along the trace; while all sends are accepted in full
they balance in every state in which the handler is open.
-/

namespace Negatus

open Foundations BufferedSocket Relation

/-- Does a line have a command word? -/
def isCommand (line : Bytes) : Bool := (CommandLine.new line).cmd ≠ []

/-- The prompts that have been sent. -/
def prompts (t : List Event) : Nat := t.countP (· = .prompt)

/-- The commands that have been dispatched. -/
def commands (t : List Event) : Nat :=
  t.countP fun
    | .handleLine line => isCommand line
    | _ => false

/-- Has a child been started? -/
def launched (t : List Event) : Bool :=
  t.any fun
    | .popen _ _ ok => ok
    | _ => false

/-- The bytes read from the pipe of the child. -/
def piped (t : List Event) : Bytes :=
  t.flatMap fun
    | .pipe bs => bs
    | _ => []

/-- What the calls of `pclose` have returned. -/
def pcloses (t : List Event) : List Int :=
  t.filterMap fun
    | .pclose ret => some ret
    | _ => none

/-- What the client is to be sent of a child: its output, and a warning if reading failed. -/
def childOutput (t : List Event) : Bytes :=
  piped t ++ if .pipeError ∈ t then SubprocessEventHandler.readError else []

/-- Between its two prompts an `exec` has sent the output, one line with the return
code of the only `pclose`, and the second prompt. -/
def ExecComplete (t : List Event) : Prop :=
  ∃ ret, pcloses t = [ret] ∧
    accepted t = childOutput t ++ SubprocessEventHandler.returnCode ret ++
      (CommandEventHandler.mPrompt ++ [0])

/-- What the trace amounts to, and the events since the last prompt. -/
structure Books where
  prompts : Nat := 0
  commands : Nat := 0
  busy : Bool := false
  segment : List Event := []

def Books.enter (b : Books) : Event → Books
  | .prompt => { b with prompts := b.prompts + 1, segment := [] }
  | .handleLine line =>
      { b with
          commands := b.commands + (if isCommand line then 1 else 0)
          segment := b.segment ++ [.handleLine line] }
  | .attach => { b with busy := true, segment := b.segment ++ [.attach] }
  | .release resumes => { b with busy := false, segment := b.segment ++ [.release resumes] }
  | e => { b with segment := b.segment ++ [e] }

def books (t : List Event) : Books := t.foldl Books.enter {}

/-- What may happen when the books stand at `b`. -/
def InOrder (b : Books) : Event → Prop
  | .send _ _ => b.prompts = b.commands
  | .handleLine line => isCommand line = true → b.prompts = b.commands + 1
  | .attach => b.busy = false
  | .prompt => launched b.segment = true → ExecComplete b.segment
  | _ => True

theorem books_append (t es : List Event) : books (t ++ es) = es.foldl Books.enter (books t) :=
  List.foldl_append

/-- The books say what the trace says. -/
theorem books_counts (t : List Event) :
    (books t).prompts = prompts t ∧ (books t).commands = commands t ∧
      (books t).busy = busyAfter t := by
  induction t using List.reverseRecOn with
  | nil => exact ⟨rfl, rfl, rfl⟩
  | append_singleton t e ih =>
      obtain ⟨hprompts, hcommands, hbusy⟩ := ih
      rw [books_append, busyAfter_append]
      unfold prompts commands at *
      rw [List.countP_append, List.countP_append, ← hprompts, ← hcommands, ← hbusy]
      cases e with
      | handleLine line =>
          refine ⟨rfl, ?_, rfl⟩
          simp [Books.enter, List.countP_cons]
      | _ => exact ⟨rfl, rfl, rfl⟩

/-- Calls that neither count in the books nor touch a child. -/
def Event.isCalm : Event → Bool
  | .prompt | .handleLine _ | .attach | .release _ => false
  | .popen _ _ _ | .pipe _ | .pipeError | .pclose _ => false
  | _ => true

/-- Calls that neither send nor touch a child. -/
def Event.isSilent : Event → Bool
  | .send _ _ | .popen _ _ _ | .pipe _ | .pipeError | .pclose _ => false
  | _ => true

theorem Event.isCalm_of_isOutput {e : Event} (h : e.isOutput = true) : e.isCalm = true := by
  cases e with
  | send | closeSocket | openRead | fileInfo | readFile | closeFile => rfl
  | _ => cases h

theorem calm_books (b : Books) {es : List Event} (hes : ∀ e ∈ es, e.isCalm = true) :
    es.foldl Books.enter b = { b with segment := b.segment ++ es } := by
  induction es generalizing b with
  | nil => simp
  | cons e es ih =>
      obtain ⟨he, hes⟩ := List.forall_mem_cons.mp hes
      have hstep : b.enter e = { b with segment := b.segment ++ [e] } := by
        cases e with
        | prompt | handleLine | attach | release => cases he
        | _ => rfl
      rw [List.foldl_cons, ih _ hes, hstep, List.append_assoc]
      rfl

/-- Calm events are in order if sending is, or if nothing is sent. -/
theorem calm_along {b : Books} {es : List Event} (hes : ∀ e ∈ es, e.isCalm = true)
    (hsend : b.prompts = b.commands ∨ ∀ e ∈ es, e.isSilent = true) :
    Along InOrder Books.enter b es := by
  induction es generalizing b with
  | nil => exact along_nil
  | cons e es ih =>
      obtain ⟨he, hes⟩ := List.forall_mem_cons.mp hes
      have hcalm : ∀ e' ∈ [e], e'.isCalm = true := by simpa using he
      have hstep := calm_books b hcalm
      rw [List.foldl_cons, List.foldl_nil] at hstep
      rw [along_cons, hstep]
      constructor
      · cases e with
        | send bs n =>
            rcases hsend with hsend | hsend
            · exact hsend
            · have hsilent := hsend _ List.mem_cons_self
              cases hsilent
        | prompt | handleLine | attach | release => cases he
        | _ => trivial
      · apply ih hes
        rcases hsend with hsend | hsend
        · exact Or.inl hsend
        · exact Or.inr fun e he => hsend e (List.mem_cons_of_mem _ he)

theorem calm_launched {seg es : List Event} (hes : ∀ e ∈ es, e.isCalm = true) :
    launched (seg ++ es) = launched seg := by
  unfold launched
  rw [List.any_append]
  have hnone : (es.any fun | .popen _ _ ok => ok | _ => false) = false := by
    rw [List.any_eq_false]
    intro e he
    have hcalm := hes e he
    cases e with
    | popen => cases hcalm
    | _ => simp
  rw [hnone, Bool.or_false]

theorem silent_facts {es : List Event} (hes : ∀ e ∈ es, e.isSilent = true) :
    accepted es = [] ∧ piped es = [] ∧ pcloses es = [] ∧ .pipeError ∉ es ∧
      launched es = false := by
  induction es with
  | nil => exact ⟨rfl, rfl, rfl, List.not_mem_nil, rfl⟩
  | cons e es ih =>
      obtain ⟨he, hes⟩ := List.forall_mem_cons.mp hes
      obtain ⟨hacc, hpiped, hcloses, herror, hlaunched⟩ := ih hes
      cases e with
      | send | popen | pipe | pipeError | pclose => cases he
      | _ => exact ⟨hacc, hpiped, hcloses, by simpa using herror, hlaunched⟩

/-! ## What the segment holds -/

/-- The output of a child that is still running has been passed on. -/
def PassedOn (t : List Event) : Prop :=
  pcloses t = [] ∧ .pipeError ∉ t ∧ accepted t = piped t

/-- A child has ended: only the prompt is missing. -/
def ChildEnded (t : List Event) : Prop :=
  ∃ ret, pcloses t = [ret] ∧ accepted t = childOutput t ++ SubprocessEventHandler.returnCode ret

/-- The events since the last prompt, by the data handler. -/
def Segment : Option DataEventHandler → List Event → Prop
  | none, seg => ∀ e ∈ seg, e.isSilent = true
  | some (.subprocess h), seg => if h.mClosed then ChildEnded seg else PassedOn seg
  | some _, seg => launched seg = false

@[simp] theorem piped_append (t u : List Event) : piped (t ++ u) = piped t ++ piped u :=
  List.flatMap_append

@[simp] theorem pcloses_append (t u : List Event) : pcloses (t ++ u) = pcloses t ++ pcloses u :=
  List.filterMap_append

theorem PassedOn.append_silent {seg es : List Event} (h : PassedOn seg)
    (hes : ∀ e ∈ es, e.isSilent = true) : PassedOn (seg ++ es) := by
  obtain ⟨hcloses, herror, hacc⟩ := h
  obtain ⟨hacc', hpiped', hcloses', herror', -⟩ := silent_facts hes
  refine ⟨?_, ?_, ?_⟩
  · rw [pcloses_append, hcloses, hcloses']
    rfl
  · intro hmem
    rcases List.mem_append.mp hmem with hmem | hmem
    · exact herror hmem
    · exact herror' hmem
  · rw [accepted_append, piped_append, hacc, hacc', hpiped']

theorem ChildEnded.append_silent {seg es : List Event} (h : ChildEnded seg)
    (hes : ∀ e ∈ es, e.isSilent = true) : ChildEnded (seg ++ es) := by
  obtain ⟨ret, hcloses, hacc⟩ := h
  obtain ⟨hacc', hpiped', hcloses', herror', -⟩ := silent_facts hes
  have hmem : Event.pipeError ∈ seg ++ es ↔ Event.pipeError ∈ seg := by
    rw [List.mem_append, or_iff_left herror']
  refine ⟨ret, ?_, ?_⟩
  · rw [pcloses_append, hcloses, hcloses']
    rfl
  · unfold childOutput at hacc ⊢
    simp only [accepted_append, piped_append, hacc, hacc', hpiped', hmem, List.append_nil]

/-- Silent calls change nothing about the segment. -/
theorem Segment.append_silent {d : Option DataEventHandler} {seg es : List Event}
    (h : Segment d seg) (hsilent : ∀ e ∈ es, e.isSilent = true)
    (hcalm : ∀ e ∈ es, e.isCalm = true) : Segment d (seg ++ es) := by
  rcases d with _ | (h' | h' | h')
  · intro e he
    rcases List.mem_append.mp he with he | he
    · exact h e he
    · exact hsilent e he
  · exact (calm_launched hcalm).trans h
  · exact (calm_launched hcalm).trans h
  · unfold Segment at h ⊢
    dsimp only at h ⊢
    split
    · rename_i hclosed
      rw [if_pos hclosed] at h
      exact h.append_silent hsilent
    · rename_i hrun
      rw [if_neg hrun] at h
      exact h.append_silent hsilent

/-- What a poll of the child adds. -/
theorem PassedOn.polled {seg es : List Event} {closed : Bool} (h : PassedOn seg)
    (hp : SubprocessEventHandler.Polled closed es) :
    if closed then ChildEnded (seg ++ es) else PassedOn (seg ++ es) := by
  obtain ⟨hcloses, herror, hacc⟩ := h
  cases hp with
  | again => exact ⟨by simpa using hcloses, by simpa using herror, by simpa using hacc⟩
  | data got =>
      refine ⟨?_, ?_, ?_⟩
      · rw [pcloses_append, hcloses]
        rfl
      · simpa using herror
      · rw [accepted_append, piped_append, hacc]
        simp [accepted, piped]
  | eof ret =>
      refine ⟨ret, ?_, ?_⟩
      · rw [pcloses_append, hcloses]
        rfl
      · unfold childOutput SubprocessEventHandler.closing
        rw [accepted_append, hacc]
        simp [accepted, piped, herror]
  | error ret =>
      refine ⟨ret, ?_, ?_⟩
      · rw [pcloses_append, hcloses]
        rfl
      · unfold childOutput SubprocessEventHandler.closing
        rw [accepted_append, hacc]
        simp [accepted, piped]

/-- The prompt completes it. -/
theorem ChildEnded.prompted {seg : List Event} (h : ChildEnded seg) :
    ExecComplete (seg ++ [.send (CommandEventHandler.mPrompt ++ [0]) 3]) := by
  obtain ⟨ret, hcloses, hacc⟩ := h
  refine ⟨ret, ?_, ?_⟩
  · rw [pcloses_append, hcloses]
    rfl
  · have hmem : Event.pipeError ∈ seg ++ [.send (CommandEventHandler.mPrompt ++ [0]) 3] ↔
        Event.pipeError ∈ seg := by simp
    have hsent : accepted [.send (CommandEventHandler.mPrompt ++ [0]) 3] =
        CommandEventHandler.mPrompt ++ [0] := by decide
    unfold childOutput at hacc ⊢
    rw [accepted_append, hsent, hacc, piped_append]
    simp only [hmem, List.append_nil, piped, List.flatMap_cons, List.flatMap_nil]

namespace CommandEventHandler

open Connection (handling setData released dropped meanwhile)

/-! ## The books balance -/

/-- The books of an open connection. -/
structure Balanced (c : Connection) (b : Books) : Prop where
  sendOpen : c.io.sock.mSendClosed = false
  busy : b.busy = c.mDataEventHandler.isSome
  balance : b.prompts + (if b.busy then 1 else 0) = b.commands + 1
  segment : Segment c.mDataEventHandler b.segment

/-- Everything happened in order, and while the handler is open the books balance. -/
structure Ordered (c : Connection) : Prop where
  lawful : Along InOrder Books.enter {} c.trace
  balanced : c.mClosed = false → Balanced c (books c.trace)

theorem lawful_append {t es : List Event} :
    Along InOrder Books.enter {} (t ++ es) ↔
      Along InOrder Books.enter {} t ∧ Along InOrder Books.enter (books t) es :=
  along_append

theorem Balanced.owing {c : Connection} {b : Books} (h : Balanced c b)
    (hbusy : c.mDataEventHandler.isSome = true) : b.prompts = b.commands := by
  have hbalance := h.balance
  rw [h.busy, hbusy, if_pos rfl] at hbalance
  exact Nat.succ.inj hbalance

theorem Balanced.even {c : Connection} {b : Books} (h : Balanced c b)
    (hidle : c.mDataEventHandler = none) : b.busy = false ∧ b.prompts = b.commands + 1 := by
  have hbalance := h.balance
  have hbusy := h.busy
  rw [hidle] at hbusy
  rw [hbusy] at hbalance
  exact ⟨hbusy, hbalance⟩

/-- Calm events that do not send keep the books. -/
theorem Ordered.silent {c c' : Connection} {es : List Event} (h : Ordered c)
    (htrace : c'.trace = c.trace ++ es) (hes : ∀ e ∈ es, e.isCalm = true ∧ e.isSilent = true)
    (hopen : c.mClosed = c'.mClosed) (hdata : c'.mDataEventHandler = c.mDataEventHandler)
    (hsend : c.io.sock.mSendClosed = false → c'.io.sock.mSendClosed = false) : Ordered c' := by
  have hcalm : ∀ e ∈ es, e.isCalm = true := fun e he => (hes e he).1
  have hsilent : ∀ e ∈ es, e.isSilent = true := fun e he => (hes e he).2
  constructor
  · rw [htrace, lawful_append]
    exact ⟨h.lawful, calm_along hcalm (Or.inr hsilent)⟩
  · intro hopen'
    have hb := h.balanced (hopen.trans hopen')
    rw [htrace, books_append, calm_books _ hcalm]
    refine ⟨hsend hb.sendOpen, ?_, hb.balance, ?_⟩
    · rw [hdata]
      exact hb.busy
    · rw [hdata]
      exact hb.segment.append_silent hsilent hcalm

/-- What a pull or a push that is attached does to the books. -/
theorem Ordered.worked {c : Connection} {io : Io} {es : List Event} (h : Ordered c)
    {d : DataEventHandler} (hopen : c.mClosed = false) (hdata : c.mDataEventHandler.isSome = true)
    (hseg : ∀ seg, Segment c.mDataEventHandler seg → Segment (some d) (seg ++ es))
    (htrace : io.trace = c.trace ++ es) (hes : ∀ e ∈ es, e.isCalm = true)
    (hsend : io.sock.mSendClosed = false) : Ordered (c.setData d io) := by
  have hb := h.balanced hopen
  have htrace' : (c.setData d io).trace = c.trace ++ es := htrace
  constructor
  · rw [htrace', lawful_append]
    exact ⟨h.lawful, calm_along hes (Or.inl (hb.owing hdata))⟩
  · intro _
    rw [htrace', books_append, calm_books _ hes]
    exact ⟨hsend, hb.busy.trans hdata, hb.balance, hseg _ hb.segment⟩

/-- A reply settles the account of a command that has been dispatched. -/
theorem replied_ordered {c : Connection} (result : Bytes)
    (hlaw : Along InOrder Books.enter {} c.trace) (hidle : c.mDataEventHandler = none)
    (hbusy : (books c.trace).busy = false)
    (hdue : (books c.trace).prompts = (books c.trace).commands)
    (hseg : launched (books c.trace).segment = false)
    (hsend : c.mClosed = false → c.io.sock.mSendClosed = false)
    (hfull : FullSends (replied result c).trace) : Ordered (replied result c) := by
  cases hclosed : c.io.sock.mSendClosed with
  | true =>
      -- `mSendClosed`: nothing is written, and the handler is closed
      have hquiet : replied result c = c := by
        unfold replied
        rw [hclosed]
        rfl
      rw [hquiet]
      refine ⟨hlaw, fun hopen => ?_⟩
      exact absurd ((hsend hopen).symm.trans hclosed) (by decide)
  | false =>
      -- the account was even, so the prompt at the end of the reply is the one that is due
      have hreply : replied result c = c.setIo (writePrompt (result ++ endl) c.io) := by
        unfold replied
        rw [hclosed, hidle]
        rfl
      rcases writePrompt_cases (result ++ endl) c.io with ⟨hshut, -⟩ | ⟨-, io, hwrote, heq⟩
      · exact absurd (hclosed.symm.trans hshut) (by decide)
      · rw [hreply, heq] at hfull ⊢
        have hsent := hwrote.full hclosed (hfull.of_prefix (List.prefix_append _ _))
        obtain ⟨hio, hsock⟩ := hsent
        generalize (result ++ endl ++ mPrompt ++ [0]).take
          (wrap32 (result ++ endl ++ mPrompt ++ [0]).length) = bs at hio
        have hcalm : ∀ e ∈ sendAll bs, e.isCalm = true := by
          unfold sendAll
          split <;> simp [Event.isCalm]
        have htrace : (c.setIo (io.log .prompt)).trace = c.trace ++ sendAll bs ++ [.prompt] :=
          congrArg (· ++ [Event.prompt]) hio
        constructor
        · rw [htrace, lawful_append, lawful_append, books_append, calm_books _ hcalm]
          refine ⟨⟨hlaw, calm_along hcalm (Or.inl hdue)⟩, ?_, trivial⟩
          intro hlaunched
          have hnone : launched ((books c.trace).segment ++ sendAll bs) = false :=
            (calm_launched hcalm).trans hseg
          exact absurd (hnone.symm.trans hlaunched) (by decide)
        · intro _
          rw [htrace, books_append, books_append, calm_books _ hcalm]
          refine ⟨?_, ?_, ?_, ?_⟩
          · exact (congrArg BufferedSocket.mSendClosed hsock).trans hclosed
          · show (books c.trace).busy = c.mDataEventHandler.isSome
            rw [hbusy, hidle]
            rfl
          · show (books c.trace).prompts + 1 + (if (books c.trace).busy then 1 else 0) =
              (books c.trace).commands + 1
            rw [hbusy, hdue]
            rfl
          · show Segment c.mDataEventHandler []
            rw [hidle]
            exact fun e he => absurd he List.not_mem_nil

/-- A data handler takes the account over. -/
theorem attached_ordered {c : Connection} {io : Io} {h : DataEventHandler}
    (hlaw : Along InOrder Books.enter {} io.trace) (hbusy : (books io.trace).busy = false)
    (hdue : (books io.trace).prompts = (books io.trace).commands)
    (hseg : Segment (some h) ((books io.trace).segment ++ [.attach]))
    (hsend : io.sock.mSendClosed = false) : Ordered (attached h io c) := by
  have htrace : (attached h io c).trace = io.trace ++ [.attach] := rfl
  constructor
  · rw [htrace, lawful_append]
    exact ⟨hlaw, hbusy, trivial⟩
  · intro _
    rw [htrace, books_append]
    refine ⟨hsend, rfl, ?_, hseg⟩
    show (books io.trace).prompts + 1 = (books io.trace).commands + 1
    rw [hdue]

/-! ### The steps keep the books -/

theorem recvStep_silent {io io' : Io} (h : RecvStep io io') :
    (∃ es, io'.trace = io.trace ++ es ∧ ∀ e ∈ es, e.isCalm = true ∧ e.isSilent = true) ∧
      (io.sock.mSendClosed = false → io'.sock.mSendClosed = false) := by
  cases h with
  | quiet => exact ⟨⟨[], by simp, by simp⟩, id⟩
  | data os bs =>
      refine ⟨⟨[.recv bs], rfl, ?_⟩, id⟩
      simp [Event.isCalm, Event.isSilent]
  | ended os =>
      obtain ⟨-, -, -, -, hsend, es, hes, htrace⟩ := closeRecv_facts ((io.setOs os).log .recvEnd)
      constructor
      · refine ⟨[.recvEnd] ++ es, by rw [htrace]; simp, ?_⟩
        rcases hes with rfl | rfl <;> simp [Event.isCalm, Event.isSilent]
      · intro hopen
        exact hsend.trans hopen

/-- A frame while everything is sent: only calm events, and the send side stays open. -/
theorem frame_calm {io io' : Io} (h : Frame io io') (hfull : FullSends io'.trace)
    (hopen : io.sock.mSendClosed = false) :
    ∃ es, io'.trace = io.trace ++ es ∧ (∀ e ∈ es, e.isCalm = true) ∧
      io'.sock.mSendClosed = false := by
  obtain ⟨es, htrace, hes, hsend⟩ := h.trace
  refine ⟨es, htrace, fun e he => Event.isCalm_of_isOutput (hes e he), ?_⟩
  rw [hsend, hopen]
  intro bs n hmem
  apply hfull bs n
  rw [htrace]
  exact List.mem_append_right _ hmem

theorem lineKind_empty_iff (P : Platform) (line : Bytes) :
    lineKind P line = .empty ↔ isCommand line = false := by
  unfold lineKind isCommand
  dsimp only
  split
  · rename_i hcmd
    simp [hcmd]
  · rename_i hcmd
    simp [hcmd, classify_ne_empty]

/-- A command has been dispatched and its prompt is due. -/
structure Due (c : Connection) : Prop where
  lawful : Along InOrder Books.enter {} c.trace
  busy : (books c.trace).busy = false
  due : (books c.trace).prompts = (books c.trace).commands
  silent : ∀ e ∈ (books c.trace).segment, e.isSilent = true
  sendOpen : c.io.sock.mSendClosed = false
  idle : c.mDataEventHandler = none

theorem handling_trace (raw : Bytes) (b : ReadBuffer) (c : Connection) :
    (c.handling raw b).trace = c.trace ++ [.readLine raw] ++ [.handleLine (trim raw)] := rfl

theorem handling_books (raw : Bytes) (b : ReadBuffer) (c : Connection) :
    books (c.handling raw b).trace =
      { books c.trace with
          commands := (books c.trace).commands + (if isCommand (trim raw) then 1 else 0)
          segment := (books c.trace).segment ++ [.readLine raw] ++ [.handleLine (trim raw)] } := by
  rw [handling_trace, books_append, books_append]
  rfl

theorem handling_lawful {c : Connection} (h : Ordered c) (hopen : c.mClosed = false)
    (hidle : c.mDataEventHandler = none) (raw : Bytes) (b : ReadBuffer) :
    Along InOrder Books.enter {} (c.handling raw b).trace := by
  rw [handling_trace, List.append_assoc, lawful_append]
  exact ⟨h.lawful, trivial, fun _ => ((h.balanced hopen).even hidle).2, trivial⟩

theorem handling_silent {c : Connection} (hb : Balanced c (books c.trace))
    (hidle : c.mDataEventHandler = none) (raw : Bytes) (b : ReadBuffer) :
    ∀ e ∈ (books (c.handling raw b).trace).segment, e.isSilent = true := by
  have hsilent := hb.segment
  rw [hidle] at hsilent
  rw [handling_books]
  intro e he
  simp only [List.mem_append, List.mem_singleton] at he
  rcases he with (he | rfl) | rfl
  · exact hsilent e he
  · rfl
  · rfl

theorem handling_due {c : Connection} (h : Ordered c) (hopen : c.mClosed = false)
    (hidle : c.mDataEventHandler = none) {raw : Bytes} (b : ReadBuffer)
    (hcommand : isCommand (trim raw) = true) : Due (c.handling raw b) := by
  have hb := h.balanced hopen
  obtain ⟨hbusy, heven⟩ := hb.even hidle
  refine ⟨handling_lawful h hopen hidle raw b, ?_, ?_, handling_silent hb hidle raw b,
    hb.sendOpen, hidle⟩
  · rw [handling_books]
    exact hbusy
  · rw [handling_books, hcommand]
    exact heven

/-- Calls of the shell or of the reboot file. -/
theorem Due.log_calm {c : Connection} (h : Due c) {es : List Event} {c' : Connection}
    (htrace : c'.trace = c.trace ++ es) (hes : ∀ e ∈ es, e.isCalm = true ∧ e.isSilent = true) :
    Along InOrder Books.enter {} c'.trace ∧ (books c'.trace).busy = false ∧
      (books c'.trace).prompts = (books c'.trace).commands ∧
      launched (books c'.trace).segment = false := by
  have hcalm : ∀ e ∈ es, e.isCalm = true := fun e he => (hes e he).1
  rw [htrace, lawful_append, books_append, calm_books _ hcalm]
  refine ⟨⟨h.lawful, calm_along hcalm (Or.inl h.due)⟩, h.busy, h.due, ?_⟩
  exact (calm_launched hcalm).trans (silent_facts h.silent).2.2.2.2

/-- A pull or a push that is constructed, whether or not it could open its file. -/
theorem Due.constructed {c : Connection} (h : Due c) {io : Io} {es : List Event}
    {d : DataEventHandler} (hd : ∀ seg, launched seg = false → Segment (some d) seg)
    (htrace : io.trace = c.trace ++ es) (hes : ∀ e ∈ es, e.isCalm = true)
    (hsend : io.sock.mSendClosed = false) : Ordered (attached d io c) := by
  have hbooks : books io.trace = { books c.trace with segment := (books c.trace).segment ++ es } := by
    rw [htrace, books_append, calm_books _ hes]
  apply attached_ordered
  · rw [htrace, lawful_append]
    exact ⟨h.lawful, calm_along hes (Or.inl h.due)⟩
  · rw [hbooks]
    exact h.busy
  · rw [hbooks]
    exact h.due
  · rw [hbooks]
    apply hd
    have hold : launched ((books c.trace).segment ++ es) = false :=
      (calm_launched hes).trans (silent_facts h.silent).2.2.2.2
    unfold launched at hold ⊢
    rw [List.any_append, hold]
    rfl
  · exact hsend

/-- A child that has been started has passed on all of nothing. -/
theorem Due.launched {c : Connection} (h : Due c) {io : Io} {cmdLine : Bytes} {env : Environ}
    {child : SubprocessEventHandler} (hrun : child.mClosed = false)
    (htrace : io.trace = c.trace ++ [.popen cmdLine env true])
    (hsend : io.sock.mSendClosed = false) : Ordered (attached (.subprocess child) io c) := by
  have hbooks : books io.trace =
      { books c.trace with
          segment := (books c.trace).segment ++ [.popen cmdLine env true] } := by
    rw [htrace, books_append]
    rfl
  apply attached_ordered
  · rw [htrace, lawful_append]
    exact ⟨h.lawful, trivial, trivial⟩
  · rw [hbooks]
    exact h.busy
  · rw [hbooks]
    exact h.due
  · rw [hbooks]
    obtain ⟨hacc, hpiped, hcloses, herror, -⟩ := silent_facts h.silent
    unfold Segment
    dsimp only
    rw [hrun, if_neg (by decide)]
    refine ⟨?_, ?_, ?_⟩
    · rw [pcloses_append, pcloses_append, hcloses]
      rfl
    · simpa using herror
    · rw [accepted_append, accepted_append, piped_append, piped_append, hacc, hpiped]
      rfl
  · exact hsend

theorem Performed.ordered {P : Platform} {k : LineKind} {c c' : Connection}
    (h : Performed P k c c') (hk : k ≠ .empty) (hdue : Due c) (hfull : FullSends c'.trace) :
    Ordered c' := by
  cases h with
  | empty => exact absurd rfl hk
  | answer c result r s =>
      have hsame : (c.setSystem s).trace = c.trace ++ [] := (List.append_nil _).symm
      obtain ⟨hlaw, hbusy, howed, hseg⟩ := hdue.log_calm hsame (by simp)
      exact replied_ordered r hlaw hdue.idle hbusy howed hseg (fun _ => hdue.sendOpen) hfull
  | pull c path start size includeHeader h io hnew =>
      have hframe := PullFileEventHandler.new_frame path start size includeHeader c.io
      rw [hnew] at hframe
      obtain ⟨es, htrace, hes, hsend⟩ :=
        frame_calm hframe (hfull.of_prefix (List.prefix_append _ _)) hdue.sendOpen
      exact hdue.constructed (fun _ hseg => hseg) htrace hes hsend
  | push c path size h io hnew =>
      have hframe := PushFileEventHandler.new_frame path size c.io
      rw [hnew] at hframe
      obtain ⟨es, htrace, hes, hsend⟩ :=
        frame_calm hframe (hfull.of_prefix (List.prefix_append _ _)) hdue.sendOpen
      have htrace' : io.trace = c.trace ++ ([.openWrite path c.io.os.check.1] ++ es) := by
        rw [htrace, ← List.append_assoc]
        rfl
      refine hdue.constructed (fun _ hseg => hseg) htrace' ?_ hsend
      intro e he
      rcases List.mem_cons.mp he with rfl | he
      · rfl
      · exact hes e he
  | exec c args cmdLine env h io hparse hnew hrun =>
      obtain ⟨os, vars, ok, -, heq⟩ := SubprocessEventHandler.new_spec P cmdLine env c.io
      obtain ⟨rfl, rfl⟩ := Prod.mk.inj (hnew.symm.trans heq)
      cases ok with
      | false => cases hrun
      | true => exact hdue.launched rfl rfl hdue.sendOpen
  | noExec c args cmdLine env h io hparse hnew hclosed =>
      obtain ⟨os, vars, ok, -, heq⟩ := SubprocessEventHandler.new_spec P cmdLine env c.io
      obtain ⟨rfl, rfl⟩ := Prod.mk.inj (hnew.symm.trans heq)
      cases ok with
      | true => cases hclosed
      | false =>
          have hbooks : books (c.trace ++ [.popen cmdLine vars false]) =
              { books c.trace with
                  segment := (books c.trace).segment ++ [.popen cmdLine vars false] } := by
            rw [books_append]
            rfl
          let c₁ := c.setIo ((c.io.setOs os).log (.popen cmdLine vars false))
          have htrace : c₁.trace = c.trace ++ [.popen cmdLine vars false] := rfl
          refine replied_ordered (c := c₁) _ ?_ hdue.idle ?_ ?_ ?_ (fun _ => hdue.sendOpen) hfull
          · rw [htrace, lawful_append]
            exact ⟨hdue.lawful, trivial, trivial⟩
          · rw [htrace, hbooks]
            exact hdue.busy
          · rw [htrace, hbooks]
            exact hdue.due
          · have hold := (silent_facts hdue.silent).2.2.2.2
            rw [htrace, hbooks]
            unfold Negatus.launched at hold ⊢
            rw [List.any_append, hold]
            rfl
  | quit c =>
      -- the socket is closed first, so there is no reply
      have htrace : ∃ es, (closed c).trace = c.trace ++ es ∧ (es = [] ∨ es = [.closeSocket]) := by
        show ∃ es, (BufferedSocket.close c.io).trace = c.io.trace ++ es ∧ _
        unfold BufferedSocket.close
        split
        · exact ⟨[], (List.append_nil _).symm, Or.inl rfl⟩
        · exact ⟨[.closeSocket], rfl, Or.inr rfl⟩
      obtain ⟨es, htrace, hes⟩ := htrace
      obtain ⟨hlaw, hbusy, howed, hseg⟩ := hdue.log_calm htrace (by
        rcases hes with rfl | rfl <;> simp [Event.isCalm, Event.isSilent])
      exact replied_ordered [] hlaw hdue.idle hbusy howed hseg
        (fun hopen' => nomatch hopen') hfull
  | noReboot c path contents s =>
      let c₁ := (c.setSystem s).log (.openRebootFile path false)
      have htrace : c₁.trace = c.trace ++ [.openRebootFile path false] := rfl
      obtain ⟨hlaw, hbusy, howed, hseg⟩ :=
        hdue.log_calm htrace (by simp [Event.isCalm, Event.isSilent])
      exact replied_ordered (c := c₁) _ hlaw hdue.idle hbusy howed hseg
        (fun _ => hdue.sendOpen) hfull

/-- The prompt behind a data handler, while everything is sent. -/
theorem released_full {c : Connection} (resumes : Bool) (hopen : c.io.sock.mSendClosed = false)
    (hfull : FullSends (c.released resumes (writePrompt [] c.io)).trace) :
    (c.released resumes (writePrompt [] c.io)).trace =
        c.trace ++ [.send (mPrompt ++ [0]) 3, .prompt, .release resumes] ∧
      (c.released resumes (writePrompt [] c.io)).io.sock = c.io.sock := by
  rcases writePrompt_cases [] c.io with ⟨hshut, -⟩ | ⟨-, io, hwrote, heq⟩
  · exact absurd (hopen.symm.trans hshut) (by decide)
  · rw [heq] at hfull ⊢
    have hbytes : ([] ++ mPrompt ++ [0] : Bytes).take (wrap32 ([] ++ mPrompt ++ [0]).length) =
        mPrompt ++ [0] := by decide
    rw [hbytes] at hwrote
    obtain ⟨hio, hsock⟩ := hwrote.full hopen (hfull.of_prefix
      ((List.prefix_append _ _).trans (List.prefix_append _ _)))
    constructor
    · show io.trace ++ [.prompt] ++ [.release resumes] = _
      rw [hio]
      show c.trace ++ [.send (mPrompt ++ [0]) 3] ++ [.prompt] ++ [.release resumes] = _
      simp
    · exact hsock

/-- A prompt and the release of a data handler that has finished. -/
theorem released_ordered {c : Connection} {h : DataEventHandler} (hord : Ordered c)
    (hopen : c.mClosed = false) (hdata : c.mDataEventHandler = some h) (hclosed : h.closed = true)
    (resumes : Bool) (hfull : FullSends (c.released resumes (writePrompt [] c.io)).trace) :
    Ordered (c.released resumes (writePrompt [] c.io)) := by
  have hb := hord.balanced hopen
  have hbusy : c.mDataEventHandler.isSome = true := by rw [hdata]; rfl
  have howed := hb.owing hbusy
  obtain ⟨htrace, hsock⟩ := released_full resumes hb.sendOpen hfull
  constructor
  · rw [htrace, lawful_append]
    refine ⟨hord.lawful, howed, ?_, trivial, trivial⟩
    have hseg := hb.segment
    rw [hdata] at hseg
    intro hlaunched
    rcases h with h | h | h
    · have hnone : launched ((books c.trace).segment ++ [.send (mPrompt ++ [0]) 3]) = false :=
        (calm_launched (by simp [Event.isCalm])).trans hseg
      exact absurd (hnone.symm.trans hlaunched) (by decide)
    · have hnone : launched ((books c.trace).segment ++ [.send (mPrompt ++ [0]) 3]) = false :=
        (calm_launched (by simp [Event.isCalm])).trans hseg
      exact absurd (hnone.symm.trans hlaunched) (by decide)
    · have hended : ChildEnded (books c.trace).segment := by
        have hchild : h.mClosed = true := hclosed
        unfold Segment at hseg
        dsimp only at hseg
        rwa [hchild, if_pos rfl] at hseg
      exact hended.prompted
  · intro _
    rw [htrace, books_append]
    refine ⟨?_, rfl, ?_, ?_⟩
    · exact (congrArg BufferedSocket.mSendClosed hsock).trans hb.sendOpen
    · show (books c.trace).prompts + 1 + 0 = (books c.trace).commands + 1
      rw [howed]
    · intro e he
      have hone : e ∈ [Event.release resumes] := he
      rw [List.mem_singleton.mp hone]
      rfl

/-- A poll only adds to the segment. -/
theorem polled_books {closed : Bool} {es : List Event} {b : Books}
    (h : SubprocessEventHandler.Polled closed es) (howed : b.prompts = b.commands) :
    es.foldl Books.enter b = { b with segment := b.segment ++ es } ∧
      Along InOrder Books.enter b es := by
  cases h with
  | again => exact ⟨by simp, along_nil⟩
  | data got => exact ⟨by simp [Books.enter], trivial, howed, trivial⟩
  | eof ret => exact ⟨by simp [Books.enter, SubprocessEventHandler.closing], trivial, howed, trivial⟩
  | error ret =>
      exact ⟨by simp [Books.enter, SubprocessEventHandler.closing], trivial, howed, trivial, howed,
        trivial⟩

/-- What a poll of the child does to the books. -/
theorem Ordered.ticked {c : Connection} {io : Io} {es : List Event}
    {h h' : SubprocessEventHandler} (hord : Ordered c) (hopen : c.mClosed = false)
    (hdata : c.mDataEventHandler = some (.subprocess h)) (hrun : h.mClosed = false)
    (htrace : io.trace = c.trace ++ es) (hpolled : SubprocessEventHandler.Polled h'.mClosed es)
    (hsend : io.sock.mSendClosed = false) : Ordered (c.setData (.subprocess h') io) := by
  have hb := hord.balanced hopen
  have hbusy : c.mDataEventHandler.isSome = true := by rw [hdata]; rfl
  have howed := hb.owing hbusy
  obtain ⟨hbooks, halong⟩ := polled_books hpolled howed
  have htrace' : (c.setData (.subprocess h') io).trace = c.trace ++ es := htrace
  constructor
  · rw [htrace', lawful_append]
    exact ⟨hord.lawful, halong⟩
  · intro _
    rw [htrace', books_append, hbooks]
    refine ⟨hsend, hb.busy.trans hbusy, hb.balance, ?_⟩
    have hseg := hb.segment
    rw [hdata] at hseg
    unfold Segment at hseg ⊢
    dsimp only at hseg ⊢
    rw [hrun, if_neg (by decide)] at hseg
    exact hseg.polled hpolled

theorem closed_ordered {c : Connection} (hlaw : Along InOrder Books.enter {} c.trace) :
    Ordered (closed c) := by
  refine ⟨?_, fun hopen => nomatch hopen⟩
  show Along InOrder Books.enter {} (BufferedSocket.close c.io).trace
  unfold BufferedSocket.close
  split
  · exact hlaw
  · rw [Io.log_trace, lawful_append]
    exact ⟨hlaw, trivial, trivial⟩

theorem Step.ordered {P : Platform} {c c' : Connection} (h : Step P c c') (hs : c.Sound)
    (hord : Ordered c) (hfull : FullSends c'.trace) : Ordered c' := by
  cases h with
  | recv io hopen hstep =>
      obtain ⟨⟨es, htrace, hes⟩, hsend⟩ := recvStep_silent hstep
      exact hord.silent htrace hes rfl rfl hsend
  | line c' raw b hopen hidle hraw hget hline =>
      -- an empty line is no command: no prompt is due for it
      by_cases hcommand : isCommand (trim raw) = true
      · refine hline.ordered ?_ (handling_due hord hopen hidle b hcommand) hfull
        intro hempty
        rw [lineKind_empty_iff] at hempty
        exact absurd (hempty.symm.trans hcommand) (by decide)
      · rw [Bool.not_eq_true] at hcommand
        rw [(lineKind_empty_iff P (trim raw)).mpr hcommand] at hline
        cases hline
        have hb := hord.balanced hopen
        obtain ⟨hbusy, heven⟩ := hb.even hidle
        refine ⟨handling_lawful hord hopen hidle raw b, fun _ => ⟨hb.sendOpen, ?_, ?_, ?_⟩⟩
        · rw [handling_books]
          exact hb.busy
        · rw [handling_books, hcommand]
          exact hb.balance
        · show Segment c.mDataEventHandler _
          rw [hidle]
          exact handling_silent hb hidle raw b
  | push h h' io hdata hstep =>
      have hopen := hs.open_of_busy hdata
      have hb := hord.balanced hopen
      have hbusy : c.mDataEventHandler.isSome = true := by rw [hdata]; rfl
      have hseg : ∀ es : List Event, (∀ e ∈ es, e.isCalm = true) → ∀ seg,
          Segment c.mDataEventHandler seg → Segment (some (.push h')) (seg ++ es) := by
        intro es hes seg hseg
        rw [hdata] at hseg
        exact (calm_launched hes).trans hseg
      cases hstep with
      | recv h io₀ io' _ hrecv =>
          obtain ⟨⟨es, htrace, hes⟩, hsend⟩ := recvStep_silent hrecv
          have hcalm : ∀ e ∈ es, e.isCalm = true := fun e he => (hes e he).1
          exact hord.worked hopen hbusy (hseg es hcalm) htrace hcalm (hsend hb.sendOpen)
      | chunk h io₀ bs b =>
          obtain ⟨n, htrace⟩ := h.store_trace bs ((c.io.setBuffer b).log (.read bs))
          have hcalm : ∀ e ∈ [Event.read bs, .writeFile bs n], e.isCalm = true := by
            simp [Event.isCalm]
          exact hord.worked hopen hbusy (hseg _ hcalm) (htrace.trans (List.append_assoc ..)) hcalm
            hb.sendOpen
      | finish h io' =>
          obtain ⟨es, htrace, hcalm, hsend⟩ := frame_calm (h.finish_frame c.io) hfull hb.sendOpen
          exact hord.worked hopen hbusy (hseg es hcalm) htrace hcalm hsend
  | pull desc h h' io hdata hrun hresult =>
      have hopen := hs.open_of_busy hdata
      have hbusy : c.mDataEventHandler.isSome = true := by rw [hdata]; rfl
      have hspec := PullFileEventHandler.handleEvent_spec desc c.io (hs.data _ hdata) hrun
      obtain ⟨es, htrace, hcalm, hsend⟩ := frame_calm ((ensures_ok hresult).mp hspec).1 hfull
        (hord.balanced hopen).sendOpen
      refine hord.worked hopen hbusy ?_ htrace hcalm hsend
      intro seg hseg
      rw [hdata] at hseg
      exact (calm_launched hcalm).trans hseg
  | release h resumes hopen hdata hclosed =>
      exact released_ordered hord hopen hdata hclosed resumes hfull
  -- the output of a subprocess goes out between the command and its prompt
  | tick h hdata hrun =>
      have hopen := hs.open_of_busy hdata
      have hb := hord.balanced hopen
      have hbusy : c.mDataEventHandler.isSome = true := by rw [hdata]; rfl
      obtain ⟨htick, htickSock⟩ := h.tick_trace P c.io
      have hfull' : FullSends (h.poll c.io).2.trace := htick ▸ hfull
      obtain ⟨hsock, es, htrace, hpolled⟩ :=
        SubprocessEventHandler.poll_full (hs.data _ hdata) hrun hb.sendOpen hfull'
      exact hord.ticked hopen hdata hrun (htick.trans htrace) hpolled (by
        rw [htickSock, hsock]
        exact hb.sendOpen)
  -- no prompt is sent behind a `close`
  | eof =>
      apply closed_ordered
      unfold dropped
      split
      · show Along InOrder Books.enter {} (c.trace ++ [.release false])
        rw [lawful_append]
        exact ⟨hord.lawful, trivial, trivial⟩
      · exact hord.lawful
  | wait os timers =>
      refine ⟨hord.lawful, fun hopen => ?_⟩
      have hb := hord.balanced hopen
      exact ⟨hb.sendOpen, hb.busy, hb.balance, hb.segment⟩

/-! ## Runs -/

theorem new_ordered (socket : Nat) (os : Os) (hfull : FullSends (new socket os).trace) :
    Ordered (new socket os) := by
  let io : Io := { sock := .new socket, os }
  have hopen : io.sock.mSendClosed = false := rfl
  have hbytes : ([] ++ mPrompt ++ [0] : Bytes).take (wrap32 ([] ++ mPrompt ++ [0]).length) =
      mPrompt ++ [0] := by decide
  rcases writePrompt_cases [] io with ⟨hshut, -⟩ | ⟨-, io', hwrote, heq⟩
  · exact absurd (hopen.symm.trans hshut) (by decide)
  · have hnew : (new socket os).io = io'.log .prompt := heq
    rw [hbytes] at hwrote
    have hfull' : FullSends io'.trace := by
      refine hfull.of_prefix ?_
      show io'.trace <+: (new socket os).io.trace
      rw [hnew]
      exact List.prefix_append _ _
    obtain ⟨hio, hsock⟩ := hwrote.full hopen hfull'
    have htrace : (new socket os).trace = [.send (mPrompt ++ [0]) 3, .prompt] := by
      show (new socket os).io.trace = _
      rw [hnew, Io.log_trace, hio]
      rfl
    constructor
    · rw [htrace]
      refine ⟨rfl, ?_, trivial⟩
      intro hlaunched
      cases hlaunched
    · intro _
      rw [htrace]
      refine ⟨?_, rfl, rfl, ?_⟩
      · rw [hnew]
        exact (congrArg BufferedSocket.mSendClosed hsock).trans hopen
      · exact fun e he => absurd he List.not_mem_nil

theorem ordered_path {P : Platform} {c c' : Connection} (hpath : ReflTransGen (Step P) c c')
    (hs : c.Sound) (h : FullSends c.trace → Ordered c) : FullSends c'.trace → Ordered c' := by
  refine (invariant_path (I := fun c => c.Sound ∧ (FullSends c.trace → Ordered c)) ?_ hpath
    ⟨hs, h⟩).2
  rintro c c' hstep ⟨hs, h⟩
  refine ⟨hstep.sound hs, fun hfull => ?_⟩
  exact hstep.ordered hs (h (hfull.of_prefix (hstep.trace_grows hs))) hfull

end CommandEventHandler

end Negatus
