import Negatus.CommandEventHandler.Run

/-!
# The reader of a connection

How a connection takes up its input, without anything that it answers: bytes are
received, lines and payload are taken from the front of the buffer, data handlers
come and go. Every step of a connection is a step of its reader or leaves it as
it is.
-/

namespace Negatus

open Foundations BufferedSocket Relation
open BlockBuffer (firstLine)

/-- The calls by which a connection takes up its input. -/
def Event.isReading : Event → Bool
  | .recv _ | .readLine _ | .read _ | .handleLine _ | .openWrite _ _ | .writeFile _ _
  | .openRebootFile _ _ | .attach | .release _ => true
  | _ => false

def reading (t : List Event) : List Event := t.filter Event.isReading

@[simp] theorem reading_append (t u : List Event) : reading (t ++ u) = reading t ++ reading u :=
  List.filter_append t u

theorem reading_eq_nil {t : List Event} (h : ∀ e ∈ t, e.isReading = false) : reading t = [] :=
  List.filter_eq_nil_iff.mpr fun e he => by simp [h e he]

/-! ## What a trace says about the input -/

def received (t : List Event) : Bytes :=
  t.flatMap fun
    | .recv bs => bs
    | _ => []

/-- The bytes that have been taken from the buffer. -/
def consumed (t : List Event) : Bytes :=
  t.flatMap fun
    | .readLine bs | .read bs => bs
    | _ => []

/-- The results of opening files for writing. -/
def opens (t : List Event) : List Bool :=
  t.flatMap fun
    | .openWrite _ ok | .openRebootFile _ ok => [ok]
    | _ => []

@[simp] theorem received_append (t u : List Event) : received (t ++ u) = received t ++ received u :=
  List.flatMap_append

@[simp] theorem consumed_append (t u : List Event) : consumed (t ++ u) = consumed t ++ consumed u :=
  List.flatMap_append

@[simp] theorem opens_append (t u : List Event) : opens (t ++ u) = opens t ++ opens u :=
  List.flatMap_append

theorem flatMap_reading {β : Type} {f : Event → List β} (hf : ∀ e, e.isReading = false → f e = [])
    (t : List Event) : (reading t).flatMap f = t.flatMap f := by
  induction t with
  | nil => rfl
  | cons e t ih =>
      cases he : e.isReading with
      | true => simpa [reading, he] using ih
      | false => simpa [reading, he, hf e he] using ih

@[simp] theorem received_reading (t : List Event) : received (reading t) = received t :=
  flatMap_reading (fun e he => by cases e <;> first | rfl | cases he) t

@[simp] theorem consumed_reading (t : List Event) : consumed (reading t) = consumed t :=
  flatMap_reading (fun e he => by cases e <;> first | rfl | cases he) t

@[simp] theorem opens_reading (t : List Event) : opens (reading t) = opens t :=
  flatMap_reading (fun e he => by cases e <;> first | rfl | cases he) t

/-! ## The reader -/

/-- What the next byte of the buffer is for. -/
inductive ReadMode where
  | line
  | payload (left : Nat)
  | done
deriving DecidableEq

structure Reader where
  trace : List Event
  unread : Bytes
  /-- is a data handler attached? -/
  busy : Bool
  mode : ReadMode

def Reader.start : Reader := ⟨[], [], false, .line⟩

namespace Connection

def mode (c : Connection) : ReadMode :=
  if c.mClosed then .done
  else
    match c.mDataEventHandler with
    | some (.push h) => if h.mClosed then .line else .payload (h.mSize - h.mBytesWritten).toNat
    | _ => .line

def reader (c : Connection) : Reader :=
  ⟨reading c.trace, c.unread, c.mDataEventHandler.isSome, c.mode⟩

end Connection

/-- Kinds of lines that neither start a payload nor end the connection. -/
def LineKind.plain : LineKind → Bool
  | .empty | .answer _ | .pull _ _ _ _ | .exec _ => true
  | _ => false

/-- What a line of a kind does to the reader: the calls it adds, whether a data
handler is attached, and how reading goes on. -/
inductive Opened : LineKind → List Event → Bool → ReadMode → Prop
  | plain (k : LineKind) (hk : k.plain = true) (busy : Bool) :
      Opened k (if busy then [.attach] else []) busy .line
  | push (path : Bytes) (size : UInt64) (ok : Bool) :
      Opened (.push path size) [.openWrite path ok, .attach] true
        (if ok then .payload size.toNat else .line)
  | noReboot (contents path : Bytes) :
      Opened (.reboot (some contents)) [.openRebootFile path false] false .line
  /-- `quit`, an accepted `rebt`, or the end of the process -/
  | stop (k : LineKind) (es : List Event)
      (hes : es = [] ∨ ∃ path, es = [.openRebootFile path true]) : Opened k es false .done

/-- The calls behind a line take nothing more from the input. -/
theorem Opened.consumed_nil {k : LineKind} {es : List Event} {busy : Bool} {mode : ReadMode}
    (h : Opened k es busy mode) : received es = [] ∧ consumed es = [] := by
  cases h with
  | plain k hk busy => cases busy <;> exact ⟨rfl, rfl⟩
  | push path size ok => exact ⟨rfl, rfl⟩
  | noReboot contents path => exact ⟨rfl, rfl⟩
  | stop k es hes => rcases hes with rfl | ⟨path, rfl⟩ <;> exact ⟨rfl, rfl⟩

/-- They dispatch no line. -/
theorem Opened.no_line {k : LineKind} {es : List Event} {busy : Bool} {mode : ReadMode}
    (h : Opened k es busy mode) : ∀ line, .handleLine line ∉ es := by
  intro line
  cases h with
  | plain k hk busy => cases busy <;> simp
  | push path size ok => simp
  | noReboot contents path => simp
  | stop k es hes => rcases hes with rfl | ⟨path, rfl⟩ <;> simp

/-- The steps of a reader. -/
inductive ReaderStep (P : Platform) : Reader → Reader → Prop
  | recv (r : Reader) (bs : Bytes) :
      ReaderStep P r { r with trace := r.trace ++ [.recv bs], unread := r.unread ++ bs }
  | line (r : Reader) (raw rest : Bytes) (es : List Event) (busy : Bool) (mode : ReadMode)
      (hmode : r.mode = .line) (hidle : r.busy = false) (hraw : raw ≠ [])
      (hsplit : raw ++ rest = r.unread)
      (hfirst : FirstLineFits r.unread → firstLine r.unread = some (raw, rest))
      (hopened : Opened (CommandEventHandler.lineKind P (trim raw)) es busy mode) :
      ReaderStep P r
        ⟨r.trace ++ ([.readLine raw, .handleLine (trim raw)] ++ es), rest, busy, mode⟩
  | chunk (r : Reader) (bs rest : Bytes) (left stored : Nat) (hmode : r.mode = .payload left)
      (hbs : bs ≠ []) (hle : bs.length ≤ left) (hsplit : bs ++ rest = r.unread) :
      ReaderStep P r { r with
        trace := r.trace ++ [.read bs, .writeFile bs stored]
        unread := rest
        mode := .payload (left - bs.length) }
  | finish (r : Reader) (hmode : r.mode = .payload 0) : ReaderStep P r { r with mode := .line }
  | release (r : Reader) (resumes : Bool) (hbusy : r.busy = true) (hmode : r.mode = .line) :
      ReaderStep P r { r with trace := r.trace ++ [.release resumes], busy := false }
  | drop (r : Reader) (hbusy : r.busy = true) :
      ReaderStep P r { r with trace := r.trace ++ [.release false], busy := false, mode := .done }
  | stop (r : Reader) : ReaderStep P r { r with mode := .done }

/-! ## Steps of the connection are steps of the reader -/

theorem frame_reading {io io' : Io} (h : Frame io io') : reading io'.trace = reading io.trace := by
  obtain ⟨es, htrace, hes, -⟩ := h.trace
  have hnil : reading es = [] := reading_eq_nil fun e he => by
    have hout := hes e he
    cases e <;> first | rfl | cases hout
  rw [htrace, reading_append, hnil, List.append_nil]

namespace CommandEventHandler

open Connection (handling setData released dropped meanwhile reader)

theorem close_reading (io : Io) : reading (BufferedSocket.close io).trace = reading io.trace := by
  unfold BufferedSocket.close
  split
  · rfl
  · exact (reading_append _ _).trans (List.append_nil _)

theorem writePrompt_reading (text : Bytes) (io : Io) :
    reading (writePrompt text io).trace = reading io.trace := by
  rcases writePrompt_cases text io with ⟨-, heq⟩ | ⟨-, io', hwrote, heq⟩
  · rw [heq]
  · rw [heq, Io.log_trace, reading_append, frame_reading hwrote.frame]
    exact List.append_nil _

theorem replied_reader (result : Bytes) (c : Connection) :
    (replied result c).reader = c.reader := by
  have hmode : (replied result c).mode = c.mode := by
    unfold Connection.mode
    rw [replied_data, replied_closed]
  have hio : reading (replied result c).trace = reading c.trace ∧
      (replied result c).unread = c.unread := by
    unfold replied
    split
    · exact ⟨writePrompt_reading _ _, (writePrompt_sameInput _ _).unread⟩
    · exact ⟨rfl, rfl⟩
  unfold reader
  rw [hmode, hio.1, hio.2, replied_data]

theorem closed_reader (c : Connection) :
    (closed c).reader = { c.reader with mode := .done } := by
  unfold reader
  rw [show (closed c).mode = .done from rfl,
    show reading (closed c).trace = reading c.trace from close_reading c.io,
    show (closed c).unread = c.unread from (close_sameInput c.io).unread]
  rfl

theorem idle_reader {c : Connection} (hopen : c.mClosed = false)
    (hidle : c.mDataEventHandler = none) :
    c.reader = ⟨reading c.trace, c.unread, false, .line⟩ := by
  unfold reader Connection.mode
  rw [hopen, hidle]
  rfl

theorem attached_reader (h : DataEventHandler) (io : Io) (c : Connection) :
    (attached h io c).reader =
      ⟨reading io.trace ++ [.attach], io.unread, true, (attached h io c).mode⟩ := by
  unfold reader
  rw [show reading (attached h io c).trace = reading io.trace ++ [.attach] from reading_append _ _]
  rfl

section

variable {P : Platform}

theorem setIo_reader (io : Io) (c : Connection) :
    (c.setIo io).reader = { c.reader with trace := reading io.trace, unread := io.unread } := rfl

theorem recvStep_reader {c : Connection} {io : Io} (h : RecvStep c.io io) :
    ReflGen (ReaderStep P) c.reader (c.setIo io).reader := by
  have hsame : ∀ io, reading io.trace = reading c.trace → io.unread = c.unread →
      ReflGen (ReaderStep P) c.reader (c.setIo io).reader := by
    intro io htrace hunread
    rw [setIo_reader, htrace, hunread]
    exact .refl
  cases h with
  | quiet os b hb => exact hsame _ rfl hb
  | data os bs b hopen hb =>
      rw [setIo_reader, Io.log_trace, reading_append, Io.log_unread, Io.setBuffer_unread, hb]
      exact .single (.recv c.reader bs)
  | ended os hopen =>
      obtain ⟨hbuffer, -, -, -, -, es, hes, htrace⟩ :=
        closeRecv_facts ((c.io.setOs os).log .recvEnd)
      refine hsame _ ?_ (congrArg ReadBuffer.unread hbuffer)
      rw [htrace]
      rcases hes with rfl | rfl <;> simp [reading, Event.isReading, Connection.trace]

/-- A line that returns does to the reader what its kind says. -/
theorem performed_reader {k : LineKind} {c c' : Connection} (h : Performed P k c c')
    (hopen : c.mClosed = false) (hidle : c.mDataEventHandler = none) :
    ∃ es busy mode, Opened k es busy mode ∧
      c'.reader = ⟨reading c.trace ++ es, c.unread, busy, mode⟩ := by
  have hc : ∀ c₁ : Connection, c₁.reader = c.reader →
      c₁.reader = ⟨reading c.trace ++ [], c.unread, false, .line⟩ := by
    intro c₁ heq
    rw [heq, idle_reader hopen hidle, List.append_nil]
  have hexec : ∀ {cmdLine env h io}, SubprocessEventHandler.new P cmdLine env c.io = (h, io) →
      reading io.trace = reading c.trace ∧ io.unread = c.unread := by
    intro cmdLine env h io hnew
    obtain ⟨os, vars, ok, -, heq⟩ := SubprocessEventHandler.new_spec P cmdLine env c.io
    obtain ⟨-, rfl⟩ := Prod.mk.inj (hnew.symm.trans heq)
    have hpopen : reading (c.io.trace ++ [Event.popen cmdLine vars ok]) = reading c.io.trace := by
      simp [reading, Event.isReading]
    cases ok <;> exact ⟨hpopen, rfl⟩
  cases h with
  | empty => exact ⟨[], false, .line, .plain _ rfl false, hc c rfl⟩
  | answer _ result r s =>
      exact ⟨[], false, .line, .plain _ rfl false, hc _ (replied_reader r (c.setSystem s))⟩
  | pull _ path start size includeHeader h io hnew =>
      have hframe := PullFileEventHandler.new_frame path start size includeHeader c.io
      rw [hnew] at hframe
      refine ⟨[.attach], true, .line, .plain _ rfl true, ?_⟩
      rw [attached_reader, frame_reading hframe, hframe.unread]
      simp only [attached, Connection.mode, hopen]
      rfl
  | push _ path size h io hnew =>
      have hframe := PushFileEventHandler.new_frame path size c.io
      have hfst := PushFileEventHandler.new_fst path size c.io
      rw [hnew] at hframe hfst
      obtain rfl : h = _ := hfst
      refine ⟨_, true, _, .push path size c.io.os.check.1, ?_⟩
      have hmode : (attached (.push ⟨path, c.io.os.check.1, 0, size, !c.io.os.check.1⟩) io c).mode =
          if c.io.os.check.1 then .payload size.toNat else .line := by
        simp only [attached, Connection.mode, hopen]
        cases c.io.os.check.1 <;> simp
      rw [attached_reader, frame_reading hframe, hframe.unread, hmode, Io.log_trace, reading_append,
        List.append_assoc]
      rfl
  | exec _ args cmdLine env h io hparse hnew hrun =>
      obtain ⟨htrace, hunread⟩ := hexec hnew
      refine ⟨[.attach], true, .line, .plain _ rfl true, ?_⟩
      rw [attached_reader, htrace, hunread]
      simp only [attached, Connection.mode, hopen]
      rfl
  | noExec _ args cmdLine env h io hparse hnew hclosed =>
      obtain ⟨htrace, hunread⟩ := hexec hnew
      refine ⟨[], false, .line, .plain _ rfl false, hc _ ?_⟩
      rw [replied_reader, setIo_reader, htrace, hunread]
      rfl
  | quit =>
      refine ⟨[], false, .done, .stop _ _ (Or.inl rfl), ?_⟩
      rw [replied_reader, closed_reader, idle_reader hopen hidle, List.append_nil]
  | noReboot _ path contents s =>
      refine ⟨_, false, .line, .noReboot contents path, ?_⟩
      rw [replied_reader, idle_reader (c := (c.setSystem s).log _) hopen hidle]
      exact congrArg (fun t => Reader.mk t c.unread false .line) (reading_append _ _)

theorem setData_reader (h : DataEventHandler) (io : Io) {c : Connection}
    (hopen : c.mClosed = false) :
    (c.setData h io).reader = ⟨reading io.trace, io.unread, true,
      match h with
      | .push h => if h.mClosed then .line else .payload (h.mSize - h.mBytesWritten).toNat
      | _ => .line⟩ := by
  unfold reader Connection.mode
  simp only [setData, hopen]
  cases h <;> rfl

theorem left_after_store {h : PushFileEventHandler} {bs : Bytes}
    (hle : bs.length ≤ (h.mSize - h.mBytesWritten).toNat) :
    (h.mSize - (h.mBytesWritten + UInt64.ofNat bs.length)).toNat =
      (h.mSize - h.mBytesWritten).toNat - bs.length := by
  have hlt := (h.mSize - h.mBytesWritten).toNat_lt
  have hlen : (UInt64.ofNat bs.length).toNat = bs.length :=
    UInt64.toNat_ofNat_of_lt' (Nat.lt_of_le_of_lt hle hlt)
  have hw := h.mBytesWritten.toNat_lt
  have hsize := h.mSize.toNat_lt
  rw [UInt64.toNat_sub] at hle ⊢
  rw [UInt64.toNat_sub, UInt64.toNat_add, hlen]
  omega

theorem pushStep_reader {c : Connection} {h h' : PushFileEventHandler} {io : Io}
    (hopen : c.mClosed = false)
    (hstep : PushFileEventHandler.PushStep (h, c.io) (h', io)) :
    ReflGen (ReaderStep P) (c.setData (.push h) c.io).reader (c.setData (.push h') io).reader := by
  cases hstep with
  | recv _ _ _ hrun hrecv => exact recvStep_reader (c := c.setData (.push h) c.io) hrecv
  | chunk _ _ bs b hrun hless hbs hle hsplit =>
      have hmode : (c.setData (.push h) c.io).mode =
          .payload (h.mSize - h.mBytesWritten).toNat := by
        simp [Connection.mode, setData, hopen, hrun]
      have hstep := ReaderStep.chunk (P := P) (c.setData (.push h) c.io).reader bs b.unread _
        (c.io.os.write bs.length).1 hmode hbs hle hsplit
      have heq : (c.setData (.push (h.store bs ((c.io.setBuffer b).log (.read bs))).1)
          (h.store bs ((c.io.setBuffer b).log (.read bs))).2).reader =
          ⟨reading c.trace ++ [.read bs, .writeFile bs (c.io.os.write bs.length).1], b.unread, true,
            .payload ((h.mSize - h.mBytesWritten).toNat - bs.length)⟩ := by
        rw [setData_reader _ _ hopen]
        simp only [PushFileEventHandler.store, hrun, left_after_store hle]
        simp [reading, Event.isReading, Connection.trace]
      exact heq ▸ .single hstep
  | finish _ _ hrun hdone =>
      have hframe := PushFileEventHandler.finish_frame h c.io
      have hmode : (c.setData (.push h) c.io).mode = .payload 0 := by
        simp [Connection.mode, setData, hopen, hrun, hdone]
      have hclosed : (h.finish c.io).1.mClosed = true := h.close_closed c.io
      have heq : (c.setData (.push (h.finish c.io).1) (h.finish c.io).2).reader =
          { (c.setData (.push h) c.io).reader with mode := .line } := by
        rw [setData_reader _ _ hopen, frame_reading hframe, hframe.unread]
        simp only [hclosed]
        rfl
      exact heq ▸ .single (.finish _ hmode)

/-- What `getline` takes from the buffer, and that it is the first line if that fits. -/
theorem getline_reads {c : Connection} {raw : Bytes} {b : ReadBuffer}
    (hget : c.io.sock.mReadBuffer.getline = some (raw, (raw.length : Int), b)) (hraw : raw ≠ []) :
    raw ++ b.unread = c.unread ∧
      (FirstLineFits c.unread → firstLine c.unread = some (raw, b.unread)) := by
  refine ⟨(c.io.sock.mReadBuffer.getline_unread hget).1, fun hfits => ?_⟩
  obtain ⟨b', ⟨-, hget', -⟩ | ⟨line, hline, hget'⟩⟩ :=
    c.io.sock.mReadBuffer.getline_firstLine hfits
  · obtain ⟨rfl, -⟩ : raw = [] ∧ _ := by simpa using hget.symm.trans hget'
    exact absurd rfl hraw
  · obtain ⟨rfl, -, rfl⟩ : raw = line ∧ _ ∧ b = b' := by simpa using hget.symm.trans hget'
    exact hline

theorem handling_reading (raw : Bytes) (b : ReadBuffer) (c : Connection) :
    reading (c.handling raw b).trace =
      reading c.trace ++ [.readLine raw, .handleLine (trim raw)] := by
  simp [handling, Connection.trace, Connection.setIo, reading, Event.isReading]

theorem released_reading (resumes : Bool) (io : Io) (c : Connection) :
    reading (c.released resumes io).trace = reading io.trace ++ [.release resumes] :=
  reading_append _ _

theorem tick_reading (h : SubprocessEventHandler) (io : Io) :
    reading (h.tick P io).2.trace = reading io.trace ∧ (h.tick P io).2.unread = io.unread := by
  have hlog : ∀ (io : Io) (e : Event), e.isReading = false →
      reading (io.log e).trace = reading io.trace := by
    intro io e he
    rw [Io.log_trace, reading_append, reading_eq_nil (t := [e]) (by simpa using he),
      List.append_nil]
  have hclose : ∀ io, reading (h.close io).2.trace = reading io.trace ∧
      (h.close io).2.unread = io.unread := by
    intro io
    unfold SubprocessEventHandler.close
    split
    · have hframe := fun msg io => writeString_frame msg io
      exact ⟨(frame_reading (hframe _ _)).trans (hlog _ _ rfl), (hframe _ _).unread⟩
    · exact ⟨rfl, rfl⟩
  have hpoll : reading (h.poll io).2.trace = reading io.trace ∧
      (h.poll io).2.unread = io.unread := by
    unfold SubprocessEventHandler.poll
    dsimp only
    split
    · have hframe := writeString_frame (agentWarn (str "error reading from pipe"))
        ((io.setOs io.os.pipe.2).log .pipeError)
      exact ⟨(hclose _).1.trans ((frame_reading hframe).trans (hlog _ _ rfl)),
        (hclose _).2.trans hframe.unread⟩
    · have hframe := fun got io => (write_wrote (Nat.le_refl (List.length got)) io).frame
      exact ⟨(frame_reading (hframe _ _)).trans (hlog _ _ rfl), (hframe _ _).unread⟩
    · exact hclose _
    · exact ⟨rfl, rfl⟩
  unfold SubprocessEventHandler.tick
  dsimp only
  split <;> exact hpoll

/-- **The reader simulates the connection.** -/
theorem Step.simulated {c c' : Connection} (h : Step P c c') (hs : c.Sound) :
    ReflGen (ReaderStep P) c.reader c'.reader := by
  cases h with
  | recv io hopen hstep => exact recvStep_reader hstep
  | line _ raw b hopen hidle hraw hget hline =>
      obtain ⟨hsplit, hfirst⟩ := getline_reads hget hraw
      obtain ⟨es, busy, mode, hopened, heq⟩ :=
        performed_reader hline (c := c.handling raw b) hopen hidle
      have hreader := idle_reader hopen hidle
      have hstep := ReaderStep.line (P := P) c.reader raw b.unread es busy mode
        (congrArg Reader.mode hreader) (congrArg Reader.busy hreader) hraw hsplit hfirst hopened
      rw [heq, handling_reading, List.append_assoc]
      exact .single hstep
  | push h h' io hdata hstep =>
      have hlift := pushStep_reader (P := P) (hs.open_of_busy hdata) hstep
      rwa [setData_self hdata] at hlift
  | pull desc h h' io hdata hopen hrun =>
      have hspec := PullFileEventHandler.handleEvent_spec desc c.io (hs.data _ hdata) hopen
      have hframe := ((ensures_ok hrun).mp hspec).1
      have heq : (c.setData (.pull h') io).reader = c.reader := by
        conv_rhs => rw [← setData_self hdata]
        rw [setData_reader _ _ (hs.open_of_busy hdata), setData_reader _ _ (hs.open_of_busy hdata),
          frame_reading hframe, hframe.unread]
      exact heq ▸ .refl
  | release h resumes hopen hdata hclosed =>
      have hmode : c.mode = .line := by
        unfold Connection.mode
        rw [hopen, hdata]
        cases h with
        | push h =>
            have hrun : h.mClosed = true := hclosed
            simp [hrun]
        | _ => rfl
      have hstep := ReaderStep.release (P := P) c.reader resumes (by simp [reader, hdata]) hmode
      have heq : (c.released resumes (writePrompt [] c.io)).reader =
          { c.reader with trace := c.reader.trace ++ [.release resumes], busy := false } := by
        rw [idle_reader (c := c.released resumes (writePrompt [] c.io)) hopen rfl, released_reading,
          writePrompt_reading]
        have hunread : (c.released resumes (writePrompt [] c.io)).unread = c.unread :=
          (writePrompt_sameInput [] c.io).unread
        unfold reader
        rw [hunread, hmode]
        rfl
      exact heq ▸ .single hstep
  | tick h hdata hopen =>
      have heq : (c.setData (.subprocess (h.tick P c.io).1) (h.tick P c.io).2).reader =
          c.reader := by
        conv_rhs => rw [← setData_self hdata]
        rw [setData_reader _ _ (hs.open_of_busy hdata), setData_reader _ _ (hs.open_of_busy hdata),
          (tick_reading h c.io).1, (tick_reading h c.io).2]
      exact heq ▸ .refl
  | eof hrecv =>
      rw [closed_reader]
      unfold dropped
      split
      · rename_i hbusy
        have heq : (c.released false c.io).reader =
            { c.reader with
              trace := c.reader.trace ++ [.release false], busy := false
              mode := (c.released false c.io).mode } := by
          unfold reader
          rw [released_reading]
          rfl
        rw [heq]
        exact .single (.drop c.reader hbusy)
      · exact .single (.stop c.reader)
  | wait os timers => exact .refl

theorem stopped_reading (c : Connection) :
    reading (stopped c).trace = reading c.trace ∧ (stopped c).unread = c.unread := by
  have htrace : (stopped c).trace =
      (BufferedSocket.close (BufferedSocket.close c.io)).trace ++ [.reboot] := rfl
  refine ⟨?_, ((close_sameInput c.io).trans (close_sameInput _)).unread⟩
  rw [htrace, reading_append, close_reading, close_reading]
  exact List.append_nil _

theorem failed_reading {k : LineKind} {e : Fault} {c c' : Connection} (h : Failed k c e c') :
    ∃ es, (es = [] ∨ ∃ path, es = [Event.openRebootFile path true]) ∧
      reading c'.trace = reading c.trace ++ es ∧ c'.unread = c.unread := by
  cases h with
  | crash _ x s => exact ⟨[], Or.inl rfl, (List.append_nil _).symm, rfl⟩
  | reboot =>
      obtain ⟨htrace, hunread⟩ := stopped_reading c
      exact ⟨[], Or.inl rfl, htrace.trans (List.append_nil _).symm, hunread⟩
  | rebootCallback _ path contents s =>
      obtain ⟨htrace, hunread⟩ := stopped_reading
        (((c.setSystem s).log (.openRebootFile path true)).log (.writeRebootFile contents))
      refine ⟨[.openRebootFile path true], Or.inr ⟨path, rfl⟩, htrace.trans ?_, hunread⟩
      show reading (c.trace ++ [.openRebootFile path true] ++ [.writeRebootFile contents]) = _
      rw [reading_append, reading_append, List.append_assoc]
      rfl

/-- A call that fails has gone on with the line at most. -/
theorem Failing.simulated {e : Fault} {c c' : Connection} (h : Failing P e c c') :
    ∃ r, ReflGen (ReaderStep P) c.reader r ∧ r.trace = reading c'.trace ∧ r.unread = c'.unread := by
  cases h with
  | overlong => exact ⟨c.reader, .refl, rfl, rfl⟩
  | noData hidle => exact ⟨c.reader, .refl, rfl, rfl⟩
  | line _ _ raw b _ hopen hidle hraw hget hline =>
      obtain ⟨hsplit, hfirst⟩ := getline_reads hget hraw
      have hreader := idle_reader hopen hidle
      obtain ⟨es, hes, htrace, hunread⟩ := failed_reading hline
      rw [handling_reading, List.append_assoc] at htrace
      exact ⟨_, .single (.line c.reader raw b.unread es false .done (congrArg Reader.mode hreader)
        (congrArg Reader.busy hreader) hraw hsplit hfirst (.stop _ es hes)), htrace.symm,
        hunread.symm⟩

end

theorem new_reader (socket : Nat) (os : Os) : (new socket os).reader = .start := by
  have htrace : reading (new socket os).trace = [] := writePrompt_reading [] _
  rw [idle_reader (c := new socket os) rfl rfl, htrace, (new_facts socket os).1]
  rfl

/-- **Every run of a connection is a run of its reader.** -/
theorem reached_reader (P : Platform) (socket : Nat) (os : Os) (acts : List Act) :
    ∃ r, ReflTransGen (ReaderStep P) .start r ∧ r.trace = reading (reached P socket os acts).trace ∧
      r.unread = (reached P socket os acts).unread := by
  have hpath : ∀ {c}, ReflTransGen (Step P) (new socket os) c →
      c.Sound ∧ ReflTransGen (ReaderStep P) .start c.reader := by
    intro c hsteps
    refine invariant_path (I := fun c => c.Sound ∧ ReflTransGen (ReaderStep P) .start c.reader)
      (fun c c' h ⟨hs, hrun⟩ => ⟨h.sound hs, hrun.trans (h.simulated hs).to_reflTransGen⟩) hsteps ?_
    exact ⟨(new_rested socket os).toSound, new_reader socket os ▸ .refl⟩
  have hrun := run_leads (P := P) (new_rested socket os) acts
  unfold reached
  unfold Leads Ensures at hrun
  cases hres : run P acts (new socket os) with
  | ok a c =>
      rw [hres] at hrun
      exact ⟨c.reader, (hpath hrun.1).2, rfl, rfl⟩
  | error e c =>
      rw [hres] at hrun
      obtain ⟨c₁, hsteps, hfailing⟩ := hrun
      obtain ⟨r, hlast, htrace, hunread⟩ := hfailing.simulated
      exact ⟨r, (hpath hsteps).2.trans hlast.to_reflTransGen, htrace, hunread⟩

end CommandEventHandler

end Negatus
