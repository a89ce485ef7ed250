import Mathlib.Data.List.Induction
import Negatus.CommandEventHandler.Reader

/-!
# The sequential parse of the client's stream

The parse reads a stream byte by byte, with no buffer and no segments: a line up
to its newline is dispatched, and the bytes behind a push whose file has been
opened are its payload. Whatever the order of events, a connection has
dispatched and stored what the parse of its stream begins with.
-/

namespace Negatus

open Foundations BufferedSocket Relation
open BlockBuffer (firstLine)

/-- What comes out of the stream: the lines dispatched and the bytes of payload. -/
inductive Item where
  | line (text : Bytes)
  | payload (b : UInt8)
deriving DecidableEq, Repr

/-- The items of a run: `handleLine` calls and bytes handed to `PR_Write`. -/
def items (t : List Event) : List Item :=
  t.flatMap fun
    | .handleLine line => [.line line]
    | .writeFile bs _ => bs.map .payload
    | _ => []

@[simp] theorem items_append (t u : List Event) : items (t ++ u) = items t ++ items u :=
  List.flatMap_append

@[simp] theorem items_reading (t : List Event) : items (reading t) = items t :=
  flatMap_reading (fun e he => by cases e <;> first | rfl | cases he) t

/-! ## The parse -/

inductive ParseMode where
  /-- in a line that begins with `seen` -/
  | line (seen : Bytes)
  /-- `left` bytes before the end of a payload -/
  | payload (left : Nat)
  | done
deriving DecidableEq

/-- The state of the parse; `opens` are the results of the files still to be opened. -/
structure Parse where
  mode : ParseMode := .line []
  opens : List Bool
  items : List Item := []

namespace Parse

/-- A payload of `left` bytes begins. -/
def payloadMode (left : Nat) : ParseMode := if left = 0 then .line [] else .payload left

def dispatch (P : Platform) (line : Bytes) (p : Parse) : Parse :=
  let items := p.items ++ [.line line]
  match CommandEventHandler.lineKind P line with
  | .push _ size =>
      ⟨if p.opens.headD true then payloadMode size.toNat else .line [], p.opens.tail, items⟩
  | .quit | .reboot none => ⟨.done, p.opens, items⟩
  | .reboot (some _) => ⟨if p.opens.headD true then .done else .line [], p.opens.tail, items⟩
  | _ => ⟨.line [], p.opens, items⟩

def byte (P : Platform) (p : Parse) (b : UInt8) : Parse :=
  match p.mode with
  | .line seen =>
      if b = newline then p.dispatch P (trim (seen ++ [b]))
      else { p with mode := .line (seen ++ [b]) }
  | .payload left => ⟨payloadMode (left - 1), p.opens, p.items ++ [.payload b]⟩
  | .done => p

end Parse

/-- **The sequential parse** of a stream, given the results of opening files. -/
def parse (P : Platform) (opens : List Bool) (stream : Bytes) : Parse :=
  stream.foldl (Parse.byte P) { opens }

theorem parse_append (P : Platform) (opens : List Bool) (s u : Bytes) :
    parse P opens (s ++ u) = u.foldl (Parse.byte P) (parse P opens s) := List.foldl_append

namespace Parse

variable {P : Platform}

theorem dispatch_items (line : Bytes) (p : Parse) :
    (p.dispatch P line).items = p.items ++ [.line line] := by
  unfold dispatch
  dsimp only
  split <;> rfl

theorem byte_items (p : Parse) (b : UInt8) : p.items <+: (p.byte P b).items := by
  unfold byte
  split
  · split
    · rw [dispatch_items]
      exact List.prefix_append _ _
    · exact List.prefix_rfl
  · exact List.prefix_append _ _
  · exact List.prefix_rfl

/-- More input only adds items. -/
theorem foldl_items (s : Bytes) (p : Parse) : p.items <+: (s.foldl (byte P) p).items := by
  induction s generalizing p with
  | nil => exact List.prefix_rfl
  | cons b s ih => exact (p.byte_items b).trans (ih _)

theorem dispatch_mode (line : Bytes) (mode mode' : ParseMode) (opens : List Bool)
    (its : List Item) :
    dispatch P line ⟨mode, opens, its⟩ = dispatch P line ⟨mode', opens, its⟩ := rfl

/-- The bytes of a line dispatch it. -/
theorem foldl_line {q raw rest : Bytes} (h : firstLine q = some (raw, rest)) {seen : Bytes}
    {opens : List Bool} {its : List Item} :
    raw.foldl (byte P) ⟨.line seen, opens, its⟩ =
      dispatch P (trim (seen ++ raw)) ⟨.line [], opens, its⟩ := by
  unfold firstLine at h
  induction q generalizing raw seen with
  | nil => cases h
  | cons b q ih =>
      rw [splitAfter] at h
      by_cases hb : b = newline
      · obtain ⟨rfl, -⟩ : [b] = raw ∧ _ := by simpa [hb] using h
        simp only [List.foldl_cons, List.foldl_nil, byte, if_pos hb]
        exact dispatch_mode _ _ _ opens its
      · have hbeq : (b == newline) = false := by simpa using hb
        rw [hbeq, if_neg (by decide)] at h
        obtain ⟨s, hs, heq⟩ := Option.map_eq_some_iff.mp h
        obtain ⟨rfl, rfl⟩ := Prod.mk.inj heq
        have hbyte : byte P ⟨.line seen, opens, its⟩ b = ⟨.line (seen ++ [b]), opens, its⟩ := by
          simp [byte, hb]
        rw [List.foldl_cons, hbyte, ih hs, List.append_assoc]
        rfl

theorem foldl_payload {bs : Bytes} {left : Nat} (hle : bs.length ≤ left) {opens : List Bool}
    {its : List Item} :
    bs.foldl (byte P) ⟨payloadMode left, opens, its⟩ =
      ⟨payloadMode (left - bs.length), opens, its ++ bs.map .payload⟩ := by
  induction bs generalizing left its with
  | nil => simp
  | cons b bs ih =>
      have hpos : left ≠ 0 := by
        rintro rfl
        simp at hle
      have hbyte : byte P ⟨payloadMode left, opens, its⟩ b =
          ⟨payloadMode (left - 1), opens, its ++ [.payload b]⟩ := by
        simp [byte, payloadMode, hpos]
      rw [List.foldl_cons, hbyte, ih (by simp only [List.length_cons] at hle; omega)]
      simp [Nat.sub_sub, Nat.add_comm]

end Parse

/-! ## Lines that fit -/

/-- Is a data handler attached after `t`? -/
def busyAfter (t : List Event) : Bool :=
  t.foldl (fun busy e =>
    match e with
    | .attach => true
    | .release _ => false
    | _ => busy) false

/-- The bytes received and not yet taken. -/
def held (t : List Event) : Bytes := (received t).drop (consumed t).length

/-- Whenever the connection reads lines, the first line that it holds is shorter
than `2 ^ 31 - 1` bytes. -/
def LinesFit (t : List Event) : Prop :=
  ∀ past, past <+: t → busyAfter past = false → FirstLineFits (held past)

theorem LinesFit.of_prefix {t u : List Event} (h : LinesFit u) (hpre : t <+: u) : LinesFit t :=
  fun past hpast => h past (hpast.trans hpre)

/-- Every line fits while fewer than `2 ^ 31 - 1` bytes have been received. -/
theorem linesFit_of_received {t : List Event} (h : (received t).length < 2 ^ 31 - 1) :
    LinesFit t := by
  rintro past ⟨rest, rfl⟩ - line tail hline
  have happ := congrArg List.length (splitAfter_append_eq hline)
  rw [List.length_append, held, List.length_drop] at happ
  rw [received_append, List.length_append] at h
  omega

theorem busyAfter_append (t : List Event) (e : Event) :
    busyAfter (t ++ [e]) =
      match e with
      | .attach => true
      | .release _ => false
      | _ => busyAfter t := by
  unfold busyAfter
  rw [List.foldl_append]
  rfl

theorem busyAfter_reading (t : List Event) : busyAfter (reading t) = busyAfter t := by
  induction t using List.reverseRecOn with
  | nil => rfl
  | append_singleton t e ih =>
      rw [reading_append, busyAfter_append]
      cases e <;> first
        | exact (busyAfter_append _ _).trans ih
        | exact busyAfter_append _ _
        | exact (congrArg busyAfter (List.append_nil _)).trans ih

theorem linesFit_reading {t : List Event} (h : LinesFit t) : LinesFit (reading t) := by
  intro past hpre hidle
  obtain ⟨u, hu, rfl⟩ := List.prefix_filter_iff.mp hpre
  have hheld : held (u.filter Event.isReading) = held u :=
    congrArg₂ (fun r c => List.drop (List.length c) r) (received_reading u) (consumed_reading u)
  rw [hheld]
  exact h u hu ((busyAfter_reading u).symm.trans hidle)

/-! ## The reader follows the parse -/

def ReadMode.parse : ReadMode → ParseMode
  | .line => .line []
  | .payload left => Parse.payloadMode left
  | .done => .done

/-- The reader is where the parse of the bytes that it has taken is. -/
structure Synced (P : Platform) (r : Reader) : Prop where
  received : received r.trace = consumed r.trace ++ r.unread
  busy : busyAfter r.trace = r.busy
  items : LinesFit r.trace → ∀ more,
    (parse P (opens r.trace ++ more) (consumed r.trace)).items = items r.trace
  parsed : LinesFit r.trace → r.mode ≠ .done → ∀ more,
    parse P (opens r.trace ++ more) (consumed r.trace) = ⟨r.mode.parse, more, Negatus.items r.trace⟩

theorem Synced.held {P : Platform} {r : Reader} (h : Synced P r) : held r.trace = r.unread := by
  unfold Negatus.held
  rw [h.received, List.drop_left]

theorem start_synced (P : Platform) : Synced P .start where
  received := rfl
  busy := rfl
  items := fun _ _ => rfl
  parsed := fun _ _ _ => rfl

/-- A line is dispatched by the parse as its kind says. -/
theorem opened_dispatch {P : Platform} {line : Bytes} {es : List Event} {busy : Bool}
    {mode : ReadMode} (h : Opened (CommandEventHandler.lineKind P line) es busy mode)
    (hmode : mode ≠ .done) (more : List Bool) (its : List Item) :
    Parse.dispatch P line ⟨.line [], opens es ++ more, its⟩ =
      ⟨mode.parse, more, its ++ [.line line]⟩ := by
  unfold Parse.dispatch
  generalize CommandEventHandler.lineKind P line = k at h
  cases h with
  | plain k hk busy =>
      have hnone : opens (if busy then [Event.attach] else []) = [] := by cases busy <;> rfl
      rw [hnone]
      cases k with
      | empty | answer | pull | exec => rfl
      | _ => cases hk
  | push path size ok => cases ok <;> rfl
  | noReboot contents path => rfl
  | stop => exact absurd rfl hmode

/-- A step that takes nothing from the buffer. -/
theorem Synced.same {P : Platform} {r r' : Reader} (hr : Synced P r) (es : List Event)
    (htrace : r'.trace = r.trace ++ es) (hconsumed : consumed es = []) (hopens : opens es = [])
    (hitems : Negatus.items es = []) (hunread : r'.unread = r.unread ++ Negatus.received es)
    (hbusy : busyAfter (r.trace ++ es) = r'.busy)
    (hmode : r'.mode ≠ .done → r.mode ≠ .done ∧ r'.mode.parse = r.mode.parse) : Synced P r' := by
  have hfit : LinesFit r'.trace → LinesFit r.trace := fun h =>
    h.of_prefix (htrace ▸ List.prefix_append _ _)
  refine ⟨?_, htrace ▸ hbusy, fun hl more => ?_, fun hl hlive more => ?_⟩
  · rw [htrace, received_append, consumed_append, hconsumed, List.append_nil, hunread, hr.received,
      List.append_assoc]
  · rw [htrace, consumed_append, opens_append, items_append, hconsumed, hopens, hitems,
      List.append_nil, List.append_nil, List.append_nil, hr.items (hfit hl)]
  · rw [htrace, consumed_append, opens_append, items_append, hconsumed, hopens, hitems,
      List.append_nil, List.append_nil, List.append_nil, (hmode hlive).2,
      hr.parsed (hfit hl) (hmode hlive).1]

theorem Opened.items_nil {k : LineKind} {es : List Event} {busy : Bool} {mode : ReadMode}
    (h : Opened k es busy mode) :
    Negatus.items es = [] ∧ ∀ t, busyAfter t = false → busyAfter (t ++ es) = busy := by
  have hnil : ∀ t, busyAfter t = false → busyAfter (t ++ []) = false := fun t ht => by
    rw [List.append_nil, ht]
  cases h with
  | plain k hk busy =>
      cases busy with
      | false => exact ⟨rfl, hnil⟩
      | true => exact ⟨rfl, fun t _ => busyAfter_append t .attach⟩
  | push path size ok =>
      refine ⟨rfl, fun t _ => ?_⟩
      rw [List.append_cons]
      exact busyAfter_append _ .attach
  | noReboot contents path => exact ⟨rfl, fun t ht => (busyAfter_append t _).trans ht⟩
  | stop k es hes =>
      rcases hes with rfl | ⟨path, rfl⟩
      · exact ⟨rfl, hnil⟩
      · exact ⟨rfl, fun t ht => (busyAfter_append t _).trans ht⟩

/-- **A step of the reader is a step of the parse.** -/
theorem ReaderStep.synced {P : Platform} {r r' : Reader} (h : ReaderStep P r r') (hr : Synced P r) :
    Synced P r' := by
  have hbusy : ∀ e : Event, busyAfter (r.trace ++ [e]) =
      match e with
      | .attach => true
      | .release _ => false
      | _ => r.busy := fun e => hr.busy ▸ busyAfter_append r.trace e
  cases h with
  | recv bs =>
      exact hr.same [.recv bs] rfl rfl rfl rfl (congrArg (r.unread ++ ·) (List.append_nil bs).symm)
        (hbusy _) fun hlive => ⟨hlive, rfl⟩
  | finish hmode =>
      refine hr.same [] (List.append_nil _).symm rfl rfl rfl (List.append_nil _).symm ?_ fun _ => ?_
      · rw [List.append_nil]
        exact hr.busy
      · rw [hmode]
        exact ⟨by decide, rfl⟩
  | release resumes hb hmode =>
      exact hr.same [.release resumes] rfl rfl rfl rfl (List.append_nil _).symm (hbusy _)
        fun hlive => ⟨hlive, rfl⟩
  | drop hb =>
      exact hr.same [.release false] rfl rfl rfl rfl (List.append_nil _).symm (hbusy _)
        fun hlive => absurd rfl hlive
  | stop =>
      refine hr.same [] (List.append_nil _).symm rfl rfl rfl (List.append_nil _).symm ?_
        fun hlive => absurd rfl hlive
      rw [List.append_nil]
      exact hr.busy
  | chunk bs rest left stored hmode hbs hle hsplit =>
      -- the parser is in the payload as well, and takes these bytes for it
      have hparse : LinesFit (r.trace ++ [.read bs, .writeFile bs stored]) → ∀ more,
          parse P (opens (r.trace ++ [.read bs, .writeFile bs stored]) ++ more)
            (consumed (r.trace ++ [.read bs, .writeFile bs stored])) =
          ⟨Parse.payloadMode (left - bs.length), more,
            Negatus.items (r.trace ++ [.read bs, .writeFile bs stored])⟩ := by
        intro hl more
        have hpast := hr.parsed (hl.of_prefix (List.prefix_append _ _)) (by simp [hmode]) more
        have hread : consumed [.read bs, .writeFile bs stored] = bs := List.append_nil bs
        have hstored : Negatus.items [.read bs, .writeFile bs stored] = bs.map .payload :=
          List.append_nil _
        have hopens : opens [.read bs, .writeFile bs stored] = [] := rfl
        rw [consumed_append, opens_append, items_append, hread, hstored, hopens, List.append_nil,
          parse_append, hpast, hmode]
        exact Parse.foldl_payload hle
      refine ⟨?_, ?_, fun hl more => ?_, fun hl _ more => hparse hl more⟩
      · have hread : consumed [.read bs, .writeFile bs stored] = bs := List.append_nil bs
        have hnone : Negatus.received [.read bs, .writeFile bs stored] = [] := rfl
        rw [received_append, consumed_append, hread, hr.received, ← hsplit, hnone, List.append_nil,
          List.append_assoc]
      · rw [List.append_cons]
        exact (busyAfter_append _ _).trans ((busyAfter_append _ _).trans hr.busy)
      · rw [hparse hl more]
  | line raw rest es busy mode hmode hidle hraw hsplit hfirst hopened =>
      obtain ⟨hreceived, hconsumed⟩ := hopened.consumed_nil
      obtain ⟨hitems, hafter⟩ := hopened.items_nil
      have hread : consumed ([.readLine raw, .handleLine (trim raw)] ++ es) = raw := by
        rw [consumed_append, hconsumed, List.append_nil]
        exact List.append_nil raw
      have hnew : Negatus.items ([.readLine raw, .handleLine (trim raw)] ++ es) =
          [.line (trim raw)] := by
        rw [items_append, hitems]
        rfl
      have hopens : opens ([.readLine raw, .handleLine (trim raw)] ++ es) = opens es := by
        rw [opens_append]
        rfl
      -- the reader was idle, so the first line in the buffer has to fit; then it is the one
      -- that the parser cuts off
      have hparse : LinesFit (r.trace ++ ([.readLine raw, .handleLine (trim raw)] ++ es)) → ∀ more,
          parse P (opens (r.trace ++ ([.readLine raw, .handleLine (trim raw)] ++ es)) ++ more)
            (consumed (r.trace ++ ([.readLine raw, .handleLine (trim raw)] ++ es))) =
          Parse.dispatch P (trim raw) ⟨.line [], opens es ++ more, Negatus.items r.trace⟩ := by
        intro hl more
        have hlive : r.mode ≠ .done := by simp [hmode]
        have hpast := hr.parsed (hl.of_prefix (List.prefix_append _ _)) hlive (opens es ++ more)
        have hfits : FirstLineFits r.unread :=
          hr.held ▸ hl r.trace (List.prefix_append _ _) (hr.busy.trans hidle)
        rw [consumed_append, opens_append, hread, hopens, List.append_assoc, parse_append, hpast,
          hmode]
        exact Parse.foldl_line (hfirst hfits)
      refine ⟨?_, ?_, fun hl more => ?_, fun hl hlive more => ?_⟩
      · rw [received_append, received_append, consumed_append, hread, hr.received, ← hsplit,
          hreceived]
        simp [Negatus.received]
      · rw [← List.append_assoc]
        refine hafter _ ?_
        rw [List.append_cons]
        exact (busyAfter_append _ _).trans ((busyAfter_append _ _).trans (hr.busy.trans hidle))
      · rw [hparse hl more, Parse.dispatch_items, items_append, hnew]
      · rw [hparse hl more, opened_dispatch hopened hlive, items_append, hnew]

namespace CommandEventHandler

/-- **The stream is parsed sequentially.** However the stream is cut into
answers of `PR_Recv`, and in whatever order events and timers come: the lines
dispatched and the payload stored so far are the parse of the bytes taken so
far, and so a prefix of the parse of the bytes received; what has not been taken
is in the buffer. -/
theorem dispatch_sequential (P : Platform) (socket : Nat) (os : Os) (acts : List Act)
    (hfit : LinesFit (reached P socket os acts).trace) (more : List Bool) :
    let c := reached P socket os acts
    received c.trace = consumed c.trace ++ c.unread ∧
      (parse P (opens c.trace ++ more) (consumed c.trace)).items = items c.trace ∧
      items c.trace <+: (parse P (opens c.trace ++ more) (received c.trace)).items := by
  obtain ⟨r, hpath, htrace, hunread⟩ := reached_reader P socket os acts
  have hsynced : Synced P r :=
    invariant_path (fun _ _ h hr => h.synced hr) hpath (start_synced P)
  have hfit' : LinesFit r.trace := htrace ▸ linesFit_reading hfit
  have hreceived := hsynced.received
  have hitems := hsynced.items hfit' more
  rw [htrace, hunread, received_reading, consumed_reading] at hreceived
  rw [htrace, opens_reading, consumed_reading, items_reading] at hitems
  refine ⟨hreceived, hitems, ?_⟩
  rw [hreceived, parse_append, ← hitems]
  exact Parse.foldl_items _ _

/-- A push in three segments, with two commands behind its payload. -/
theorem dispatch_sequential_split_push :
    let c := reached .plain 7 {} [
      .event { read := true } { recvs := [.deliver (str "push f 3\nab")] },
      .event { read := true } { recvs := [.deliver (str "cver\nq"), .deliver (str "uit\n")] }]
    received c.trace = consumed c.trace ++ c.unread ∧
      (parse .plain (opens c.trace ++ []) (consumed c.trace)).items = items c.trace ∧
      items c.trace <+: (parse .plain (opens c.trace ++ []) (received c.trace)).items :=
  dispatch_sequential .plain 7 {} _ (linesFit_of_received (by decide +kernel)) []

/-! ## Where the lengths wrap

A line of `2 ^ 32 + 4` bytes is measured as one of four. -/

/-- `rebt` and `m` times the letter `x`, in one line. -/
def longLine (m : Nat) : Bytes := str "rebt" ++ List.replicate m 120 ++ [newline]

/-- The line in segments of 256 bytes. -/
def longLineTape (n : Nat) : List RecvAnswer :=
  .deliver (str "rebt") :: List.replicate n (.deliver (List.replicate 256 120)) ++
    [.deliver (List.replicate 255 120 ++ [newline])]

theorem longLineTape_bytes (n : Nat) :
    (longLineTape n).flatMap RecvAnswer.bytes = longLine (256 * n + 255) := by
  have hchunks : ∀ n, (List.replicate n (RecvAnswer.deliver (List.replicate 256 120))).flatMap
      RecvAnswer.bytes = List.replicate (256 * n) 120 := by
    intro n
    induction n with
    | zero => rfl
    | succ n ih =>
        rw [List.replicate_succ, List.flatMap_cons, ih, Nat.mul_succ, Nat.add_comm,
          List.replicate_add, RecvAnswer.deliver_bytes]
  unfold longLineTape longLine
  rw [List.flatMap_append, List.flatMap_cons, hchunks, List.replicate_add, List.flatMap_singleton,
    RecvAnswer.deliver_bytes, RecvAnswer.deliver_bytes]
  simp only [List.append_assoc]

theorem firstLine_longLine (m : Nat) : firstLine (longLine m) = some (longLine m, []) := by
  refine splitAfter_at (l := str "rebt" ++ List.replicate m 120) ?_ rfl
  intro b hb
  rcases List.mem_append.mp hb with hb | hb
  · have hall : (str "rebt").all (· != newline) = true := by decide
    simpa using List.all_eq_true.mp hall b hb
  · rw [List.eq_of_mem_replicate hb]
    rfl

theorem trim_longLine (m : Nat) :
    trim (longLine (m + 1)) = str "rebt" ++ List.replicate (m + 1) 120 := by
  have hback : (longLine (m + 1)).reverse =
      newline :: 120 :: (str "rebt" ++ List.replicate m 120).reverse := by
    simp [longLine, List.replicate_succ']
  have hfront : str "rebt" = 114 :: [101, 98, 116] := by decide
  unfold trim
  rw [hback, List.dropWhile_cons_of_pos rfl, List.dropWhile_cons_of_neg (by decide)]
  simp [hfront, isBlank, List.replicate_succ']

theorem checkDataEventHandler_idle (desc : PollDesc) {c : Connection} (halive : c.deleted = false)
    (hidle : c.mDataEventHandler = none) : checkDataEventHandler desc c = .ok false c := by
  obtain ⟨io, data, isClosed, deleted⟩ := c
  obtain rfl : deleted = false := halive
  obtain rfl : data = none := hidle
  cases isClosed <;> rfl

/-- An idle connection whose first line fails. -/
theorem handleEvent_fails {P : Platform} {c : Connection} {desc : PollDesc} {raw : Bytes}
    {len : Int} {io : Io} {E : Fault → Connection → Prop} (hs : c.Sound) (hopen : c.mClosed = false)
    (hidle : c.mDataEventHandler = none) (hresumes : resumes desc c = true)
    (hread : BufferedSocket.readLine c.io = some (raw, len, io)) (hlen : len ≠ 0)
    (hline : Ensures (handleLine P (trim raw)) (c.setIo io) (fun _ _ => False) E) :
    Ensures (handleEvent P desc) c (fun _ _ => False) E := by
  have hself : ∀ {β : Type} {f : Connection → Call β} {Q : β → Connection → Prop},
      Ensures (f c) c Q E → Ensures (self >>= f) c Q E := by
    intro β f Q h
    rw [ensures_bind, ensures_self, hs.alive]
    exact h
  have hcheck := checkDataEventHandler_idle desc hs.alive hidle
  have hget : readLine c = .ok (raw, len) (c.setIo io) := by simp only [readLine, hread]
  unfold handleEvent
  refine hself (Ensures.bind_fails ?_)
  rw [eventLoop]
  refine hself ?_
  rw [hopen, if_neg (by decide), ensures_bind, ensures_ok hcheck, if_neg (by decide)]
  refine hself ?_
  rw [hresumes, if_neg (by decide)]
  refine Ensures.bind_fails ?_
  rw [lineLoop]
  refine hself ?_
  rw [hopen, hidle, if_neg (by decide), ensures_bind, ensures_ok hget]
  dsimp only
  rw [if_neg hlen]
  exact hline.bind_fails

theorem longLine_reboots (P : Platform) {n : Nat} (hn : wrap32 (256 * n + 260) = 4) :
    let c := reached P 0 {} [.event { read := true } { recvs := longLineTape n }]
    items c.trace = [.line (str "rebt")] ∧ received c.trace = longLine (256 * n + 255) := by
  refine ensures_reached (Q := fun c => items c.trace = [.line (str "rebt")] ∧
    received c.trace = longLine (256 * n + 255)) ?_
  let c := Connection.meanwhile { recvs := longLineTape n } [] (new 0 {})
  have hs : c.Sound := (Step.wait (P := P) (new 0 {}) { recvs := longLineTape n } []).sound
    (new_rested 0 {}).toSound
  have hdata : ∀ a ∈ longLineTape n, a.bytes ≠ [] ∧ a.bytes.length ≤ 256 := by
    intro a ha
    simp only [longLineTape, List.cons_append, List.mem_cons, List.mem_append, List.mem_replicate,
      List.not_mem_nil, or_false] at ha
    rcases ha with rfl | ⟨-, rfl⟩ | rfl <;> rw [RecvAnswer.deliver_bytes]
    · exact ⟨by decide, by decide⟩
    · refine ⟨List.cons_ne_nil 120 (List.replicate 255 120), ?_⟩
      exact Nat.le_of_eq (List.length_replicate ..)
    · refine ⟨List.append_ne_nil_of_right_ne_nil _ (List.cons_ne_nil _ _), ?_⟩
      exact Nat.le_of_eq (List.length_append.trans (by rw [List.length_replicate]; rfl))
  have hrecv : c.io.sock.mRecvClosed = false := (new_facts 0 {}).2.1
  obtain ⟨hdrained, htrace⟩ := drainLoop_data hrecv hdata (Nat.lt_succ_self _)
  have hunread : (drain 256 c.io).unread = longLine (256 * n + 255) := by
    refine hdrained.trans ?_
    rw [show c.io.unread = [] from (new_facts 0 {}).1, List.nil_append]
    exact longLineTape_bytes n
  have hlen : wrap32 (longLine (256 * n + 255)).length = 4 := by
    unfold longLine
    rw [List.length_append, List.length_append, List.length_replicate]
    show wrap32 (4 + (256 * n + 255) + 1) = 4
    rw [show 4 + (256 * n + 255) + 1 = 256 * n + 260 by omega]
    exact hn
  -- `getline` computes the length in 32 bits, and takes four bytes
  obtain ⟨b, hget⟩ := (drain 256 c.io).sock.mReadBuffer.getline_wrapped
    ((congrArg firstLine hunread).trans (firstLine_longLine _)) hlen (by decide)
  have hread : BufferedSocket.readLine c.io =
      some (str "rebt", 4, ((drain 256 c.io).setBuffer b).log (.readLine (str "rebt"))) := by
    have htake : (drain 256 c.io).sock.mReadBuffer.unread.take 4 = str "rebt" :=
      congrArg (List.take 4) hunread
    rw [htake] at hget
    unfold BufferedSocket.readLine
    simp only [hget]
    rfl
  -- the four bytes are a `rebt` without an address, which stops the agent
  have hfails : Ensures (handleEvent P ⟨some 0, { read := true }, { read := true }⟩) c
      (fun _ _ => False) (fun _ c' => items c'.trace = [.line (str "rebt")] ∧
        received c'.trace = longLine (256 * n + 255)) := by
    refine handleEvent_fails hs rfl rfl rfl hread (by decide) ?_
    have hkind : lineKind P (trim (str "rebt")) = .reboot none := rfl
    have hspec := handleLine_spec P (c := c.setIo (((drain 256 c.io).setBuffer b).log
      (.readLine (str "rebt")))) hs.alive (trim (str "rebt"))
    rw [hkind] at hspec
    refine hspec.mono ?_ ?_
    · rintro - c' hline
      cases hline
    · intro e c' hline
      obtain ⟨es, hes, hreading, -⟩ := failed_reading hline
      have hquiet : items es = [] ∧ received es = [] := by
        rcases hes with rfl | ⟨path, rfl⟩ <;> exact ⟨rfl, rfl⟩
      have hbefore : items (drain 256 c.io).trace = [] ∧
          received (drain 256 c.io).trace = longLine (256 * n + 255) := by
        have hnone : items ((longLineTape n).map (.recv ·.bytes)) = [] := by
          unfold items
          rw [List.flatMap_map]
          exact List.flatMap_eq_nil_iff.mpr fun _ _ => rfl
        have hall : received ((longLineTape n).map (.recv ·.bytes)) =
            longLine (256 * n + 255) := by
          unfold received
          rw [List.flatMap_map]
          exact longLineTape_bytes n
        rw [show (drain 256 c.io).trace = (new 0 {}).trace ++ (longLineTape n).map (.recv ·.bytes)
          from htrace, items_append, received_append, hnone, hall]
        exact ⟨rfl, rfl⟩
      have htotal : reading c'.trace = reading ((drain 256 c.io).trace ++
          [.readLine (str "rebt"), .handleLine (trim (str "rebt"))]) ++ es := by
        rw [hreading, List.append_cons]
        rfl
      rw [← items_reading, ← received_reading, htotal, items_append, received_append,
        items_reading, received_reading, items_append, received_append, hquiet.1, hquiet.2,
        hbefore.1, hbefore.2]
      refine ⟨rfl, ?_⟩
      rw [List.append_nil]
      exact List.append_nil _
  unfold run
  exact Ensures.bind_fails hfails

/-- **A line may be too long to be dispatched as one.** The client sends one line
of `2 ^ 32 + 4` bytes, and the agent handles the line `rebt`. -/
theorem dispatch_not_sequential :
    let c := reached .plain 0 {} [.event { read := true } { recvs := longLineTape (2 ^ 24 - 1) }]
    ∀ opens, ¬ items c.trace <+: (parse .plain opens (received c.trace)).items := by
  intro c opens hpre
  obtain ⟨hitems, hreceived⟩ :=
    longLine_reboots .plain (n := 2 ^ 24 - 1) (by decide)
  have hlong : trim (longLine (256 * (2 ^ 24 - 1) + 255)) =
      str "rebt" ++ List.replicate (256 * (2 ^ 24 - 1) + 255) 120 := trim_longLine _
  have hparse : (parse .plain opens (received c.trace)).items =
      [.line (str "rebt" ++ List.replicate (256 * (2 ^ 24 - 1) + 255) 120)] := by
    rw [show received c.trace = _ from hreceived, parse, Parse.foldl_line (firstLine_longLine _),
      Parse.dispatch_items, List.nil_append, List.nil_append, hlong]
  rw [show items c.trace = _ from hitems, hparse] at hpre
  have hhead : Item.line (str "rebt") =
      .line (str "rebt" ++ List.replicate (256 * (2 ^ 24 - 1) + 255) 120) := by
    obtain ⟨rest, heq⟩ := hpre
    exact (List.cons.inj heq).1
  have hlen := congrArg List.length (Item.line.inj hhead)
  rw [List.length_append, List.length_replicate] at hlen
  omega

end CommandEventHandler

end Negatus
