import Negatus.CommandEventHandler.Answers
import Negatus.CommandEventHandler.Pending
import Negatus.DataHandler.Stored

/-!
# What has been pushed can be pulled

A push is answered when the bytes behind its line have been handed to `PR_Write`, and a pull
of the same file, as long as it has not changed, sends these bytes back. The answer to a push
is followed in the way of `Answers`: by what has happened since its line, and by the data
handler that is attached.
-/

namespace Negatus

open Foundations BufferedSocket Relation

/-- Calls that neither end a command nor begin one. -/
def Event.isInner : Event → Bool
  | .readLine _ | .handleLine _ | .prompt => false
  | _ => true

theorem Event.isInner_of_isOutput {e : Event} (h : e.isOutput = true) : e.isInner = true := by
  cases e with
  | readLine | handleLine | prompt => cases h
  | _ => rfl

section

variable {es : List Event}

theorem inner_noLine (h : ∀ e ∈ es, e.isInner = true) : NoLine es := by
  intro line hmem
  cases h _ hmem

theorem inner_noPrompt (h : ∀ e ∈ es, e.isInner = true) : .prompt ∉ es := by
  intro hmem
  cases h _ hmem

/-- Without lines, what is taken from the buffer is payload. -/
theorem inner_consumed (h : ∀ e ∈ es, e.isInner = true) :
    consumed es = PushFileEventHandler.payload es := by
  unfold consumed PushFileEventHandler.payload
  refine List.flatMap_congr fun e he => ?_
  have hinner := h e he
  cases e with
  | readLine => cases hinner
  | _ => rfl

theorem recvStep_inner {io io' : Io} (h : RecvStep io io') (htrace : io'.trace = io.trace ++ es) :
    ∀ e ∈ es, e.isInner = true := by
  cases h with
  | quiet =>
      obtain rfl : es = [] := List.append_right_eq_self.mp htrace.symm
      nofun
  | data os bs =>
      obtain rfl : [.recv bs] = es := List.append_cancel_left htrace
      simp [Event.isInner]
  | ended os =>
      obtain ⟨-, -, -, -, -, es', hes', htrace'⟩ := closeRecv_facts ((io.setOs os).log .recvEnd)
      have hsame : io.trace ++ ([.recvEnd] ++ es') = io.trace ++ es := by
        rw [← htrace, htrace']
        exact (List.append_assoc ..).symm
      obtain rfl := List.append_cancel_left hsame
      rcases hes' with rfl | rfl <;> simp [Event.isInner]

end

namespace PushFileEventHandler

variable {path : Bytes} {size : UInt64} {h h' : PushFileEventHandler} {t es : List Event}

/-- A push of a connection, by what has happened since its line. -/
structure Copied (path : Bytes) (size : UInt64) (h : PushFileEventHandler) (t : List Event) :
    Prop extends Tally path size h t where
  inner : ∀ e ∈ t, e.isInner = true

theorem Copied.append_aside (hcopied : Copied path size h t) (haside : ∀ e ∈ es, aside e = true)
    (hinner : ∀ e ∈ es, e.isInner = true) (hsend : h.mClosed = true ∨ ∀ bs n, .send bs n ∉ es) :
    Copied path size h (t ++ es) where
  toTally := hcopied.append haside rfl rfl .inl (hsend.imp_right fun hnone => ⟨rfl, hnone⟩)
  inner e he := (List.mem_append.mp he).elim (hcopied.inner e) (hinner e)

/-- What a step of a push adds to the trace. -/
theorem PushStep.inner {s s' : PushFileEventHandler × Io} (hstep : PushStep s s')
    (htrace : s'.2.trace = s.2.trace ++ es) : ∀ e ∈ es, e.isInner = true := by
  cases hstep with
  | recv _ _ _ _ hrecv => exact recvStep_inner hrecv htrace
  | chunk h io bs b =>
      obtain ⟨n, hstored⟩ := h.store_trace bs ((io.setBuffer b).log (.read bs))
      have hsame : io.trace ++ ([.read bs] ++ [.writeFile bs n]) = io.trace ++ es :=
        (List.append_assoc ..).symm.trans (hstored.symm.trans htrace)
      obtain rfl := List.append_cancel_left hsame
      simp [Event.isInner]
  | finish h io =>
      obtain ⟨es', hfinish, hout, -⟩ := (finish_frame h io).trace
      obtain rfl : es' = es := List.append_cancel_left (hfinish.symm.trans htrace)
      exact fun e he => Event.isInner_of_isOutput (hout e he)

theorem PushStep.copied {io io' : Io} (hstep : PushStep (h, io) (h', io'))
    (hcopied : Copied path size h t) :
    ∃ es, io'.trace = io.trace ++ es ∧ (∀ e ∈ es, e.isInner = true) ∧
      Copied path size h' (t ++ es) := by
  have hstart : ∃ es, io.trace = io.trace ++ es ∧ Tally path size h (t ++ es) :=
    ⟨[], (List.append_nil _).symm, (List.append_nil t).symm ▸ hcopied.toTally⟩
  obtain ⟨es, htrace, htally⟩ := hstep.tally hstart
  have hinner := hstep.inner htrace
  refine ⟨es, htrace, hinner, htally, fun e he => ?_⟩
  exact (List.mem_append.mp he).elim (hcopied.inner e) (hinner e)

/-- The constructor of a push. -/
theorem new_copied (path : Bytes) (size : UInt64) (io : Io) :
    ∃ es, (new path size io).2.trace = io.trace ++ es ∧ (∀ e ∈ es, e.isInner = true) ∧
      Copied path size (new path size io).1 es := by
  obtain ⟨es, htrace, hout, -⟩ := (new_frame path size io).trace
  have htrace' : (new path size io).2.trace =
      io.trace ++ ([.openWrite path io.os.check.1] ++ es) := by
    rw [htrace, ← List.append_assoc]
    rfl
  have hinner : ∀ e ∈ [Event.openWrite path io.os.check.1] ++ es, e.isInner = true := by
    intro e he
    rcases List.mem_cons.mp he with rfl | he
    · rfl
    · exact Event.isInner_of_isOutput (hout e he)
  exact ⟨_, htrace', hinner, new_tally path size io htrace', hinner⟩

end PushFileEventHandler

namespace PullFileEventHandler

/-- A pull finds a file with this content. -/
structure Finds (path content : Bytes) (t : List Event) : Prop where
  info : ∃ fileSize, .fileInfo path (some fileSize) ∈ t ∧ fileSize.toNat = content.length
  steady : Steady path content t

/-- A transfer that has ended is an error reply, or a header and what it announces of the file,
as far as the file goes. -/
theorem Transfer.slice {path content : Bytes} {start size fileSize : UInt64}
    {h : PullFileEventHandler} {t : List Event} (htransfer : Transfer path start size h t)
    (hclosed : h.mClosed = true) (hinfo : .fileInfo path (some fileSize) ∈ t)
    (hsteady : Steady path content t) :
    (∃ err, accepted t = errorReply path err) ∨
      accepted t = header path (announced fileSize start size).toNat ++
        (content.drop start.toNat).take (announced fileSize start size).toNat := by
  rcases htransfer with ⟨-, hrefused⟩ | ⟨reported, data, htold⟩
  · exact .inl hrefused
  · obtain rfl := htold.info fileSize hinfo
    refine .inr ?_
    rw [htold.sent, ← htold.sameSize]
    congr 1
    have hread := htold.read content hsteady
    have hatMost := htold.atMost
    have hsize := htold.sameSize
    unfold offset at hread
    unfold announced at hsize
    split at hread
    · rename_i hpast
      rw [if_pos hpast] at hsize
      rw [hsize] at hatMost ⊢
      exact List.eq_nil_of_length_eq_zero (Nat.le_zero.mp hatMost)
    · rename_i hwithin
      rcases htold.ended hclosed with hall | hend
      · rw [← hall]
        exact List.prefix_iff_eq_take.mp hread
      · have hrest := hend content hsteady
        unfold offset at hrest
        rw [if_neg hwithin] at hrest
        rw [← hrest]
        exact (List.take_of_length_le hatMost).symm

end PullFileEventHandler

namespace CommandEventHandler

open Connection (handling setData released dropped meanwhile)
open PushFileEventHandler (Copied PushStep payload stored FullWrites)

section

variable {P : Platform} {c c' : Connection} {es : List Event}

/-- It is not a push that is being answered. -/
def NoPush (P : Platform) (a : Answering) : Prop :=
  ∀ line es, a = some (line, es) → ∀ path size, lineKind P line ≠ .push path size

/-- No line is dispatched before a push has its prompt, which comes when the push is closed. -/
def PushAnswered (P : Platform) (a : Answering) : Event → Prop
  | .handleLine _ => NoPush P a
  | .prompt => ∀ line es, a = some (line, es) → ∀ path size, lineKind P line = .push path size →
      ∃ h, h.mClosed = true ∧ Copied path size h es
  | _ => True

/-- The push that is being answered is attached. -/
inductive Copying (P : Platform) (c : Connection) : Prop
  | idle (hnone : NoPush P (answering c.trace))
  | push (line : Bytes) (es : List Event) (path : Bytes) (size : UInt64) (h : PushFileEventHandler)
      (hnow : answering c.trace = some (line, es)) (hkind : lineKind P line = .push path size)
      (hdata : c.mDataEventHandler = some (.push h)) (hcopied : Copied path size h es)

structure Copies (P : Platform) (c : Connection) : Prop where
  lawful : Along (PushAnswered P) Answering.enter none c.trace
  underway : c.mClosed = false → Copying P c

theorem copied_append {t : List Event} :
    Along (PushAnswered P) Answering.enter none (t ++ es) ↔
      Along (PushAnswered P) Answering.enter none t ∧
        Along (PushAnswered P) Answering.enter (answering t) es :=
  along_append

theorem noPush_none : NoPush P none := fun _ _ h => nomatch h

/-- As long as no push is being answered, anything but a line may happen. -/
theorem NoPush.along {a : Answering} (h : NoPush P a) (hes : NoLine es) :
    Along (PushAnswered P) Answering.enter a es ∧ NoPush P (es.foldl Answering.enter a) := by
  induction es generalizing a with
  | nil => exact ⟨along_nil, h⟩
  | cons e es ih =>
      have hes' : NoLine es := fun line hmem => hes line (List.mem_cons_of_mem _ hmem)
      have hallowed : PushAnswered P a e := by
        cases e with
        | prompt => exact fun line es' ha path size hkind => absurd hkind (h line es' ha path size)
        | handleLine line => exact h
        | _ => trivial
      have hnext : NoPush P (a.enter e) := by
        cases e with
        | prompt => exact noPush_none
        | handleLine line => exact absurd List.mem_cons_self (hes line)
        | _ =>
            intro line es' ha
            obtain ⟨⟨line', es''⟩, hold, heq⟩ := Option.map_eq_some_iff.mp ha
            obtain ⟨rfl, -⟩ := Prod.mk.inj heq
            exact h _ _ hold
      obtain ⟨hrest, hend⟩ := ih hnext hes'
      exact ⟨⟨hallowed, hrest⟩, hend⟩

/-- Calls between a line and its prompt. -/
theorem inside_along {a : Answering} (hline : NoLine es) (hprompt : .prompt ∉ es) :
    Along (PushAnswered P) Answering.enter a es := by
  induction es generalizing a with
  | nil => exact along_nil
  | cons e es ih =>
      refine ⟨?_, ih (fun line h => hline line (List.mem_cons_of_mem _ h))
        fun h => hprompt (List.mem_cons_of_mem _ h)⟩
      cases e with
      | handleLine line => exact absurd List.mem_cons_self (hline line)
      | prompt => exact absurd List.mem_cons_self hprompt
      | _ => trivial

/-! ## The steps -/

/-- A step that dispatches nothing while no push is being answered. -/
theorem Copies.unpushed (h : Copies P c) (hnone : NoPush P (answering c.trace))
    (htrace : c'.trace = c.trace ++ es) (hes : NoLine es) : Copies P c' := by
  obtain ⟨halong, hend⟩ := hnone.along hes
  constructor
  · rw [htrace, copied_append]
    exact ⟨h.lawful, halong⟩
  · intro _
    refine .idle ?_
    rwa [htrace, answering_append]

/-- Calls between the line of a push and its prompt. -/
theorem Copies.pushing (h : Copies P c) {line : Bytes} {t : List Event} {path : Bytes}
    {size : UInt64} {d : PushFileEventHandler} (hnow : answering c.trace = some (line, t))
    (hkind : lineKind P line = .push path size) (htrace : c'.trace = c.trace ++ es)
    (hinner : ∀ e ∈ es, e.isInner = true) (hdata : c'.mDataEventHandler = some (.push d))
    (hcopied : Copied path size d (t ++ es)) : Copies P c' := by
  have hline := inner_noLine hinner
  have hprompt := inner_noPrompt hinner
  constructor
  · rw [htrace, copied_append]
    exact ⟨h.lawful, inside_along hline hprompt⟩
  · intro _
    refine .push line (t ++ es) path size d ?_ hkind hdata hcopied
    rw [htrace, answering_append, hnow, answering_between hline hprompt]

/-- A line that is dispatched in an idle handler. -/
theorem Performed.copies {raw : Bytes} {b : ReadBuffer}
    (hline : Performed P (lineKind P (trim raw)) (c.handling raw b) c') (h : Copies P c)
    (hopen : c.mClosed = false) (hidle : c.mDataEventHandler = none) : Copies P c' := by
  have hnone : NoPush P (answering c.trace) := by
    cases h.underway hopen with
    | idle hnone => exact hnone
    | push line es path size d hnow hkind hdata => cases hidle.symm.trans hdata
  have htrace : (c.handling raw b).trace = c.trace ++ [.readLine raw] ++ [.handleLine (trim raw)] :=
    rfl
  have hnoLine : NoLine [.readLine raw] := fun line => by simp
  obtain ⟨hread, hnone'⟩ := hnone.along hnoLine
  have hlaw : Along (PushAnswered P) Answering.enter none (c.handling raw b).trace := by
    rw [htrace, copied_append, copied_append, answering_append]
    exact ⟨⟨h.lawful, hread⟩, hnone', trivial⟩
  have hnow : answering (c.handling raw b).trace = some (trim raw, []) := by
    rw [htrace, answering_append]
    rfl
  by_cases hpush : ∃ path size, lineKind P (trim raw) = .push path size
  · obtain ⟨path, size, hkind⟩ := hpush
    rw [hkind] at hline
    cases hline with
    | push _ _ _ d io hnew =>
        obtain ⟨es, hio, hinner, hcopied⟩ :=
          PushFileEventHandler.new_copied path size (c.handling raw b).io
        rw [hnew] at hio hcopied
        have htrace' : (attached (.push d) io (c.handling raw b)).trace =
            (c.handling raw b).trace ++ (es ++ [.attach]) := by
          show io.trace ++ [.attach] = _
          rw [hio, List.append_assoc]
          rfl
        have hattach : ∀ e ∈ [Event.attach], e.isInner = true := by simp [Event.isInner]
        have hinner' : ∀ e ∈ es ++ [.attach], e.isInner = true := fun e he =>
          (List.mem_append.mp he).elim (hinner e) (hattach e)
        constructor
        · rw [htrace', copied_append]
          exact ⟨hlaw, inside_along (inner_noLine hinner') (inner_noPrompt hinner')⟩
        · intro _
          refine .push (trim raw) (es ++ [.attach]) path size d ?_ hkind rfl ?_
          · rw [htrace', answering_append, hnow,
              answering_between (inner_noLine hinner') (inner_noPrompt hinner')]
            rfl
          · exact hcopied.append_aside (by simp [PushFileEventHandler.aside]) hattach (.inr (by simp))
  · have hnever : NoPush P (answering (c.handling raw b).trace) := by
      rw [hnow]
      rintro line es heq path size hkind
      obtain ⟨rfl, -⟩ := Prod.mk.inj (Option.some.inj heq)
      exact hpush ⟨path, size, hkind⟩
    have hquiet : Copies P (c.handling raw b) := ⟨hlaw, fun _ => .idle hnever⟩
    obtain ⟨es, htrace', hes⟩ := hline.noLine hopen hidle
    exact hquiet.unpushed hnever htrace' hes

/-- The prompt of a push that is closed. -/
theorem Copies.prompted (h : Copies P c) {line : Bytes} {t : List Event} {path : Bytes}
    {size : UInt64} {d : PushFileEventHandler} (resumes : Bool)
    (hnow : answering c.trace = some (line, t)) (hkind : lineKind P line = .push path size)
    (hclosed : d.mClosed = true) (hcopied : Copied path size d t)
    (htrace : c'.trace = c.trace ++ [.send (mPrompt ++ [0]) 3, .prompt, .release resumes]) :
    Copies P c' := by
  have hprompt : ∀ e ∈ [Event.send (mPrompt ++ [0]) 3], e.isInner = true := by
    simp [Event.isInner]
  have hsent : answering (c.trace ++ [.send (mPrompt ++ [0]) 3]) =
      some (line, t ++ [.send (mPrompt ++ [0]) 3]) := by
    rw [answering_append, hnow]
    rfl
  have hprompted : answering (c.trace ++ [.send (mPrompt ++ [0]) 3] ++ [.prompt]) = none := by
    rw [answering_append]
    cases answering (c.trace ++ [.send (mPrompt ++ [0]) 3]) <;> rfl
  have hsplit : c'.trace =
      c.trace ++ [.send (mPrompt ++ [0]) 3] ++ [.prompt] ++ [.release resumes] := by
    rw [htrace]
    simp
  constructor
  · rw [hsplit, copied_append, copied_append, copied_append]
    refine ⟨⟨⟨h.lawful, trivial, trivial⟩, ?_, trivial⟩, trivial, trivial⟩
    rw [hsent]
    rintro line' es heq path' size' hkind'
    obtain ⟨rfl, rfl⟩ := Prod.mk.inj (Option.some.inj heq)
    obtain ⟨rfl, rfl⟩ := LineKind.push.inj (hkind.symm.trans hkind')
    exact ⟨d, hclosed, hcopied.append_aside (by simp [PushFileEventHandler.aside]) hprompt
      (.inl hclosed)⟩
  · intro _
    refine .idle ?_
    rw [hsplit, answering_append, hprompted]
    exact noPush_none

/-- Every step keeps to the answer, as long as everything is sent. -/
theorem Step.copies (h : Step P c c') (hs : c.Sound) (hord : Ordered c) (hcopies : Copies P c)
    (hfull : FullSends c'.trace) : Copies P c' := by
  cases hclosed : c.mClosed with
  | true =>
      obtain ⟨hclosed', es, htrace, hline, hprompt⟩ := h.of_closed hs hclosed
      refine ⟨?_, fun hopen' => absurd (hclosed'.symm.trans hopen') (by decide)⟩
      rw [htrace, copied_append]
      exact ⟨hcopies.lawful, inside_along hline hprompt⟩
  | false =>
      have hb := hord.balanced hclosed
      cases hcopies.underway hclosed with
      -- no push is under way; a line may begin one
      | idle hnone =>
          rcases h.noLine hs with ⟨es, htrace, hes⟩ | ⟨raw, b, hopen, hidle, -, hline⟩
          · exact hcopies.unpushed hnone htrace hes
          · exact hline.copies hcopies hopen hidle
      | push line t path size d hnow hkind hdata hcopied =>
          cases h with
          -- a push is under way, so the data handler is the push
          | line c' raw b hopen hidle => cases hidle.symm.trans hdata
          | pull desc h h' io hdata' => cases hdata'.symm.trans hdata
          | tick h hdata' => cases hdata'.symm.trans hdata
          | recv io hopen hstep =>
              obtain ⟨es, htrace, haside, hnone⟩ := PushFileEventHandler.RecvStep.aside hstep
              have hinner := recvStep_inner hstep htrace
              exact hcopies.pushing hnow hkind htrace hinner hdata
                (hcopied.append_aside haside hinner (.inr hnone))
          | push h h' io hdata' hstep =>
              obtain rfl : h = d := DataEventHandler.push.inj (Option.some.inj (hdata'.symm.trans hdata))
              obtain ⟨es, htrace, hinner, hcopied'⟩ := hstep.copied hcopied
              exact hcopies.pushing hnow hkind htrace hinner rfl hcopied'
          | release h resumes hopen hdata' hend =>
              obtain rfl : h = .push d := Option.some.inj (hdata'.symm.trans hdata)
              exact hcopies.prompted resumes hnow hkind hend hcopied
                (released_full resumes hb.sendOpen hfull).1
          | eof hrecv =>
              obtain ⟨es, htrace, hline, hprompt⟩ := eof_trace c
              refine ⟨?_, fun hopen' => nomatch hopen'⟩
              rw [htrace, copied_append]
              exact ⟨hcopies.lawful, inside_along hline hprompt⟩
          | wait os timers =>
              exact ⟨hcopies.lawful, fun _ => .push line t path size d hnow hkind hdata hcopied⟩

end

/-! ## Runs -/

theorem new_copies (P : Platform) (socket : Nat) (os : Os) : Copies P (new socket os) := by
  have hnone : ∃ es, (new socket os).trace = [] ++ es ∧ NoLine es := by
    refine noLine_of_reading List.nil_prefix ?_ (fun _ => List.not_mem_nil)
    show reading (writePrompt [] { sock := .new socket, os }).trace = _
    rw [writePrompt_reading]
    rfl
  obtain ⟨es, htrace, hes⟩ := hnone
  rw [List.nil_append] at htrace
  obtain ⟨halong, hend⟩ := (noPush_none (P := P)).along hes
  rw [← htrace] at halong hend
  exact ⟨halong, fun _ => .idle hend⟩

theorem copies_path {P : Platform} {c c' : Connection} (hpath : ReflTransGen (Step P) c c')
    (hs : c.Sound) (hord : FullSends c.trace → Ordered c) (h : FullSends c.trace → Copies P c) :
    FullSends c'.trace → Copies P c' := by
  refine (invariant_path (I := fun c => c.Sound ∧ (FullSends c.trace → Ordered c) ∧
    (FullSends c.trace → Copies P c)) ?_ hpath ⟨hs, hord, h⟩).2.2
  rintro c c' hstep ⟨hs, hord, h⟩
  have hpre := hstep.trace_grows hs
  refine ⟨hstep.sound hs, fun hfull => ?_, fun hfull => ?_⟩
  · exact hstep.ordered hs (hord (hfull.of_prefix hpre)) hfull
  · exact hstep.copies hs (hord (hfull.of_prefix hpre)) (h (hfull.of_prefix hpre)) hfull

section

variable {P : Platform} {socket : Nat} {os : Os} {acts : List Act} {pre mid suf : List Event}
  {line path : Bytes}

/-- Behind the line of a push nothing is dispatched before its prompt. -/
theorem answering_push {t : List Event} {size : UInt64}
    (hlaw : Along (PushAnswered P) Answering.enter none t) (hpre : pre ++ [.handleLine line] ++ mid <+: t)
    (hmid : .prompt ∉ mid) (hkind : lineKind P line = .push path size) :
    answering (pre ++ [.handleLine line] ++ mid) = some (line, mid) := by
  have hnow : answering (pre ++ [.handleLine line]) = some (line, []) := by
    rw [answering_append]
    cases answering pre <;> rfl
  induction mid using List.reverseRecOn with
  | nil => rw [List.append_nil, hnow]
  | append_singleton mid e ih =>
      rw [← List.append_assoc] at hpre ⊢
      have hbefore := ih ((List.prefix_append _ _).trans hpre)
        fun h => hmid (List.mem_append_left _ h)
      have hallowed := (always_iff_along.mpr hlaw) _ e hpre
      change PushAnswered P (answering _) e at hallowed
      rw [answering_append, hbefore]
      rw [hbefore] at hallowed
      cases e with
      | handleLine line' => exact absurd hkind (hallowed line mid rfl path size)
      | prompt => exact absurd (List.mem_append_right _ (List.mem_singleton_self _)) hmid
      | _ => rfl

/-- What a push comes to, from its line to its prompt. -/
theorem reached_copied {size : UInt64} (hreturns : returns P socket os acts = true)
    (hfull : FullSends (reached P socket os acts).trace)
    (htrace : (reached P socket os acts).trace =
      pre ++ [.handleLine line] ++ mid ++ [.prompt] ++ suf)
    (hmid : .prompt ∉ mid) (hkind : lineKind P line = .push path size) :
    ∃ h, h.mClosed = true ∧ Copied path size h mid := by
  have hcopies := copies_path (reached_path hreturns).1 (new_rested socket os).toSound
    (new_ordered socket os) (fun _ => new_copies P socket os) hfull
  have hpre : pre ++ [.handleLine line] ++ mid ++ [.prompt] <+: (reached P socket os acts).trace :=
    ⟨suf, htrace.symm⟩
  have hnow := answering_push hcopies.lawful ((List.prefix_append _ _).trans hpre) hmid hkind
  have hallowed := (always_iff_along.mpr hcopies.lawful) _ _ hpre
  exact hallowed line mid hnow path size hkind

/-- What a pull comes to, from its line to its prompt. -/
theorem reached_transfer {start size : UInt64} (hreturns : returns P socket os acts = true)
    (hfull : FullSends (reached P socket os acts).trace)
    (htrace : (reached P socket os acts).trace =
      pre ++ [.handleLine line] ++ mid ++ [.prompt] ++ suf)
    (hmid : .prompt ∉ mid) (hkind : lineKind P line = .pull path start size true) :
    ∃ h t, h.mClosed = true ∧ PullFileEventHandler.Transfer path start size h t ∧
      mid = t ++ [.send (mPrompt ++ [0]) 3] := by
  have hans := answers_path (reached_path hreturns).1 (new_rested socket os).toSound
    (new_ordered socket os) (fun _ => new_answers P socket os) hfull
  have hpre : pre ++ [.handleLine line] ++ mid ++ [.prompt] <+: (reached P socket os acts).trace :=
    ⟨suf, htrace.symm⟩
  have hnow := answering_pull hans.lawful ((List.prefix_append _ _).trans hpre) hmid hkind
  have hallowed := (always_iff_along.mpr hans.lawful) _ _ hpre
  exact hallowed line mid hnow path start size hkind

/-- The bytes that have been taken come first among those that have been received. -/
theorem reached_received (P : Platform) (socket : Nat) (os : Os) (acts : List Act) :
    consumed (reached P socket os acts).trace <+: received (reached P socket os acts).trace := by
  obtain ⟨r, hpath, htrace, -⟩ := reached_reader P socket os acts
  have hsynced : Synced P r := invariant_path (fun _ _ h hr => h.synced hr) hpath (start_synced P)
  refine ⟨r.unread, ?_⟩
  rw [← consumed_reading, ← received_reading, ← htrace]
  exact hsynced.received.symm

end

/-- **What has been pushed can be pulled.** Take a push that has its prompt, on one connection,
and a pull of the same path that has its prompt, on the same connection or another. If every
`PR_Send` is accepted in full, every `PR_Write` of the push stores all of its block, and the
pull finds the file as the push has left it, then the pull sends the header and the range it
was asked for of the very bytes that came behind the line of the push, or refuses with an
error reply. These bytes are as many as the push has announced. -/
theorem pushed_is_pulled {P : Platform} {socket socket' : Nat} {os os' : Os} {acts acts' : List Act}
    (hreturns : returns P socket os acts = true) (hreturns' : returns P socket' os' acts' = true)
    (hfull : FullSends (reached P socket os acts).trace)
    (hfull' : FullSends (reached P socket' os' acts').trace)
    {pre mid suf pre' mid' suf' : List Event} {line line' : Bytes}
    (htrace : (reached P socket os acts).trace =
      pre ++ [.handleLine line] ++ mid ++ [.prompt] ++ suf)
    (htrace' : (reached P socket' os' acts').trace =
      pre' ++ [.handleLine line'] ++ mid' ++ [.prompt] ++ suf')
    (hmid : .prompt ∉ mid) (hmid' : .prompt ∉ mid') {path : Bytes} {size start count : UInt64}
    (hpush : lineKind P line = .push path size)
    (hpull : lineKind P line' = .pull path start count true)
    (hopened : .openWrite path true ∈ mid) (hwrites : FullWrites mid)
    (hfinds : PullFileEventHandler.Finds path (stored mid) mid') :
    consumed pre ++ payload mid <+: received (reached P socket os acts).trace ∧
      (payload mid).length = size.toNat ∧
      ((∃ err, accepted mid' = PullFileEventHandler.errorReply path err ++ (mPrompt ++ [0])) ∨
        accepted mid' =
          PullFileEventHandler.header path (PullFileEventHandler.announced size start count).toNat ++
            ((payload mid).drop start.toNat).take
              (PullFileEventHandler.announced size start count).toNat ++ (mPrompt ++ [0])) := by
  obtain ⟨h, hclosed, hcopied⟩ := reached_copied hreturns hfull htrace hmid hpush
  obtain ⟨h', t, hclosed', htransfer, rfl⟩ := reached_transfer hreturns' hfull' htrace' hmid' hpull
  have hstored : stored mid = payload mid :=
    (PushFileEventHandler.stored_of_full hwrites).trans hcopied.all
  have hlength : (payload mid).length = size.toNat := by
    rw [← hcopied.all, ← hcopied.count, hcopied.ended hopened hclosed, hcopied.sameSize]
  refine ⟨?_, hlength, ?_⟩
  · refine List.IsPrefix.trans ?_ (reached_received P socket os acts)
    rw [htrace, ← inner_consumed hcopied.inner]
    simp only [consumed_append, List.append_assoc]
    exact ⟨consumed suf, List.append_assoc ..⟩
  · obtain ⟨⟨fileSize, hinfo, hsize⟩, hsteady⟩ := hfinds
    obtain rfl : fileSize = size := UInt64.toNat_inj.mp (by rw [hsize, hstored, hlength])
    have hinfo' : .fileInfo path (some fileSize) ∈ t := by simpa using hinfo
    have hprompt : accepted (t ++ [.send (mPrompt ++ [0]) 3]) = accepted t ++ (mPrompt ++ [0]) := by
      rw [accepted_append]
      rfl
    rw [hprompt]
    rcases htransfer.slice hclosed' hinfo' hsteady.of_append with ⟨err, herr⟩ | hslice
    · exact .inl ⟨err, congrArg (· ++ (mPrompt ++ [0])) herr⟩
    · refine .inr ?_
      rw [hslice, hstored]

/-- Three bytes pushed to a file, and the last two of them pulled over the same connection. -/
theorem pushed_is_pulled_back :
    let acts := [
      .event { read := true }
        { recvs := [.deliver (str "push f 3\nabcpull f 1\n")], sizes := [some 3],
          files := fun _ => str "abc" },
      .event { write := true } { files := fun _ => str "abc" }]
    let mid : List Event := [.openWrite (str "f") true, .attach, .read (str "abc"),
      .writeFile (str "abc") 3, .closeFile (str "f"), .send (endl ++ endl) 2,
      .send (str "$>\x00") 3]
    let mid' : List Event := [.openRead (str "f") true, .fileInfo (str "f") (some 3),
      .send (str "f,2\n") 4, .attach, .readFile (str "f") 1 2 (some (str "bc")),
      .send (str "bc") 2, .closeFile (str "f"), .send (str "$>\x00") 3]
    consumed [.send (str "$>\x00") 3, .prompt, .recv (str "push f 3\nabcpull f 1\n"),
        .readLine (str "push f 3\n")] ++ payload mid <+:
      received (reached .plain 7 {} acts).trace ∧
      (payload mid).length = 3 ∧
      ((∃ err, accepted mid' =
          PullFileEventHandler.errorReply (str "f") err ++ (mPrompt ++ [0])) ∨
        accepted mid' =
          PullFileEventHandler.header (str "f") (PullFileEventHandler.announced 3 1 0).toNat ++
            ((payload mid).drop 1).take (PullFileEventHandler.announced 3 1 0).toNat ++
              (mPrompt ++ [0])) := by
  intro acts mid mid'
  have hreturns : returns .plain 7 {} acts = true := by decide +kernel
  have hfull : FullSends (reached .plain 7 {} acts).trace := by decide +kernel
  have hpush : (reached .plain 7 {} acts).trace =
      [.send (str "$>\x00") 3, .prompt, .recv (str "push f 3\nabcpull f 1\n"),
          .readLine (str "push f 3\n")] ++
        [.handleLine (str "push f 3")] ++ mid ++ [.prompt] ++
          ([.release true, .readLine (str "pull f 1\n"), .handleLine (str "pull f 1")] ++ mid' ++
            [.prompt, .release false]) := by decide +kernel
  have hpull : (reached .plain 7 {} acts).trace =
      ([.send (str "$>\x00") 3, .prompt, .recv (str "push f 3\nabcpull f 1\n"),
          .readLine (str "push f 3\n"), .handleLine (str "push f 3")] ++ mid ++
          [.prompt, .release true, .readLine (str "pull f 1\n")]) ++
        [.handleLine (str "pull f 1")] ++ mid' ++ [.prompt] ++ [.release false] := by
    decide +kernel
  have hwrites : FullWrites mid := by
    intro bs n hmem
    obtain ⟨rfl, rfl⟩ : bs = str "abc" ∧ n = 3 := by simpa [mid] using hmem
    rfl
  have hfinds : PullFileEventHandler.Finds (str "f") (stored mid) mid' := by
    refine ⟨⟨3, by decide, by decide⟩, fun pos size got hmem => ?_⟩
    obtain ⟨rfl, rfl, rfl⟩ : pos = 1 ∧ size = 2 ∧ got = some (str "bc") := by
      simpa [mid'] using hmem
    exact ⟨1, by decide⟩
  exact pushed_is_pulled hreturns hreturns hfull hfull hpush hpull (by decide) (by decide) rfl rfl
    (by decide) hwrites hfinds

end CommandEventHandler

end Negatus
