import Negatus.DataHandler.Push

/-!
# What a push has stored

A push counts the bytes that it takes out of the socket, and hands each block to
`PR_Write` without looking at what the call returns. The count, the payload and
what was handed over are the same at all times; the file holds less as soon as one
call stores less than its block.
-/

namespace Negatus

open Foundations Relation BufferedSocket

namespace PushFileEventHandler

/-- What is in the file: the bytes that the calls of `PR_Write` have stored. -/
def stored (t : List Event) : Bytes :=
  t.flatMap fun
    | .writeFile bs n => bs.take n
    | _ => []

/-- The bytes handed to `PR_Write`. -/
def handed (t : List Event) : Bytes :=
  t.flatMap fun
    | .writeFile bs _ => bs
    | _ => []

/-- The bytes taken out of the socket. -/
def payload (t : List Event) : Bytes :=
  t.flatMap fun
    | .read bs => bs
    | _ => []

/-- Every `PR_Write` has stored all that it was given. -/
def FullWrites (t : List Event) : Prop := ∀ bs n, .writeFile bs n ∈ t → n = bs.length

/-- A push, event by event. Whatever happens to the socket and to the system in
between, an event finds them in some state. -/
inductive PushRun (path : Bytes) (size : UInt64) : PushFileEventHandler → List Event → Prop
  | new (io : Io) {es : List Event} (htrace : (new path size io).2.trace = io.trace ++ es) :
      PushRun path size (new path size io).1 es
  | event {h h' : PushFileEventHandler} {t es : List Event} {desc : PollDesc} {io io' : Io}
      (hrun : PushRun path size h t) (hopen : h.mClosed = false)
      (hevent : handleEvent desc h io = .ok h' io') (htrace : io'.trace = io.trace ++ es) :
      PushRun path size h' (t ++ es)

/-- The count is what the file holds; and if the file could be opened, the handler
is closed, or has sent something, only with all of the announced payload in it. -/
structure Complete (path : Bytes) (size : UInt64) (h : PushFileEventHandler) (t : List Event) :
    Prop where
  count : h.mBytesWritten.toNat = (stored t).length
  whole : .openWrite path true ∈ t → h.mClosed = true ∨ (∃ bs n, .send bs n ∈ t) →
    stored t = payload t ∧ (payload t).length = size.toNat

/-! ## The count -/

@[simp] theorem stored_append (t u : List Event) : stored (t ++ u) = stored t ++ stored u :=
  List.flatMap_append

@[simp] theorem handed_append (t u : List Event) : handed (t ++ u) = handed t ++ handed u :=
  List.flatMap_append

@[simp] theorem payload_append (t u : List Event) : payload (t ++ u) = payload t ++ payload u :=
  List.flatMap_append

theorem stored_of_full {t : List Event} (h : FullWrites t) : stored t = handed t := by
  induction t with
  | nil => rfl
  | cons e t ih =>
      have htail := ih fun bs n hmem => h bs n (List.mem_cons_of_mem _ hmem)
      have hhead : stored [e] = handed [e] := by
        cases e with
        | writeFile bs n =>
            obtain rfl := h bs n List.mem_cons_self
            simp [stored, handed]
        | _ => rfl
      calc stored (e :: t) = stored [e] ++ stored t := stored_append [e] t
        _ = handed [e] ++ handed t := by rw [hhead, htail]
        _ = handed (e :: t) := (handed_append [e] t).symm

/-- One block that is not stored as a whole is missing for good. -/
theorem full_of_stored {t : List Event} (hfits : ∀ bs n, .writeFile bs n ∈ t → n ≤ bs.length) :
    (stored t).length ≤ (handed t).length ∧
      ((handed t).length ≤ (stored t).length → FullWrites t) := by
  induction t with
  | nil => exact ⟨Nat.le_refl _, fun _ bs n hmem => nomatch hmem⟩
  | cons e t ih =>
      obtain ⟨hle, hfull⟩ := ih fun bs n hmem => hfits bs n (List.mem_cons_of_mem _ hmem)
      have hstored : (stored (e :: t)).length = (stored [e]).length + (stored t).length := by
        rw [← List.length_append, ← stored_append, List.singleton_append]
      have hhanded : (handed (e :: t)).length = (handed [e]).length + (handed t).length := by
        rw [← List.length_append, ← handed_append, List.singleton_append]
      have hone : (stored [e]).length ≤ (handed [e]).length := by
        cases e with
        | writeFile bs n => simp [stored, handed]
        | _ => exact Nat.le_refl _
      refine ⟨by omega, fun hge bs n hmem => ?_⟩
      rcases List.mem_cons.mp hmem with rfl | hmem
      · have hn := hfits bs n List.mem_cons_self
        have heq : (stored [.writeFile bs n]).length = n := by simp [stored, hn]
        have hall : (handed [.writeFile bs n]).length = bs.length := by simp [handed]
        omega
      · exact hfull (by omega) bs n hmem

/-- What holds of a push at any time, whatever `PR_Write` has stored. -/
structure Tally (path : Bytes) (size : UInt64) (h : PushFileEventHandler) (t : List Event) :
    Prop where
  sameSize : h.mSize = size
  atMost : h.mBytesWritten ≤ h.mSize
  count : h.mBytesWritten.toNat = (handed t).length
  all : handed t = payload t
  fits : ∀ bs n, .writeFile bs n ∈ t → n ≤ bs.length
  ended : .openWrite path true ∈ t → h.mClosed = true → h.mBytesWritten = h.mSize
  silent : .openWrite path true ∈ t → (∃ bs n, .send bs n ∈ t) → h.mClosed = true

/-- Is an event neither about the payload nor about opening the file? -/
def aside : Event → Bool
  | .read _ | .writeFile _ _ | .openWrite _ _ => false
  | _ => true

theorem aside_of_output {e : Event} (h : e.isOutput = true) : aside e = true := by
  cases e <;> simp_all [aside, Event.isOutput]

theorem aside_nothing {es : List Event} (hes : ∀ e ∈ es, aside e = true) :
    handed es = [] ∧ payload es = [] ∧ (∀ bs n, .writeFile bs n ∉ es) ∧
      ∀ path ok, .openWrite path ok ∉ es := by
  have hnot : ∀ e, aside e = false → e ∉ es := by
    intro e he hmem
    rw [hes e hmem] at he
    cases he
  refine ⟨?_, ?_, fun bs n => hnot _ rfl, fun path ok => hnot _ rfl⟩
  · apply List.flatMap_eq_nil_iff.mpr
    intro e he
    have := hes e he
    cases e <;> first | rfl | cases this
  · apply List.flatMap_eq_nil_iff.mpr
    intro e he
    have := hes e he
    cases e <;> first | rfl | cases this

variable {path : Bytes} {size : UInt64} {h h' : PushFileEventHandler} {t es : List Event}

/-- Events that are not about the payload, after which the handler may be closed. -/
theorem Tally.append (htally : Tally path size h t) (hes : ∀ e ∈ es, aside e = true)
    (hsize : h'.mSize = h.mSize) (hcount : h'.mBytesWritten = h.mBytesWritten)
    (hended : h'.mClosed = true → h.mClosed = true ∨ h.mBytesWritten = h.mSize)
    (hsilent : h'.mClosed = true ∨ h'.mClosed = h.mClosed ∧ ∀ bs n, .send bs n ∉ es) :
    Tally path size h' (t ++ es) := by
  obtain ⟨hhanded, hpayload, hwrites, hopens⟩ := aside_nothing hes
  have hopened : .openWrite path true ∈ t ++ es → .openWrite path true ∈ t := by
    intro hmem
    rcases List.mem_append.mp hmem with hmem | hmem
    · exact hmem
    · exact absurd hmem (hopens path true)
  refine ⟨hsize.trans htally.sameSize, ?_, ?_, ?_, ?_, fun hmem hclosed => ?_, fun hmem hsend => ?_⟩
  · rw [hcount, hsize]
    exact htally.atMost
  · rw [hcount, htally.count, handed_append, hhanded, List.append_nil]
  · rw [handed_append, payload_append, hhanded, hpayload, htally.all]
  · intro bs n hmem
    rcases List.mem_append.mp hmem with hmem | hmem
    · exact htally.fits bs n hmem
    · exact absurd hmem (hwrites bs n)
  · rw [hcount, hsize]
    rcases hended hclosed with hclosed | hall
    · exact htally.ended (hopened hmem) hclosed
    · exact hall
  · rcases hsilent with hclosed | ⟨hsame, hnone⟩
    · exact hclosed
    · obtain ⟨bs, n, hin⟩ := hsend
      rcases List.mem_append.mp hin with hin | hin
      · rw [hsame]
        exact htally.silent (hopened hmem) ⟨bs, n, hin⟩
      · exact absurd hin (hnone bs n)

theorem new_tally (path : Bytes) (size : UInt64) (io : Io)
    (htrace : (new path size io).2.trace = io.trace ++ es) :
    Tally path size (new path size io).1 es := by
  obtain ⟨es', hes', hout, -⟩ := (new_frame path size io).trace
  obtain rfl : es = .openWrite path io.os.check.1 :: es' := by
    apply List.append_cancel_left
    rw [← htrace, hes']
    simp
  -- a constructor opens the file and sends a warning at most
  obtain ⟨hhanded, hpayload, hwrites, hopens⟩ :=
    aside_nothing fun e he => aside_of_output (hout e he)
  have hok : .openWrite path true ∈ Event.openWrite path io.os.check.1 :: es' →
      io.os.check.1 = true := by
    intro hmem
    rcases List.mem_cons.mp hmem with heq | hmem
    · exact (Event.openWrite.inj heq).2.symm
    · exact absurd hmem (hopens path true)
  rw [new_fst]
  refine ⟨rfl, ?_, ?_, ?_, ?_, fun hmem hclosed => ?_, fun hmem hsend => ?_⟩
  · exact UInt64.le_iff_toNat_le.mpr (Nat.zero_le _)
  · show 0 = (handed ([.openWrite path io.os.check.1] ++ es')).length
    rw [handed_append, hhanded]
    rfl
  · show handed ([.openWrite path io.os.check.1] ++ es') =
      payload ([.openWrite path io.os.check.1] ++ es')
    rw [handed_append, payload_append, hhanded, hpayload]
    rfl
  · intro bs n hmem
    rcases List.mem_cons.mp hmem with heq | hmem
    · cases heq
    · exact absurd hmem (hwrites bs n)
  · have hopen := hok hmem
    simp [hopen] at hclosed
  · -- the file is open, and the constructor is silent
    have hopen := hok hmem
    have hquiet : (new path size io).2.trace = io.trace ++ [.openWrite path io.os.check.1] := by
      unfold new
      dsimp only
      rw [if_pos hopen]
      rfl
    rw [hquiet] at htrace
    have hnone := List.append_cancel_left htrace
    obtain ⟨bs, n, hin⟩ := hsend
    rw [← hnone] at hin
    simp at hin

/-- The events of a step that takes nothing out of the socket. -/
theorem RecvStep.aside {io io' : Io} (h : RecvStep io io') :
    ∃ es, io'.trace = io.trace ++ es ∧ (∀ e ∈ es, aside e = true) ∧ ∀ bs n, .send bs n ∉ es := by
  cases h with
  | quiet => exact ⟨[], (List.append_nil _).symm, by simp, by simp⟩
  | data os bs => exact ⟨[.recv bs], rfl, by simp [PushFileEventHandler.aside], by simp⟩
  | ended os =>
      obtain ⟨-, -, -, -, -, es, hes, htrace⟩ := closeRecv_facts ((io.setOs os).log .recvEnd)
      refine ⟨[.recvEnd] ++ es, ?_, ?_, ?_⟩
      · rw [htrace, ← List.append_assoc]
        rfl
      · rcases hes with rfl | rfl <;> simp [PushFileEventHandler.aside]
      · rcases hes with rfl | rfl <;> simp

/-- A block is taken out of the socket and handed to `PR_Write`. -/
theorem Tally.chunk (htally : Tally path size h t) (hopen : h.mClosed = false) {bs : Bytes}
    {n : Nat} (hlen : bs.length ≤ (h.mSize - h.mBytesWritten).toNat) (hn : n ≤ bs.length) :
    Tally path size { h with mBytesWritten := h.mBytesWritten + UInt64.ofNat bs.length }
      (t ++ [.read bs, .writeFile bs n]) := by
  have hsub : (h.mSize - h.mBytesWritten).toNat = h.mSize.toNat - h.mBytesWritten.toNat :=
    UInt64.toNat_sub_of_le _ _ htally.atMost
  have hle := UInt64.le_iff_toNat_le.mp htally.atMost
  have hbound := h.mSize.toNat_lt
  -- `nextBlock` is at most what is missing, so the count does not wrap
  have hadd : (h.mBytesWritten + UInt64.ofNat bs.length).toNat =
      h.mBytesWritten.toNat + bs.length := by
    rw [UInt64.toNat_add, UInt64.toNat_ofNat']
    omega
  have hblock : handed [.read bs, .writeFile bs n] = bs := by simp [handed]
  have htaken : payload [.read bs, .writeFile bs n] = bs := by simp [payload]
  refine ⟨htally.sameSize, ?_, ?_, ?_, ?_, fun _ hclosed => ?_, fun hmem hsend => ?_⟩
  · rw [UInt64.le_iff_toNat_le, hadd]
    show h.mBytesWritten.toNat + bs.length ≤ h.mSize.toNat
    omega
  · rw [handed_append, hblock, List.length_append, ← htally.count]
    exact hadd
  · rw [handed_append, payload_append, hblock, htaken, htally.all]
  · intro bs' n' hmem
    rcases List.mem_append.mp hmem with hmem | hmem
    · exact htally.fits bs' n' hmem
    · obtain ⟨rfl, rfl⟩ : bs' = bs ∧ n' = n := by simpa using hmem
      exact hn
  · exact absurd (hopen.symm.trans hclosed) (by decide)
  · have hbefore : .openWrite path true ∈ t := by simpa using hmem
    have hsent : ∃ bs n, .send bs n ∈ t := by simpa using hsend
    exact htally.silent hbefore hsent

/-- `PR_Write` stores at most what it is given. -/
theorem write_le (os : Os) (size : Nat) : (os.write size).1 ≤ size := by
  unfold Os.write
  dsimp only
  split
  · exact Nat.le_refl _
  · split
    · omega
    · exact Nat.le_refl _
  · exact Nat.zero_le _

theorem finish_closed (h : PushFileEventHandler) (io : Io) : (h.finish io).1.mClosed = true :=
  h.close_closed io

theorem finish_fields (h : PushFileEventHandler) (io : Io) :
    (h.finish io).1.mSize = h.mSize ∧ (h.finish io).1.mBytesWritten = h.mBytesWritten := by
  show (h.close io).1.mSize = h.mSize ∧ (h.close io).1.mBytesWritten = h.mBytesWritten
  unfold close
  split <;> exact ⟨rfl, rfl⟩

/-- One step of a push keeps the tally. -/
theorem PushStep.tally {s s' : PushFileEventHandler × Io} (hstep : PushStep s s') {u : List Event}
    (hinv : ∃ es, s.2.trace = u ++ es ∧ Tally path size s.1 (t ++ es)) :
    ∃ es, s'.2.trace = u ++ es ∧ Tally path size s'.1 (t ++ es) := by
  obtain ⟨es, htrace, htally⟩ := hinv
  cases hstep with
  | recv h io io' hopen hrecv =>
      obtain ⟨es', htrace', haside, hnone⟩ := RecvStep.aside hrecv
      refine ⟨es ++ es', ?_, ?_⟩
      · rw [htrace', ← List.append_assoc]
        exact congrArg (· ++ es') htrace
      · rw [← List.append_assoc]
        exact htally.append haside rfl rfl Or.inl (Or.inr ⟨rfl, hnone⟩)
  | chunk h io bs b hopen hless hbs hlen =>
      refine ⟨es ++ [.read bs, .writeFile bs (io.os.write bs.length).1], ?_, ?_⟩
      · have hio : io.trace = u ++ es := htrace
        show io.trace ++ [.read bs] ++ [.writeFile bs (io.os.write bs.length).1] = _
        simp [hio]
      · rw [← List.append_assoc]
        exact htally.chunk hopen hlen (write_le _ _)
  | finish h io hopen hdone =>
      obtain ⟨es', htrace', hout, -⟩ := (finish_frame h io).trace
      obtain ⟨hsize, hcount⟩ := h.finish_fields io
      refine ⟨es ++ es', ?_, ?_⟩
      · rw [htrace', ← List.append_assoc]
        exact congrArg (· ++ es') htrace
      · rw [← List.append_assoc]
        exact htally.append (fun e he => aside_of_output (hout e he)) hsize hcount
          (fun _ => Or.inr hdone.symm) (Or.inl (h.finish_closed io))

/-- A push keeps the tally, and its file open as long as it is open itself. -/
theorem PushRun.tally (hrun : PushRun path size h t) : h.Sound ∧ Tally path size h t := by
  induction hrun with
  | new io htrace => exact ⟨new_sound path size io, new_tally path size io htrace⟩
  | @event h h' t es desc io io' hrun hopen hevent htrace ih =>
      obtain ⟨hsound, htally⟩ := ih
      obtain ⟨hpath, -⟩ := (ensures_ok hevent).mp (handleEvent_spec _ hsound hopen)
      refine ⟨invariant_path (I := fun s => s.1.Sound) (fun _ _ hstep => hstep.sound) hpath hsound, ?_⟩
      obtain ⟨es', htrace', htally'⟩ := invariant_path
        (I := fun s => ∃ es, s.2.trace = io.trace ++ es ∧ Tally path size s.1 (t ++ es))
        (fun _ _ hstep => hstep.tally) hpath
        ⟨[], (List.append_nil _).symm, by rwa [List.append_nil]⟩
      rw [htrace] at htrace'
      rwa [List.append_cancel_left htrace']

/-- **When a completed push is a complete file.** In every state of a push the count is
what the file holds, and the push ends with the announced payload in the file, if and
only if every `PR_Write` has stored all the bytes that it was given. -/
theorem complete_iff_full (hrun : PushRun path size h t) : Complete path size h t ↔ FullWrites t := by
  obtain ⟨-, htally⟩ := hrun.tally
  constructor
  · intro hcomplete
    refine (full_of_stored htally.fits).2 ?_
    rw [← htally.count, hcomplete.count]
  · intro hfull
    have hstored := stored_of_full hfull
    refine ⟨by rw [htally.count, hstored], fun hmem hend => ?_⟩
    have hclosed : h.mClosed = true := hend.elim id (htally.silent hmem)
    refine ⟨hstored.trans htally.all, ?_⟩
    rw [← htally.all, ← htally.count, htally.ended hmem hclosed, htally.sameSize]

/-- Three bytes, all of them stored. -/
theorem complete_iff_full_three :
    ∃ h t, PushRun (str "f") 3 h t ∧ h.mClosed = true ∧ stored t = str "abc" ∧
      (Complete (str "f") 3 h t ↔ FullWrites t) := by
  have hnew : PushRun (str "f") 3 ⟨str "f", true, 0, 3, false⟩ [.openWrite (str "f") true] :=
    .new { sock := .new 7, os := {} } rfl
  have hends : Ensures (handleEvent ⟨some 7, { read := true }, { read := true }⟩
      ⟨str "f", true, 0, 3, false⟩) { sock := .new 7, os := { recvs := [.deliver (str "abc")] } }
      (fun h io => h = ⟨str "f", false, 3, 3, true⟩ ∧
        io.trace = [] ++ [.recv (str "abc"), .read (str "abc"), .writeFile (str "abc") 3,
          .closeFile (str "f"), .send (endl ++ endl) 2])
      (fun _ _ => False) := by decide +kernel
  obtain ⟨_, io', hevent, rfl, htrace⟩ := hends.succeeds
  have hrun := hnew.event rfl hevent htrace
  exact ⟨_, _, hrun, rfl, by decide, complete_iff_full hrun⟩

/-- The disk is full: nothing is stored, and the push completes all the same. -/
theorem completes_on_full_disk :
    ¬ ∀ path size h t, PushRun path size h t → Complete path size h t := by
  intro hall
  have hnew : PushRun (str "f") 3 ⟨str "f", true, 0, 3, false⟩ [.openWrite (str "f") true] :=
    .new { sock := .new 7, os := {} } rfl
  have hends : Ensures (handleEvent ⟨some 7, { read := true }, { read := true }⟩
      ⟨str "f", true, 0, 3, false⟩)
      { sock := .new 7, os := { recvs := [.deliver (str "abc")], writes := [.error] } }
      (fun h io => h = ⟨str "f", false, 3, 3, true⟩ ∧
        io.trace = [] ++ [.recv (str "abc"), .read (str "abc"), .writeFile (str "abc") 0,
          .closeFile (str "f"), .send (endl ++ endl) 2])
      (fun _ _ => False) := by decide +kernel
  obtain ⟨_, io', hevent, rfl, htrace⟩ := hends.succeeds
  have hcount := (hall _ _ _ _ (hnew.event rfl hevent htrace)).count
  revert hcount
  decide

end PushFileEventHandler

end Negatus
