import Negatus.CommandEventHandler.Sequential
import Negatus.Foundations.History

/-!
# Lines that wait

Lines are looked for on `PR_POLL_READ` only. A data handler that ends on
`PR_POLL_WRITE`, in a timer or at EOF is released without a look at the buffer,
and a line that has already been received stays there until new data come.
-/

namespace Negatus

open Foundations BufferedSocket Relation
open BlockBuffer (firstLine)

/-- A data handler that is released without lines being read behind it leaves no
line in the buffer. -/
def ReleasedDry : List Event → Prop :=
  Always fun past e => e = .release false → firstLine (held past) = none

theorem held_reading (t : List Event) : held (reading t) = held t := by
  unfold held
  rw [received_reading, consumed_reading]

namespace CommandEventHandler

open Connection (dropped meanwhile)

/-- What the trace says about the buffer and the data handler. -/
structure Recorded (c : Connection) : Prop where
  held : held c.trace = c.unread
  busy : busyAfter c.trace = c.mDataEventHandler.isSome

theorem recorded_of_synced {P : Platform} {c : Connection} (h : Synced P c.reader) : Recorded c where
  held := (held_reading c.trace).symm.trans h.held
  busy := (busyAfter_reading c.trace).symm.trans h.busy

theorem Recorded.of_reading {c c' : Connection} (h : Recorded c')
    (hreading : reading c'.trace = reading c.trace) (hunread : c'.unread = c.unread)
    (hdata : c'.mDataEventHandler = c.mDataEventHandler) : Recorded c where
  held := by rw [← held_reading, ← hreading, held_reading, h.held, hunread]
  busy := by rw [← busyAfter_reading, ← hreading, busyAfter_reading, h.busy, hdata]

theorem synced_path {P : Platform} {c c' : Connection} (hpath : ReflTransGen (Step P) c c')
    (hs : c.Sound) (h : Synced P c.reader) : Synced P c'.reader := by
  refine (invariant_path (I := fun c => c.Sound ∧ Synced P c.reader) ?_ hpath ⟨hs, h⟩).2
  rintro c c' hstep ⟨hs, h⟩
  exact ⟨hstep.sound hs, invariant_path (fun _ _ hr hsync => hr.synced hsync)
    (hstep.simulated hs).to_reflTransGen h⟩

/-- No line waits in an idle connection, unless `quit` has been dispatched. -/
def NoneWaits (P : Platform) (c : Connection) : Prop :=
  LinesFit c.trace → ReleasedDry c.trace → ¬ QuitSeen P c → c.mDataEventHandler = none →
    firstLine c.unread = none

section

variable {P : Platform} {c c' : Connection}

theorem released_dry {t : List Event} (hrec : Recorded c) (hdry : ReleasedDry c.trace)
    (htrace : c.trace = t ++ [.release false]) : firstLine c.unread = none := by
  have hheld : held t = c.unread := by
    rw [← hrec.held, htrace]
    simp [held, received, consumed]
  rw [← hheld]
  exact hdry t (.release false) (htrace ▸ List.prefix_rfl) rfl

/-- The outer loop leaves no line behind. -/
theorem Ended.noneWaits {os : Os} {timers : List Timeout} (h : Ended P (c.meanwhile os timers) c')
    (hrec : Recorded c') (hbefore : NoneWaits P c) : NoneWaits P c' := by
  intro hfit hdry hquit hidle
  cases h with
  | quit _ hclosed hseen => exact absurd hseen hquit
  | busy _ h hdata => exact absurd (hdata.symm.trans hidle) (by simp)
  | nothing hnone => exact hbefore hfit hdry hquit hidle
  | released _ t hnone htrace => exact released_dry hrec hdry htrace
  | noMore _ hnone hline =>
      refine hline (hrec.held ▸ hfit _ List.prefix_rfl ?_)
      rw [hrec.busy, hidle]
      rfl

theorem QuitSeen.append (h : QuitSeen P c) (hpre : c.trace <+: c'.trace) : QuitSeen P c' := by
  obtain ⟨line, hmem, hkind⟩ := h
  exact ⟨line, hpre.subset hmem, hkind⟩

theorem Settled.noneWaits {os : Os} {timers : List Timeout} (h : Settled P (c.meanwhile os timers) c')
    (hrec : Recorded c') (hbefore : NoneWaits P c) : NoneWaits P c' := by
  cases h with
  | running _ hend hrecv => exact hend.noneWaits hrec hbefore
  | eof c₁ hend hrecv =>
      have hpre : c₁.trace <+: (closed c₁.dropped).trace :=
        (dropped_trace c₁).trans (closed_trace _)
      have hclose : (closed c₁.dropped).unread = c₁.dropped.unread := (close_sameInput _).unread
      have hrec₁ : Recorded c₁.dropped := hrec.of_reading (close_reading _) hclose rfl
      intro hfit hdry hquit hidle
      rw [hclose]
      cases hdata : c₁.mDataEventHandler with
      | none =>
          rw [dropped_of_idle hdata] at hrec₁ hfit hdry ⊢
          exact hend.noneWaits hrec₁ hbefore (hfit.of_prefix (closed_trace c₁))
            (hdry.of_prefix (closed_trace c₁)) (fun hseen => hquit (hseen.append hpre)) hdata
      | some h =>
          rw [dropped_of_busy hdata] at hrec₁ hdry ⊢
          exact released_dry hrec₁ (hdry.of_prefix (closed_trace _)) rfl

end

/-- **When no received line is stranded.** If every data handler that is released
without lines being read behind it leaves no line in the buffer, then whenever a
call returns with no data handler attached, and not because of `quit`, the buffer
holds no line. -/
theorem no_line_stranded {P : Platform} {socket : Nat} {os : Os} {acts : List Act}
    (hrun : returns P socket os acts = true) (hfit : LinesFit (reached P socket os acts).trace)
    (hdry : ReleasedDry (reached P socket os acts).trace)
    (hquit : ∀ line, .handleLine line ∈ (reached P socket os acts).trace → lineKind P line ≠ .quit)
    (hidle : (reached P socket os acts).mDataEventHandler = none) :
    firstLine (reached P socket os acts).unread = none := by
  have hens := run_ensures (P := P) (I := fun c => Synced P c.reader ∧ NoneWaits P c)
    (fun c c' hr hhandled hpath ⟨hsynced, hwaits⟩ => ?_) (new_rested socket os) ⟨?_, ?_⟩ acts
  · obtain ⟨-, -, hwaits⟩ := (ensures_ok (run_of_returns hrun)).mp hens
    exact hwaits hfit hdry (fun ⟨line, hmem, hkind⟩ => hquit line hmem hkind) hidle
  · have hsynced' := synced_path hpath hr.toSound hsynced
    refine ⟨hsynced', ?_⟩
    cases hhandled with
    | skipped => exact hwaits
    | settled os timers _ h => exact h.noneWaits (recorded_of_synced hsynced') hwaits
  · exact new_reader socket os ▸ start_synced P
  · intro _ _ _ _
    rw [(new_facts socket os).1]
    rfl

/-- A push that ends on `PR_POLL_READ`, and a command behind its payload. -/
theorem no_line_stranded_behind_push :
    firstLine (reached .plain 7 {} [
      .event { read := true } { recvs := [.deliver (str "push f 1\nxver\n")] }]).unread = none := by
  have htrace : reading (reached .plain 7 {} [
      .event { read := true } { recvs := [.deliver (str "push f 1\nxver\n")] }]).trace =
      [.recv (str "push f 1\nxver\n"), .readLine (str "push f 1\n"), .handleLine (str "push f 1"),
        .openWrite (str "f") true, .attach, .read (str "x"), .writeFile (str "x") 1, .release true,
        .readLine (str "ver\n"), .handleLine (str "ver")] := by
    decide +kernel
  refine no_line_stranded (by decide +kernel) (linesFit_of_received (by decide +kernel)) ?_ ?_
    (by decide +kernel)
  · rintro past e hpre rfl
    have hmem : Event.release false ∈ reading (reached .plain 7 {} [
        .event { read := true } { recvs := [.deliver (str "push f 1\nxver\n")] }]).trace :=
      List.mem_filter.mpr ⟨hpre.subset (List.mem_append_right _ (List.mem_singleton_self _)), rfl⟩
    rw [htrace] at hmem
    exact absurd hmem (by decide)
  · intro line hline
    have hmem : Event.handleLine line ∈ reading (reached .plain 7 {} [
        .event { read := true } { recvs := [.deliver (str "push f 1\nxver\n")] }]).trace :=
      List.mem_filter.mpr ⟨hline, rfl⟩
    rw [htrace] at hmem
    have hcases : line = str "push f 1" ∨ line = str "ver" := by simpa using hmem
    have hpush : lineKind .plain (str "push f 1") = .push (str "f") 1 := rfl
    have hver : ∃ result, lineKind .plain (str "ver") = .answer result := ⟨_, rfl⟩
    obtain ⟨result, hver⟩ := hver
    rcases hcases with rfl | rfl
    · simp [hpush]
    · simp [hver]

/-- A pull and the command `ver` in one segment: the pull ends on `PR_POLL_WRITE`,
and `ver` waits. -/
theorem line_stranded_behind_pull :
    let files : Bytes → Bytes := fun _ => str "x"
    let acts := [
      .event { read := true }
        { recvs := [.deliver (str "pull f\nver\n")], sizes := [some 1], files },
      .event { write := true } { files }]
    let c := reached .plain 7 {} acts
    returns .plain 7 {} acts = true ∧ c.mClosed = false ∧ c.mDataEventHandler = none ∧
      firstLine c.unread = some (str "ver\n", []) := by
  decide +kernel

end CommandEventHandler

end Negatus
