import Negatus.HeartbeatEventHandler
import Negatus.Shell.Replies

/-!
# The messages of a heartbeat

A message is one line with the NUL of its string behind it. The first one opens the stream,
every timer adds one, and nothing that is received is answered.
-/

namespace Negatus

open Foundations BufferedSocket

/-- The buffers that have been handed to `PR_Send`. -/
def sent (trace : List Event) : List Bytes :=
  trace.filterMap fun
    | .send bs _ => some bs
    | _ => none

@[simp] theorem sent_append (t u : List Event) : sent (t ++ u) = sent t ++ sent u :=
  List.filterMap_append

/-- What NSPR says of the fields of an exploded time; the year is a `PRInt16`. -/
def Platform.Dated (P : Platform) : Prop :=
  ∀ t, (P.explodeTime t).tm_year < 2 ^ 15 ∧ (P.explodeTime t).tm_month < 12 ∧
    (P.explodeTime t).tm_mday < 32 ∧ (P.explodeTime t).tm_hour < 24 ∧
      (P.explodeTime t).tm_min < 60 ∧ (P.explodeTime t).tm_sec < 62

namespace HeartbeatEventHandler

variable {P : Platform} {io : Io} {h : HeartbeatEventHandler}

theorem timestamp_line (P : Platform) (s : System) : IsLine (timestamp P s).1 := by
  have hpad : ∀ width n, IsLine (Shell.pad width n) := fun width n =>
    isLine_of_digits (Shell.pad_digits width n)
  have hyear : ∀ n, IsLine (itoa n) := fun n => isLine_of_digits (itoa_digits n).2
  have hdash : IsLine (str "-") := ⟨by decide, by decide⟩
  have hcolon : IsLine (str ":") := ⟨by decide, by decide⟩
  exact (((((((hyear _).append (hpad 2 _)).append (hpad 2 _)).append hdash).append
    (hpad 2 _)).append hcolon).append (hpad 2 _) |>.append hcolon).append (hpad 2 _)

/-- With its NUL, a timestamp fits into the buffer of 20 bytes that it is printed into. -/
theorem timestamp_fits (hdated : P.Dated) (s : System) : (timestamp P s).1.length + 1 ≤ 20 := by
  have hts := hdated s.prNow.1
  unfold timestamp
  dsimp only
  generalize P.explodeTime s.prNow.1 = ts at hts ⊢
  obtain ⟨hyear, hmonth, hmday, hhour, hmin, hsec⟩ := hts
  have hyearLen : (itoa ts.tm_year).length ≤ 5 :=
    itoa_length_le (by decide) (Nat.lt_trans hyear (by decide))
  have htwo : ∀ n, n < 100 → (Shell.pad 2 n).length = 2 := fun n hn =>
    Shell.pad_length (by decide) hn
  have hpunct : (str "-").length = 1 ∧ (str ":").length = 1 := by decide
  simp only [List.length_append, hpunct]
  rw [htwo _ (by omega), htwo _ (by omega), htwo _ (by omega), htwo _ (by omega),
    htwo _ (by omega)]
  omega

/-! ## What is sent -/

/-- A line as `sendThump` and `sendTraceOutput` send it. -/
def message (line : Bytes) : Bytes := line ++ endl ++ [0]

def TraceOutput (P : Platform) (line : Bytes) : Prop :=
  ∃ s, line = (timestamp P s).1 ++ str " trace output"

def Thump (P : Platform) (line : Bytes) : Prop :=
  ∃ s s₁ s₂ address, Shell.id s₁ = .ok address s₂ ∧
    line = (timestamp P s).1 ++ str " Thump thump - " ++ address

theorem TraceOutput.isLine {line : Bytes} (h : TraceOutput P line) : IsLine line := by
  obtain ⟨s, rfl⟩ := h
  exact (timestamp_line P s).append ⟨by decide, by decide⟩

theorem Thump.isLine {line : Bytes} (h : Thump P line) : IsLine line := by
  obtain ⟨s, s₁, s₂, address, hid, rfl⟩ := h
  have haddress := (ensures_ok hid).mp (Shell.id_line s₁)
  exact ((timestamp_line P s).append ⟨by decide, by decide⟩).append haddress.1

/-- Splitting the stream at its NULs gives the messages back. -/
theorem messages_split {lines : List Bytes} (h : ∀ line ∈ lines, IsLine line) :
    (lines.map message).flatten.splitOn 0 = lines.map (· ++ endl) ++ [[]] := by
  have hflat : (lines.map message).flatten = [0].intercalate (lines.map (· ++ endl) ++ [[]]) := by
    clear h
    induction lines with
    | nil => rfl
    | cons line lines ih =>
        rw [List.map_cons, List.flatten_cons, ih, List.map_cons, List.cons_append,
          List.intercalate_cons_of_ne_nil (by simp)]
        rfl
  rw [hflat]
  refine List.splitOn_intercalate 0 (fun piece hpiece => ?_) (by simp)
  rcases List.mem_append.mp hpiece with hpiece | hpiece
  · obtain ⟨line, hline, rfl⟩ := List.mem_map.mp hpiece
    intro hmem
    rcases List.mem_append.mp hmem with hmem | hmem
    · exact (h line hline).2 hmem
    · exact absurd hmem (by decide)
  · rw [List.mem_singleton.mp hpiece]
    exact List.not_mem_nil

/-- One whole line has been sent, unless the send side was closed before. -/
inductive Sends (ok : Bytes → Prop) (io io' : Io) : Prop
  | silent (hclosed : io.sock.mSendClosed = true) (hclosed' : io'.sock.mSendClosed = true)
      (hsent : sent io'.trace = sent io.trace)
  | line (line : Bytes) (hok : ok line) (hopen : io.sock.mSendClosed = false)
      (hsent : sent io'.trace = sent io.trace ++ [message line])

theorem send_sends {ok : Bytes → Prop} {line : Bytes} {io₁ io : Io} (hok : ok line)
    (hlen : line.length < 2 ^ 31) (hsock : io.sock = io₁.sock) (htrace : io.trace = io₁.trace) :
    Sends ok io₁ (send (line ++ endl) io) := by
  have hwrote := send_wrote (line ++ endl) io
  have hmessage : (line ++ endl ++ [0]).length = line.length + 2 := by
    have hendl : endl.length = 1 := by decide
    rw [List.length_append, List.length_append, hendl]
    rfl
  rw [wrap32_of_lt (by omega), List.take_length] at hwrote
  cases hclosed : io.sock.mSendClosed with
  | true =>
      have hsame := hwrote.silent (.inr hclosed)
      rw [hsame]
      exact .silent (hsock ▸ hclosed) hclosed (by rw [htrace])
  | false =>
      refine .line line hok (hsock ▸ hclosed) ?_
      rw [← htrace]
      rcases hwrote.sent (by simp) hclosed with ⟨n, hadded, -⟩ | ⟨-, es, hes, hadded⟩
      · rw [hadded]
        exact sent_append _ _
      · rw [hadded, sent_append, sent_append]
        rcases hes with rfl | rfl <;> exact List.append_nil _

/-- Nothing is sent, and a send side that is closed stays closed. -/
structure Mute (io io' : Io) : Prop where
  sent : sent io'.trace = sent io.trace
  closed : io.sock.mSendClosed = true → io'.sock.mSendClosed = true

instance : IsPreorder Io Mute where
  refl _ := ⟨rfl, id⟩
  trans _ _ _ h h' := ⟨h'.sent.trans h.sent, fun hclosed => h'.closed (h.closed hclosed)⟩

theorem Mute.trans {io₁ io₂ io₃ : Io} (h : Mute io₁ io₂) (h' : Mute io₂ io₃) : Mute io₁ io₃ :=
  IsTrans.trans _ _ _ h h'

theorem close_mute (io : Io) : Mute io (BufferedSocket.close io) := by
  unfold BufferedSocket.close
  split
  · exact ⟨rfl, id⟩
  · exact ⟨(sent_append _ _).trans (List.append_nil _), fun _ => rfl⟩

theorem recvStep_mute {io io' : Io} (hstep : RecvStep io io') : Mute io io' := by
  cases hstep with
  | quiet => exact ⟨rfl, id⟩
  | data => exact ⟨(sent_append _ _).trans (List.append_nil _), id⟩
  | ended os =>
      have hlog : Mute io ((io.setOs os).log .recvEnd) :=
        ⟨(sent_append _ _).trans (List.append_nil _), id⟩
      unfold closeRecv
      dsimp only
      split
      · have hclose := close_mute { (io.setOs os).log .recvEnd with
          sock := { io.sock with mRecvClosed := true } }
        exact ⟨hclose.sent.trans hlog.sent, hclose.closed⟩
      · exact ⟨hlog.sent, id⟩

theorem readLine_mute {io io' : Io} {raw : Bytes} {len : Int}
    (h : readLine io = some (raw, len, io')) : Mute io io' := by
  obtain ⟨io₁, b, hpath, -, rfl, -⟩ := readLine_spec h
  have hdrain : Mute io io₁ :=
    invariant_path (I := Mute io) (fun _ _ hstep h => h.trans (recvStep_mute hstep)) hpath
      ⟨rfl, id⟩
  split
  · exact ⟨hdrain.sent, hdrain.closed⟩
  · exact ⟨((sent_append _ _).trans (List.append_nil _)).trans hdrain.sent, hdrain.closed⟩

theorem readLines_mute (fuel : Nat) (io : Io) : Within Mute (readLines fuel) io := by
  induction fuel generalizing io with
  | zero => exact within_throw
  | succ fuel ih =>
      unfold Within
      cases hread : readLine io with
      | none =>
          have hrun : readLines (fuel + 1) io = .error (.crash .undefined) io := by
            simp only [readLines, hread]
          exact (ensures_error hrun).mpr ⟨rfl, id⟩
      | some r =>
          obtain ⟨raw, numRead, io'⟩ := r
          have hmute := readLine_mute hread
          by_cases hzero : numRead = 0
          · have hrun : readLines (fuel + 1) io = .ok () io' := by
              simp only [readLines, hread, if_pos hzero]
            exact (ensures_ok hrun).mpr hmute
          · have hrun : readLines (fuel + 1) io = readLines fuel io' := by
              simp only [readLines, hread, if_neg hzero]
            unfold Ensures
            rw [hrun]
            exact (ih io').mono (fun _ _ => hmute.trans) fun _ _ => hmute.trans

/-- **An event is not answered.** -/
theorem handleEvent_mute (h : HeartbeatEventHandler) (desc : PollDesc) :
    Ensures (handleEvent desc) h (fun _ h' => Mute h.io h'.io) (fun _ h' => Mute h.io h'.io) := by
  have hloop : Ensures (eventLoop desc) h (fun _ h' => Mute h.io h'.io)
      (fun _ h' => Mute h.io h'.io) := by
    unfold eventLoop
    refine ensures_bind.mpr (ensures_get.mpr ?_)
    split
    · exact ⟨rfl, id⟩
    · exact ensures_zoom.mpr (readLines_mute _ h.io)
  refine Ensures.bind hloop fun _ h' hmute => ensures_bind.mpr (ensures_get.mpr ?_)
  split
  · exact hmute.trans (close_mute h'.io)
  · exact hmute

/-- **A timer sends one line**, which says when and where. -/
theorem handleTimeout_sends (hdated : P.Dated) (h : HeartbeatEventHandler) :
    Ensures (handleTimeout P) h (fun _ h' => Sends (Thump P) h.io h'.io)
      (fun _ h' => Mute h.io h'.io) := by
  refine ensures_zoom.mpr (ensures_bind.mpr (ensures_modify.mpr ?_))
  unfold sendThump
  refine ensures_bind.mpr (ensures_zoom.mpr (ensures_modifyGet.mpr ?_))
  generalize (h.io.setTimeout (P.secondsToInterval timeout)).os.toSystem = s
  have hstamp := timestamp_fits hdated s
  have hthump : ∀ s₁ s₂ address, Shell.id s₁ = .ok address s₂ →
      Thump P ((timestamp P s).1 ++ str " Thump thump - " ++ address) :=
    fun s₁ s₂ address hid => ⟨s, s₁, s₂, address, hid, rfl⟩
  generalize timestamp P s = r at hstamp hthump ⊢
  refine ensures_bind.mpr (ensures_zoom.mpr ?_)
  cases hid : Shell.id r.2 with
  | error e s₂ => exact (ensures_error hid).mpr ⟨rfl, id⟩
  | ok address s₂ =>
      obtain ⟨-, hshort⟩ := (ensures_ok hid).mp (Shell.id_line _)
      refine (ensures_ok hid).mpr ?_
      have htext : (str " Thump thump - ").length = 15 := by decide
      have hsize : bufSize = 1024 := rfl
      refine send_sends (hthump _ _ _ hid) ?_ rfl rfl
      rw [List.length_append, List.length_append]
      omega

/-- The constructor sends the first line. -/
theorem new_sends (hdated : P.Dated) (socket : Nat) (os : Os) :
    ∃ line, TraceOutput P line ∧ sent (new P socket os).io.trace = [message line] := by
  have hsends : ∀ io, Sends (TraceOutput P) io (sendTraceOutput P io) := by
    intro io
    have hstamp := timestamp_fits hdated io.os.toSystem
    have htext : (str " trace output").length = 13 := by decide
    unfold sendTraceOutput
    refine send_sends ⟨_, rfl⟩ ?_ rfl rfl
    rw [List.length_append]
    omega
  have hfirst := hsends { sock := .new socket, os }
  unfold new
  generalize sendTraceOutput P { sock := .new socket, os } = io at hfirst ⊢
  cases hfirst with
  | silent hclosed => cases hclosed
  | line line hok hopen hsent => exact ⟨line, hok, hsent⟩

end HeartbeatEventHandler

end Negatus
