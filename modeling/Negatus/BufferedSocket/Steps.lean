import Mathlib.Logic.Relation
import Negatus.BufferedSocket

/-!
# What the calls of a socket do

Receiving is a path of `RecvStep`s: an answer of `PR_Recv` appends its bytes to
the buffer, or closes the receive side. `Wrote` is what a `write` leaves
unchanged. Both say which calls are added to the trace.
-/

namespace Negatus

open Relation

namespace BufferedSocket

/-- One answer of `PR_Recv`. -/
inductive RecvStep : Io → Io → Prop
  | quiet (io : Io) (os : Os) (b : ReadBuffer) (hb : b.unread = io.unread) :
      RecvStep io ((io.setOs os).setBuffer b)
  | data (io : Io) (os : Os) (bs : Bytes) (b : ReadBuffer) (hopen : io.sock.mRecvClosed = false)
      (hb : b.unread = io.unread ++ bs) :
      RecvStep io (((io.setOs os).setBuffer b).log (.recv bs))
  | ended (io : Io) (os : Os) (hopen : io.sock.mRecvClosed = false) :
      RecvStep io (closeRecv ((io.setOs os).log .recvEnd))

/-! ## Receiving -/

theorem readIntoBuffer_step (size : Nat) (io : Io) : RecvStep io (readIntoBuffer size io).2 := by
  unfold readIntoBuffer
  split
  · exact .quiet io io.os io.sock.mReadBuffer rfl
  · rename_i h
    have hopen : io.sock.mRecvClosed = false := by
      cases hclosed : io.sock.mRecvClosed with
      | false => rfl
      | true => exact absurd (Or.inr hclosed) h
    obtain ⟨answer, os⟩ := (io.call .recv).os.recv
    cases answer with
    | data b bs => exact .data io os _ _ hopen (ReadBuffer.put_unread _ _)
    | wouldBlock => exact .quiet io os io.sock.mReadBuffer rfl
    | eof => exact .ended io os hopen
    | error => exact .ended io os hopen

theorem drainLoop_path (size fuel : Nat) (io : Io) :
    ReflTransGen RecvStep io (drainLoop size fuel io) := by
  induction fuel generalizing io with
  | zero => exact .refl
  | succ fuel ih =>
      have hstep := readIntoBuffer_step size io
      rw [drainLoop]
      split
      · rename_i io' hr
        rw [hr] at hstep
        exact .single hstep
      · rename_i n io' hr
        rw [hr] at hstep
        exact .head hstep (ih io')

theorem closeRecv_facts (io : Io) :
    (closeRecv io).sock.mReadBuffer = io.sock.mReadBuffer ∧
      (closeRecv io).os = { io.os with calls := (closeRecv io).os.calls } ∧
      (closeRecv io).timers = io.timers ∧ (closeRecv io).sock.mRecvClosed = true ∧
      (closeRecv io).sock.mSendClosed = io.sock.mSendClosed ∧
      ∃ es, (es = [] ∨ es = [.closeSocket]) ∧ (closeRecv io).trace = io.trace ++ es := by
  unfold closeRecv close
  dsimp only
  split
  · rename_i hsend
    split
    · exact ⟨rfl, rfl, rfl, rfl, rfl, [], Or.inl rfl, by simp⟩
    · exact ⟨rfl, rfl, rfl, rfl, hsend.symm, [.closeSocket], Or.inr rfl, rfl⟩
  · exact ⟨rfl, rfl, rfl, rfl, rfl, [], Or.inl rfl, by simp⟩

theorem RecvStep.trace_grows {io io' : Io} (h : RecvStep io io') : io.trace <+: io'.trace := by
  cases h with
  | quiet => exact List.prefix_rfl
  | data => exact List.prefix_append _ _
  | ended os =>
      obtain ⟨-, -, -, -, -, es, -, htrace⟩ := closeRecv_facts ((io.setOs os).log .recvEnd)
      rw [htrace]
      exact (List.prefix_append _ _).trans (List.prefix_append _ _)

theorem RecvStep.timers {io io' : Io} (h : RecvStep io io') : io'.timers = io.timers := by
  cases h with
  | quiet => rfl
  | data => rfl
  | ended os => exact (closeRecv_facts ((io.setOs os).log .recvEnd)).2.2.1

theorem closeRecv_backlog (io : Io) : (closeRecv io).backlog = io.backlog := by
  obtain ⟨hbuffer, hos, -⟩ := closeRecv_facts io
  unfold Io.backlog Io.unread
  rw [hbuffer, hos]
  rfl

/-- Bytes that are received were announced by an answer that is used up. -/
theorem readIntoBuffer_backlog (size : Nat) (io : Io) :
    (readIntoBuffer size io).2.backlog ≤ io.backlog := by
  unfold readIntoBuffer
  split
  · exact Nat.le_refl _
  · cases hrecv : (io.call .recv).os.recv with
    | mk answer os =>
        have hpending := Os.recv_pending hrecv
        rw [show (io.call .recv).os.pending = io.os.pending from rfl] at hpending
        have hle : (io.setOs os).backlog + answer.size = io.backlog := by
          simp only [Io.backlog, Io.setOs_unread, Io.setOs_os]
          omega
        cases answer with
        | data b bs =>
            have hbuffer := Io.setBuffer_backlog
              ((io.setOs os).sock.mReadBuffer.put ((b :: bs).take size)) (io.setOs os)
            rw [ReadBuffer.put_unread, List.length_append, List.length_take] at hbuffer
            show Io.backlog (Io.setBuffer _ _) ≤ _
            simp only [RecvAnswer.size, List.length_cons, Io.unread] at hle hbuffer
            omega
        | wouldBlock => exact Nat.le.intro hle
        | eof =>
            rw [closeRecv_backlog, Io.log_backlog]
            exact Nat.le.intro hle
        | error =>
            rw [closeRecv_backlog, Io.log_backlog]
            exact Nat.le.intro hle

theorem drainLoop_backlog (size fuel : Nat) (io : Io) :
    (drainLoop size fuel io).backlog ≤ io.backlog := by
  induction fuel generalizing io with
  | zero => exact Nat.le_refl _
  | succ fuel ih =>
      have hle := readIntoBuffer_backlog size io
      rw [drainLoop]
      split
      · rename_i io' hr
        rwa [hr] at hle
      · rename_i n io' hr
        rw [hr] at hle
        exact Nat.le_trans (ih io') hle

theorem readIntoBuffer_data {size : Nat} {io : Io} {a : RecvAnswer} {rest : List RecvAnswer}
    (hopen : io.sock.mRecvClosed = false) (ha : io.os.recvs = a :: rest) (hne : a.bytes ≠ [])
    (hle : a.bytes.length ≤ size) :
    readIntoBuffer size io = (a.bytes.length,
      ((io.setOs { (io.call .recv).os with recvs := rest }).setBuffer
        (io.sock.mReadBuffer.put a.bytes)).log (.recv a.bytes)) := by
  cases a with
  | data b bs =>
      have hpos : size ≠ 0 := by
        rintro rfl
        cases hle
      have htake : (b :: bs).take size = b :: bs := List.take_of_length_le hle
      unfold readIntoBuffer Os.recv
      rw [if_neg (by simp [hopen, hpos]), Io.call_recvs, ha]
      simp only [List.headD_cons, List.tail_cons, htake]
      rfl
  | _ => exact absurd rfl hne

theorem readIntoBuffer_quiet {io : Io} (size : Nat) (hnone : io.os.recvs = []) :
    ∃ os, readIntoBuffer size io = (0, io.setOs os) := by
  unfold readIntoBuffer Os.recv
  split
  · exact ⟨io.os, rfl⟩
  · rw [Io.call_recvs, hnone]
    exact ⟨_, rfl⟩

/-- Draining takes over everything that `PR_Recv` delivers at once. -/
theorem drainLoop_data {size fuel : Nat} {io : Io} (hopen : io.sock.mRecvClosed = false)
    (hdata : ∀ a ∈ io.os.recvs, a.bytes ≠ [] ∧ a.bytes.length ≤ size)
    (hfuel : io.os.recvs.length < fuel) :
    (drainLoop size fuel io).unread = io.unread ++ io.os.recvs.flatMap RecvAnswer.bytes ∧
      (drainLoop size fuel io).trace = io.trace ++ io.os.recvs.map (.recv ·.bytes) := by
  induction fuel generalizing io with
  | zero => omega
  | succ fuel ih =>
      rw [drainLoop]
      cases hrecvs : io.os.recvs with
      | nil =>
          obtain ⟨os, hquiet⟩ := readIntoBuffer_quiet size hrecvs
          rw [hquiet]
          simp
      | cons a rest =>
          obtain ⟨hne, hle⟩ := hdata a (by simp [hrecvs])
          obtain ⟨n, hn⟩ := Nat.exists_eq_succ_of_ne_zero (mt List.eq_nil_of_length_eq_zero hne)
          rw [readIntoBuffer_data hopen hrecvs hne hle, hn]
          have hrest : ∀ a ∈ rest, a.bytes ≠ [] ∧ a.bytes.length ≤ size := fun a ha =>
            hdata a (by
              rw [hrecvs]
              exact List.mem_cons_of_mem _ ha)
          have hfuel' : rest.length < fuel := by
            rw [hrecvs] at hfuel
            exact Nat.lt_of_succ_lt_succ hfuel
          let io' := ((io.setOs { (io.call .recv).os with recvs := rest }).setBuffer
            (io.sock.mReadBuffer.put a.bytes)).log (.recv a.bytes)
          obtain ⟨hunread, htrace⟩ := @ih io' hopen hrest hfuel'
          refine ⟨hunread.trans ?_, htrace.trans ?_⟩
          · rw [Io.log_unread, Io.setBuffer_unread, ReadBuffer.put_unread, List.append_assoc]
            rfl
          · simp [io']

/-! ## Handing out -/

/-- `read` drains the socket and hands out the front of the buffer. -/
theorem read_spec {size : Nat} {io io' : Io} {out : Bytes} (h : read size io = (out, io')) :
    ∃ io₁ b, ReflTransGen RecvStep io io₁ ∧ out ++ b.unread = io₁.unread ∧ out.length ≤ size ∧
      io' = (if out = [] then io₁.setBuffer b else (io₁.setBuffer b).log (.read out)) ∧
      out.length + io'.backlog ≤ io.backlog := by
  have hpath : ReflTransGen RecvStep io (drain 1024 io) := drainLoop_path _ _ _
  have hle : (drain 1024 io).backlog ≤ io.backlog := drainLoop_backlog _ _ _
  obtain ⟨hout, hrest⟩ := ReadBuffer.read_spec (drain 1024 io).sock.mReadBuffer size
  have hcount := ReadBuffer.readCount_eq (drain 1024 io).sock.mReadBuffer size
  change (((drain 1024 io).sock.mReadBuffer.read size).1,
    if ((drain 1024 io).sock.mReadBuffer.read size).1 = [] then
      (drain 1024 io).setBuffer ((drain 1024 io).sock.mReadBuffer.read size).2
    else ((drain 1024 io).setBuffer ((drain 1024 io).sock.mReadBuffer.read size).2).log
      (.read ((drain 1024 io).sock.mReadBuffer.read size).1)) = _ at h
  generalize (drain 1024 io).sock.mReadBuffer.read size = r at h hout hrest
  obtain ⟨rfl, rfl⟩ := Prod.mk.inj h
  have hsplit : r.1 ++ r.2.unread = (drain 1024 io).unread := by
    rw [hout, hrest, List.take_append_drop]
    rfl
  have hback := Io.setBuffer_backlog r.2 (drain 1024 io)
  rw [← hsplit, List.length_append] at hback
  refine ⟨drain 1024 io, r.2, hpath, hsplit, ?_, rfl, ?_⟩
  · rw [hout, List.length_take]
    omega
  · have hlog : (if r.1 = [] then (drain 1024 io).setBuffer r.2
        else ((drain 1024 io).setBuffer r.2).log (.read r.1)).backlog =
        ((drain 1024 io).setBuffer r.2).backlog := by
      split <;> rfl
    omega

/-- `readLine` drains the socket and hands out what `getline` finds. -/
theorem readLine_spec {io io' : Io} {raw : Bytes} {len : Int}
    (h : readLine io = some (raw, len, io')) :
    ∃ io₁ b, ReflTransGen RecvStep io io₁ ∧
      io₁.sock.mReadBuffer.getline = some (raw, len, b) ∧
      io' = (if len = 0 then io₁.setBuffer b else (io₁.setBuffer b).log (.readLine raw)) ∧
      raw.length + io'.backlog ≤ io.backlog := by
  have hpath : ReflTransGen RecvStep io (drain 256 io) := drainLoop_path _ _ _
  have hle : (drain 256 io).backlog ≤ io.backlog := drainLoop_backlog _ _ _
  unfold readLine at h
  dsimp only at h
  split at h
  · cases h
  · rename_i out len' b hget
    obtain ⟨rfl, rfl, rfl⟩ : out = raw ∧ len' = len ∧ _ = io' := by simpa using h
    have hsplit : out ++ b.unread = (drain 256 io).unread := (ReadBuffer.getline_unread _ hget).1
    have hback := Io.setBuffer_backlog b (drain 256 io)
    rw [← hsplit, List.length_append] at hback
    refine ⟨drain 256 io, b, hpath, hget, rfl, ?_⟩
    have hlog : (if len' = 0 then (drain 256 io).setBuffer b
        else ((drain 256 io).setBuffer b).log (.readLine out)).backlog =
        ((drain 256 io).setBuffer b).backlog := by
      split <;> rfl
    omega

/-! ## Writing -/

/-- What writing `bs` does: nothing but one `PR_Send`, after which the send side
may be closed, and with it the socket if nothing is received any more. -/
structure Wrote (bs : Bytes) (io io' : Io) : Prop where
  buffer : io'.sock.mReadBuffer = io.sock.mReadBuffer
  recvClosed : io'.sock.mRecvClosed = io.sock.mRecvClosed
  timers : io'.timers = io.timers
  system : io'.os = { io.os with sends := io'.os.sends, calls := io'.os.calls }
  silent : bs = [] ∨ io.sock.mSendClosed = true → io' = io
  sent : bs ≠ [] → io.sock.mSendClosed = false →
    (∃ n, io'.trace = io.trace ++ [.send bs n] ∧ io'.sock = io.sock) ∨
      io'.sock.mSendClosed = true ∧ ∃ es, (es = [] ∨ es = [.closeSocket]) ∧
        io'.trace = io.trace ++ [.send bs 0] ++ es

theorem closeSend_facts (io : Io) :
    (closeSend io).sock.mReadBuffer = io.sock.mReadBuffer ∧
      (closeSend io).sock.mRecvClosed = io.sock.mRecvClosed ∧
      (closeSend io).timers = io.timers ∧
      (closeSend io).os = { io.os with calls := (closeSend io).os.calls } ∧
      (closeSend io).sock.mSendClosed = true ∧
      ∃ es, (es = [] ∨ es = [.closeSocket]) ∧ (closeSend io).trace = io.trace ++ es := by
  unfold closeSend close
  dsimp only
  split
  · rename_i hrecv
    split
    · exact ⟨rfl, rfl, rfl, rfl, rfl, [], Or.inl rfl, by simp⟩
    · exact ⟨rfl, hrecv.symm, rfl, rfl, rfl, [.closeSocket], Or.inr rfl, rfl⟩
  · exact ⟨rfl, rfl, rfl, rfl, rfl, [], Or.inl rfl, by simp⟩

theorem sends_only {os os' : Os} {sends : List SendAnswer} {calls : List NsprCall}
    (h : os' = { os with sends, calls }) :
    os' = { os with sends := os'.sends, calls := os'.calls } := by
  subst h
  rfl

theorem write_wrote {buf : Bytes} {size : Nat} (hsize : size ≤ buf.length) (io : Io) :
    Wrote (buf.take size) io (write buf size io) := by
  by_cases h : size = 0 ∨ io.sock.mSendClosed = true
  · have hio : write buf size io = io := by
      unfold write
      rw [if_pos h]
    rw [hio]
    refine ⟨rfl, rfl, rfl, rfl, fun _ => rfl, fun hbs hopen => ?_⟩
    rcases h with rfl | h
    · exact absurd rfl hbs
    · rw [hopen] at h
      cases h
  · have hloud : buf.take size = [] ∨ io.sock.mSendClosed = true → write buf size io = io := by
      rintro (hbs | hclosed)
      · rw [List.take_eq_nil_iff] at hbs
        rcases hbs with hbs | rfl
        · exact absurd (Or.inl hbs) h
        · exact absurd (Or.inl (Nat.le_zero.mp hsize)) h
      · exact absurd (Or.inr hclosed) h
    unfold write at hloud ⊢
    rw [if_neg h] at hloud ⊢
    cases hsend : (io.call .send).os.send with
    | mk answer os =>
        rw [hsend] at hloud
        obtain ⟨-, hos⟩ := Prod.mk.inj hsend
        cases answer with
        | all => exact ⟨rfl, rfl, rfl, hos ▸ rfl, hloud, fun _ _ => Or.inl ⟨_, rfl, rfl⟩⟩
        | short k => exact ⟨rfl, rfl, rfl, hos ▸ rfl, hloud, fun _ _ => Or.inl ⟨_, rfl, rfl⟩⟩
        | wouldBlock => exact ⟨rfl, rfl, rfl, hos ▸ rfl, hloud, fun _ _ => Or.inl ⟨_, rfl, rfl⟩⟩
        | error =>
            obtain ⟨hbuffer, hrecv, htimers, hos', hsend, es, hes, htrace⟩ :=
              closeSend_facts ((io.setOs os).log (.send (buf.take size) 0))
            subst hos
            exact ⟨hbuffer, hrecv, htimers, sends_only hos', hloud,
              fun _ _ => Or.inr ⟨hsend, es, hes, htrace⟩⟩

theorem writeString_wrote (line : Bytes) (io : Io) :
    Wrote (line.take (wrap32 line.length)) io (writeString line io) :=
  write_wrote (Nat.mod_le _ _) io

/-! ## Calls that leave the input alone -/

/-- The buffer is the same, and so is what is still to come. -/
structure SameInput (io io' : Io) : Prop where
  buffer : io'.sock.mReadBuffer = io.sock.mReadBuffer
  recvs : io'.os.recvs = io.os.recvs

theorem SameInput.trans {io₁ io₂ io₃ : Io} (h : SameInput io₁ io₂) (h' : SameInput io₂ io₃) :
    SameInput io₁ io₃ :=
  ⟨h'.buffer.trans h.buffer, h'.recvs.trans h.recvs⟩

theorem SameInput.unread {io io' : Io} (h : SameInput io io') : io'.unread = io.unread :=
  congrArg ReadBuffer.unread h.buffer

theorem SameInput.backlog {io io' : Io} (h : SameInput io io') : io'.backlog = io.backlog := by
  unfold Io.backlog Os.pending
  rw [h.unread, h.recvs]

theorem close_sameInput (io : Io) : SameInput io (close io) := by
  unfold close
  split <;> exact ⟨rfl, rfl⟩

/-- Every `PR_Send` has been accepted in full. -/
def FullSends (t : List Event) : Prop := ∀ bs n, .send bs n ∈ t → n = bs.length

/-- Is an event no send that falls short? -/
def isFull : Event → Bool
  | .send bs n => n = bs.length
  | _ => true

theorem FullSends.of_prefix {t u : List Event} (h : FullSends u) (hpre : t <+: u) : FullSends t :=
  fun bs n hmem => h bs n (hpre.subset hmem)

instance (t : List Event) : Decidable (FullSends t) :=
  decidable_of_iff (∀ e ∈ t, isFull e = true) (by
    constructor
    · intro h bs n hmem
      simpa [isFull] using h _ hmem
    · intro h e he
      cases e with
      | send bs n => simpa [isFull] using h bs n he
      | _ => rfl)

/-- Nothing has been received, read or timed: only output has been added. The send
side stays open unless a send falls short. -/
structure Frame (io io' : Io) : Prop extends SameInput io io' where
  recvClosed : io'.sock.mRecvClosed = io.sock.mRecvClosed
  timers : io'.timers = io.timers
  trace : ∃ es, io'.trace = io.trace ++ es ∧ (∀ e ∈ es, e.isOutput = true) ∧
    (FullSends es → io'.sock.mSendClosed = io.sock.mSendClosed)

theorem Frame.refl (io : Io) : Frame io io :=
  ⟨⟨rfl, rfl⟩, rfl, rfl, [], by simp, by simp, fun _ => rfl⟩

theorem Frame.trans {io₁ io₂ io₃ : Io} (h : Frame io₁ io₂) (h' : Frame io₂ io₃) :
    Frame io₁ io₃ where
  toSameInput := h.toSameInput.trans h'.toSameInput
  recvClosed := h'.recvClosed.trans h.recvClosed
  timers := h'.timers.trans h.timers
  trace := by
    obtain ⟨es, htrace, hes, hsend⟩ := h.trace
    obtain ⟨es', htrace', hes', hsend'⟩ := h'.trace
    refine ⟨es ++ es', by rw [htrace', htrace, List.append_assoc], fun e he => ?_, fun hfull => ?_⟩
    · rcases List.mem_append.mp he with he | he
      · exact hes e he
      · exact hes' e he
    · rw [hsend' fun bs n hmem => hfull bs n (List.mem_append_right _ hmem),
        hsend fun bs n hmem => hfull bs n (List.mem_append_left _ hmem)]

theorem frame_log (io : Io) {e : Event} (he : e.isOutput = true) : Frame io (io.log e) :=
  ⟨⟨rfl, rfl⟩, rfl, rfl, [e], rfl, by simpa using he, fun _ => rfl⟩

theorem frame_setOs (io : Io) {os : Os} (h : os.recvs = io.os.recvs) : Frame io (io.setOs os) :=
  ⟨⟨rfl, h⟩, rfl, rfl, [], by simp, by simp, fun _ => rfl⟩

theorem Wrote.frame {bs : Bytes} {io io' : Io} (h : Wrote bs io io') : Frame io io' := by
  refine ⟨⟨h.buffer, by rw [h.system]⟩, h.recvClosed, h.timers, ?_⟩
  by_cases hquiet : bs = [] ∨ io.sock.mSendClosed = true
  · rw [h.silent hquiet]
    exact ⟨[], by simp, by simp⟩
  · have hbs : bs ≠ [] := fun hbs => hquiet (Or.inl hbs)
    have hopen : io.sock.mSendClosed = false := by
      cases hclosed : io.sock.mSendClosed with
      | false => rfl
      | true => exact absurd (Or.inr hclosed) hquiet
    rcases h.sent hbs hopen with ⟨n, htrace, hsock⟩ | ⟨-, es, hes, htrace⟩
    · exact ⟨_, htrace, by simp [Event.isOutput], fun _ => by rw [hsock]⟩
    · refine ⟨[.send bs 0] ++ es, by rw [htrace, List.append_assoc], ?_, fun hfull => ?_⟩
      · rcases hes with rfl | rfl <;> simp [Event.isOutput]
      · have hzero := hfull bs 0 (by simp)
        exact absurd (List.eq_nil_of_length_eq_zero hzero.symm) hbs

theorem writeString_frame (line : Bytes) (io : Io) : Frame io (writeString line io) :=
  (writeString_wrote line io).frame

/-- The one event of a write that is accepted in full. -/
def sendAll (bs : Bytes) : List Event := if bs = [] then [] else [.send bs bs.length]

/-- A write that is accepted in full, on a socket whose send side is open. -/
theorem Wrote.full {bs : Bytes} {io io' : Io} (h : Wrote bs io io')
    (hopen : io.sock.mSendClosed = false) (hfull : FullSends io'.trace) :
    io'.trace = io.trace ++ sendAll bs ∧ io'.sock = io.sock := by
  unfold sendAll
  by_cases hbs : bs = []
  · rw [h.silent (Or.inl hbs), if_pos hbs, List.append_nil]
    exact ⟨rfl, rfl⟩
  · rw [if_neg hbs]
    rcases h.sent hbs hopen with ⟨n, htrace, hsock⟩ | ⟨-, es, -, htrace⟩
    · obtain rfl : n = bs.length := hfull bs n (by simp [htrace])
      exact ⟨htrace, hsock⟩
    · have hzero : 0 = bs.length := hfull bs 0 (by simp [htrace])
      exact absurd (List.eq_nil_of_length_eq_zero hzero.symm) hbs

theorem writeString_full {line : Bytes} {io : Io} (hline : line.length < 2 ^ 32)
    (hopen : io.sock.mSendClosed = false) (hfull : FullSends (writeString line io).trace) :
    (writeString line io).trace = io.trace ++ sendAll line ∧
      (writeString line io).sock = io.sock := by
  have hwrote := writeString_wrote line io
  rw [wrap32_of_lt hline, List.take_length] at hwrote
  exact hwrote.full hopen hfull

theorem Frame.trace_grows {io io' : Io} (h : Frame io io') : io.trace <+: io'.trace := by
  obtain ⟨es, htrace, -⟩ := h.trace
  exact ⟨es, htrace.symm⟩

end BufferedSocket

end Negatus
