import Negatus.BufferedSocket
import Negatus.Foundations.Chunks

/-!
# The outgoing stream

`write` hands its buffer to one `PR_Send` and looks at the result only for an
error. What a short send leaves over, and a whole buffer that would block, is
dropped, and the next `write` goes on behind it. The bytes on the wire are a
prefix of the bytes written exactly as long as no such send is followed by one
that takes something.
-/

namespace Negatus

open Foundations

/-- The number of bytes that `PR_Send` takes of a buffer of the given size. -/
def SendAnswer.taken (size : Nat) : SendAnswer → Nat
  | .all => size
  | .short k => if 0 < k ∧ k < size then k else size
  | .wouldBlock | .error => 0

/-- The bytes that `PR_Send` has taken. -/
def accepted (trace : List Event) : Bytes :=
  trace.flatMap fun
    | .send bs n => bs.take n
    | _ => []

@[simp] theorem accepted_append (t u : List Event) :
    accepted (t ++ u) = accepted t ++ accepted u := List.flatMap_append

namespace BufferedSocket

/-- The buffers of a run of `write`s, each with the bytes that were taken of it. -/
def writes : List Bytes → Io → List (Bytes × Bytes)
  | [], _ => []
  | buf :: bufs, io =>
      let io' := write buf buf.length io
      (buf, (accepted io'.trace).drop (accepted io.trace).length) :: writes bufs io'

def writeAll (bufs : List Bytes) (io : Io) : Io :=
  bufs.foldl (fun io buf => write buf buf.length io) io

/-- No byte is taken after an earlier byte of the stream was dropped, and so at
every moment a prefix of the stream has been taken. -/
def OutgoingIntact (bufs : List Bytes) (io : Io) : Prop :=
  (∀ k, accepted (writeAll (bufs.take k) io).trace <+: (bufs.take k).flatten) ∧
    Gapless (writes bufs io)

/-- The sizes that `PR_Send` is called with and its answers, up to the error
that closes the send side. -/
def sendCalls : List Bytes → List SendAnswer → List (Nat × SendAnswer)
  | [], _ => []
  | buf :: bufs, answers =>
      if buf = [] then sendCalls bufs answers
      else
        (buf.length, answers.headD .all) ::
          if answers.headD .all = .error then [] else sendCalls bufs answers.tail

/-- No call takes anything behind a call that did not take all. -/
def NothingTakenBehindLoss (calls : List (Nat × SendAnswer)) : Prop :=
  calls.Pairwise fun x y => x.2.taken x.1 < x.1 → y.2.taken y.1 = 0

instance (calls : List (Nat × SendAnswer)) : Decidable (NothingTakenBehindLoss calls) :=
  inferInstanceAs (Decidable (List.Pairwise _ _))

/-! ## One write -/

theorem close_accepted (io : Io) : accepted (close io).trace = accepted io.trace := by
  unfold close
  split
  · rfl
  · simp [Io.log, accepted]

theorem closeSend_accepted (io : Io) : accepted (closeSend io).trace = accepted io.trace := by
  unfold closeSend
  dsimp only
  split
  · exact close_accepted _
  · rfl

theorem closeSend_sendClosed (io : Io) : (closeSend io).sock.mSendClosed = true := by
  unfold closeSend close
  dsimp only
  split
  · split <;> rfl
  · rfl

theorem write_sendClosed {io : Io} (h : io.sock.mSendClosed = true) (buf : Bytes) (size : Nat) :
    write buf size io = io := by
  unfold write
  rw [if_pos (Or.inr h)]

theorem write_nil (io : Io) : write [] 0 io = io := by
  unfold write
  rw [if_pos (Or.inl rfl)]

/-- A write of a buffer that is not empty is one `PR_Send`. -/
theorem write_spec {io : Io} (hopen : io.sock.mSendClosed = false) {buf : Bytes} (hbuf : buf ≠ []) :
    accepted (write buf buf.length io).trace =
        accepted io.trace ++ buf.take ((io.os.sends.headD .all).taken buf.length) ∧
      (io.os.sends.headD .all = .error → (write buf buf.length io).sock.mSendClosed = true) ∧
      (io.os.sends.headD .all ≠ .error → (write buf buf.length io).sock.mSendClosed = false ∧
        (write buf buf.length io).os.sends = io.os.sends.tail) := by
  have hsize : ¬ (buf.length = 0 ∨ io.sock.mSendClosed = true) := by
    rw [hopen, List.length_eq_zero_iff]
    rintro (h | h)
    · exact hbuf h
    · cases h
  unfold write
  rw [if_neg hsize]
  simp only [Os.send, List.take_length, Io.call_sends]
  cases io.os.sends.headD .all with
  | all => exact ⟨by simp [Io.log, accepted, SendAnswer.taken], by simp, fun _ => ⟨hopen, rfl⟩⟩
  | short k => exact ⟨by simp [Io.log, accepted, SendAnswer.taken], by simp, fun _ => ⟨hopen, rfl⟩⟩
  | wouldBlock =>
      exact ⟨by simp [Io.log, accepted, SendAnswer.taken], by simp, fun _ => ⟨hopen, rfl⟩⟩
  | error =>
      refine ⟨?_, fun _ => closeSend_sendClosed _, fun h => absurd rfl h⟩
      rw [closeSend_accepted]
      simp [Io.log, accepted, SendAnswer.taken]

/-! ## Runs of writes -/

theorem writes_sendClosed {io : Io} (h : io.sock.mSendClosed = true) (bufs : List Bytes) :
    writes bufs io = bufs.map fun buf => (buf, []) := by
  induction bufs with
  | nil => rfl
  | cons buf bufs ih => simp [writes, write_sendClosed h, ih]

theorem writes_map_fst (bufs : List Bytes) (io : Io) : (writes bufs io).map Prod.fst = bufs := by
  induction bufs generalizing io with
  | nil => rfl
  | cons buf bufs ih => simp [writes, ih]

theorem writes_take (bufs : List Bytes) (io : Io) (k : Nat) :
    writes (bufs.take k) io = (writes bufs io).take k := by
  induction bufs generalizing io k with
  | nil => simp [writes]
  | cons buf bufs ih =>
      cases k with
      | zero => rfl
      | succ k => simp [writes, ih]

theorem write_accepted_prefix (buf : Bytes) (io : Io) :
    ∃ got, got <+: buf ∧ accepted (write buf buf.length io).trace = accepted io.trace ++ got := by
  cases hopen : io.sock.mSendClosed with
  | true => exact ⟨[], List.nil_prefix, by simp [write_sendClosed hopen]⟩
  | false =>
      by_cases hbuf : buf = []
      · subst hbuf
        exact ⟨[], List.nil_prefix, by simp [write_nil]⟩
      · exact ⟨_, List.take_prefix _ _, (write_spec hopen hbuf).1⟩

theorem writes_cut (bufs : List Bytes) (io : Io) : ∀ x ∈ writes bufs io, x.2 <+: x.1 := by
  induction bufs generalizing io with
  | nil => simp [writes]
  | cons buf bufs ih =>
      obtain ⟨got, hgot, hacc⟩ := write_accepted_prefix buf io
      intro x hx
      rcases List.mem_cons.mp hx with rfl | hx
      · simpa [hacc] using hgot
      · exact ih _ x hx

theorem writeAll_accepted (bufs : List Bytes) (io : Io) :
    accepted (writeAll bufs io).trace = accepted io.trace ++ kept (writes bufs io) := by
  induction bufs generalizing io with
  | nil => simp [writeAll, writes, kept]
  | cons buf bufs ih =>
      obtain ⟨got, -, hacc⟩ := write_accepted_prefix buf io
      have hstep := ih (write buf buf.length io)
      simp only [writeAll, List.foldl_cons] at hstep ⊢
      rw [hstep, hacc]
      simp [writes, kept, hacc]

theorem take_ne_iff {buf : Bytes} (n : Nat) : buf.take n ≠ buf ↔ n < buf.length := by
  constructor
  · intro h
    by_contra hn
    exact h (List.take_of_length_le (by omega))
  · intro h heq
    have := congrArg List.length heq
    rw [List.length_take] at this
    omega

/-- The first write of a run, next to its call of `PR_Send`. -/
theorem writes_cons {io : Io} (hopen : io.sock.mSendClosed = false) {buf : Bytes}
    (hbuf : buf ≠ []) (bufs : List Bytes) :
    ∃ a io', writes (buf :: bufs) io = (buf, buf.take (a.taken buf.length)) :: writes bufs io' ∧
      (a = .error ∧ sendCalls (buf :: bufs) io.os.sends = [(buf.length, a)] ∧
          io'.sock.mSendClosed = true ∨
        sendCalls (buf :: bufs) io.os.sends =
            (buf.length, a) :: sendCalls bufs io'.os.sends ∧
          io'.sock.mSendClosed = false) := by
  obtain ⟨hacc, herr, hok⟩ := write_spec hopen hbuf
  refine ⟨io.os.sends.headD .all, write buf buf.length io, by simp [writes, hacc], ?_⟩
  by_cases ha : io.os.sends.headD .all = .error
  · exact Or.inl ⟨ha, by rw [sendCalls, if_neg hbuf, if_pos ha], herr ha⟩
  · obtain ⟨hopen', hsends⟩ := hok ha
    exact Or.inr ⟨by rw [sendCalls, if_neg hbuf, if_neg ha, hsends], hopen'⟩

theorem writes_nil_cons (bufs : List Bytes) (io : Io) :
    writes ([] :: bufs) io = ([], []) :: writes bufs io ∧
      sendCalls ([] :: bufs) io.os.sends = sendCalls bufs io.os.sends := by
  constructor
  · simp [writes, write_nil]
  · simp [sendCalls]

/-- Whether anything is taken can be read off the calls. -/
theorem nothing_taken_iff {io : Io} (hopen : io.sock.mSendClosed = false) (bufs : List Bytes) :
    (∀ y ∈ writes bufs io, y.2 = []) ↔
      ∀ y ∈ sendCalls bufs io.os.sends, y.2.taken y.1 = 0 := by
  induction bufs generalizing io with
  | nil => simp [writes, sendCalls]
  | cons buf bufs ih =>
      by_cases hbuf : buf = []
      · subst hbuf
        obtain ⟨hrun, hcalls⟩ := writes_nil_cons bufs io
        rw [hrun, hcalls, List.forall_mem_cons, ih hopen]
        simp
      · obtain ⟨a, io', hrun, ⟨rfl, hcalls, hclosed⟩ | ⟨hcalls, hopen'⟩⟩ :=
          writes_cons hopen hbuf bufs
        · rw [hrun, hcalls, writes_sendClosed hclosed]
          simp [SendAnswer.taken]
        · rw [hrun, hcalls, List.forall_mem_cons, List.forall_mem_cons, ih hopen']
          simp [hbuf]

/-- Whether anything is taken behind a loss can be read off the calls. -/
theorem gapless_writes_iff {io : Io} (hopen : io.sock.mSendClosed = false) (bufs : List Bytes) :
    Gapless (writes bufs io) ↔ NothingTakenBehindLoss (sendCalls bufs io.os.sends) := by
  induction bufs generalizing io with
  | nil => simp [writes, sendCalls, Gapless, NothingTakenBehindLoss]
  | cons buf bufs ih =>
      by_cases hbuf : buf = []
      · -- an empty buffer: no call, and nothing to lose
        subst hbuf
        obtain ⟨hrun, hcalls⟩ := writes_nil_cons bufs io
        rw [hrun, hcalls, ← ih hopen]
        simp [Gapless]
      · obtain ⟨a, io', hrun, ⟨rfl, hcalls, hclosed⟩ | ⟨hcalls, hopen'⟩⟩ :=
          writes_cons hopen hbuf bufs
        · -- the error closes the send side: nothing is taken any more
          rw [hrun, hcalls, writes_sendClosed hclosed]
          simp [Gapless, NothingTakenBehindLoss, List.pairwise_map, List.pairwise_of_forall]
        · have hrest := ih hopen'
          unfold Gapless NothingTakenBehindLoss at hrest ⊢
          rw [hrun, hcalls, List.pairwise_cons, List.pairwise_cons, hrest]
          refine and_congr ?_ Iff.rfl
          simp only [take_ne_iff]
          by_cases hloss : a.taken buf.length < buf.length
          · simpa only [hloss, forall_const] using nothing_taken_iff hopen' bufs
          · simp only [hloss, false_implies, implies_true]

/-- **When the outgoing stream has no gaps.** On a new socket, for every run of
writes and all answers of `PR_Send`: at each moment a prefix of the written bytes
has been taken, and none behind a dropped one, if and only if no call of `PR_Send`
takes anything behind a call that took less than it was given. -/
theorem outgoing_intact_iff (socket : Nat) (os : Os) (bufs : List Bytes) :
    OutgoingIntact bufs { sock := new socket, os } ↔
      NothingTakenBehindLoss (sendCalls bufs os.sends) := by
  have hopen : ({ sock := new socket, os } : Io).sock.mSendClosed = false := rfl
  rw [← gapless_writes_iff hopen bufs]
  refine ⟨fun h => h.2, fun h => ⟨fun k => ?_, h⟩⟩
  rw [writeAll_accepted, writes_take]
  have hprefix := (h.take k).kept_isPrefix fun x hx =>
    writes_cut bufs _ x (List.mem_of_mem_take hx)
  have hoffered : offered ((writes bufs { sock := new socket, os }).take k) = (bufs.take k).flatten := by
    unfold offered
    rw [List.flatMap_def, List.map_take, writes_map_fst]
  rw [← hoffered]
  exact hprefix

/-- `PR_Send` takes the first byte of `ab`, and then all of `c`. -/
theorem outgoing_gap_after_short_send :
    ¬ ∀ (socket : Nat) (os : Os) (bufs : List Bytes),
      OutgoingIntact bufs { sock := new socket, os } := by
  intro h
  have hprefix := (h 0 { sends := [.short 1, .all] } [str "ab", str "c"]).1 2
  revert hprefix
  decide

end BufferedSocket

end Negatus
