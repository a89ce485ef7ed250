import Mathlib.Data.List.Forall2
import Negatus.BufferedSocket.Descriptor
import Negatus.Foundations.History
import Negatus.Foundations.Refinement

/-!
# The receive side of a socket

To its users a socket is what comes in: the bytes that have arrived and have not
been handed out, and whether more can arrive. A call first takes in what has
arrived, and then hands out a line or a number of bytes. How `PR_Recv` cut the
stream up, and in which blocks the buffer keeps it, does not matter.
-/

namespace Negatus

open Foundations BufferedSocket
open BlockBuffer (firstLine)

/-- Calls of a `BufferedSocket`, with the answers that `PR_Recv` and `PR_Send` give meanwhile. -/
inductive SocketCall where
  | read (size : Nat) (answers : List RecvAnswer)
  | readLine (answers : List RecvAnswer)
  | write (buf : Bytes) (answer : SendAnswer)
  | close

namespace SocketCall

/-- The bytes that are handed out, and the returned number. -/
abbrev Result : Type := Bytes × Int

/-- The answers that `PR_Recv` will give. -/
def facing (answers : List RecvAnswer) (io : Io) : Io :=
  io.setOs { io.os with recvs := answers }

def step (io : Io) : SocketCall → Option (Result × Io)
  | .read size answers =>
      let (out, io) := BufferedSocket.read size (facing answers io)
      some ((out, out.length), io)
  | .readLine answers =>
      match BufferedSocket.readLine (facing answers io) with
      | none => none
      | some (out, numRead, io) => some ((out, numRead), io)
  | .write buf answer =>
      some (([], 0), BufferedSocket.write buf buf.length (io.setOs { io.os with sends := [answer] }))
  | .close => some (([], 0), BufferedSocket.close io)

/-! ## What comes in -/

/-- The bytes of the answers in front of the first that delivers nothing. -/
def arrived (size : Nat) : List RecvAnswer → Bytes
  | .data b bs :: answers => (b :: bs).take size ++ arrived size answers
  | _ => []

/-- Does an answer report EOF or an error, and is it asked for? -/
def ends : List RecvAnswer → Bool
  | .data _ _ :: answers => ends answers
  | .eof :: _ | .error :: _ => true
  | _ => false

end SocketCall

/-- The bytes that can be handed out, and whether more can arrive. -/
structure Incoming where
  unread : Bytes := []
  live : Bool := true
deriving DecidableEq, Repr

namespace Incoming

open SocketCall (arrived ends)

def take (size : Nat) (answers : List RecvAnswer) (s : Incoming) : Incoming :=
  if s.live then ⟨s.unread ++ arrived size answers, !ends answers⟩ else s

def call (s : Incoming) : SocketCall → SocketCall.Result × Incoming
  | .read size answers =>
      let s := s.take 1024 answers
      ((s.unread.take size, (s.unread.take size).length), { s with unread := s.unread.drop size })
  | .readLine answers =>
      let s := s.take 256 answers
      match firstLine s.unread with
      | some (line, rest) => ((line, line.length), { s with unread := rest })
      | none => (([], 0), s)
  | .write _ _ => (([], 0), s)
  | .close => (([], 0), { s with live := false })

theorem call_read (s : Incoming) (size : Nat) (answers : List RecvAnswer) :
    s.call (.read size answers) =
      (((s.take 1024 answers).unread.take size,
          (((s.take 1024 answers).unread.take size).length : Int)),
        ⟨(s.take 1024 answers).unread.drop size, (s.take 1024 answers).live⟩) := rfl

theorem call_readLine (s : Incoming) (answers : List RecvAnswer) :
    s.call (.readLine answers) =
      match firstLine (s.take 256 answers).unread with
      | some (line, rest) => ((line, (line.length : Int)), ⟨rest, (s.take 256 answers).live⟩)
      | none => (([], 0), s.take 256 answers) := rfl

/-- What a call finds can be measured: by `avail` in a `PRUint32`, a line in an `int`. -/
def Measured (s : Incoming) : SocketCall → Prop
  | .read _ answers => (s.take 1024 answers).unread.length < 2 ^ 32
  | .readLine answers => FirstLineFits (s.take 256 answers).unread
  | _ => True

end Incoming

def Io.incoming (io : Io) : Incoming := ⟨io.unread, !io.sock.mRecvClosed⟩

/-! ## Draining -/

namespace SocketCall

/-- A call of `PR_Recv` with the size asked for, or a call of `close`. -/
inductive Request where
  | recv (size : Nat) (answer : RecvAnswer)
  | close
deriving DecidableEq, Repr

def Request.delivered : Request → Bytes
  | .recv size answer => answer.bytes.take size
  | .close => []

/-- The calls of `PR_Recv` in `drainLoop`. -/
def drainRequests (size : Nat) : (fuel : Nat) → Io → List Request
  | 0, _ => []
  | fuel + 1, io =>
      if size = 0 ∨ io.sock.mRecvClosed = true then []
      else
        .recv size io.os.recv.1 ::
          match readIntoBuffer size io with
          | (0, _) => []
          | (_ + 1, io') => drainRequests size fuel io'

def drainOf (size : Nat) (io : Io) (answers : List RecvAnswer) : List Request :=
  drainRequests size (answers.length + 1) (facing answers io)

def requests (io : Io) : SocketCall → List Request
  | .read _ answers => drainOf 1024 io answers
  | .readLine answers => drainOf 256 io answers
  | .write _ _ => []
  | .close => [.close]

/-- The requests of a sequence of calls. -/
def allRequests : Io → List SocketCall → List Request
  | _, [] => []
  | io, c :: cs =>
      c.requests io ++
        match step io c with
        | some (_, io') => allRequests io' cs
        | none => []

/-- `PR_Recv` may be asked for what `mTmpBuf` holds, until it has reported the end. -/
def Asked (ended : Bool) : Request → Prop
  | .recv size _ => ended = false ∧ size ≤ 1024
  | .close => True

def Ended (ended : Bool) : Request → Bool
  | .recv _ .eof | .recv _ .error | .close => true
  | .recv _ _ => ended

/-- What draining the socket amounts to. -/
structure Drained (size : Nat) (io io' : Io) (rs : List Request) : Prop where
  incoming : io'.incoming = io.incoming.take size io.os.recvs
  delivered : io.unread ++ rs.flatMap Request.delivered = io'.unread
  asked : Along Asked Ended io.sock.mRecvClosed rs
  ended : rs.foldl Ended io.sock.mRecvClosed = io'.sock.mRecvClosed

theorem drained_nothing {size : Nat} {io : Io} (hclosed : io.sock.mRecvClosed = true) :
    Drained size io io [] where
  incoming := by
    unfold Incoming.take Io.incoming
    rw [hclosed]
    rfl
  delivered := by simp
  asked := along_nil
  ended := rfl

/-- One call of `PR_Recv` on an open socket. -/
theorem readIntoBuffer_open {size : Nat} {io : Io} (hsize : size ≠ 0)
    (hopen : io.sock.mRecvClosed = false) :
    readIntoBuffer size io =
      match (io.call .recv).os.recv with
      | (.data b bs, os) => (((b :: bs).take size).length,
          ((io.setOs os).setBuffer (io.sock.mReadBuffer.put ((b :: bs).take size))).log
            (.recv ((b :: bs).take size)))
      | (.wouldBlock, os) => (0, io.setOs os)
      | (.eof, os) | (.error, os) => (0, closeRecv ((io.setOs os).log .recvEnd)) := by
  unfold readIntoBuffer
  rw [if_neg (by simp [hsize, hopen])]
  obtain ⟨answer, os⟩ := (io.call .recv).os.recv
  cases answer <;> rfl

theorem drained_end {size : Nat} (hle : size ≤ 1024) {io : Io} {os : Os} {answer : RecvAnswer}
    {answers : List RecvAnswer} (hopen : io.sock.mRecvClosed = false)
    (hrecvs : io.os.recvs = answer :: answers) (hanswer : answer = .eof ∨ answer = .error) :
    Drained size io (closeRecv ((io.setOs os).log .recvEnd)) [.recv size answer] := by
  obtain ⟨hbuffer, -, -, hclosed, -⟩ := closeRecv_facts ((io.setOs os).log .recvEnd)
  have hunread : (closeRecv ((io.setOs os).log .recvEnd)).unread = io.unread :=
    congrArg ReadBuffer.unread hbuffer
  refine ⟨?_, ?_, ⟨⟨hopen, hle⟩, trivial⟩, ?_⟩
  · unfold Incoming.take Io.incoming
    rw [hopen, hrecvs, hclosed, hunread]
    rcases hanswer with rfl | rfl <;> simp [arrived, ends]
  · rw [hunread]
    rcases hanswer with rfl | rfl <;> simp [Request.delivered, RecvAnswer.bytes]
  · rw [hclosed]
    rcases hanswer with rfl | rfl <;> rfl

theorem drained_wouldBlock {size : Nat} (hle : size ≤ 1024) {io : Io} {os : Os}
    (hopen : io.sock.mRecvClosed = false)
    (hrecvs : io.os.recvs = [] ∨ ∃ answers, io.os.recvs = .wouldBlock :: answers) :
    Drained size io (io.setOs os) [.recv size .wouldBlock] := by
  refine ⟨?_, by simp [Request.delivered, RecvAnswer.bytes], ⟨⟨hopen, hle⟩, trivial⟩, rfl⟩
  unfold Incoming.take Io.incoming
  rw [Io.setOs_unread, Io.setOs_sock, hopen]
  rcases hrecvs with hrecvs | ⟨answers, hrecvs⟩ <;> rw [hrecvs] <;> simp [arrived, ends]

/-- Behind an answer that delivers something the loop goes on. -/
theorem Drained.data {size : Nat} (hle : size ≤ 1024) {io io₁ io' : Io} {rs : List Request}
    {b : UInt8} {bs : Bytes} (h : Drained size io₁ io' rs) (hopen : io.sock.mRecvClosed = false)
    (hopen₁ : io₁.sock.mRecvClosed = false) (hrecvs : io.os.recvs = .data b bs :: io₁.os.recvs)
    (hunread : io₁.unread = io.unread ++ (b :: bs).take size) :
    Drained size io io' (.recv size (.data b bs) :: rs) := by
  obtain ⟨hincoming, hdelivered, hasked, hended⟩ := h
  refine ⟨hincoming.trans ?_, ?_, ⟨⟨hopen, hle⟩, ?_⟩, ?_⟩
  · unfold Incoming.take Io.incoming
    rw [hopen, hopen₁, hrecvs, hunread]
    simp [arrived, ends]
  · rw [hunread, List.append_assoc] at hdelivered
    exact hdelivered
  · rw [hopen₁] at hasked
    rw [hopen]
    exact hasked
  · rw [hopen₁] at hended
    rw [hopen]
    exact hended

theorem drainLoop_drained {size fuel : Nat} (hsize : size ≠ 0) (hle : size ≤ 1024) {io : Io}
    (hfuel : io.os.recvs.length < fuel) :
    Drained size io (drainLoop size fuel io) (drainRequests size fuel io) := by
  induction fuel generalizing io with
  | zero => omega
  | succ fuel ih =>
      rw [drainLoop, drainRequests]
      cases hopen : io.sock.mRecvClosed with
      | true =>
          have hquiet : readIntoBuffer size io = (0, io) := if_pos (Or.inr hopen)
          rw [hquiet, if_pos (Or.inr rfl)]
          exact drained_nothing hopen
      | false =>
          rw [if_neg (by simp [hsize]), readIntoBuffer_open hsize hopen]
          unfold Os.recv
          rw [Io.call_recvs]
          cases hrecvs : io.os.recvs with
          | nil => exact drained_wouldBlock hle hopen (.inl hrecvs)
          | cons answer answers =>
              cases answer with
              | data b bs =>
                  obtain ⟨n, hn⟩ : ∃ n, ((b :: bs).take size).length = n + 1 :=
                    Nat.exists_eq_succ_of_ne_zero (by simp [hsize])
                  dsimp only [List.headD_cons, List.tail_cons]
                  rw [hn]
                  refine Drained.data hle (ih ?_) hopen hopen hrecvs ?_
                  · rw [hrecvs] at hfuel
                    exact Nat.lt_of_succ_lt_succ hfuel
                  · exact ReadBuffer.put_unread _ _
              | wouldBlock => exact drained_wouldBlock hle hopen (.inr ⟨answers, hrecvs⟩)
              | eof => exact drained_end hle hopen hrecvs (.inl rfl)
              | error => exact drained_end hle hopen hrecvs (.inr rfl)

/-! ## One call -/

/-- A call does to the socket what it does to the stream, hands out what `PR_Recv` has
delivered, and asks for no more than it may. -/
structure Faithful (io io' : Io) (c : SocketCall) (r : Result) : Prop where
  result : io.incoming.call c = (r, io'.incoming)
  conserved : io.unread ++ (c.requests io).flatMap Request.delivered = r.1 ++ io'.unread
  asked : Along Asked Ended io.sock.mRecvClosed (c.requests io)
  ended : (c.requests io).foldl Ended io.sock.mRecvClosed = io'.sock.mRecvClosed

theorem drain_drained (size : Nat) (hsize : size ≠ 0) (hle : size ≤ 1024) (io : Io)
    (answers : List RecvAnswer) :
    Drained size (facing answers io) (drain size (facing answers io)) (drainOf size io answers) :=
  drainLoop_drained hsize hle (Nat.lt_succ_self _)

/-- `read` hands out the front of what it has drained, as far as `avail` counts it. -/
theorem read_parts (size : Nat) (io : Io) :
    (BufferedSocket.read size io).1 =
        (drain 1024 io).unread.take (min (wrap32 (drain 1024 io).unread.length) size) ∧
      (BufferedSocket.read size io).2.incoming =
        ⟨(drain 1024 io).unread.drop (min (wrap32 (drain 1024 io).unread.length) size),
          (drain 1024 io).incoming.live⟩ := by
  obtain ⟨hout, hrest⟩ := ReadBuffer.read_spec (drain 1024 io).sock.mReadBuffer size
  rw [ReadBuffer.readCount_eq] at hout hrest
  have hio : (BufferedSocket.read size io).2.incoming =
      ⟨((drain 1024 io).sock.mReadBuffer.read size).2.unread, (drain 1024 io).incoming.live⟩ := by
    unfold BufferedSocket.read
    dsimp only
    split <;> rfl
  refine ⟨hout, ?_⟩
  rw [hio, hrest]
  rfl

theorem read_result (size : Nat) {io : Io} (hshort : (drain 1024 io).unread.length < 2 ^ 32) :
    (BufferedSocket.read size io).1 = (drain 1024 io).unread.take size ∧
      (BufferedSocket.read size io).2.incoming =
        ⟨(drain 1024 io).unread.drop size, (drain 1024 io).incoming.live⟩ := by
  obtain ⟨hout, hrest⟩ := read_parts size io
  rw [wrap32_of_lt hshort, Nat.min_comm] at hout hrest
  rw [← List.take_eq_take_min] at hout
  rw [← List.drop_eq_drop_min] at hrest
  exact ⟨hout, hrest⟩

theorem read_faithful (io : Io) (size : Nat) (answers : List RecvAnswer)
    (hshort : (io.incoming.take 1024 answers).unread.length < 2 ^ 32) :
    ∃ r io', step io (.read size answers) = some (r, io') ∧
      Faithful io io' (.read size answers) r := by
  obtain ⟨hin, hdelivered, hasked, hended⟩ :=
    drain_drained 1024 (by decide) (by decide) io answers
  change _ = io.incoming.take 1024 answers at hin
  rw [← hin] at hshort
  obtain ⟨hout, hrest⟩ := read_result size hshort
  have hlive := congrArg (fun s => !s.live) hrest
  simp only [Io.incoming, Bool.not_not] at hlive
  refine ⟨((BufferedSocket.read size (facing answers io)).1,
      (BufferedSocket.read size (facing answers io)).1.length),
    (BufferedSocket.read size (facing answers io)).2, rfl, ?_, ?_, hasked, hended.trans hlive.symm⟩
  · rw [Incoming.call_read, ← hin, hout, hrest]
    rfl
  · have hunread := congrArg Incoming.unread hrest
    change (BufferedSocket.read size (facing answers io)).2.unread = _ at hunread
    rw [hout, hunread, List.take_append_drop]
    exact hdelivered

theorem readLine_faithful (io : Io) (answers : List RecvAnswer)
    (hfits : FirstLineFits (io.incoming.take 256 answers).unread) :
    ∃ r io', step io (.readLine answers) = some (r, io') ∧
      Faithful io io' (.readLine answers) r := by
  obtain ⟨hin, hdelivered, hasked, hended⟩ :=
    drain_drained 256 (by decide) (by decide) io answers
  change _ = io.incoming.take 256 answers at hin
  rw [← hin] at hfits
  obtain ⟨b, hline⟩ := (drain 256 (facing answers io)).sock.mReadBuffer.getline_firstLine hfits
  rcases hline with ⟨hnone, hget, hsame⟩ | ⟨line, hline, hget⟩
  · refine ⟨([], 0), (drain 256 (facing answers io)).setBuffer b, ?_, ?_, ?_, hasked, hended⟩
    · unfold step BufferedSocket.readLine
      dsimp only
      rw [hget]
      rfl
    · have hnone' : firstLine (drain 256 (facing answers io)).incoming.unread = none := hnone
      rw [Incoming.call_readLine, ← hin, hnone']
      unfold Io.incoming
      rw [Io.setBuffer_unread, hsame]
      rfl
    · rw [List.nil_append, Io.setBuffer_unread, hsame]
      exact hdelivered
  · have hne : line ≠ [] := splitAfter_ne_nil hline
    have hpos : (line.length : Int) ≠ 0 := by simpa using hne
    refine ⟨(line, line.length), ((drain 256 (facing answers io)).setBuffer b).log (.readLine line),
      ?_, ?_, ?_, hasked, hended⟩
    · unfold step BufferedSocket.readLine
      dsimp only
      rw [hget]
      dsimp only
      rw [if_neg hpos]
    · have hline' : firstLine (drain 256 (facing answers io)).incoming.unread =
          some (line, b.unread) := hline
      rw [Incoming.call_readLine, ← hin, hline']
      rfl
    · rw [Io.log_unread, Io.setBuffer_unread, splitAfter_append_eq hline]
      exact hdelivered

theorem step_faithful {io : Io} (hio : io.sock.Consistent) (c : SocketCall)
    (hfits : io.incoming.Measured c) :
    ∃ r io', step io c = some (r, io') ∧ Faithful io io' c r := by
  cases c with
  | read size answers => exact read_faithful io size answers hfits
  | readLine answers => exact readLine_faithful io answers hfits
  | write buf answer =>
      have hwrote := write_wrote (Nat.le_refl buf.length) (io.setOs { io.os with sends := [answer] })
      refine ⟨([], 0), _, rfl, ?_, ?_, along_nil, hwrote.recvClosed.symm⟩
      · unfold Io.incoming
        rw [hwrote.recvClosed, hwrote.frame.unread]
        rfl
      · exact (List.append_nil _).trans hwrote.frame.unread.symm
  | close =>
      have hclosed := (close_sides hio).1
      refine ⟨([], 0), BufferedSocket.close io, rfl, ?_, ?_, ⟨trivial, along_nil⟩, hclosed.symm⟩
      · unfold Io.incoming
        rw [hclosed, (close_sameInput io).unread]
        rfl
      · exact (List.append_nil _).trans (close_sameInput io).unread.symm

theorem step_consistent {io io' : Io} {c : SocketCall} {r : Result}
    (hio : io.sock.Consistent) (h : step io c = some (r, io')) : io'.sock.Consistent := by
  cases c with
  | read size answers =>
      have hread : (BufferedSocket.read size (facing answers io)).2 = io' :=
        congrArg Prod.snd (Option.some.inj h)
      exact hread ▸ read_consistent size hio
  | readLine answers =>
      unfold step at h
      dsimp only at h
      split at h
      · cases h
      · rename_i hread
        obtain ⟨-, rfl⟩ := Prod.mk.inj (Option.some.inj h)
        have hfacing : (facing answers io).sock.Consistent := hio
        exact readLine_consistent hfacing hread
  | write buf answer =>
      obtain ⟨-, rfl⟩ := Prod.mk.inj (Option.some.inj h)
      exact write_consistent buf _ hio
  | close =>
      obtain ⟨-, rfl⟩ := Prod.mk.inj (Option.some.inj h)
      exact close_consistent hio

/-! ## Any sequence of calls -/

/-- The same call with the same bytes arriving meanwhile, and the same end. -/
inductive Alike : SocketCall → SocketCall → Prop
  | read (size : Nat) (answers answers' : List RecvAnswer)
      (harrived : arrived 1024 answers = arrived 1024 answers') (hends : ends answers = ends answers') :
      Alike (.read size answers) (.read size answers')
  | readLine (answers answers' : List RecvAnswer)
      (harrived : arrived 256 answers = arrived 256 answers') (hends : ends answers = ends answers') :
      Alike (.readLine answers) (.readLine answers')
  | write (buf buf' : Bytes) (answer answer' : SendAnswer) : Alike (.write buf answer) (.write buf' answer')
  | close : Alike .close .close

theorem take_congr {size : Nat} {answers answers' : List RecvAnswer}
    (harrived : arrived size answers = arrived size answers') (hends : ends answers = ends answers')
    (s : Incoming) : s.take size answers = s.take size answers' := by
  unfold Incoming.take
  rw [harrived, hends]

/-- A stream does not see how its bytes were cut up. -/
theorem Alike.call {c c' : SocketCall} (h : Alike c c') (s : Incoming) : s.call c = s.call c' := by
  cases h with
  | read size answers answers' harrived hends =>
      rw [Incoming.call_read, Incoming.call_read, take_congr harrived hends]
  | readLine answers answers' harrived hends =>
      rw [Incoming.call_readLine, Incoming.call_readLine, take_congr harrived hends]
  | write => rfl
  | close => rfl

theorem Alike.measured {c c' : SocketCall} (h : Alike c c') {s : Incoming} (hs : s.Measured c) :
    s.Measured c' := by
  cases h with
  | read size answers answers' harrived hends =>
      show (s.take 1024 answers').unread.length < 2 ^ 32
      rw [← take_congr harrived hends]
      exact hs
  | readLine answers answers' harrived hends =>
      show FirstLineFits (s.take 256 answers').unread
      rw [← take_congr harrived hends]
      exact hs
  | write => trivial
  | close => trivial

section

variable {calls calls' : List SocketCall}

theorem alike_runs (h : List.Forall₂ Alike calls calls') (s : Incoming) :
    runSpec Incoming.call s calls' = runSpec Incoming.call s calls ∧
      (LegalRun Incoming.Measured Incoming.call s calls →
        LegalRun Incoming.Measured Incoming.call s calls') := by
  induction h generalizing s with
  | nil => exact ⟨rfl, id⟩
  | cons hhead htail ih =>
      rename_i c c' cs cs'
      obtain ⟨hrun, hlegal⟩ := ih (s.call c).2
      constructor
      · rw [runSpec, runSpec, ← hhead.call s, hrun]
      · rintro ⟨hmeasured, hrest⟩
        refine ⟨hhead.measured hmeasured, ?_⟩
        rw [← hhead.call s]
        exact hlegal hrest

/-- The socket refines its stream. -/
theorem socket_refines :
    Refines step Incoming.call Incoming.Measured Io.incoming (fun io => io.sock.Consistent) where
  square := by
    intro io c hio hmeasured
    obtain ⟨r, io', hstep, hfaithful⟩ := step_faithful hio c hmeasured
    refine ⟨io', ?_, step_consistent hio hstep, ?_⟩
    · rw [hfaithful.result]
      exact hstep
    · rw [hfaithful.result]

/-- What `PR_Recv` has delivered has been handed out or is held, and nothing was asked for
behind the end. -/
theorem run_requests {io : Io} (hio : io.sock.Consistent)
    (hmeasured : LegalRun Incoming.Measured Incoming.call io.incoming calls) :
    ∃ rs io', runOps step io calls = some (rs, io') ∧
      io.unread ++ (allRequests io calls).flatMap Request.delivered =
        rs.flatMap Prod.fst ++ io'.unread ∧
      Along Asked Ended io.sock.mRecvClosed (allRequests io calls) := by
  induction calls generalizing io with
  | nil => exact ⟨[], io, rfl, by simp [allRequests], along_nil⟩
  | cons c cs ih =>
      obtain ⟨hhead, hrest⟩ := hmeasured
      obtain ⟨r, io₁, hstep, hresult, hconserved, hasked, hended⟩ := step_faithful hio c hhead
      rw [hresult] at hrest
      obtain ⟨rs, io₂, hrun, hconserved₂, hasked₂⟩ := ih (step_consistent hio hstep) hrest
      have hall : allRequests io (c :: cs) = c.requests io ++ allRequests io₁ cs := by
        rw [allRequests, hstep]
      refine ⟨r :: rs, io₂, ?_, ?_, ?_⟩
      · simp [runOps, hstep, hrun]
      · rw [hall, List.flatMap_append, ← List.append_assoc, hconserved, List.append_assoc,
          hconserved₂, List.flatMap_cons, List.append_assoc]
      · rw [hall]
        refine along_append.mpr ⟨hasked, ?_⟩
        rw [hended]
        exact hasked₂

end

/-- **Nothing is lost or duplicated on the receive side.** The calls hand out what the
stream holds; `PR_Recv` is asked for at most 1024 bytes, and not behind the end; and only
what has arrived at each call matters. -/
theorem receive_faithful (socket : Nat) (os : Os) (calls : List SocketCall)
    (hmeasured : LegalRun Incoming.Measured Incoming.call {} calls) :
    let io : Io := { sock := .new socket, os }
    (∃ rs io', runOps step io calls = some (rs, io') ∧ rs = (runSpec Incoming.call {} calls).1 ∧
      rs.flatMap Prod.fst ++ io'.unread = (allRequests io calls).flatMap Request.delivered) ∧
    Along Asked Ended false (allRequests io calls) ∧
    ∀ calls', List.Forall₂ Alike calls calls' →
      ∃ io', runOps step io calls' = some ((runSpec Incoming.call {} calls).1, io') := by
  intro io
  have hio : io.sock.Consistent := new_consistent socket
  have hempty : io.unread = [] := ReadBuffer.new_unread
  have hstart : io.incoming = {} := by
    unfold Io.incoming
    rw [hempty]
    rfl
  rw [← hstart] at hmeasured ⊢
  refine ⟨?_, ?_, ?_⟩
  · obtain ⟨rs, io', hrun, hconserved, -⟩ := run_requests hio hmeasured
    obtain ⟨io'', hspec, -⟩ := socket_refines.run hio hmeasured
    refine ⟨rs, io', hrun, ?_, ?_⟩
    · have hsame := hrun.symm.trans hspec
      exact (Prod.mk.inj (Option.some.inj hsame)).1
    · rw [← hconserved, hempty]
      rfl
  · obtain ⟨-, -, -, -, hasked⟩ := run_requests hio hmeasured
    exact hasked
  · intro calls' halike
    obtain ⟨hsame, hlegal⟩ := alike_runs halike io.incoming
    obtain ⟨io', hspec, -⟩ := socket_refines.run hio (hlegal hmeasured)
    rw [hsame] at hspec
    exact ⟨io', hspec⟩

/-- A line in two segments, a read with the end of the stream, and a line behind it. -/
theorem receive_faithful_split_line :
    let calls : List SocketCall := [.readLine [.deliver (str "ver"), .deliver (str "\nab")],
      .write (str "$>") .error, .read 1 [.deliver (str "c\n"), .eof], .readLine []]
    let io : Io := { sock := .new 7, os := {} }
    (∃ rs io', runOps step io calls = some (rs, io') ∧ rs = (runSpec Incoming.call {} calls).1 ∧
      rs.flatMap Prod.fst ++ io'.unread = (allRequests io calls).flatMap Request.delivered) ∧
    Along Asked Ended false (allRequests io calls) ∧
    ∀ calls', List.Forall₂ Alike calls calls' →
      ∃ io', runOps step io calls' = some ((runSpec Incoming.call {} calls).1, io') := by
  refine receive_faithful 7 {} _ ⟨?_, trivial, ?_, ?_, trivial⟩
  · intro line rest hline
    obtain ⟨rfl, -⟩ : str "ver\n" = line ∧ str "ab" = rest := by
      simpa using (show some (str "ver\n", str "ab") = some (line, rest) from hline)
    decide
  · show 4 < 2 ^ 32
    decide
  · intro line rest hline
    obtain ⟨rfl, -⟩ : str "bc\n" = line ∧ [] = rest := by
      simpa using (show some (str "bc\n", []) = some (line, rest) from hline)
    decide

theorem arrived_replicate (n : Nat) :
    (arrived 1024 (List.replicate n (.data 0 (List.replicate 1023 0)))).length = 1024 * n := by
  induction n with
  | zero => rfl
  | succ n ih =>
      rw [List.replicate_succ, arrived, List.length_append, ih, List.length_take,
        List.length_cons, List.length_replicate]
      omega

/-- `avail` counts `2 ^ 32` bytes as none. -/
theorem read_overlooks {answers : List RecvAnswer} (socket : Nat) (os : Os)
    (hall : (arrived 1024 answers).length = 2 ^ 32) :
    ∃ io', step { sock := .new socket, os } (.read 1 answers) = some (([], 0), io') ∧
      io'.unread.length = 2 ^ 32 := by
  generalize hio : ({ sock := .new socket, os } : Io) = io
  have hin := (drain_drained 1024 (by decide) (by decide) io answers).incoming
  have hunread : (drain 1024 (facing answers io)).unread = arrived 1024 answers := by
    have hunread := congrArg Incoming.unread hin
    have hempty : io.incoming = {} := by
      rw [← hio]
      rfl
    change _ = (io.incoming.take 1024 answers).unread at hunread
    rw [hempty] at hunread
    exact hunread
  obtain ⟨hout, hrest⟩ := read_parts 1 (facing answers io)
  have hnone : min (wrap32 (2 ^ 32)) 1 = 0 := by decide
  rw [hunread, hall, hnone, List.take_zero] at hout
  rw [hunread, hall, hnone, List.drop_zero] at hrest
  refine ⟨(BufferedSocket.read 1 (facing answers io)).2, ?_, ?_⟩
  · show some (((BufferedSocket.read 1 (facing answers io)).1,
      ((BufferedSocket.read 1 (facing answers io)).1.length : Int)), _) = _
    rw [hout]
    rfl
  · exact (congrArg (fun s => s.unread.length) hrest).trans hall

/-- With `2 ^ 32` bytes in the buffer, `read` hands out nothing. -/
theorem read_overlooks_four_gigabytes :
    ∃ io', step { sock := .new 7, os := {} }
        (.read 1 (List.replicate (2 ^ 22) (.data 0 (List.replicate 1023 0)))) =
          some (([], 0), io') ∧
      io'.unread.length = 2 ^ 32 :=
  read_overlooks 7 {} (arrived_replicate (2 ^ 22))

end SocketCall

end Negatus
