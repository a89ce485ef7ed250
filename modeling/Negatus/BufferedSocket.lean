import Negatus.Buffer.Scan
import Negatus.Os

/-!
# `BufferedSocket.cpp`

A connection's socket with its read buffer. The buffer is only filled by `put`
and only emptied by `get` and `getline`, so it is kept together with the
invariant of its chain: `put` and the reading of at most `avail()` bytes are
total on it, and `getline` is undefined for overlong lines only.

`mWriteBuffer`, `flush` and `writeBufferEmpty` are declared in the header and
neither defined nor used.
-/

namespace Negatus

open Foundations
open BlockBuffer (firstLine)

/-- The first line of `bs`, if there is one, can be measured in an `int`. -/
def FirstLineFits (bs : Bytes) : Prop :=
  ∀ line rest, firstLine bs = some (line, rest) → line.length < 2 ^ 31 - 1

/-- A `BlockBuffer` of the default block size, as its operations leave it. -/
structure ReadBuffer where
  buffer : BlockBuffer
  linked : buffer.Linked
  bounded : buffer.Bounded (2 ^ 31 - 1)

namespace ReadBuffer

def new : ReadBuffer where
  buffer := .new 1024
  linked := (BlockBuffer.new_tidy (by decide)).toLinked
  bounded := BlockBuffer.new_bounded (by decide)

def unread (b : ReadBuffer) : Bytes := b.buffer.unread

@[simp] theorem new_unread : new.unread = [] := BlockBuffer.new_unread 1024

theorem put_filled (b : ReadBuffer) {bs : Bytes} {n : Nat} {b' : BlockBuffer}
    (h : b.buffer.put bs = some (n, b')) : BlockBuffer.Filled b.buffer bs b' := by
  obtain ⟨b'', hput, hfill⟩ := BlockBuffer.put_spec b.linked bs
  obtain ⟨-, rfl⟩ := Prod.mk.inj (Option.some.inj (h.symm.trans hput))
  exact hfill

def put (b : ReadBuffer) (bs : Bytes) : ReadBuffer :=
  match h : b.buffer.put bs with
  | some (_, b') => ⟨b', (b.put_filled h).linked, (b.put_filled h).bounded _ b.bounded⟩
  | none => b

@[simp] theorem put_unread (b : ReadBuffer) (bs : Bytes) :
    (b.put bs).unread = b.unread ++ bs := by
  obtain ⟨b', hput, hfill⟩ := BlockBuffer.put_spec b.linked bs
  unfold put
  split
  · rename_i h
    exact (b.put_filled h).unread_eq
  · rename_i h
    rw [hput] at h
    cases h

theorem get_advanced (b : ReadBuffer) {n : Nat} {out : Bytes} {b' : BlockBuffer}
    (hn : n ≤ b.unread.length) (h : b.buffer.get n = some (out, b')) :
    out = b.unread.take n ∧ BlockBuffer.Advanced b.buffer n b' := by
  obtain ⟨b'', hget, hadv⟩ := BlockBuffer.get_spec b.linked hn
  obtain ⟨rfl, rfl⟩ := Prod.mk.inj (Option.some.inj (h.symm.trans hget))
  exact ⟨rfl, hadv⟩

/-- The number of bytes that `read(buf, size)` asks the buffer for. -/
def readCount (b : ReadBuffer) (size : Nat) : Nat :=
  match b.buffer.avail with
  | some avail => if avail > size then size else avail
  | none => 0

theorem readCount_eq (b : ReadBuffer) (size : Nat) :
    b.readCount size = min (wrap32 b.unread.length) size := by
  have havail := BlockBuffer.avail_spec b.linked
  unfold readCount
  rw [havail]
  show (if wrap32 b.unread.length > size then size else wrap32 b.unread.length) = _
  split <;> omega

theorem readCount_le (b : ReadBuffer) (size : Nat) : b.readCount size ≤ b.unread.length := by
  rw [readCount_eq]
  exact Nat.le_trans (Nat.min_le_left _ _) (Nat.mod_le _ _)

/-- The end of `BufferedSocket::read`: `get` of what is there, up to `size`. -/
def read (b : ReadBuffer) (size : Nat) : Bytes × ReadBuffer :=
  match h : b.buffer.get (b.readCount size) with
  | some (out, b') =>
      (out, ⟨b', (b.get_advanced (b.readCount_le size) h).2.linked,
        (b.get_advanced (b.readCount_le size) h).2.bounded _ b.bounded⟩)
  | none => ([], b)

theorem read_spec (b : ReadBuffer) (size : Nat) :
    (b.read size).1 = b.unread.take (b.readCount size) ∧
      (b.read size).2.unread = b.unread.drop (b.readCount size) := by
  obtain ⟨b', hget, -⟩ := BlockBuffer.get_spec b.linked (b.readCount_le size)
  unfold read
  split
  · rename_i h
    obtain ⟨hout, hadv⟩ := b.get_advanced (b.readCount_le size) h
    exact ⟨hout, hadv.unread_eq⟩
  · rename_i h
    rw [hget] at h
    cases h

theorem getline_advanced (b : ReadBuffer) {out : Bytes} {len : Int} {b' : BlockBuffer}
    (h : b.buffer.getline = some (out, len, b')) :
    ∃ n, out = b.unread.take n ∧ len = n ∧ n ≤ b.unread.length ∧
      BlockBuffer.Advanced b.buffer n b' := by
  rcases BlockBuffer.getline_cases b.linked with hnone | ⟨n, b'', hget, -, hle, hadv⟩
  · rw [h] at hnone
    cases hnone
  · rw [h] at hget
    obtain ⟨rfl, rfl, rfl⟩ : out = _ ∧ len = _ ∧ b' = _ := by simpa using hget
    exact ⟨n, rfl, rfl, hle, hadv⟩

def getline (b : ReadBuffer) : Option (Bytes × Int × ReadBuffer) :=
  match h : b.buffer.getline with
  | some (out, len, b') =>
      some (out, len, ⟨b', (b.getline_advanced h).elim fun _ h => h.2.2.2.linked,
        (b.getline_advanced h).elim fun _ h => h.2.2.2.bounded _ b.bounded⟩)
  | none => none

theorem getline_eq_some (b : ReadBuffer) {out : Bytes} {len : Int} {b' : ReadBuffer}
    (h : b.getline = some (out, len, b')) :
    b.buffer.getline = some (out, len, b'.buffer) := by
  unfold getline at h
  split at h
  · rename_i out' len' b'' hget
    obtain ⟨rfl, rfl, rfl⟩ : out' = out ∧ len' = len ∧ _ = b' := by simpa using h
    exact hget
  · cases h

theorem getline_isSome (b : ReadBuffer) {r : Bytes × Int × BlockBuffer}
    (h : b.buffer.getline = some r) : ∃ r', b.getline = some r' := by
  unfold getline
  split
  · exact ⟨_, rfl⟩
  · rename_i hnone
    rw [h] at hnone
    cases hnone

/-- Whatever `getline` hands out leaves the buffer, from its front. -/
theorem getline_unread (b : ReadBuffer) {out : Bytes} {len : Int} {b' : ReadBuffer}
    (h : b.getline = some (out, len, b')) :
    out ++ b'.unread = b.unread ∧ len = out.length := by
  obtain ⟨n, rfl, rfl, hle, hadv⟩ := b.getline_advanced (b.getline_eq_some h)
  have hunread : b'.unread = b.unread.drop n := hadv.unread_eq
  rw [hunread, List.take_append_drop, List.length_take]
  exact ⟨rfl, by omega⟩

/-- What `getline` hands out is measured in an `int`. -/
theorem getline_short (b : ReadBuffer) {out : Bytes} {len : Int} {b' : ReadBuffer}
    (h : b.getline = some (out, len, b')) : out.length < 2 ^ 31 := by
  have hget := b.getline_eq_some h
  rcases BlockBuffer.getline_cases b.linked with hnone | ⟨n, b'', hsome, hn, -, -⟩
  · rw [hget] at hnone
    cases hnone
  · obtain ⟨rfl, -, -⟩ : out = _ ∧ len = _ ∧ _ = b'' := by simpa using hget.symm.trans hsome
    rw [List.length_take]
    omega

/-- A line that fits is read as a whole. -/
theorem getline_firstLine (b : ReadBuffer) (hfits : FirstLineFits b.unread) :
    ∃ b', (firstLine b.unread = none ∧ b.getline = some ([], 0, b') ∧ b'.unread = b.unread) ∨
      ∃ line, firstLine b.unread = some (line, b'.unread) ∧
        b.getline = some (line, (line.length : Int), b') := by
  cases hline : firstLine b.unread with
  | none =>
      have hget := BlockBuffer.getline_none b.linked b.bounded hline
      obtain ⟨⟨out, len, b'⟩, hr⟩ := b.getline_isSome hget
      obtain ⟨rfl, rfl, hb⟩ : out = _ ∧ len = _ ∧ b'.buffer = _ := by
        simpa using (b.getline_eq_some hr).symm.trans hget
      exact ⟨b', Or.inl ⟨rfl, hr, congrArg BlockBuffer.unread hb⟩⟩
  | some s =>
      obtain ⟨line, rest⟩ := s
      have happ := splitAfter_append_eq hline
      obtain ⟨b'', hget, hadv⟩ :=
        BlockBuffer.getline_some b.linked b.bounded hline (hfits line rest hline)
      obtain ⟨⟨out, len, b'⟩, hr⟩ := b.getline_isSome hget
      obtain ⟨rfl, rfl, hb⟩ : out = _ ∧ len = _ ∧ b'.buffer = _ := by
        simpa using (b.getline_eq_some hr).symm.trans hget
      refine ⟨b', Or.inr ⟨out, ?_, hr⟩⟩
      have hunread : b'.unread = b.unread.drop out.length :=
        (congrArg BlockBuffer.unread hb).trans hadv.unread_eq
      rw [hunread, ← happ, List.drop_left]

/-- `getline` measures a line modulo `2 ^ 32`. -/
theorem getline_wrapped (b : ReadBuffer) {line rest : Bytes} {n : Nat}
    (hline : firstLine b.unread = some (line, rest)) (hn : wrap32 line.length = n)
    (hsmall : n < 2 ^ 31 - 1) : ∃ b', b.getline = some (b.unread.take n, (n : Int), b') := by
  have hfind := BlockBuffer.find_of_firstLine_some b.linked b.bounded hline newline
  rw [hn, int32_of_lt (by omega)] at hfind
  have hle : n ≤ b.unread.length := by
    have happ := congrArg List.length (splitAfter_append_eq hline)
    rw [List.length_append] at happ
    have hwrap : wrap32 line.length ≤ line.length := Nat.mod_le _ _
    omega
  obtain ⟨b'', hget, -⟩ := BlockBuffer.getline_of_find b.linked hsmall hfind hle
  obtain ⟨⟨out, len, b'⟩, hr⟩ := b.getline_isSome hget
  obtain ⟨rfl, rfl, -⟩ : out = _ ∧ len = _ ∧ b'.buffer = _ := by
    simpa using (b.getline_eq_some hr).symm.trans hget
  exact ⟨b', hr⟩

end ReadBuffer

structure BufferedSocket where
  mSocket : Option Nat := none
  mReadBuffer : ReadBuffer := .new
  mRecvClosed : Bool := false
  mSendClosed : Bool := false

/-- A buffered socket in its surroundings: what the system will answer, what has
been called so far, and the timers of its handler in the reactor. -/
structure Io where
  sock : BufferedSocket
  os : Os
  trace : List Event := []
  timers : List Timeout := []

namespace Io

def log (io : Io) (e : Event) : Io := { io with trace := io.trace ++ [e] }

def unread (io : Io) : Bytes := io.sock.mReadBuffer.unread

def setOs (os : Os) (io : Io) : Io := { io with os }

def setBuffer (b : ReadBuffer) (io : Io) : Io :=
  { io with sock := { io.sock with mReadBuffer := b } }

/-- A call that is handed `mSocket`. -/
def call (name : Option Nat → NsprCall) (io : Io) : Io :=
  io.setOs (io.os.note (name io.sock.mSocket))

/-- `Reactor::setTimeout` on behalf of the handler. -/
def setTimeout (interval : UInt32) (io : Io) : Io :=
  let (epoch, os) := io.os.intervalNow
  { io.setOs os with timers := io.timers ++ [⟨epoch, interval⟩] }

/-- Bytes that have been received or can still be: a bound on all loops. -/
def backlog (io : Io) : Nat :=
  io.unread.length + io.os.pending

@[simp] theorem log_sock (io : Io) (e : Event) : (io.log e).sock = io.sock := rfl

@[simp] theorem log_os (io : Io) (e : Event) : (io.log e).os = io.os := rfl

@[simp] theorem log_trace (io : Io) (e : Event) : (io.log e).trace = io.trace ++ [e] := rfl

@[simp] theorem log_timers (io : Io) (e : Event) : (io.log e).timers = io.timers := rfl

@[simp] theorem log_unread (io : Io) (e : Event) : (io.log e).unread = io.unread := rfl

@[simp] theorem log_backlog (io : Io) (e : Event) : (io.log e).backlog = io.backlog := rfl

@[simp] theorem setOs_sock (os : Os) (io : Io) : (io.setOs os).sock = io.sock := rfl

@[simp] theorem setOs_os (os : Os) (io : Io) : (io.setOs os).os = os := rfl

@[simp] theorem setOs_trace (os : Os) (io : Io) : (io.setOs os).trace = io.trace := rfl

@[simp] theorem setOs_timers (os : Os) (io : Io) : (io.setOs os).timers = io.timers := rfl

@[simp] theorem setOs_unread (os : Os) (io : Io) : (io.setOs os).unread = io.unread := rfl

@[simp] theorem call_sock (name : Option Nat → NsprCall) (io : Io) :
    (io.call name).sock = io.sock := rfl

@[simp] theorem call_trace (name : Option Nat → NsprCall) (io : Io) :
    (io.call name).trace = io.trace := rfl

@[simp] theorem call_timers (name : Option Nat → NsprCall) (io : Io) :
    (io.call name).timers = io.timers := rfl

@[simp] theorem call_recvs (name : Option Nat → NsprCall) (io : Io) :
    (io.call name).os.recvs = io.os.recvs := rfl

@[simp] theorem call_sends (name : Option Nat → NsprCall) (io : Io) :
    (io.call name).os.sends = io.os.sends := rfl

@[simp] theorem call_calls (name : Option Nat → NsprCall) (io : Io) :
    (io.call name).os.calls = io.os.calls ++ [name io.sock.mSocket] := rfl

@[simp] theorem setBuffer_unread (b : ReadBuffer) (io : Io) : (io.setBuffer b).unread = b.unread := rfl

@[simp] theorem setBuffer_os (b : ReadBuffer) (io : Io) : (io.setBuffer b).os = io.os := rfl

@[simp] theorem setBuffer_trace (b : ReadBuffer) (io : Io) : (io.setBuffer b).trace = io.trace := rfl

@[simp] theorem setBuffer_timers (b : ReadBuffer) (io : Io) :
    (io.setBuffer b).timers = io.timers := rfl

theorem setBuffer_backlog (b : ReadBuffer) (io : Io) :
    (io.setBuffer b).backlog + io.unread.length = b.unread.length + io.backlog := by
  simp only [backlog, setBuffer_unread, setBuffer_os]
  omega

end Io

namespace BufferedSocket

def new (socket : Nat) : BufferedSocket := { mSocket := some socket }

def closed (s : BufferedSocket) : Bool := s.mSocket.isNone

def close (io : Io) : Io :=
  if io.sock.closed then io
  else
    let io := (io.call .shutdown).call .close
    { io with sock := { io.sock with
        mSocket := none, mRecvClosed := true, mSendClosed := true } }.log .closeSocket

def closeRecv (io : Io) : Io :=
  let io := { io with sock := { io.sock with mRecvClosed := true } }
  if io.sock.mSendClosed then close io else io

def closeSend (io : Io) : Io :=
  let io := { io with sock := { io.sock with mSendClosed := true } }
  if io.sock.mRecvClosed then close io else io

/-- `readIntoBuffer(size)`: the returned count and what it leaves behind. -/
def readIntoBuffer (size : Nat) (io : Io) : Nat × Io :=
  if size = 0 ∨ io.sock.mRecvClosed = true then (0, io)
  else
    let (answer, os) := (io.call .recv).os.recv
    let io := io.setOs os
    match answer with
    | .data b bs =>
        let got := (b :: bs).take size
        (got.length, (io.setBuffer (io.sock.mReadBuffer.put got)).log (.recv got))
    | .wouldBlock => (0, io)
    | .eof | .error => (0, closeRecv (io.log .recvEnd))

/-- `while (readIntoBuffer(size)) continue;` -/
def drainLoop (size : Nat) : (fuel : Nat) → Io → Io
  | 0, io => io
  | fuel + 1, io =>
      match readIntoBuffer size io with
      | (0, io') => io'
      | (_ + 1, io') => drainLoop size fuel io'

/-- Every round but the last uses up an answer of `PR_Recv`. -/
def drain (size : Nat) (io : Io) : Io := drainLoop size (io.os.recvs.length + 1) io

def read (size : Nat) (io : Io) : Bytes × Io :=
  let io := drain 1024 io
  let (out, b) := io.sock.mReadBuffer.read size
  let io := io.setBuffer b
  (out, if out = [] then io else io.log (.read out))

/-- `readLine(buf)`: the bytes written to the stream and the returned number. -/
def readLine (io : Io) : Option (Bytes × Int × Io) :=
  let io := drain 256 io
  match io.sock.mReadBuffer.getline with
  | none => none
  | some (out, len, b) =>
      let io := io.setBuffer b
      some (out, len, if len = 0 then io else io.log (.readLine out))

def write (buf : Bytes) (size : Nat) (io : Io) : Io :=
  if size = 0 ∨ io.sock.mSendClosed = true then io
  else
    let bs := buf.take size
    let (answer, os) := (io.call .send).os.send
    let io := io.setOs os
    match answer with
    | .all => io.log (.send bs bs.length)
    | .short k => io.log (.send bs (if 0 < k ∧ k < bs.length then k else bs.length))
    | .wouldBlock => io.log (.send bs 0)
    | .error => closeSend (io.log (.send bs 0))

/-- `write(std::string line)` -/
def writeString (line : Bytes) (io : Io) : Io := write line (wrap32 line.length) io

end BufferedSocket

end Negatus
