import Negatus.BufferedSocket.Steps
import Negatus.Foundations.Program
import Negatus.Strings

/-!
# `PushFileEventHandler.cpp` and `Hash.cpp`

A push copies the next `mSize` bytes of the connection into a file. What one of
its events does is a path of `PushStep`s.
-/

namespace Negatus

open Foundations Relation BufferedSocket

/-- `getCmdOutput`, for any command: its text without the last byte. -/
def getCmdOutput (s : System) : Bytes × System :=
  let (output, s) := s.text
  match output with
  | none => ([], s)
  | some text => (eraseLast (fgetsAll text), s)

/-- `fileHash`: the output of `md5sum` up to the first space. -/
def fileHash (s : System) : Bytes × System :=
  let (hash, s) := getCmdOutput s
  (hash.takeWhile (· ≠ 32), s)

structure PushFileEventHandler where
  mPath : Bytes
  /-- is the file open? -/
  mFile : Bool
  mBytesWritten : UInt64
  mSize : UInt64
  mClosed : Bool
deriving DecidableEq, Repr

namespace PushFileEventHandler

def blockSize : UInt64 := 1024

def close (h : PushFileEventHandler) (io : Io) : PushFileEventHandler × Io :=
  if h.mFile then ({ h with mFile := false, mClosed := true }, io.log (.closeFile h.mPath))
  else ({ h with mClosed := true }, io)

def new (path : Bytes) (size : UInt64) (io : Io) : PushFileEventHandler × Io :=
  let (ok, os) := io.os.check
  let io := (io.setOs os).log (.openWrite path ok)
  let h : PushFileEventHandler := ⟨path, ok, 0, size, false⟩
  if ok then (h, io)
  else h.close (BufferedSocket.writeString (agentWarn (str "could not open file for writing")) io)

def getPollDescs (io : Io) : List PollDesc :=
  if io.sock.closed then [] else [⟨io.sock.mSocket, { read := true }, {}⟩]

/-- `PR_Write(mFile, mTmpBuf, bytes); mBytesWritten += bytes;` -/
def store (h : PushFileEventHandler) (bs : Bytes) (io : Io) : PushFileEventHandler × Io :=
  let (stored, os) := io.os.write bs.length
  ({ h with mBytesWritten := h.mBytesWritten + UInt64.ofNat bs.length },
    (io.setOs os).log (.writeFile bs stored))

/-- The size of the next block to ask for. -/
def nextBlock (h : PushFileEventHandler) : Nat :=
  (if h.mSize - h.mBytesWritten < blockSize then h.mSize - h.mBytesWritten else blockSize).toNat

/-- `while (mBytesWritten < mSize)` -/
def copyLoop : (fuel : Nat) → PushFileEventHandler → EStateM Fault Io PushFileEventHandler
  | 0, _ => throw .outOfFuel
  | fuel + 1, h =>
      if h.mBytesWritten < h.mSize then do
        let bs ← modifyGet (BufferedSocket.read h.nextBlock)
        if bs = [] then pure h
        else if !h.mFile then throw (.crash .nullDeref)
        else
          let h ← modifyGet (h.store bs)
          copyLoop fuel h
      else pure h

/-- `close();` and the reply with the hash of the file. -/
def finish (h : PushFileEventHandler) (io : Io) : PushFileEventHandler × Io :=
  let (h, io) := h.close io
  let (hash, s) := fileHash io.os.toSystem
  (h, BufferedSocket.writeString (endl ++ hash ++ endl)
    (io.setOs { io.os with toSystem := s }))

def handleEvent (desc : PollDesc) (h : PushFileEventHandler) :
    EStateM Fault Io PushFileEventHandler := do
  let io ← get
  if desc.fd ≠ io.sock.mSocket then pure h
  else if !desc.out_flags.read then pure h
  else
    let h ← copyLoop (io.backlog + 1) h
    if h.mSize = h.mBytesWritten then modifyGet h.finish else pure h

/-! ## Output -/

theorem close_frame (h : PushFileEventHandler) (io : Io) : Frame io (h.close io).2 := by
  unfold close
  split
  · exact frame_log io rfl
  · exact .refl io

theorem finish_frame (h : PushFileEventHandler) (io : Io) : Frame io (h.finish io).2 := by
  have hhash : ∀ (io : Io) (s : System), Frame io (io.setOs { io.os with toSystem := s }) :=
    fun io s => frame_setOs io rfl
  exact (h.close_frame io).trans ((hhash _ _).trans (writeString_frame _ _))

/-- What the constructor does after the call of `PR_Open`. -/
theorem new_frame (path : Bytes) (size : UInt64) (io : Io) :
    Frame ((io.setOs io.os.check.2).log (.openWrite path io.os.check.1)) (new path size io).2 := by
  unfold new
  dsimp only
  split
  · exact .refl _
  · exact (writeString_frame _ _).trans (close_frame _ _)

/-- The handler is open if and only if the file is. -/
theorem new_fst (path : Bytes) (size : UInt64) (io : Io) :
    (new path size io).1 = ⟨path, io.os.check.1, 0, size, !io.os.check.1⟩ := by
  unfold new close
  dsimp only
  cases io.os.check.1 <;> rfl

/-! ## Steps of a push -/

/-- A step of a push that is not closed. -/
inductive PushStep : PushFileEventHandler × Io → PushFileEventHandler × Io → Prop
  | recv (h : PushFileEventHandler) (io io' : Io) (hopen : h.mClosed = false)
      (hstep : RecvStep io io') : PushStep (h, io) (h, io')
  | chunk (h : PushFileEventHandler) (io : Io) (bs : Bytes) (b : ReadBuffer)
      (hopen : h.mClosed = false) (hless : h.mBytesWritten < h.mSize) (hbs : bs ≠ [])
      (hlen : bs.length ≤ (h.mSize - h.mBytesWritten).toNat)
      (hsplit : bs ++ b.unread = io.unread) :
      PushStep (h, io) (h.store bs ((io.setBuffer b).log (.read bs)))
  | finish (h : PushFileEventHandler) (io : Io) (hopen : h.mClosed = false)
      (hdone : h.mSize = h.mBytesWritten) : PushStep (h, io) (h.finish io)

theorem store_trace (h : PushFileEventHandler) (bs : Bytes) (io : Io) :
    ∃ n, (h.store bs io).2.trace = io.trace ++ [.writeFile bs n] :=
  ⟨_, rfl⟩

theorem PushStep.trace_grows {s s' : PushFileEventHandler × Io} (h : PushStep s s') :
    s.2.trace <+: s'.2.trace := by
  cases h with
  | recv h io io' hopen hstep => exact hstep.trace_grows
  | chunk h io bs b =>
      obtain ⟨n, htrace⟩ := h.store_trace bs ((io.setBuffer b).log (.read bs))
      rw [htrace]
      exact (List.prefix_append _ _).trans (List.prefix_append _ _)
  | finish h io => exact (finish_frame h io).trace_grows

theorem PushStep.timers {s s' : PushFileEventHandler × Io} (h : PushStep s s') :
    s'.2.timers = s.2.timers := by
  cases h with
  | recv h io io' hopen hstep => exact hstep.timers
  | chunk => rfl
  | finish h io => exact (finish_frame h io).timers

theorem recv_path {h : PushFileEventHandler} (hopen : h.mClosed = false) {io io' : Io}
    (hpath : ReflTransGen RecvStep io io') :
    ReflTransGen PushStep (h, io) (h, io') :=
  hpath.lift (fun io => (h, io)) fun io io' hstep => .recv h io io' hopen hstep

theorem nextBlock_le (h : PushFileEventHandler) :
    h.nextBlock ≤ (h.mSize - h.mBytesWritten).toNat := by
  unfold nextBlock
  split
  · exact Nat.le_refl _
  · rename_i hge
    rw [UInt64.lt_iff_toNat_lt] at hge
    omega

theorem store_backlog (h : PushFileEventHandler) (bs : Bytes) (io : Io) :
    (h.store bs io).2.backlog = io.backlog := by
  unfold store Os.write
  dsimp only
  split <;> rfl

/-- Every round of the loop uses up a byte, so the fuel does not run out. -/
theorem copyLoop_spec {fuel : Nat} {h : PushFileEventHandler} {io : Io}
    (hopen : h.mClosed = false) (hfile : h.mFile = true) (hfuel : io.backlog < fuel) :
    Ensures (copyLoop fuel h) io
      (fun h' io' => ReflTransGen PushStep (h, io) (h', io') ∧ h'.mClosed = false ∧
        h'.mFile = true ∧ io'.backlog ≤ io.backlog)
      (fun _ _ => False) := by
  induction fuel generalizing h io with
  | zero => omega
  | succ fuel ih =>
      rw [copyLoop]
      by_cases hless : h.mBytesWritten < h.mSize
      · rw [if_pos hless, ensures_bind, ensures_modifyGet]
        cases hread : BufferedSocket.read h.nextBlock io with
        | mk bs io₂ =>
            obtain ⟨io₁, b, hrecv, hsplit, hlen, rfl, hback⟩ := read_spec hread
            have hpath := recv_path hopen hrecv
            by_cases hbs : bs = []
            -- nothing could be read: the loop is left
            · subst hbs
              refine ⟨hpath.tail (.recv h io₁ _ hopen (.quiet io₁ io₁.os b ?_)), hopen, hfile, ?_⟩
              · simpa using hsplit
              · simpa using hback
            · simp only [hbs, if_false] at hback ⊢
              split
              · rename_i hnone
                rw [hfile] at hnone
                cases hnone
              · rw [ensures_bind, ensures_modifyGet]
                -- a block of one byte at least has left the backlog
                have hchunk := PushStep.chunk h io₁ bs b hopen hless hbs
                  (Nat.le_trans hlen h.nextBlock_le) hsplit
                have hpos := List.length_pos_of_ne_nil hbs
                have hstored := store_backlog h bs ((io₁.setBuffer b).log (.read bs))
                have hback' : (h.store bs ((io₁.setBuffer b).log (.read bs))).2.backlog < fuel := by
                  omega
                refine (ih (h := (h.store bs ((io₁.setBuffer b).log (.read bs))).1) hopen hfile
                  hback').mono ?_ (fun _ _ => id)
                rintro h' io' ⟨hrest, hopen', hfile', hle⟩
                exact ⟨(hpath.tail hchunk).trans hrest, hopen', hfile', by omega⟩
      · rw [if_neg hless]
        exact ⟨.refl, hopen, hfile, Nat.le_refl _⟩

/-! ## A push that is open has its file open -/

def Sound (h : PushFileEventHandler) : Prop := h.mClosed = false → h.mFile = true

theorem close_closed (h : PushFileEventHandler) (io : Io) : (h.close io).1.mClosed = true := by
  unfold close
  split <;> rfl

theorem close_sound (h : PushFileEventHandler) (io : Io) : (h.close io).1.Sound := by
  intro hopen
  rw [close_closed] at hopen
  cases hopen

theorem new_sound (path : Bytes) (size : UInt64) (io : Io) : (new path size io).1.Sound := by
  unfold new
  dsimp only
  split
  · rename_i hok
    exact fun _ => hok
  · exact close_sound _ _

theorem PushStep.sound {s s' : PushFileEventHandler × Io} (h : PushStep s s') (hs : s.1.Sound) :
    s'.1.Sound := by
  cases h with
  | recv => exact hs
  | chunk h io bs b hopen => exact fun _ => hs hopen
  | finish h io => exact h.close_sound io

theorem handleEvent_spec (desc : PollDesc) {h : PushFileEventHandler} {io : Io} (hs : h.Sound)
    (hopen : h.mClosed = false) :
    Ensures (handleEvent desc h) io
      (fun h' io' => ReflTransGen PushStep (h, io) (h', io') ∧ io'.backlog ≤ io.backlog)
      (fun _ _ => False) := by
  unfold handleEvent
  rw [ensures_bind, ensures_get]
  split
  · exact ⟨.refl, Nat.le_refl _⟩
  · split
    · exact ⟨.refl, Nat.le_refl _⟩
    · refine Ensures.bind (copyLoop_spec hopen (hs hopen) (Nat.lt_succ_self _)) ?_
      rintro h' io' ⟨hpath, hopen', -, hle⟩
      split
      · rename_i hdone
        rw [ensures_modifyGet]
        exact ⟨hpath.tail (.finish h' io' hopen' hdone), (finish_frame h' io').backlog ▸ hle⟩
      · exact ⟨hpath, hle⟩

end PushFileEventHandler

end Negatus
