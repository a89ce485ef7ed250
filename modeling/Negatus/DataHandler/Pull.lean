import Negatus.BufferedSocket.Steps
import Negatus.Foundations.Program
import Negatus.Strings

/-!
# `PullFileEventHandler.cpp`

The constructor opens the file, decides how much of it to send and writes the
header; every `PR_POLL_WRITE` event then sends one block.
-/

namespace Negatus

open Foundations BufferedSocket

structure PullFileEventHandler where
  mPath : Bytes
  /-- the offset of the open file, or NULL -/
  mFile : Option Nat
  mBytesRead : UInt64
  mSize : UInt64
  mClosed : Bool
deriving DecidableEq, Repr

namespace PullFileEventHandler

def blockSize : UInt64 := 1024

def close (h : PullFileEventHandler) (io : Io) : PullFileEventHandler × Io :=
  match h.mFile with
  | some _ => ({ h with mFile := none, mClosed := true }, io.log (.closeFile h.mPath))
  | none => ({ h with mClosed := true }, io)

def pullError (h : PullFileEventHandler) (err : Bytes) (io : Io) : Io :=
  BufferedSocket.writeString (agentWarn (h.mPath ++ str ",-1") ++ endl ++ err ++ endl) io

/-- `pullError(err); close(); return;` -/
def fail (h : PullFileEventHandler) (err : Bytes) (io : Io) : PullFileEventHandler × Io :=
  h.close (h.pullError err io)

/-- The end of the constructor, from the header on. -/
def sendHeader (h : PullFileEventHandler) (includeHeader : Bool) (io : Io) :
    PullFileEventHandler × Io :=
  if !includeHeader then (h, io)
  else
    let io := BufferedSocket.writeString (h.mPath ++ str "," ++ itoa h.mSize.toNat ++ endl) io
    if h.mSize = 0 then h.close io else (h, io)

/-- `start` and `mSize`, fitted to the size of the file. -/
def fitRange (h : PullFileEventHandler) (fileSize start : UInt64) :
    UInt64 × PullFileEventHandler :=
  if fileSize ≤ start then (0, { h with mSize := 0 })
  else if h.mSize = 0 then (start, { h with mSize := fileSize - start })
  else (start, h)

/-- The constructor from `PR_Seek64` on. -/
def seek (h : PullFileEventHandler) (start : UInt64) (includeHeader : Bool) (io : Io) :
    PullFileEventHandler × Io :=
  if 0 < start then
    let (ok, os) := io.os.check
    let io := io.setOs os
    if ok then sendHeader { h with mFile := some start.toNat } includeHeader io
    else h.fail (str "failed to seek") io
  else h.sendHeader includeHeader io

/-- The constructor from `PR_GetOpenFileInfo` on. -/
def selectRange (h : PullFileEventHandler) (start : UInt64) (includeHeader : Bool) (io : Io) :
    PullFileEventHandler × Io :=
  let (info, os) := io.os.openFileSize
  let io := (io.setOs os).log (.fileInfo h.mPath info)
  match info with
  | none => h.fail (str "failed to read file info") io
  | some fileSize =>
      let (start, h) := h.fitRange fileSize start
      h.seek start includeHeader io

def new (path : Bytes) (start size : UInt64) (includeHeader : Bool) (io : Io) :
    PullFileEventHandler × Io :=
  let h : PullFileEventHandler := ⟨path, none, 0, size, false⟩
  let (found, os) := io.os.check
  let io := io.setOs os
  if !found then h.fail (str "file does not exist") io
  else
    let (readable, os) := io.os.check
    let io := io.setOs os
    if !readable then h.fail (str "insufficient permissions to read file") io
    else
      let (ok, os) := io.os.check
      let io := (io.setOs os).log (.openRead path ok)
      if !ok then h.fail (str "could not open file") io
      else selectRange { h with mFile := some 0 } start includeHeader io

def getPollDescs (io : Io) : List PollDesc :=
  if io.sock.closed then [] else [⟨io.sock.mSocket, { write := true }, {}⟩]

/-- The size of the next block to ask for. -/
def nextBlock (h : PullFileEventHandler) : Nat :=
  (if h.mSize - h.mBytesRead < blockSize then h.mSize - h.mBytesRead else blockSize).toNat

/-- `PR_Read` of one block, and `write` of what it returned. -/
def sendBlock (h : PullFileEventHandler) (pos : Nat) (io : Io) : PullFileEventHandler × Io :=
  let (got, os) := io.os.read h.mPath pos h.nextBlock
  let io := (io.setOs os).log (.readFile h.mPath pos h.nextBlock got)
  match got with
  | none | some [] => h.close io
  | some (b :: bs) =>
      ({ h with
          mFile := some (pos + (bs.length + 1))
          mBytesRead := h.mBytesRead + UInt64.ofNat (bs.length + 1) },
        BufferedSocket.write (b :: bs) (bs.length + 1) io)

def handleEvent (desc : PollDesc) (h : PullFileEventHandler) :
    EStateM Fault Io PullFileEventHandler := do
  let io ← get
  if desc.fd ≠ io.sock.mSocket then pure h
  else if !desc.out_flags.write then pure h
  else
    match h.mFile with
    | none => throw (.crash .nullDeref)
    | some pos =>
        let h ← modifyGet (h.sendBlock pos)
        if h.mSize = h.mBytesRead then modifyGet h.close else pure h

/-! ## A pull leaves the input alone

Whatever happens, a pull only sends and closes its file; as long as it is open,
so is the file. -/

def Sound (h : PullFileEventHandler) : Prop := h.mClosed = false → h.mFile.isSome = true

theorem close_frame (h : PullFileEventHandler) (io : Io) : Frame io (h.close io).2 := by
  unfold close
  split
  · exact frame_log io rfl
  · exact .refl io

theorem close_closed (h : PullFileEventHandler) (io : Io) : (h.close io).1.mClosed = true := by
  unfold close
  split <;> rfl

theorem close_sound (h : PullFileEventHandler) (io : Io) : (h.close io).1.Sound := by
  intro hopen
  rw [close_closed] at hopen
  cases hopen

theorem fail_frame (h : PullFileEventHandler) (err : Bytes) (io : Io) :
    Frame io (h.fail err io).2 :=
  (writeString_frame _ io).trans (h.close_frame _)

theorem sendHeader_frame (h : PullFileEventHandler) (includeHeader : Bool) (io : Io) :
    Frame io (h.sendHeader includeHeader io).2 := by
  unfold sendHeader
  split
  · exact .refl io
  · dsimp only
    split
    · exact (writeString_frame _ io).trans (h.close_frame _)
    · exact writeString_frame _ io

theorem sendHeader_sound {h : PullFileEventHandler} (hfile : h.mFile.isSome = true)
    (includeHeader : Bool) (io : Io) : (h.sendHeader includeHeader io).1.Sound := by
  unfold sendHeader
  split
  · exact fun _ => hfile
  · dsimp only
    split
    · exact h.close_sound _
    · exact fun _ => hfile

theorem seek_frame (h : PullFileEventHandler) (start : UInt64) (includeHeader : Bool) (io : Io) :
    Frame io (h.seek start includeHeader io).2 := by
  have hcheck : Frame io (io.setOs io.os.check.2) := frame_setOs io rfl
  unfold seek
  split
  · dsimp only
    split
    · exact hcheck.trans (sendHeader_frame _ _ _)
    · exact hcheck.trans (fail_frame _ _ _)
  · exact h.sendHeader_frame _ io

theorem seek_sound {h : PullFileEventHandler} (hfile : h.mFile.isSome = true) (start : UInt64)
    (includeHeader : Bool) (io : Io) : (h.seek start includeHeader io).1.Sound := by
  unfold seek
  split
  · dsimp only
    split
    · exact sendHeader_sound rfl _ _
    · exact close_sound _ _
  · exact sendHeader_sound hfile _ _

theorem fitRange_file (h : PullFileEventHandler) (fileSize start : UInt64) :
    (h.fitRange fileSize start).2.mFile = h.mFile := by
  unfold fitRange
  split
  · rfl
  · split <;> rfl

theorem selectRange_frame (h : PullFileEventHandler) (start : UInt64) (includeHeader : Bool)
    (io : Io) : Frame io (h.selectRange start includeHeader io).2 := by
  have hos : Frame io (io.setOs io.os.openFileSize.2) := frame_setOs io rfl
  have hinfo : Frame io ((io.setOs io.os.openFileSize.2).log
      (.fileInfo h.mPath io.os.openFileSize.1)) := hos.trans (frame_log _ rfl)
  unfold selectRange
  dsimp only
  split
  · exact hinfo.trans (fail_frame _ _ _)
  · exact hinfo.trans (seek_frame _ _ _ _)

theorem selectRange_sound {h : PullFileEventHandler} (hfile : h.mFile.isSome = true)
    (start : UInt64) (includeHeader : Bool) (io : Io) :
    (h.selectRange start includeHeader io).1.Sound := by
  unfold selectRange
  dsimp only
  split
  · exact close_sound _ _
  · exact seek_sound ((h.fitRange_file _ start).symm ▸ hfile) _ _ _

theorem new_frame (path : Bytes) (start size : UInt64) (includeHeader : Bool) (io : Io) :
    Frame io (new path start size includeHeader io).2 := by
  have hcheck : ∀ io : Io, Frame io (io.setOs io.os.check.2) := fun io => frame_setOs io rfl
  have hopen : ∀ (io : Io) (ok : Bool), Frame io (io.log (.openRead path ok)) :=
    fun io ok => frame_log io rfl
  unfold new
  dsimp only
  split
  · exact (hcheck io).trans (fail_frame _ _ _)
  · have hfirst := hcheck io
    split
    · exact hfirst.trans ((hcheck _).trans (fail_frame _ _ _))
    · have hsecond := hfirst.trans (hcheck _)
      split
      · exact hsecond.trans ((hcheck _).trans ((hopen _ _).trans (fail_frame _ _ _)))
      · exact hsecond.trans ((hcheck _).trans ((hopen _ _).trans (selectRange_frame _ _ _ _)))

theorem new_sound (path : Bytes) (start size : UInt64) (includeHeader : Bool) (io : Io) :
    (new path start size includeHeader io).1.Sound := by
  unfold new
  dsimp only
  split
  · exact close_sound _ _
  · split
    · exact close_sound _ _
    · split
      · exact close_sound _ _
      · exact selectRange_sound rfl _ _ _

theorem read_recvs (os : Os) (path : Bytes) (pos size : Nat) :
    (os.read path pos size).2.recvs = os.recvs := by
  unfold Os.read
  dsimp only
  split <;> rfl

theorem sendBlock_frame (h : PullFileEventHandler) (pos : Nat) (io : Io) :
    Frame io (h.sendBlock pos io).2 := by
  have hos : Frame io (io.setOs (io.os.read h.mPath pos h.nextBlock).2) :=
    frame_setOs io (read_recvs _ _ _ _)
  have hread : Frame io ((io.setOs (io.os.read h.mPath pos h.nextBlock).2).log
      (.readFile h.mPath pos h.nextBlock (io.os.read h.mPath pos h.nextBlock).1)) :=
    hos.trans (frame_log _ rfl)
  unfold sendBlock
  dsimp only
  refine hread.trans ?_
  split
  · exact close_frame _ _
  · exact close_frame _ _
  · exact (write_wrote (by simp) _).frame

theorem sendBlock_sound (h : PullFileEventHandler) (pos : Nat) (io : Io) :
    (h.sendBlock pos io).1.Sound := by
  unfold sendBlock
  dsimp only
  split
  · exact close_sound _ _
  · exact close_sound _ _
  · exact fun _ => rfl

theorem handleEvent_spec (desc : PollDesc) {h : PullFileEventHandler} (io : Io) (hs : h.Sound)
    (hopen : h.mClosed = false) :
    Ensures (handleEvent desc h) io (fun h' io' => Frame io io' ∧ h'.Sound) (fun _ _ => False) := by
  unfold handleEvent
  rw [ensures_bind, ensures_get]
  split
  · exact ⟨.refl io, hs⟩
  · split
    · exact ⟨.refl io, hs⟩
    · split
      · rename_i hfile
        have := hs hopen
        rw [hfile] at this
        cases this
      · rename_i pos hfile
        rw [ensures_bind, ensures_modifyGet]
        split
        · rw [ensures_modifyGet]
          exact ⟨(h.sendBlock_frame pos io).trans (close_frame _ _), close_sound _ _⟩
        · exact ⟨h.sendBlock_frame pos io, h.sendBlock_sound pos io⟩

end PullFileEventHandler

end Negatus
