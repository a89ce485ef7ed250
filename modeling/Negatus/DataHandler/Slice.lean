import Negatus.DataHandler.Transfer

/-!
# The slice that a pull passes on

A `PullRun` is a pull of an unchanging file from its constructor on, event by event,
with the bytes that its events have passed to `BufferedSocket::write`. What arrives
at the client is the business of the socket; what is passed on is always a prefix of
the slice that was asked for, and a pull that no error stops passes all of it on.
-/

namespace Negatus

open Foundations BufferedSocket

/-- `PR_Read` -/
def Event.isRead : Event → Bool
  | .readFile _ _ _ _ => true
  | _ => false

/-- `PR_Close` of a file -/
def Event.isRelease : Event → Bool
  | .closeFile _ => true
  | _ => false

/-- The bytes that `PR_Send` was given. -/
def offered (t : List Event) : Bytes :=
  t.flatMap fun
    | .send bs _ => bs
    | _ => []

namespace PullFileEventHandler

/-- `start`, as the constructor leaves it for a file of this length. -/
def sliceStart (start : UInt64) (length : Nat) : Nat := if start.toNat < length then start.toNat else 0

/-- The amount that is asked for of a file of this length. -/
def requested (start size : UInt64) (length : Nat) : Nat :=
  if start.toNat < length then if size = 0 then length - start.toNat else size.toNat else 0

/-- Both calls of `PR_Access`, `PR_Open` and, if there is one, `PR_Seek64` succeed, and
`PR_GetOpenFileInfo` reports the length of the file. -/
structure Granted (start : UInt64) (content : Bytes) (io : Io) : Prop where
  found : io.os.check.1 = true
  readable : io.os.check.2.check.1 = true
  opened : io.os.check.2.check.2.check.1 = true
  sought : 0 < sliceStart start content.length → io.os.check.2.check.2.check.2.check.1 = true
  info : ∃ fileSize : UInt64, io.os.openFileSize.1 = some fileSize ∧ fileSize.toNat = content.length

/-- The bytes that an event passes to `BufferedSocket::write`. -/
def written (desc : PollDesc) (h : PullFileEventHandler) (io : Io) : Bytes :=
  if desc.fd = io.sock.mSocket ∧ desc.out_flags.write = true then
    h.mFile.elim [] fun pos => (io.os.read h.mPath pos h.nextBlock).1.getD []
  else []

/-- A pull of a file that does not change. `checkDataEventHandler` calls `handleEvent` on
handlers that are not closed only; what an event finds of the socket and of the system
is otherwise arbitrary. -/
inductive PullRun (path : Bytes) (start size : UInt64) (includeHeader : Bool) (content : Bytes) :
    PullFileEventHandler → List Event → Bytes → Prop
  | new (io : Io) {es : List Event} (hgranted : Granted start content io)
      (htrace : (new path start size includeHeader io).2.trace = io.trace ++ es) :
      PullRun path start size includeHeader content (new path start size includeHeader io).1 es []
  | event {h h' : PullFileEventHandler} {t es : List Event} {bytes : Bytes} {desc : PollDesc}
      {io io' : Io} (hrun : PullRun path start size includeHeader content h t bytes)
      (hopen : h.mClosed = false) (hsame : io.os.files path = content)
      (hevent : handleEvent desc h io = .ok h' io') (htrace : io'.trace = io.trace ++ es) :
      PullRun path start size includeHeader content h' (t ++ es) (bytes ++ written desc h io)

/-- What is asked for of the slice is passed on in order, in blocks, and to its end; the
file is not read after it has been released. What an event adds is what it hands to
`PR_Send`, unless the send side of the socket is closed. -/
structure Streamed (start size : UInt64) (content : Bytes) (h : PullFileEventHandler)
    (t : List Event) (bytes : Bytes) : Prop where
  slice : bytes = (content.drop (sliceStart start content.length)).take h.mBytesRead.toNat
  atMost : h.mBytesRead.toNat ≤ min (requested start size content.length)
    (content.length - sliceStart start content.length)
  noUnderflow : h.mBytesRead ≤ h.mSize
  blocks : ∀ path pos n got, .readFile path pos n got ∈ t → n ≤ blockSize.toNat
  released : t.Pairwise fun e e' => e.isRelease = true → e'.isRead = false
  returns : h.mClosed = false → ∀ desc io, ∃ h' io' es, handleEvent desc h io = .ok h' io' ∧
    io'.trace = io.trace ++ es ∧
    offered es = if io.sock.mSendClosed then [] else written desc h io
  complete : h.mClosed = true → (∀ path pos n, .readFile path pos n none ∉ t) →
    h.mBytesRead.toNat = min (requested start size content.length)
      (content.length - sliceStart start content.length)

/-! ## Calls of `write` -/

/-- A write neither reads nor releases a file. -/
theorem wrote_events {bs : Bytes} {io io' : Io} (h : Wrote bs io io') :
    ∃ es, io'.trace = io.trace ++ es ∧ (∀ e ∈ es, e.isRead = false ∧ e.isRelease = false) ∧
      offered es = if io.sock.mSendClosed then [] else bs := by
  by_cases hsilent : bs = [] ∨ io.sock.mSendClosed = true
  · refine ⟨[], ?_, by simp, ?_⟩
    · rw [h.silent hsilent, List.append_nil]
    · rcases hsilent with rfl | hclosed
      · simp [offered]
      · rw [if_pos hclosed]
        rfl
  · rw [not_or, Bool.not_eq_true] at hsilent
    obtain ⟨hbs, hopen⟩ := hsilent
    rw [hopen, if_neg (by decide)]
    rcases h.sent hbs hopen with ⟨n, htrace, -⟩ | ⟨-, es, hes, htrace⟩
    · exact ⟨_, htrace, by simp [Event.isRead, Event.isRelease], by simp [offered]⟩
    · refine ⟨[.send bs 0] ++ es, by rw [htrace, List.append_assoc], ?_, ?_⟩
      · rcases hes with rfl | rfl <;> simp [Event.isRead, Event.isRelease]
      · rcases hes with rfl | rfl <;> simp [offered]

variable {path content bytes : Bytes} {start size : UInt64} {includeHeader : Bool}
  {h h' : PullFileEventHandler} {t es : List Event}

/-! ## The constructor -/

/-- What the constructor fits is the slice. -/
theorem fitted_slice {fileSize : UInt64} (hlength : fileSize.toNat = content.length) :
    (announced fileSize start size).toNat = requested start size content.length ∧
      offset fileSize start = sliceStart start content.length := by
  unfold announced requested offset sliceStart
  rw [← hlength]
  by_cases hpast : fileSize ≤ start
  · have hnot : ¬ start.toNat < fileSize.toNat := by
      rw [UInt64.le_iff_toNat_le] at hpast
      exact Nat.not_lt_of_le hpast
    rw [if_pos hpast, if_pos hpast, if_neg hnot, if_neg hnot]
    exact ⟨rfl, rfl⟩
  · have hless : start.toNat < fileSize.toNat := by
      rw [UInt64.le_iff_toNat_le] at hpast
      exact Nat.lt_of_not_le hpast
    rw [if_neg hpast, if_neg hpast, if_pos hless, if_pos hless]
    refine ⟨?_, rfl⟩
    split
    · exact UInt64.toNat_sub_of_le _ _ (UInt64.le_iff_toNat_le.mpr (Nat.le_of_lt hless))
    · rfl

theorem seek_granted {from_ : UInt64} {k : Nat} {io : Io} (hfrom : from_.toNat = k)
    (hfile : h.mFile = some 0) (hsought : 0 < k → io.os.check.1 = true) :
    ∃ io', io'.trace = io.trace ∧
      h.seek from_ includeHeader io = sendHeader { h with mFile := some k } includeHeader io' := by
  unfold seek
  split
  · rename_i hpos
    rw [UInt64.lt_iff_toNat_lt, hfrom] at hpos
    refine ⟨io.setOs io.os.check.2, rfl, ?_⟩
    dsimp only
    rw [if_pos (hsought hpos), hfrom]
  · rename_i hzero
    rw [UInt64.lt_iff_toNat_lt, hfrom] at hzero
    obtain rfl : k = 0 := Nat.eq_zero_of_not_pos hzero
    refine ⟨io, rfl, ?_⟩
    rw [← hfile]

theorem selectRange_granted {io : Io} {fileSize : UInt64}
    (hinfo : io.os.openFileSize.1 = some fileSize)
    (hsought : 0 < offset fileSize start → io.os.check.1 = true) :
    ∃ io', io'.trace = io.trace ++ [.fileInfo path (some fileSize)] ∧
      selectRange ⟨path, some 0, 0, size, false⟩ start includeHeader io =
        sendHeader ⟨path, some (offset fileSize start), 0, announced fileSize start size, false⟩
          includeHeader io' := by
  obtain ⟨hfrom, hfit⟩ := fitRange_spec ⟨path, some 0, 0, size, false⟩ fileSize start
  unfold selectRange
  dsimp only
  rw [hinfo]
  dsimp only
  rw [hfit]
  let io₁ := (io.setOs io.os.openFileSize.2).log (.fileInfo path (some fileSize))
  let h : PullFileEventHandler := ⟨path, some 0, 0, announced fileSize start size, false⟩
  obtain ⟨io', htrace, hseek⟩ := @seek_granted includeHeader h _ _ io₁ hfrom rfl hsought
  exact ⟨io', htrace, hseek⟩

/-- With every check passed, the constructor gets as far as the header. -/
theorem new_granted {io : Io} (hgranted : Granted start content io) :
    ∃ fileSize : UInt64, fileSize.toNat = content.length ∧ ∃ io',
      io'.trace = io.trace ++ [.openRead path true, .fileInfo path (some fileSize)] ∧
        new path start size includeHeader io =
          sendHeader ⟨path, some (offset fileSize start), 0, announced fileSize start size, false⟩
            includeHeader io' := by
  obtain ⟨fileSize, hinfo, hlength⟩ := hgranted.info
  obtain ⟨-, hstart⟩ := @fitted_slice content start size fileSize hlength
  let io₃ := (io.setOs io.os.check.2.check.2.check.2).log (.openRead path true)
  obtain ⟨io', htrace, hselect⟩ :=
    @selectRange_granted path start size includeHeader io₃ fileSize hinfo (hstart ▸ hgranted.sought)
  refine ⟨fileSize, hlength, io', ?_, ?_⟩
  · rw [htrace]
    exact List.append_assoc ..
  · rw [← hselect]
    have hfound' : (!io.os.check.1) = false := by rw [hgranted.found]; rfl
    have hreadable' : (!io.os.check.2.check.1) = false := by rw [hgranted.readable]; rfl
    have hopened' : (!io.os.check.2.check.2.check.1) = false := by rw [hgranted.opened]; rfl
    show (if (!io.os.check.1) = true then _ else if (!io.os.check.2.check.1) = true then _ else
      if (!io.os.check.2.check.2.check.1) = true then _ else
        selectRange _ _ _ ((io.setOs _).log (.openRead path io.os.check.2.check.2.check.1))) = _
    rw [hfound', hreadable', hopened', hgranted.opened, if_neg (by decide), if_neg (by decide),
      if_neg (by decide)]
    rfl

/-! ## The invariant -/

/-- The state of a pull: how far it is in the slice, and what it has of the file. -/
structure InSlice (path : Bytes) (start size : UInt64) (content : Bytes) (h : PullFileEventHandler)
    (t : List Event) (bytes : Bytes) : Prop where
  samePath : h.mPath = path
  sameSize : h.mSize.toNat = requested start size content.length
  slice : bytes = (content.drop (sliceStart start content.length)).take h.mBytesRead.toNat
  atMost : h.mBytesRead.toNat ≤ min (requested start size content.length)
    (content.length - sliceStart start content.length)
  blocks : ∀ path pos n got, .readFile path pos n got ∈ t → n ≤ blockSize.toNat
  released : t.Pairwise fun e e' => e.isRelease = true → e'.isRead = false
  running : h.mClosed = false →
    h.mFile = some (sliceStart start content.length + h.mBytesRead.toNat) ∧
      ∀ e ∈ t, e.isRelease = false
  complete : h.mClosed = true → (∀ path pos n, .readFile path pos n none ∉ t) →
    h.mBytesRead.toNat = min (requested start size content.length)
      (content.length - sliceStart start content.length)

/-- The header, or nothing: a handler that stays open keeps its file. -/
theorem sendHeader_events {pos : Nat} (hfile : h.mFile = some pos) (io : Io) :
    ∃ es, (h.sendHeader includeHeader io).2.trace = io.trace ++ es ∧
      (∀ e ∈ es, e.isRead = false) ∧
      ((h.sendHeader includeHeader io).1 = h ∧ (∀ e ∈ es, e.isRelease = false) ∨
        h.mSize = 0 ∧ (h.sendHeader includeHeader io).1 = { h with mFile := none, mClosed := true }) := by
  unfold sendHeader
  split
  · exact ⟨[], (List.append_nil _).symm, by simp, Or.inl ⟨rfl, by simp⟩⟩
  · dsimp only
    obtain ⟨es, htrace, hes, -⟩ := wrote_events (writeString_wrote
      (h.mPath ++ str "," ++ itoa h.mSize.toNat ++ endl) io)
    split
    · rename_i hzero
      refine ⟨es ++ [.closeFile h.mPath], ?_, ?_, Or.inr ⟨hzero, ?_⟩⟩
      · unfold close
        rw [hfile]
        show _ ++ [_] = _
        rw [← List.append_assoc, ← htrace]
      · intro e he
        rcases List.mem_append.mp he with he | he
        · exact (hes e he).1
        · rw [List.mem_singleton.mp he]
          rfl
      · unfold close
        rw [hfile]
    · exact ⟨es, htrace, fun e he => (hes e he).1, Or.inl ⟨rfl, fun e he => (hes e he).2⟩⟩

/-- What a handler at `pos` does in an event: the handler that it leaves, the calls, and
the bytes that it passes on. -/
inductive Turn (h : PullFileEventHandler) (pos : Nat) (io : Io) :
    PullFileEventHandler → List Event → Bytes → Prop
  | idle : Turn h pos io h [] []
  | ended (hgot : (io.os.read h.mPath pos h.nextBlock).1.getD [] = []) :
      Turn h pos io { h with mFile := none, mClosed := true }
        [.readFile h.mPath pos h.nextBlock (io.os.read h.mPath pos h.nextBlock).1,
          .closeFile h.mPath] []
  | block {bs : Bytes} {es : List Event}
      (hgot : (io.os.read h.mPath pos h.nextBlock).1 = some bs) (hbs : bs ≠ [])
      (hes : ∀ e ∈ es, e.isRead = false ∧ e.isRelease = false)
      (hsent : offered es = if io.sock.mSendClosed then [] else bs) :
      Turn h pos io
        { h with
            mFile := some (pos + bs.length)
            mBytesRead := h.mBytesRead + UInt64.ofNat bs.length }
        (.readFile h.mPath pos h.nextBlock (some bs) :: es) bs
  | last {bs : Bytes} {es : List Event}
      (hgot : (io.os.read h.mPath pos h.nextBlock).1 = some bs) (hbs : bs ≠ [])
      (hes : ∀ e ∈ es, e.isRead = false ∧ e.isRelease = false)
      (hsent : offered es = if io.sock.mSendClosed then [] else bs)
      (hlast : h.mSize = h.mBytesRead + UInt64.ofNat bs.length) :
      Turn h pos io
        { h with
            mFile := none
            mBytesRead := h.mBytesRead + UInt64.ofNat bs.length
            mClosed := true }
        (.readFile h.mPath pos h.nextBlock (some bs) :: (es ++ [.closeFile h.mPath])) bs

/-- Closing once more does nothing. -/
theorem close_twice {io : Io} (hclosed : h.mClosed = true) (hfile : h.mFile = none) :
    h.close io = (h, io) := by
  obtain ⟨path, file, read, size, closed⟩ := h
  obtain rfl : closed = true := hclosed
  obtain rfl : file = none := hfile
  rfl

theorem close_open {io : Io} {pos : Nat} (hfile : h.mFile = some pos) :
    h.close io = ({ h with mFile := none, mClosed := true }, io.log (.closeFile h.mPath)) := by
  unfold close
  rw [hfile]

/-- One block, and the end of `handleEvent`. -/
theorem sendBlock_turn {pos : Nat} (hfile : h.mFile = some pos) (io : Io) :
    Ensures (do
        let h ← modifyGet (h.sendBlock pos)
        if h.mSize = h.mBytesRead then modifyGet h.close else pure h : EStateM Fault Io _) io
      (fun h' io' => ∃ es, io'.trace = io.trace ++ es ∧
        Turn h pos io h' es ((io.os.read h.mPath pos h.nextBlock).1.getD []))
      (fun _ _ => False) := by
  rw [ensures_bind, ensures_modifyGet]
  cases hread : io.os.read h.mPath pos h.nextBlock with
  | mk got os =>
      have hgot : (io.os.read h.mPath pos h.nextBlock).1 = got := by rw [hread]
      let io₁ := (io.setOs os).log (.readFile h.mPath pos h.nextBlock got)
      by_cases hnone : got.getD [] = []
      · -- the end of the file, or an error
        have hsend : h.sendBlock pos io = ({ h with mFile := none, mClosed := true },
            io₁.log (.closeFile h.mPath)) := by
          rw [← close_open hfile]
          unfold sendBlock
          rw [hread]
          rcases got with _ | (_ | ⟨b, bs⟩)
          · rfl
          · rfl
          · cases hnone
        rw [hsend]
        have hturn : Turn h pos io { h with mFile := none, mClosed := true }
            [.readFile h.mPath pos h.nextBlock got, .closeFile h.mPath] (got.getD []) := by
          have hended := Turn.ended (h := h) (by rwa [hgot])
          rwa [hgot, ← hnone] at hended
        have hes : ∃ es, (io₁.log (.closeFile h.mPath)).trace = io.trace ++ es ∧
            Turn h pos io { h with mFile := none, mClosed := true } es (got.getD []) :=
          ⟨_, List.append_assoc .., hturn⟩
        split
        · rw [ensures_modifyGet, close_twice rfl rfl]
          exact hes
        · exact hes
      · -- a block
        obtain ⟨b, bs, rfl⟩ : ∃ b bs, got = some (b :: bs) := by
          rcases got with _ | (_ | ⟨b, bs⟩)
          · exact absurd rfl hnone
          · exact absurd rfl hnone
          · exact ⟨b, bs, rfl⟩
        let h₁ : PullFileEventHandler :=
          { h with
              mFile := some (pos + (b :: bs).length)
              mBytesRead := h.mBytesRead + UInt64.ofNat (b :: bs).length }
        have hsend : h.sendBlock pos io = (h₁, write (b :: bs) (b :: bs).length io₁) := by
          unfold sendBlock
          rw [hread]
          rfl
        obtain ⟨es, htrace, hes, hsent⟩ :=
          wrote_events (write_wrote (Nat.le_refl (b :: bs).length) io₁)
        rw [List.take_length] at hsent
        have htrace' : (write (b :: bs) (b :: bs).length io₁).trace =
            io.trace ++ .readFile h.mPath pos h.nextBlock (some (b :: bs)) :: es :=
          htrace.trans (List.append_assoc ..)
        rw [hsend]
        split
        · rename_i hlast
          rw [ensures_modifyGet, close_open rfl]
          refine ⟨.readFile h.mPath pos h.nextBlock (some (b :: bs)) ::
            (es ++ [.closeFile h.mPath]), ?_, .last hgot (List.cons_ne_nil b bs) hes hsent hlast⟩
          show _ ++ [_] = _
          rw [htrace', List.append_assoc]
          rfl
        · exact ⟨_, htrace', .block hgot (List.cons_ne_nil b bs) hes hsent⟩

/-- An event is a turn, with the bytes that it passes to `write`. -/
theorem handleEvent_turns (desc : PollDesc) {pos : Nat} (hfile : h.mFile = some pos) (io : Io) :
    Ensures (handleEvent desc h) io
      (fun h' io' => ∃ es, io'.trace = io.trace ++ es ∧ Turn h pos io h' es (written desc h io))
      (fun _ _ => False) := by
  unfold handleEvent written
  rw [ensures_bind, ensures_get]
  split
  · rename_i hother
    rw [if_neg fun hboth => hother hboth.1]
    exact ⟨[], (List.append_nil _).symm, .idle⟩
  · split
    · rename_i hnot
      rw [if_neg fun hboth => by simp [hboth.2] at hnot]
      exact ⟨[], (List.append_nil _).symm, .idle⟩
    · rename_i hfd hwrite
      rw [if_pos ⟨Decidable.not_not.mp hfd, by simpa using hwrite⟩, hfile]
      exact sendBlock_turn hfile io

theorem handleEvent_turn {desc : PollDesc} {io io' : Io} {pos : Nat} (hfile : h.mFile = some pos)
    (hevent : handleEvent desc h io = .ok h' io') (htrace : io'.trace = io.trace ++ es) :
    Turn h pos io h' es (written desc h io) := by
  obtain ⟨es', htrace', hturn⟩ := (ensures_ok hevent).mp (handleEvent_turns desc hfile io)
  rw [htrace] at htrace'
  rwa [List.append_cancel_left htrace']

/-- What a turn passes to `write` is what `PR_Send` is given, unless the send side is
closed. -/
theorem Turn.offered {io : Io} {pos : Nat} {bs : Bytes} (hturn : Turn h pos io h' es bs) :
    Negatus.offered es = if io.sock.mSendClosed then [] else bs := by
  cases hturn with
  | idle => simp [Negatus.offered]
  | ended => simp [Negatus.offered]
  | block hgot hbs hes hsent => exact hsent
  | last hgot hbs hes hsent =>
      rw [← hsent]
      simp [Negatus.offered]

/-! ## One turn further -/

/-- The size of a block, for a handler that has not read more than it is to send. -/
theorem nextBlock_fits (hle : h.mBytesRead ≤ h.mSize) :
    h.nextBlock ≤ blockSize.toNat ∧ h.nextBlock ≤ h.mSize.toNat - h.mBytesRead.toNat ∧
      (h.nextBlock = 0 → h.mSize.toNat ≤ h.mBytesRead.toNat) := by
  have hleft : (h.mSize - h.mBytesRead).toNat = h.mSize.toNat - h.mBytesRead.toNat :=
    UInt64.toNat_sub_of_le _ _ hle
  have hblock : blockSize.toNat = 1024 := rfl
  unfold nextBlock
  split
  · rename_i hsmall
    rw [UInt64.lt_iff_toNat_lt] at hsmall
    omega
  · rename_i hbig
    rw [UInt64.lt_iff_toNat_lt] at hbig
    omega

/-- A read that succeeds returns what is there, and nothing only at the end. -/
theorem read_there {os : Os} {pos n : Nat} {bs : Bytes} (hgot : (os.read path pos n).1 = some bs) :
    bs <+: (os.files path).drop pos ∧ bs.length ≤ n ∧
      (bs = [] → n = 0 ∨ (os.files path).length ≤ pos) := by
  have htaken : ∃ k, bs = ((os.files path).drop pos).take k ∧ k ≤ n ∧ (k = 0 → n = 0) := by
    unfold Os.read at hgot
    dsimp only at hgot
    split at hgot
    · exact ⟨n, (Option.some.inj hgot).symm, Nat.le_refl n, id⟩
    · rename_i k _
      exact ⟨min n (k + 1), (Option.some.inj hgot).symm, Nat.min_le_left _ _, by omega⟩
    · cases hgot
  obtain ⟨k, rfl, hk, hzero⟩ := htaken
  refine ⟨List.take_prefix _ _, ?_, fun hnil => ?_⟩
  · rw [List.length_take]
    exact Nat.le_trans (Nat.min_le_left _ _) hk
  · rcases List.take_eq_nil_iff.mp hnil with hk | hdrop
    · exact Or.inl (hzero hk)
    · exact Or.inr (List.drop_eq_nil_iff.mp hdrop)

/-- A read behind which nothing else is read, of a file that has not been released. -/
theorem released_read {pos n : Nat} {got : Option Bytes}
    (ht : t.Pairwise fun e e' => e.isRelease = true → e'.isRead = false)
    (hkept : ∀ e ∈ t, e.isRelease = false) (hes : ∀ e ∈ es, e.isRead = false) :
    (t ++ .readFile path pos n got :: es).Pairwise
      fun e e' => e.isRelease = true → e'.isRead = false := by
  rw [List.pairwise_append, List.pairwise_cons]
  refine ⟨ht, ⟨fun e' he' _ => hes e' he', ?_⟩, fun e he e' _ hrelease => ?_⟩
  · exact List.pairwise_of_forall_mem_list fun e _ e' he' _ => hes e' he'
  · rw [hkept e he] at hrelease
    cases hrelease

theorem InSlice.le (hin : InSlice path start size content h t bytes) :
    h.mBytesRead ≤ h.mSize := by
  rw [UInt64.le_iff_toNat_le, hin.sameSize]
  exact Nat.le_trans hin.atMost (Nat.min_le_left _ _)

/-- The bytes that a block adds. -/
theorem InSlice.add (hin : InSlice path start size content h t bytes) {bs : Bytes}
    (hroom : bs.length ≤ h.mSize.toNat - h.mBytesRead.toNat)
    (hbs : bs <+: content.drop (sliceStart start content.length + h.mBytesRead.toNat)) :
    (h.mBytesRead + UInt64.ofNat bs.length).toNat = h.mBytesRead.toNat + bs.length ∧
      h.mBytesRead.toNat + bs.length ≤ min (requested start size content.length)
        (content.length - sliceStart start content.length) ∧
      bytes ++ bs = (content.drop (sliceStart start content.length)).take
        (h.mBytesRead.toNat + bs.length) := by
  have hle := UInt64.le_iff_toNat_le.mp hin.le
  have hbound := h.mSize.toNat_lt
  have hthere := hbs.length_le
  rw [List.length_drop] at hthere
  have hmost := hin.atMost
  have hsize := hin.sameSize
  refine ⟨?_, ?_, ?_⟩
  · rw [UInt64.toNat_add, UInt64.toNat_ofNat']
    omega
  · rw [← hsize] at hmost ⊢
    omega
  · rw [List.take_add, ← hin.slice, List.drop_drop]
    exact congrArg (bytes ++ ·) (List.prefix_iff_eq_take.mp hbs)

theorem InSlice.turn (hin : InSlice path start size content h t bytes) (hopen : h.mClosed = false)
    {io : Io} (hsame : io.os.files path = content) {bs : Bytes}
    (hturn : Turn h (sliceStart start content.length + h.mBytesRead.toNat) io h' es bs) :
    InSlice path start size content h' (t ++ es) (bytes ++ bs) := by
  obtain ⟨-, hkept⟩ := hin.running hopen
  obtain ⟨hsmall, hroom, hfull⟩ := nextBlock_fits hin.le
  have hpath := hin.samePath
  have hblocks : ∀ {got : Option Bytes} {pos : Nat} {rest : List Event},
      (∀ e ∈ rest, e.isRead = false) → ∀ path' pos' n got',
        .readFile path' pos' n got' ∈ t ++ .readFile h.mPath pos h.nextBlock got :: rest →
          n ≤ blockSize.toNat := by
    intro got pos rest hrest path' pos' n got' hmem
    rcases List.mem_append.mp hmem with hmem | hmem
    · exact hin.blocks path' pos' n got' hmem
    · rcases List.mem_cons.mp hmem with heq | hmem
      · obtain ⟨-, -, rfl, -⟩ := Event.readFile.inj heq
        exact hsmall
      · exact absurd (hrest _ hmem) (by simp [Event.isRead])
  cases hturn with
  | idle => simpa using hin
  | ended hgot =>
      have hnone : ∀ e ∈ [Event.closeFile h.mPath], e.isRead = false := by simp [Event.isRead]
      refine ⟨hpath, hin.sameSize, by rw [List.append_nil]; exact hin.slice, hin.atMost,
        hblocks hnone, released_read hin.released hkept hnone, (fun hrun => nomatch hrun),
        fun _ hnoError => ?_⟩
      -- without an error, the file ends here, or all has been passed on
      refine Nat.le_antisymm hin.atMost ?_
      cases hresult : (io.os.read h.mPath
          (sliceStart start content.length + h.mBytesRead.toNat) h.nextBlock).1 with
      | none =>
          refine absurd ?_ (hnoError h.mPath (sliceStart start content.length + h.mBytesRead.toNat)
            h.nextBlock)
          simp [hresult]
      | some got =>
          rw [hresult] at hgot
          obtain ⟨-, -, hend⟩ := read_there hresult
          rw [hpath, hsame] at hend
          rw [← hin.sameSize]
          rcases hend hgot with hzero | hlong
          · exact Nat.le_trans (Nat.min_le_left _ _) (hfull hzero)
          · exact Nat.le_trans (Nat.min_le_right _ _) (by show _ ≤ h.mBytesRead.toNat; omega)
  | @block bs es hgot hbs hes hsent =>
      have hrest : ∀ e ∈ es, e.isRead = false := fun e he => (hes e he).1
      obtain ⟨hthere, hlen, -⟩ := read_there hgot
      rw [hpath, hsame] at hthere
      obtain ⟨hcount, hmost, hslice⟩ := hin.add (Nat.le_trans hlen hroom) hthere
      refine ⟨hpath, hin.sameSize, hcount ▸ hslice, hcount ▸ hmost, hblocks hrest,
        released_read hin.released hkept hrest, fun _ => ⟨?_, ?_⟩, fun hclosed => ?_⟩
      · show some _ = some _
        rw [hcount, Nat.add_assoc]
      · intro e he
        rcases List.mem_append.mp he with he | he
        · exact hkept e he
        · rcases List.mem_cons.mp he with rfl | he
          · rfl
          · exact (hes e he).2
      · exact absurd (hopen.symm.trans hclosed) (by decide)
  | @last bs es hgot hbs hes hsent hlast =>
      have hrest : ∀ e ∈ es ++ [.closeFile h.mPath], e.isRead = false := by
        intro e he
        rcases List.mem_append.mp he with he | he
        · exact (hes e he).1
        · rw [List.mem_singleton.mp he]
          rfl
      obtain ⟨hthere, hlen, -⟩ := read_there hgot
      rw [hpath, hsame] at hthere
      obtain ⟨hcount, hmost, hslice⟩ := hin.add (Nat.le_trans hlen hroom) hthere
      refine ⟨hpath, hin.sameSize, hcount ▸ hslice, hcount ▸ hmost, hblocks hrest,
        released_read hin.released hkept hrest, (fun hrun => nomatch hrun),
        fun _ _ => ?_⟩
      refine Nat.le_antisymm (hcount ▸ hmost) ?_
      show _ ≤ (h.mBytesRead + UInt64.ofNat bs.length).toNat
      rw [← hlast, hin.sameSize]
      exact Nat.min_le_left _ _

theorem new_inSlice {io : Io} (hgranted : Granted start content io)
    (htrace : (new path start size includeHeader io).2.trace = io.trace ++ es) :
    InSlice path start size content (new path start size includeHeader io).1 es [] := by
  obtain ⟨fileSize, hlength, io₁, htrace₁, hnew⟩ :=
    @new_granted path content start size includeHeader io hgranted
  obtain ⟨hsize, hstart⟩ := @fitted_slice content start size fileSize hlength
  let h : PullFileEventHandler :=
    ⟨path, some (offset fileSize start), 0, announced fileSize start size, false⟩
  obtain ⟨es', htrace', hread, hcases⟩ := @sendHeader_events includeHeader h _ rfl io₁
  obtain rfl : es = [.openRead path true, .fileInfo path (some fileSize)] ++ es' := by
    have hboth := htrace.symm.trans (congrArg (·.2.trace) hnew)
    rw [htrace', htrace₁, List.append_assoc] at hboth
    exact List.append_cancel_left hboth
  have hquiet : ∀ e ∈ [.openRead path true, .fileInfo path (some fileSize)] ++ es',
      e.isRead = false := by
    intro e he
    rcases List.mem_append.mp he with he | he
    · rcases List.mem_cons.mp he with rfl | he
      · rfl
      · rw [List.mem_singleton.mp he]
        rfl
    · exact hread e he
  have hsame : (new path start size includeHeader io).1.mPath = path ∧
      (new path start size includeHeader io).1.mSize = announced fileSize start size ∧
        (new path start size includeHeader io).1.mBytesRead = 0 := by
    rw [hnew]
    rcases hcases with ⟨heq, -⟩ | ⟨-, heq⟩ <;> exact heq ▸ ⟨rfl, rfl, rfl⟩
  obtain ⟨hpath, hmSize, hcount⟩ := hsame
  have hzero : (new path start size includeHeader io).1.mBytesRead.toNat = 0 := by
    rw [hcount]
    rfl
  refine ⟨hpath, hmSize ▸ hsize, by rw [hzero]; rfl, by rw [hzero]; exact Nat.zero_le _, ?_, ?_, ?_, ?_⟩
  · intro path' pos n got hmem
    exact absurd (hquiet _ hmem) (by simp [Event.isRead])
  · exact List.pairwise_of_forall_mem_list fun e _ e' he' _ => hquiet e' he'
  · intro hopen
    rw [hzero, ← hstart]
    rw [hnew] at hopen ⊢
    rcases hcases with ⟨heq, hkept⟩ | ⟨-, heq⟩
    · rw [heq]
      refine ⟨rfl, fun e he => ?_⟩
      rcases List.mem_append.mp he with he | he
      · rcases List.mem_cons.mp he with rfl | he
        · rfl
        · rw [List.mem_singleton.mp he]
          rfl
      · exact hkept e he
    · rw [heq] at hopen
      cases hopen
  · intro hclosed _
    rw [hnew] at hclosed
    rcases hcases with ⟨heq, -⟩ | ⟨hnothing, -⟩
    · rw [heq] at hclosed
      cases hclosed
    · rw [hzero, ← hsize, show announced fileSize start size = 0 from hnothing]
      exact (Nat.zero_min _).symm

theorem PullRun.inSlice (hrun : PullRun path start size includeHeader content h t bytes) :
    InSlice path start size content h t bytes := by
  induction hrun with
  | new io hgranted htrace => exact new_inSlice hgranted htrace
  | event hrun hopen hsame hevent htrace ih =>
      exact ih.turn hopen hsame (handleEvent_turn (ih.running hopen).1 hevent htrace)

/-- **A pull streams the slice that was asked for.** -/
theorem streams_slice (hrun : PullRun path start size includeHeader content h t bytes) :
    Streamed start size content h t bytes := by
  have hin := hrun.inSlice
  refine ⟨hin.slice, hin.atMost, hin.le, hin.blocks, hin.released, fun hopen desc io => ?_,
    hin.complete⟩
  obtain ⟨h', io', hevent, es, htrace, hturn⟩ :=
    (handleEvent_turns desc (hin.running hopen).1 io).succeeds
  exact ⟨h', io', es, hevent, htrace, hturn.offered⟩

/-- The last two bytes of three, in one block. -/
theorem streams_slice_rest :
    ∃ h t, PullRun (str "f") 1 0 false (str "abc") h t (str "bc") ∧ h.mClosed = true ∧
      Streamed 1 0 (str "abc") h t (str "bc") := by
  have hnew : PullRun (str "f") 1 0 false (str "abc") ⟨str "f", some 1, 0, 2, false⟩
      [.openRead (str "f") true, .fileInfo (str "f") (some 3)] [] :=
    .new { sock := .new 7, os := { sizes := [some 3] } }
      ⟨rfl, rfl, rfl, fun _ => rfl, 3, rfl, rfl⟩ rfl
  have hends : Ensures (handleEvent ⟨some 7, { write := true }, { write := true }⟩
      ⟨str "f", some 1, 0, 2, false⟩) { sock := .new 7, os := { files := fun _ => str "abc" } }
      (fun h io => h = ⟨str "f", none, 2, 2, true⟩ ∧
        io.trace = [] ++ [.readFile (str "f") 1 2 (some (str "bc")), .send (str "bc") 2,
          .closeFile (str "f")])
      (fun _ _ => False) := by decide +kernel
  obtain ⟨_, io', hevent, rfl, htrace⟩ := hends.succeeds
  have hrun := hnew.event rfl rfl hevent htrace
  exact ⟨_, _, hrun, rfl, streams_slice hrun⟩

end PullFileEventHandler

end Negatus
