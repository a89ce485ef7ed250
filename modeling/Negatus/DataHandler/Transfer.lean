import Negatus.BufferedSocket.Outgoing
import Negatus.DataHandler.Pull

/-!
# What a pull sends

The constructor announces a number of bytes in the header; the bytes are read and
sent later, one block for every event. Both are followed along the trace: `Told`
says what has been announced and what has been sent of the file so far.
-/

namespace Negatus

open Foundations BufferedSocket

theorem accepted_sendAll (bs : Bytes) : accepted (sendAll bs) = bs := by
  unfold sendAll
  split
  · rename_i hbs
    rw [hbs]
    rfl
  · simp [accepted]

namespace PullFileEventHandler

/-- `path,n` and the end of the line. -/
def header (path : Bytes) (n : Nat) : Bytes := path ++ str "," ++ itoa n ++ endl

/-- The reply of `pullError`. -/
def errorReply (path err : Bytes) : Bytes := agentWarn (path ++ str ",-1") ++ endl ++ err ++ endl

/-- The number in the header, by the size that `PR_GetOpenFileInfo` reports. -/
def announced (fileSize start size : UInt64) : UInt64 :=
  if fileSize ≤ start then 0 else if size = 0 then fileSize - start else size

/-- The offset from which the file is read. -/
def offset (fileSize start : UInt64) : Nat := if fileSize ≤ start then 0 else start.toNat

/-- No `PR_Read` fails, and all of them read from the same content: they may return
fewer bytes than they were asked for, but nothing only at its end. -/
def Steady (path content : Bytes) (t : List Event) : Prop :=
  ∀ pos size got, .readFile path pos size got ∈ t →
    ∃ k, got = some ((content.drop pos).take (min size (k + 1)))

/-- The error reply has been sent. -/
def Refused (path : Bytes) (h : PullFileEventHandler) (t : List Event) : Prop :=
  h.mClosed = true ∧ ∃ err, accepted t = errorReply path err

/-- What the header announces lies in the file. -/
def InFile (fileSize start size : UInt64) (content : Bytes) : Prop :=
  fileSize ≤ start ∨ size = 0 ∧ fileSize.toNat ≤ content.length ∨
    size ≠ 0 ∧ start.toNat + size.toNat ≤ content.length

/-- The header has been sent, and `data` of the file after it. -/
structure Sent (path : Bytes) (start size : UInt64) (h : PullFileEventHandler) (t : List Event)
    (fileSize : UInt64) (data : Bytes) : Prop where
  samePath : h.mPath = path
  sameSize : h.mSize = announced fileSize start size
  info : ∀ s, .fileInfo path (some s) ∈ t → s = fileSize
  sent : accepted t = header path h.mSize.toNat ++ data
  count : h.mBytesRead.toNat = data.length
  atMost : data.length ≤ h.mSize.toNat
  read : ∀ content, Steady path content t → data <+: content.drop (offset fileSize start)

/-- A transfer ends when all that was announced has been sent, or at the end of the
file; until then it goes on behind `data`. -/
structure Told (path : Bytes) (start size : UInt64) (h : PullFileEventHandler) (t : List Event)
    (fileSize : UInt64) (data : Bytes) : Prop extends Sent path start size h t fileSize data where
  ended : h.mClosed = true → data.length = h.mSize.toNat ∨
    ∀ content, Steady path content t → data = content.drop (offset fileSize start)
  running : h.mClosed = false →
    h.mFile = some (offset fileSize start + data.length) ∧ data.length < h.mSize.toNat

/-- What a pull with a header has sent. -/
def Transfer (path : Bytes) (start size : UInt64) (h : PullFileEventHandler)
    (t : List Event) : Prop :=
  Refused path h t ∨ ∃ fileSize data, Told path start size h t fileSize data

/-! ## The constructor -/

theorem close_trace (h : PullFileEventHandler) (io : Io) :
    (h.close io).2.sock = io.sock ∧ ∃ es, (h.close io).2.trace = io.trace ++ es ∧
      (es = [] ∨ es = [.closeFile h.mPath]) := by
  unfold close
  split
  · exact ⟨rfl, [.closeFile h.mPath], rfl, Or.inr rfl⟩
  · exact ⟨rfl, [], (List.append_nil _).symm, Or.inl rfl⟩

theorem header_length {path : Bytes} (hpath : path.length < 2 ^ 31) (n : UInt64) :
    (header path n.toNat).length < 2 ^ 32 := by
  have hn : n.toNat < 10 ^ 20 := Nat.lt_trans n.toNat_lt (by decide)
  have hitoa := itoa_length hn
  have hcomma : (str ",").length = 1 := by decide
  have hendl : endl.length = 1 := by decide
  unfold header
  simp only [List.length_append, hcomma, hendl]
  omega

theorem errorReply_length {path err : Bytes} (hpath : path.length < 2 ^ 31)
    (herr : err.length ≤ 64) : (errorReply path err).length < 2 ^ 32 := by
  have hwarn : (str "##AGENT-WARNING## ").length = 18 := by decide
  have hminus : (str ",-1").length = 3 := by decide
  have hendl : endl.length = 1 := by decide
  unfold errorReply agentWarn
  simp only [List.length_append, hwarn, hminus, hendl]
  omega

theorem fail_full {h : PullFileEventHandler} {err : Bytes} {io : Io}
    (hpath : h.mPath.length < 2 ^ 31) (herr : err.length ≤ 64)
    (hopen : io.sock.mSendClosed = false) (hfull : FullSends (h.fail err io).2.trace) :
    ∃ es, (h.fail err io).2.trace = io.trace ++ es ∧ (h.fail err io).1.mClosed = true ∧
      accepted es = errorReply h.mPath err := by
  obtain ⟨-, es, htrace, hes⟩ := h.close_trace (h.pullError err io)
  have hsent : FullSends (h.pullError err io).trace := by
    refine hfull.of_prefix ?_
    unfold fail
    rw [htrace]
    exact List.prefix_append _ _
  obtain ⟨hreply, -⟩ := writeString_full (errorReply_length hpath herr) hopen hsent
  refine ⟨sendAll (errorReply h.mPath err) ++ es, ?_, h.close_closed _, ?_⟩
  · unfold fail
    rw [htrace, ← List.append_assoc]
    exact congrArg (· ++ es) hreply
  · rw [accepted_append, accepted_sendAll]
    rcases hes with rfl | rfl <;> simp [accepted]

/-- The header is sent, and an empty transfer is closed at once. -/
theorem sendHeader_told {h : PullFileEventHandler} {io : Io} {t es : List Event}
    {start size fileSize : UInt64} (hsize : h.mSize = announced fileSize start size)
    (hfile : h.mFile = some (offset fileSize start)) (hread : h.mBytesRead = 0)
    (hrun : h.mClosed = false) (hpath : h.mPath.length < 2 ^ 31)
    (htrace : io.trace = t ++ es) (hes : accepted es = [])
    (hinfo : ∀ s, .fileInfo h.mPath (some s) ∈ es → s = fileSize)
    (hopen : io.sock.mSendClosed = false) (hfull : FullSends (h.sendHeader true io).2.trace) :
    ∃ es', (h.sendHeader true io).2.trace = t ++ es' ∧
      Told h.mPath start size (h.sendHeader true io).1 es' fileSize [] := by
  have hsent : FullSends (writeString (header h.mPath h.mSize.toNat) io).trace := by
    refine hfull.of_prefix ?_
    unfold sendHeader
    rw [if_neg (by decide)]
    dsimp only
    split
    · exact (close_frame _ _).trace_grows
    · exact List.prefix_rfl
  obtain ⟨hheader, -⟩ := writeString_full (header_length hpath h.mSize) hopen hsent
  have hcalm : ∀ s, .fileInfo h.mPath (some s) ∈ sendAll (header h.mPath h.mSize.toNat) → False := by
    unfold sendAll
    split <;> simp
  have hwritten : (writeString (header h.mPath h.mSize.toNat) io).trace =
      t ++ (es ++ sendAll (header h.mPath h.mSize.toNat)) := by
    rw [hheader, htrace, List.append_assoc]
  unfold sendHeader
  rw [if_neg (by decide)]
  dsimp only
  split
  · -- nothing to send
    rename_i hzero
    obtain ⟨-, es₁, hclose, hes₁⟩ := h.close_trace (writeString (header h.mPath h.mSize.toNat) io)
    have hsame : (h.close (writeString (header h.mPath h.mSize.toNat) io)).1 =
        { h with mFile := none, mClosed := true } := by
      unfold close
      rw [hfile]
    refine ⟨es ++ sendAll (header h.mPath h.mSize.toNat) ++ es₁, ?_, ?_⟩
    · refine hclose.trans ?_
      rw [hwritten, List.append_assoc]
    · rw [show (h.close (writeString (h.mPath ++ str "," ++ itoa h.mSize.toNat ++ endl) io)).1 =
        { h with mFile := none, mClosed := true } from hsame]
      refine ⟨⟨rfl, hsize, ?_, ?_, by rw [hread]; rfl, Nat.zero_le _, fun _ _ => List.nil_prefix⟩,
        fun _ => Or.inl (by rw [hzero]; rfl), fun hrun => nomatch hrun⟩
      · intro s hs
        rcases List.mem_append.mp hs with hs | hs
        · rcases List.mem_append.mp hs with hs | hs
          · exact hinfo s hs
          · exact (hcalm s hs).elim
        · rcases hes₁ with rfl | rfl <;> simp at hs
      · rw [accepted_append, accepted_append, accepted_sendAll, hes]
        rcases hes₁ with rfl | rfl <;> simp [accepted]
  · rename_i hsome
    refine ⟨es ++ sendAll (header h.mPath h.mSize.toNat), hwritten, ?_⟩
    have hpos : 0 < h.mSize.toNat := by
      apply Nat.pos_of_ne_zero
      intro hzero
      exact hsome (UInt64.toNat_inj.mp hzero)
    refine ⟨⟨rfl, hsize, ?_, ?_, by rw [hread]; rfl, Nat.zero_le _, fun _ _ => List.nil_prefix⟩,
      fun hclosed => absurd (hrun.symm.trans hclosed) (by decide), fun _ => ⟨hfile, hpos⟩⟩
    · intro s hs
      rcases List.mem_append.mp hs with hs | hs
      · exact hinfo s hs
      · exact (hcalm s hs).elim
    · rw [accepted_append, accepted_sendAll, hes, List.nil_append, List.append_nil]

theorem refused_of_fail {h : PullFileEventHandler} {err : Bytes} {io : Io} {t es : List Event}
    {start size : UInt64} (hpath : h.mPath.length < 2 ^ 31) (herr : err.length ≤ 64)
    (htrace : io.trace = t ++ es) (hes : accepted es = []) (hopen : io.sock.mSendClosed = false)
    (hfull : FullSends (h.fail err io).2.trace) :
    ∃ es', (h.fail err io).2.trace = t ++ es' ∧
      Transfer h.mPath start size (h.fail err io).1 es' := by
  obtain ⟨es₁, hfail, hclosed, hsent⟩ := fail_full hpath herr hopen hfull
  refine ⟨es ++ es₁, ?_, Or.inl ⟨hclosed, err, ?_⟩⟩
  · rw [hfail, htrace, List.append_assoc]
  · rw [accepted_append, hes, hsent, List.nil_append]

theorem seek_transfer {h : PullFileEventHandler} {io : Io} {t es : List Event}
    {start size fileSize from_ : UInt64} (hsize : h.mSize = announced fileSize start size)
    (hfrom : from_.toNat = offset fileSize start) (hfile : h.mFile = some 0)
    (hread : h.mBytesRead = 0) (hrun : h.mClosed = false) (hpath : h.mPath.length < 2 ^ 31)
    (htrace : io.trace = t ++ es) (hes : accepted es = [])
    (hinfo : ∀ s, .fileInfo h.mPath (some s) ∈ es → s = fileSize)
    (hopen : io.sock.mSendClosed = false) (hfull : FullSends (h.seek from_ true io).2.trace) :
    ∃ es', (h.seek from_ true io).2.trace = t ++ es' ∧
      Transfer h.mPath start size (h.seek from_ true io).1 es' := by
  unfold seek at hfull ⊢
  split
  · rename_i hpos
    rw [if_pos hpos] at hfull
    dsimp only at hfull ⊢
    have hopen' : (io.setOs io.os.check.2).sock.mSendClosed = false := hopen
    have htrace' : (io.setOs io.os.check.2).trace = t ++ es := htrace
    split
    · rename_i hok
      rw [if_pos hok] at hfull
      have hfile' : some from_.toNat = some (offset fileSize start) := congrArg some hfrom
      obtain ⟨es', hsent, htold⟩ := sendHeader_told (h := { h with mFile := some from_.toNat })
        hsize hfile' hread hrun hpath htrace' hes hinfo hopen' hfull
      exact ⟨es', hsent, Or.inr ⟨fileSize, [], htold⟩⟩
    · rename_i hfail
      rw [if_neg hfail] at hfull
      exact refused_of_fail hpath (by decide) htrace' hes hopen' hfull
  · rename_i hzero
    rw [if_neg hzero] at hfull
    have hoffset : offset fileSize start = 0 := by
      rw [← hfrom]
      rw [UInt64.lt_iff_toNat_lt] at hzero
      exact Nat.eq_zero_of_not_pos hzero
    obtain ⟨es', hsent, htold⟩ := sendHeader_told hsize (hfile.trans (congrArg some hoffset.symm))
      hread hrun hpath htrace hes hinfo hopen hfull
    exact ⟨es', hsent, Or.inr ⟨fileSize, [], htold⟩⟩

/-- `start` and `mSize` as the constructor fits them. -/
theorem fitRange_spec (h : PullFileEventHandler) (fileSize start : UInt64) :
    (h.fitRange fileSize start).1.toNat = offset fileSize start ∧
      (h.fitRange fileSize start).2 = { h with mSize := announced fileSize start h.mSize } := by
  unfold fitRange offset announced
  split
  · exact ⟨rfl, rfl⟩
  · split <;> exact ⟨rfl, rfl⟩

theorem selectRange_transfer {path : Bytes} {start size : UInt64} {io : Io} {t es : List Event}
    (hpath : path.length < 2 ^ 31) (htrace : io.trace = t ++ es) (hes : accepted es = [])
    (hinfo : ∀ s, .fileInfo path (some s) ∉ es) (hopen : io.sock.mSendClosed = false)
    (hfull : FullSends (selectRange ⟨path, some 0, 0, size, false⟩ start true io).2.trace) :
    ∃ es', (selectRange ⟨path, some 0, 0, size, false⟩ start true io).2.trace = t ++ es' ∧
      Transfer path start size (selectRange ⟨path, some 0, 0, size, false⟩ start true io).1 es' := by
  unfold selectRange at hfull ⊢
  generalize io.os.openFileSize = answer at hfull ⊢
  obtain ⟨info, os⟩ := answer
  dsimp only at hfull ⊢
  let io₁ := (io.setOs os).log (.fileInfo path info)
  have hopen₁ : io₁.sock.mSendClosed = false := hopen
  have htrace₁ : io₁.trace = t ++ (es ++ [.fileInfo path info]) := by
    show io.trace ++ _ = _
    rw [htrace, List.append_assoc]
  have hes₁ : accepted (es ++ [.fileInfo path info]) = [] := by
    rw [accepted_append, hes]
    rfl
  cases info with
  | none => exact refused_of_fail hpath (by decide) htrace₁ hes₁ hopen₁ hfull
  | some fileSize =>
      obtain ⟨hfrom, hfit⟩ := fitRange_spec ⟨path, some 0, 0, size, false⟩ fileSize start
      dsimp only at hfull ⊢
      rw [hfit] at hfull ⊢
      have hinfo₁ : ∀ s, .fileInfo path (some s) ∈ es ++ [.fileInfo path (some fileSize)] →
          s = fileSize := by
        intro s hs
        rcases List.mem_append.mp hs with hs | hs
        · exact absurd hs (hinfo s)
        · simpa using hs
      exact seek_transfer rfl hfrom rfl rfl rfl hpath htrace₁ hes₁ hinfo₁ hopen₁ hfull

/-- The constructor of a pull with a header, while everything is sent. -/
theorem new_transfer {path : Bytes} {start size : UInt64} {io : Io} (hpath : path.length < 2 ^ 31)
    (hopen : io.sock.mSendClosed = false)
    (hfull : FullSends (new path start size true io).2.trace) :
    ∃ es, (new path start size true io).2.trace = io.trace ++ es ∧
      Transfer path start size (new path start size true io).1 es := by
  unfold new at hfull ⊢
  dsimp only at hfull ⊢
  let io₁ := io.setOs io.os.check.2
  let io₂ := io₁.setOs io₁.os.check.2
  let io₃ := (io₂.setOs io₂.os.check.2).log (.openRead path io₂.os.check.1)
  have htrace₁ : io₁.trace = io.trace ++ [] := (List.append_nil _).symm
  have htrace₂ : io₂.trace = io.trace ++ [] := (List.append_nil _).symm
  have htrace₃ : io₃.trace = io.trace ++ [.openRead path io₂.os.check.1] := rfl
  have hopen₁ : io₁.sock.mSendClosed = false := hopen
  have hopen₂ : io₂.sock.mSendClosed = false := hopen
  have hopen₃ : io₃.sock.mSendClosed = false := hopen
  split
  · rename_i hmissing
    rw [if_pos hmissing] at hfull
    exact refused_of_fail hpath (by decide) htrace₁ rfl hopen₁ hfull
  · rename_i hfound
    rw [if_neg hfound] at hfull
    split
    · rename_i hdenied
      rw [if_pos hdenied] at hfull
      exact refused_of_fail hpath (by decide) htrace₂ rfl hopen₂ hfull
    · rename_i hreadable
      rw [if_neg hreadable] at hfull
      split
      · rename_i hfailed
        rw [if_pos hfailed] at hfull
        exact refused_of_fail hpath (by decide) htrace₃ rfl hopen₃ hfull
      · rename_i hok
        rw [if_neg hok] at hfull
        exact selectRange_transfer hpath htrace₃ rfl (by simp) hopen₃ hfull

/-! ## One block -/

section

variable {path : Bytes} {start size fileSize : UInt64} {h : PullFileEventHandler}
  {t : List Event} {data : Bytes}

theorem Steady.of_append {path content : Bytes} {t es : List Event}
    (h : Steady path content (t ++ es)) : Steady path content t :=
  fun pos size got hmem => h pos size got (List.mem_append_left _ hmem)

/-- Calls that neither send nor ask for the size of the file change nothing. -/
theorem Sent.append (hsent : Sent path start size h t fileSize data) {es : List Event}
    (hes : accepted es = []) (hinfo : ∀ s, .fileInfo path (some s) ∉ es) :
    Sent path start size h (t ++ es) fileSize data := by
  refine ⟨hsent.samePath, hsent.sameSize, ?_, ?_, hsent.count, hsent.atMost, ?_⟩
  · intro s hs
    rcases List.mem_append.mp hs with hs | hs
    · exact hsent.info s hs
    · exact absurd hs (hinfo s)
  · rw [accepted_append, hsent.sent, hes, List.append_nil]
  · exact fun content hsteady => hsent.read content hsteady.of_append

theorem Transfer.append (htransfer : Transfer path start size h t) {es : List Event}
    (hes : accepted es = []) (hinfo : ∀ s, .fileInfo path (some s) ∉ es) :
    Transfer path start size h (t ++ es) := by
  rcases htransfer with ⟨hclosed, err, herr⟩ | ⟨fileSize, data, htold⟩
  · refine Or.inl ⟨hclosed, err, ?_⟩
    rw [accepted_append, herr, hes, List.append_nil]
  · refine Or.inr ⟨fileSize, data, htold.toSent.append hes hinfo, fun hclosed => ?_, htold.running⟩
    rcases htold.ended hclosed with hall | hend
    · exact Or.inl hall
    · exact Or.inr fun content hsteady => hend content hsteady.of_append

/-- A transfer that is running asks for at least one byte, and for no more than is missing. -/
theorem Told.nextBlock (htold : Told path start size h t fileSize data)
    (hrun : h.mClosed = false) :
    0 < h.nextBlock ∧ data.length + h.nextBlock ≤ h.mSize.toNat := by
  have hcount := htold.count
  have hless := (htold.running hrun).2
  have hle : h.mBytesRead ≤ h.mSize := by
    rw [UInt64.le_iff_toNat_le]
    omega
  have hleft : (h.mSize - h.mBytesRead).toNat = h.mSize.toNat - h.mBytesRead.toNat :=
    UInt64.toNat_sub_of_le _ _ hle
  have hblock : blockSize.toNat = 1024 := rfl
  unfold PullFileEventHandler.nextBlock
  split
  · omega
  · rename_i hbig
    rw [UInt64.lt_iff_toNat_lt] at hbig
    omega

theorem read_length {os os' : Os} {pos n : Nat} {got : Bytes}
    (hread : os.read path pos n = (some got, os')) : got.length ≤ n := by
  unfold Os.read at hread
  dsimp only at hread
  split at hread
  · obtain ⟨hgot, -⟩ := Prod.mk.inj hread
    obtain rfl := Option.some.inj hgot
    exact (List.length_take_le _ _)
  · obtain ⟨hgot, -⟩ := Prod.mk.inj hread
    obtain rfl := Option.some.inj hgot
    exact Nat.le_trans (List.length_take_le _ _) (Nat.min_le_left _ _)
  · cases (Prod.mk.inj hread).1

theorem drop_prefixed {content : Bytes} {k : Nat} (hpre : data <+: content.drop k) :
    content.drop k = data ++ content.drop (k + data.length) := by
  obtain ⟨rest, hrest⟩ := hpre
  rw [← List.drop_drop, ← hrest, List.drop_left]

/-- `PR_Read` has nothing more to return. -/
theorem Told.at_end (htold : Told path start size h t fileSize data) (hrun : h.mClosed = false)
    {pos : Nat} (hfile : h.mFile = some pos) {got : Option Bytes}
    (hgot : got = none ∨ got = some []) {es : List Event} {content : Bytes}
    (hsteady : Steady path content (t ++ ([.readFile path pos h.nextBlock got] ++ es))) :
    data = content.drop (offset fileSize start) := by
  have hpos : pos = offset fileSize start + data.length :=
    Option.some.inj (hfile.symm.trans (htold.running hrun).1)
  obtain ⟨k, hk⟩ := hsteady pos h.nextBlock got (by simp)
  have hpre := htold.read content hsteady.of_append
  rcases hgot with rfl | rfl
  · cases hk
  · have hnone := Option.some.inj hk
    have hblock := (htold.nextBlock hrun).1
    have hrest : content.drop pos = [] := by
      rcases List.take_eq_nil_iff.mp hnone.symm with hzero | hrest
      · omega
      · exact hrest
    rw [drop_prefixed hpre, ← hpos, hrest, List.append_nil]

/-- Closing does not send. -/
theorem Sent.close (hsent : Sent path start size h t fileSize data) (io : Io)
    (hended : data.length = h.mSize.toNat ∨ ∀ content, Steady path content t →
      data = content.drop (offset fileSize start)) :
    ∃ es, (h.close io).2.trace = io.trace ++ es ∧
      Told path start size (h.close io).1 (t ++ es) fileSize data := by
  obtain ⟨-, es, htrace, hes⟩ := h.close_trace io
  have hclosed := h.close_closed io
  have hsame : (h.close io).1.mPath = h.mPath ∧ (h.close io).1.mSize = h.mSize ∧
      (h.close io).1.mBytesRead = h.mBytesRead := by
    unfold PullFileEventHandler.close
    split <;> exact ⟨rfl, rfl, rfl⟩
  obtain ⟨hpath, hsize, hread⟩ := hsame
  have hsent' : Sent path start size h (t ++ es) fileSize data :=
    hsent.append (by rcases hes with rfl | rfl <;> rfl) (by
      intro s hs
      rcases hes with rfl | rfl <;> simp at hs)
  refine ⟨es, htrace, ⟨hpath.trans hsent.samePath, hsize.trans hsent.sameSize, hsent'.info,
    hsize ▸ hsent'.sent, hread ▸ hsent.count, hsize ▸ hsent.atMost, hsent'.read⟩, ?_, ?_⟩
  · intro _
    rw [hsize]
    rcases hended with hended | hended
    · exact Or.inl hended
    · exact Or.inr fun content hsteady => hended content hsteady.of_append
  · intro hrun
    exact absurd (hclosed.symm.trans hrun) (by decide)

/-- `PR_Read` has returned `got`, and it has been sent. -/
theorem Told.block (htold : Told path start size h t fileSize data) (hrun : h.mClosed = false)
    {pos : Nat} (hfile : h.mFile = some pos) {got : Bytes} (hgot : got.length ≤ h.nextBlock) :
    Sent path start size
      { h with
          mFile := some (pos + got.length)
          mBytesRead := h.mBytesRead + UInt64.ofNat got.length }
      (t ++ [.readFile path pos h.nextBlock (some got), .send got got.length])
      fileSize (data ++ got) := by
  have hpos : pos = offset fileSize start + data.length :=
    Option.some.inj (hfile.symm.trans (htold.running hrun).1)
  obtain ⟨-, hroom⟩ := htold.nextBlock hrun
  have hcount := htold.count
  have hbound : h.mSize.toNat < 2 ^ 64 := h.mSize.toNat_lt
  have hadd : (h.mBytesRead + UInt64.ofNat got.length).toNat = data.length + got.length := by
    rw [UInt64.toNat_add, UInt64.toNat_ofNat', hcount]
    omega
  refine ⟨htold.samePath, htold.sameSize, ?_, ?_, ?_, ?_, ?_⟩
  · intro s hs
    rcases List.mem_append.mp hs with hs | hs
    · exact htold.info s hs
    · simp at hs
  · rw [accepted_append, htold.sent]
    simp [accepted]
  · exact hadd.trans List.length_append.symm
  · rw [List.length_append]
    show data.length + got.length ≤ h.mSize.toNat
    omega
  · intro content hsteady
    have hpre := htold.read content hsteady.of_append
    obtain ⟨k, hk⟩ := hsteady pos h.nextBlock (some got) (by simp)
    rw [drop_prefixed hpre, List.prefix_append_right_inj, ← hpos, Option.some.inj hk]
    exact List.take_prefix _ _

/-- After a block the transfer has ended early, or is as far as its file. -/
theorem Told.sendBlock (htold : Told path start size h t fileSize data) (hrun : h.mClosed = false)
    {pos : Nat} (hfile : h.mFile = some pos) {io : Io} (hopen : io.sock.mSendClosed = false)
    (hfull : FullSends (h.sendBlock pos io).2.trace) :
    ∃ es, (h.sendBlock pos io).2.trace = io.trace ++ es ∧
      ((h.sendBlock pos io).1.mSize ≠ (h.sendBlock pos io).1.mBytesRead ∧
          Told path start size (h.sendBlock pos io).1 (t ++ es) fileSize data ∨
        (h.sendBlock pos io).1.mClosed = false ∧ ∃ data',
          (h.sendBlock pos io).1.mFile = some (offset fileSize start + data'.length) ∧
          Sent path start size (h.sendBlock pos io).1 (t ++ es) fileSize data') := by
  have hpos : pos = offset fileSize start + data.length :=
    Option.some.inj (hfile.symm.trans (htold.running hrun).1)
  unfold PullFileEventHandler.sendBlock at hfull ⊢
  cases hread : io.os.read h.mPath pos h.nextBlock with
  | mk got os =>
      rw [hread] at hfull
      dsimp only at hfull ⊢
      -- the end of the file, or an error
      have hstop : (got = none ∨ got = some []) →
          ∃ es, (h.close ((io.setOs os).log (.readFile h.mPath pos h.nextBlock got))).2.trace =
              io.trace ++ es ∧
            ((h.close ((io.setOs os).log (.readFile h.mPath pos h.nextBlock got))).1.mSize ≠
                (h.close ((io.setOs os).log (.readFile h.mPath pos h.nextBlock got))).1.mBytesRead ∧
              Told path start size
                (h.close ((io.setOs os).log (.readFile h.mPath pos h.nextBlock got))).1
                (t ++ es) fileSize data) := by
        intro hgot
        have hsent : Sent path start size h (t ++ [.readFile h.mPath pos h.nextBlock got])
            fileSize data := htold.toSent.append rfl (by simp)
        obtain ⟨es, htrace, htold'⟩ := hsent.close
          ((io.setOs os).log (.readFile h.mPath pos h.nextBlock got)) (Or.inr (by
            intro content hsteady
            rw [htold.samePath] at hsteady
            exact htold.at_end hrun hfile hgot (by simpa using hsteady)))
        refine ⟨[.readFile h.mPath pos h.nextBlock got] ++ es, ?_, ?_, ?_⟩
        · rw [htrace]
          exact List.append_assoc ..
        · intro hall
          have hless := (htold.running hrun).2
          have hcount := htold'.count
          have hsize := htold.sameSize.trans htold'.sameSize.symm
          rw [← hall, ← hsize] at hcount
          omega
        · rwa [← List.append_assoc]
      rcases got with _ | (_ | ⟨b, bs⟩)
      · obtain ⟨es, htrace, htold'⟩ := hstop (Or.inl rfl)
        exact ⟨es, htrace, Or.inl htold'⟩
      · obtain ⟨es, htrace, htold'⟩ := hstop (Or.inr rfl)
        exact ⟨es, htrace, Or.inl htold'⟩
      · -- a block
        dsimp only at hfull ⊢
        have hwrote := @write_wrote (b :: bs) (bs.length + 1) (Nat.le_refl _)
          ((io.setOs os).log (.readFile h.mPath pos h.nextBlock (some (b :: bs))))
        have hall : (b :: bs).take (bs.length + 1) = b :: bs :=
          List.take_of_length_le (Nat.le_refl _)
        rw [hall] at hwrote
        obtain ⟨htrace, -⟩ := hwrote.full hopen hfull
        have hsent := htold.block hrun hfile (read_length hread)
        refine ⟨[.readFile path pos h.nextBlock (some (b :: bs)), .send (b :: bs) (b :: bs).length],
          ?_, Or.inr ⟨hrun, data ++ (b :: bs), ?_, hsent⟩⟩
        · rw [htrace, htold.samePath]
          exact List.append_assoc ..
        · rw [hpos, List.length_append, Nat.add_assoc]
          rfl

/-- A `PR_POLL_WRITE` event takes the transfer a block further. -/
theorem Transfer.handleEvent (htransfer : Transfer path start size h t)
    (hrun : h.mClosed = false) {desc : PollDesc} {io io' : Io} {h' : PullFileEventHandler}
    (hresult : h.handleEvent desc io = .ok h' io') (hopen : io.sock.mSendClosed = false)
    (hfull : FullSends io'.trace) :
    ∃ es, io'.trace = io.trace ++ es ∧ Transfer path start size h' (t ++ es) := by
  have hstay : ∃ es, io.trace = io.trace ++ es ∧ Transfer path start size h (t ++ es) :=
    ⟨[], (List.append_nil _).symm, by rwa [List.append_nil]⟩
  obtain ⟨fileSize, data, htold⟩ : ∃ fileSize data, Told path start size h t fileSize data := by
    rcases htransfer with ⟨hclosed, -⟩ | htold
    · exact absurd (hrun.symm.trans hclosed) (by decide)
    · exact htold
  have hens : Ensures (h.handleEvent desc) io
      (fun h' io' => FullSends io'.trace →
        ∃ es, io'.trace = io.trace ++ es ∧ Transfer path start size h' (t ++ es))
      (fun _ _ => True) := by
    unfold PullFileEventHandler.handleEvent
    rw [ensures_bind, ensures_get]
    split
    · exact fun _ => hstay
    · split
      · exact fun _ => hstay
      · split
        · trivial
        · rename_i pos hfile
          rw [ensures_bind, ensures_modifyGet]
          split
          · rename_i hall
            rw [ensures_modifyGet]
            intro hfull
            obtain ⟨es, htrace, ⟨hnot, -⟩ | ⟨-, data', -, hsent⟩⟩ := htold.sendBlock hrun hfile hopen
              (hfull.of_prefix (close_frame _ _).trace_grows)
            · exact absurd hall hnot
            · obtain ⟨es', htrace', htold'⟩ := hsent.close (h.sendBlock pos io).2
                (Or.inl (by rw [hall]; exact hsent.count.symm))
              refine ⟨es ++ es', ?_, Or.inr ⟨fileSize, data', ?_⟩⟩
              · rw [htrace', htrace, List.append_assoc]
              · rwa [← List.append_assoc]
          · rename_i hmore
            intro hfull
            obtain ⟨es, htrace, ⟨-, htold'⟩ | ⟨hopen', data', hfile', hsent⟩⟩ :=
              htold.sendBlock hrun hfile hopen hfull
            · exact ⟨es, htrace, Or.inr ⟨fileSize, data, htold'⟩⟩
            · refine ⟨es, htrace, Or.inr ⟨fileSize, data', hsent, fun hclosed => ?_,
                fun _ => ⟨hfile', ?_⟩⟩⟩
              · exact absurd (hopen'.symm.trans hclosed) (by decide)
              · apply Nat.lt_of_le_of_ne hsent.atMost
                intro heq
                apply hmore
                rw [← UInt64.toNat_inj, hsent.count, heq]
  exact (ensures_ok hresult).mp hens hfull

end

/-! ## What the client sees -/

section

variable {path : Bytes} {start size : UInt64} {h : PullFileEventHandler} {t : List Event}

/-- What comes behind a text does not repeat the text and go on with a byte that is not
in front of it. -/
theorem not_repeats {w p rest : Bytes} {c : UInt8} (hw : w ≠ []) (hc : c ∉ w) :
    ¬ p ++ [c] <+: w ++ (p ++ rest) := by
  induction hn : p.length using Nat.strongRecOn generalizing p with
  | ind n ih =>
      intro hpre
      have hpos := List.length_pos_of_ne_nil hw
      by_cases hshort : p.length < w.length
      · have hlen : (p ++ [c]).length ≤ w.length := by
          rw [List.length_append, List.length_singleton]
          exact hshort
        have hin := List.prefix_of_prefix_length_le hpre (List.prefix_append w (p ++ rest)) hlen
        exact hc (hin.subset (List.mem_append_right _ (List.mem_singleton_self c)))
      · have hin : w <+: p := by
          refine List.prefix_of_prefix_length_le (List.prefix_append w (p ++ rest)) ?_
            (Nat.le_of_not_lt hshort)
          exact (List.prefix_append p [c]).trans hpre
        obtain ⟨q, rfl⟩ := hin
        rw [List.append_assoc, List.append_assoc, List.prefix_append_right_inj] at hpre
        refine ih q.length ?_ rfl hpre
        rw [← hn, List.length_append]
        omega

/-- A reply that begins with a header is not an error reply. -/
theorem header_not_errorReply {n : Nat} {err rest : Bytes} :
    ¬ header path n <+: errorReply path err ++ rest := by
  intro hpre
  have hsplit : errorReply path err ++ rest =
      str "##AGENT-WARNING## " ++ (path ++ (str ",-1" ++ endl ++ err ++ endl ++ rest)) := by
    unfold errorReply agentWarn
    simp only [List.append_assoc]
  have hcomma : path ++ [44] <+: header path n := by
    unfold header
    rw [List.append_assoc, List.append_assoc, List.prefix_append_right_inj]
    exact List.prefix_append [44] _
  rw [hsplit] at hpre
  exact not_repeats (by decide) (by decide) (hcomma.trans hpre)

/-- A header says one number. -/
theorem header_unique {m n : Nat} {rest : Bytes} (hpre : header path n <+: header path m ++ rest) :
    n = m := by
  unfold header at hpre
  simp only [List.append_assoc, List.prefix_append_right_inj] at hpre
  obtain ⟨rest', hrest⟩ := hpre
  have hendl : endl = [newline] := rfl
  rw [hendl] at hrest
  simp only [List.append_assoc] at hrest
  have hdigits : ∀ (k : Nat) (rest : Bytes),
      (itoa k ++ ([newline] ++ rest)).takeWhile (· ≠ newline) =
        itoa k ++ ([newline] ++ rest).takeWhile (· ≠ newline) := by
    intro k rest
    exact List.takeWhile_append_of_pos (decide_ne_of_notMem (newline_notMem_itoa k))
  have hn := hdigits n rest'
  have hm := hdigits m rest
  rw [hrest] at hn
  have hsame := hn.symm.trans hm
  simp at hsame
  exact itoa_injective hsame

/-- The announced range lies in the file if as many bytes are there to be read. -/
theorem inFile_iff {fileSize start size : UInt64} {content : Bytes} :
    InFile fileSize start size content ↔
      (announced fileSize start size).toNat ≤ content.length - offset fileSize start := by
  unfold InFile announced offset
  split
  · rename_i hpast
    exact iff_of_true (Or.inl hpast) (Nat.zero_le _)
  · rename_i hnot
    have hless : start.toNat < fileSize.toNat := by
      rw [UInt64.le_iff_toNat_le] at hnot
      exact Nat.lt_of_not_le hnot
    rw [or_iff_right hnot]
    split
    · rename_i hzero
      have hsub : (fileSize - start).toNat = fileSize.toNat - start.toNat :=
        UInt64.toNat_sub_of_le _ _ (UInt64.le_iff_toNat_le.mpr (Nat.le_of_lt hless))
      rw [hsub, or_iff_left (fun h => h.1 hzero), and_iff_right hzero]
      omega
    · rename_i hsome
      have hpos : 0 < size.toNat := by
        apply Nat.pos_of_ne_zero
        intro hzero
        exact hsome (UInt64.toNat_inj.mp hzero)
      rw [or_iff_right (fun h => hsome h.1), and_iff_right hsome]
      omega

/-- A transfer that has ended has sent what its header says exactly if that lies in the file. -/
theorem Transfer.truthful_iff (htransfer : Transfer path start size h t) (hclosed : h.mClosed = true)
    {fileSize : UInt64} {content rest : Bytes} {n : Nat}
    (hheader : header path n <+: accepted t ++ rest)
    (hinfo : .fileInfo path (some fileSize) ∈ t) (hsteady : Steady path content t) :
    (∃ bytes, accepted t = header path n ++ bytes ∧ bytes.length = n ∧
      bytes <+: content.drop start.toNat) ↔ InFile fileSize start size content := by
  rcases htransfer with ⟨-, err, herr⟩ | ⟨reported, data, htold⟩
  · rw [herr] at hheader
    exact absurd hheader header_not_errorReply
  · obtain rfl := htold.info fileSize hinfo
    rw [htold.sent, List.append_assoc] at hheader
    obtain rfl := header_unique hheader
    have hread := htold.read content hsteady
    rw [inFile_iff, ← htold.sameSize, htold.sent]
    constructor
    · rintro ⟨bytes, hbytes, hlen, -⟩
      obtain rfl := List.append_cancel_left hbytes
      rw [← hlen, ← List.length_drop]
      exact hread.length_le
    · intro hthere
      have hlen : data.length = h.mSize.toNat := by
        rcases htold.ended hclosed with hall | hend
        · exact hall
        · have hall := congrArg List.length (hend content hsteady)
          rw [List.length_drop] at hall
          exact Nat.le_antisymm htold.atMost (hall ▸ hthere)
      refine ⟨data, rfl, hlen, ?_⟩
      have hsize := htold.sameSize
      unfold offset at hread
      unfold announced at hsize
      split at hread
      · rename_i hpast
        rw [if_pos hpast] at hsize
        rw [hsize] at hlen
        rw [List.eq_nil_of_length_eq_zero hlen]
        exact List.nil_prefix
      · exact hread

end

end PullFileEventHandler

end Negatus
