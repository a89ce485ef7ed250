import Negatus.CommandEventHandler.Run
import Negatus.Foundations.History

/-!
# Files and pipes

A data handler obtains at most one file or pipe. `Ledger` books what has been
opened and closed since the last data handler was deleted; when the next one is
deleted, the two sides are to be equal. They are, except where `handleEvent`
drops a data handler at EOF: that one is still open.
-/

namespace Negatus

open Foundations BufferedSocket Relation

inductive Resource where
  | file (path : Bytes)
  | pipe
deriving DecidableEq, Repr

/-- What the current data handler has opened and closed. -/
structure Ledger where
  opened : List Resource := []
  closed : List Resource := []
deriving DecidableEq

def Ledger.enter (l : Ledger) : Event → Ledger
  | .openRead path true | .openWrite path true => { l with opened := l.opened ++ [.file path] }
  | .popen _ _ true => { l with opened := l.opened ++ [.pipe] }
  | .closeFile path => { l with closed := l.closed ++ [.file path] }
  | .pclose _ => { l with closed := l.closed ++ [.pipe] }
  | .release _ => {}
  | _ => l

/-- A data handler that is deleted has closed what it opened, once. -/
def AllClosed (l : Ledger) : Event → Prop
  | .release _ => l.closed = l.opened
  | _ => True

instance (l : Ledger) (e : Event) : Decidable (AllClosed l e) := by
  cases e <;> unfold AllClosed <;> infer_instance

def ClosedOnce (t : List Event) : Prop := Along AllClosed Ledger.enter {} t

instance (t : List Event) : Decidable (ClosedOnce t) :=
  inferInstanceAs (Decidable (Along _ _ _ t))

def ledger (t : List Event) : Ledger := t.foldl Ledger.enter {}

theorem ledger_append (t es : List Event) : ledger (t ++ es) = es.foldl Ledger.enter (ledger t) :=
  List.foldl_append

theorem closedOnce_append {t es : List Event} :
    ClosedOnce (t ++ es) ↔ ClosedOnce t ∧ Along AllClosed Ledger.enter (ledger t) es :=
  along_append

theorem ClosedOnce.of_prefix {t u : List Event} (h : ClosedOnce u) (hpre : t <+: u) :
    ClosedOnce t := by
  obtain ⟨es, rfl⟩ := hpre
  exact (closedOnce_append.mp h).1

/-! ## Calls that are not booked -/

/-- Only calls have been added that the ledger does not note. -/
def Unbooked (io io' : Io) : Prop :=
  ∃ es, io'.trace = io.trace ++ es ∧ ∀ e ∈ es, ∀ l : Ledger, l.enter e = l

theorem Unbooked.refl (io : Io) : Unbooked io io := ⟨[], by simp, by simp⟩

theorem Unbooked.trans {io₁ io₂ io₃ : Io} (h : Unbooked io₁ io₂) (h' : Unbooked io₂ io₃) :
    Unbooked io₁ io₃ := by
  obtain ⟨es, htrace, hes⟩ := h
  obtain ⟨es', htrace', hes'⟩ := h'
  refine ⟨es ++ es', by rw [htrace', htrace, List.append_assoc], ?_⟩
  intro e he
  rcases List.mem_append.mp he with he | he
  · exact hes e he
  · exact hes' e he

theorem Unbooked.trace_grows {io io' : Io} (h : Unbooked io io') : io.trace <+: io'.trace := by
  obtain ⟨es, htrace, -⟩ := h
  exact ⟨es, htrace.symm⟩

theorem unbooked_log (io : Io) {e : Event} (he : ∀ l : Ledger, l.enter e = l) :
    Unbooked io (io.log e) :=
  ⟨[e], rfl, by simpa using he⟩

theorem Unbooked.ledger {io io' : Io} (h : Unbooked io io') :
    ledger io'.trace = ledger io.trace := by
  obtain ⟨es, htrace, hes⟩ := h
  rw [htrace, ledger_append]
  clear htrace
  generalize Negatus.ledger io.trace = l
  induction es with
  | nil => rfl
  | cons e es ih =>
      rw [List.foldl_cons, hes e List.mem_cons_self l]
      exact ih fun e he => hes e (List.mem_cons_of_mem _ he)

/-- No data handler has been deleted. -/
def Unreleased (io io' : Io) : Prop :=
  ∃ es, io'.trace = io.trace ++ es ∧ ∀ resumes, .release resumes ∉ es

theorem Unreleased.refl (io : Io) : Unreleased io io := ⟨[], by simp, by simp⟩

theorem Unreleased.trans {io₁ io₂ io₃ : Io} (h : Unreleased io₁ io₂) (h' : Unreleased io₂ io₃) :
    Unreleased io₁ io₃ := by
  obtain ⟨es, htrace, hes⟩ := h
  obtain ⟨es', htrace', hes'⟩ := h'
  refine ⟨es ++ es', by rw [htrace', htrace, List.append_assoc], ?_⟩
  intro resumes hmem
  rcases List.mem_append.mp hmem with hmem | hmem
  · exact hes resumes hmem
  · exact hes' resumes hmem

theorem unreleased_log (io : Io) {e : Event} (he : ∀ resumes, e ≠ .release resumes) :
    Unreleased io (io.log e) :=
  ⟨[e], rfl, fun resumes hmem => he resumes (List.mem_singleton.mp hmem).symm⟩

theorem Unbooked.unreleased {io io' : Io} (h : Unbooked io io') : Unreleased io io' := by
  obtain ⟨es, htrace, hes⟩ := h
  refine ⟨es, htrace, ?_⟩
  intro resumes hmem
  have hempty : ({} : Ledger) = ⟨[.pipe], []⟩ := hes _ hmem ⟨[.pipe], []⟩
  cases hempty

theorem frame_unreleased {io io' : Io} (h : Frame io io') : Unreleased io io' := by
  obtain ⟨es, htrace, hes, -⟩ := h.trace
  refine ⟨es, htrace, ?_⟩
  intro resumes hmem
  cases hes _ hmem

theorem Unreleased.closedOnce {io io' : Io} (h : Unreleased io io') (ho : ClosedOnce io.trace) :
    ClosedOnce io'.trace := by
  obtain ⟨es, htrace, hes⟩ := h
  rw [htrace]
  refine closedOnce_append.mpr ⟨ho, ?_⟩
  clear htrace
  generalize ledger io.trace = l
  induction es generalizing l with
  | nil => exact along_nil
  | cons e es ih =>
      refine along_cons.mpr ⟨?_, ih (fun resumes hmem => hes resumes (List.mem_cons_of_mem _ hmem)) _⟩
      cases e with
      | release resumes => exact absurd List.mem_cons_self (hes resumes)
      | _ => trivial

theorem wrote_unbooked {bs : Bytes} {io io' : Io} (h : Wrote bs io io') : Unbooked io io' := by
  by_cases hquiet : bs = [] ∨ io.sock.mSendClosed = true
  · rw [h.silent hquiet]
    exact .refl io
  · rw [not_or, Bool.not_eq_true] at hquiet
    rcases h.sent hquiet.1 hquiet.2 with ⟨n, htrace, -⟩ | ⟨-, es, hes, htrace⟩
    · exact ⟨_, htrace, by simp [Ledger.enter]⟩
    · refine ⟨[.send bs 0] ++ es, by rw [htrace, List.append_assoc], ?_⟩
      rcases hes with rfl | rfl <;> simp [Ledger.enter]

theorem close_unbooked (io : Io) : Unbooked io (BufferedSocket.close io) := by
  unfold BufferedSocket.close
  split
  · exact .refl io
  · exact ⟨[.closeSocket], rfl, by simp [Ledger.enter]⟩

theorem recvStep_unbooked {io io' : Io} (h : RecvStep io io') : Unbooked io io' := by
  cases h with
  | quiet => exact ⟨[], by simp, by simp⟩
  | data os bs => exact ⟨[.recv bs], rfl, by simp [Ledger.enter]⟩
  | ended os =>
      obtain ⟨-, -, -, -, -, es, hes, htrace⟩ := closeRecv_facts ((io.setOs os).log .recvEnd)
      refine ⟨[.recvEnd] ++ es, by rw [htrace]; simp, ?_⟩
      rcases hes with rfl | rfl <;> simp [Ledger.enter]

/-! ## What a data handler holds -/

/-- The open file or pipe of a data handler. -/
def DataEventHandler.held : DataEventHandler → Option Resource
  | .pull h => h.mFile.map fun _ => .file h.mPath
  | .push h => if h.mFile then some (.file h.mPath) else none
  | .subprocess h => if h.mP && !h.mClosed then some .pipe else none

@[simp] theorem held_pull (h : PullFileEventHandler) :
    (DataEventHandler.pull h).held = h.mFile.map fun _ => .file h.mPath := rfl

@[simp] theorem held_push (h : PushFileEventHandler) :
    (DataEventHandler.push h).held = if h.mFile then some (.file h.mPath) else none := rfl

@[simp] theorem held_subprocess (h : SubprocessEventHandler) :
    (DataEventHandler.subprocess h).held = if h.mP && !h.mClosed then some .pipe else none := rfl

/-- The ledger of a data handler that holds `held`. -/
def Holding : Option Resource → Ledger → Prop
  | some r, l => l = ⟨[r], []⟩
  | none, l => l.closed = l.opened

/-- The books of a data handler are right, and it holds nothing if it is closed. -/
structure Booked (h : DataEventHandler) (io : Io) : Prop where
  holding : Holding h.held (ledger io.trace)
  empty : h.closed = true → h.held = none

/-- What has been closed is held no more. -/
theorem Holding.returned {r : Resource} {io : Io} (h : Holding (some r) (ledger io.trace)) (e : Event)
    (he : ∀ l : Ledger, l.enter e = { l with closed := l.closed ++ [r] }) :
    Holding none (ledger (io.log e).trace) := by
  have hopened : ledger io.trace = ⟨[r], []⟩ := h
  rw [Io.log_trace, ledger_append, hopened, List.foldl_cons, he]
  rfl

theorem holding_of_empty {l : Ledger} (h : l = {}) : Holding none l := by
  rw [h]
  rfl

/-- What has been opened is held. -/
theorem holding_opened {r : Resource} {io : Io} (h : ledger io.trace = {}) (e : Event)
    (he : ∀ l : Ledger, l.enter e = { l with opened := l.opened ++ [r] }) :
    Holding (some r) (ledger (io.log e).trace) := by
  rw [Io.log_trace, ledger_append, h, List.foldl_cons, he]
  rfl

theorem DataEventHandler.Sound.holds {h : DataEventHandler} (hs : h.Sound)
    (hopen : h.closed = false) : ∃ r, h.held = some r := by
  cases h with
  | pull h =>
      obtain ⟨pos, hpos⟩ := Option.isSome_iff_exists.mp (hs hopen)
      exact ⟨.file h.mPath, by simp [hpos]⟩
  | push h =>
      have hfile : h.mFile = true := hs hopen
      exact ⟨.file h.mPath, by simp [hfile]⟩
  | subprocess h =>
      have hp : h.mP = true := hs
      have hrun : h.mClosed = false := hopen
      exact ⟨.pipe, by simp [hp, hrun]⟩

theorem Booked.unbooked {h h' : DataEventHandler} {io io' : Io} (hb : Booked h io)
    (hio : Unbooked io io') (hheld : h'.held = h.held) (hclosed : h'.closed = h.closed) :
    Booked h' io' where
  holding := by
    rw [hheld, hio.ledger]
    exact hb.holding
  empty := by
    rw [hheld, hclosed]
    exact hb.empty

/-! ### Pulls -/

namespace PullFileEventHandler

theorem close_booked {h : PullFileEventHandler} {io : Io}
    (hb : Holding (DataEventHandler.pull h).held (ledger io.trace)) :
    Booked (.pull (h.close io).1) (h.close io).2 := by
  rw [held_pull] at hb
  unfold close
  split
  · rename_i pos hfile
    rw [hfile] at hb
    exact ⟨hb.returned _ fun _ => rfl, fun _ => rfl⟩
  · rename_i hfile
    have hheld : (DataEventHandler.pull { h with mClosed := true }).held = none := by
      simp [hfile]
    rw [hfile] at hb
    refine ⟨?_, fun _ => hheld⟩
    rw [hheld]
    exact hb

theorem fail_booked {h : PullFileEventHandler} (err : Bytes) {io : Io}
    (hb : Holding (DataEventHandler.pull h).held (ledger io.trace)) :
    Booked (.pull (h.fail err io).1) (h.fail err io).2 := by
  apply close_booked
  have herror : Unbooked io (h.pullError err io) := wrote_unbooked (writeString_wrote _ io)
  rw [herror.ledger]
  exact hb

theorem sendHeader_booked {h : PullFileEventHandler} (includeHeader : Bool) {io : Io}
    (hb : Booked (.pull h) io) :
    Booked (.pull (h.sendHeader includeHeader io).1) (h.sendHeader includeHeader io).2 := by
  unfold sendHeader
  split
  · exact hb
  · have hsent := hb.unbooked (wrote_unbooked (writeString_wrote
      (h.mPath ++ str "," ++ itoa h.mSize.toNat ++ endl) io)) rfl rfl
    dsimp only
    split
    · exact close_booked hsent.holding
    · exact hsent

theorem seek_booked {h : PullFileEventHandler} (start : UInt64) (includeHeader : Bool) {io : Io}
    (hb : Booked (.pull h) io) (hfile : h.mFile = some 0) :
    Booked (.pull (h.seek start includeHeader io).1) (h.seek start includeHeader io).2 := by
  unfold seek
  split
  · dsimp only
    split
    · apply sendHeader_booked
      refine hb.unbooked ⟨[], by simp, by simp⟩ ?_ rfl
      simp [hfile]
    · exact fail_booked _ hb.holding
  · exact sendHeader_booked includeHeader hb

theorem selectRange_booked {h : PullFileEventHandler} (start : UInt64) (includeHeader : Bool)
    {io : Io} (hb : Booked (.pull h) io) (hfile : h.mFile = some 0) :
    Booked (.pull (h.selectRange start includeHeader io).1)
      (h.selectRange start includeHeader io).2 := by
  have hinfo : Unbooked io ((io.setOs io.os.openFileSize.2).log
      (.fileInfo h.mPath io.os.openFileSize.1)) :=
    ⟨[.fileInfo h.mPath io.os.openFileSize.1], rfl, by simp [Ledger.enter]⟩
  have hb' := hb.unbooked hinfo rfl rfl
  unfold selectRange
  dsimp only
  split
  · exact fail_booked _ hb'.holding
  · rename_i fileSize _
    have hfit := h.fitRange_file fileSize start
    have hsame : (h.fitRange fileSize start).2.mPath = h.mPath ∧
        (h.fitRange fileSize start).2.mClosed = h.mClosed := by
      unfold fitRange
      split
      · exact ⟨rfl, rfl⟩
      · split <;> exact ⟨rfl, rfl⟩
    refine seek_booked _ _ (hb'.unbooked (.refl _) ?_ hsame.2) (hfit.trans hfile)
    simp [hfit, hsame.1]

theorem new_booked (path : Bytes) (start size : UInt64) (includeHeader : Bool) {io : Io}
    (hempty : ledger io.trace = {}) :
    Booked (.pull (new path start size includeHeader io).1)
      (new path start size includeHeader io).2 := by
  have hnone := holding_of_empty hempty
  unfold new
  dsimp only
  split
  · exact fail_booked _ hnone
  · split
    · exact fail_booked _ hnone
    · split
      · rename_i hfailed
        rw [Bool.not_eq_true'] at hfailed
        apply fail_booked
        rw [hfailed]
        exact (unbooked_log io (e := .openRead path false) fun _ => rfl).ledger ▸ hnone
      · rename_i hok
        rw [Bool.not_eq_true', Bool.not_eq_false] at hok
        apply selectRange_booked
        · rw [hok]
          exact ⟨holding_opened hempty (.openRead path true) fun _ => rfl, nofun⟩
        · rfl

theorem sendBlock_booked {h : PullFileEventHandler} {pos : Nat} {io : Io}
    (hb : Booked (.pull h) io) (hfile : h.mFile = some pos) :
    Booked (.pull (h.sendBlock pos io).1) (h.sendBlock pos io).2 := by
  have hread : Unbooked io ((io.setOs (io.os.read h.mPath pos h.nextBlock).2).log
      (.readFile h.mPath pos h.nextBlock (io.os.read h.mPath pos h.nextBlock).1)) :=
    ⟨[_], rfl, by simp [Ledger.enter]⟩
  have hb' := hb.unbooked hread rfl rfl
  unfold sendBlock
  dsimp only
  split
  · exact close_booked hb'.holding
  · exact close_booked hb'.holding
  · refine hb'.unbooked (wrote_unbooked (write_wrote (by simp) _)) ?_ rfl
    simp [hfile]

/-- One event of an open pull. -/
theorem handleEvent_booked {h h' : PullFileEventHandler} {desc : PollDesc} {io io' : Io}
    (hb : Booked (.pull h) io) (hrun : h.handleEvent desc io = .ok h' io') :
    Booked (.pull h') io' := by
  have hspec : Ensures (handleEvent desc h) io (fun h' io' => Booked (.pull h') io')
      (fun _ _ => True) := by
    unfold handleEvent
    rw [ensures_bind, ensures_get]
    split
    · exact hb
    · split
      · exact hb
      · split
        · trivial
        · rename_i pos hfile
          have hblock := sendBlock_booked hb hfile
          rw [ensures_bind, ensures_modifyGet]
          split
          · rw [ensures_modifyGet]
            exact close_booked hblock.holding
          · exact hblock
  exact (ensures_ok hrun).mp hspec

end PullFileEventHandler

/-! ### Pushes -/

namespace PushFileEventHandler

theorem close_booked {h : PushFileEventHandler} {io : Io}
    (hb : Holding (DataEventHandler.push h).held (ledger io.trace)) :
    Booked (.push (h.close io).1) (h.close io).2 := by
  rw [held_push] at hb
  unfold close
  split
  · rename_i hfile
    rw [if_pos hfile] at hb
    exact ⟨hb.returned _ fun _ => rfl, fun _ => rfl⟩
  · rename_i hfile
    have hheld : (DataEventHandler.push { h with mClosed := true }).held = none := if_neg hfile
    rw [if_neg hfile] at hb
    refine ⟨?_, fun _ => hheld⟩
    rw [hheld]
    exact hb

theorem new_booked (path : Bytes) (size : UInt64) {io : Io} (hempty : ledger io.trace = {}) :
    Booked (.push (new path size io).1) (new path size io).2 := by
  unfold new
  dsimp only
  split
  · rename_i hok
    rw [hok]
    exact ⟨holding_opened hempty (.openWrite path true) fun _ => rfl, nofun⟩
  · rename_i hfailed
    rw [Bool.not_eq_true] at hfailed
    rw [hfailed]
    apply close_booked
    rw [(wrote_unbooked (writeString_wrote _ _)).ledger]
    exact (unbooked_log io (e := .openWrite path false) fun _ => rfl).ledger ▸
      holding_of_empty hempty

theorem store_unbooked (h : PushFileEventHandler) (bs : Bytes) (b : ReadBuffer) (io : Io) :
    Unbooked io (h.store bs ((io.setBuffer b).log (.read bs))).2 := by
  have hread := unbooked_log (io.setBuffer b) (e := .read bs) fun _ => rfl
  have hwrite := unbooked_log (((io.setBuffer b).log (.read bs)).setOs (io.os.write bs.length).2)
    (e := .writeFile bs (io.os.write bs.length).1) fun _ => rfl
  exact (show Unbooked io _ from hread).trans hwrite

theorem PushStep.booked {s s' : PushFileEventHandler × Io} (h : PushStep s s')
    (hb : Booked (.push s.1) s.2) : Booked (.push s'.1) s'.2 := by
  cases h with
  | recv h io io' hopen hstep => exact hb.unbooked (recvStep_unbooked hstep) rfl rfl
  | chunk h io bs b => exact hb.unbooked (store_unbooked h bs b io) rfl rfl
  | finish h io =>
      have hhash : Unbooked (h.close io).2 ((h.close io).2.setOs
          { (h.close io).2.os with toSystem := (fileHash (h.close io).2.os.toSystem).2 }) :=
        ⟨[], (List.append_nil _).symm, by simp⟩
      exact (close_booked hb.holding).unbooked
        (hhash.trans (wrote_unbooked (writeString_wrote _ _))) rfl rfl

theorem PushStep.unreleased {s s' : PushFileEventHandler × Io} (h : PushStep s s') :
    Unreleased s.2 s'.2 := by
  cases h with
  | recv h io io' hopen hstep => exact (recvStep_unbooked hstep).unreleased
  | chunk h io bs b => exact (store_unbooked h bs b io).unreleased
  | finish h io => exact frame_unreleased (h.finish_frame io)

end PushFileEventHandler

/-! ### Children -/

namespace SubprocessEventHandler

theorem close_booked {h : SubprocessEventHandler} {io : Io} (hp : h.mP = true)
    (hb : Holding (some .pipe) (ledger io.trace)) :
    Booked (.subprocess (h.close io).1) (h.close io).2 := by
  rw [close_eq hp]
  have hheld : (DataEventHandler.subprocess { h with mClosed := true }).held = none := by simp
  refine ⟨?_, fun _ => hheld⟩
  rw [hheld, (wrote_unbooked (writeString_wrote _ _)).ledger]
  exact hb.returned (.pclose io.os.pclose.1) fun _ => rfl

theorem new_booked (P : Platform) {cmdLine : Bytes} {env : List (Bytes × Bytes)} {io io' : Io}
    {h : SubprocessEventHandler} (hempty : ledger io.trace = {})
    (hnew : new P cmdLine env io = (h, io')) (hopen : h.mClosed = false) :
    Booked (.subprocess h) io' := by
  obtain ⟨os, vars, ok, -, heq⟩ := new_spec P cmdLine env io
  obtain ⟨rfl, rfl⟩ := Prod.mk.inj (hnew.symm.trans heq)
  obtain rfl : ok = true := by simpa using hopen
  exact ⟨holding_opened hempty (.popen cmdLine vars true) fun _ => rfl, nofun⟩

/-- Without a child nothing is opened. -/
theorem new_unbooked (P : Platform) {cmdLine : Bytes} {env : List (Bytes × Bytes)} {io io' : Io}
    {h : SubprocessEventHandler} (hnew : new P cmdLine env io = (h, io'))
    (hclosed : h.mClosed = true) : Unbooked io io' := by
  obtain ⟨os, vars, ok, -, heq⟩ := new_spec P cmdLine env io
  obtain ⟨rfl, rfl⟩ := Prod.mk.inj (hnew.symm.trans heq)
  obtain rfl : ok = false := by simpa using hclosed
  exact ⟨[.popen cmdLine vars false], rfl, by simp [Ledger.enter]⟩

theorem tick_booked (P : Platform) {h : SubprocessEventHandler} {io : Io} (hp : h.mP = true)
    (hopen : h.mClosed = false) (hb : Booked (.subprocess h) io) :
    Booked (.subprocess (h.tick P io).1) (h.tick P io).2 := by
  have hpipe : Holding (some .pipe) (ledger io.trace) := by
    have hholding := hb.holding
    rwa [held_subprocess, hp, hopen] at hholding
  have hpoll : Booked (.subprocess (h.poll io).1) (h.poll io).2 := by
    unfold poll
    dsimp only
    split
    · apply close_booked hp
      have herror := unbooked_log (io.setOs io.os.pipe.2) (e := .pipeError) fun _ => rfl
      rw [(wrote_unbooked (writeString_wrote _ _)).ledger, herror.ledger]
      exact hpipe
    · rename_i b bs _
      have hgot := unbooked_log (io.setOs io.os.pipe.2) (e := .pipe ((b :: bs).take bufferSize))
        fun _ => rfl
      exact hb.unbooked ((show Unbooked io _ from hgot).trans
        (wrote_unbooked (write_wrote (Nat.le_refl _) _))) rfl rfl
    · exact close_booked hp hpipe
    · exact hb.unbooked ⟨[], by simp, by simp⟩ rfl rfl
  refine hpoll.unbooked ⟨[], ?_, by simp⟩ rfl rfl
  rw [List.append_nil]
  exact (tick_trace P h io).1

theorem close_unreleased {h : SubprocessEventHandler} (hp : h.mP = true) (io : Io) :
    Unreleased io (h.close io).2 := by
  have hlog := unreleased_log (io.setOs io.os.pclose.2) (e := .pclose io.os.pclose.1) nofun
  rw [close_eq hp]
  exact (show Unreleased io _ from hlog).trans (wrote_unbooked (writeString_wrote _ _)).unreleased

theorem tick_unreleased (P : Platform) {h : SubprocessEventHandler} (hp : h.mP = true) (io : Io) :
    Unreleased io (h.tick P io).2 := by
  have hpoll : Unreleased io (h.poll io).2 := by
    unfold poll
    dsimp only
    split
    · have herror := unreleased_log (io.setOs io.os.pipe.2) (e := .pipeError) nofun
      have hwarned := (show Unreleased io _ from herror).trans
        (wrote_unbooked (writeString_wrote readError _)).unreleased
      exact hwarned.trans (close_unreleased hp _)
    · rename_i b bs _
      have hgot := unreleased_log (io.setOs io.os.pipe.2)
        (e := .pipe ((b :: bs).take bufferSize)) nofun
      exact (show Unreleased io _ from hgot).trans
        (wrote_unbooked (write_wrote (Nat.le_refl _) _)).unreleased
    · exact close_unreleased hp (io.setOs io.os.pipe.2)
    · exact .refl io
  obtain ⟨es, htrace, hes⟩ := hpoll
  exact ⟨es, (tick_trace P h io).1.trans htrace, hes⟩

end SubprocessEventHandler

/-! ## The books of a connection -/

namespace CommandEventHandler

open Connection (handling setData released dropped meanwhile)

/-- The books are in order, and empty while no data handler is attached. -/
structure Accounted (c : Connection) : Prop where
  closedOnce : ClosedOnce c.trace
  idle : c.mDataEventHandler = none → ledger c.trace = {}
  data : ∀ h, c.mDataEventHandler = some h → Booked h c.io

theorem Accounted.unbooked {c c' : Connection} (h : Accounted c) (hio : Unbooked c.io c'.io)
    (hdata : c'.mDataEventHandler = c.mDataEventHandler) : Accounted c' where
  closedOnce := hio.unreleased.closedOnce h.closedOnce
  idle := fun hidle => hio.ledger.trans (h.idle (hdata ▸ hidle))
  data := fun _ hsome => (h.data _ (hdata ▸ hsome)).unbooked hio rfl rfl

theorem writePrompt_unbooked (text : Bytes) (io : Io) : Unbooked io (writePrompt text io) := by
  rcases writePrompt_cases text io with ⟨-, heq⟩ | ⟨-, io', hwrote, heq⟩
  · rw [heq]
    exact .refl io
  · rw [heq]
    exact (wrote_unbooked hwrote).trans (unbooked_log io' fun _ => rfl)

theorem replied_accounted {c : Connection} (h : Accounted c) (result : Bytes) :
    Accounted (replied result c) := by
  refine h.unbooked ?_ (replied_data result c)
  unfold replied
  split
  · exact writePrompt_unbooked _ _
  · exact .refl _

theorem closed_accounted {c : Connection} (h : Accounted c) : Accounted (closed c) :=
  h.unbooked (close_unbooked c.io) rfl

/-- A data handler takes over. -/
theorem attached_accounted {c : Connection} {h : DataEventHandler} {io : Io}
    (hc : ClosedOnce c.trace) (hio : Unreleased c.io io) (hb : Booked h io) :
    Accounted (attached h io c) where
  closedOnce :=
    (unreleased_log io (e := .attach) nofun).closedOnce (hio.closedOnce hc)
  idle := nofun
  data := by
    rintro _ ⟨rfl⟩
    exact hb.unbooked (unbooked_log io fun _ => rfl) rfl rfl

theorem Performed.accounted {P : Platform} {k : LineKind} {c c' : Connection}
    (h : Performed P k c c') (hidle : c.mDataEventHandler = none) (hc : Accounted c) :
    Accounted c' := by
  cases h with
  | empty => exact hc
  | answer c result r s =>
      have hsystem : Accounted (c.setSystem s) := hc.unbooked (.refl c.io) rfl
      exact replied_accounted hsystem r
  | pull c path start size includeHeader h io hnew =>
      have hframe := PullFileEventHandler.new_frame path start size includeHeader c.io
      have hbooked := PullFileEventHandler.new_booked path start size includeHeader (hc.idle hidle)
      rw [hnew] at hframe hbooked
      exact attached_accounted hc.closedOnce (frame_unreleased hframe) hbooked
  | push c path size h io hnew =>
      have hframe := PushFileEventHandler.new_frame path size c.io
      have hbooked := PushFileEventHandler.new_booked path size (hc.idle hidle)
      rw [hnew] at hframe hbooked
      have hopen := unreleased_log (c.io.setOs c.io.os.check.2)
        (e := .openWrite path c.io.os.check.1) nofun
      exact attached_accounted hc.closedOnce
        ((show Unreleased c.io _ from hopen).trans (frame_unreleased hframe)) hbooked
  | exec c args cmdLine env h io hparse hnew hopen =>
      have hbooked := SubprocessEventHandler.new_booked P (hc.idle hidle) hnew hopen
      obtain ⟨os, vars, ok, -, heq⟩ := SubprocessEventHandler.new_spec P cmdLine env c.io
      have hio : Unreleased c.io io := by
        obtain ⟨-, rfl⟩ := Prod.mk.inj (hnew.symm.trans heq)
        refine ⟨[.popen cmdLine vars ok], ?_, by simp⟩
        cases ok <;> rfl
      exact attached_accounted hc.closedOnce hio hbooked
  | noExec c args cmdLine env h io hparse hnew hclosed =>
      have hio : Accounted (c.setIo io) :=
        hc.unbooked (SubprocessEventHandler.new_unbooked P hnew hclosed) rfl
      exact replied_accounted hio _
  | quit c => exact replied_accounted (closed_accounted hc) []
  | noReboot c path contents s =>
      have hlog : Accounted ((c.setSystem s).log (.openRebootFile path false)) :=
        hc.unbooked (unbooked_log c.io fun _ => rfl) rfl
      exact replied_accounted hlog _

theorem handling_unbooked (raw : Bytes) (b : ReadBuffer) (c : Connection) :
    Unbooked c.io (c.handling raw b).io := by
  have hread := unbooked_log (c.io.setBuffer b) (e := .readLine raw) fun _ => rfl
  exact (show Unbooked c.io _ from hread).trans (unbooked_log _ fun _ => rfl)

/-- The work of a call keeps the books in order. -/
theorem Work.accounted {P : Platform} {c c' : Connection} (h : Work P c c') (hs : c.Sound)
    (hc : Accounted c) : Accounted c' := by
  obtain ⟨hstep, hstay⟩ := h
  cases hstep with
  | recv io hopen hstep => exact hc.unbooked (recvStep_unbooked hstep) rfl
  | line c' raw b hopen hidle hraw hget hline =>
      exact hline.accounted hidle (hc.unbooked (handling_unbooked raw b c) rfl)
  | push h h' io hdata hstep =>
      have hbooked := PushFileEventHandler.PushStep.booked hstep (hc.data _ hdata)
      have hio := PushFileEventHandler.PushStep.unreleased hstep
      refine ⟨hio.closedOnce hc.closedOnce, nofun, ?_⟩
      rintro _ ⟨rfl⟩
      exact hbooked
  | pull desc h h' io hdata hopen hrun =>
      have hspec := PullFileEventHandler.handleEvent_spec desc c.io (hs.data _ hdata) hopen
      have hframe := ((ensures_ok hrun).mp hspec).1
      refine ⟨(frame_unreleased hframe).closedOnce hc.closedOnce, nofun, ?_⟩
      rintro _ ⟨rfl⟩
      exact PullFileEventHandler.handleEvent_booked (hc.data _ hdata) hrun
  | release h resumes hopen hdata hclosed =>
      have hb := (hc.data _ hdata).unbooked (writePrompt_unbooked [] c.io) rfl rfl
      have hholding := hb.holding
      rw [hb.empty hclosed] at hholding
      refine ⟨closedOnce_append.mpr ⟨?_, hholding, trivial⟩, ?_, nofun⟩
      · exact (writePrompt_unbooked [] c.io).unreleased.closedOnce hc.closedOnce
      · exact fun _ => ledger_append _ _
  | tick h hdata hopen =>
      have hio := SubprocessEventHandler.tick_unreleased P (hs.data _ hdata) c.io
      refine ⟨hio.closedOnce hc.closedOnce, nofun, ?_⟩
      rintro _ ⟨rfl⟩
      exact SubprocessEventHandler.tick_booked P (hs.data _ hdata) hopen (hc.data _ hdata)
  | eof hrecv =>
      have hidle : c.mDataEventHandler = none := by
        by_contra hdata
        exact absurd (hstay hdata) (by simp [closed])
      rw [dropped_of_idle hidle]
      exact closed_accounted hc
  | wait os timers => exact hc.unbooked (.refl c.io) rfl

theorem accounted_path {P : Platform} {c c' : Connection}
    (hpath : ReflTransGen (Work P) c c') (hs : c.Sound) (hc : Accounted c) : Accounted c' := by
  have hboth := invariant_path (I := fun c => c.Sound ∧ Accounted c)
    (fun c c' h hc => ⟨h.step.sound hc.1, h.accounted hc.1 hc.2⟩) hpath ⟨hs, hc⟩
  exact hboth.2

/-! ## Data handlers left at EOF -/

/-- `handleEvent` is about to drop a data handler. -/
def LeftAtEof (c : Connection) : Prop :=
  c.io.sock.mRecvClosed = true ∧ c.mDataEventHandler.isSome = true

instance (c : Connection) : Decidable (LeftAtEof c) :=
  inferInstanceAs (Decidable (_ ∧ _))

/-- A call of the reactor up to `if (mBufSocket->recvClosed())`, the end of `handleEvent`. -/
def attend (P : Platform) : Act → Call Unit
  | .event flags os => do
      let c ← get
      match getPollDescs c with
      | [] => pure ()
      | desc :: _ =>
          if (desc.report flags).out_flags = {} then pure ()
          else
            let c := c.meanwhile os c.io.timers
            set c
            eventLoop P (desc.report flags) (c.io.backlog + 2)
  | .timeout os => handle P (.timeout os)

/-- No call of the run comes to its end with a data handler attached and the receive side
closed. -/
def NoneLeft (P : Platform) : List Act → Connection → Prop
  | [], _ => True
  | act :: acts, c =>
      (∀ c₁, attend P act c = .ok () c₁ → ¬ LeftAtEof c₁) ∧
        ∀ c', handle P act c = .ok () c' → NoneLeft P acts c'

/-- How a call ends behind the state in which its loop has ended. -/
inductive CallEnds (c₁ : Connection) : Connection → Prop
  | stays (h : ¬ LeftAtEof c₁) : CallEnds c₁ c₁
  | closes (hrecv : c₁.io.sock.mRecvClosed = true) : CallEnds c₁ (closed c₁.dropped)

theorem Rested.notLeft {c : Connection} (hr : Rested c) : ¬ LeftAtEof c := by
  rintro ⟨hrecv, hdata⟩
  rcases hr.recvOpen with hclosed | hopen
  · rw [hr.idle hclosed] at hdata
    cases hdata
  · rw [hopen] at hrecv
    cases hrecv

section

variable {P : Platform} {c : Connection}

theorem event_eq (flags : PollFlags) (os : Os) :
    attend P (.event flags os) c =
      (match getPollDescs c with
      | [] => pure ()
      | desc :: _ =>
          if (desc.report flags).out_flags = {} then pure ()
          else do
            set (c.meanwhile os c.io.timers)
            eventLoop P (desc.report flags) ((c.meanwhile os c.io.timers).io.backlog + 2) :
          Call Unit) c ∧
    handle P (.event flags os) c =
      (match getPollDescs c with
      | [] => pure ()
      | desc :: _ =>
          if (desc.report flags).out_flags = {} then pure ()
          else do
            set (c.meanwhile os c.io.timers)
            handleEvent P (desc.report flags) : Call Unit) c :=
  ⟨rfl, rfl⟩

/-- An event is for the first descriptor, if that is what the connection waits for. -/
theorem event_cases (flags : PollFlags) (os : Os) :
    (attend P (.event flags os) c = .ok () c ∧ handle P (.event flags os) c = .ok () c) ∨
      ∃ desc fuel, fuel = (c.meanwhile os c.io.timers).io.backlog + 2 ∧
        attend P (.event flags os) c = eventLoop P desc fuel (c.meanwhile os c.io.timers) ∧
        handle P (.event flags os) c = handleEvent P desc (c.meanwhile os c.io.timers) := by
  obtain ⟨hattend, hhandle⟩ := event_eq (P := P) (c := c) flags os
  cases hdescs : getPollDescs c with
  | nil =>
      rw [hdescs] at hattend hhandle
      exact .inl ⟨hattend, hhandle⟩
  | cons desc rest =>
      rw [hdescs] at hattend hhandle
      dsimp only at hattend hhandle
      split at hattend
      · rename_i hflags
        rw [if_pos hflags] at hhandle
        exact .inl ⟨hattend, hhandle⟩
      · rename_i hflags
        rw [if_neg hflags] at hhandle
        exact .inr ⟨desc.report flags, _, rfl, hattend, hhandle⟩

/-- A call of the reactor is work, and then the check for EOF. -/
theorem handle_attends (hr : Rested c) (act : Act) :
    Ensures (handle P act) c
      (fun _ c' => ∃ c₁, attend P act c = .ok () c₁ ∧ ReflTransGen (Work P) c c₁ ∧
        (∀ h, c₁.mDataEventHandler = some h → h.closed = false) ∧ CallEnds c₁ c')
      (fun e c' => (∀ c₁, attend P act c ≠ .ok () c₁) ∧
        ∃ c₁, ReflTransGen (Work P) c c₁ ∧ Failing P e c₁ c') := by
  cases act with
  | event flags os =>
      rcases event_cases (P := P) (c := c) flags os with ⟨hattend, hhandle⟩ |
        ⟨desc, fuel, rfl, hattend, hhandle⟩
      · exact (ensures_ok hhandle).mpr ⟨c, hattend, .refl, hr.dataOpen, .stays hr.notLeft⟩
      -- the event comes with its own answers of the system
      · have hwait := wait_work (P := P) hr.toSound os c.io.timers
        have hs := hwait.step.sound hr.toSound
        have hloop := (@eventLoop_leads P _ desc _ hs (Nat.lt_succ_self _)).of_finer
          fun _ _ => Busy.work
        have hevent := handleEvent_eq (P := P) hs.alive desc
        unfold Leads Ensures at hloop
        cases hres : eventLoop P desc ((c.meanwhile os c.io.timers).io.backlog + 2)
            (c.meanwhile os c.io.timers) with
        | ok u c₁ =>
            rw [hres] at hloop
            obtain ⟨hpath, hend⟩ := hloop
            have hs₁ := sound_path (Work.path hpath) hs
            have hrun := hhandle.trans (hevent.trans ((bind_ok hres).trans
              (closeAtEof_eq hs₁.alive)))
            refine (ensures_ok hrun).mpr ⟨c₁, hattend.trans hres, hpath.head hwait,
              hend.dataOpen hs₁, ?_⟩
            split
            · rename_i hrecv
              exact .closes hrecv
            · rename_i hrecv
              exact .stays fun hleft => hrecv hleft.1
        | error e c' =>
            rw [hres] at hloop
            obtain ⟨c₁, hpath, hfail⟩ := hloop
            have hrun := hhandle.trans (hevent.trans (bind_error hres))
            refine (ensures_error hrun).mpr ⟨?_, c₁, hpath.head hwait, hfail⟩
            intro c₂ hok
            rw [hattend, hres] at hok
            cases hok
  | timeout os =>
      have hspec := timeout_leads (P := P) hr os
      unfold Leads Ensures at hspec
      cases hres : handle P (.timeout os) c with
      | ok u c' =>
          rw [hres] at hspec
          obtain ⟨hpath, -, hr'⟩ := hspec
          exact (ensures_ok hres).mpr ⟨c', hres, hpath, hr'.dataOpen, .stays hr'.notLeft⟩
      | error e c' =>
          rw [hres] at hspec
          refine (ensures_error hres).mpr ⟨?_, hspec⟩
          intro c₁ hok
          exact nomatch hres.symm.trans hok

/-! ## The runs in which everything is closed -/

theorem stopped_unbooked (c : Connection) : Unbooked c.io (stopped c).io :=
  ((close_unbooked c.io).trans (close_unbooked _)).trans (unbooked_log _ fun _ => rfl)

theorem failed_unbooked {k : LineKind} {e : Fault} {c c' : Connection} (h : Failed k c e c') :
    Unbooked c.io c'.io := by
  cases h with
  | crash _ x s => exact .refl c.io
  | reboot => exact stopped_unbooked c
  | rebootCallback _ path contents s =>
      have hfile := unbooked_log c.io (e := .openRebootFile path true) fun _ => rfl
      have hwrite := unbooked_log (c.io.log (.openRebootFile path true))
        (e := .writeRebootFile contents) fun _ => rfl
      exact (hfile.trans hwrite).trans (stopped_unbooked
        (((c.setSystem s).log (.openRebootFile path true)).log (.writeRebootFile contents)))

/-- A failing call adds nothing to the books. -/
theorem Failing.unbooked {e : Fault} {c' : Connection} (h : Failing P e c c') :
    Unbooked c.io c'.io := by
  cases h with
  | overlong => exact .refl c.io
  | noData => exact .refl c.io
  | line _ _ raw b _ hopen hidle hraw hget hline =>
      exact (handling_unbooked raw b c).trans (failed_unbooked hline)

/-- A run only adds to the trace. -/
theorem run_trace (hr : Rested c) (acts : List Act) :
    Ensures (run P acts) c (fun _ c' => c.trace <+: c'.trace) (fun _ c' => c.trace <+: c'.trace) := by
  have hpath : ∀ c', ReflTransGen (Step P) c c' → c.trace <+: c'.trace := by
    intro c' hpath
    have hboth := invariant_path (I := fun c' => c'.Sound ∧ c.trace <+: c'.trace)
      (fun c₁ c₂ h hc => ⟨h.sound hc.1, hc.2.trans (h.trace_grows hc.1)⟩) hpath
      ⟨hr.toSound, List.prefix_rfl⟩
    exact hboth.2
  refine Ensures.mono (run_leads hr acts) (fun _ c' h => hpath c' h.1) ?_
  rintro e c' ⟨c₁, hsteps, hfail⟩
  exact (hpath c₁ hsteps).trans hfail.unbooked.trace_grows

/-- What is left at EOF is never closed. -/
theorem dropped_not_closed {c₁ : Connection} (hs : c₁.Sound) (hc : Accounted c₁)
    (hopen : ∀ h, c₁.mDataEventHandler = some h → h.closed = false) (hleft : LeftAtEof c₁) :
    ¬ ClosedOnce c₁.dropped.trace := by
  obtain ⟨-, hdata⟩ := hleft
  obtain ⟨h, hdata⟩ := Option.isSome_iff_exists.mp hdata
  obtain ⟨r, hheld⟩ := (hs.data h hdata).holds (hopen h hdata)
  have hholding := (hc.data h hdata).holding
  rw [hheld] at hholding
  have hledger : ledger c₁.trace = ⟨[r], []⟩ := hholding
  rw [dropped_of_busy hdata]
  intro hclosed
  have hlast := (closedOnce_append.mp (show ClosedOnce (c₁.trace ++ [.release false]) from
    hclosed)).2
  rw [hledger] at hlast
  cases hlast.1

theorem noneLeft_cons {act : Act} {acts : List Act} {c₁ c' : Connection}
    (hattend : attend P act c = .ok () c₁) (hhandle : handle P act c = .ok () c') :
    NoneLeft P (act :: acts) c ↔ ¬ LeftAtEof c₁ ∧ NoneLeft P acts c' := by
  constructor
  · rintro ⟨hleft, hrest⟩
    exact ⟨hleft c₁ hattend, hrest c' hhandle⟩
  · rintro ⟨hleft, hrest⟩
    refine ⟨?_, ?_⟩
    · intro c₂ hattend'
      obtain ⟨-, rfl⟩ : () = () ∧ c₁ = c₂ := by simpa using hattend.symm.trans hattend'
      exact hleft
    · intro c₂ hhandle'
      obtain ⟨-, rfl⟩ : () = () ∧ c' = c₂ := by simpa using hhandle.symm.trans hhandle'
      exact hrest

theorem run_closes (hr : Rested c) (hc : Accounted c) (acts : List Act) :
    Ensures (run P acts) c (fun _ c' => ClosedOnce c'.trace ↔ NoneLeft P acts c)
      (fun _ c' => ClosedOnce c'.trace ↔ NoneLeft P acts c) := by
  induction acts generalizing c with
  | nil => exact iff_of_true hc.closedOnce trivial
  | cons act acts ih =>
      have hspec := (handle_attends (P := P) hr act).and (handle_leads hr act)
      unfold Ensures at hspec
      cases hhandle : handle P act c with
      | error e c' =>
          rw [hhandle] at hspec
          obtain ⟨⟨hnot, c₁, hpath, hfail⟩, -⟩ := hspec
          -- the agent has crashed or is rebooting: nothing has been left behind by then
          refine (ensures_error (bind_error hhandle)).mpr (iff_of_true ?_ ?_)
          · have hc₁ := accounted_path hpath hr.toSound hc
            exact hfail.unbooked.unreleased.closedOnce hc₁.closedOnce
          · exact ⟨fun c₁ hok => absurd hok (hnot c₁), fun c₁ hok => nomatch hhandle.symm.trans hok⟩
      | ok u c' =>
          rw [hhandle] at hspec
          obtain ⟨⟨c₁, hattend, hpath, hopen, hends⟩, -, -, hr'⟩ := hspec
          have hs₁ := sound_path (Work.path hpath) hr.toSound
          have hc₁ := accounted_path hpath hr.toSound hc
          have hiff := @noneLeft_cons _ _ _ acts _ _ hattend hhandle
          have hrun : run P (act :: acts) c = run P acts c' := bind_ok hhandle
          unfold Ensures
          rw [hrun, hiff]
          by_cases hleft : LeftAtEof c₁
          · -- the file or pipe of the data handler is left open
            have hnot : ∀ c'' : Connection, c'.trace <+: c''.trace → ¬ ClosedOnce c''.trace := by
              intro c'' hpre hclosed
              have hdropped : c₁.dropped.trace <+: c'.trace := by
                cases hends with
                | stays hstay => exact absurd hleft hstay
                | closes => exact closed_trace c₁.dropped
              exact dropped_not_closed hs₁ hc₁ hopen hleft
                (hclosed.of_prefix (hdropped.trans hpre))
            exact (run_trace hr' acts).mono
              (fun _ c'' hpre => iff_of_false (hnot c'' hpre) fun h => h.1 hleft)
              (fun _ c'' hpre => iff_of_false (hnot c'' hpre) fun h => h.1 hleft)
          -- nothing is left at EOF, and the next call finds all accounts in order
          · have hc' : Accounted c' := by
              cases hends with
              | stays => exact hc₁
              | closes hrecv =>
                  have hidle : c₁.mDataEventHandler = none := by
                    by_contra hdata
                    exact hleft ⟨hrecv, Option.isSome_iff_ne_none.mpr hdata⟩
                  rw [dropped_of_idle hidle]
                  exact closed_accounted hc₁
            exact (ih hr' hc').mono (fun _ _ h => h.trans (by simp [hleft]))
              (fun _ _ h => h.trans (by simp [hleft]))

end

theorem new_accounted (socket : Nat) (os : Os) : Accounted (new socket os) := by
  have hnone : Accounted ({ io := { sock := .new socket, os } } : Connection) :=
    ⟨trivial, fun _ => rfl, nofun⟩
  exact hnone.unbooked (writePrompt_unbooked [] _) rfl

/-- **Files and pipes are closed once**, by the time their data handler is deleted, if and
only if no data handler is left at EOF. -/
theorem files_closed_once_iff (P : Platform) (socket : Nat) (os : Os) (acts : List Act) :
    ClosedOnce (reached P socket os acts).trace ↔ NoneLeft P acts (new socket os) :=
  ensures_reached (Q := fun c => ClosedOnce c.trace ↔ NoneLeft P acts (new socket os))
    (run_closes (new_rested socket os) (new_accounted socket os) acts)

/-- The client sends `pull f` and closes the connection: `f` is never closed. -/
theorem file_left_open :
    let os : Os := { recvs := [.data 112 (str "ull f\n"), .eof], sizes := [some 3] }
    let t := (reached .plain 7 {} [.event { read := true } os]).trace
    .openRead (str "f") true ∈ t ∧ .closeFile (str "f") ∉ t ∧ .release false ∈ t ∧
      ¬ ClosedOnce t := by
  decide +kernel

end CommandEventHandler

end Negatus
