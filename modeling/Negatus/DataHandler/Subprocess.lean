import Negatus.BufferedSocket.Steps
import Negatus.Foundations.Program
import Negatus.Strings

/-!
# `SubprocessEventHandler.cpp` and the arguments of `exec`

The child is started in the constructor, in an environment that is changed
around the `popen`. Its output is polled by a timer every 100 ms.
-/

namespace Negatus

open Foundations BufferedSocket

structure SubprocessEventHandler where
  /-- has `popen` returned a pipe? It is not reset by `pclose`. -/
  mP : Bool
  mClosed : Bool
deriving DecidableEq, Repr

namespace SubprocessEventHandler

def pollPeriodMs : UInt32 := 100

def bufferSize : Nat := 1024

/-- The first loop of the constructor: the old values, empty where there was
none, and the changed environment. -/
def setVars (os : Os) : List (Bytes × Bytes) → List Bytes × Os
  | [] => ([], os)
  | (name, value) :: vars =>
      let old := (os.getenv name).getD []
      let (backup, os) := setVars (os.setenv name value) vars
      (old :: backup, os)

/-- The second loop: every variable gets its old value back. -/
def restoreVars (os : Os) : List (Bytes × Bytes) → Os
  | [] => os
  | (name, old) :: vars =>
      restoreVars (if old = [] then os.unsetenv name else os.setenv name old) vars

def close (h : SubprocessEventHandler) (io : Io) : SubprocessEventHandler × Io :=
  if h.mP then
    let (ret, os) := io.os.pclose
    let msg := str "return code [" ++ intStr ret ++ str "]\n"
    ({ h with mClosed := true },
      BufferedSocket.writeString msg ((io.setOs os).log (.pclose ret)))
  else ({ h with mClosed := true }, io)

def new (P : Platform) (cmdLine : Bytes) (env : List (Bytes × Bytes)) (io : Io) :
    SubprocessEventHandler × Io :=
  let (backup, os) := setVars io.os env
  let (ok, os') := os.popen
  let os' := restoreVars os' ((env.map Prod.fst).zip backup)
  let io := (io.setOs os').log (.popen cmdLine os.environ ok)
  if ok then (⟨true, false⟩, io.setTimeout (P.millisecondsToInterval pollPeriodMs))
  else close ⟨false, false⟩ io

/-- One `read` from the pipe, and what it leads to. -/
def poll (h : SubprocessEventHandler) (io : Io) : SubprocessEventHandler × Io :=
  let (r, os) := io.os.pipe
  let io := io.setOs os
  match r with
  | .error =>
      h.close (BufferedSocket.writeString (agentWarn (str "error reading from pipe"))
        (io.log .pipeError))
  | .data b bs =>
      let got := (b :: bs).take bufferSize
      (h, BufferedSocket.write got got.length (io.log (.pipe got)))
  | .eof => h.close io
  | .again => (h, io)

def handleTimeout (P : Platform) (h : SubprocessEventHandler) :
    EStateM Fault Io SubprocessEventHandler :=
  if !h.mP then throw (.crash .nullDeref)
  else do
    let h ← modifyGet h.poll
    if h.mClosed then pure h
    else
      modify (Io.setTimeout (P.millisecondsToInterval pollPeriodMs))
      pure h

/-! ## What the calls do to the connection -/

/-- A timer of an open handler: `poll`, and the next timer if it stays open. -/
def tick (P : Platform) (h : SubprocessEventHandler) (io : Io) : SubprocessEventHandler × Io :=
  let (h, io) := h.poll io
  (h, if h.mClosed then io else io.setTimeout (P.millisecondsToInterval pollPeriodMs))

theorem handleTimeout_eq (P : Platform) {h : SubprocessEventHandler} (hp : h.mP = true) (io : Io) :
    h.handleTimeout P io = .ok (h.tick P io).1 (h.tick P io).2 := by
  unfold handleTimeout tick
  rw [hp]
  show (match h.poll io with
    | (h', io') => ((if h'.mClosed then pure h'
        else do
          modify (Io.setTimeout (P.millisecondsToInterval pollPeriodMs))
          pure h') : EStateM Fault Io SubprocessEventHandler) io') = _
  obtain ⟨h', io'⟩ := h.poll io
  dsimp only
  split <;> rfl

theorem close_pipe (h : SubprocessEventHandler) (io : Io) : (h.close io).1.mP = h.mP := by
  unfold close
  split <;> rfl

/-- What closing does not touch. -/
theorem close_keeps (h : SubprocessEventHandler) (io : Io) :
    (h.close io).2.sock.mRecvClosed = io.sock.mRecvClosed ∧ (h.close io).2.timers = io.timers := by
  unfold close
  split
  · exact ⟨(writeString_wrote _ _).recvClosed, (writeString_wrote _ _).timers⟩
  · exact ⟨rfl, rfl⟩

theorem poll_keeps (h : SubprocessEventHandler) (io : Io) :
    (h.poll io).2.sock.mRecvClosed = io.sock.mRecvClosed ∧ (h.poll io).2.timers = io.timers := by
  unfold poll
  dsimp only
  split
  · obtain ⟨hrecv, htimers⟩ := close_keeps h (BufferedSocket.writeString
      (agentWarn (str "error reading from pipe")) ((io.setOs io.os.pipe.2).log .pipeError))
    exact ⟨hrecv.trans (writeString_wrote _ _).recvClosed,
      htimers.trans (writeString_wrote _ _).timers⟩
  · exact ⟨(write_wrote (Nat.le_refl _) _).recvClosed, (write_wrote (Nat.le_refl _) _).timers⟩
  · exact close_keeps h _
  · exact ⟨rfl, rfl⟩

/-- A timer does not touch the receive side. -/
theorem tick_recvClosed (P : Platform) (h : SubprocessEventHandler) (io : Io) :
    (h.tick P io).2.sock.mRecvClosed = io.sock.mRecvClosed := by
  have hpoll := (poll_keeps h io).1
  unfold tick
  dsimp only
  split <;> exact hpoll

/-- A timer sets the next one, if the handler stays open. -/
theorem tick_timers (P : Platform) (h : SubprocessEventHandler) (io : Io) :
    (h.tick P io).2.timers.length =
      io.timers.length + if (h.tick P io).1.mClosed then 0 else 1 := by
  have hpoll := (poll_keeps h io).2
  unfold tick
  dsimp only
  split
  · rw [hpoll]
    rfl
  · rw [← hpoll]
    exact List.length_append

theorem poll_pipe (h : SubprocessEventHandler) (io : Io) : (h.poll io).1.mP = h.mP := by
  unfold poll
  dsimp only
  split
  · exact close_pipe _ _
  · rfl
  · exact close_pipe _ _
  · rfl

/-! ### The output of a child -/

/-- The line behind the output. -/
def returnCode (ret : Int) : Bytes := str "return code [" ++ intStr ret ++ str "]\n"

def readError : Bytes := agentWarn (str "error reading from pipe")

theorem returnCode_length (i : Int32) : (returnCode i.toInt).length < 2 ^ 32 := by
  have hint := intStr_length i
  have hhead : (str "return code [").length = 13 := by decide
  have htail : (str "]\n").length = 2 := by decide
  unfold returnCode
  rw [List.length_append, List.length_append, hhead, htail]
  omega

theorem returnCode_ne_nil (ret : Int) : returnCode ret ≠ [] := by
  intro h
  have hhead : str "return code [" = [] :=
    (List.append_eq_nil_iff.mp (List.append_eq_nil_iff.mp h).1).1
  exact absurd hhead (by decide)

/-- The calls of `close`. -/
def closing (ret : Int) : List Event :=
  [.pclose ret, .send (returnCode ret) (returnCode ret).length]

/-- What one `poll` does while everything is sent, and whether it closes the handler. -/
inductive Polled : Bool → List Event → Prop
  | again : Polled false []
  | data (got : Bytes) : Polled false [.pipe got, .send got got.length]
  | eof (ret : Int) : Polled true (closing ret)
  | error (ret : Int) :
      Polled true ([.pipeError, .send readError readError.length] ++ closing ret)

/-- Just before the return code is written. -/
def pclosed (io : Io) : Io := (io.setOs io.os.pclose.2).log (.pclose io.os.pclose.1)

theorem close_eq {h : SubprocessEventHandler} (hp : h.mP = true) (io : Io) :
    h.close io = ({ h with mClosed := true },
      BufferedSocket.writeString (returnCode io.os.pclose.1) (pclosed io)) := by
  unfold close
  rw [if_pos hp]
  rfl

theorem close_full {h : SubprocessEventHandler} {io : Io} (hp : h.mP = true)
    (hopen : io.sock.mSendClosed = false) (hfull : FullSends (h.close io).2.trace) :
    (h.close io).1.mClosed = true ∧ (h.close io).2.sock = io.sock ∧
      ∃ ret, (h.close io).2.trace = io.trace ++ closing ret := by
  rw [close_eq hp] at hfull ⊢
  have hopen' : (pclosed io).sock.mSendClosed = false := hopen
  obtain ⟨htrace, hsock⟩ := writeString_full (returnCode_length (io.os.exits.headD 0)) hopen' hfull
  refine ⟨rfl, hsock, io.os.pclose.1, htrace.trans ?_⟩
  have hlog : (pclosed io).trace = io.trace ++ [.pclose io.os.pclose.1] := rfl
  unfold sendAll closing
  rw [if_neg (returnCode_ne_nil _), hlog, List.append_assoc]
  rfl

theorem close_grows {h : SubprocessEventHandler} (hp : h.mP = true) (io : Io) :
    io.trace <+: (h.close io).2.trace := by
  have hlog : io.trace <+: (pclosed io).trace := List.prefix_append _ _
  rw [close_eq hp]
  exact hlog.trans (writeString_frame _ _).trace_grows

theorem poll_full {h : SubprocessEventHandler} {io : Io} (hp : h.mP = true)
    (hrun : h.mClosed = false) (hopen : io.sock.mSendClosed = false)
    (hfull : FullSends (h.poll io).2.trace) :
    (h.poll io).2.sock = io.sock ∧
      ∃ es, (h.poll io).2.trace = io.trace ++ es ∧ Polled (h.poll io).1.mClosed es := by
  unfold poll at hfull ⊢
  dsimp only at hfull ⊢
  split
  · -- an error: the warning, then `close`
    rename_i heq
    rw [heq] at hfull
    let io₁ := (io.setOs io.os.pipe.2).log .pipeError
    have hopen₁ : io₁.sock.mSendClosed = false := hopen
    have hshort : readError.length < 2 ^ 32 := by decide
    obtain ⟨htrace₁, hsock₁⟩ := writeString_full hshort hopen₁ (hfull.of_prefix (close_grows hp _))
    have hopen₂ : (BufferedSocket.writeString readError io₁).sock.mSendClosed = false := by
      rw [hsock₁]
      exact hopen₁
    obtain ⟨hclosed, hsock, ret, htrace⟩ := close_full hp hopen₂ hfull
    have hne : readError ≠ [] := by decide
    have hlog : io₁.trace = io.trace ++ [.pipeError] := rfl
    refine ⟨hsock.trans hsock₁, [.pipeError, .send readError readError.length] ++ closing ret,
      htrace.trans ?_, ?_⟩
    · rw [htrace₁, hlog, sendAll, if_neg hne]
      simp
    · show Polled (h.close (BufferedSocket.writeString readError io₁)).1.mClosed _
      rw [hclosed]
      exact .error ret
  -- a block of output
  · rename_i b bs heq
    rw [heq] at hfull
    let got := (b :: bs).take bufferSize
    let io₁ := (io.setOs io.os.pipe.2).log (.pipe got)
    have hopen₁ : io₁.sock.mSendClosed = false := hopen
    have hwrote := write_wrote (Nat.le_refl got.length) io₁
    rw [List.take_length] at hwrote
    obtain ⟨htrace, hsock⟩ := hwrote.full hopen₁ hfull
    have hne : got ≠ [] := by simp [got, bufferSize]
    have hlog : io₁.trace = io.trace ++ [.pipe got] := rfl
    refine ⟨hsock, [.pipe got, .send got got.length], htrace.trans ?_, ?_⟩
    · rw [hlog, sendAll, if_neg hne, List.append_assoc]
      rfl
    · rw [hrun]
      exact .data got
  · rename_i heq
    rw [heq] at hfull
    have hopen₁ : (io.setOs io.os.pipe.2).sock.mSendClosed = false := hopen
    obtain ⟨hclosed, hsock, ret, htrace⟩ := close_full hp hopen₁ hfull
    refine ⟨hsock, closing ret, htrace, ?_⟩
    rw [hclosed]
    exact .eof ret
  · refine ⟨rfl, [], by simp, ?_⟩
    rw [hrun]
    exact .again

theorem tick_trace (P : Platform) (h : SubprocessEventHandler) (io : Io) :
    (h.tick P io).2.trace = (h.poll io).2.trace ∧ (h.tick P io).2.sock = (h.poll io).2.sock := by
  unfold tick
  dsimp only
  split <;> exact ⟨rfl, rfl⟩

theorem poll_prefix {h : SubprocessEventHandler} (hp : h.mP = true) (io : Io) :
    io.trace <+: (h.poll io).2.trace := by
  unfold poll
  dsimp only
  split
  · have hlog : io.trace <+: ((io.setOs io.os.pipe.2).log .pipeError).trace :=
      List.prefix_append _ _
    exact (hlog.trans (writeString_frame _ _).trace_grows).trans (close_grows hp _)
  · rename_i b bs heq
    let got := (b :: bs).take bufferSize
    have hlog : io.trace <+: ((io.setOs io.os.pipe.2).log (.pipe got)).trace :=
      List.prefix_append _ _
    exact hlog.trans (write_wrote (Nat.le_refl got.length) _).frame.trace_grows
  · exact close_grows hp (io.setOs io.os.pipe.2)
  · exact List.prefix_rfl

theorem tick_prefix (P : Platform) {h : SubprocessEventHandler} (hp : h.mP = true) (io : Io) :
    io.trace <+: (h.tick P io).2.trace := by
  rw [(tick_trace P h io).1]
  exact poll_prefix hp io

/-! ### The constructor -/

theorem setenv_recvs (os : Os) (name value : Bytes) : (os.setenv name value).recvs = os.recvs := by
  unfold Os.setenv
  split <;> rfl

theorem setVars_recvs (os : Os) (env : List (Bytes × Bytes)) :
    (setVars os env).2.recvs = os.recvs := by
  induction env generalizing os with
  | nil => rfl
  | cons var env ih => exact (ih _).trans (setenv_recvs os var.1 var.2)

theorem restoreVars_recvs (os : Os) (vars : List (Bytes × Bytes)) :
    (restoreVars os vars).recvs = os.recvs := by
  induction vars generalizing os with
  | nil => rfl
  | cons var vars ih =>
      rw [restoreVars, ih]
      split
      · rfl
      · exact setenv_recvs os var.1 var.2

/-- The constructor calls `popen`, and arms the timer if there is a child. -/
theorem new_spec (P : Platform) (cmdLine : Bytes) (env : List (Bytes × Bytes)) (io : Io) :
    ∃ os vars ok, os.recvs = io.os.recvs ∧
      new P cmdLine env io =
        (⟨ok, !ok⟩,
          let io' := (io.setOs os).log (.popen cmdLine vars ok)
          if ok then io'.setTimeout (P.millisecondsToInterval pollPeriodMs) else io') := by
  refine ⟨restoreVars (setVars io.os env).2.popen.2 ((env.map Prod.fst).zip (setVars io.os env).1),
    (setVars io.os env).2.environ, (setVars io.os env).2.popen.1,
    (restoreVars_recvs _ _).trans (setVars_recvs io.os env), ?_⟩
  unfold new
  dsimp only
  cases (setVars io.os env).2.popen.1 <;> rfl

end SubprocessEventHandler

/-! ## The arguments of `exec` -/

/-- One `name=value` piece of the environment part. Without a `=` the source
repeats the loop on the same piece for ever. -/
def parseAssignment (env : Bytes) : Except Crash (Bytes × Bytes) :=
  match env.findIdx? (· = 61) with
  | none => .error .hang
  | some pos => .ok (env.take pos, env.drop (pos + 1))

/-- `args[0]` without its double quotes. -/
def unquote (arg : Bytes) : Except Crash Bytes :=
  if arg.head? = some 34 then
    -- `erase(size() - 1)` throws on the empty string
    if arg.tail = [] then .error .exception else .ok arg.tail.dropLast
  else .ok arg

/-- What `exec` passes to `SubprocessEventHandler`: the command line and the
variables with their values. -/
def parseExec : List Bytes → Except Crash (Bytes × List (Bytes × Bytes))
  | [] => .error .undefined
  | arg :: args => do
      let arg ← unquote arg
      if 61 ∈ arg then
        let env ← (strtok (· = 44) arg).mapM parseAssignment
        match args with
        | [] => .error .undefined    -- `*argi` at the end of `args`
        | prog :: rest => .ok (prog ++ rest.flatMap (str " " ++ ·), env)
      else .ok (arg ++ args.flatMap (str " " ++ ·), [])

end Negatus
