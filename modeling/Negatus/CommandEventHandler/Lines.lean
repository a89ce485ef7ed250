import Negatus.CommandEventHandler

/-!
# What a line does

A line is of one of seven kinds, which its words decide. `Performed` says for
every kind what state `handleLine` leaves behind when it returns, and `Failed`
how it can fail instead.
-/

namespace Negatus

open Foundations BufferedSocket

inductive LineKind where
  | empty
  /-- the shell answers -/
  | answer (result : Sys Bytes)
  | pull (path : Bytes) (start size : UInt64) (includeHeader : Bool)
  | push (path : Bytes) (size : UInt64)
  | exec (args : List Bytes)
  | quit
  | reboot (callback : Option Bytes)

namespace CommandEventHandler

def classify (P : Platform) (cmd : Bytes) (args : List Bytes) : LineKind :=
  if cmd = str "cat" then
    match args with
    | [] => .answer (pure (agentWarnInvalidNumArgs 1))
    | path :: _ => .pull path 0 0 false
  else if cmd = str "exec" ∨ cmd = str "execsu" then
    match args with
    | [] => .answer (pure (agentWarnInvalidNumArgs 1))
    | _ => .exec args
  else if cmd = str "pull" then
    match args with
    | [] => .answer (pure (agentWarnInvalidNumArgs 1))
    | path :: args =>
        match number P args.head?, number P args.tail.head? with
        | some start, some size => .pull path start size true
        | _, _ => .answer (throw .undefined)
  else if cmd = str "push" then
    match args with
    | path :: size :: _ =>
        match P.strtod size with
        | some size => .push path size
        | none => .answer (throw .undefined)
    | _ => .answer (pure (agentWarnInvalidNumArgs 2))
  else if cmd = str "quit" then .quit
  else if cmd = str "rebt" then
    match args with
    | [] => .reboot none
    | [address, port] => .reboot (some (address ++ str " " ++ port ++ str "\n"))
    | _ => .answer (pure (agentWarn (str "Invalid args. Valid options: no args or IP PORT")))
  else
    .answer ((Shell.command P cmd args).getD (pure (agentWarn (str "unknown command"))))

def lineKind (P : Platform) (line : Bytes) : LineKind :=
  let cl := CommandLine.new line
  if cl.cmd = [] then .empty else classify P cl.cmd cl.args

def perform (P : Platform) : LineKind → Call Bytes
  | .empty => pure []
  | .answer result => onSystem result
  | .pull path start size includeHeader => startPull path start size includeHeader
  | .push path size => startPush path size
  | .exec args => launch P args
  | .quit => quit []
  | .reboot callback => rebootWith callback

theorem classify_ne_empty (P : Platform) (cmd : Bytes) (args : List Bytes) :
    classify P cmd args ≠ .empty := by
  unfold classify
  split_ifs
  · cases args <;> simp
  · cases args <;> simp
  · cases args with
    | nil => exact nofun
    | cons path args =>
        dsimp only
        split <;> exact nofun
  · rcases args with _ | ⟨path, _ | ⟨size, rest⟩⟩
    · exact nofun
    · exact nofun
    · dsimp only
      split <;> exact nofun
  · simp
  · rcases args with _ | ⟨address, _ | ⟨port, _ | ⟨more, rest⟩⟩⟩ <;> simp
  · simp

/-- The `if` chain only depends on the kind of the line. -/
theorem dispatch_eq (P : Platform) (cmd : Bytes) (args : List Bytes) :
    dispatch P cmd args = perform P (classify P cmd args) := by
  unfold dispatch classify
  by_cases hcat : cmd = str "cat"
  · simp only [hcat, if_true]
    cases args <;> rfl
  simp only [hcat, if_false]
  by_cases hexec : cmd = str "exec"
  · simp only [hexec, if_true, true_or]
    cases args <;> rfl
  by_cases hexecsu : cmd = str "execsu"
  · simp only [hexecsu, if_true, or_true]
    cases args <;> rfl
  simp only [hexec, hexecsu, if_false, or_false]
  by_cases hpull : cmd = str "pull"
  · simp only [hpull, if_true]
    cases args with
    | nil => rfl
    | cons path args =>
        unfold pull
        dsimp only
        cases number P args.head? with
        | none => rfl
        | some start => cases number P args.tail.head? <;> rfl
  simp only [hpull, if_false]
  by_cases hpush : cmd = str "push"
  · simp only [hpush, if_true]
    rcases args with _ | ⟨path, _ | ⟨size, rest⟩⟩
    · rfl
    · rfl
    · unfold push
      dsimp only
      cases P.strtod size <;> rfl
  simp only [hpush, if_false]
  by_cases hquit : cmd = str "quit"
  · simp only [hquit, if_true]
    rfl
  simp only [hquit, if_false]
  by_cases hrebt : cmd = str "rebt"
  · simp only [hrebt, if_true]
    rcases args with _ | ⟨address, _ | ⟨port, _ | ⟨more, rest⟩⟩⟩ <;> rfl
  simp only [hrebt, if_false]
  cases Shell.command P cmd args <;> rfl

/-! ## The states behind a line -/

def replied (result : Bytes) (c : Connection) : Connection :=
  if !c.io.sock.mSendClosed && c.mDataEventHandler.isNone then
    c.setIo (writePrompt (result ++ endl) c.io)
  else c

@[simp] theorem replied_data (result : Bytes) (c : Connection) :
    (replied result c).mDataEventHandler = c.mDataEventHandler := by
  unfold replied
  split <;> rfl

@[simp] theorem replied_closed (result : Bytes) (c : Connection) :
    (replied result c).mClosed = c.mClosed := by
  unfold replied
  split <;> rfl

@[simp] theorem replied_deleted (result : Bytes) (c : Connection) :
    (replied result c).deleted = c.deleted := by
  unfold replied
  split <;> rfl

def attached (h : DataEventHandler) (io : Io) (c : Connection) : Connection :=
  { c with io := io.log .attach, mDataEventHandler := some h }

def closed (c : Connection) : Connection :=
  { c with io := BufferedSocket.close c.io, mClosed := true }

/-- The handler after `Reactor::stop()`. -/
def stopped (c : Connection) : Connection :=
  { closed (closed c) with deleted := true }.log .reboot

/-- What a line of a kind leads to when `handleLine` returns. -/
inductive Performed (P : Platform) : LineKind → Connection → Connection → Prop
  | empty (c : Connection) : Performed P .empty c c
  | answer (c : Connection) (result : Sys Bytes) (r : Bytes) (s : System)
      (hresult : result c.io.os.toSystem = .ok r s) :
      Performed P (.answer result) c (replied r (c.setSystem s))
  | pull (c : Connection) (path : Bytes) (start size : UInt64) (includeHeader : Bool)
      (h : PullFileEventHandler) (io : Io)
      (hnew : PullFileEventHandler.new path start size includeHeader c.io = (h, io)) :
      Performed P (.pull path start size includeHeader) c (attached (.pull h) io c)
  | push (c : Connection) (path : Bytes) (size : UInt64) (h : PushFileEventHandler) (io : Io)
      (hnew : PushFileEventHandler.new path size c.io = (h, io)) :
      Performed P (.push path size) c (attached (.push h) io c)
  | exec (c : Connection) (args : List Bytes) (cmdLine : Bytes) (env : List (Bytes × Bytes))
      (h : SubprocessEventHandler) (io : Io) (hparse : parseExec args = .ok (cmdLine, env))
      (hnew : SubprocessEventHandler.new P cmdLine env c.io = (h, io)) (hopen : h.mClosed = false) :
      Performed P (.exec args) c (attached (.subprocess h) io c)
  | noExec (c : Connection) (args : List Bytes) (cmdLine : Bytes) (env : List (Bytes × Bytes))
      (h : SubprocessEventHandler) (io : Io) (hparse : parseExec args = .ok (cmdLine, env))
      (hnew : SubprocessEventHandler.new P cmdLine env c.io = (h, io)) (hclosed : h.mClosed = true) :
      Performed P (.exec args) c
        (replied (agentWarn (str "failed to launch process")) (c.setIo io))
  | quit (c : Connection) : Performed P .quit c (replied [] (closed c))
  | noReboot (c : Connection) (path contents : Bytes) (s : System) :
      Performed P (.reboot (some contents)) c
        (replied (agentWarn (str "Could not write to reboot callback file"))
          ((c.setSystem s).log (.openRebootFile path false)))

/-- How a line of a kind fails: the process goes wrong inside a command, or the
reply is attempted after `Reactor::stop()` has deleted the handler. -/
inductive Failed : LineKind → Connection → Fault → Connection → Prop
  | crash (k : LineKind) (c : Connection) (x : Crash) (s : System) :
      Failed k c (.crash x) (c.setSystem s)
  | reboot (c : Connection) : Failed (.reboot none) c .useAfterFree (stopped c)
  | rebootCallback (c : Connection) (path contents : Bytes) (s : System) :
      Failed (.reboot (some contents)) c .useAfterFree
        (stopped (((c.setSystem s).log (.openRebootFile path true)).log (.writeRebootFile contents)))

section

variable {P : Platform} {c : Connection} {Q : Unit → Connection → Prop}
  {E : Fault → Connection → Prop}

theorem ensures_self {Q : Connection → Connection → Prop} :
    Ensures self c Q E ↔ if c.deleted then E .useAfterFree c else Q c c := by
  unfold self
  rw [ensures_bind, ensures_get]
  split <;> rfl

theorem ensures_reply (result : Bytes) :
    Ensures (reply result) c Q E ↔
      if c.deleted then E .useAfterFree c else Q () (replied result c) := by
  unfold reply replied
  rw [ensures_bind, ensures_self]
  split
  · rfl
  · split <;> rfl

end

theorem replied_attached (result : Bytes) (h : DataEventHandler) (io : Io) (c : Connection) :
    replied result (attached h io c) = attached h io c := by
  unfold replied
  rw [if_neg]
  simp [attached]

theorem ensures_reply_alive {P : Platform} {k : LineKind} {c : Connection} (c' : Connection)
    {result : Bytes} (halive : c'.deleted = false) (h : Performed P k c (replied result c')) :
    Ensures (reply result) c' (fun _ => Performed P k c) (Failed k c) := by
  rw [ensures_reply, halive]
  exact h

theorem launch_spec (P : Platform) {c : Connection} (halive : c.deleted = false)
    (args : List Bytes) :
    Ensures (launch P args >>= reply) c (fun _ => Performed P (.exec args) c)
      (Failed (.exec args) c) := by
  unfold launch
  rw [ensures_bind]
  split
  · rename_i e hparse
    exact .crash _ c e c.io.os.toSystem
  · rename_i cmdLine env hparse
    rw [ensures_bind, ensures_get]
    cases hnew : SubprocessEventHandler.new P cmdLine env c.io with
    | mk h io =>
        dsimp only
        rw [ensures_bind, ensures_set]
        split
        · rename_i hclosed
          exact ensures_reply_alive (c.setIo io) halive
            (.noExec c args cmdLine env h io hparse hnew hclosed)
        · rename_i hopen
          have hrun := Performed.exec (P := P) c args cmdLine env h io hparse hnew (by simpa using hopen)
          rw [← replied_attached []] at hrun
          exact ensures_reply_alive (attached (.subprocess h) io c) halive hrun

theorem reboot_spec {c : Connection} {Q : Unit → Connection → Prop}
    {E : Fault → Connection → Prop} (h : E .useAfterFree (stopped c)) :
    Ensures (reboot >>= reply) c Q E := h

theorem rebootWith_spec (P : Platform) {c : Connection} (halive : c.deleted = false)
    (callback : Option Bytes) :
    Ensures (rebootWith callback >>= reply) c (fun _ => Performed P (.reboot callback) c)
      (Failed (.reboot callback) c) := by
  cases callback with
  | none => exact reboot_spec (.reboot c)
  | some contents =>
      unfold rebootWith
      rw [ensures_bind, ensures_bind, ensures_get]
      split
      · rename_i e hjoin
        exact .crash _ c e c.io.os.toSystem
      · rename_i path hjoin
        rw [ensures_bind, onSystem, ensures_zoom]
        unfold Shell.ask
        rw [ensures_modifyGet, ensures_bind, modifyIo, ensures_modify]
        split
        · rename_i hopened
          rw [hopened]
          exact ensures_bind.mp (reboot_spec (Q := fun _ => Performed P (.reboot (some contents)) c)
            (.rebootCallback c path contents _))
        · rename_i hfailed
          rw [Bool.not_eq_true] at hfailed
          rw [hfailed]
          exact ensures_reply_alive _ halive (.noReboot c path contents _)

theorem perform_spec (P : Platform) {c : Connection} (halive : c.deleted = false) {k : LineKind}
    (hk : k ≠ .empty) :
    Ensures (perform P k >>= reply) c (fun _ => Performed P k c) (Failed k c) := by
  cases k with
  | empty => exact absurd rfl hk
  | answer result =>
      rw [perform, onSystem, ensures_bind, ensures_zoom]
      unfold Ensures
      cases hresult : result c.io.os.toSystem with
      | ok r s => exact ensures_reply_alive _ halive (.answer c result r s hresult)
      | error e s => exact .crash _ c e s
  | pull path start size includeHeader =>
      cases hnew : PullFileEventHandler.new path start size includeHeader c.io with
      | mk h io =>
          have hrun := Performed.pull (P := P) c path start size includeHeader h io hnew
          rw [← replied_attached []] at hrun
          unfold perform startPull
          rw [ensures_bind, ensures_bind, ensures_get, hnew]
          exact ensures_reply_alive (attached (.pull h) io c) halive hrun
  | push path size =>
      cases hnew : PushFileEventHandler.new path size c.io with
      | mk h io =>
          have hrun := Performed.push (P := P) c path size h io hnew
          rw [← replied_attached []] at hrun
          unfold perform startPush
          rw [ensures_bind, ensures_bind, ensures_get, hnew]
          exact ensures_reply_alive (attached (.push h) io c) halive hrun
  | exec args => exact launch_spec P halive args
  | quit => exact ensures_reply_alive (closed c) halive (.quit c)
  | reboot callback => exact rebootWith_spec P halive callback

/-- A line whose words in the log are conversions that take arguments. -/
def LogFails (P : Platform) (line : Bytes) : Prop :=
  (P.logging && P.readsArgument (cstr (str "Recvd line: " ++ line))) = true

section

variable {P : Platform} {c : Connection} {Q : Unit → Connection → Prop}
  {E : Fault → Connection → Prop}

theorem ensures_log (line : Bytes) :
    Ensures (Logger.log P (str "Recvd line: " ++ line)) c Q E ↔
      (LogFails P line → E (.crash .undefined) c) ∧ (¬ LogFails P line → Q () c) := by
  unfold Logger.log LogFails
  split
  · rename_i hfails
    exact ⟨fun h => ⟨fun _ => h, fun hne => absurd hfails hne⟩, fun h => h.1 hfails⟩
  · rename_i hne
    exact ⟨fun h => ⟨fun hfails => absurd hfails hne, fun _ => h⟩, fun h => h.2 hne⟩

/-- Logging changes nothing about the connection. -/
theorem log_within {R : Connection → Connection → Prop} [Std.Refl R] (msg : Bytes) :
    Within R (Logger.log P msg) c := by
  unfold Logger.log
  split
  · exact within_throw
  · exact within_pure

/-- `handleLine` notes the line, logs it and does what it says. -/
theorem ensures_handleLine (line : Bytes) :
    Ensures (handleLine P line) c Q E ↔
      (LogFails P line → E (.crash .undefined) (c.log (.handleLine line))) ∧
        (¬ LogFails P line → (lineKind P line = .empty → Q () (c.log (.handleLine line))) ∧
          (lineKind P line ≠ .empty →
            Ensures (perform P (lineKind P line) >>= reply) (c.log (.handleLine line)) Q E)) := by
  unfold handleLine lineKind
  rw [ensures_bind, modifyIo, ensures_modify, ensures_bind, ensures_log]
  refine and_congr_right' (imp_congr_right fun _ => ?_)
  dsimp only
  split
  · exact ⟨fun h => ⟨fun _ => h, fun hne => absurd rfl hne⟩, fun h => h.1 rfl⟩
  · have hkind := classify_ne_empty P (CommandLine.new line).cmd (CommandLine.new line).args
    rw [dispatch_eq]
    exact ⟨fun h => ⟨fun hempty => absurd hempty hkind, fun _ => h⟩, fun h => h.2 hkind⟩

end

/-- `handleLine` in an idle handler. -/
theorem handleLine_spec (P : Platform) {c : Connection} (halive : c.deleted = false)
    (line : Bytes) :
    Ensures (handleLine P line) c
      (fun _ => Performed P (lineKind P line) (c.log (.handleLine line)))
      (Failed (lineKind P line) (c.log (.handleLine line))) := by
  refine (ensures_handleLine line).mpr ⟨fun _ => .crash _ _ _ c.io.os.toSystem, fun _ => ⟨?_, ?_⟩⟩
  · intro hempty
    rw [hempty]
    exact .empty _
  · exact perform_spec P (c := c.log (.handleLine line)) halive

end CommandEventHandler

end Negatus
