import Negatus.Foundations.Program
import Negatus.DataHandler.Pull
import Negatus.DataHandler.Push
import Negatus.DataHandler.Subprocess
import Negatus.Shell

/-!
# `CommandEventHandler.cpp`

A `Connection` is a `CommandEventHandler` in its surroundings. Its calls read
lines while no data handler is attached, and hand every event and timer to the
data handler otherwise.

`deleted` is a ghost field: `Reactor::stop` sets it when it deletes the handler.
Every read of a member goes through `self`, which fails from then on.
-/

namespace Negatus

open Foundations

/-- `mDataEventHandler`, by the class of the object. -/
inductive DataEventHandler where
  | pull (h : PullFileEventHandler)
  | push (h : PushFileEventHandler)
  | subprocess (h : SubprocessEventHandler)
deriving DecidableEq, Repr

namespace DataEventHandler

def closed : DataEventHandler → Bool
  | .pull h => h.mClosed
  | .push h => h.mClosed
  | .subprocess h => h.mClosed

def getPollDescs (io : Io) : DataEventHandler → List PollDesc
  | .pull _ => PullFileEventHandler.getPollDescs io
  | .push _ => PushFileEventHandler.getPollDescs io
  | .subprocess _ => []

def handleEvent (desc : PollDesc) : DataEventHandler → EStateM Fault Io DataEventHandler
  | .pull h => .pull <$> h.handleEvent desc
  | .push h => .push <$> h.handleEvent desc
  | .subprocess h => pure (.subprocess h)

def handleTimeout (P : Platform) : DataEventHandler → EStateM Fault Io DataEventHandler
  | .pull h => pure (.pull h)
  | .push h => pure (.push h)
  | .subprocess h => .subprocess <$> h.handleTimeout P

end DataEventHandler

structure Connection where
  io : Io
  mDataEventHandler : Option DataEventHandler := none
  mClosed : Bool := false
  deleted : Bool := false

abbrev Call : Type → Type := EStateM Fault Connection

namespace Connection

def unread (c : Connection) : Bytes := c.io.unread

def trace (c : Connection) : List Event := c.io.trace

def setIo (io : Io) (c : Connection) : Connection := { c with io }

def setSystem (s : System) (c : Connection) : Connection :=
  { c with io := { c.io with os := { c.io.os with toSystem := s } } }

def log (c : Connection) (e : Event) : Connection := { c with io := c.io.log e }

end Connection

namespace CommandEventHandler

def mPrompt : Bytes := str "$>"

/-- `write` of a text that ends in the prompt and its NUL. -/
def writePrompt (text : Bytes) (io : Io) : Io :=
  let out := text ++ mPrompt ++ [0]
  let io' := BufferedSocket.write out (wrap32 out.length) io
  if io.sock.mSendClosed then io' else io'.log .prompt

/-- Reading a member of the handler. -/
def self : Call Connection := do
  let c ← get
  if c.deleted then throw .useAfterFree else pure c

def onIo {α : Type} (m : EStateM Fault Io α) : Call α := zoom Connection.io Connection.setIo id m

def onSystem {α : Type} (m : Sys α) : Call α :=
  zoom (fun c => c.io.os.toSystem) Connection.setSystem .crash m

def modifyIo (f : Io → Io) : Call Unit := modify fun c => { c with io := f c.io }

def sendPrompt : Call Unit := modifyIo (writePrompt [])

def close : Call Unit := modify fun c =>
  { c with io := BufferedSocket.close c.io, mClosed := true }

def getPollDescs (c : Connection) : List PollDesc :=
  if c.io.sock.closed then []
  else
    match c.mDataEventHandler with
    | some h => h.getPollDescs c.io
    | none =>
        if c.io.sock.mRecvClosed then [] else [⟨c.io.sock.mSocket, { read := true }, {}⟩]

/-- `delete mDataEventHandler; mDataEventHandler = NULL;` -/
def release (resumes : Bool) : Call Unit := modify fun c =>
  { c with io := c.io.log (.release resumes), mDataEventHandler := none }

def attach (h : DataEventHandler) : Call Unit := modify fun c =>
  { c with io := c.io.log .attach, mDataEventHandler := some h }

/-- Does `handleEvent` go on reading lines behind `checkDataEventHandler`? -/
def resumes (desc : PollDesc) (c : Connection) : Bool :=
  desc.fd = c.io.sock.mSocket && desc.out_flags.read

/-- `if (!mDataEventHandler->closed())`, a call of the data handler. -/
def ifOpen (call : DataEventHandler → EStateM Fault Io DataEventHandler) (h : DataEventHandler) :
    Call DataEventHandler :=
  if h.closed then pure h else onIo (call h)

def checkDataEventHandler (desc : PollDesc) : Call Bool := do
  let c ← self
  match c.mClosed, c.mDataEventHandler with
  | false, some h =>
      let h ← ifOpen (·.handleEvent desc) h
      modify fun c => { c with mDataEventHandler := some h }
      if h.closed then
        sendPrompt
        let c ← self
        release (resumes desc c)
        pure false
      else pure true
  | _, _ => pure false

def handleTimeout (P : Platform) : Call Unit := do
  let c ← self
  match c.mDataEventHandler with
  | none => throw (.crash .nullDeref)    -- `mDataEventHandler->closed()`
  | some h =>
      let h ← ifOpen (·.handleTimeout P) h
      modify fun c => { c with mDataEventHandler := some h }
      if h.closed then
        sendPrompt
        release false
      else pure ()

/-! ## Commands that reach the connection or the reactor -/

/-- `mDataEventHandler = new PullFileEventHandler(..)` -/
def startPull (path : Bytes) (start size : UInt64) (includeHeader : Bool) : Call Bytes := do
  let c ← get
  let (h, io) := PullFileEventHandler.new path start size includeHeader c.io
  set (c.setIo io)
  attach (.pull h)
  pure []

def cat : List Bytes → Call Bytes
  | [] => pure (agentWarnInvalidNumArgs 1)
  | path :: _ => startPull path 0 0 false

/-- An argument that is a number, or zero where it is missing. -/
def number (P : Platform) (arg : Option Bytes) : Option UInt64 := arg.elim (some 0) P.strtod

def pull (P : Platform) : List Bytes → Call Bytes
  | [] => pure (agentWarnInvalidNumArgs 1)
  | path :: args =>
      match number P args.head?, number P args.tail.head? with
      | some start, some size => startPull path start size true
      | _, _ => throw (.crash .undefined)

/-- `mDataEventHandler = new PushFileEventHandler(..)` -/
def startPush (path : Bytes) (size : UInt64) : Call Bytes := do
  let c ← get
  let (h, io) := PushFileEventHandler.new path size c.io
  set (c.setIo io)
  attach (.push h)
  pure []

def push (P : Platform) : List Bytes → Call Bytes
  | path :: size :: _ =>
      match P.strtod size with
      | some size => startPush path size
      | none => throw (.crash .undefined)
  | _ => pure (agentWarnInvalidNumArgs 2)

/-- `exec` with at least one argument. -/
def launch (P : Platform) (args : List Bytes) : Call Bytes :=
  match parseExec args with
  | .error e => throw (.crash e)
  | .ok (cmdLine, env) => do
      let c ← get
      let (h, io) := SubprocessEventHandler.new P cmdLine env c.io
      set (c.setIo io)
      if h.mClosed then pure (agentWarn (str "failed to launch process"))
      else
        attach (.subprocess h)
        pure []

def exec (P : Platform) (args : List Bytes) : Call Bytes :=
  if args = [] then pure (agentWarnInvalidNumArgs 1) else launch P args

def quit (_args : List Bytes) : Call Bytes := do
  close
  pure []

/-- `Reactor::stop()`, as far as it concerns this handler. -/
def stopReactor : Call Unit := do
  close
  modify fun c => { c with deleted := true }

/-- `close(); Reactor::instance()->stop();` and what follows -/
def reboot : Call Bytes := do
  close
  stopReactor
  modifyIo fun io => io.log .reboot
  pure []

/-- `rebt` with the contents of the callback file, if there is to be one. -/
def rebootWith : Option Bytes → Call Bytes
  | none => reboot
  | some contents => do
      let c ← get
      match Shell.joinPaths c.io.os.testRoot (str ".SUTAgent_rebt") with
      | .error e => throw (.crash e)
      | .ok path =>
          let f ← onSystem (Shell.ask System.check)
          modifyIo fun io => io.log (.openRebootFile path f)
          if f then
            modifyIo fun io => io.log (.writeRebootFile contents)
            reboot
          else pure (agentWarn (str "Could not write to reboot callback file"))

def rebt : List Bytes → Call Bytes
  | [] => rebootWith none
  | [address, port] => rebootWith (some (address ++ str " " ++ port ++ str "\n"))
  | _ => pure (agentWarn (str "Invalid args. Valid options: no args or IP PORT"))

/-- The `if` chain of `handleLine`. -/
def dispatch (P : Platform) (cmd : Bytes) (args : List Bytes) : Call Bytes :=
  if cmd = str "cat" then cat args
  else if cmd = str "exec" then exec P args
  else if cmd = str "execsu" then exec P args
  else if cmd = str "pull" then pull P args
  else if cmd = str "push" then push P args
  else if cmd = str "quit" then quit args
  else if cmd = str "rebt" then rebt args
  else
    match Shell.command P cmd args with
    | some result => onSystem result
    | none => pure (agentWarn (str "unknown command"))

/-- The end of `handleLine`: the result with a prompt, in one write. -/
def reply (result : Bytes) : Call Unit := do
  let c ← self
  if !c.io.sock.mSendClosed && c.mDataEventHandler.isNone then
    modifyIo (writePrompt (result ++ endl))
  else pure ()

/-- `Logger::log`: the message is the format of `PR_LogPrint`, and there are no arguments. -/
def Logger.log (P : Platform) (msg : Bytes) : Call Unit :=
  if P.logging && P.readsArgument (cstr msg) then throw (.crash .undefined) else pure ()

def handleLine (P : Platform) (line : Bytes) : Call Unit := do
  modifyIo fun io => io.log (.handleLine line)
  Logger.log P (str "Recvd line: " ++ line)
  let cl := CommandLine.new line
  if cl.cmd = [] then pure ()
  else
    let result ← dispatch P cl.cmd cl.args
    reply result

/-! ## Events -/

def readLine : Call (Bytes × Int) := fun c =>
  match BufferedSocket.readLine c.io with
  | none => .error (.crash .undefined) c
  | some (raw, numRead, io) => .ok (raw, numRead) (c.setIo io)

/-- `while (!closed() && !mDataEventHandler)`; the result is `noMoreToRead`. -/
def lineLoop (P : Platform) : (fuel : Nat) → Call Bool
  | 0 => throw .outOfFuel
  | fuel + 1 => do
      let c ← self
      if c.mClosed || c.mDataEventHandler.isSome then pure false
      else
        let (raw, numRead) ← readLine
        if numRead = 0 then pure true
        else
          handleLine P (trim raw)
          lineLoop P fuel

/-- `while (!closed())`: every round but the last dispatches a line. -/
def eventLoop (P : Platform) (desc : PollDesc) : (fuel : Nat) → Call Unit
  | 0 => throw .outOfFuel
  | fuel + 1 => do
      let c ← self
      if c.mClosed then pure ()
      else if ← checkDataEventHandler desc then pure ()
      else
        let c ← self
        if !resumes desc c then pure ()
        else
          let noMoreToRead ← lineLoop P (c.io.backlog + 1)
          if noMoreToRead then pure () else eventLoop P desc fuel

/-- The end of `handleEvent`: after EOF the data handler is dropped. -/
def closeAtEof : Call Unit := do
  let c ← self
  if c.io.sock.mRecvClosed then
    if c.mDataEventHandler.isSome then release false
    close
  else pure ()

def handleEvent (P : Platform) (desc : PollDesc) : Call Unit := do
  let c ← self
  eventLoop P desc (c.io.backlog + 2)
  closeAtEof

/-- The constructor: it registers with the reactor and sends the first prompt. -/
def new (socket : Nat) (os : Os) : Connection :=
  { io := writePrompt [] { sock := .new socket, os } }

end CommandEventHandler

end Negatus
