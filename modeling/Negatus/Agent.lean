import Negatus.CommandEventHandler.Run
import Negatus.HeartbeatEventHandler
import Negatus.Reactor

/-!
# `SUTAgent.cpp` and `SocketAcceptor.cpp`

The world of the reactor: all handlers that have been created, and the answers that
the system has for them. A handler is known by its place in `handlers`. A descriptor
has the number of the handler that owns it, so it stands for one socket even where
NSPR would hand out the same pointer again.

A member function runs on the handler alone, with the answers that are left, and
without timers; the timers that it has set are then set in the reactor. It has called
`Reactor::stop` if it comes back with `deleted`.
-/

namespace Negatus

open Foundations

/-- `EventHandlerFactory`, by the class of what it creates. -/
inductive EventHandlerFactory where
  | command
  | heartbeat
deriving DecidableEq, Repr

structure SocketAcceptor where
  mHandlerFactory : EventHandlerFactory
  mSocket : Option Nat
  mClosed : Bool := false
deriving DecidableEq, Repr

inductive EventHandler where
  | acceptor (h : SocketAcceptor)
  | command (c : Connection)
  | heartbeat (h : HeartbeatEventHandler)

structure Agent where
  os : Os
  handlers : List EventHandler
  /-- what `PR_Poll` will report, descriptor by descriptor -/
  polls : List (List PollFlags) := []
  /-- will `PR_Accept` return a socket, or NULL? -/
  accepts : List Bool := []

namespace SocketAcceptor

def close (h : SocketAcceptor) (os : Os) : SocketAcceptor × Os :=
  match h.mSocket with
  | some fd =>
      ({ h with mSocket := none, mClosed := true },
        (os.note (.shutdown (some fd))).note (.close (some fd)))
  | none => ({ h with mClosed := true }, os)

def getPollDescs (h : SocketAcceptor) : List PollDesc :=
  if h.mSocket.isSome then [⟨h.mSocket, { read := true }, {}⟩] else []

end SocketAcceptor

namespace EventHandler

def closed : EventHandler → Bool
  | .acceptor h => h.mClosed
  | .command c => c.mClosed
  | .heartbeat h => h.mClosed

def getPollDescs : EventHandler → List PollDesc
  | .acceptor h => h.getPollDescs
  | .command c => CommandEventHandler.getPollDescs c
  | .heartbeat h => h.getPollDescs

/-- The handler with the answers that are left, and without timers. -/
def resume (os : Os) (io : Io) : Io := { io with os, timers := [] }

def close (os : Os) : EventHandler → EventHandler × Os
  | .acceptor h =>
      let (h, os) := h.close os
      (.acceptor h, os)
  | .command c =>
      let c := CommandEventHandler.closed (c.setIo (resume os c.io))
      (.command c, c.io.os)
  | .heartbeat h =>
      let h := HeartbeatEventHandler.close { h with io := resume os h.io }
      (.heartbeat h, h.io.os)

end EventHandler

namespace Agent

variable (P : Platform)

def update (k : Nat) (h : EventHandler) (os : Os) (w : Agent) : Agent :=
  { w with handlers := w.handlers.set k h, os }

/-- The timers that a handler has set, as calls of the reactor. -/
def settings (k : Nat) (io : Io) : List ReactorCall :=
  io.timers.map fun t => .setTimeout ⟨t, k, io.os.now⟩

def finish (fault : Option Fault) (w : Agent) (calls : List ReactorCall) : Outcome Agent :=
  match fault with
  | none => .returns w calls
  | some fault => .fails fault w calls

/-- A member function of a connection. -/
def runCommand (k : Nat) (m : Call Unit) (c : Connection) (w : Agent) : Outcome Agent :=
  let leave (fault : Option Fault) (c : Connection) : Outcome Agent :=
    let w := w.update k (.command c) c.io.os
    if c.deleted then .stops w (settings k c.io) fun w => finish fault w []
    else finish fault w (settings k c.io)
  match m (c.setIo (EventHandler.resume w.os c.io)) with
  | .ok _ c => leave none c
  | .error fault c => leave (some fault) c

/-- A member function of a heartbeat. -/
def runHeartbeat (k : Nat) (m : EStateM Fault HeartbeatEventHandler Unit)
    (h : HeartbeatEventHandler) (w : Agent) : Outcome Agent :=
  let leave (fault : Option Fault) (h : HeartbeatEventHandler) : Outcome Agent :=
    finish fault (w.update k (.heartbeat h) h.io.os) (settings k h.io)
  match m { h with io := EventHandler.resume w.os h.io } with
  | .ok _ h => leave none h
  | .error fault h => leave (some fault) h

/-- `createEventHandler`; the constructors register with the reactor first. -/
def createEventHandler (factory : EventHandlerFactory) (socket : Nat) (w : Agent) : Outcome Agent :=
  match factory with
  | .command =>
      let c := CommandEventHandler.new socket w.os
      .returns { w with handlers := w.handlers ++ [.command c], os := c.io.os }
        (.registerHandler w.handlers.length :: settings w.handlers.length c.io)
  | .heartbeat =>
      let h := HeartbeatEventHandler.new P socket w.os
      .returns { w with handlers := w.handlers ++ [.heartbeat h], os := h.io.os }
        (.registerHandler w.handlers.length :: settings w.handlers.length h.io)

/-- `SocketAcceptor::handleEvent`. NSPR reads the methods of a socket from its
descriptor, so `PR_SetSocketOption` does not survive a NULL. -/
def acceptEvent (desc : PollDesc) (h : SocketAcceptor) (w : Agent) : Outcome Agent :=
  if desc.fd ≠ h.mSocket then .returns w []
  else if !desc.out_flags.read then .returns w []
  else
    let ok := w.accepts.headD true
    let newSocket := if ok then some w.handlers.length else none
    let w := { w with
      accepts := w.accepts.tail
      os := (w.os.note (.accept newSocket)).note (.setSocketOption newSocket) }
    match newSocket with
    | none => .fails (.crash .nullDeref) w []
    | some socket => createEventHandler P h.mHandlerFactory socket w

def handleEvent (k : Nat) (desc : PollDesc) (w : Agent) : Outcome Agent :=
  match w.handlers[k]? with
  | some (.acceptor h) => acceptEvent P desc h w
  | some (.command c) => runCommand k (CommandEventHandler.handleEvent P desc) c w
  | some (.heartbeat h) => runHeartbeat k (HeartbeatEventHandler.handleEvent desc) h w
  | none => .returns w []

def handleTimeout (k : Nat) (w : Agent) : Outcome Agent :=
  match w.handlers[k]? with
  | some (.command c) => runCommand k (CommandEventHandler.handleTimeout P) c w
  | some (.heartbeat h) => runHeartbeat k (HeartbeatEventHandler.handleTimeout P) h w
  | some (.acceptor _) | none => .returns w []

/-- The flags of `PR_Poll`, none where it says nothing. -/
def report : List PollDesc → List PollFlags → List PollDesc
  | [], _ => []
  | desc :: descs, flags => desc.report (flags.headD {}) :: report descs flags.tail

/-- The member functions of the agent's handlers. -/
def api : EventHandlers Agent where
  getPollDescs k w := w.handlers[k]?.elim [] EventHandler.getPollDescs
  closed k w := w.handlers[k]?.elim false EventHandler.closed
  close k w :=
    match w.handlers[k]? with
    | some h => w.update k (h.close w.os).1 (h.close w.os).2
    | none => w
  handleEvent := handleEvent P
  handleTimeout := handleTimeout P
  poll descs w := (report descs (w.polls.headD []), { w with polls := w.polls.tail })
  intervalNow w := (w.os.intervalNow.1, { w with os := w.os.intervalNow.2 })
  time w := w.os.now

/-- `setUpAcceptor`, where it succeeds; `main` returns otherwise. -/
def listening (socket : Nat) : List NsprCall :=
  [.openTCPSocket (some socket), .setSocketOption (some socket), .setSocketOption (some socket)]

/-- The reactor when `main` calls `run` for the first time. -/
def start (os : Os) (polls : List (List PollFlags)) (accepts : List Bool) : Reactor Agent where
  world := {
    os := { os with calls := listening 0 ++ listening 1 }
    handlers := [.acceptor ⟨.command, some 0, false⟩, .acceptor ⟨.heartbeat, some 1, false⟩]
    polls
    accepts }
  mEvtHandlers := [0, 1]

end Agent

end Negatus
