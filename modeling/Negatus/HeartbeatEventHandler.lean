import Negatus.BufferedSocket.Descriptor
import Negatus.Shell

/-!
# `HeartbeatEventHandler.cpp`

A heartbeat sends a line every minute and drops everything that it receives.
-/

namespace Negatus

open Foundations BufferedSocket

structure HeartbeatEventHandler where
  io : Io
  mClosed : Bool := false

namespace HeartbeatEventHandler

def timeout : UInt32 := 60

def close (h : HeartbeatEventHandler) : HeartbeatEventHandler :=
  { h with io := BufferedSocket.close h.io, mClosed := true }

def getPollDescs (h : HeartbeatEventHandler) : List PollDesc :=
  if h.io.sock.closed then []
  else if h.io.sock.mRecvClosed then []
  else [⟨h.io.sock.mSocket, { read := true }, {}⟩]

def timestamp (P : Platform) (s : System) : Bytes × System :=
  let (now, s) := s.prNow
  let ts := P.explodeTime now
  (itoa ts.tm_year ++ Shell.pad 2 ts.tm_month ++ Shell.pad 2 ts.tm_mday ++ str "-" ++
    Shell.pad 2 ts.tm_hour ++ str ":" ++ Shell.pad 2 ts.tm_min ++ str ":" ++ Shell.pad 2 ts.tm_sec, s)

def onSystem {α : Type} (m : Sys α) : EStateM Fault Io α :=
  zoom (fun io => io.os.toSystem) (fun s io => io.setOs { io.os with toSystem := s }) .crash m

/-- `mBufSocket.write(msg.c_str(), msg.size() + 1)` -/
def send (msg : Bytes) (io : Io) : Io :=
  let out := msg ++ [0]
  BufferedSocket.write out (wrap32 out.length) io

def sendThump (P : Platform) : EStateM Fault Io Unit := do
  let stamp ← onSystem (Shell.ask (timestamp P))
  let id ← onSystem Shell.id
  modify (send (stamp ++ str " Thump thump - " ++ id ++ endl))

def sendTraceOutput (P : Platform) (io : Io) : Io :=
  let r := timestamp P io.os.toSystem
  send (r.1 ++ str " trace output" ++ endl) (io.setOs { io.os with toSystem := r.2 })

/-- The constructor: it registers with the reactor first. -/
def new (P : Platform) (socket : Nat) (os : Os) : HeartbeatEventHandler :=
  { io := (sendTraceOutput P { sock := .new socket, os }).setTimeout (P.secondsToInterval timeout) }

/-- The inner loop of `handleEvent`: nothing in it closes the handler. -/
def readLines : (fuel : Nat) → EStateM Fault Io Unit
  | 0 => throw .outOfFuel
  | fuel + 1 => fun io =>
      match readLine io with
      | none => .error (.crash .undefined) io
      | some (_, numRead, io) => if numRead = 0 then .ok () io else readLines fuel io

def onIo {α : Type} (m : EStateM Fault Io α) : EStateM Fault HeartbeatEventHandler α :=
  zoom HeartbeatEventHandler.io (fun io h => { h with io }) id m

/-- The outer loop of `handleEvent` has one round: behind the inner one there is no
more to read. -/
def eventLoop (desc : PollDesc) : EStateM Fault HeartbeatEventHandler Unit := do
  let h ← get
  if h.mClosed || desc.fd ≠ h.io.sock.mSocket || !desc.out_flags.read then pure ()
  else onIo (readLines (h.io.backlog + 1))

def handleEvent (desc : PollDesc) : EStateM Fault HeartbeatEventHandler Unit := do
  eventLoop desc
  let h ← get
  if h.io.sock.mRecvClosed then set h.close else pure ()

def handleTimeout (P : Platform) : EStateM Fault HeartbeatEventHandler Unit := onIo do
  modify (Io.setTimeout (P.secondsToInterval timeout))
  sendThump P

/-! ## What the calls leave behind -/

/-- Control is back in the reactor. -/
def Rested (h : HeartbeatEventHandler) : Prop := h.mClosed = true ∨ h.io.sock.mRecvClosed = false

theorem send_wrote (msg : Bytes) (io : Io) :
    Wrote ((msg ++ [0]).take (wrap32 (msg ++ [0]).length)) io (send msg io) :=
  write_wrote (Nat.mod_le _ _) io

/-- What a write of the constructor or of a timer does not touch. -/
theorem sendTraceOutput_facts (P : Platform) (io : Io) :
    (sendTraceOutput P io).sock.mRecvClosed = io.sock.mRecvClosed ∧
      (sendTraceOutput P io).timers = io.timers := by
  unfold sendTraceOutput
  dsimp only
  generalize (timestamp P io.os.toSystem).1 ++ str " trace output" ++ endl = msg
  have hwrote := send_wrote msg (io.setOs { io.os with toSystem := (timestamp P io.os.toSystem).2 })
  exact ⟨hwrote.recvClosed, hwrote.timers⟩

theorem new_rested (P : Platform) (socket : Nat) (os : Os) :
    Rested (new P socket os) ∧ (new P socket os).mClosed = false ∧
      (new P socket os).io.timers.length = 1 := by
  obtain ⟨hrecv, htimers⟩ := sendTraceOutput_facts P { sock := .new socket, os }
  unfold new Rested Io.setTimeout
  generalize sendTraceOutput P { sock := .new socket, os } = io at hrecv htimers
  refine ⟨.inr hrecv, rfl, ?_⟩
  dsimp only
  rw [htimers]
  rfl

theorem readLines_ensures {fuel : Nat} {io : Io} (hfuel : io.backlog < fuel) :
    Ensures (readLines fuel) io (fun _ io' => io'.timers = io.timers)
      (fun e io' => e = .crash .undefined ∧ io'.timers = io.timers) := by
  induction fuel generalizing io with
  | zero => omega
  | succ fuel ih =>
      cases hread : readLine io with
      | none =>
          have hrun : readLines (fuel + 1) io = .error (.crash .undefined) io := by
            simp only [readLines, hread]
          exact (ensures_error hrun).mpr ⟨rfl, rfl⟩
      | some r =>
          obtain ⟨raw, numRead, io'⟩ := r
          obtain ⟨io₁, b, hpath, hget, hio', hle⟩ := readLine_spec hread
          have htimers : io'.timers = io.timers := by
            have hdrain := invariant_path (I := fun io₁ => io₁.timers = io.timers)
              (fun _ _ hstep hsame => hstep.timers.trans hsame) hpath rfl
            rw [hio']
            split <;> exact hdrain
          by_cases hzero : numRead = 0
          · have hrun : readLines (fuel + 1) io = .ok () io' := by
              simp only [readLines, hread, if_pos hzero]
            exact (ensures_ok hrun).mpr htimers
          · have hrun : readLines (fuel + 1) io = readLines fuel io' := by
              simp only [readLines, hread, if_neg hzero]
            obtain ⟨-, hlen⟩ := ReadBuffer.getline_unread _ hget
            unfold Ensures
            rw [hrun]
            exact (ih (by omega)).mono (fun _ _ h => h.trans htimers)
              fun _ _ h => ⟨h.1, h.2.trans htimers⟩

theorem handleEvent_ensures (h : HeartbeatEventHandler) (desc : PollDesc) :
    Ensures (handleEvent desc) h
      (fun _ h' => Rested h' ∧ h'.io.timers = h.io.timers ∧ (h'.mClosed = false → h.mClosed = false))
      (fun e h' => e = .crash .undefined ∧ h'.io.timers = h.io.timers) := by
  have hloop : Ensures (eventLoop desc) h
      (fun _ h' => h'.io.timers = h.io.timers ∧ h'.mClosed = h.mClosed)
      (fun e h' => e = .crash .undefined ∧ h'.io.timers = h.io.timers) := by
    unfold eventLoop
    refine ensures_bind.mpr (ensures_get.mpr ?_)
    split
    · exact ⟨rfl, rfl⟩
    · refine ensures_zoom.mpr ((readLines_ensures (Nat.lt_succ_self _)).mono ?_ ?_)
      · exact fun _ _ hsame => ⟨hsame, rfl⟩
      · exact fun _ _ hfail => hfail
  refine Ensures.bind hloop ?_
  · rintro _ h' ⟨hsame, hclosed⟩
    refine ensures_bind.mpr (ensures_get.mpr ?_)
    split
    · refine ⟨.inl rfl, ?_, nofun⟩
      show (BufferedSocket.close h'.io).timers = h.io.timers
      rw [← hsame]
      unfold BufferedSocket.close
      split <;> rfl
    · rename_i hrecv
      exact ⟨.inr (Bool.not_eq_true _ ▸ hrecv), hsame, hclosed ▸ id⟩

theorem handleTimeout_ensures (P : Platform) (h : HeartbeatEventHandler) :
    Ensures (handleTimeout P) h
      (fun _ h' => h'.mClosed = h.mClosed ∧ h'.io.sock.mRecvClosed = h.io.sock.mRecvClosed ∧
        h'.io.timers.length = h.io.timers.length + 1)
      (fun e _ => ∃ x, e = .crash x) := by
  have hsystem : ∀ {α : Type} (m : Sys α) (io : Io),
      Ensures (onSystem m) io
        (fun _ io' => io'.sock = io.sock ∧ io'.timers = io.timers) (fun e _ => ∃ x, e = .crash x) := by
    intro α m io
    refine ensures_zoom.mpr ?_
    unfold Ensures
    split
    · exact ⟨rfl, rfl⟩
    · exact ⟨_, rfl⟩
  unfold handleTimeout onIo
  rw [ensures_zoom, ensures_bind, ensures_modify]
  unfold sendThump
  refine Ensures.bind (hsystem _ _) fun stamp io ⟨hsock, htimers⟩ => ?_
  refine Ensures.bind (hsystem _ _) fun id io' ⟨hsock', htimers'⟩ => ?_
  have hwrote := send_wrote (stamp ++ str " Thump thump - " ++ id ++ endl) io'
  refine ⟨rfl, hwrote.recvClosed.trans (by rw [hsock', hsock]; rfl), ?_⟩
  rw [show (send _ io').timers = io'.timers from hwrote.timers, htimers', htimers]
  exact List.length_append

/-! ## The descriptor of a heartbeat -/

theorem send_lives (msg : Bytes) (io : Io) : Lives io (send msg io) := write_lives _ _ io

theorem sendTraceOutput_lives (P : Platform) (io : Io) : Lives io (sendTraceOutput P io) := by
  unfold sendTraceOutput
  have hstamp : Lives io (io.setOs { io.os with toSystem := (timestamp P io.os.toSystem).2 }) :=
    lives_setOs io rfl
  exact hstamp.trans (send_lives _ _)

theorem new_lives (P : Platform) (socket : Nat) (os : Os) :
    Lives { sock := .new socket, os } (new P socket os).io := by
  have htimer : ∀ (interval : UInt32) (io : Io), Lives io (io.setTimeout interval) :=
    fun _ _ => lives_of_same rfl rfl rfl rfl
  unfold new
  exact (sendTraceOutput_lives P _).trans (htimer _ _)

/-- `Lives` for the socket of a heartbeat. -/
def SocketLives (h h' : HeartbeatEventHandler) : Prop :=
  OwnerLives h.mClosed h.io h'.mClosed h'.io

instance : IsPreorder HeartbeatEventHandler SocketLives where
  refl h := (Std.Refl.refl h.io : Lives h.io h.io).owner h.mClosed
  trans _ _ _ := OwnerLives.trans

theorem readLines_lives (fuel : Nat) (io : Io) : Within Lives (readLines fuel) io := by
  induction fuel generalizing io with
  | zero => exact within_throw
  | succ fuel ih =>
      unfold Within
      cases hread : readLine io with
      | none =>
          have hrun : readLines (fuel + 1) io = .error (.crash .undefined) io := by
            simp only [readLines, hread]
          exact (ensures_error hrun).mpr (Std.Refl.refl io)
      | some r =>
          obtain ⟨raw, numRead, io'⟩ := r
          have hlives := readLine_lives hread
          by_cases hzero : numRead = 0
          · have hrun : readLines (fuel + 1) io = .ok () io' := by
              simp only [readLines, hread, if_pos hzero]
            exact (ensures_ok hrun).mpr hlives
          · have hrun : readLines (fuel + 1) io = readLines fuel io' := by
              simp only [readLines, hread, if_neg hzero]
            unfold Ensures
            rw [hrun]
            exact (ih io').mono (fun _ _ => hlives.trans) fun _ _ => hlives.trans

theorem onIo_lives {α : Type} {m : EStateM Fault Io α} (h : HeartbeatEventHandler)
    (hm : Within Lives m h.io) : Within SocketLives (onIo m) h :=
  within_zoom hm fun _ hio => hio.owner h.mClosed

theorem handleEvent_lives (h : HeartbeatEventHandler) (desc : PollDesc) :
    Within SocketLives (handleEvent desc) h := by
  have hloop : Within SocketLives (eventLoop desc) h := by
    unfold eventLoop
    refine within_get ?_
    split
    · exact within_pure
    · exact onIo_lives h (readLines_lives _ h.io)
  refine Within.bind hloop fun _ h' _ => within_get ?_
  split
  · exact close_owner h'.mClosed h'.io
  · exact within_pure

theorem handleTimeout_lives (P : Platform) (h : HeartbeatEventHandler) :
    Within SocketLives (handleTimeout P) h := by
  have hsystem : ∀ {α : Type} (m : Sys α) (io : Io), Within Lives (onSystem m) io := by
    intro α m io
    refine within_zoom (T := fun _ _ => True) ?_ fun s _ => lives_setOs io rfl
    unfold Within Ensures
    split <;> trivial
  refine onIo_lives h (Within.bind (within_modify (lives_of_same rfl rfl rfl rfl)) fun _ io _ => ?_)
  unfold sendThump
  refine Within.bind (hsystem _ io) fun stamp io _ => ?_
  exact Within.bind (hsystem _ io) fun id io _ => within_modify (send_lives _ io)

end HeartbeatEventHandler

end Negatus
