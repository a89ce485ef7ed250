import Negatus.CommandEventHandler.Framing
import Negatus.CommandEventHandler.Run

/-!
# Replies can be told apart

A client that splits what it receives at the NULs finds the greeting first and then the
replies, each with its prompt, in the order of its commands. It need not know what the
commands do, as long as the files and the children that the agent passes on are texts.
-/

namespace Negatus

open Foundations BufferedSocket
open CommandEventHandler (mPrompt)

/-! ## Data handlers -/

section

variable {io : Io}

theorem Clean.check (h : Clean io) : Clean (io.setOs io.os.check.2) :=
  h.setOs _ (h.named.of_same rfl rfl)

theorem Clean.setTimeout (h : Clean io) (interval : UInt32) : Clean (io.setTimeout interval) :=
  ⟨h.named, h.framed⟩

end

namespace PullFileEventHandler

variable {h : PullFileEventHandler} {io : Io}

theorem close_clean (hio : Clean io) : Clean (h.close io).2 := by
  unfold close
  split
  · exact hio.log _ rfl
  · exact hio

theorem fail_clean (hio : Clean io) (hpath : IsText h.mPath) {err : Bytes} (herr : IsText err) :
    Clean (h.fail err io).2 := by
  have hwarn : IsText (agentWarn (h.mPath ++ str ",-1")) := agentWarn_text (hpath.append (by decide))
  exact close_clean (hio.writeString (((hwarn.append (by decide)).append herr).append (by decide)))

theorem sendHeader_clean (hio : Clean io) (hpath : IsText h.mPath) (includeHeader : Bool) :
    Clean (h.sendHeader includeHeader io).2 := by
  have hheader : IsText (h.mPath ++ str "," ++ itoa h.mSize.toNat ++ endl) :=
    ((hpath.append (by decide)).append (itoa_text _)).append (by decide)
  unfold sendHeader
  split
  · exact hio
  · dsimp only
    split
    · exact close_clean (hio.writeString hheader)
    · exact hio.writeString hheader

theorem seek_clean (hio : Clean io) (hpath : IsText h.mPath) (start : UInt64)
    (includeHeader : Bool) : Clean (h.seek start includeHeader io).2 := by
  unfold seek
  dsimp only
  split
  · split
    · exact sendHeader_clean (h := { h with mFile := some start.toNat }) hio.check hpath _
    · exact fail_clean hio.check hpath (by decide)
  · exact sendHeader_clean hio hpath _

theorem fitRange_path (h : PullFileEventHandler) (fileSize start : UInt64) :
    (h.fitRange fileSize start).2.mPath = h.mPath := by
  unfold fitRange
  split
  · rfl
  · split <;> rfl

theorem selectRange_clean (hio : Clean io) (hpath : IsText h.mPath) (start : UInt64)
    (includeHeader : Bool) : Clean (h.selectRange start includeHeader io).2 := by
  have hinfo : Clean ((io.setOs io.os.openFileSize.2).log (.fileInfo h.mPath io.os.openFileSize.1)) :=
    (hio.setOs io.os.openFileSize.2 (hio.named.of_same rfl rfl)).log _ rfl
  unfold selectRange
  dsimp only
  split
  · exact fail_clean hinfo hpath (by decide)
  · exact seek_clean hinfo ((h.fitRange_path _ _).symm ▸ hpath) _ _

theorem new_clean (hio : Clean io) {path : Bytes} (hpath : IsText path) (start size : UInt64)
    (includeHeader : Bool) : Clean (new path start size includeHeader io).2 := by
  unfold new
  dsimp only
  split
  · exact fail_clean hio.check hpath (by decide)
  · split
    · exact fail_clean hio.check.check hpath (by decide)
    · have hopened := fun ok => hio.check.check.check.log (.openRead path ok) rfl
      split
      · exact fail_clean (hopened _) hpath (by decide)
      · exact selectRange_clean (h := ⟨path, some 0, 0, size, false⟩) (hopened _) hpath _ _

theorem read_named {os : Os} (h : os.toSystem.Named) (path : Bytes) (pos size : Nat) :
    (os.read path pos size).2.toSystem.Named := by
  unfold Os.read
  dsimp only
  split <;> exact h.of_same rfl rfl

/-- What is read and sent is in the trace before it is sent. -/
theorem sendBlock_clean (hio : Clean io) (h : PullFileEventHandler) (pos : Nat) :
    Clean (h.sendBlock pos io).2 := by
  have hread := (hio.setOs _ (read_named hio.named h.mPath pos h.nextBlock)).log
    (.readFile h.mPath pos h.nextBlock (io.os.read h.mPath pos h.nextBlock).1) rfl
  unfold sendBlock
  dsimp only
  split
  · exact close_clean hread
  · exact close_clean hread
  · rename_i b bs hgot
    refine hread.write (Nat.le_refl _) fun hlegible => ?_
    have htext := hlegible.texts _ (List.mem_append_right _ (List.mem_singleton_self _))
    rw [hgot] at htext
    exact of_decide_eq_true htext

theorem handleEvent_keeps (desc : PollDesc) (h : PullFileEventHandler) :
    Keeps Clean (fun _ => True) (h.handleEvent desc) := by
  unfold handleEvent
  refine (keeps_get fun _ _ => trivial).bind (V := fun _ => True) fun io _ => ?_
  refine Keeps.ite (fun _ => keeps_pure trivial) fun _ => ?_
  refine Keeps.ite (fun _ => keeps_pure trivial) fun _ => ?_
  split
  · exact keeps_throw
  · refine (keeps_modifyGet fun io hio => ⟨sendBlock_clean hio h _, trivial⟩).bind
      (V := fun _ => True) fun h _ => ?_
    refine Keeps.ite (fun _ => ?_) fun _ => keeps_pure trivial
    exact keeps_modifyGet fun io hio => ⟨close_clean hio, trivial⟩

end PullFileEventHandler

namespace PushFileEventHandler

variable {h : PushFileEventHandler} {io : Io}

theorem close_clean (hio : Clean io) : Clean (h.close io).2 := by
  unfold close
  split
  · exact hio.log _ rfl
  · exact hio

theorem new_clean (hio : Clean io) (path : Bytes) (size : UInt64) : Clean (new path size io).2 := by
  have hopened := hio.check.log (.openWrite path io.os.check.1) rfl
  unfold new
  dsimp only
  split
  · exact hopened
  · exact close_clean (hopened.writeString (agentWarn_text (by decide)))

theorem store_clean (hio : Clean io) (h : PushFileEventHandler) (bs : Bytes) :
    Clean (h.store bs io).2 := by
  have hnamed : (io.os.write bs.length).2.toSystem.Named := by
    unfold Os.write
    dsimp only
    split <;> exact hio.named.of_same rfl rfl
  exact (hio.setOs _ hnamed).log _ rfl

/-- The hash is what `md5sum` prints. -/
theorem finish_clean (hio : Clean io) (h : PushFileEventHandler) : Clean (h.finish io).2 := by
  have hclosed : Clean (h.close io).2 := close_clean hio
  obtain ⟨hnamed, hhash⟩ := Shell.fileHash_keeps _ hclosed.named
  have hasked : Clean ((h.close io).2.setOs { (h.close io).2.os with
      toSystem := (fileHash (h.close io).2.os.toSystem).2 }) := hclosed.setOs _ hnamed
  exact hasked.writeString ((IsText.append (by decide) hhash).append (by decide))

theorem copyLoop_keeps (fuel : Nat) (h : PushFileEventHandler) :
    Keeps Clean (fun _ => True) (copyLoop fuel h) := by
  induction fuel generalizing h with
  | zero => exact keeps_throw
  | succ fuel ih =>
      unfold copyLoop
      refine Keeps.ite (fun _ => ?_) fun _ => keeps_pure trivial
      refine (keeps_modifyGet fun io hio => ⟨hio.read _, trivial⟩).bind (V := fun _ => True)
        fun bs _ => ?_
      refine Keeps.ite (fun _ => keeps_pure trivial) fun _ => ?_
      refine Keeps.ite (fun _ => keeps_throw) fun _ => ?_
      exact (keeps_modifyGet fun io hio => ⟨store_clean hio h bs, trivial⟩).bind
        (V := fun _ => True) fun h _ => ih h

theorem handleEvent_keeps (desc : PollDesc) (h : PushFileEventHandler) :
    Keeps Clean (fun _ => True) (h.handleEvent desc) := by
  unfold handleEvent
  refine (keeps_get fun _ _ => trivial).bind (V := fun _ => True) fun io _ => ?_
  refine Keeps.ite (fun _ => keeps_pure trivial) fun _ => ?_
  refine Keeps.ite (fun _ => keeps_pure trivial) fun _ => ?_
  refine (copyLoop_keeps _ h).bind fun h _ => ?_
  refine Keeps.ite (fun _ => ?_) fun _ => keeps_pure trivial
  exact keeps_modifyGet fun io hio => ⟨finish_clean hio h, trivial⟩

end PushFileEventHandler

namespace SubprocessEventHandler

variable {h : SubprocessEventHandler} {io : Io}

theorem close_clean (hio : Clean io) : Clean (h.close io).2 := by
  have hclosed := (hio.setOs io.os.pclose.2 (hio.named.of_same rfl rfl)).log
    (.pclose io.os.pclose.1) rfl
  unfold close
  split
  · exact hclosed.writeString ((IsText.append (by decide) (intStr_text _)).append (by decide))
  · exact hio

theorem setenv_system (os : Os) (name value : Bytes) :
    (os.setenv name value).toSystem = os.toSystem := by
  unfold Os.setenv
  split <;> rfl

theorem setVars_system (os : Os) (env : List (Bytes × Bytes)) :
    (setVars os env).2.toSystem = os.toSystem := by
  induction env generalizing os with
  | nil => rfl
  | cons var env ih => exact (ih _).trans (setenv_system os var.1 var.2)

theorem restoreVars_system (os : Os) (vars : List (Bytes × Bytes)) :
    (restoreVars os vars).toSystem = os.toSystem := by
  induction vars generalizing os with
  | nil => rfl
  | cons var vars ih =>
      rw [restoreVars, ih]
      split
      · rfl
      · exact setenv_system os var.1 var.2

theorem new_clean (hio : Clean io) (P : Platform) (cmdLine : Bytes) (env : List (Bytes × Bytes)) :
    Clean (new P cmdLine env io).2 := by
  have hnamed : (restoreVars (setVars io.os env).2.popen.2
      ((env.map Prod.fst).zip (setVars io.os env).1)).toSystem.Named := by
    rw [restoreVars_system]
    show (setVars io.os env).2.toSystem.Named
    rw [setVars_system]
    exact hio.named
  have hlaunched := (hio.setOs _ hnamed).log
    (.popen cmdLine (setVars io.os env).2.environ (setVars io.os env).2.popen.1) rfl
  unfold new
  dsimp only
  split
  · exact hlaunched.setTimeout _
  · exact close_clean hlaunched

theorem poll_clean (hio : Clean io) (h : SubprocessEventHandler) : Clean (h.poll io).2 := by
  have hpipe : Clean (io.setOs io.os.pipe.2) := hio.setOs _ (hio.named.of_same rfl rfl)
  unfold poll
  dsimp only
  split
  · exact close_clean ((hpipe.log _ rfl).writeString (agentWarn_text (by decide)))
  · rename_i b bs _
    refine (hpipe.log _ rfl).write (Nat.le_refl _) fun hlegible => ?_
    have htext := hlegible.texts (.pipe ((b :: bs).take bufferSize)) (by simp)
    exact of_decide_eq_true htext
  · exact close_clean hpipe
  · exact hpipe

theorem handleTimeout_keeps (P : Platform) (h : SubprocessEventHandler) :
    Keeps Clean (fun _ => True) (h.handleTimeout P) := by
  unfold handleTimeout
  refine Keeps.ite (fun _ => keeps_throw) fun _ => ?_
  refine (keeps_modifyGet fun io hio => ⟨poll_clean hio h, trivial⟩).bind (V := fun _ => True)
    fun h _ => ?_
  refine Keeps.ite (fun _ => keeps_pure trivial) fun _ => ?_
  exact (keeps_modify fun io hio => hio.setTimeout _).bind fun _ _ => keeps_pure trivial

end SubprocessEventHandler

namespace DataEventHandler

theorem handleEvent_keeps (desc : PollDesc) (h : DataEventHandler) :
    Keeps Clean (fun _ => True) (h.handleEvent desc) := by
  cases h with
  | pull h => exact (h.handleEvent_keeps desc).map fun _ => id
  | push h => exact (h.handleEvent_keeps desc).map fun _ => id
  | subprocess h => exact keeps_pure trivial

theorem handleTimeout_keeps (P : Platform) (h : DataEventHandler) :
    Keeps Clean (fun _ => True) (h.handleTimeout P) := by
  cases h with
  | pull h => exact keeps_pure trivial
  | push h => exact keeps_pure trivial
  | subprocess h => exact (h.handleTimeout_keeps P).map fun _ => id

end DataEventHandler

/-! ## The handler -/

namespace CommandEventHandler

/-- `Clean` for a connection. -/
def CleanConnection (c : Connection) : Prop := Clean c.io

section

variable {P : Platform} {α : Type} {V : α → Prop}

theorem self_keeps : Keeps CleanConnection (fun _ => True) self := by
  refine (keeps_get fun _ _ => trivial).bind (V := fun _ => True) fun c _ => ?_
  exact Keeps.ite (fun _ => keeps_throw) fun _ => keeps_pure trivial

theorem onIo_keeps {m : EStateM Fault Io α} (h : Keeps Clean V m) :
    Keeps CleanConnection V (onIo m) :=
  keeps_zoom h (fun _ hc => hc) fun _ _ _ hio => hio

theorem onSystem_keeps {m : Sys α} (h : Keeps System.Named V m) :
    Keeps CleanConnection V (onSystem m) :=
  keeps_zoom h (fun _ hc => hc.named) fun _ _ hc hs => ⟨hs, hc.framed⟩

theorem modifyIo_keeps {f : Io → Io} (h : ∀ io, Clean io → Clean (f io)) :
    Keeps CleanConnection (fun _ => True) (modifyIo f) :=
  keeps_modify fun c hc => h c.io hc

theorem log_keeps (e : Event) (he : e.isMute = true) :
    Keeps CleanConnection (fun _ => True) (modifyIo fun io => io.log e) :=
  modifyIo_keeps fun _ hio => hio.log e he

theorem sendPrompt_keeps : Keeps CleanConnection (fun _ => True) sendPrompt :=
  modifyIo_keeps fun _ hio => hio.writePrompt isText_nil

theorem close_keeps : Keeps CleanConnection (fun _ => True) close :=
  keeps_modify fun _ hc => Clean.close hc

theorem release_keeps (resumes : Bool) :
    Keeps CleanConnection (fun _ => True) (release resumes) :=
  keeps_modify fun _ hc => Clean.log hc _ rfl

theorem attach_keeps (h : DataEventHandler) : Keeps CleanConnection (fun _ => True) (attach h) :=
  keeps_modify fun _ hc => Clean.log hc _ rfl

theorem setData_keeps (h : DataEventHandler) : Keeps CleanConnection (fun _ => True)
    (modify fun c => { c with mDataEventHandler := some h } : Call Unit) :=
  keeps_modify fun _ hc => hc

theorem ifOpen_keeps {call : DataEventHandler → EStateM Fault Io DataEventHandler}
    (hcall : ∀ h, Keeps Clean (fun _ => True) (call h)) (h : DataEventHandler) :
    Keeps CleanConnection (fun _ => True) (ifOpen call h) :=
  Keeps.ite (fun _ => keeps_pure trivial) fun _ => onIo_keeps (hcall h)

theorem checkDataEventHandler_keeps (desc : PollDesc) :
    Keeps CleanConnection (fun _ => True) (checkDataEventHandler desc) := by
  refine self_keeps.bind fun c _ => ?_
  split
  · refine (ifOpen_keeps (fun h => h.handleEvent_keeps desc) _).bind fun h _ => ?_
    refine (setData_keeps h).bind fun _ _ => ?_
    refine Keeps.ite (fun _ => ?_) fun _ => keeps_pure trivial
    refine sendPrompt_keeps.bind fun _ _ => self_keeps.bind fun c _ => ?_
    exact (release_keeps _).bind fun _ _ => keeps_pure trivial
  · exact keeps_pure trivial

theorem handleTimeout_keeps : Keeps CleanConnection (fun _ => True) (handleTimeout P) := by
  refine self_keeps.bind fun c _ => ?_
  split
  · exact keeps_throw
  · refine (ifOpen_keeps (fun h => h.handleTimeout_keeps P) _).bind fun h _ => ?_
    refine (setData_keeps h).bind fun _ _ => ?_
    refine Keeps.ite (fun _ => ?_) fun _ => keeps_pure trivial
    exact sendPrompt_keeps.bind fun _ _ => release_keeps false

/-! ### Commands -/

theorem warning_keeps {errStr : Bytes} (h : IsText errStr) :
    Keeps CleanConnection IsText (pure (agentWarn errStr) : Call Bytes) :=
  keeps_pure (agentWarn_text h)

theorem usage_keeps (n : Nat) :
    Keeps CleanConnection IsText (pure (agentWarnInvalidNumArgs n) : Call Bytes) :=
  onSystem_keeps (Shell.invalidNumArgs_keeps n)

theorem startPull_keeps {path : Bytes} (hpath : IsText path) (start size : UInt64)
    (includeHeader : Bool) :
    Keeps CleanConnection IsText (startPull path start size includeHeader) := by
  intro c hc
  have hnew : CleanConnection (c.setIo (PullFileEventHandler.new path start size includeHeader c.io).2) :=
    PullFileEventHandler.new_clean hc hpath start size includeHeader
  exact ((attach_keeps _).bind fun _ _ => keeps_pure isText_nil) _ hnew

theorem startPush_keeps (path : Bytes) (size : UInt64) :
    Keeps CleanConnection IsText (startPush path size) := by
  intro c hc
  have hnew : CleanConnection (c.setIo (PushFileEventHandler.new path size c.io).2) :=
    PushFileEventHandler.new_clean hc path size
  exact ((attach_keeps _).bind fun _ _ => keeps_pure isText_nil) _ hnew

theorem launch_keeps (args : List Bytes) : Keeps CleanConnection IsText (launch P args) := by
  unfold launch
  split
  · exact keeps_throw
  · rename_i cmdLine env _
    intro c hc
    have hnew : CleanConnection (c.setIo (SubprocessEventHandler.new P cmdLine env c.io).2) :=
      SubprocessEventHandler.new_clean hc P cmdLine env
    refine Keeps.ite (fun _ => warning_keeps (by decide)) (fun _ => ?_) _ hnew
    exact (attach_keeps _).bind fun _ _ => keeps_pure isText_nil

theorem exec_keeps (args : List Bytes) : Keeps CleanConnection IsText (exec P args) :=
  Keeps.ite (fun _ => usage_keeps 1) fun _ => launch_keeps args

theorem reboot_keeps : Keeps CleanConnection IsText reboot := by
  refine close_keeps.bind fun _ _ => ?_
  refine Keeps.bind (V := fun _ => True) ?_ fun _ _ => ?_
  · exact close_keeps.bind fun _ _ => keeps_modify fun _ hc => hc
  · exact (log_keeps _ rfl).bind fun _ _ => keeps_pure isText_nil

theorem rebootWith_keeps (contents : Option Bytes) :
    Keeps CleanConnection IsText (rebootWith contents) := by
  unfold rebootWith
  split
  · exact reboot_keeps
  · refine (keeps_get fun _ _ => trivial).bind (V := fun _ => True) fun c _ => ?_
    split
    · exact keeps_throw
    · refine (onSystem_keeps Shell.check_keeps).bind fun f _ => ?_
      refine (log_keeps _ rfl).bind fun _ _ => ?_
      refine Keeps.ite (fun _ => ?_) fun _ => warning_keeps (by decide)
      exact (log_keeps _ rfl).bind fun _ _ => reboot_keeps

theorem dispatch_keeps (cmd : Bytes) {args : List Bytes} (hargs : ∀ arg ∈ args, IsText arg) :
    Keeps CleanConnection IsText (dispatch P cmd args) := by
  unfold dispatch
  refine Keeps.ite (fun _ => ?_) fun _ => ?_
  · cases args with
    | nil => exact usage_keeps 1
    | cons path args => exact startPull_keeps (hargs path List.mem_cons_self) 0 0 false
  refine Keeps.ite (fun _ => exec_keeps args) fun _ => ?_
  refine Keeps.ite (fun _ => exec_keeps args) fun _ => ?_
  refine Keeps.ite (fun _ => ?_) fun _ => ?_
  · cases args with
    | nil => exact usage_keeps 1
    | cons path args =>
        unfold pull
        dsimp only
        split
        · exact startPull_keeps (hargs path List.mem_cons_self) _ _ true
        · exact keeps_throw
  refine Keeps.ite (fun _ => ?_) fun _ => ?_
  · unfold push
    split
    · split
      · exact startPush_keeps _ _
      · exact keeps_throw
    · exact usage_keeps 2
  refine Keeps.ite (fun _ => close_keeps.bind fun _ _ => keeps_pure isText_nil) fun _ => ?_
  refine Keeps.ite (fun _ => ?_) fun _ => ?_
  · unfold rebt
    split
    · exact rebootWith_keeps none
    · exact rebootWith_keeps _
    · exact warning_keeps (by decide)
  split
  · rename_i result hresult
    exact onSystem_keeps (Shell.command_keeps P cmd hargs result hresult)
  · exact warning_keeps (by decide)

theorem reply_keeps {result : Bytes} (h : IsText result) :
    Keeps CleanConnection (fun _ => True) (reply result) := by
  refine self_keeps.bind fun c _ => Keeps.ite (fun _ => ?_) fun _ => keeps_pure trivial
  exact modifyIo_keeps fun _ hio => hio.writePrompt (h.append (by decide))

theorem logger_keeps (msg : Bytes) :
    Keeps CleanConnection (fun _ => True) (Logger.log P msg) :=
  Keeps.ite (fun _ => keeps_throw) fun _ => keeps_pure trivial

theorem handleLine_keeps (line : Bytes) :
    Keeps CleanConnection (fun _ => True) (handleLine P line) := by
  refine (log_keeps _ rfl).bind fun _ _ => ?_
  refine (logger_keeps _).bind fun _ _ => ?_
  refine Keeps.ite (fun _ => keeps_pure trivial) fun _ => ?_
  refine (dispatch_keeps _ fun arg harg => CommandLine.arg_text harg).bind fun result hresult => ?_
  exact reply_keeps hresult

/-! ### Events -/

theorem readLine_keeps : Keeps CleanConnection (fun _ => True) readLine := by
  intro c hc
  cases hread : BufferedSocket.readLine c.io with
  | none =>
      have hrun : readLine c = .error (.crash .undefined) c := by simp only [readLine, hread]
      exact (ensures_error hrun).mpr trivial
  | some r =>
      obtain ⟨raw, numRead, io⟩ := r
      have hrun : readLine c = .ok (raw, numRead) (c.setIo io) := by simp only [readLine, hread]
      exact (ensures_ok hrun).mpr ⟨Clean.readLine hc hread, trivial⟩

theorem lineLoop_keeps (fuel : Nat) : Keeps CleanConnection (fun _ => True) (lineLoop P fuel) := by
  induction fuel with
  | zero => exact keeps_throw
  | succ fuel ih =>
      refine self_keeps.bind fun c _ => Keeps.ite (fun _ => keeps_pure trivial) fun _ => ?_
      refine readLine_keeps.bind fun r _ => Keeps.ite (fun _ => keeps_pure trivial) fun _ => ?_
      exact (handleLine_keeps _).bind fun _ _ => ih

theorem eventLoop_keeps (desc : PollDesc) (fuel : Nat) :
    Keeps CleanConnection (fun _ => True) (eventLoop P desc fuel) := by
  induction fuel with
  | zero => exact keeps_throw
  | succ fuel ih =>
      refine self_keeps.bind fun c _ => Keeps.ite (fun _ => keeps_pure trivial) fun _ => ?_
      refine (checkDataEventHandler_keeps desc).bind fun busy _ => ?_
      refine Keeps.ite (fun _ => keeps_pure trivial) fun _ => self_keeps.bind fun c _ => ?_
      refine Keeps.ite (fun _ => keeps_pure trivial) fun _ => ?_
      refine (lineLoop_keeps _).bind fun noMoreToRead _ => ?_
      exact Keeps.ite (fun _ => keeps_pure trivial) fun _ => ih

theorem closeAtEof_keeps : Keeps CleanConnection (fun _ => True) closeAtEof := by
  refine self_keeps.bind fun c _ => Keeps.ite (fun _ => ?_) fun _ => keeps_pure trivial
  refine Keeps.ite (fun _ => ?_) fun _ => close_keeps
  exact (release_keeps false).bind fun _ _ => close_keeps

theorem handleEvent_keeps (desc : PollDesc) :
    Keeps CleanConnection (fun _ => True) (handleEvent P desc) :=
  self_keeps.bind fun _ _ => (eventLoop_keeps desc _).bind fun _ _ => closeAtEof_keeps

/-! ## Runs -/

/-- The answers of the system to a call of the reactor. -/
def Act.os : Act → Os
  | .event _ os => os
  | .timeout os => os

/-- What has been sent is framed, as far as it is legible. -/
def FramedConnection (c : Connection) : Prop := Legible c.trace → Framed c.trace

theorem handle_keeps {act : Act} (hnamed : act.os.toSystem.Named) :
    Keeps FramedConnection (fun _ => True) (handle P act) := by
  have hkept : ∀ {m : Call Unit} {c : Connection}, Keeps CleanConnection (fun _ => True) m →
      CleanConnection c → Ensures m c (fun _ c' => FramedConnection c' ∧ True) fun _ _ => True :=
    fun hm hc => (hm _ hc).mono (fun _ _ hc' => ⟨hc'.1.framed, trivial⟩) fun _ _ => id
  intro c hc
  cases act with
  | event flags os =>
      unfold handle
      refine ensures_bind.mpr (ensures_get.mpr ?_)
      split
      · exact ⟨hc, trivial⟩
      split
      · exact ⟨hc, trivial⟩
      · exact ensures_bind.mpr (ensures_set.mpr (hkept (handleEvent_keeps _) ⟨hnamed, hc⟩))
  | timeout os =>
      unfold handle
      refine ensures_bind.mpr (ensures_get.mpr ?_)
      split
      · exact ⟨hc, trivial⟩
      · exact ensures_bind.mpr (ensures_set.mpr (hkept handleTimeout_keeps ⟨hnamed, hc⟩))

theorem run_keeps {acts : List Act} (hnamed : ∀ act ∈ acts, act.os.toSystem.Named) :
    Keeps FramedConnection (fun _ => True) (run P acts) := by
  induction acts with
  | nil => exact keeps_pure trivial
  | cons act acts ih =>
      refine (handle_keeps (hnamed act List.mem_cons_self)).bind fun _ _ => ?_
      exact ih fun act hact => hnamed act (List.mem_cons_of_mem _ hact)

theorem new_framed (socket : Nat) (os : Os) : FramedConnection (new socket os) := by
  have hempty : Framed [] := ⟨along_nil, isText_nil⟩
  exact writePrompt_framed (fun _ => hempty) isText_nil

end

/-- **Replies can be told apart.** If every `PR_Send` is accepted in full, the names that the
system gives are C strings and what is read of files and children is text, then the strings
between the NULs of the stream are as many as the prompts, but for what is still being sent, and
behind the greeting the string with the number of a command is its reply and its prompt. -/
theorem replies_told_apart {P : Platform} {socket : Nat} {os : Os} {acts : List Act}
    (hreturns : returns P socket os acts = true)
    (hnamed : ∀ act ∈ acts, act.os.toSystem.Named)
    (hlegible : Legible (reached P socket os acts).trace) :
    let t := (reached P socket os acts).trace
    ((accepted t).splitOn 0).length = prompts t + 1 ∧
      ∀ pre line mid suf, t = pre ++ [.handleLine line] ++ mid ++ [.prompt] ++ suf →
        isCommand line = true → .prompt ∉ mid →
          ∃ text, accepted mid = text ++ mPrompt ++ [0] ∧
            ((accepted t).splitOn 0)[commands pre + 1]? = some (text ++ mPrompt) := by
  intro t
  have hord := ordered_path (reached_path hreturns).1 (new_rested socket os).toSound
    (new_ordered socket os) hlegible.full
  have hkept := (ensures_ok (run_of_returns hreturns)).mp
    (run_keeps hnamed (new socket os) (new_framed socket os))
  have hframed : Framed t := hkept.1 hlegible
  constructor
  · rw [length_splitOn, hframed.nuls.1]
  · intro pre line mid suf htrace hcommand hmid
    exact hframed.reply hord.lawful htrace hcommand hmid

/-- `ver` and `ls` in one packet: the reply to `ls` is the third string. -/
theorem replies_told_apart_ls :
    let acts := [.event { read := true }
      { recvs := [.deliver (str "ver\nls d\n")], kinds := [some true],
        dirs := [some [str "a", str "b"]] }]
    let t := (reached .plain 7 {} acts).trace
    let mid : List Event := [.send (str "a\nb\n$>\x00") 7]
    ((accepted t).splitOn 0).length = prompts t + 1 ∧
      ∃ text, accepted mid = text ++ mPrompt ++ [0] ∧
        ((accepted t).splitOn 0)[2]? = some (text ++ mPrompt) := by
  intro acts t mid
  have hnamed : ∀ act ∈ acts, act.os.toSystem.Named := by
    intro act hact
    obtain rfl := List.mem_singleton.mp hact
    refine ⟨fun names hmem => ?_, by decide⟩
    obtain rfl : names = [str "a", str "b"] := Option.some.inj (List.mem_singleton.mp hmem)
    decide
  have hreturns : returns .plain 7 {} acts = true := by decide +kernel
  obtain ⟨hlength, hreply⟩ := replies_told_apart hreturns hnamed (by decide +kernel)
  refine ⟨hlength, ?_⟩
  exact hreply [.send (str "$>\x00") 3, .prompt, .recv (str "ver\nls d\n"), .readLine (str "ver\n"),
    .handleLine (str "ver"), .send (str "SUTAgentNegatus Version 1.1\n$>\x00") 31, .prompt,
    .readLine (str "ls d\n")] (str "ls d") mid [] (by decide +kernel) (by decide) (by decide)

end CommandEventHandler

end Negatus
