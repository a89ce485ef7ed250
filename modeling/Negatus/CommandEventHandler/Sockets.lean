import Negatus.BufferedSocket.Descriptor
import Negatus.CommandEventHandler.Lines

/-!
# The descriptor of a connection

Nothing that a connection does touches its descriptor but the calls of its
`BufferedSocket`, so `Lives` holds from the start of a member function to its end, also
if it fails. The rules for `Within` take this through the loops of the handler.
-/

namespace Negatus

open Foundations BufferedSocket

/-! ## Data handlers -/

theorem setTimeout_lives (interval : UInt32) (io : Io) : Lives io (io.setTimeout interval) :=
  lives_of_same rfl rfl rfl rfl

theorem Os.read_calls (os : Os) (path : Bytes) (pos size : Nat) :
    (os.read path pos size).2.calls = os.calls := by
  unfold Os.read
  dsimp only
  split <;> rfl

namespace PullFileEventHandler

theorem close_lives (h : PullFileEventHandler) (io : Io) : Lives io (h.close io).2 := by
  unfold close
  split
  · exact lives_log _ _
  · exact Std.Refl.refl io

theorem fail_lives (h : PullFileEventHandler) (err : Bytes) (io : Io) :
    Lives io (h.fail err io).2 :=
  (writeString_lives _ io).trans (close_lives h _)

theorem sendHeader_lives (h : PullFileEventHandler) (includeHeader : Bool) (io : Io) :
    Lives io (h.sendHeader includeHeader io).2 := by
  unfold sendHeader
  split
  · exact Std.Refl.refl io
  · dsimp only
    split
    · exact (writeString_lives _ io).trans (close_lives h _)
    · exact writeString_lives _ io

theorem seek_lives (h : PullFileEventHandler) (start : UInt64) (includeHeader : Bool) (io : Io) :
    Lives io (h.seek start includeHeader io).2 := by
  have hcheck : Lives io (io.setOs io.os.check.2) := lives_setOs io rfl
  unfold seek
  dsimp only
  split
  · split
    · exact hcheck.trans (sendHeader_lives _ _ _)
    · exact hcheck.trans (fail_lives _ _ _)
  · exact sendHeader_lives _ _ _

theorem selectRange_lives (h : PullFileEventHandler) (start : UInt64) (includeHeader : Bool)
    (io : Io) : Lives io (h.selectRange start includeHeader io).2 := by
  have hinfo : Lives io ((io.setOs io.os.openFileSize.2).log (.fileInfo h.mPath io.os.openFileSize.1)) :=
    lives_of_same rfl rfl rfl rfl
  unfold selectRange
  dsimp only
  split
  · exact hinfo.trans (fail_lives _ _ _)
  · exact hinfo.trans (seek_lives _ _ _ _)

theorem new_lives (path : Bytes) (start size : UInt64) (includeHeader : Bool) (io : Io) :
    Lives io (new path start size includeHeader io).2 := by
  have hcheck : ∀ io : Io, Lives io (io.setOs io.os.check.2) := fun io => lives_setOs io rfl
  unfold new
  dsimp only
  split
  · exact (hcheck io).trans (fail_lives _ _ _)
  · split
    · exact ((hcheck io).trans (hcheck _)).trans (fail_lives _ _ _)
    · have hopened := ((hcheck io).trans (hcheck _)).trans (hcheck _)
      split
      · exact (hopened.trans (lives_log _ _)).trans (fail_lives _ _ _)
      · exact (hopened.trans (lives_log _ _)).trans (selectRange_lives _ _ _ _)

theorem sendBlock_lives (h : PullFileEventHandler) (pos : Nat) (io : Io) :
    Lives io (h.sendBlock pos io).2 := by
  have hread : Lives io (io.setOs (io.os.read h.mPath pos h.nextBlock).2) :=
    lives_setOs io (Os.read_calls _ _ _ _)
  unfold sendBlock
  dsimp only
  split
  · exact (hread.trans (lives_log _ _)).trans (close_lives _ _)
  · exact (hread.trans (lives_log _ _)).trans (close_lives _ _)
  · exact (hread.trans (lives_log _ _)).trans (write_lives _ _ _)

theorem handleEvent_lives (desc : PollDesc) (h : PullFileEventHandler) (io : Io) :
    Within Lives (h.handleEvent desc) io := by
  unfold handleEvent
  refine within_get ?_
  split
  · exact within_pure
  · split
    · exact within_pure
    · split
      · exact within_throw
      · refine Within.bind (within_modifyGet (sendBlock_lives h _ io)) fun h io _ => ?_
        split
        · exact within_modifyGet (close_lives h io)
        · exact within_pure

end PullFileEventHandler

namespace PushFileEventHandler

theorem close_lives (h : PushFileEventHandler) (io : Io) : Lives io (h.close io).2 := by
  unfold close
  split
  · exact lives_log _ _
  · exact Std.Refl.refl io

theorem new_lives (path : Bytes) (size : UInt64) (io : Io) : Lives io (new path size io).2 := by
  have hopened : Lives io ((io.setOs io.os.check.2).log (.openWrite path io.os.check.1)) :=
    lives_of_same rfl rfl rfl rfl
  unfold new
  dsimp only
  split
  · exact hopened
  · exact (hopened.trans (writeString_lives _ _)).trans (close_lives _ _)

theorem store_lives (h : PushFileEventHandler) (bs : Bytes) (io : Io) :
    Lives io (h.store bs io).2 := by
  refine lives_of_same rfl rfl rfl ?_
  show (io.os.write bs.length).2.calls = io.os.calls
  unfold Os.write
  dsimp only
  split <;> rfl

theorem finish_lives (h : PushFileEventHandler) (io : Io) : Lives io (h.finish io).2 := by
  have hhash : ∀ (io : Io) (s : System), Lives io (io.setOs { io.os with toSystem := s }) :=
    fun io _ => lives_setOs io rfl
  exact (close_lives h io).trans ((hhash _ _).trans (writeString_lives _ _))

theorem copyLoop_lives (fuel : Nat) (h : PushFileEventHandler) (io : Io) :
    Within Lives (copyLoop fuel h) io := by
  induction fuel generalizing h io with
  | zero => exact within_throw
  | succ fuel ih =>
      unfold copyLoop
      split
      · refine Within.bind (within_modifyGet (read_lives _ io)) fun bs io _ => ?_
        split
        · exact within_pure
        · split
          · exact within_throw
          · exact Within.bind (within_modifyGet (store_lives h bs io)) fun h io _ => ih h io
      · exact within_pure

theorem handleEvent_lives (desc : PollDesc) (h : PushFileEventHandler) (io : Io) :
    Within Lives (h.handleEvent desc) io := by
  unfold handleEvent
  refine within_get ?_
  split
  · exact within_pure
  · split
    · exact within_pure
    · refine Within.bind (copyLoop_lives _ h io) fun h io _ => ?_
      split
      · exact within_modifyGet (finish_lives h io)
      · exact within_pure

end PushFileEventHandler

namespace SubprocessEventHandler

theorem close_lives (h : SubprocessEventHandler) (io : Io) : Lives io (h.close io).2 := by
  have hclosed : Lives io ((io.setOs io.os.pclose.2).log (.pclose io.os.pclose.1)) :=
    lives_of_same rfl rfl rfl rfl
  unfold close
  split
  · exact hclosed.trans (writeString_lives _ _)
  · exact Std.Refl.refl io

theorem setenv_calls (os : Os) (name value : Bytes) : (os.setenv name value).calls = os.calls := by
  unfold Os.setenv
  split <;> rfl

theorem setVars_calls (os : Os) (env : List (Bytes × Bytes)) :
    (setVars os env).2.calls = os.calls := by
  induction env generalizing os with
  | nil => rfl
  | cons var env ih => exact (ih _).trans (setenv_calls os var.1 var.2)

theorem restoreVars_calls (os : Os) (vars : List (Bytes × Bytes)) :
    (restoreVars os vars).calls = os.calls := by
  induction vars generalizing os with
  | nil => rfl
  | cons var vars ih =>
      rw [restoreVars, ih]
      split
      · rfl
      · exact setenv_calls os var.1 var.2

theorem new_lives (P : Platform) (cmdLine : Bytes) (env : List (Bytes × Bytes)) (io : Io) :
    Lives io (new P cmdLine env io).2 := by
  unfold new
  dsimp only
  have hpopen : ∀ os e, os.calls = io.os.calls → Lives io ((io.setOs os).log e) :=
    fun os e h => lives_of_same rfl rfl rfl h
  have hlaunched := hpopen (restoreVars (setVars io.os env).2.popen.2
      ((env.map Prod.fst).zip (setVars io.os env).1))
    (.popen cmdLine (setVars io.os env).2.environ (setVars io.os env).2.popen.1)
    ((restoreVars_calls _ _).trans (setVars_calls io.os env))
  split
  · exact hlaunched.trans (setTimeout_lives _ _)
  · exact hlaunched.trans (close_lives _ _)

theorem poll_lives (h : SubprocessEventHandler) (io : Io) : Lives io (h.poll io).2 := by
  have hpipe : Lives io (io.setOs io.os.pipe.2) := lives_setOs io rfl
  unfold poll
  dsimp only
  split
  · exact ((hpipe.trans (lives_log _ _)).trans (writeString_lives _ _)).trans (close_lives h _)
  · exact (hpipe.trans (lives_log _ _)).trans (write_lives _ _ _)
  · exact hpipe.trans (close_lives h _)
  · exact hpipe

theorem handleTimeout_lives (P : Platform) (h : SubprocessEventHandler) (io : Io) :
    Within Lives (h.handleTimeout P) io := by
  unfold handleTimeout
  split
  · exact within_throw
  · refine Within.bind (within_modifyGet (poll_lives h io)) fun h io _ => ?_
    split
    · exact within_pure
    · exact Within.bind (within_modify (setTimeout_lives _ io)) fun _ _ _ => within_pure

end SubprocessEventHandler

namespace DataEventHandler

theorem handleEvent_lives (desc : PollDesc) (h : DataEventHandler) (io : Io) :
    Within Lives (h.handleEvent desc) io := by
  cases h with
  | pull h => exact (h.handleEvent_lives desc io).map
  | push h => exact (h.handleEvent_lives desc io).map
  | subprocess h => exact within_pure

theorem handleTimeout_lives (P : Platform) (h : DataEventHandler) (io : Io) :
    Within Lives (h.handleTimeout P) io := by
  cases h with
  | pull h => exact within_pure
  | push h => exact within_pure
  | subprocess h => exact (h.handleTimeout_lives P io).map

end DataEventHandler

/-! ## Connections -/

/-- `Lives` for the socket of a connection. -/
def Connection.Lives (c c' : Connection) : Prop :=
  BufferedSocket.OwnerLives c.mClosed c.io c'.mClosed c'.io

instance : IsPreorder Connection Connection.Lives where
  refl c := (Std.Refl.refl c.io : Lives c.io c.io).owner c.mClosed
  trans _ _ _ := OwnerLives.trans

namespace CommandEventHandler

section

variable {P : Platform} (c : Connection)

theorem writePrompt_lives (text : Bytes) (io : Io) : Lives io (writePrompt text io) := by
  unfold writePrompt
  dsimp only
  split
  · exact write_lives _ _ _
  · exact (write_lives _ _ _).trans (lives_log _ _)

theorem self_lives : Within Connection.Lives self c := by
  unfold self
  refine within_get ?_
  split
  · exact within_throw
  · exact within_pure

theorem onIo_lives {α : Type} {m : EStateM Fault Io α} (h : Within Lives m c.io) :
    Within Connection.Lives (onIo m) c :=
  within_zoom h fun _ hio => hio.owner c.mClosed

theorem modifyIo_lives {f : Io → Io} (h : Lives c.io (f c.io)) :
    Within Connection.Lives (modifyIo f) c :=
  within_modify (h.owner c.mClosed)

theorem onSystem_lives {α : Type} (m : Sys α) : Within Connection.Lives (onSystem m) c := by
  refine within_zoom (T := fun _ _ => True) ?_ fun s _ => ?_
  · unfold Within Ensures
    split <;> trivial
  · have hsame : Lives c.io (c.setSystem s).io := lives_of_same rfl rfl rfl rfl
    exact hsame.owner c.mClosed

theorem sendPrompt_lives : Within Connection.Lives sendPrompt c :=
  modifyIo_lives c (writePrompt_lives [] c.io)

theorem close_lives : Within Connection.Lives close c := within_modify (close_owner c.mClosed c.io)

theorem release_lives (resumes : Bool) : Within Connection.Lives (release resumes) c :=
  within_modify ((lives_log c.io _).owner c.mClosed)

theorem setData_lives (h : DataEventHandler) :
    Within Connection.Lives (modify fun c => { c with mDataEventHandler := some h } : Call Unit) c :=
  within_modify ((Std.Refl.refl c.io : Lives c.io c.io).owner c.mClosed)

theorem ifOpen_lives {call : DataEventHandler → EStateM Fault Io DataEventHandler}
    (hcall : ∀ h io, Within Lives (call h) io) (h : DataEventHandler) :
    Within Connection.Lives (ifOpen call h) c := by
  unfold ifOpen
  split
  · exact within_pure
  · exact onIo_lives c (hcall h c.io)

theorem checkDataEventHandler_lives (desc : PollDesc) :
    Within Connection.Lives (checkDataEventHandler desc) c := by
  unfold checkDataEventHandler
  refine Within.bind (self_lives c) fun c₁ c' _ => ?_
  split
  · refine Within.bind (ifOpen_lives c' (fun h io => h.handleEvent_lives desc io) _) fun h c' _ => ?_
    refine Within.bind (setData_lives c' h) fun _ c' _ => ?_
    split
    · refine Within.bind (sendPrompt_lives c') fun _ c' _ => ?_
      refine Within.bind (self_lives c') fun c₂ c' _ => ?_
      exact Within.bind (release_lives c' _) fun _ _ _ => within_pure
    · exact within_pure
  · exact within_pure

theorem handleTimeout_lives : Within Connection.Lives (handleTimeout P) c := by
  unfold handleTimeout
  refine Within.bind (self_lives c) fun c₁ c' _ => ?_
  split
  · exact within_throw
  · refine Within.bind (ifOpen_lives c' (fun h io => h.handleTimeout_lives P io) _) fun h c' _ => ?_
    refine Within.bind (setData_lives c' h) fun _ c' _ => ?_
    split
    · exact Within.bind (sendPrompt_lives c') fun _ c' _ => release_lives c' false
    · exact within_pure

/-! ### Lines -/

/-- A data handler is attached to the socket that its constructor has left. -/
theorem attach_lives {io : Io} (h : DataEventHandler) (hnew : Lives c.io io) :
    Within Connection.Lives (do
      set (c.setIo io)
      attach h
      pure [] : Call Bytes) c := by
  have hattached : Lives c.io (io.log .attach) := hnew.trans (lives_log io _)
  exact hattached.owner c.mClosed

theorem startPull_lives (path : Bytes) (start size : UInt64) (includeHeader : Bool) :
    Within Connection.Lives (startPull path start size includeHeader) c :=
  within_get (attach_lives c _ (PullFileEventHandler.new_lives path start size includeHeader c.io))

theorem startPush_lives (path : Bytes) (size : UInt64) :
    Within Connection.Lives (startPush path size) c :=
  within_get (attach_lives c _ (PushFileEventHandler.new_lives path size c.io))

theorem launch_lives (args : List Bytes) : Within Connection.Lives (launch P args) c := by
  unfold launch
  split
  · exact within_throw
  · rename_i cmdLine env _
    have hnew := SubprocessEventHandler.new_lives P cmdLine env c.io
    refine within_get ?_
    generalize SubprocessEventHandler.new P cmdLine env c.io = r at hnew ⊢
    obtain ⟨h, io⟩ := r
    by_cases hclosed : h.mClosed = true
    · simp only [hclosed]
      exact hnew.owner c.mClosed
    · simp only [Bool.not_eq_true] at hclosed
      simp only [hclosed]
      exact attach_lives c _ hnew

theorem stopReactor_lives : Within Connection.Lives stopReactor c :=
  Within.bind (close_lives c) fun _ c' _ => within_modify (Std.Refl.refl c' : Connection.Lives c' c')

theorem reboot_lives : Within Connection.Lives reboot c := by
  unfold reboot
  refine Within.bind (close_lives c) fun _ c' _ => ?_
  refine Within.bind (stopReactor_lives c') fun _ c' _ => ?_
  exact Within.bind (modifyIo_lives c' (lives_log c'.io _)) fun _ _ _ => within_pure

theorem rebootWith_lives (contents : Option Bytes) :
    Within Connection.Lives (rebootWith contents) c := by
  unfold rebootWith
  split
  · exact reboot_lives c
  · refine within_get ?_
    split
    · exact within_throw
    · refine Within.bind (onSystem_lives c _) fun f c' _ => ?_
      refine Within.bind (modifyIo_lives c' (lives_log c'.io _)) fun _ c' _ => ?_
      split
      · exact Within.bind (modifyIo_lives c' (lives_log c'.io _)) fun _ c' _ => reboot_lives c'
      · exact within_pure

theorem dispatch_lives (cmd : Bytes) (args : List Bytes) :
    Within Connection.Lives (dispatch P cmd args) c := by
  unfold dispatch
  split
  · cases args with
    | nil => exact within_pure
    | cons path args => exact startPull_lives c path 0 0 false
  split
  · unfold exec
    split
    · exact within_pure
    · exact launch_lives c args
  split
  · unfold exec
    split
    · exact within_pure
    · exact launch_lives c args
  split
  · cases args with
    | nil => exact within_pure
    | cons path args =>
        unfold pull
        dsimp only
        split
        · exact startPull_lives c path _ _ true
        · exact within_throw
  split
  · unfold push
    split
    · split
      · exact startPush_lives c _ _
      · exact within_throw
    · exact within_pure
  split
  · exact Within.bind (close_lives c) fun _ _ _ => within_pure
  split
  · unfold rebt
    split
    · exact rebootWith_lives c none
    · exact rebootWith_lives c _
    · exact within_pure
  split
  · exact onSystem_lives c _
  · exact within_pure

theorem reply_lives (result : Bytes) : Within Connection.Lives (reply result) c := by
  unfold reply
  refine Within.bind (self_lives c) fun c₁ c' _ => ?_
  split
  · exact modifyIo_lives c' (writePrompt_lives _ c'.io)
  · exact within_pure

theorem handleLine_lives (line : Bytes) : Within Connection.Lives (handleLine P line) c := by
  unfold handleLine
  refine Within.bind (modifyIo_lives c (lives_log c.io _)) fun _ c' _ => ?_
  refine Within.bind (log_within _) fun _ c' _ => ?_
  dsimp only
  split
  · exact within_pure
  · exact Within.bind (dispatch_lives c' _ _) fun result c' _ => reply_lives c' result

/-! ### Events -/

theorem readLine_lives : Within Connection.Lives readLine c := by
  unfold Within
  cases hread : BufferedSocket.readLine c.io with
  | none =>
      have hrun : readLine c = .error (.crash .undefined) c := by simp only [readLine, hread]
      exact (ensures_error hrun).mpr (Std.Refl.refl c)
  | some r =>
      obtain ⟨raw, numRead, io⟩ := r
      have hrun : readLine c = .ok (raw, numRead) (c.setIo io) := by simp only [readLine, hread]
      exact (ensures_ok hrun).mpr ((BufferedSocket.readLine_lives hread).owner c.mClosed)

theorem lineLoop_lives (fuel : Nat) : Within Connection.Lives (lineLoop P fuel) c := by
  induction fuel generalizing c with
  | zero => exact within_throw
  | succ fuel ih =>
      unfold lineLoop
      refine Within.bind (self_lives c) fun c₁ c' _ => ?_
      split
      · exact within_pure
      · refine Within.bind (readLine_lives c') fun r c' _ => ?_
        obtain ⟨raw, numRead⟩ := r
        dsimp only
        split
        · exact within_pure
        · exact Within.bind (handleLine_lives c' _) fun _ c' _ => ih c'

theorem eventLoop_lives (desc : PollDesc) (fuel : Nat) :
    Within Connection.Lives (eventLoop P desc fuel) c := by
  induction fuel generalizing c with
  | zero => exact within_throw
  | succ fuel ih =>
      unfold eventLoop
      refine Within.bind (self_lives c) fun c₁ c' _ => ?_
      split
      · exact within_pure
      · refine Within.bind (checkDataEventHandler_lives c' desc) fun busy c' _ => ?_
        split
        · exact within_pure
        · refine Within.bind (self_lives c') fun c₂ c' _ => ?_
          split
          · exact within_pure
          · refine Within.bind (lineLoop_lives c' _) fun noMoreToRead c' _ => ?_
            split
            · exact within_pure
            · exact ih c'

theorem closeAtEof_lives : Within Connection.Lives closeAtEof c := by
  unfold closeAtEof
  refine Within.bind (self_lives c) fun c₁ c' _ => ?_
  split
  · split
    · exact Within.bind (release_lives c' false) fun _ c' _ => close_lives c'
    · exact close_lives c'
  · exact within_pure

/-- **A connection touches its descriptor only as long as it is open.** -/
theorem handleEvent_lives (desc : PollDesc) :
    Within Connection.Lives (handleEvent P desc) c := by
  unfold handleEvent
  refine Within.bind (self_lives c) fun c₁ c' _ => ?_
  exact Within.bind (eventLoop_lives c' desc _) fun _ c' _ => closeAtEof_lives c'

end

end CommandEventHandler

end Negatus
