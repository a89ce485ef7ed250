import Negatus.CommandEventHandler.Lines

/-!
# The clock in the calls of a connection

Only `setTimeout` reads `PR_IntervalNow`, and a call that sets a timer does nothing more
with the clock. So the epoch of the timer is what the clock shows when the call ends, also
if it fails.
-/

namespace Negatus

open Foundations BufferedSocket

/-- From `io` to `io'` no timer has been set, and the clock has not been read. -/
structure Still (io io' : Io) : Prop where
  timers : io'.timers = io.timers
  now : io'.os.now = io.os.now

instance : IsPreorder Io Still where
  refl _ := ⟨rfl, rfl⟩
  trans _ _ _ h h' := ⟨h'.timers.trans h.timers, h'.now.trans h.now⟩

theorem Still.refl (io : Io) : Still io io := Std.Refl.refl io

theorem Still.trans {io₁ io₂ io₃ : Io} (h : Still io₁ io₂) (h' : Still io₂ io₃) : Still io₁ io₃ :=
  IsTrans.trans _ _ _ h h'

/-- One timer has been set, as the last that was done with the clock. -/
structure Wound (interval : UInt32) (io io' : Io) : Prop where
  timers : io'.timers = io.timers ++ [⟨UInt32.ofNat io'.os.now, interval⟩]
  now : io.os.now ≤ io'.os.now

theorem Still.wound {interval : UInt32} {io₁ io₂ io₃ : Io} (h : Still io₁ io₂)
    (h' : Wound interval io₂ io₃) : Wound interval io₁ io₃ :=
  ⟨by rw [h'.timers, h.timers], h.now ▸ h'.now⟩

theorem Wound.still {interval : UInt32} {io₁ io₂ io₃ : Io} (h : Wound interval io₁ io₂)
    (h' : Still io₂ io₃) : Wound interval io₁ io₃ :=
  ⟨by rw [h'.timers, h.timers, h'.now], h'.now ▸ h.now⟩

theorem setTimeout_wound (interval : UInt32) (io : Io) :
    Wound interval io (io.setTimeout interval) :=
  ⟨rfl, Nat.le_add_right _ _⟩

/-! ## Sockets -/

theorem still_log (io : Io) (e : Event) : Still io (io.log e) := ⟨rfl, rfl⟩

theorem still_setOs (io : Io) {os : Os} (h : os.now = io.os.now) : Still io (io.setOs os) :=
  ⟨rfl, h⟩

namespace BufferedSocket

theorem close_still (io : Io) : Still io (close io) := by
  unfold close
  split
  · exact .refl io
  · exact ⟨rfl, rfl⟩

theorem closeRecv_still (io : Io) : Still io (closeRecv io) := by
  unfold closeRecv
  dsimp only
  split
  · have hmarked := close_still { io with sock := { io.sock with mRecvClosed := true } }
    exact ⟨hmarked.timers, hmarked.now⟩
  · exact ⟨rfl, rfl⟩

theorem closeSend_still (io : Io) : Still io (closeSend io) := by
  unfold closeSend
  dsimp only
  split
  · have hmarked := close_still { io with sock := { io.sock with mSendClosed := true } }
    exact ⟨hmarked.timers, hmarked.now⟩
  · exact ⟨rfl, rfl⟩

theorem readIntoBuffer_still (size : Nat) (io : Io) : Still io (readIntoBuffer size io).2 := by
  unfold readIntoBuffer
  split
  · exact .refl io
  · have hcall : Still io (io.setOs (io.call .recv).os.recv.2) := still_setOs io rfl
    refine hcall.trans ?_
    generalize (io.call .recv).os.recv = r
    obtain ⟨answer, os⟩ := r
    cases answer with
    | data b bs => exact ⟨rfl, rfl⟩
    | wouldBlock => exact .refl _
    | eof => exact (still_log _ _).trans (closeRecv_still _)
    | error => exact (still_log _ _).trans (closeRecv_still _)

theorem drain_still (size : Nat) (io : Io) : Still io (drain size io) := by
  unfold drain
  generalize io.os.recvs.length + 1 = fuel
  induction fuel generalizing io with
  | zero => exact .refl io
  | succ fuel ih =>
      have hstep := readIntoBuffer_still size io
      rw [drainLoop]
      split
      · rename_i io' hr
        rwa [hr] at hstep
      · rename_i n io' hr
        rw [hr] at hstep
        exact hstep.trans (ih io')

theorem read_still (size : Nat) (io : Io) : Still io (read size io).2 := by
  unfold read
  dsimp only
  refine (drain_still 1024 io).trans ?_
  split <;> exact ⟨rfl, rfl⟩

theorem readLine_still {io io' : Io} {raw : Bytes} {len : Int}
    (h : readLine io = some (raw, len, io')) : Still io io' := by
  refine (drain_still 256 io).trans ?_
  unfold readLine at h
  dsimp only at h
  split at h
  · cases h
  · obtain ⟨-, -, rfl⟩ : _ = raw ∧ _ = len ∧ _ = io' := by simpa using h
    split <;> exact ⟨rfl, rfl⟩

theorem write_still (buf : Bytes) (size : Nat) (io : Io) : Still io (write buf size io) := by
  unfold write
  split
  · exact .refl io
  · have hcall : Still io (io.setOs (io.call .send).os.send.2) := still_setOs io rfl
    refine hcall.trans ?_
    generalize (io.call .send).os.send = r
    obtain ⟨answer, os⟩ := r
    cases answer with
    | all => exact still_log _ _
    | short k => exact still_log _ _
    | wouldBlock => exact still_log _ _
    | error => exact (still_log _ _).trans (closeSend_still _)

theorem writeString_still (line : Bytes) (io : Io) : Still io (writeString line io) :=
  write_still line _ io

end BufferedSocket

/-! ## Data handlers -/

namespace PullFileEventHandler

theorem close_still (h : PullFileEventHandler) (io : Io) : Still io (h.close io).2 := by
  unfold close
  split
  · exact still_log _ _
  · exact .refl io

theorem fail_still (h : PullFileEventHandler) (err : Bytes) (io : Io) :
    Still io (h.fail err io).2 :=
  (writeString_still _ io).trans (close_still h _)

theorem sendHeader_still (h : PullFileEventHandler) (includeHeader : Bool) (io : Io) :
    Still io (h.sendHeader includeHeader io).2 := by
  unfold sendHeader
  split
  · exact .refl io
  · dsimp only
    split
    · exact (writeString_still _ io).trans (close_still h _)
    · exact writeString_still _ io

theorem selectRange_still (h : PullFileEventHandler) (start : UInt64) (includeHeader : Bool)
    (io : Io) : Still io (h.selectRange start includeHeader io).2 := by
  have hinfo : Still io ((io.setOs io.os.openFileSize.2).log (.fileInfo h.mPath io.os.openFileSize.1)) :=
    ⟨rfl, rfl⟩
  have hseek : ∀ (h : PullFileEventHandler) (start : UInt64) (io : Io),
      Still io (h.seek start includeHeader io).2 := by
    intro h start io
    have hcheck : Still io (io.setOs io.os.check.2) := still_setOs io rfl
    unfold seek
    dsimp only
    split
    · split
      · exact hcheck.trans (sendHeader_still _ _ _)
      · exact hcheck.trans (fail_still _ _ _)
    · exact sendHeader_still _ _ _
  unfold selectRange
  dsimp only
  split
  · exact hinfo.trans (fail_still _ _ _)
  · exact hinfo.trans (hseek _ _ _)

theorem new_still (path : Bytes) (start size : UInt64) (includeHeader : Bool) (io : Io) :
    Still io (new path start size includeHeader io).2 := by
  have hcheck : ∀ io : Io, Still io (io.setOs io.os.check.2) := fun io => still_setOs io rfl
  unfold new
  dsimp only
  split
  · exact (hcheck io).trans (fail_still _ _ _)
  split
  · exact ((hcheck io).trans (hcheck _)).trans (fail_still _ _ _)
  have hopened := ((hcheck io).trans (hcheck _)).trans (hcheck _)
  split
  · exact (hopened.trans (still_log _ _)).trans (fail_still _ _ _)
  · exact (hopened.trans (still_log _ _)).trans (selectRange_still _ _ _ _)

theorem sendBlock_still (h : PullFileEventHandler) (pos : Nat) (io : Io) :
    Still io (h.sendBlock pos io).2 := by
  have hread : Still io (io.setOs (io.os.read h.mPath pos h.nextBlock).2) := by
    refine still_setOs io ?_
    unfold Os.read
    dsimp only
    split <;> rfl
  have hlog := fun e => hread.trans (still_log _ e)
  unfold sendBlock
  dsimp only
  split
  · exact (hlog _).trans (close_still _ _)
  · exact (hlog _).trans (close_still _ _)
  · exact (hlog _).trans (write_still _ _ _)

theorem handleEvent_still (desc : PollDesc) (h : PullFileEventHandler) (io : Io) :
    Within Still (h.handleEvent desc) io := by
  unfold handleEvent
  refine within_get ?_
  split
  · exact within_pure
  split
  · exact within_pure
  split
  · exact within_throw
  · refine Within.bind (within_modifyGet (sendBlock_still h _ io)) fun h io _ => ?_
    split
    · exact within_modifyGet (close_still h io)
    · exact within_pure

end PullFileEventHandler

namespace PushFileEventHandler

theorem close_still (h : PushFileEventHandler) (io : Io) : Still io (h.close io).2 := by
  unfold close
  split
  · exact still_log _ _
  · exact .refl io

theorem new_still (path : Bytes) (size : UInt64) (io : Io) : Still io (new path size io).2 := by
  have hopened : Still io ((io.setOs io.os.check.2).log (.openWrite path io.os.check.1)) :=
    ⟨rfl, rfl⟩
  unfold new
  dsimp only
  split
  · exact hopened
  · exact (hopened.trans (writeString_still _ _)).trans (close_still _ _)

theorem store_still (h : PushFileEventHandler) (bs : Bytes) (io : Io) :
    Still io (h.store bs io).2 := by
  refine ⟨rfl, ?_⟩
  show (io.os.write bs.length).2.now = io.os.now
  unfold Os.write
  dsimp only
  split <;> rfl

theorem finish_still (h : PushFileEventHandler) (io : Io) : Still io (h.finish io).2 := by
  have hhash : ∀ (io : Io) (s : System), Still io (io.setOs { io.os with toSystem := s }) :=
    fun io _ => still_setOs io rfl
  exact (close_still h io).trans ((hhash _ _).trans (writeString_still _ _))

theorem copyLoop_still (fuel : Nat) (h : PushFileEventHandler) (io : Io) :
    Within Still (copyLoop fuel h) io := by
  induction fuel generalizing h io with
  | zero => exact within_throw
  | succ fuel ih =>
      unfold copyLoop
      split
      · refine Within.bind (within_modifyGet (read_still _ io)) fun bs io _ => ?_
        split
        · exact within_pure
        split
        · exact within_throw
        · exact Within.bind (within_modifyGet (store_still h bs io)) fun h io _ => ih h io
      · exact within_pure

theorem handleEvent_still (desc : PollDesc) (h : PushFileEventHandler) (io : Io) :
    Within Still (h.handleEvent desc) io := by
  unfold handleEvent
  refine within_get ?_
  split
  · exact within_pure
  split
  · exact within_pure
  · refine Within.bind (copyLoop_still _ h io) fun h io _ => ?_
    split
    · exact within_modifyGet (finish_still h io)
    · exact within_pure

end PushFileEventHandler

namespace SubprocessEventHandler

theorem close_still (h : SubprocessEventHandler) (io : Io) : Still io (h.close io).2 := by
  have hclosed : Still io ((io.setOs io.os.pclose.2).log (.pclose io.os.pclose.1)) := ⟨rfl, rfl⟩
  unfold close
  split
  · exact hclosed.trans (writeString_still _ _)
  · exact .refl io

theorem setenv_now (os : Os) (name value : Bytes) : (os.setenv name value).now = os.now := by
  unfold Os.setenv
  split <;> rfl

theorem setVars_now (os : Os) (env : List (Bytes × Bytes)) : (setVars os env).2.now = os.now := by
  induction env generalizing os with
  | nil => rfl
  | cons var env ih => exact (ih _).trans (setenv_now os var.1 var.2)

theorem restoreVars_now (os : Os) (vars : List (Bytes × Bytes)) :
    (restoreVars os vars).now = os.now := by
  induction vars generalizing os with
  | nil => rfl
  | cons var vars ih =>
      rw [restoreVars, ih]
      split
      · rfl
      · exact setenv_now os var.1 var.2

/-- The constructor sets a timer, or closes the handler. -/
theorem new_winds (P : Platform) (cmdLine : Bytes) (env : List (Bytes × Bytes)) (io : Io) :
    ((new P cmdLine env io).1.mClosed = false ∧
        Wound (P.millisecondsToInterval pollPeriodMs) io (new P cmdLine env io).2) ∨
      ((new P cmdLine env io).1.mClosed = true ∧ Still io (new P cmdLine env io).2) := by
  have hlaunched : ∀ os e, os.now = io.os.now → Still io ((io.setOs os).log e) :=
    fun os e h => ⟨rfl, h⟩
  have hpopen := hlaunched (restoreVars (setVars io.os env).2.popen.2
      ((env.map Prod.fst).zip (setVars io.os env).1))
    (.popen cmdLine (setVars io.os env).2.environ (setVars io.os env).2.popen.1)
    ((restoreVars_now _ _).trans (setVars_now io.os env))
  unfold new
  dsimp only
  split
  · exact .inl ⟨rfl, hpopen.wound (setTimeout_wound _ _)⟩
  · exact .inr ⟨rfl, hpopen.trans (close_still _ _)⟩

theorem poll_still (h : SubprocessEventHandler) (io : Io) : Still io (h.poll io).2 := by
  have hpipe : Still io (io.setOs io.os.pipe.2) := still_setOs io rfl
  have hlog := fun e => hpipe.trans (still_log _ e)
  unfold poll
  dsimp only
  split
  · exact ((hlog _).trans (writeString_still _ _)).trans (close_still h _)
  · exact (hlog _).trans (write_still _ _ _)
  · exact hpipe.trans (close_still h _)
  · exact hpipe

end SubprocessEventHandler

/-! ## Connections -/

namespace Connection

/-- `Still` for the reactor's part of a connection. -/
def Still (c c' : Connection) : Prop := Negatus.Still c.io c'.io

instance : IsPreorder Connection Still where
  refl c := .refl c.io
  trans _ _ _ := Negatus.Still.trans

/-- From `c` to `c'` the timer of a subprocess has been set. -/
def Wound (P : Platform) (c c' : Connection) : Prop :=
  Negatus.Wound (P.millisecondsToInterval SubprocessEventHandler.pollPeriodMs) c.io c'.io

/-- A timer has been set for a subprocess, which runs. -/
structure Launched (P : Platform) (c c' : Connection) : Prop where
  wound : Wound P c c'
  running : ∃ h, c'.mDataEventHandler = some (.subprocess h) ∧ h.mClosed = false

/-- What a call does with the clock, up to its end or its failure. -/
def Paced (P : Platform) (c c' : Connection) : Prop := Still c c' ∨ Wound P c c'

variable {P : Platform} {c c' c'' : Connection}

theorem Launched.delayed (h : Still c c') (h' : Launched P c' c'') : Launched P c c'' :=
  ⟨Negatus.Still.wound h h'.wound, h'.running⟩

theorem Paced.delayed (h : Still c c') (h' : Paced P c' c'') : Paced P c c'' :=
  Or.imp (Negatus.Still.trans h) (Negatus.Still.wound h) h'

end Connection

namespace CommandEventHandler

open Connection (Paced Launched)

section

variable {P : Platform} (c : Connection)

theorem writePrompt_still (text : Bytes) (io : Io) : Still io (writePrompt text io) := by
  unfold writePrompt
  dsimp only
  split
  · exact write_still _ _ _
  · exact (write_still _ _ _).trans (still_log _ _)

theorem self_still : Within Connection.Still self c := by
  unfold self
  refine within_get ?_
  split
  · exact within_throw
  · exact within_pure

theorem onSystem_still {α : Type} (m : Sys α) : Within Connection.Still (onSystem m) c := by
  refine within_zoom (T := fun _ _ => True) ?_ fun s _ => ⟨rfl, rfl⟩
  unfold Within Ensures
  split <;> trivial

theorem modifyIo_still {f : Io → Io} (h : Still c.io (f c.io)) :
    Within Connection.Still (modifyIo f) c :=
  within_modify h

theorem close_still : Within Connection.Still close c :=
  within_modify (BufferedSocket.close_still c.io)

theorem release_still (resumes : Bool) : Within Connection.Still (release resumes) c :=
  within_modify (still_log c.io _)

theorem attach_still {io : Io} (h : DataEventHandler) (hnew : Still c.io io) :
    Within Connection.Still (do
      set (c.setIo io)
      attach h
      pure [] : Call Bytes) c :=
  hnew.trans (still_log io .attach)

theorem reboot_still : Within Connection.Still reboot c := by
  unfold reboot stopReactor
  refine Within.bind (close_still c) fun _ c' _ => ?_
  refine Within.bind (Within.bind (close_still c') fun _ c' _ => within_modify (.refl c'.io))
    fun _ c' _ => ?_
  exact Within.bind (modifyIo_still c' (still_log c'.io _)) fun _ _ _ => within_pure

theorem rebootWith_still (contents : Option Bytes) :
    Within Connection.Still (rebootWith contents) c := by
  unfold rebootWith
  split
  · exact reboot_still c
  · refine within_get ?_
    split
    · exact within_throw
    · refine Within.bind (onSystem_still c _) fun f c' _ => ?_
      refine Within.bind (modifyIo_still c' (still_log c'.io _)) fun _ c' _ => ?_
      split
      · exact Within.bind (modifyIo_still c' (still_log c'.io _)) fun _ c' _ => reboot_still c'
      · exact within_pure

/-! ### Lines -/

/-- Every run of `m` leaves the clock alone or ends with a subprocess launched; one that
fails may have set the timer before. -/
def Winds {α : Type} (P : Platform) (m : Call α) (c : Connection) : Prop :=
  Ensures m c (fun _ c' => Connection.Still c c' ∨ Launched P c c') (fun _ c' => Paced P c c')

theorem winds_of_still {α : Type} {m : Call α} {c : Connection}
    (h : Within Connection.Still m c) : Winds P m c :=
  h.mono (fun _ _ => .inl) fun _ _ => .inl

theorem winds_pure {α : Type} (a : α) : Winds P (pure a) c := .inl (.refl c.io)

theorem winds_throw {α : Type} (e : Fault) : Winds P (throw e : Call α) c := .inl (.refl c.io)

/-- What runs while a subprocess does leaves the connection as it is. -/
def Idles {α : Type} (m : Call α) : Prop :=
  ∀ c h, c.mDataEventHandler = some (.subprocess h) → h.mClosed = false →
    Ensures m c (fun _ c' => c' = c) (fun _ c' => c' = c)

variable {c}

theorem Winds.delayed {α : Type} {m : Call α} {c' : Connection} (hstill : Connection.Still c c')
    (h : Winds P m c') :
    Ensures m c' (fun _ c'' => Connection.Still c c'' ∨ Launched P c c'')
      (fun _ c'' => Paced P c c'') :=
  Ensures.mono h (fun _ _ => Or.imp hstill.trans (Launched.delayed hstill))
    fun _ _ => Paced.delayed hstill

theorem Winds.after {α β : Type} {m : Call α} {f : α → Call β} (h : Within Connection.Still m c)
    (hf : ∀ a c', Winds P (f a) c') : Winds P (m >>= f) c :=
  ensures_bind.mpr (h.mono (fun a c' hstill => (hf a c').delayed hstill) fun _ _ => .inl)

theorem Winds.bind {α β : Type} {m : Call α} {f : α → Call β} (h : Winds P m c)
    (hf : ∀ a c', Winds P (f a) c') (hidle : ∀ a, Idles (f a)) : Winds P (m >>= f) c := by
  refine ensures_bind.mpr (Ensures.mono h ?_ fun _ _ => id)
  rintro a c' (hstill | ⟨hwound, d, hdata, hopen⟩)
  · exact (hf a c').delayed hstill
  · refine (hidle a c' d hdata hopen).mono (fun _ c'' => ?_) fun _ c'' => ?_
    · rintro rfl
      exact .inr ⟨hwound, d, hdata, hopen⟩
    · rintro rfl
      exact .inr hwound

variable (c)

theorem launch_winds (args : List Bytes) : Winds P (launch P args) c := by
  unfold launch
  split
  · exact winds_throw c _
  · rename_i cmdLine env _
    have hnew := SubprocessEventHandler.new_winds P cmdLine env c.io
    refine ensures_bind.mpr (ensures_get.mpr ?_)
    generalize SubprocessEventHandler.new P cmdLine env c.io = r at hnew ⊢
    obtain ⟨h, io⟩ := r
    rcases hnew with ⟨hopen, hwound⟩ | ⟨hclosed, hstill⟩
    · change h.mClosed = false at hopen
      simp only [hopen]
      exact .inr ⟨hwound.still (still_log io .attach), h, rfl, hopen⟩
    · change h.mClosed = true at hclosed
      simp only [hclosed]
      exact .inl hstill

theorem exec_winds (args : List Bytes) : Winds P (exec P args) c := by
  unfold exec
  split
  · exact winds_pure c _
  · exact launch_winds c args

theorem dispatch_winds (cmd : Bytes) (args : List Bytes) : Winds P (dispatch P cmd args) c := by
  have hpull : ∀ path start size includeHeader,
      Winds P (startPull path start size includeHeader) c := fun path start size includeHeader =>
    winds_of_still (within_get (attach_still c _
      (PullFileEventHandler.new_still path start size includeHeader c.io)))
  unfold dispatch
  split
  · cases args with
    | nil => exact winds_pure c _
    | cons path args => exact hpull path 0 0 false
  split
  · exact exec_winds c args
  split
  · exact exec_winds c args
  split
  · cases args with
    | nil => exact winds_pure c _
    | cons path args =>
        unfold pull
        dsimp only
        split
        · exact hpull path _ _ true
        · exact winds_throw c _
  split
  · unfold push
    split
    · split
      · exact winds_of_still (within_get (attach_still c _ (PushFileEventHandler.new_still _ _ c.io)))
      · exact winds_throw c _
    · exact winds_pure c _
  split
  · exact winds_of_still (Within.bind (close_still c) fun _ _ _ => within_pure)
  split
  · unfold rebt
    split
    · exact winds_of_still (rebootWith_still c none)
    · exact winds_of_still (rebootWith_still c _)
    · exact winds_pure c _
  split
  · exact winds_of_still (onSystem_still c _)
  · exact winds_pure c _

theorem reply_still (result : Bytes) : Within Connection.Still (reply result) c := by
  unfold reply
  refine Within.bind (self_still c) fun c₁ c' _ => ?_
  split
  · exact modifyIo_still c' (writePrompt_still _ c'.io)
  · exact within_pure

theorem idles_self {α : Type} {f : Connection → Call α}
    (hf : ∀ c h, c.mDataEventHandler = some (.subprocess h) → h.mClosed = false →
      Ensures (f c) c (fun _ c' => c' = c) (fun _ c' => c' = c)) : Idles (self >>= f) := by
  intro c h hdata hopen
  refine ensures_bind.mpr (ensures_self.mpr ?_)
  split
  · rfl
  · exact hf c h hdata hopen

theorem reply_idles (result : Bytes) : Idles (reply result) := by
  refine idles_self fun c h hdata hopen => ?_
  rw [hdata, Option.isNone_some, Bool.and_false]
  exact rfl

theorem handleLine_winds (line : Bytes) : Winds P (handleLine P line) c := by
  unfold handleLine
  refine Winds.after (modifyIo_still c (still_log c.io _)) fun _ c' => ?_
  refine Winds.after (log_within _) fun _ c' => ?_
  dsimp only
  split
  · exact winds_pure c' _
  · exact Winds.bind (dispatch_winds c' _ _) (fun result c' => winds_of_still (reply_still c' result))
      reply_idles

/-! ### Events -/

theorem readLine_still : Within Connection.Still readLine c := by
  unfold Within
  cases hread : BufferedSocket.readLine c.io with
  | none =>
      have hrun : readLine c = .error (.crash .undefined) c := by simp only [readLine, hread]
      exact (ensures_error hrun).mpr (.refl c.io)
  | some r =>
      obtain ⟨raw, numRead, io⟩ := r
      have hrun : readLine c = .ok (raw, numRead) (c.setIo io) := by simp only [readLine, hread]
      exact (ensures_ok hrun).mpr (BufferedSocket.readLine_still hread)

theorem lineLoop_idles (fuel : Nat) : Idles (lineLoop P fuel) := by
  cases fuel with
  | zero => exact fun _ _ _ _ => rfl
  | succ fuel =>
      refine idles_self fun c h hdata hopen => ?_
      rw [hdata, Option.isSome_some, Bool.or_true]
      exact rfl

theorem lineLoop_winds (fuel : Nat) : Winds P (lineLoop P fuel) c := by
  induction fuel generalizing c with
  | zero => exact winds_throw c _
  | succ fuel ih =>
      unfold lineLoop
      refine Winds.after (self_still c) fun c₁ c' => ?_
      split
      · exact winds_pure c' _
      · refine Winds.after (readLine_still c') fun r c' => ?_
        obtain ⟨raw, numRead⟩ := r
        dsimp only
        split
        · exact winds_pure c' _
        · exact Winds.bind (handleLine_winds c' _) (fun _ c' => ih c') fun _ => lineLoop_idles fuel

theorem ifOpen_event_still (desc : PollDesc) (h : DataEventHandler) :
    Within Connection.Still (ifOpen (·.handleEvent desc) h) c := by
  unfold ifOpen
  split
  · exact within_pure
  · refine within_zoom (T := Still) ?_ fun _ hio => hio
    cases h with
    | pull h => exact (h.handleEvent_still desc c.io).map
    | push h => exact (h.handleEvent_still desc c.io).map
    | subprocess h => exact within_pure

theorem checkDataEventHandler_still (desc : PollDesc) :
    Within Connection.Still (checkDataEventHandler desc) c := by
  unfold checkDataEventHandler
  refine Within.bind (self_still c) fun c₁ c' _ => ?_
  split
  · refine Within.bind (ifOpen_event_still c' desc _) fun h c' _ => ?_
    refine Within.bind (within_modify (.refl c'.io)) fun _ c' _ => ?_
    split
    · refine Within.bind (modifyIo_still c' (writePrompt_still [] c'.io)) fun _ c' _ => ?_
      refine Within.bind (self_still c') fun c₂ c' _ => ?_
      exact Within.bind (release_still c' _) fun _ _ _ => within_pure
    · exact within_pure
  · exact within_pure

/-- An event leaves a subprocess and its connection alone. -/
theorem checkDataEventHandler_running {desc : PollDesc} {h : SubprocessEventHandler}
    (halive : c.deleted = false) (hstay : c.mClosed = false)
    (hdata : c.mDataEventHandler = some (.subprocess h)) (hopen : h.mClosed = false) :
    checkDataEventHandler desc c = .ok true c := by
  obtain ⟨io, data, isClosed, deleted⟩ := c
  obtain rfl : deleted = false := halive
  obtain rfl : isClosed = false := hstay
  obtain rfl : data = _ := hdata
  obtain ⟨mP, isClosed⟩ := h
  obtain rfl : isClosed = false := hopen
  rfl

theorem eventLoop_idles (desc : PollDesc) (fuel : Nat) : Idles (eventLoop P desc fuel) := by
  cases fuel with
  | zero => exact fun _ _ _ _ => rfl
  | succ fuel =>
      intro c h hdata hopen
      refine ensures_bind.mpr (ensures_self.mpr ?_)
      cases halive : c.deleted with
      | true => exact rfl
      | false =>
          cases hstay : c.mClosed with
          | true => exact rfl
          | false =>
              refine ensures_bind.mpr ?_
              rw [ensures_ok (checkDataEventHandler_running c halive hstay hdata hopen)]
              exact rfl

theorem eventLoop_winds (desc : PollDesc) (fuel : Nat) : Winds P (eventLoop P desc fuel) c := by
  induction fuel generalizing c with
  | zero => exact winds_throw c _
  | succ fuel ih =>
      unfold eventLoop
      refine Winds.after (self_still c) fun c₁ c' => ?_
      split
      · exact winds_pure c' _
      · refine Winds.after (checkDataEventHandler_still c' desc) fun busy c' => ?_
        split
        · exact winds_pure c' _
        · refine Winds.after (self_still c') fun c₂ c' => ?_
          split
          · exact winds_pure c' _
          · refine Winds.bind (lineLoop_winds c' _) (fun noMoreToRead c' => ?_) fun noMoreToRead => ?_
            · split
              · exact winds_pure c' _
              · exact ih c'
            · split
              · exact fun _ _ _ _ => rfl
              · exact eventLoop_idles desc fuel

theorem closeAtEof_still : Within Connection.Still closeAtEof c := by
  unfold closeAtEof
  refine Within.bind (self_still c) fun c₁ c' _ => ?_
  split
  · split
    · exact Within.bind (release_still c' false) fun _ c' _ => close_still c'
    · exact close_still c'
  · exact within_pure

/-- **A call of a connection sets at most one timer**, and then leaves the clock alone. -/
theorem handleEvent_paced (desc : PollDesc) : Within (Paced P) (handleEvent P desc) c := by
  unfold handleEvent
  refine ensures_bind.mpr ((self_still c).mono (fun c₁ c' hstill => ?_) fun _ _ => .inl)
  refine ensures_bind.mpr ((eventLoop_winds c' desc _).mono (fun _ c'' hwinds => ?_) fun _ c'' => ?_)
  · have hpaced : Paced P c c'' := Paced.delayed hstill (hwinds.imp_right (·.wound))
    refine (closeAtEof_still c'').mono (fun _ d hstill' => ?_) fun _ d hstill' => ?_
    all_goals exact hpaced.imp (·.trans hstill') (·.still hstill')
  · exact Paced.delayed hstill

theorem handleEvent_still {c : Connection} (desc : PollDesc)
    (h : c.mClosed = true ∨ ∃ d, c.mDataEventHandler = some (.subprocess d) ∧ d.mClosed = false) :
    Within Connection.Still (handleEvent P desc) c := by
  have hloop : Within Connection.Still (eventLoop P desc (c.io.backlog + 2)) c := by
    rcases h with hclosed | ⟨d, hdata, hopen⟩
    · refine ensures_bind.mpr (ensures_self.mpr ?_)
      split
      · exact .refl c.io
      · exact .refl c.io
    · refine (eventLoop_idles desc _ c d hdata hopen).mono (fun _ c' => ?_) fun _ c' => ?_
      all_goals
        rintro rfl
        exact .refl c'.io
  refine ensures_bind.mpr (ensures_self.mpr ?_)
  split
  · exact .refl c.io
  · exact Within.bind hloop fun _ c' _ => closeAtEof_still c'

theorem handleTimeout_paced : Within (Paced P) (handleTimeout P) c := by
  unfold handleTimeout
  refine ensures_bind.mpr ((self_still c).mono (fun c₁ c' hstill => ?_) fun _ _ => .inl)
  split
  · exact .inl hstill
  · rename_i h _
    -- a data handler that is still open has set its timer, and nothing comes behind that
    have hdata : Ensures (ifOpen (·.handleTimeout P) h) c'
        (fun h' d => Connection.Still c' d ∨ h'.closed = false ∧ Connection.Wound P c' d)
        (fun _ d => Connection.Still c' d) := by
      unfold ifOpen
      split
      · exact .inl (.refl c'.io)
      · refine ensures_zoom.mpr ?_
        cases h with
        | pull h => exact .inl (.refl c'.io)
        | push h => exact .inl (.refl c'.io)
        | subprocess h =>
            refine ensures_map.mpr ?_
            unfold SubprocessEventHandler.handleTimeout
            split
            · exact .refl c'.io
            · refine ensures_bind.mpr (ensures_modifyGet.mpr ?_)
              have hpoll := h.poll_still c'.io
              split
              · exact .inl hpoll
              · rename_i hopen
                exact .inr ⟨Bool.not_eq_true _ ▸ hopen, hpoll.wound (setTimeout_wound _ _)⟩
    refine ensures_bind.mpr (hdata.mono (fun h' d hd => ?_) fun _ d hd => .inl (hstill.trans hd))
    refine ensures_bind.mpr (ensures_modify.mpr ?_)
    rcases hd with hd | ⟨hopen, hwound⟩
    · split
      · have hprompt := modifyIo_still { d with mDataEventHandler := some h' }
          (writePrompt_still [] d.io)
        refine (Within.bind hprompt fun _ d' _ => release_still d' false).mono ?_ ?_
        all_goals exact fun _ _ hd' => .inl ((hstill.trans hd).trans hd')
      · exact .inl (hstill.trans hd)
    · rw [hopen]
      exact .inr (hstill.wound hwound)

end

end CommandEventHandler

end Negatus
