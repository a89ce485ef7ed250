import Negatus.Agent.Calls
import Negatus.CommandEventHandler.Clock
import Negatus.Reactor.Timers

/-!
# The clock of the agent

The agent keeps to what the reactor relies on: its clock does not go back, and the epoch of
each timeout is a reading of the counter, taken at the time that the entry notes. So the
account of the timers holds of all runs of the agent.
-/

namespace Negatus

open Foundations

namespace HeartbeatEventHandler

open BufferedSocket

/-- `Still` for the reactor's part of a heartbeat. -/
def Still (h h' : HeartbeatEventHandler) : Prop := Negatus.Still h.io h'.io

instance : IsPreorder HeartbeatEventHandler Still where
  refl h := .refl h.io
  trans _ _ _ := Negatus.Still.trans

/-- What a call does with the clock, up to its end or its failure. -/
def Paced (P : Platform) (h h' : HeartbeatEventHandler) : Prop :=
  Still h h' ∨ Wound (P.secondsToInterval timeout) h.io h'.io

theorem readLines_still (fuel : Nat) (io : Io) : Within Negatus.Still (readLines fuel) io := by
  induction fuel generalizing io with
  | zero => exact within_throw
  | succ fuel ih =>
      unfold Within
      cases hread : readLine io with
      | none =>
          have hrun : readLines (fuel + 1) io = .error (.crash .undefined) io := by
            simp only [readLines, hread]
          exact (ensures_error hrun).mpr (.refl io)
      | some r =>
          obtain ⟨raw, numRead, io'⟩ := r
          have hstill := readLine_still hread
          by_cases hzero : numRead = 0
          · have hrun : readLines (fuel + 1) io = .ok () io' := by
              simp only [readLines, hread, if_pos hzero]
            exact (ensures_ok hrun).mpr hstill
          · have hrun : readLines (fuel + 1) io = readLines fuel io' := by
              simp only [readLines, hread, if_neg hzero]
            unfold Ensures
            rw [hrun]
            exact (ih io').mono (fun _ _ => hstill.trans) fun _ _ => hstill.trans

theorem handleEvent_still (h : HeartbeatEventHandler) (desc : PollDesc) :
    Within Still (handleEvent desc) h := by
  have hloop : Within Still (eventLoop desc) h := by
    unfold eventLoop
    refine within_get ?_
    split
    · exact within_pure
    · exact within_zoom (readLines_still _ h.io) fun _ hio => hio
  refine Within.bind hloop fun _ h' _ => within_get ?_
  split
  · exact BufferedSocket.close_still h'.io
  · exact within_pure

theorem onSystem_still {α : Type} (m : Sys α) (io : Io) : Within Negatus.Still (onSystem m) io := by
  refine within_zoom (T := fun _ _ => True) ?_ fun s _ => still_setOs io rfl
  unfold Within Ensures
  split <;> trivial

theorem send_still (msg : Bytes) (io : Io) : Negatus.Still io (send msg io) := write_still _ _ io

theorem handleTimeout_paced (P : Platform) (h : HeartbeatEventHandler) :
    Within (Paced P) (handleTimeout P) h := by
  have hthump : ∀ io, Within Negatus.Still (sendThump P) io := fun io =>
    Within.bind (onSystem_still _ io) fun stamp io _ =>
      Within.bind (onSystem_still _ io) fun id io _ => within_modify (send_still _ io)
  have hset := setTimeout_wound (P.secondsToInterval timeout) h.io
  refine ensures_zoom.mpr (ensures_bind.mpr (ensures_modify.mpr ?_))
  exact (hthump _).mono (fun _ _ hstill => .inr (hset.still hstill))
    fun _ _ hstill => .inr (hset.still hstill)

theorem sendTraceOutput_still (P : Platform) (io : Io) : Negatus.Still io (sendTraceOutput P io) := by
  unfold sendTraceOutput
  have hstamp : Negatus.Still io (io.setOs { io.os with toSystem := (timestamp P io.os.toSystem).2 }) :=
    still_setOs io rfl
  exact hstamp.trans (send_still _ _)

theorem new_wound (P : Platform) (socket : Nat) (os : Os) :
    Wound (P.secondsToInterval timeout) { sock := .new socket, os } (new P socket os).io := by
  have houtput := sendTraceOutput_still P { sock := .new socket, os }
  unfold new
  exact houtput.wound (setTimeout_wound _ _)

end HeartbeatEventHandler

namespace Agent

open Reactor

variable {P : Platform} {k : Nat} {w w' : Agent} {fault : Option Fault} {calls : List ReactorCall}
  {r r' : Reactor Agent}

/-- The settings of a call that has set at most one timer. -/
theorem settings_timely {os : Os} {io io' : Io} (hresume : io.os.now = os.now)
    (hnone : io.timers = []) (hpaced : Still io io' ∨ ∃ interval, Wound interval io io') :
    os.now ≤ io'.os.now ∧ Timely os.now io'.os.now (settings k io') := by
  have hlater : os.now ≤ io'.os.now := by
    rcases hpaced with hstill | ⟨interval, hwound⟩
    · exact (hstill.now.trans hresume).ge
    · exact hresume ▸ hwound.now
  refine ⟨hlater, fun s hs => ?_⟩
  obtain ⟨t, ht, heq⟩ := List.mem_map.mp hs
  obtain rfl := ReactorCall.setTimeout.inj heq
  rcases hpaced with hstill | ⟨interval, hwound⟩
  · rw [hstill.timers, hnone] at ht
    cases ht
  · rw [hwound.timers, hnone] at ht
    obtain rfl := List.mem_singleton.mp ht
    exact ⟨rfl, hlater, le_rfl⟩

theorem Born.timely {socket : Nat} {os : Os} {h : EventHandler} {io : Io}
    (hborn : Born P socket os h io) :
    os.now ≤ io.os.now ∧ Timely os.now io.os.now (settings k io) := by
  cases hborn with
  | command =>
      exact settings_timely rfl rfl (.inl (CommandEventHandler.writePrompt_still []
        { sock := .new socket, os }))
  | heartbeat => exact settings_timely rfl rfl (.inr ⟨_, HeartbeatEventHandler.new_wound P socket os⟩)

theorem Called.timely {m : Call Unit} {mh : EStateM Fault HeartbeatEventHandler Unit}
    (hcalled : Called P m mh k w false fault w' calls) (hm : ∀ c, Within (Connection.Paced P) m c)
    (hmh : ∀ h, Within (HeartbeatEventHandler.Paced P) mh h) :
    w.os.now ≤ w'.os.now ∧ Timely w.os.now w'.os.now calls := by
  cases hcalled with
  | nothing | refused => exact ⟨le_rfl, nofun⟩
  | created a accepts h io hget hborn =>
      obtain ⟨hlater, htimely⟩ := hborn.timely (k := w.handlers.length)
      refine ⟨hlater, fun s hs => htimely s ?_⟩
      exact (List.mem_cons.mp hs).resolve_left nofun
  | command c c' _ _ hget hrun =>
      exact settings_timely rfl rfl (((hm _).of_yields hrun).imp_right fun h => ⟨_, h⟩)
  | heartbeat b b' _ hget hrun =>
      exact settings_timely rfl rfl (((hmh _).of_yields hrun).imp_right fun h => ⟨_, h⟩)

theorem api_clocked (P : Platform) : Clocked (api P) where
  poll _ _ := le_rfl
  intervalNow _ := ⟨Nat.le_add_right _ _, rfl⟩
  handleEvent _ desc _ _ _ _ hends :=
    (handleEvent_ends hends).timely (fun c => CommandEventHandler.handleEvent_paced c desc)
      fun h => (h.handleEvent_still desc).mono (fun _ _ => .inl) fun _ _ => .inl
  handleTimeout _ _ _ _ _ hends :=
    (handleTimeout_ends hends).timely CommandEventHandler.handleTimeout_paced
      fun h => h.handleTimeout_paced P

end Agent

end Negatus
