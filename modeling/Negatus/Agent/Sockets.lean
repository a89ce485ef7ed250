import Negatus.Agent.Handlers
import Negatus.Foundations.History

/-!
# Calls on sockets

A descriptor is opened for one handler, and its handler is the only one that calls NSPR
with it. So the descriptors that are open follow from the sockets of the handlers. The
exception is a socket that `PR_Accept` could not return.
-/

namespace Negatus

open Foundations BufferedSocket

/-- The descriptors that are open after a call. -/
def descriptors (live : List Nat) : NsprCall → List Nat
  | .openTCPSocket (some fd) => fd :: live
  | .accept (some fd) => fd :: live
  | .close (some fd) => live.filter (· ≠ fd)
  | _ => live

/-- A call that is made on a descriptor finds it open. -/
def Touches (live : List Nat) : NsprCall → Prop
  | .openTCPSocket _ => True
  | .accept _ => True
  | .setSocketOption fd => fd ∈ live.map some
  | .recv fd => fd ∈ live.map some
  | .send fd => fd ∈ live.map some
  | .shutdown fd => fd ∈ live.map some
  | .close fd => fd ∈ live.map some

instance (live : List Nat) : DecidablePred (Touches live) := fun call => by
  cases call <;> unfold Touches <;> infer_instance

/-- How often a descriptor is closed. -/
def closes (fd : Nat) (calls : List NsprCall) : Nat := calls.count (.close (some fd))

theorem closes_append (fd : Nat) (calls news : List NsprCall) :
    closes fd (calls ++ news) = closes fd calls + closes fd news := List.count_append

/-! ## The calls of one handler -/

section

variable {fd fd' : Option Nat} {live : List Nat} {news : List NsprCall}

theorem uses_along (h : ∀ c ∈ news, Uses fd c) (hlive : ∀ n, fd = some n → n ∈ live) :
    Along Touches descriptors live news ∧ news.foldl descriptors live = live ∧
      ∀ j, closes j news = 0 := by
  induction news with
  | nil => exact ⟨trivial, rfl, fun _ => rfl⟩
  | cons c news ih =>
      obtain ⟨hlaw, hfold, hcloses⟩ := ih fun c hc => h c (List.mem_cons_of_mem _ hc)
      obtain ⟨n, hn, hcall⟩ := h c List.mem_cons_self
      have htouch : some n ∈ live.map some := List.mem_map_of_mem (hlive n hn)
      rcases hcall with rfl | rfl
      · exact ⟨⟨htouch, hlaw⟩, hfold, fun j => (List.count_cons_of_ne (by simp)).trans (hcloses j)⟩
      · exact ⟨⟨htouch, hlaw⟩, hfold, fun j => (List.count_cons_of_ne (by simp)).trans (hcloses j)⟩

/-- The calls of a handler are lawful if its descriptor is open, and leave those of the
others alone. -/
theorem usage_along (h : Usage fd fd' news) (hlive : ∀ n, fd = some n → n ∈ live) :
    Along Touches descriptors live news ∧
      (∀ j, j ∈ news.foldl descriptors live ↔ j ∈ live ∧ ¬ (fd = some j ∧ fd' = none)) ∧
      ∀ j, closes j news = if fd = some j ∧ fd' = none then 1 else 0 := by
  cases h with
  | used _ _ h =>
      obtain ⟨hlaw, hfold, hcloses⟩ := uses_along h hlive
      have hnever : ∀ j, ¬ (fd = some j ∧ fd = none) := by
        rintro j ⟨hj, hnone⟩
        rw [hj] at hnone
        cases hnone
      refine ⟨hlaw, fun j => ?_, fun j => ?_⟩
      · rw [hfold]
        exact (and_iff_left (hnever j)).symm
      · rw [hcloses, if_neg (hnever j)]
  | closed n calls h =>
      obtain ⟨hlaw, hfold, hcloses⟩ := uses_along h hlive
      have hn : some n ∈ live.map some := List.mem_map_of_mem (hlive n rfl)
      refine ⟨along_append.mpr ⟨hlaw, ?_⟩, fun j => ?_, fun j => ?_⟩
      · rw [hfold]
        exact ⟨hn, hn, trivial⟩
      · rw [List.foldl_append, hfold]
        simp only [List.foldl_cons, List.foldl_nil, descriptors, List.mem_filter, Option.some.injEq,
          and_true, decide_eq_true_eq, ne_eq, @eq_comm _ j n]
      · rw [closes_append, hcloses, Nat.zero_add]
        unfold closes
        simp only [List.count_cons, List.count_nil, beq_iff_eq, NsprCall.close.injEq,
          Option.some.injEq, and_true, reduceCtorEq, if_false, Nat.zero_add, Nat.add_zero]

/-- A handler accepts nothing. -/
theorem usage_accepts (h : Usage fd fd' news) : .accept none ∉ news := by
  have huses : ∀ {fd : Option Nat} {calls : List NsprCall}, (∀ c ∈ calls, Uses fd c) →
      .accept none ∉ calls := by
    intro fd calls hcalls hmem
    obtain ⟨n, -, hcall | hcall⟩ := hcalls _ hmem <;> cases hcall
  cases h with
  | used _ _ h => exact huses h
  | closed n calls h =>
      intro hmem
      rcases List.mem_append.mp hmem with hmem | hmem
      · exact huses h hmem
      · simp at hmem

end

/-! ## The handlers and their descriptors -/

namespace EventHandler

def socket : EventHandler → Option Nat
  | .acceptor h => h.mSocket
  | .command c => c.io.sock.mSocket
  | .heartbeat h => h.io.sock.mSocket

/-- `mSocket` of its `BufferedSocket`, if it has one, is NULL exactly when both sides are
marked closed. -/
def Consistent : EventHandler → Prop
  | .acceptor _ => True
  | .command c => c.io.sock.Consistent
  | .heartbeat h => h.io.sock.Consistent

end EventHandler

namespace Agent

open Reactor

variable {P : Platform} {k : Nat} {w w' : Agent} {fault : Option Fault}
  {calls : List ReactorCall} {r r' : Reactor Agent}

/-- Handler `k` has its descriptor, which is open, or has closed it, once. -/
structure Owned (k : Nat) (h : EventHandler) (calls : List NsprCall) : Prop where
  consistent : h.Consistent
  shut : h.closed = true → h.socket = none
  state : h.socket = some k ∧ k ∈ calls.foldl descriptors [] ∧ closes k calls = 0 ∨
    h.socket = none ∧ closes k calls = 1

structure Sockets (w : Agent) : Prop where
  lawful : .accept none ∉ w.os.calls → Along Touches descriptors [] w.os.calls
  refused : .accept none ∈ w.os.calls → .setSocketOption none ∈ w.os.calls
  owned : ∀ (k : Nat) (h : EventHandler), w.handlers[k]? = some h → Owned k h w.os.calls
  unborn : ∀ n, w.handlers.length ≤ n → closes n w.os.calls = 0

theorem Sockets.frame (hw : Sockets w) (hhandlers : w'.handlers = w.handlers)
    (hcalls : w'.os.calls = w.os.calls) : Sockets w' := by
  refine ⟨?_, ?_, ?_, ?_⟩
  · rw [hcalls]
    exact hw.lawful
  · rw [hcalls]
    exact hw.refused
  · rw [hcalls, hhandlers]
    exact hw.owned
  · rw [hcalls, hhandlers]
    exact hw.unborn

/-- The calls on another descriptor do not matter to a handler. -/
theorem Owned.others {j : Nat} {h : EventHandler} {fd fd' : Option Nat}
    {calls news : List NsprCall} (ho : Owned j h calls) (husage : Usage fd fd' news)
    (hlive : ∀ n, fd = some n → n ∈ calls.foldl descriptors []) (hj : fd ≠ some j) :
    Owned j h (calls ++ news) := by
  obtain ⟨-, hmem, hcloses⟩ := usage_along husage hlive
  have hnot : ¬ (fd = some j ∧ fd' = none) := fun h => hj h.1
  refine ⟨ho.consistent, ho.shut, ?_⟩
  rw [List.foldl_append, hmem, closes_append, hcloses, if_neg hnot, Nat.add_zero]
  simpa only [and_iff_left hnot] using ho.state

/-- Handler `k` makes calls on its descriptor. -/
theorem Sockets.update (hw : Sockets w) {h h' : EventHandler} {os : Os} {news : List NsprCall}
    (hget : w.handlers[k]? = some h) (hcalls : os.calls = w.os.calls ++ news)
    (husage : Usage h.socket h'.socket news) (hconsistent : h'.Consistent)
    (hshut : h'.closed = true → h'.socket = none) : Sockets (w.update k h' os) := by
  have ho := hw.owned k h hget
  have hlive : ∀ n, h.socket = some n → n ∈ w.os.calls.foldl descriptors [] := by
    intro n hn
    rcases ho.state with ⟨hsome, hmem, -⟩ | ⟨hnone, -⟩
    · obtain rfl := Option.some.inj (hsome.symm.trans hn)
      exact hmem
    · cases hnone.symm.trans hn
  have hne : ∀ j, j ≠ k → h.socket ≠ some j := by
    intro j hj hsocket
    rcases ho.state with ⟨hsome, -⟩ | ⟨hnone, -⟩
    · exact hj (Option.some.inj (hsocket.symm.trans hsome))
    · cases hnone.symm.trans hsocket
  obtain ⟨hlaw, hmem, hcloses⟩ := usage_along husage hlive
  have hlen : (w.handlers.set k h').length = w.handlers.length := List.length_set
  refine ⟨?_, ?_, ?_, ?_⟩
  · show .accept none ∉ os.calls → Along Touches descriptors [] os.calls
    rw [hcalls]
    intro hno
    refine along_append.mpr ⟨hw.lawful fun hmem => hno (List.mem_append_left _ hmem), hlaw⟩
  · show .accept none ∈ os.calls → .setSocketOption none ∈ os.calls
    rw [hcalls]
    intro hmem
    rcases List.mem_append.mp hmem with hmem | hmem
    · exact List.mem_append_left _ (hw.refused hmem)
    · exact absurd hmem (usage_accepts husage)
  · intro j hj hget'
    show Owned j hj os.calls
    rw [hcalls]
    rcases getElem?_update hget' with ⟨rfl, rfl⟩ | ⟨hjk, hget'⟩
    · refine ⟨hconsistent, hshut, ?_⟩
      rw [List.foldl_append, hmem, closes_append, hcloses]
      rcases ho.state with ⟨hsome, hopen, hzero⟩ | ⟨hnone, hone⟩
      · rw [hsome] at husage ⊢
        rw [hzero]
        cases hsocket : hj.socket with
        | none => exact .inr ⟨rfl, by simp⟩
        | some n =>
            rw [hsocket] at husage
            cases husage
            exact .inl ⟨rfl, ⟨hopen, by simp⟩, by simp⟩
      · have hgone := husage.gone hnone
        rw [hnone, hone]
        exact .inr ⟨hgone, by simp⟩
    · exact (hw.owned j hj hget').others husage hlive (hne j hjk)
  · intro n hn
    have hn' : w.handlers.length ≤ n := hlen ▸ hn
    show closes n os.calls = 0
    rw [hcalls, closes_append, hw.unborn n hn', hcloses, if_neg]
    rintro ⟨hsocket, -⟩
    refine hne n ?_ hsocket
    rintro rfl
    exact absurd (List.getElem?_eq_some_iff.mp hget).1 (Nat.not_lt.mpr hn')

/-- A handler with a `BufferedSocket` makes calls on it. -/
theorem Sockets.lives (hw : Sockets w) {h h' : EventHandler} (io io' : Io)
    (hget : w.handlers[k]? = some h) (hos : io.os.calls = w.os.calls)
    (hsocket : h.socket = io.sock.mSocket) (hconsistent : io.sock.Consistent)
    (hsocket' : h'.socket = io'.sock.mSocket) (hconsistent' : io'.sock.Consistent → h'.Consistent)
    (hlives : OwnerLives h.closed io h'.closed io') : Sockets (w.update k h' io'.os) := by
  obtain ⟨hio', news, hcalls, husage⟩ := hlives.lives hconsistent
  rw [hos] at hcalls
  have husage' : Usage h.socket h'.socket news := by
    rw [hsocket, hsocket']
    exact husage
  refine hw.update hget hcalls husage' (hconsistent' hio') fun hclosed => ?_
  rcases hlives.shut hconsistent hclosed with hclosed | hnone
  · exact husage'.gone ((hw.owned k h hget).shut hclosed)
  · exact hsocket'.trans hnone

/-! ### A new handler -/

/-- The constructor of a handler writes to its socket. -/
theorem Born.lives {n : Nat} {os : Os} {h : EventHandler} {io : Io} (hborn : Born P n os h io) :
    h.Consistent ∧ h.closed = false ∧
      ∃ news, io.os.calls = os.calls ++ news ∧ Usage (some n) h.socket news := by
  have hnew := BufferedSocket.new_consistent n
  cases hborn with
  | command =>
      obtain ⟨hconsistent, hcalls⟩ :=
        CommandEventHandler.writePrompt_lives [] { sock := .new n, os } hnew
      exact ⟨hconsistent, rfl, hcalls⟩
  | heartbeat =>
      have hopen := (HeartbeatEventHandler.new_rested P n os).2.1
      have hlives := HeartbeatEventHandler.new_lives P n os
      generalize HeartbeatEventHandler.new P n os = b at hopen hlives ⊢
      obtain ⟨hconsistent, hcalls⟩ := hlives hnew
      exact ⟨hconsistent, hopen, hcalls⟩

/-- A handler is created on a descriptor that has not been used. -/
theorem Sockets.created (hw : Sockets w) {h : EventHandler} {io : Io} (accepts : List Bool)
    (hborn : Born P w.handlers.length (accepting (some w.handlers.length) w.os) h io) :
    Sockets { w with accepts, handlers := w.handlers ++ [h], os := io.os } := by
  let n := w.handlers.length
  obtain ⟨hconsistent, hopen, news, hcalls, husage⟩ := hborn.lives
  have haccepting : (accepting (some n) w.os).calls =
      w.os.calls ++ [.accept (some n), .setSocketOption (some n)] := by
    show w.os.calls ++ [.accept (some n)] ++ [.setSocketOption (some n)] = _
    rw [List.append_assoc]
    rfl
  let live := w.os.calls.foldl descriptors []
  have hafter : (accepting (some n) w.os).calls.foldl descriptors [] = n :: live := by
    rw [haccepting, List.foldl_append]
    rfl
  have hlive : ∀ m, some n = some m → m ∈ n :: live := by
    rintro m ⟨⟩
    exact List.mem_cons_self
  obtain ⟨hlaw, hmem, hcloses⟩ := usage_along husage hlive
  have hzero : ∀ j, closes j (accepting (some n) w.os).calls = closes j w.os.calls := by
    intro j
    rw [haccepting, closes_append]
    rfl
  refine ⟨?_, ?_, ?_, ?_⟩
  · show .accept none ∉ io.os.calls → Along Touches descriptors [] io.os.calls
    rw [hcalls, haccepting]
    intro hno
    refine along_append.mpr ⟨along_append.mpr ⟨hw.lawful fun hmem => hno ?_, ?_⟩, ?_⟩
    · exact List.mem_append_left _ (List.mem_append_left _ hmem)
    · exact ⟨trivial, List.mem_map_of_mem (List.mem_cons_self : n ∈ n :: live), trivial⟩
    · rw [← haccepting, hafter]
      exact hlaw
  · show .accept none ∈ io.os.calls → .setSocketOption none ∈ io.os.calls
    rw [hcalls, haccepting]
    intro hmem
    rcases List.mem_append.mp hmem with hmem | hmem
    · rcases List.mem_append.mp hmem with hmem | hmem
      · exact List.mem_append_left _ (List.mem_append_left _ (hw.refused hmem))
      · simp at hmem
    · exact absurd hmem (usage_accepts husage)
  · intro j hj hget
    show Owned j hj io.os.calls
    rw [hcalls]
    rcases getElem?_created hget with ⟨rfl, rfl⟩ | ⟨hjn, hget⟩
    · refine ⟨hconsistent, fun hclosed => absurd hclosed (Bool.eq_false_iff.mp hopen), ?_⟩
      rw [List.foldl_append, hafter, hmem, closes_append, hzero, hcloses,
        hw.unborn _ le_rfl, Nat.zero_add]
      cases hsocket : hj.socket with
      | none => exact .inr ⟨rfl, if_pos ⟨rfl, rfl⟩⟩
      | some m =>
          rw [hsocket] at husage
          cases husage
          exact .inl ⟨rfl, ⟨List.mem_cons_self, by simp⟩, by simp⟩
    · refine Owned.others ⟨(hw.owned j hj hget).consistent, (hw.owned j hj hget).shut, ?_⟩ husage
        (hafter.symm ▸ hlive) fun heq => hjn (Option.some.inj heq).symm
      rw [hafter, hzero]
      rcases (hw.owned j hj hget).state with ⟨hsome, hmem, hnone⟩ | hgone
      · exact .inl ⟨hsome, List.mem_cons_of_mem _ hmem, hnone⟩
      · exact .inr hgone
  · intro m hm
    have hlt : n < m := by
      have hlen : (w.handlers ++ [h]).length ≤ m := hm
      rw [List.length_append] at hlen
      exact hlen
    show closes m io.os.calls = 0
    rw [hcalls, closes_append, hzero, hw.unborn m hlt.le, hcloses, if_neg]
    rintro ⟨heq, -⟩
    exact hlt.ne (Option.some.inj heq)

/-- `PR_Accept` returns NULL. -/
theorem Sockets.refusal (hw : Sockets w) (accepts : List Bool) :
    Sockets { w with accepts, os := accepting none w.os } := by
  have haccepting : (accepting none w.os).calls =
      w.os.calls ++ [.accept none, .setSocketOption none] := by
    show w.os.calls ++ [.accept none] ++ [.setSocketOption none] = _
    rw [List.append_assoc]
    rfl
  refine ⟨?_, ?_, ?_, ?_⟩
  · show .accept none ∉ (accepting none w.os).calls → _
    rw [haccepting]
    intro hno
    exact absurd (by simp) hno
  · show _ → .setSocketOption none ∈ (accepting none w.os).calls
    rw [haccepting]
    exact fun _ => by simp
  · intro j h hget
    obtain ⟨hconsistent, hshut, hstate⟩ := hw.owned j h hget
    refine ⟨hconsistent, hshut, ?_⟩
    rw [haccepting, List.foldl_append, closes_append]
    exact hstate
  · intro n hn
    show closes n (accepting none w.os).calls = 0
    rw [haccepting, closes_append]
    exact hw.unborn n hn

/-! ## Calls, turns and stops -/

theorem Called.sockets {m : Call Unit} {mh : EStateM Fault HeartbeatEventHandler Unit}
    {stopped : Bool} (h : Called P m mh k w stopped fault w' calls) (hm : Member m mh)
    (hw : Sockets w) : Sockets w' := by
  cases h with
  | nothing => exact hw
  | refused a accepts => exact hw.refusal accepts
  | created a accepts h io _ hborn => exact hw.created accepts hborn
  | command c c' _ _ hget hrun =>
      have hlives := (hm.commandLives _).of_yields hrun
      exact hw.lives (EventHandler.resume w.os c.io) c'.io hget rfl rfl
        (hw.owned k _ hget).consistent rfl id hlives
  | heartbeat h h' _ hget hrun =>
      have hlives := (hm.heartbeatLives _).of_yields hrun
      exact hw.lives (EventHandler.resume w.os h.io) h'.io hget rfl rfl
        (hw.owned k _ hget).consistent rfl id hlives

/-- Handler `k` is marked closed. -/
def Shut (k : Nat) (w : Agent) : Prop :=
  ∃ h : EventHandler, w.handlers[k]? = some h ∧ h.closed = true

/-- `close` marks a handler closed and gives up its descriptor. -/
theorem close_handler (h : EventHandler) (os : Os) (hconsistent : h.Consistent) :
    (h.close os).1.closed = true ∧ (h.close os).1.Consistent ∧ (h.close os).1.socket = none ∧
      ∃ news, (h.close os).2.calls = os.calls ++ news ∧
        Usage h.socket (h.close os).1.socket news := by
  cases h with
  | acceptor a =>
      obtain ⟨factory, socket, isClosed⟩ := a
      cases socket with
      | none => exact ⟨rfl, trivial, rfl, [], (List.append_nil _).symm, .used none [] nofun⟩
      | some fd =>
          refine ⟨rfl, trivial, rfl, _, ?_, .closed fd [] nofun⟩
          show os.calls ++ [.shutdown (some fd)] ++ [.close (some fd)] = _
          rw [List.append_assoc]
          rfl
  | command c =>
      obtain ⟨hconsistent', hcalls⟩ := close_lives (EventHandler.resume os c.io) hconsistent
      exact ⟨rfl, hconsistent', close_closed _, hcalls⟩
  | heartbeat b =>
      obtain ⟨hconsistent', hcalls⟩ := close_lives (EventHandler.resume os b.io) hconsistent
      exact ⟨rfl, hconsistent', close_closed _, hcalls⟩

theorem Sockets.close (hw : Sockets w) (k : Nat) : Sockets ((api P).close k w) := by
  cases hget : w.handlers[k]? with
  | none =>
      rw [api_close_none P hget]
      exact hw
  | some h =>
      rw [api_close P hget]
      obtain ⟨-, hconsistent, hnone, news, hcalls, husage⟩ :=
        close_handler h w.os (hw.owned k h hget).consistent
      exact hw.update hget hcalls husage hconsistent fun _ => hnone

/-- Handlers that were closed stay closed, and handler `k` is closed now. -/
theorem close_shut (hw : Sockets w) {j : Nat} (hlt : k < w.handlers.length)
    (hj : j = k ∨ Shut j w) : Shut j ((api P).close k w) := by
  have hget := List.getElem?_eq_getElem hlt
  rw [api_close P hget]
  by_cases hjk : j = k
  · subst hjk
    have hclosed := (close_handler w.handlers[j] w.os (hw.owned j _ hget).consistent).1
    exact ⟨_, List.getElem?_set_self hlt, hclosed⟩
  · obtain ⟨h, hgetj, hclosed⟩ := hj.resolve_left hjk
    exact ⟨h, (List.getElem?_set_ne (Ne.symm hjk)).trans hgetj, hclosed⟩

theorem close_length (k : Nat) : ((api P).close k w).handlers.length = w.handlers.length := by
  cases hget : w.handlers[k]? with
  | none => rw [api_close_none P hget]
  | some h =>
      rw [api_close P hget]
      exact List.length_set

/-- The loop of `stop` closes all handlers of a list. -/
theorem closeAll_sockets {hs : List Nat} (hw : Sockets w)
    (hmade : ∀ k ∈ hs, k < w.handlers.length) :
    Sockets (hs.foldl (fun w k => (api P).close k w) w) ∧
      ∀ j, j ∈ hs ∨ Shut j w → Shut j (hs.foldl (fun w k => (api P).close k w) w) := by
  induction hs generalizing w with
  | nil => exact ⟨hw, fun j hj => hj.resolve_left List.not_mem_nil⟩
  | cons k hs ih =>
      have hlt := hmade k List.mem_cons_self
      obtain ⟨hall, hshut⟩ := ih (hw.close (P := P) k) fun j hj =>
        (close_length (P := P) k).symm ▸ hmade j (List.mem_cons_of_mem _ hj)
      refine ⟨hall, fun j hj => hshut j ?_⟩
      rcases hj with hj | hj
      · rcases List.mem_cons.mp hj with rfl | hj
        · exact .inr (close_shut hw hlt (.inl rfl))
        · exact .inl hj
      · exact .inr (close_shut hw hlt (.inr hj))

/-! ## Runs -/

/-- The descriptors in order, and the handlers that have been deleted closed. -/
structure Described (r : Reactor Agent) : Prop where
  sockets : Sockets r.world
  deleted : ∀ k ∈ r.deleted, Shut k r.world

theorem start_described (os : Os) (polls : List (List PollFlags)) (accepts : List Bool) :
    Described (start os polls accepts) where
  sockets := by
    refine ⟨fun _ => ?_, fun hmem => ?_, fun k h hget => ?_, fun n hn => ?_⟩
    · show Along Touches descriptors [] (listening 0 ++ listening 1)
      decide
    · exact absurd (show .accept none ∈ listening 0 ++ listening 1 from hmem) (by decide)
    · show Owned k h (listening 0 ++ listening 1)
      match k with
      | 0 =>
          obtain rfl := Option.some.inj hget
          exact ⟨trivial, nofun, .inl ⟨rfl, by decide, rfl⟩⟩
      | 1 =>
          obtain rfl := Option.some.inj hget
          exact ⟨trivial, nofun, .inl ⟨rfl, by decide, rfl⟩⟩
      | k + 2 => cases hget
    · show closes n (listening 0 ++ listening 1) = 0
      rfl
  deleted := nofun

/-- What a call or `stop` leaves alone stays as it was. -/
theorem Described.turn (h : Described r) (hlinked : Linked r) (hturn : Turn (api P) r fault r') :
    Described r' := by
  -- a handler that has been deleted is not called
  have hkeep : ∀ {m : Call Unit} {mh : EStateM Fault HeartbeatEventHandler Unit} {k : Nat}
      {stopped : Bool} {fault : Option Fault} {w' : Agent} {calls : List ReactorCall},
      k ∉ r.deleted → Member m mh → Called P m mh k r.world stopped fault w' calls →
        Sockets w' ∧ ∀ j ∈ r.deleted, Shut j w' := by
    intro m mh k stopped fault w' calls hk hm hcalled
    refine ⟨hcalled.sockets hm h.sockets, fun j hj => ?_⟩
    obtain ⟨hd, hget, hclosed⟩ := h.deleted j hj
    have hjk : j ≠ k := fun heq => hk (heq ▸ hj)
    exact ⟨hd, (hcalled.others hjk (hlinked.made j (.inr hj))).trans hget, hclosed⟩
  cases hturn with
  | event map desc pds k hphase hflags hmap hlive fault world calls hends =>
      obtain ⟨hsockets, hdeleted⟩ := hkeep hlive (event_member desc) (handleEvent_ends hends)
      refine ⟨?_, ?_⟩
      · rw [obeyAll_world]
        exact hsockets
      · rw [obeyAll_world, obeyAll_deleted]
        exact hdeleted
  | timeout e es hphase hlive fault world calls hends =>
      obtain ⟨hsockets, hdeleted⟩ := hkeep hlive timeout_member (handleTimeout_ends hends)
      refine ⟨?_, ?_⟩
      · rw [obeyAll_world]
        exact hsockets
      · rw [obeyAll_world, obeyAll_deleted]
        exact hdeleted
  | delete i k hphase hget hlive hclosed =>
      refine ⟨h.sockets, fun j hj => ?_⟩
      rcases List.mem_cons.mp hj with rfl | hj
      · change r.world.handlers[j]?.elim false EventHandler.closed = true at hclosed
        cases hsome : r.world.handlers[j]? with
        | none =>
            rw [hsome] at hclosed
            cases hclosed
        | some hd =>
            rw [hsome] at hclosed
            exact ⟨hd, hsome, hclosed⟩
      · exact h.deleted j hj
  | poll => exact ⟨h.sockets.frame rfl rfl, h.deleted⟩
  | expire => exact ⟨h.sockets.frame rfl rfl, h.deleted⟩
  | keep => exact ⟨h.sockets.frame rfl rfl, h.deleted⟩
  | _ => exact ⟨h.sockets, h.deleted⟩

theorem Described.halted (h : Described r)
    (hmade : ∀ k ∈ r.mEvtHandlers, k < r.world.handlers.length) :
    Described (r.halted (api P)) := by
  obtain ⟨hsockets, hshut⟩ := closeAll_sockets (P := P) h.sockets hmade
  refine ⟨hsockets, fun k hk => hshut k ?_⟩
  rcases List.mem_append.mp hk with hk | hk
  · exact .inl (List.mem_reverse.mp hk)
  · exact .inr (h.deleted k hk)

/-- A handler that stops the reactor has closed itself by then, and then all are closed. -/
theorem Described.halts (h : Described r) (hlinked : Linked r) (hhalts : Halts P r r') :
    Described r' := by
  obtain ⟨k, hk, m, mh, hm, phase, fired, w, calls, hcalled⟩ := hhalts
  let r₁ : Reactor Agent := { r with phase, fired }
  refine Described.halted ⟨?_, ?_⟩ ?_
  · rw [obeyAll_world]
    exact hcalled.sockets hm h.sockets
  · rw [obeyAll_world, obeyAll_deleted]
    intro j hj
    obtain ⟨hd, hget, hclosed⟩ := h.deleted j hj
    have hjk : j ≠ k := fun heq => hlinked.kept k hk (heq ▸ hj)
    exact ⟨hd, (hcalled.others hjk (hlinked.made j (.inr hj))).trans hget, hclosed⟩
  · rw [hcalled.stopped_handlers, obeyAll_world]
    intro j hj
    have hlt := hlinked.made j (.inl hj)
    rcases hcalled.calls_shape with ⟨hlen, -⟩ | ⟨hlen, -⟩
    · rw [hlen]
      exact hlt
    · rw [hlen]
      exact Nat.lt_succ_of_lt hlt

/-- The states of a run of `main`: those of its calls of `run`, and the one that its `stop`
leaves. -/
def Seen (P : Platform) (r₀ r : Reactor Agent) : Prop :=
  Moment (api P) (fun _ => True) r₀ r ∨
    ∃ r₁, Reached (api P) (fun _ => True) r₀ r₁ ∧ r₁.phase = .top ∧ stop (api P) r₁ = .ok () r

/-- Sockets are used as long as they are open, and closed once. -/
structure Tended (r : Reactor Agent) : Prop where
  lawful : Along Touches descriptors [] r.world.os.calls
  command : ∀ (k : Nat) (c : Connection), r.world.handlers[k]? = some (.command c) →
    c.io.sock.Consistent
  heartbeat : ∀ (k : Nat) (b : HeartbeatEventHandler),
    r.world.handlers[k]? = some (.heartbeat b) → b.io.sock.Consistent
  once : ∀ fd, closes fd r.world.os.calls ≤ 1
  deleted : ∀ k ∈ r.deleted, closes k r.world.os.calls = 1

theorem Described.step (h : Described r) (htidy : Tidy r)
    (hstep : Yields (Reactor.step (api P)) r fault r') : Described r' := by
  rcases htidy.yields hstep with hturn | ⟨-, hhalts⟩
  · exact h.turn htidy.toLinked hturn
  · exact h.halts htidy.toLinked hhalts

theorem seen_described {os : Os} {polls : List (List PollFlags)} {accepts : List Bool}
    (h : Seen P (start os polls accepts) r) : Described r := by
  have hreached : ∀ {r}, Reached (api P) (fun _ => True) (start os polls accepts) r →
      Described r := by
    intro r h
    induction h with
    | start => exact start_described os polls accepts
    | step h _ hstep ih =>
        have hyields : Yields (step (api P)) _ none _ := hstep
        exact ih.step (reached_tidy h) hyields
  rcases h with (h | ⟨r₁, fault, h, -, hfail⟩) | ⟨r₁, h, -, hstop⟩
  · exact hreached h
  · have hyields : Yields (step (api P)) r₁ (some fault) r := hfail
    exact (hreached h).step (reached_tidy h) hyields
  · have htidy := reached_tidy h
    rw [stop_ok htidy.once htidy.kept] at hstop
    cases hstop
    exact (hreached h).halted fun k hk => htidy.made k (.inl hk)

theorem Described.tended (h : Described r) (hno : .accept none ∉ r.world.os.calls) : Tended r where
  lawful := h.sockets.lawful hno
  command k c hget := (h.sockets.owned k _ hget).consistent
  heartbeat k b hget := (h.sockets.owned k _ hget).consistent
  once fd := by
    cases hget : r.world.handlers[fd]? with
    | none =>
        rw [h.sockets.unborn fd (List.getElem?_eq_none_iff.mp hget)]
        exact Nat.zero_le 1
    | some hd =>
        rcases (h.sockets.owned fd hd hget).state with ⟨-, -, hzero⟩ | ⟨-, hone⟩
        · rw [hzero]
          exact Nat.zero_le 1
        · exact hone.le
  deleted k hk := by
    obtain ⟨hd, hget, hclosed⟩ := h.deleted k hk
    have ho := h.sockets.owned k hd hget
    rcases ho.state with ⟨hsome, -⟩ | ⟨-, hone⟩
    · cases (ho.shut hclosed).symm.trans hsome
    · exact hone

/-- **Socket calls are made on open descriptors, as long as `PR_Accept` returns sockets.** In
every state of every run, up to the end of `main`, each call before has been made on a
descriptor that was open; `mSocket` is NULL exactly when both sides are marked closed; and
each descriptor has been closed at most once, and once if its handler has been deleted: all
this holds if and only if `PR_Accept` has not returned NULL. -/
theorem sockets_tended (P : Platform) (os : Os) (polls : List (List PollFlags))
    (accepts : List Bool) (r : Reactor Agent) (h : Seen P (start os polls accepts) r) :
    Tended r ↔ .accept none ∉ r.world.os.calls := by
  have hr := seen_described h
  constructor
  · intro htended hrefused
    obtain ⟨live, htouch⟩ := htended.lawful.of_mem (hr.sockets.refused hrefused)
    obtain ⟨n, -, hn⟩ := List.mem_map.mp htouch
    cases hn
  · exact hr.tended

/-- A client that closes its side at once. -/
def leavingClient : Reactor Agent :=
  start { recvs := [.eof] } [[{ read := true }], [{}, {}, { read := true }]] []

theorem sockets_tended_eof :
    let r := Reactor.steps (api .plain) 20 leavingClient
    r.deleted = [2] ∧ Tended r := by
  intro r
  have hseen : Seen .plain leavingClient r := .inl (.inl (Reached.start.steps fun _ _ => trivial))
  refine ⟨by decide +kernel, ?_⟩
  exact (sockets_tended .plain _ _ _ r hseen).mpr (by decide +kernel)

/-- A client that is gone when it is accepted. -/
def abortedClient : Reactor Agent := start {} [[{ read := true }]] [false]

/-- `PR_Accept` returns NULL, and `PR_SetSocketOption` is called on it. -/
theorem accept_untended : ∃ r, Seen .plain abortedClient r ∧ ¬ Tended r := by
  have hrun : (match step (api .plain) (Reactor.steps (api .plain) 1 abortedClient) with
      | .error _ r' => decide (NsprCall.setSocketOption none ∈ r'.world.os.calls)
      | .ok _ _ => false) = true := by
    decide +kernel
  split at hrun
  · rename_i fault r' hfail
    have hreached : Reached (api .plain) (fun _ => True) abortedClient
        (Reactor.steps (api .plain) 1 abortedClient) := Reached.start.steps fun _ _ => trivial
    refine ⟨r', .inl (.inr ⟨_, fault, hreached, trivial, hfail⟩), fun htended => ?_⟩
    obtain ⟨live, htouch⟩ := htended.lawful.of_mem (of_decide_eq_true hrun)
    obtain ⟨n, -, hn⟩ := List.mem_map.mp htouch
    cases hn
  · cases hrun

end Agent

end Negatus
