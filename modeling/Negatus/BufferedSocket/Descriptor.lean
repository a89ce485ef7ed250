import Negatus.BufferedSocket.Steps

/-!
# The life of a descriptor

`mSocket` is given up by `close` only, and `close` is called by its users or when
both sides have been closed. So the descriptor is there as long as one of the two
sides is open.
-/

namespace Negatus

open Relation

namespace BufferedSocket

/-- `mSocket` is NULL exactly when both sides are marked closed. -/
def Consistent (s : BufferedSocket) : Prop :=
  s.mSocket = none ↔ s.mRecvClosed = true ∧ s.mSendClosed = true

theorem new_consistent (socket : Nat) : (new socket).Consistent := by
  simp [Consistent, new]

theorem close_closed (io : Io) : (close io).sock.mSocket = none := by
  unfold close
  split
  · rename_i hclosed
    exact Option.isNone_iff_eq_none.mp hclosed
  · rfl

theorem close_consistent {io : Io} (h : io.sock.Consistent) : (close io).sock.Consistent := by
  unfold close
  split
  · exact h
  · exact iff_of_true rfl ⟨rfl, rfl⟩

/-- After `close` both sides are marked closed. -/
theorem close_sides {io : Io} (h : io.sock.Consistent) :
    (close io).sock.mRecvClosed = true ∧ (close io).sock.mSendClosed = true :=
  (close_consistent h).mp (close_closed io)

theorem closeRecv_consistent {io : Io} (h : io.sock.Consistent) :
    (closeRecv io).sock.Consistent := by
  unfold closeRecv
  dsimp only
  split
  · rename_i hsend
    unfold close
    split
    · rename_i hclosed
      exact iff_of_true (Option.isNone_iff_eq_none.mp hclosed) ⟨rfl, hsend⟩
    · exact iff_of_true rfl ⟨rfl, rfl⟩
  · rename_i hsend
    have hopen : io.sock.mSocket ≠ none := fun hnone => hsend (h.mp hnone).2
    exact iff_of_false hopen fun hboth => hsend hboth.2

theorem closeSend_consistent {io : Io} (h : io.sock.Consistent) :
    (closeSend io).sock.Consistent := by
  unfold closeSend
  dsimp only
  split
  · rename_i hrecv
    unfold close
    split
    · rename_i hclosed
      exact iff_of_true (Option.isNone_iff_eq_none.mp hclosed) ⟨hrecv, rfl⟩
    · exact iff_of_true rfl ⟨rfl, rfl⟩
  · rename_i hrecv
    have hopen : io.sock.mSocket ≠ none := fun hnone => hrecv (h.mp hnone).1
    exact iff_of_false hopen fun hboth => hrecv hboth.1

theorem RecvStep.consistent {io io' : Io} (hstep : RecvStep io io') (h : io.sock.Consistent) :
    io'.sock.Consistent := by
  cases hstep with
  | quiet => exact h
  | data => exact h
  | ended os => exact closeRecv_consistent h

theorem recv_path_consistent {io io' : Io} (hpath : ReflTransGen RecvStep io io')
    (h : io.sock.Consistent) : io'.sock.Consistent := by
  induction hpath with
  | refl => exact h
  | tail _ hstep ih => exact hstep.consistent ih

theorem write_consistent (buf : Bytes) (size : Nat) {io : Io} (h : io.sock.Consistent) :
    (write buf size io).sock.Consistent := by
  unfold write
  split
  · exact h
  · dsimp only
    split
    · exact h
    · exact h
    · exact h
    · exact closeSend_consistent h

theorem read_consistent (size : Nat) {io : Io} (h : io.sock.Consistent) :
    (read size io).2.sock.Consistent := by
  cases hread : read size io with
  | mk out io' =>
      obtain ⟨io₁, b, hpath, -, -, rfl, -⟩ := read_spec hread
      have hio₁ := recv_path_consistent hpath h
      dsimp only
      split <;> exact hio₁

theorem readLine_consistent {io io' : Io} {raw : Bytes} {len : Int} (h : io.sock.Consistent)
    (hread : readLine io = some (raw, len, io')) : io'.sock.Consistent := by
  obtain ⟨io₁, b, hpath, -, rfl, -⟩ := readLine_spec hread
  have hio₁ := recv_path_consistent hpath h
  split <;> exact hio₁

/-! ## The calls on a descriptor -/

/-- A call that works with a descriptor, which is there. -/
def Uses (fd : Option Nat) (call : NsprCall) : Prop :=
  ∃ n, fd = some n ∧ (call = .recv (some n) ∨ call = .send (some n))

/-- What happens to a descriptor: it is used, and in the end it may be closed. -/
inductive Usage : Option Nat → Option Nat → List NsprCall → Prop
  | used (fd : Option Nat) (calls : List NsprCall) (h : ∀ c ∈ calls, Uses fd c) : Usage fd fd calls
  | closed (n : Nat) (calls : List NsprCall) (h : ∀ c ∈ calls, Uses (some n) c) :
      Usage (some n) none (calls ++ [.shutdown (some n), .close (some n)])

theorem Usage.trans {fd₁ fd₂ fd₃ : Option Nat} {calls calls' : List NsprCall}
    (h : Usage fd₁ fd₂ calls) (h' : Usage fd₂ fd₃ calls') : Usage fd₁ fd₃ (calls ++ calls') := by
  cases h with
  | used _ _ h =>
      cases h' with
      | used _ _ h' => exact .used _ _ (List.forall_mem_append.mpr ⟨h, h'⟩)
      | closed n calls' h' =>
          rw [← List.append_assoc]
          exact .closed n _ (List.forall_mem_append.mpr ⟨h, h'⟩)
  | closed n calls h =>
      cases h' with
      | used _ _ h' =>
          obtain rfl : calls' = [] := by
            refine List.eq_nil_iff_forall_not_mem.mpr fun c hc => ?_
            obtain ⟨m, hm, -⟩ := h' c hc
            cases hm
          rw [List.append_nil]
          exact .closed n calls h

theorem Usage.gone {fd fd' : Option Nat} {calls : List NsprCall} (h : Usage fd fd' calls)
    (hnone : fd = none) : fd' = none := by
  cases h with
  | used => exact hnone
  | closed => rfl

/-- From `io` to `io'`, calls are made on `mSocket` only, and only as long as it is not
closed. -/
def Lives (io io' : Io) : Prop :=
  io.sock.Consistent → io'.sock.Consistent ∧
    ∃ calls, io'.os.calls = io.os.calls ++ calls ∧ Usage io.sock.mSocket io'.sock.mSocket calls

/-- Nothing is done to the socket. -/
theorem lives_of_same {io io' : Io} (hsocket : io'.sock.mSocket = io.sock.mSocket)
    (hrecv : io'.sock.mRecvClosed = io.sock.mRecvClosed)
    (hsend : io'.sock.mSendClosed = io.sock.mSendClosed) (hcalls : io'.os.calls = io.os.calls) :
    Lives io io' := by
  intro hio
  refine ⟨?_, [], by simp [hcalls], ?_⟩
  · unfold Consistent
    rw [hsocket, hrecv, hsend]
    exact hio
  · rw [hsocket]
    exact .used _ [] nofun

instance : IsPreorder Io Lives where
  refl _ := lives_of_same rfl rfl rfl rfl
  trans io₁ io₂ io₃ h h' hio := by
    obtain ⟨hio₂, calls, hcalls, husage⟩ := h hio
    obtain ⟨hio₃, calls', hcalls', husage'⟩ := h' hio₂
    exact ⟨hio₃, calls ++ calls', by rw [hcalls', hcalls, List.append_assoc], husage.trans husage'⟩

theorem Lives.trans {io₁ io₂ io₃ : Io} (h : Lives io₁ io₂) (h' : Lives io₂ io₃) : Lives io₁ io₃ :=
  IsTrans.trans _ _ _ h h'

theorem lives_setOs (io : Io) {os : Os} (h : os.calls = io.os.calls) : Lives io (io.setOs os) :=
  lives_of_same rfl rfl rfl h

theorem lives_log (io : Io) (e : Event) : Lives io (io.log e) := lives_of_same rfl rfl rfl rfl

theorem close_usage (io : Io) :
    ∃ calls, (close io).os.calls = io.os.calls ++ calls ∧
      Usage io.sock.mSocket (close io).sock.mSocket calls := by
  unfold close closed
  cases hsocket : io.sock.mSocket with
  | none => exact ⟨[], (List.append_nil _).symm, hsocket.symm ▸ .used none [] nofun⟩
  | some n =>
      refine ⟨[.shutdown (some n), .close (some n)], ?_, .closed n [] nofun⟩
      show io.os.calls ++ [.shutdown io.sock.mSocket] ++ [.close io.sock.mSocket] = _
      rw [hsocket, List.append_assoc]
      rfl

theorem close_lives (io : Io) : Lives io (close io) :=
  fun hio => ⟨close_consistent hio, close_usage io⟩

theorem closeRecv_lives (io : Io) : Lives io (closeRecv io) := by
  refine fun hio => ⟨closeRecv_consistent hio, ?_⟩
  unfold closeRecv
  dsimp only
  split
  · exact close_usage { io with sock := { io.sock with mRecvClosed := true } }
  · exact ⟨[], (List.append_nil _).symm, .used _ [] nofun⟩

theorem closeSend_lives (io : Io) : Lives io (closeSend io) := by
  refine fun hio => ⟨closeSend_consistent hio, ?_⟩
  unfold closeSend
  dsimp only
  split
  · exact close_usage { io with sock := { io.sock with mSendClosed := true } }
  · exact ⟨[], (List.append_nil _).symm, .used _ [] nofun⟩

/-- As long as one side is open, the descriptor is there. -/
theorem Consistent.open {s : BufferedSocket} (h : s.Consistent)
    (hopen : s.mRecvClosed = false ∨ s.mSendClosed = false) : ∃ n, s.mSocket = some n := by
  refine Option.ne_none_iff_exists'.mp fun hnone => ?_
  obtain ⟨hrecv, hsend⟩ := h.mp hnone
  rcases hopen with hopen | hopen
  · exact Bool.false_ne_true (hopen.symm.trans hrecv)
  · exact Bool.false_ne_true (hopen.symm.trans hsend)

/-- One call of `PR_Recv` or `PR_Send` while that side is open. -/
theorem call_lives {name : Option Nat → NsprCall} {io : Io} {os : Os}
    (hname : name = .recv ∧ io.sock.mRecvClosed = false ∨
      name = .send ∧ io.sock.mSendClosed = false)
    (hcalls : os.calls = (io.call name).os.calls) : Lives io (io.setOs os) := by
  intro hio
  obtain ⟨n, hn⟩ := hio.open (hname.imp And.right And.right)
  refine ⟨hio, [name io.sock.mSocket], hcalls, .used _ _ fun c hc => ⟨n, hn, ?_⟩⟩
  rw [List.mem_singleton.mp hc, hn]
  exact hname.imp (fun h => congrFun h.1 _) (fun h => congrFun h.1 _)

theorem readIntoBuffer_lives (size : Nat) (io : Io) : Lives io (readIntoBuffer size io).2 := by
  unfold readIntoBuffer
  split
  · exact Std.Refl.refl io
  · rename_i h
    have hopen : io.sock.mRecvClosed = false := Bool.not_eq_true _ ▸ fun hclosed => h (.inr hclosed)
    have hcall : Lives io (io.setOs (io.call .recv).os.recv.2) :=
      call_lives (.inl ⟨rfl, hopen⟩) rfl
    refine hcall.trans ?_
    generalize (io.call .recv).os.recv = r
    obtain ⟨answer, os⟩ := r
    cases answer with
    | data b bs => exact lives_of_same rfl rfl rfl rfl
    | wouldBlock => exact Std.Refl.refl _
    | eof => exact (lives_log _ _).trans (closeRecv_lives _)
    | error => exact (lives_log _ _).trans (closeRecv_lives _)

theorem drainLoop_lives (size fuel : Nat) (io : Io) : Lives io (drainLoop size fuel io) := by
  induction fuel generalizing io with
  | zero => exact Std.Refl.refl io
  | succ fuel ih =>
      have hstep := readIntoBuffer_lives size io
      rw [drainLoop]
      split
      · rename_i io' hr
        rwa [hr] at hstep
      · rename_i n io' hr
        rw [hr] at hstep
        exact hstep.trans (ih io')

theorem drain_lives (size : Nat) (io : Io) : Lives io (drain size io) := drainLoop_lives size _ io

theorem read_lives (size : Nat) (io : Io) : Lives io (read size io).2 := by
  unfold read
  dsimp only
  refine (drain_lives 1024 io).trans ?_
  split
  · exact lives_of_same rfl rfl rfl rfl
  · exact lives_of_same rfl rfl rfl rfl

theorem readLine_lives {io io' : Io} {raw : Bytes} {len : Int}
    (h : readLine io = some (raw, len, io')) : Lives io io' := by
  refine (drain_lives 256 io).trans ?_
  unfold readLine at h
  dsimp only at h
  split at h
  · cases h
  · obtain ⟨-, -, rfl⟩ : _ = raw ∧ _ = len ∧ _ = io' := by simpa using h
    split
    · exact lives_of_same rfl rfl rfl rfl
    · exact lives_of_same rfl rfl rfl rfl

theorem write_lives (buf : Bytes) (size : Nat) (io : Io) : Lives io (write buf size io) := by
  unfold write
  split
  · exact Std.Refl.refl io
  · rename_i h
    have hopen : io.sock.mSendClosed = false := Bool.not_eq_true _ ▸ fun hclosed => h (.inr hclosed)
    have hcall : Lives io (io.setOs (io.call .send).os.send.2) :=
      call_lives (.inr ⟨rfl, hopen⟩) rfl
    refine hcall.trans ?_
    generalize (io.call .send).os.send = r
    obtain ⟨answer, os⟩ := r
    cases answer with
    | all => exact lives_log _ _
    | short k => exact lives_log _ _
    | wouldBlock => exact lives_log _ _
    | error => exact (lives_log _ _).trans (closeSend_lives _)

theorem writeString_lives (line : Bytes) (io : Io) : Lives io (writeString line io) :=
  write_lives line _ io

/-! ## The owner of a socket -/

/-- From `io` to `io'`, the flag `mClosed` of the owner goes from `closed` to `closed'`. It is
set only with the socket closed. -/
structure OwnerLives (closed : Bool) (io : Io) (closed' : Bool) (io' : Io) : Prop where
  lives : Lives io io'
  shut : io.sock.Consistent → closed' = true → closed = true ∨ io'.sock.mSocket = none

theorem Lives.owner {io io' : Io} (h : Lives io io') (closed : Bool) :
    OwnerLives closed io closed io' :=
  ⟨h, fun _ => .inl⟩

theorem OwnerLives.trans {closed₁ closed₂ closed₃ : Bool} {io₁ io₂ io₃ : Io}
    (h : OwnerLives closed₁ io₁ closed₂ io₂) (h' : OwnerLives closed₂ io₂ closed₃ io₃) :
    OwnerLives closed₁ io₁ closed₃ io₃ := by
  refine ⟨h.lives.trans h'.lives, fun hio hclosed => ?_⟩
  obtain ⟨hio₂, -⟩ := h.lives hio
  rcases h'.shut hio₂ hclosed with hclosed | hnone
  · rcases h.shut hio hclosed with hclosed | hnone
    · exact .inl hclosed
    · obtain ⟨-, calls, -, husage⟩ := h'.lives hio₂
      exact .inr (husage.gone hnone)
  · exact .inr hnone

/-- `mClosed` is set where the socket is closed. -/
theorem close_owner (closed : Bool) (io : Io) : OwnerLives closed io true (close io) :=
  ⟨close_lives io, fun _ _ => .inr (close_closed io)⟩

end BufferedSocket

end Negatus
