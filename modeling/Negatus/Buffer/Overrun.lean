import Negatus.Buffer.Reached

/-!
# `get` of more than is there

The loop of `get` compares the two positions between two copies only, and a copy
is bounded by the size of the block, not by the put position. Asked for more
bytes than are buffered, it is right as long as it meets the put position at the
beginning of a block; in the middle of a block it copies bytes that were never
put, and leaves the get position behind the put position.
-/

namespace Negatus

open Foundations

namespace BlockBuffer

/-- What `get` has stored stays in `out`. -/
theorem getLoop_length {size fuel : Nat} {b b' : BlockBuffer} {out out' : Bytes}
    (h : getLoop size fuel b out = some (out', b')) : out.length ≤ out'.length := by
  induction fuel generalizing b out with
  | zero => simp [getLoop] at h
  | succ fuel ih =>
      rw [getLoop] at h
      split at h
      · obtain ⟨blockp, -, h⟩ := Option.bind_eq_some_iff.mp h
        obtain ⟨room, -, h⟩ := Option.bind_eq_some_iff.mp h
        obtain ⟨gotten, -, h⟩ := Option.bind_eq_some_iff.mp h
        obtain ⟨b₁, -, h⟩ := Option.bind_eq_some_iff.mp h
        have hle := ih h
        rw [List.length_append] at hle
        omega
      · obtain ⟨rfl, -⟩ := Prod.mk.inj (Option.some.inj h)
        exact Nat.le_refl _

/-- Asked for more than is there, `get` empties all blocks but the last. -/
theorem getLoop_excess {size fuel : Nat} {b : BlockBuffer} {out : Bytes} (h : b.Linked)
    (hmore : out.length + b.unread.length < size) (hfuel : b.mBlocks.length < fuel) :
    ∃ b₁ n fuel₁ last, getLoop size (fuel₁ + 1) b₁ (out ++ b.unread.take n) =
        getLoop size fuel b out ∧ b₁.mBlocks = [last] ∧ n ≤ b.unread.length ∧
      Advanced b n b₁ ∧ (b₁.mGetPtr = b₁.mPutPtr ↔ b.mPutPtr.elem = 0 ∨ b.mGetPtr = b.mPutPtr) := by
  induction fuel generalizing b out with
  | zero => omega
  | succ fuel ih =>
      obtain ⟨head, tail, hblocks, hget⟩ := h.get_elem
      obtain ⟨init, last, hlast, hput, hle⟩ := h.put_last
      by_cases htail : tail = []
      -- one block is left: here it is decided whether the positions meet
      · subst htail
        rw [if_pos rfl] at hget
        obtain ⟨rfl, rfl⟩ := snoc_inj (show [] ++ [head] = _ from hblocks.symm.trans hlast)
        refine ⟨b, 0, fuel, head, by simp, hblocks, Nat.zero_le _,
          ⟨h, by simp, id, fun _ => id⟩, Or.inr, ?_⟩
        rintro (hzero | heq)
        · ext
          · rw [h.get_block, hput]
            rfl
          · omega
        · exact heq
      · rw [if_neg htail] at hget
        have hhead : head.mSize ≤ head.mData.length :=
          h.sizes head (by rw [hblocks]; exact List.mem_cons_self)
        have hunread := unread_cons hblocks htail hget hhead
        have hlen : head.mSize - b.mGetPtr.elem ≤ b.unread.length := by
          rw [hunread, List.length_append, List.length_drop, List.length_take]
          omega
        obtain ⟨init', rfl, htail'⟩ := snoc_of_cons htail (hblocks.symm.trans hlast)
        have hne : b.mGetPtr ≠ b.mPutPtr := by
          intro heq
          have := congrArg BlockPtr.block heq
          rw [h.get_block, hput] at this
          simp at this
        obtain ⟨b', hb', hadv, hblocks', hget', hput'⟩ := advance_erase h hblocks htail
          (n := head.mSize - b.mGetPtr.elem) (by omega)
        have hgot : head.get b.mGetPtr.elem (head.mSize - b.mGetPtr.elem) =
            some (b.unread.take (head.mSize - b.mGetPtr.elem)) := by
          rw [Block.get_eq (by omega), hunread, List.take_append_of_le_length (by simp; omega),
            List.drop_take, List.take_take, Nat.min_self]
        -- a round copies the rest of the first block and erases it, and the loop goes on
        have hround : getLoop size (fuel + 1) b out =
            getLoop size fuel b' (out ++ b.unread.take (head.mSize - b.mGetPtr.elem)) := by
          rw [getLoop, if_pos ⟨by omega, hne⟩]
          have hblockp : b.mBlocks[b.mGetPtr.block]? = some head := by
            simp [hblocks, h.get_block]
          simp only [hblockp, Option.bind_eq_bind, Option.bind_some, sub32_of_le hget]
          rw [if_pos (by omega), hgot, Option.bind_some, hb', Option.bind_some]
        have hlen' : (out ++ b.unread.take (head.mSize - b.mGetPtr.elem)).length =
            out.length + (head.mSize - b.mGetPtr.elem) := by
          rw [List.length_append, List.length_take, Nat.min_eq_left hlen]
        have hmore' : (out ++ b.unread.take (head.mSize - b.mGetPtr.elem)).length +
            b'.unread.length < size := by
          rw [hlen', hadv.unread_eq, List.length_drop]
          omega
        obtain ⟨b₁, n, fuel₁, last₁, hloop, hblocks₁, hn, hadv₁, hmeet⟩ :=
          ih hadv.linked hmore' (by rw [hblocks'] ; rw [hblocks, List.length_cons] at hfuel; omega)
        have hlen'' : b'.unread.length = b.unread.length - (head.mSize - b.mGetPtr.elem) := by
          rw [hadv.unread_eq, List.length_drop]
        refine ⟨b₁, head.mSize - b.mGetPtr.elem + n, fuel₁, last₁, ?_, hblocks₁, by omega,
          ⟨hadv₁.linked, ?_, fun ht => hadv₁.tidy (hadv.tidy ht),
            fun m hb => hadv₁.bounded m (hadv.bounded m hb)⟩, ?_⟩
        · rw [hround, ← hloop, hadv.unread_eq, List.take_add, List.append_assoc]
        · rw [hadv₁.unread_eq, hadv.unread_eq, List.drop_drop]
        · rw [hmeet, hget', hput']
          constructor
          · rintro (hzero | heq)
            · exact Or.inl hzero
            · exact Or.inl (hput' ▸ congrArg BlockPtr.elem heq.symm)
          · rintro (hzero | heq)
            · exact Or.inl hzero
            · exact absurd heq hne

theorem Block.get_length {blk : Block} {start n : Nat} {bs : Bytes}
    (hsize : blk.mSize ≤ blk.mData.length) (h : blk.get start n = some bs) : bs.length = n := by
  by_cases hle : start + n ≤ blk.mSize
  · rw [Block.get_eq hle] at h
    obtain rfl := Option.some.inj h
    rw [List.length_take, List.length_drop]
    omega
  · simp [Block.get, hle] at h

/-- In the only block, away from the put position, the copy goes past it. -/
theorem getLoop_overrun {size fuel : Nat} {b b' : BlockBuffer} {out out' : Bytes} {last : Block}
    (h : b.Linked) (hblocks : b.mBlocks = [last]) (hne : b.mGetPtr ≠ b.mPutPtr)
    (hmore : out.length + b.unread.length < size)
    (hloop : getLoop size (fuel + 1) b out = some (out', b')) :
    out.length + b.unread.length < out'.length := by
  obtain ⟨init, last', hlast, hput, hle⟩ := h.put_last
  obtain ⟨rfl, rfl⟩ := snoc_inj (show [] ++ [last] = _ from hblocks.symm.trans hlast)
  have hsize : last.mSize ≤ last.mData.length := h.sizes last (by rw [hblocks]; simp)
  obtain ⟨head, tail, hcons, hget⟩ := h.get_elem
  obtain ⟨rfl, rfl⟩ := List.cons.inj (hblocks.symm.trans hcons)
  rw [if_pos rfl] at hget
  have helem : b.mGetPtr.elem ≠ b.mPutPtr.elem := by
    intro heq
    apply hne
    ext
    · rw [h.get_block, hput]
      rfl
    · exact heq
  -- a copy is bounded by the size of the block, which lies behind the put position
  have hroom : b.mPutPtr.elem < last.mSize := by
    rcases h.put_room [] last hblocks with hroom | ⟨hzero, -⟩
    · exact hroom
    · omega
  have hunread : b.unread.length = b.mPutPtr.elem - b.mGetPtr.elem := by
    rw [unread_single hblocks, List.length_drop, List.length_take]
    omega
  have hblockp : b.mBlocks[b.mGetPtr.block]? = some last := by simp [hblocks, h.get_block]
  rw [getLoop, if_pos ⟨by omega, hne⟩] at hloop
  simp only [hblockp, Option.bind_eq_bind, Option.bind_some,
    sub32_of_le (show b.mGetPtr.elem ≤ last.mSize by omega)] at hloop
  obtain ⟨gotten, hgot, hloop⟩ := Option.bind_eq_some_iff.mp hloop
  obtain ⟨b₁, -, hloop⟩ := Option.bind_eq_some_iff.mp hloop
  have hcopied : b.mPutPtr.elem - b.mGetPtr.elem < gotten.length := by
    rw [Block.get_length hsize hgot]
    split <;> omega
  have hkept := getLoop_length hloop
  rw [List.length_append] at hkept
  omega

/-- What `get` does when it is asked for more than is there: it hands out all
that was put if it meets the put position between two copies, and bytes that were
never put if not. -/
theorem get_excess {b : BlockBuffer} (h : b.Linked) {size : Nat} (hmore : b.unread.length < size) :
    ((b.mPutPtr.elem = 0 ∨ b.mGetPtr = b.mPutPtr) →
      ∃ b', b.get size = some (b.unread, b') ∧ Advanced b b.unread.length b') ∧
    (¬ (b.mPutPtr.elem = 0 ∨ b.mGetPtr = b.mPutPtr) →
      ∀ out b', b.get size = some (out, b') → b.unread.length < out.length) := by
  obtain ⟨b₁, n, fuel₁, last, hloop, hblocks, hn, hadv, hmeet⟩ :=
    getLoop_excess h (show ([] : Bytes).length + b.unread.length < size by simpa using hmore)
      (show b.mBlocks.length < size + b.mBlocks.length + 1 by omega)
  rw [List.nil_append] at hloop
  have hlen : (b.unread.take n).length + b₁.unread.length = b.unread.length := by
    rw [hadv.unread_eq, List.length_take, List.length_drop]
    omega
  constructor
  · intro hstop
    have heq := hmeet.mpr hstop
    have hempty : b₁.unread = [] := by
      rw [unread_single hblocks, heq]
      simp
    have hall : n = b.unread.length := by
      rw [hempty, List.length_nil, List.length_take] at hlen
      omega
    subst hall
    refine ⟨b₁, ?_, hadv⟩
    rw [get, ← hloop, List.take_length]
    simp [getLoop, heq]
  · intro hstop out b' hget
    have hne : b₁.mGetPtr ≠ b₁.mPutPtr := fun heq => hstop (hmeet.mp heq)
    rw [get, ← hloop] at hget
    have hlt := getLoop_overrun hadv.linked hblocks hne (by omega) hget
    omega

/-- The condition under which `get` hands out only what was put: it is asked for
at most `avail()` bytes, or it meets the put position between two copies. What is
handed out is counted in an `int`, and `avail()` counts in a `PRUint32`. -/
def GetMeets (b : BlockBuffer) (size : Nat) : Prop :=
  (size ≤ wrap32 b.unread.length ∨
    b.unread.length < 2 ^ 32 ∧ (b.mPutPtr.elem = 0 ∨ b.mGetPtr = b.mPutPtr)) ∧
  min size b.unread.length < 2 ^ 31

def GetsMeet (b : BlockBuffer) : BufferOp → Prop
  | .get size => GetMeets b size
  | _ => True

/-- At least one block, the put position in the last one and inside it, and the
get position not past it. -/
structure Valid (b : BlockBuffer) : Prop extends Placed b where
  put_last : b.mPutPtr.block + 1 = b.mBlocks.length

theorem Tidy.valid {b : BlockBuffer} (h : b.Tidy) : b.Valid where
  toPlaced := h.placed
  put_last := by
    obtain ⟨init, last, hlast, hput, -⟩ := h.put_last
    rw [hput, hlast]
    simp

/-- `get(out, size)` on a buffer that holds `q`: it returns `min(size, avail())`,
stores the first that many bytes of `q`, and leaves a valid buffer that goes on as
a queue of the rest. -/
def HandsOut (b : BlockBuffer) (q : Bytes) (size : Nat) : Prop :=
  ∃ n b', b.avail = some n ∧
    step b (.get size) = some (⟨(min size n : Nat), q.take (min size n)⟩, b') ∧ b'.Valid ∧
    ∀ ops, LegalRun QueueLegal fifoStep (q.drop (min size n)) ops →
      ∃ b'', runOps step b' ops = some ((runSpec fifoStep (q.drop (min size n)) ops).1, b'') ∧
        b''.Valid

/-- A tidy chain goes on as a queue. -/
theorem Tidy.goesOn {b : BlockBuffer} (h : b.Tidy) {ops : List BufferOp}
    (hl : LegalRun QueueLegal fifoStep b.unread ops) :
    ∃ b', runOps step b ops = some ((runSpec fifoStep b.unread ops).1, b') ∧ b'.Valid := by
  obtain ⟨b', hrun, htidy, -⟩ := refines_queue.run h hl
  exact ⟨b', hrun, htidy.valid⟩

theorem get_of_meets {b : BlockBuffer} (h : b.Linked) {size : Nat} (hmeet : GetMeets b size) :
    ∃ b', b.get size = some (b.unread.take (min size (wrap32 b.unread.length)), b') ∧
      Advanced b (min size (wrap32 b.unread.length)) b' := by
  obtain ⟨hle | ⟨hlt, hstop⟩, -⟩ := hmeet
  · rw [Nat.min_eq_left hle]
    exact get_spec h (Nat.le_trans hle (Nat.mod_le _ _))
  · rw [wrap32_of_lt hlt]
    by_cases hle : size ≤ b.unread.length
    · rw [Nat.min_eq_left hle]
      exact get_spec h hle
    · rw [Nat.min_eq_right (by omega), List.take_length]
      exact (get_excess h (by omega)).1 hstop

theorem handsOut_iff {b : BlockBuffer} (h : b.Tidy) (size : Nat) :
    HandsOut b b.unread size ↔ GetMeets b size := by
  have hwrap : wrap32 b.unread.length ≤ b.unread.length := Nat.mod_le _ _
  constructor
  · rintro ⟨n, b', havail, hstep, -, -⟩
    obtain rfl : wrap32 b.unread.length = n := by
      simpa [avail_spec h.toLinked] using havail
    obtain ⟨out, b₁, hget, hret, hout⟩ : ∃ out b₁, b.get size = some (out, b₁) ∧
        int32 out.length = (min size (wrap32 b.unread.length) : Nat) ∧
        out = b.unread.take (min size (wrap32 b.unread.length)) := by
      simp only [step, Option.bind_eq_bind, Option.bind_eq_some_iff, Prod.exists,
        Option.some.injEq, Prod.mk.injEq, Reply.mk.injEq] at hstep
      obtain ⟨out, b₁, hget, ⟨hret, hout⟩, -⟩ := hstep
      exact ⟨out, b₁, hget, hret, hout⟩
    have hlen : out.length = min size (wrap32 b.unread.length) := by
      rw [hout, List.length_take]
      omega
    -- the returned `int` is not negative
    have hint : min size (wrap32 b.unread.length) < 2 ^ 31 := by
      rw [hlen] at hret
      unfold int32 at hret
      rw [Int.bmod_def] at hret
      split at hret <;> omega
    by_cases hle : size ≤ b.unread.length
    · obtain ⟨b₂, hget', -⟩ := get_spec h.toLinked hle
      obtain ⟨rfl, -⟩ : b.unread.take size = out ∧ b₂ = b₁ := by simpa [hget'] using hget
      rw [List.length_take, Nat.min_eq_left hle] at hlen
      exact ⟨Or.inl (by omega), by omega⟩
    -- more is asked for than is there: the loop stops in time only where the positions meet
    -- between two copies
    · obtain ⟨hstop, hrun⟩ := get_excess h.toLinked (Nat.lt_of_not_le hle)
      by_cases hmeet : b.mPutPtr.elem = 0 ∨ b.mGetPtr = b.mPutPtr
      · obtain ⟨b₂, hget', -⟩ := hstop hmeet
        obtain ⟨rfl, -⟩ : b.unread = out ∧ b₂ = b₁ := by simpa [hget'] using hget
        have hlt : wrap32 b.unread.length < 2 ^ 32 := Nat.mod_lt _ (by decide)
        exact ⟨Or.inr ⟨by omega, hmeet⟩, by omega⟩
      · have := hrun hmeet out b₁ hget
        omega
  · intro hmeet
    obtain ⟨b', hget, hadv⟩ := get_of_meets h.toLinked hmeet
    have hint := hmeet.2
    refine ⟨_, b', avail_spec h.toLinked, ?_, (hadv.tidy h).valid, ?_⟩
    · have hlen : (b.unread.take (min size (wrap32 b.unread.length))).length =
          min size (wrap32 b.unread.length) := by
        rw [List.length_take]
        omega
      simp only [step, hget, Option.bind_eq_bind, Option.bind_some, hlen]
      rw [int32_of_lt (by omega)]
    · intro ops hl
      rw [← hadv.unread_eq] at hl ⊢
      exact (hadv.tidy h).goesOn hl

theorem GetsMeet.called {b b' : BlockBuffer} {op : BufferOp} {r : Reply} (h : b.Tidy)
    (hok : GetsMeet b op) (hstep : step b op = some (r, b')) : Called b op r b' := by
  cases op with
  | get size =>
      obtain ⟨b₁, hget, hadv⟩ := get_of_meets h.toLinked hok
      obtain ⟨rfl, rfl⟩ : _ = r ∧ b₁ = b' := by simpa [step, hget] using hstep
      have hwrap : wrap32 b.unread.length ≤ b.unread.length := Nat.mod_le _ _
      refine (hadv.kept ?_ rfl).called h
      show (b.unread.take (min size (wrap32 b.unread.length))).length = _
      rw [List.length_take]
      omega
  | put bs => exact step_called h (by simp) hstep
  | getline => exact step_called h (by simp) hstep
  | getlineArray out size => exact step_called h (by simp) hstep
  | find => exact step_called h (by simp) hstep
  | avail => exact step_called h (by simp) hstep

/-- **When `get` hands out only what was put.** In every history of calls whose
`get`s meet the put position, the next `get` behaves as the queue does if and only
if it meets the put position too. -/
theorem get_hands_out_iff {n : Nat} (hn : 0 < n) {b : BlockBuffer} {q : Bytes}
    (h : Reached GetsMeet n b q) (size : Nat) : HandsOut b q size ↔ GetMeets b size := by
  obtain ⟨htidy, rfl, -⟩ := h.called hn fun _ _ _ _ => GetsMeet.called
  exact handsOut_iff htidy size

/-- A buffer of four-byte blocks after `put("a", 1)`. -/
def oneByte : BlockBuffer := ⟨4, [⟨4, [97, 0, 0, 0]⟩], ⟨0, 0⟩, ⟨0, 1⟩⟩

theorem oneByte_reached (ok : BlockBuffer → BufferOp → Prop)
    (hok : ok (BlockBuffer.new 4) (.put (str "a"))) : Reached ok 4 oneByte (str "a") :=
  Reached.call Reached.new hok (show step (BlockBuffer.new 4) (.put (str "a")) =
    some (⟨1, []⟩, oneByte) by decide)

theorem get_hands_out_iff_one_byte : HandsOut oneByte (str "a") 1 ↔ GetMeets oneByte 1 :=
  get_hands_out_iff (n := 4) (by decide) (oneByte_reached GetsMeet trivial) 1

/-- Two bytes are asked for where one was put: the second one is whatever the
block holds, and the get position passes the put position. With the whole block
the erased block takes the put position along, and its index wraps. -/
theorem get_past_put :
    Reached (fun _ _ => True) 4 oneByte (str "a") ∧ ¬ HandsOut oneByte (str "a") 2 ∧
      step oneByte (.get 2) = some (⟨2, [97, 0]⟩, { oneByte with mGetPtr := ⟨0, 2⟩ }) ∧
      step oneByte (.get 4) = none := by
  have htwo : step oneByte (.get 2) =
      some (⟨2, [97, 0]⟩, { oneByte with mGetPtr := ⟨0, 2⟩ }) := by decide
  refine ⟨oneByte_reached _ trivial, ?_, htwo, by decide⟩
  rintro ⟨n, b', havail, hstep, -⟩
  obtain rfl : 1 = n := Option.some.inj ((show oneByte.avail = some 1 by decide).symm.trans havail)
  rw [htwo] at hstep
  have hret := congrArg Reply.ret (Prod.mk.inj (Option.some.inj hstep)).1
  simp at hret

end BlockBuffer

end Negatus
