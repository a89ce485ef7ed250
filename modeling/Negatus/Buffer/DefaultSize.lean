import Negatus.Buffer.Reached

/-!
# Any default block size

With blocks of size zero `put` may append blocks for ever. A buffer whose default
block size is zero is a chain all the same: `put` and `advancePutPtr` are the only
operations that ask for the default block size, and when they return, they keep the
chain.
-/

namespace Negatus

namespace BlockBuffer

/-! ## Most operations do not look at it -/

/-- The buffer as it would be with another default block size. -/
abbrev withDefault (d : Nat) (b : BlockBuffer) : BlockBuffer := { b with mDefaultBlockSize := d }

section

variable (d : Nat) (b : BlockBuffer)

theorem eraseFront_withDefault (n : Nat) :
    eraseFront n (b.withDefault d) = (eraseFront n b).map (withDefault d) := by
  induction n generalizing b with
  | zero => rfl
  | succ n ih =>
      obtain ⟨size, blocks, getPtr, putPtr⟩ := b
      cases blocks with
      | nil => rfl
      | cons blk blocks =>
          simp only [eraseFront, Option.bind_eq_bind]
          cases sub32 putPtr.block 1 with
          | none => rfl
          | some putBlock => exact ih ⟨size, blocks, ⟨n, getPtr.elem⟩, ⟨putBlock, putPtr.elem⟩⟩

theorem updateBufferStart_withDefault :
    updateBufferStart (b.withDefault d) = (updateBufferStart b).map (withDefault d) := by
  obtain ⟨size, blocks, getPtr, putPtr⟩ := b
  simp only [updateBufferStart, withDefault, Option.bind_eq_bind]
  cases blocks[getPtr.block]? with
  | none => rfl
  | some blockp =>
      simp only [Option.bind_some]
      by_cases helem : getPtr.elem = blockp.mSize
      · simp only [if_pos helem]
        exact eraseFront_withDefault d ⟨size, blocks, ⟨getPtr.block + 1, 0⟩, putPtr⟩ _
      · simp only [if_neg helem]
        exact eraseFront_withDefault d ⟨size, blocks, getPtr, putPtr⟩ _

theorem getLoop_withDefault (size fuel : Nat) (out : Bytes) :
    getLoop size fuel (b.withDefault d) out =
      (getLoop size fuel b out).map fun r => (r.1, r.2.withDefault d) := by
  induction fuel generalizing b out with
  | zero => rfl
  | succ fuel ih =>
      obtain ⟨d', blocks, getPtr, putPtr⟩ := b
      have hstart : ∀ getPtr, updateBufferStart ⟨d, blocks, getPtr, putPtr⟩ =
          (updateBufferStart ⟨d', blocks, getPtr, putPtr⟩).map (withDefault d) :=
        fun getPtr => updateBufferStart_withDefault d ⟨d', blocks, getPtr, putPtr⟩
      rw [getLoop, getLoop]
      simp only [withDefault]
      by_cases hmore : out.length < size ∧ getPtr ≠ putPtr
      · rw [if_pos hmore, if_pos hmore]
        simp only [Option.bind_eq_bind, Option.map_bind, Function.comp_def, hstart,
          Option.bind_map, ih]
      · rw [if_neg hmore, if_neg hmore]
        rfl

theorem findLoop_withDefault (blocks : List Block) (block len : Nat) :
    findLoop (b.withDefault d) blocks block len = findLoop b blocks block len := by
  induction blocks generalizing block len with
  | nil => rfl
  | cons blk blocks ih => simp only [findLoop, ih]

theorem find_withDefault (c : UInt8) : (b.withDefault d).find c = b.find c :=
  findLoop_withDefault d b _ _ _

theorem availLoop_withDefault (n block avail : Nat) :
    availLoop (b.withDefault d) n block avail = availLoop b n block avail := by
  induction n generalizing block avail with
  | zero => rfl
  | succ n ih => simp only [availLoop, ih]

theorem avail_withDefault : (b.withDefault d).avail = b.avail :=
  availLoop_withDefault d b _ _ _

theorem get_withDefault (size : Nat) :
    (b.withDefault d).get size = (b.get size).map fun r => (r.1, r.2.withDefault d) :=
  getLoop_withDefault d b size _ []

/-- Both overloads of `getline` go on with the length that `find` has measured, if it
has found a newline. -/
theorem measured_withDefault {α β : Type*} (f : α → β) (found : Option Int) (nothing : α)
    {next : Int → Option α} {next' : Int → Option β} (h : ∀ len, next' len = (next len).map f) :
    (found.bind fun len => if len = -1 then some (f nothing) else next' len) =
      (found.bind fun len => if len = -1 then some nothing else next len).map f := by
  cases found with
  | none => rfl
  | some len => simp only [Option.bind_some, apply_ite (Option.map f), Option.map_some, h]

theorem getline_withDefault :
    (b.withDefault d).getline = b.getline.map fun r => (r.1, r.2.1, r.2.2.withDefault d) := by
  unfold BlockBuffer.getline
  rw [find_withDefault]
  exact measured_withDefault (fun r : Bytes × Int × BlockBuffer =>
      (r.1, r.2.1, r.2.2.withDefault d)) (b.find newline) ([], 0, b) fun len => by
    simp only [get_withDefault, Option.bind_eq_bind, Option.map_bind, Option.bind_map,
      Function.comp_def, apply_ite (Option.map _), Option.map_none, Option.map_some]

theorem getlineArray_withDefault (out : Bytes) (size : Nat) :
    (b.withDefault d).getlineArray out size =
      (b.getlineArray out size).map fun r => (r.1, r.2.1, r.2.2.withDefault d) := by
  unfold BlockBuffer.getlineArray
  rw [find_withDefault]
  exact measured_withDefault (fun r : Bytes × Int × BlockBuffer =>
      (r.1, r.2.1, r.2.2.withDefault d)) (b.find newline) (out, 0, b) fun len => by
    simp only [get_withDefault, Option.bind_eq_bind, Option.map_bind, Option.bind_map,
      Function.comp_def, apply_ite (Option.map _), Option.map_none, Option.map_some]

/-- Only `put` asks for the default block size. -/
theorem step_withDefault {op : BufferOp} (hop : ∀ bs, op ≠ .put bs) :
    step (b.withDefault d) op = (step b op).map fun r => (r.1, r.2.withDefault d) := by
  cases op with
  | put bs => exact absurd rfl (hop bs)
  | get size =>
      simp only [step, get_withDefault, Option.bind_eq_bind, Option.map_bind, Option.bind_map,
        Function.comp_def, Option.map_some]
  | getline =>
      simp only [step, getline_withDefault, Option.bind_eq_bind, Option.map_bind, Option.bind_map,
        Function.comp_def, Option.map_some]
  | getlineArray out size =>
      simp only [step, getlineArray_withDefault, Option.bind_eq_bind, Option.map_bind,
        Option.bind_map, Function.comp_def, Option.map_some]
  | find =>
      simp only [step, find_withDefault, Option.bind_eq_bind, Option.map_bind, Function.comp_def,
        Option.map_some]
  | avail =>
      simp only [step, avail_withDefault, Option.bind_eq_bind, Option.map_bind, Function.comp_def,
        Option.map_some]

end

/-! ## What `put` does if it returns -/

/-- The chain is linked, whatever the default block size. -/
def Shaped (b : BlockBuffer) : Prop := (b.withDefault 1).Linked

theorem Linked.shaped {b : BlockBuffer} (h : b.Linked) : b.Shaped :=
  { h with default_pos := Nat.one_pos }

theorem Shaped.linked {b : BlockBuffer} (h : b.Shaped) (hd : 0 < b.mDefaultBlockSize) : b.Linked :=
  { h with default_pos := hd }

theorem new_shaped (d : Nat) : (new d).Shaped where
  default_pos := Nat.one_pos
  sizes := by simp [new, newBlock, Block.new]
  get_block := rfl
  get_elem := ⟨Block.new d, [], rfl, Nat.le_refl 0⟩
  put_last := ⟨[], Block.new d, rfl, rfl, Nat.zero_le _⟩
  put_room := by
    intro init last h
    obtain ⟨-, rfl⟩ := snoc_inj (show [] ++ [Block.new d] = _ from h)
    show 0 < d ∨ 0 = 0 ∧ d = 0
    omega

theorem updateBufferEnd_shaped {b : BlockBuffer} (h : (b.withDefault 1).Chained) :
    ∃ b', b.updateBufferEnd = some b' ∧ b'.Shaped ∧ b'.unread = b.unread ∧
      b'.mDefaultBlockSize = b.mDefaultBlockSize ∧ ∀ m, b.Bounded m → b'.Bounded m := by
  obtain ⟨init, last, (hblocks : b.mBlocks = init ++ [last]),
    (hput : b.mPutPtr.block = init.length), (hle : b.mPutPtr.elem ≤ last.mSize)⟩ := h.put_last
  have hblockp : b.mBlocks[b.mPutPtr.block]? = some last := by simp [hblocks, hput]
  simp only [updateBufferEnd, hblockp, Option.bind_eq_bind, Option.bind_some]
  split
  · rename_i hfull
    obtain ⟨hlinked, hunread⟩ := newBlock_linked h hblocks hfull b.mDefaultBlockSize
    exact ⟨b.newBlock b.mDefaultBlockSize, rfl, hlinked, hunread, rfl, fun m hb => hb.newBlock⟩
  · rename_i hroom
    refine ⟨b, rfl, { h with put_room := ?_ }, rfl, rfl, fun _ => id⟩
    intro init' last' h'
    obtain ⟨-, rfl⟩ := snoc_inj (hblocks.symm.trans h')
    exact Or.inl (Nat.lt_of_le_of_ne hle hroom)

/-- Each round of `put` stores a piece of `left`, which may be empty. -/
theorem putLoop_shaped {fuel : Nat} {b b' : BlockBuffer} {left : Bytes} (h : b.Shaped)
    (hloop : putLoop fuel b left = some b') : b'.Shaped ∧ b'.unread = b.unread ++ left := by
  induction fuel generalizing b left with
  | zero => cases hloop
  | succ fuel ih =>
      rw [putLoop] at hloop
      split at hloop
      · rename_i hnil
        obtain rfl := Option.some.inj hloop
        exact ⟨h, by rw [hnil, List.append_nil]⟩
      · obtain ⟨init, last, (hblocks : b.mBlocks = init ++ [last]),
          (hput : b.mPutPtr.block = init.length), (hle : b.mPutPtr.elem ≤ last.mSize)⟩ := h.put_last
        have hblockp : b.mBlocks[b.mPutPtr.block]? = some last := by simp [hblocks, hput]
        simp only [hblockp, Option.bind_eq_bind, Option.bind_some, sub32_of_le hle] at hloop
        generalize hn : (if last.mSize - b.mPutPtr.elem > left.length then left.length
          else last.mSize - b.mPutPtr.elem) = n at hloop
        have hlen : (left.take n).length = n := by
          rw [List.length_take]
          split at hn <;> omega
        have hfits : b.mPutPtr.elem + (left.take n).length ≤ last.mSize := by
          rw [hlen]
          split at hn <;> omega
        obtain ⟨last', hstored, -, -, hchained, hunread⟩ :=
          store_spec h.toChained hblocks hput hfits
        obtain ⟨b₁, hend, hshaped, hsame, -⟩ :=
          updateBufferEnd_shaped (b := b.store (left.take n) last') hchained
        rw [store, hlen] at hend
        rw [show last.put (left.take n) b.mPutPtr.elem = some last' from hstored, Option.bind_some,
          hend, Option.bind_some] at hloop
        obtain ⟨hshaped', hunread'⟩ := ih hshaped hloop
        refine ⟨hshaped', ?_⟩
        rw [hunread', hsame, show (b.store (left.take n) last').unread = b.unread ++ left.take n
          from hunread, List.append_assoc, List.take_append_drop]

/-- One call that is defined, and does not ask `get` for more than is there. -/
theorem step_shaped {b b' : BlockBuffer} {op : BufferOp} {r : Reply} (h : b.Shaped)
    (hget : ∀ size, op = .get size → size ≤ b.unread.length)
    (hstep : step b op = some (r, b')) :
    b'.Shaped ∧ b'.unread = b.unread.drop (taken op r) ++ given op := by
  by_cases hop : ∃ bs, op = .put bs
  · obtain ⟨bs, rfl⟩ := hop
    obtain ⟨⟨n, b₁⟩, hput, heq⟩ := Option.bind_eq_some_iff.mp hstep
    obtain ⟨-, rfl⟩ := Prod.mk.inj (Option.some.inj heq)
    obtain ⟨b₂, hloop, heq'⟩ := Option.bind_eq_some_iff.mp hput
    obtain ⟨-, rfl⟩ := Prod.mk.inj (Option.some.inj heq')
    exact putLoop_shaped h hloop
  · have hstep' := step_withDefault 1 b fun bs heq => hop ⟨bs, heq⟩
    rw [hstep, Option.map_some] at hstep'
    have hkept := step_kept h hget hstep'
    exact ⟨hkept.linked, hkept.unread_eq⟩

end BlockBuffer

end Negatus
