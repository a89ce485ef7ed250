import Negatus.Buffer.DefaultSize

/-!
# `allocBlock` and `advancePutPtr`

The zero-copy path cuts the last block at the put position, appends a block of
the size that the caller asks for, lets the caller write into it, and moves the
put position over what was written. Blocks of any size, also empty ones and ones
read to their end, may stand in the middle of the chain afterwards, so the chain
is `Linked` and no longer `Tidy`. No operation sees the difference: each of them
depends on the queue `unread` alone.
-/

namespace Negatus

open Foundations

namespace BlockBuffer

/-- The caller's `memcpy` of `w` to the beginning of a block. -/
def fillBlock (b : BlockBuffer) (block : Nat) (w : Bytes) : Option BlockBuffer := do
  let blockp ← b.mBlocks[block]?
  if w.length ≤ blockp.mData.length then
    some { b with mBlocks :=
      b.mBlocks.set block { blockp with mData := w ++ blockp.mData.drop w.length } }
  else none

/-- `allocBlock(n)`, `w` stored at the pointer that it returns, `advancePutPtr(k)`
for the length `k` of `w`. -/
def allocWrite (b : BlockBuffer) (n : Nat) (w : Bytes) : Option BlockBuffer := do
  let (block, b₁) ← b.allocBlock n
  let b₂ ← b₁.fillBlock block w
  b₂.advancePutPtr w.length

inductive AllocOp : Type where
  | call (op : BufferOp)
  | write (n : Nat) (w : Bytes)
deriving DecidableEq

def stepAlloc (b : BlockBuffer) : AllocOp → Option (Reply × BlockBuffer)
  | .call op => step b op
  | .write n w => do
      let b' ← b.allocWrite n w
      some (⟨0, []⟩, b')

/-! ## What the three calls do to the chain -/

/-- The put position is at the beginning of a fresh last block of size `n`. -/
structure Allocated (b : BlockBuffer) (n : Nat) (b' : BlockBuffer) : Prop where
  shaped : b'.Shaped
  default_eq : b'.mDefaultBlockSize = b.mDefaultBlockSize
  unread_eq : b'.unread = b.unread
  bounded : ∀ m, b.Bounded m → n ≤ m → b'.Bounded m
  fresh : ∃ init, b'.mBlocks = init ++ [Block.new n] ∧ b'.mPutPtr = ⟨init.length, 0⟩

/-- A block that is cut at the put position is full. -/
theorem cut_chained {b : BlockBuffer} (h : b.Chained) {init : List Block} {last : Block}
    (hlast : b.mBlocks = init ++ [last]) (hput : b.mPutPtr.block = init.length)
    (hle : b.mPutPtr.elem ≤ last.mSize) :
    Chained { b with mBlocks := init ++ [{ last with mSize := b.mPutPtr.elem }] } ∧
      unread { b with mBlocks := init ++ [{ last with mSize := b.mPutPtr.elem }] } = b.unread := by
  obtain ⟨head, tail, hcons, hget⟩ := h.get_elem
  have hsize : last.mSize ≤ last.mData.length := h.sizes last (by rw [hlast]; simp)
  constructor
  · refine
      { default_pos := h.default_pos
        sizes := ?_
        get_block := h.get_block
        get_elem := ?_
        put_last := ⟨init, _, rfl, hput, Nat.le_refl _⟩ }
    · intro blk hblk
      rcases List.mem_append.mp hblk with hblk | hblk
      · exact h.sizes blk (by rw [hlast]; exact List.mem_append_left _ hblk)
      · obtain rfl := List.mem_singleton.mp hblk
        exact Nat.le_trans hle hsize
    · cases init with
      | nil =>
          -- the only block is cut at the put position, and the get position is in front of it
          obtain ⟨rfl, rfl⟩ := List.cons.inj (hcons.symm.trans hlast)
          exact ⟨_, [], rfl, hget⟩
      | cons x init =>
          obtain ⟨rfl, rfl⟩ := List.cons.inj (hcons.symm.trans hlast)
          rw [if_neg (by simp)] at hget
          exact ⟨head, init ++ [_], rfl, by rw [if_neg (by simp)]; exact hget⟩
  · simp only [unread, hlast]
    rw [chain_snoc, chain_snoc]

theorem allocBlock_spec {b : BlockBuffer} (h : b.Shaped) (n : Nat) :
    ∃ b', b.allocBlock n = some (b'.mPutPtr.block, b') ∧ Allocated b n b' := by
  obtain ⟨init, last, (hlast : b.mBlocks = init ++ [last]),
    (hput : b.mPutPtr.block = init.length), (hle : b.mPutPtr.elem ≤ last.mSize)⟩ := h.put_last
  let last' : Block := { last with mSize := b.mPutPtr.elem }
  have hset : b.mBlocks.set b.mPutPtr.block last' = init ++ [last'] := by
    rw [hlast, hput]
    simp
  obtain ⟨hchained, hunread⟩ := cut_chained h.toChained hlast hput hle
  obtain ⟨hlinked, hunread'⟩ := newBlock_linked hchained rfl rfl n
  let b' : BlockBuffer := newBlock { b with mBlocks := init ++ [last'] } n
  have hblocks : b'.mBlocks = (init ++ [last']) ++ [Block.new n] := rfl
  refine ⟨b', ?_, hlinked, rfl, hunread'.trans hunread, ?_, init ++ [last'], hblocks, ?_⟩
  · have hblockp : b.mBlocks[b.mPutPtr.block]? = some last := by simp [hlast, hput]
    have hshrink : last.shrink b.mPutPtr.elem = some last' := if_pos hle
    unfold allocBlock
    simp only [hblockp, hshrink, hset, Option.bind_eq_bind, Option.bind_some]
    rfl
  · intro m hb hn
    refine ⟨hb.default_le, fun blk hblk => ?_⟩
    rw [hblocks] at hblk
    rcases List.mem_append.mp hblk with hblk | hblk
    · rcases List.mem_append.mp hblk with hblk | hblk
      · exact hb.blocks_le blk (by rw [hlast]; exact List.mem_append_left _ hblk)
      · obtain rfl := List.mem_singleton.mp hblk
        exact Nat.le_trans hle (hb.blocks_le last (by rw [hlast]; simp))
    · obtain rfl := List.mem_singleton.mp hblk
      exact hn
  · simp [b', newBlock]

/-- What the zero-copy path does to the buffer: what `put` does to the queue. -/
structure Written (b : BlockBuffer) (n : Nat) (w : Bytes) (b' : BlockBuffer) : Prop where
  linked : b'.Linked
  unread_eq : b'.unread = b.unread ++ w
  bounded : ∀ m, b.Bounded m → n ≤ m → b'.Bounded m

/-- The allocated block has room for `w`, so one round of the loop of
`advancePutPtr` does, and `updateBufferEnd` follows it. -/
theorem allocWrite_shaped {b : BlockBuffer} (h : b.Shaped) {n : Nat} {w : Bytes}
    (hw : w.length ≤ n) : ∃ b', b.allocWrite n w = some b' ∧ b'.Shaped ∧
      b'.mDefaultBlockSize = b.mDefaultBlockSize ∧ b'.unread = b.unread ++ w ∧
      ∀ m, b.Bounded m → n ≤ m → b'.Bounded m := by
  obtain ⟨b₁, halloc, hall⟩ := allocBlock_spec h n
  obtain ⟨init, hblocks, hptr⟩ := hall.fresh
  have hput : b₁.mPutPtr.block = init.length := by rw [hptr]
  have helem : b₁.mPutPtr.elem = 0 := by rw [hptr]
  obtain ⟨last', hstored, hsize, hset, hchained, hunread⟩ :=
    store_spec hall.shaped.toChained hblocks hput (show b₁.mPutPtr.elem + w.length ≤ n by omega)
  have hsize' : last'.mSize = n := hsize
  have hfill : b₁.fillBlock b₁.mPutPtr.block w =
      some { b₁ with mBlocks := b₁.mBlocks.set b₁.mPutPtr.block last' } := by
    have hblockp : b₁.mBlocks[b₁.mPutPtr.block]? = some (Block.new n) := by simp [hblocks, hput]
    have heq : last' = { Block.new n with mData := w ++ (Block.new n).mData.drop w.length } := by
      have := hstored
      rw [show (b₁.withDefault 1).mPutPtr.elem = 0 from helem] at this
      simpa [Block.put, Block.new, hw, eq_comm] using this
    unfold fillBlock
    simp only [hblockp, Option.bind_eq_bind, Option.bind_some]
    rw [if_pos (by simpa [Block.new] using hw), heq]
  have hbound : ∀ m, b.Bounded m → n ≤ m → (b₁.store w last').Bounded m := fun m hb hn =>
    (hall.bounded m hb hn).store hblocks hsize hset
  have hqueue : (b₁.store w last').unread = b.unread ++ w := by
    rw [← hall.unread_eq]
    exact hunread
  unfold allocWrite
  rw [halloc, Option.bind_eq_bind, Option.bind_some]
  simp only [hfill, Option.bind_eq_bind, Option.bind_some]
  by_cases hnil : w = []
  · subst hnil
    -- nothing to advance over: the put position stays at the beginning of the block
    refine ⟨b₁.store [] last', by simp [advancePutPtr, advanceLoop, store], ?_, hall.default_eq,
      hqueue, hbound⟩
    refine { hchained with put_room := ?_ }
    intro init₂ last₂ h₂
    obtain ⟨-, rfl⟩ := snoc_inj (hset.symm.trans h₂)
    show b₁.mPutPtr.elem + 0 < last'.mSize ∨ b₁.mPutPtr.elem + 0 = 0 ∧ last'.mSize = 0
    omega
  · obtain ⟨b', hend, hshaped, hsame, hdefault, hbound'⟩ :=
      updateBufferEnd_shaped (b := b₁.store w last') hchained
    refine ⟨b', ?_, hshaped, hdefault.trans hall.default_eq, hsame.trans hqueue,
      fun m hb hn => hbound' m (hbound m hb hn)⟩
    have hpos := List.length_pos_iff.mpr hnil
    have hblockp : (b₁.mBlocks.set b₁.mPutPtr.block last')[b₁.mPutPtr.block]? = some last' := by
      simp [hblocks, hput]
    have hroom : sub32 last'.mSize b₁.mPutPtr.elem = some n := by
      rw [helem, sub32_of_le (Nat.zero_le _), Nat.sub_zero, hsize']
    have hmove : (if n > w.length then w.length else n) = w.length := by
      split <;> omega
    unfold store at hend
    unfold advancePutPtr
    rw [advanceLoop, if_neg (by omega)]
    simp only [hblockp, hroom, Option.bind_eq_bind, Option.bind_some, hmove]
    rw [hend, Option.bind_some, Nat.sub_self, advanceLoop, if_pos rfl]

theorem allocWrite_spec {b : BlockBuffer} (h : b.Linked) {n : Nat} {w : Bytes}
    (hw : w.length ≤ n) : ∃ b', b.allocWrite n w = some b' ∧ Written b n w b' := by
  obtain ⟨b', hsome, hshaped, hdefault, hunread, hbound⟩ := allocWrite_shaped h.shaped hw
  exact ⟨b', hsome, hshaped.linked (hdefault ▸ h.default_pos), hunread, hbound⟩

/-! ## No operation sees the layout -/

/-- A call of `get` asks for at most `avail()` bytes, a block that is asked for can
be indexed by an `int`, and what is written into it fits. -/
def AllocOk (b : BlockBuffer) : AllocOp → Prop
  | .call (.get size) => ∃ n, b.avail = some n ∧ size ≤ n
  | .call _ => True
  | .write n w => w.length ≤ n ∧ n < 2 ^ 31

/-- A chain whose blocks an `int` can index. -/
structure Indexed (b : BlockBuffer) : Prop extends Linked b where
  bounded : b.Bounded (2 ^ 31 - 1)

theorem Advanced.indexed {b b' : BlockBuffer} {n : Nat} (hadv : Advanced b n b') (h : b.Indexed) :
    b'.Indexed where
  toLinked := hadv.linked
  bounded := hadv.bounded _ h.bounded

theorem Filled.indexed {b b' : BlockBuffer} {bs : Bytes} (hfill : Filled b bs b')
    (h : b.Indexed) : b'.Indexed where
  toLinked := hfill.linked
  bounded := hfill.bounded _ h.bounded

theorem Written.indexed {b b' : BlockBuffer} {n : Nat} {w : Bytes} (hwrite : Written b n w b')
    (h : b.Indexed) (hn : n < 2 ^ 31) : b'.Indexed where
  toLinked := hwrite.linked
  bounded := hwrite.bounded _ h.bounded (by omega)

theorem new_indexed {d : Nat} (hd : 0 < d) (hd' : d < 2 ^ 31) : (new d).Indexed where
  toLinked := (new_tidy hd).toLinked
  bounded := new_bounded (by omega)

/-- Two chains of the same bytes, in blocks of whatever sizes. -/
structure Alike (s t : BlockBuffer) : Prop where
  left : s.Indexed
  right : t.Indexed
  same : s.unread = t.unread

/-- Both results are undefined, or they agree and leave chains of the same bytes. -/
def Agree {α : Type} (x y : Option (α × BlockBuffer)) : Prop :=
  (x = none ∧ y = none) ∨ ∃ a s t, x = some (a, s) ∧ y = some (a, t) ∧ Alike s t

theorem Alike.find {s t : BlockBuffer} (h : Alike s t) (c : UInt8) : s.find c = t.find c := by
  rw [find_spec h.left.toLinked h.left.bounded, find_spec h.right.toLinked h.right.bounded, h.same]

theorem Alike.advanced {s t s' t' : BlockBuffer} (h : Alike s t) {n : Nat}
    (hs : Advanced s n s') (ht : Advanced t n t') : Alike s' t' where
  left := hs.indexed h.left
  right := ht.indexed h.right
  same := by rw [hs.unread_eq, ht.unread_eq, h.same]

theorem Alike.getline {s t : BlockBuffer} (h : Alike s t) :
    Agree (step s .getline) (step t .getline) := by
  have hfind := h.find newline
  rcases find_range h.left.toLinked with hnone | hmiss | ⟨n, hfound, hlt, hn⟩ | ⟨len, hfound, hneg⟩
  · rw [hnone] at hfind
    exact Or.inl ⟨by simp [step, BlockBuffer.getline, hnone],
      by simp [step, BlockBuffer.getline, ← hfind]⟩
  · rw [hmiss] at hfind
    exact Or.inr ⟨⟨0, []⟩, s, t, by simp [step, BlockBuffer.getline, hmiss],
      by simp [step, BlockBuffer.getline, ← hfind], h⟩
  · have hfound' := hfind.symm.trans hfound
    by_cases hmax : n < 2 ^ 31 - 1
    · obtain ⟨s', hs, hadv⟩ := getline_of_find h.left.toLinked hmax hfound hn
      obtain ⟨t', ht, hadv'⟩ := getline_of_find h.right.toLinked hmax hfound' (h.same ▸ hn)
      exact Or.inr ⟨⟨n, s.unread.take n⟩, s', t', by simp [step, hs], by simp [step, ht, h.same],
        h.advanced hadv hadv'⟩
    · have hlen : (n : Int) = 2 ^ 31 - 1 ∨ (n : Int) < -1 := by omega
      exact Or.inl ⟨by simp [step, getline_undefined hfound hlen],
        by simp [step, getline_undefined hfound' hlen]⟩
  · have hfound' := hfind.symm.trans hfound
    exact Or.inl ⟨by simp [step, getline_undefined hfound (Or.inr hneg)],
      by simp [step, getline_undefined hfound' (Or.inr hneg)]⟩

/-- The array overload leaves two chains of the same bytes alone, or it takes the
same line from both. -/
theorem Alike.getlineArray {s t : BlockBuffer} (h : Alike s t) (out : Bytes) (size : Nat) :
    Agree (step s (.getlineArray out size)) (step t (.getlineArray out size)) := by
  have hfind := h.find newline
  rcases find_range h.left.toLinked with hnone | hmiss | ⟨n, hfound, hlt, hn⟩ | ⟨len, hfound, hneg⟩
  · rw [hnone] at hfind
    exact Or.inl ⟨by simp [step, BlockBuffer.getlineArray, hnone],
      by simp [step, BlockBuffer.getlineArray, ← hfind]⟩
  · rw [hmiss] at hfind
    exact Or.inr ⟨⟨0, out⟩, s, t, by simp [step, BlockBuffer.getlineArray, hmiss],
      by simp [step, BlockBuffer.getlineArray, ← hfind], h⟩
  · have hfound' := hfind.symm.trans hfound
    by_cases hmax : n < 2 ^ 31 - 1
    · obtain ⟨s', hs, hadv⟩ := getlineArray_of_find h.left.toLinked hmax hfound hn out size
      obtain ⟨t', ht, hadv'⟩ :=
        getlineArray_of_find h.right.toLinked hmax hfound' (h.same ▸ hn) out size
      simp only [step, hs, ht, h.same]
      split
      · exact Or.inr ⟨⟨-1, out⟩, s, t, rfl, rfl, h⟩
      · split
        · exact Or.inr ⟨_, s', t', rfl, rfl, h.advanced hadv hadv'⟩
        · exact Or.inl ⟨rfl, rfl⟩
    · have hlen : (n : Int) = 2 ^ 31 - 1 ∨ (n : Int) < -1 := by omega
      simp only [step, getlineArray_stuck hfound hlen, getlineArray_stuck hfound' hlen]
      split
      · exact Or.inr ⟨⟨-1, out⟩, s, t, rfl, rfl, h⟩
      · exact Or.inl ⟨rfl, rfl⟩
  · have hfound' := hfind.symm.trans hfound
    simp only [step, getlineArray_stuck hfound (Or.inr hneg),
      getlineArray_stuck hfound' (Or.inr hneg)]
    split
    · exact Or.inr ⟨⟨-1, out⟩, s, t, rfl, rfl, h⟩
    · exact Or.inl ⟨rfl, rfl⟩

/-- One operation does not tell two chains of the same bytes apart. -/
theorem Alike.stepAlloc {s t : BlockBuffer} {op : AllocOp} (h : Alike s t) (hok : AllocOk t op) :
    Agree (stepAlloc s op) (stepAlloc t op) := by
  cases op with
  | write n w =>
      obtain ⟨hw, hn⟩ := hok
      obtain ⟨s', hs, hwrite⟩ := allocWrite_spec h.left.toLinked hw
      obtain ⟨t', ht, hwrite'⟩ := allocWrite_spec h.right.toLinked hw
      refine Or.inr ⟨⟨0, []⟩, s', t', by simp [BlockBuffer.stepAlloc, hs],
        by simp [BlockBuffer.stepAlloc, ht], hwrite.indexed h.left hn, hwrite'.indexed h.right hn, ?_⟩
      rw [hwrite.unread_eq, hwrite'.unread_eq, h.same]
  | call op =>
      cases op with
      | put bs =>
          obtain ⟨s', hs, hfill⟩ := put_spec h.left.toLinked bs
          obtain ⟨t', ht, hfill'⟩ := put_spec h.right.toLinked bs
          refine Or.inr ⟨⟨int32 bs.length, []⟩, s', t', by simp [BlockBuffer.stepAlloc, step, hs],
            by simp [BlockBuffer.stepAlloc, step, ht], hfill.indexed h.left,
            hfill'.indexed h.right, ?_⟩
          rw [hfill.unread_eq, hfill'.unread_eq, h.same]
      | get size =>
          obtain ⟨m, havail, hsize⟩ := hok
          obtain rfl : wrap32 t.unread.length = m := by
            simpa [avail_spec h.right.toLinked] using havail
          have hle : size ≤ t.unread.length := Nat.le_trans hsize (Nat.mod_le _ _)
          obtain ⟨s', hs, hadv⟩ := get_spec h.left.toLinked (h.same ▸ hle)
          obtain ⟨t', ht, hadv'⟩ := get_spec h.right.toLinked hle
          exact Or.inr ⟨⟨int32 (t.unread.take size).length, t.unread.take size⟩, s', t',
            by simp [BlockBuffer.stepAlloc, step, hs, h.same],
            by simp [BlockBuffer.stepAlloc, step, ht], h.advanced hadv hadv'⟩
      | getline => exact h.getline
      | getlineArray out size => exact h.getlineArray out size
      | find =>
          have hspec := find_spec h.left.toLinked h.left.bounded newline
          exact Or.inr ⟨⟨foundLen 0 (s.unread.findIdx? (· == newline)), []⟩, s, t,
            by simp [BlockBuffer.stepAlloc, step, hspec],
            by simp [BlockBuffer.stepAlloc, step, ← h.find newline, hspec], h⟩
      | avail =>
          exact Or.inr ⟨⟨wrap32 t.unread.length, []⟩, s, t,
            by simp [BlockBuffer.stepAlloc, step, avail_spec h.left.toLinked, h.same],
            by simp [BlockBuffer.stepAlloc, step, avail_spec h.right.toLinked], h⟩

/-- Every allowed operation keeps the chain. -/
theorem Indexed.stepAlloc {b b' : BlockBuffer} {op : AllocOp} {r : Reply} (h : b.Indexed)
    (hok : AllocOk b op) (hstep : BlockBuffer.stepAlloc b op = some (r, b')) : b'.Indexed := by
  rcases (Alike.mk h h rfl).stepAlloc hok with ⟨hnone, -⟩ | ⟨a, s', t', hs, -, halike⟩
  · rw [hnone] at hstep
    cases hstep
  · obtain ⟨-, rfl⟩ := Prod.mk.inj (Option.some.inj (hs.symm.trans hstep))
    exact halike.left

/-! ## The zero-copy path is a queue operation -/

def allocSpec (q : Bytes) : AllocOp → Reply × Bytes
  | .call op => fifoStep q op
  | .write _ w => (⟨0, []⟩, q ++ w)

/-- The legal calls of the queue, and blocks that an `int` can index. -/
def AllocLegal (q : Bytes) : AllocOp → Prop
  | .call op => FifoLegal q op ∧ GetlineFits q op
  | .write n w => w.length ≤ n ∧ n < 2 ^ 31 ∧ q.length + w.length < 2 ^ 31

theorem Written.stocked {b b' : BlockBuffer} {n : Nat} {w : Bytes} (hwrite : Written b n w b')
    (h : b.Stocked) (hn : n < 2 ^ 31) (hlen : b.unread.length + w.length < 2 ^ 31) :
    b'.Stocked where
  toLinked := hwrite.linked
  bounded := hwrite.bounded _ h.bounded (by omega)
  held := by
    rw [hwrite.unread_eq, List.length_append]
    exact hlen

theorem refines_alloc : Refines stepAlloc allocSpec AllocLegal unread Stocked where
  square := by
    intro b op h hlegal
    cases op with
    | call op =>
        obtain ⟨b', hstep, hstocked, hunread, -⟩ := stocked_square h hlegal.1 hlegal.2
        exact ⟨b', hstep, hstocked, hunread⟩
    | write n w =>
        obtain ⟨hw, hn, hlen⟩ := hlegal
        obtain ⟨b', hsome, hwrite⟩ := allocWrite_spec h.toLinked hw
        exact ⟨b', by simp [stepAlloc, allocSpec, hsome], hwrite.stocked h hn hlen,
          hwrite.unread_eq⟩

/-- No operation tells the buffer with `w` in an allocated block of `n` bytes from
the one after `put` of `w`; the answers of both are those of the queue as long as
the `int`s of `getline` suffice. -/
def WritesAlike (b : BlockBuffer) (n : Nat) (w : Bytes) : Prop :=
  ∃ b₁ b₂, b.allocWrite n w = some b₁ ∧ b.put w = some (w.length, b₂) ∧
    (∀ ops, AllowedRun AllocOk stepAlloc b₂ ops →
      (runOps stepAlloc b₁ ops).map Prod.fst = (runOps stepAlloc b₂ ops).map Prod.fst) ∧
    (b.unread.length + w.length < 2 ^ 31 → ∀ ops,
      LegalRun AllocLegal allocSpec (b.unread ++ w) ops →
        (runOps stepAlloc b₁ ops).map Prod.fst =
            some (runSpec allocSpec (b.unread ++ w) ops).1 ∧
          (runOps stepAlloc b₂ ops).map Prod.fst =
            some (runSpec allocSpec (b.unread ++ w) ops).1)

/-- **The zero-copy path agrees with `put`.** After any history of operations,
storing `w` in an allocated block and advancing the put position over it is
`put` of `w`, whatever happens next. -/
theorem allocWrite_agrees {d : Nat} (hd : 0 < d) (hd' : d < 2 ^ 31) {hist : List AllocOp}
    {rs : List Reply} {b : BlockBuffer} (hok : AllowedRun AllocOk stepAlloc (new d) hist)
    (hrun : runOps stepAlloc (new d) hist = some (rs, b)) {n : Nat} {w : Bytes}
    (hw : w.length ≤ n) (hn : n < 2 ^ 31) : WritesAlike b n w := by
  have h : b.Indexed := AllowedRun.invariant (fun _ _ _ _ => Indexed.stepAlloc)
    (new_indexed hd hd') hok hrun
  obtain ⟨b₁, halloc, hwrite⟩ := allocWrite_spec h.toLinked hw
  obtain ⟨b₂, hput, hfill⟩ := put_spec h.toLinked w
  have halike : Alike b₁ b₂ := ⟨hwrite.indexed h hn, hfill.indexed h,
    hwrite.unread_eq.trans hfill.unread_eq.symm⟩
  refine ⟨b₁, b₂, halloc, hput, fun ops hops => ?_, fun hlen ops hops => ?_⟩
  · exact AllowedRun.same_answers (fun _ _ _ => Alike.stepAlloc) halike hops
  · have hstocked : b.Stocked := ⟨h.toLinked, h.bounded, by omega⟩
    obtain ⟨b₁', hrun₁, -⟩ := refines_alloc.run (hwrite.stocked hstocked hn hlen)
      (by rw [hwrite.unread_eq]; exact hops)
    obtain ⟨b₂', hrun₂, -⟩ := refines_alloc.run (hfill.stocked hstocked hlen)
      (by rw [hfill.unread_eq]; exact hops)
    rw [hwrite.unread_eq] at hrun₁
    rw [hfill.unread_eq] at hrun₂
    exact ⟨by rw [hrun₁]; rfl, by rw [hrun₂]; rfl⟩

/-- Behind an empty block in the middle of the chain. -/
theorem allocWrite_agrees_empty_block :
    WritesAlike ⟨4, [⟨2, [97, 98, 0, 0]⟩, ⟨0, []⟩], ⟨0, 0⟩, ⟨1, 0⟩⟩ 3 (str "x\n") := by
  have hrun : runOps stepAlloc (new 4) [.call (.put (str "ab")), .write 0 []] =
      some ([⟨2, []⟩, ⟨0, []⟩], ⟨4, [⟨2, [97, 98, 0, 0]⟩, ⟨0, []⟩], ⟨0, 0⟩, ⟨1, 0⟩⟩) := by
    decide
  have hok : AllowedRun AllocOk stepAlloc (new 4) [.call (.put (str "ab")), .write 0 []] :=
    ⟨trivial, fun _ _ _ => ⟨⟨by decide, by decide⟩, fun _ _ _ => trivial⟩⟩
  exact allocWrite_agrees (by decide) (by decide) hok hrun (by decide) (by decide)

/-! ## Blocks that an `int` cannot index

A block of `2 ^ 31` bytes that was read and filled to its last byte is scanned by
`Block::find` beyond the largest `int`. It comes from `allocBlock(n)` with `n` that
large, or from a default block of that size; the other one of the two buffers is
still defined then. -/

/-- An allocated block of which some bytes are written, behind the only block. -/
theorem allocWrite_single (d g : Nat) (data : Bytes) {size e n : Nat} {w : Bytes} (hw : w ≠ [])
    (he : e ≤ size) (hle : w.length ≤ n) :
    allocWrite ⟨d, [⟨size, data⟩], ⟨0, g⟩, ⟨0, e⟩⟩ n w = updateBufferEnd
      ⟨d, [⟨e, data⟩, ⟨n, w ++ (List.replicate n 0).drop w.length⟩], ⟨0, g⟩, ⟨1, w.length⟩⟩ := by
  have hcut : Block.shrink ⟨size, data⟩ e = some ⟨e, data⟩ := if_pos he
  have halloc : allocBlock ⟨d, [⟨size, data⟩], ⟨0, g⟩, ⟨0, e⟩⟩ n =
      some (1, ⟨d, [⟨e, data⟩, Block.new n], ⟨0, g⟩, ⟨1, 0⟩⟩) := by
    rw [allocBlock, List.getElem?_cons_zero, Option.bind_eq_bind, Option.bind_some, hcut]
    rfl
  have hfill : fillBlock ⟨d, [⟨e, data⟩, Block.new n], ⟨0, g⟩, ⟨1, 0⟩⟩ 1 w =
      some ⟨d, [⟨e, data⟩, ⟨n, w ++ (List.replicate n 0).drop w.length⟩], ⟨0, g⟩, ⟨1, 0⟩⟩ := by
    have hroom : w.length ≤ (Block.new n).mData.length := by
      rwa [Block.new, List.length_replicate]
    rw [fillBlock, List.getElem?_cons_succ, List.getElem?_cons_zero, Option.bind_eq_bind,
      Option.bind_some, if_pos hroom]
    rfl
  have hlen : w.length ≠ 0 := fun hzero => hw (List.length_eq_zero_iff.mp hzero)
  have hround : (if n > w.length then w.length else n) = w.length := by
    split <;> omega
  rw [allocWrite, halloc, Option.bind_eq_bind, Option.bind_some]
  show (fillBlock _ 1 w).bind _ = _
  rw [hfill, Option.bind_some, advancePutPtr, advanceLoop, if_neg hlen]
  simp only [List.getElem?_cons_succ, List.getElem?_cons_zero, Option.bind_eq_bind,
    Option.bind_some, sub32_of_le (Nat.zero_le n), Nat.sub_zero, hround, Nat.zero_add,
    Nat.sub_self, advanceLoop, if_true, Option.bind_fun_some]

/-- An allocated block of which all bytes but the last are written. -/
theorem allocWrite_inside (d : Nat) {m : Nat} (hm : 0 < m) :
    allocWrite (new d) (m + 1) (List.replicate m 0) = some ⟨d,
      [⟨0, List.replicate d 0⟩, ⟨m + 1, List.replicate m 0 ++ [0]⟩], ⟨0, 0⟩, ⟨1, m⟩⟩ := by
  have hne : List.replicate m (0 : UInt8) ≠ [] := by
    rw [Ne, List.replicate_eq_nil_iff]
    omega
  have hwrite := allocWrite_single d 0 (List.replicate d 0) hne (Nat.zero_le d)
    (show (List.replicate m (0 : UInt8)).length ≤ m + 1 by rw [List.length_replicate]; omega)
  rw [List.length_replicate, List.drop_replicate, Nat.add_sub_cancel_left] at hwrite
  refine hwrite.trans ?_
  simp only [updateBufferEnd, List.getElem?_cons_succ, List.getElem?_cons_zero,
    Option.bind_eq_bind, Option.bind_some]
  rw [if_neg (by omega)]
  rfl

theorem getLoop_empty_block (d : Nat) (z : Bytes) (rest : List Block) (e k : Nat) {size fuel : Nat}
    {out : Bytes} (h : out.length < size) :
    getLoop size (fuel + 1) ⟨d, ⟨0, z⟩ :: rest, ⟨0, 0⟩, ⟨k + 1, e⟩⟩ out =
      getLoop size fuel ⟨d, rest, ⟨0, 0⟩, ⟨k, e⟩⟩ out := by
  simp [getLoop, h, Block.get, updateBufferStart, eraseFront,
    show 0 < size - out.length by omega]

theorem find_behind_read_block (d m : Nat) (data : Bytes) :
    find ⟨d, [⟨m, data⟩, ⟨1, [0]⟩, Block.new d], ⟨0, m⟩, ⟨2, 0⟩⟩ newline = some (-1) := by
  simp [find, findLoop, Block.find, Block.findFrom, newline]

theorem wide_alloc_undefined (d : Nat) (z : Bytes) {m : Nat} {data : Bytes} (hm : m + 1 = 2 ^ 31)
    (hlen : data.length = m + 1) :
    runOps stepAlloc ⟨d, [⟨0, z⟩, ⟨m + 1, data⟩], ⟨0, 0⟩, ⟨1, m⟩⟩
      [.call (.get m), .call (.put [0]), .call .find] = none := by
  have hpos : 0 < m := by omega
  have hget : get ⟨d, [⟨0, z⟩, ⟨m + 1, data⟩], ⟨0, 0⟩, ⟨1, m⟩⟩ m =
      some (data.take m, ⟨d, [⟨m + 1, data⟩], ⟨0, m⟩, ⟨0, m⟩⟩) := by
    have hinside := get_inside d data hpos (Nat.lt_succ_self m)
    unfold get at hinside ⊢
    rw [← hinside]
    exact getLoop_empty_block d z _ m 0 hpos
  have hfull := put_filling d m data (List.cons_ne_nil (0 : UInt8) [])
    (show m + [(0 : UInt8)].length = m + 1 from rfl)
  have hbyte : (data.take m ++ [0] ++ data.drop (m + 1))[m]? = some 0 := by simp [hlen]
  generalize data.take m ++ [0] ++ data.drop (m + 1) = data' at hfull hbyte
  have hfind := find_past_int d [Block.new d] hm hbyte
  simp [runOps, stepAlloc, step, hget, hfull, hfind]

theorem wide_alloc_differs {m : Nat} (hm : m + 1 = 2 ^ 31) :
    ¬ WritesAlike (new 1024) (m + 1) (List.replicate m 0) := by
  have hpos : 0 < m := by omega
  rintro ⟨b₁, b₂, halloc, hput, hsame, -⟩
  obtain rfl := Option.some.inj ((allocWrite_inside 1024 hpos).symm.trans halloc)
  have hnew : (new 1024).Stocked := (new_held (by decide) (by decide)).stocked
  obtain ⟨b, hput', hfill⟩ := put_spec hnew.toLinked (List.replicate m 0)
  obtain rfl : b = b₂ := (Prod.mk.inj (Option.some.inj (hput'.symm.trans hput))).2
  have hunread : b.unread = List.replicate m 0 := by
    rw [hfill.unread_eq, new_unread, List.nil_append]
  have hb : b.Stocked := hfill.stocked hnew (by simp; omega)
  have hok : AllowedRun AllocOk stepAlloc b [.call (.get m), .call (.put [0]), .call .find] := by
    refine ⟨⟨_, avail_spec hb.toLinked, ?_⟩, fun _ _ _ => ⟨trivial, fun _ _ _ => ⟨trivial, ?_⟩⟩⟩
    · rw [hunread, List.length_replicate, wrap32_of_lt (by omega)]
    · exact fun _ _ _ => trivial
  have hlegal : LegalRun AllocLegal allocSpec b.unread
      [.call (.get m), .call (.put [0]), .call .find] := by
    rw [hunread]
    refine ⟨⟨?_, trivial⟩, ⟨?_, trivial⟩, ⟨trivial, trivial⟩, trivial⟩
    · show m ≤ (List.replicate m (0 : UInt8)).length
      simp
    · show ((List.replicate m (0 : UInt8)).drop m).length + 1 < 2 ^ 31
      simp
  obtain ⟨b', hrun, -⟩ := refines_alloc.run hb hlegal
  have hnone := wide_alloc_undefined 1024 (List.replicate 1024 0) hm
    (show (List.replicate m (0 : UInt8) ++ [0]).length = m + 1 by simp)
  have hagree := hsame _ hok
  rw [hnone, hrun] at hagree
  cases hagree

/-- With default blocks of `2 ^ 31` bytes it is `put` that reaches the last byte of
one, where the allocated block ends before. -/
theorem wide_default_differs {m : Nat} (hm : m + 1 = 2 ^ 31) :
    ∃ b, AllowedRun AllocOk stepAlloc (new (m + 1))
        [.call (.put (List.replicate m 0)), .call (.get m)] ∧
      runOps stepAlloc (new (m + 1)) [.call (.put (List.replicate m 0)), .call (.get m)] =
        some ([⟨m, []⟩, ⟨m, List.replicate m 0⟩], b) ∧ ¬ WritesAlike b 1 [0] := by
  have hpos : 0 < m := by omega
  obtain ⟨data, h₁, hlen, htake⟩ := put_zeros hpos (Nat.lt_succ_self m)
  have h₂ := get_inside (m + 1) data hpos (Nat.lt_succ_self m)
  rw [htake] at h₂
  have hint : int32 m = m := int32_of_lt (by omega)
  refine ⟨⟨m + 1, [⟨m + 1, data⟩], ⟨0, m⟩, ⟨0, m⟩⟩, ?_, ?_, ?_⟩
  · refine ⟨trivial, fun r b' hstep => ⟨?_, fun _ _ _ => trivial⟩⟩
    obtain ⟨-, rfl⟩ : _ = r ∧ _ = b' := by simpa [stepAlloc, step, h₁] using hstep
    refine ⟨m, ?_, Nat.le_refl m⟩
    have hwrap : wrap32 m = m := wrap32_of_lt (by omega)
    simp [avail, availLoop, hwrap]
  · simp [runOps, stepAlloc, step, h₁, h₂, hint]
  · rintro ⟨b₁, b₂, halloc, hput, hsame, -⟩
    have hwrite : allocWrite ⟨m + 1, [⟨m + 1, data⟩], ⟨0, m⟩, ⟨0, m⟩⟩ 1 [0] =
        some ⟨m + 1, [⟨m, data⟩, ⟨1, [0]⟩, Block.new (m + 1)], ⟨0, m⟩, ⟨2, 0⟩⟩ := by
      rw [allocWrite_single (m + 1) m data (List.cons_ne_nil 0 []) (Nat.le_succ m) (Nat.le_refl 1)]
      rfl
    obtain rfl := Option.some.inj (hwrite.symm.trans halloc)
    have hfull := put_filling (m + 1) m data (List.cons_ne_nil (0 : UInt8) [])
      (show m + [(0 : UInt8)].length = m + 1 from rfl)
    have hbyte : (data.take m ++ [0] ++ data.drop (m + 1))[m]? = some 0 := by simp [hlen]
    generalize data.take m ++ [0] ++ data.drop (m + 1) = data' at hfull hbyte
    obtain rfl := (Prod.mk.inj (Option.some.inj (hfull.symm.trans hput))).2
    have hagree := hsame [.call .find] ⟨trivial, fun _ _ _ => trivial⟩
    simp [runOps, stepAlloc, step, find_behind_read_block,
      find_past_int (m + 1) [Block.new (m + 1)] hm hbyte] at hagree

/-- **Both bounds on the block sizes are needed.** -/
theorem not_alike_at_int_limit :
    ¬ WritesAlike (new 1024) (2 ^ 31) (List.replicate (2 ^ 31 - 1) 0) ∧
      ∃ b, AllowedRun AllocOk stepAlloc (new (2 ^ 31))
          [.call (.put (List.replicate (2 ^ 31 - 1) 0)), .call (.get (2 ^ 31 - 1))] ∧
        runOps stepAlloc (new (2 ^ 31))
            [.call (.put (List.replicate (2 ^ 31 - 1) 0)), .call (.get (2 ^ 31 - 1))] =
          some ([⟨(2 ^ 31 - 1 : Nat), []⟩,
            ⟨(2 ^ 31 - 1 : Nat), List.replicate (2 ^ 31 - 1) 0⟩], b) ∧
        ¬ WritesAlike b 1 [0] :=
  ⟨wide_alloc_differs (m := 2 ^ 31 - 1) (by decide),
    wide_default_differs (m := 2 ^ 31 - 1) (by decide)⟩

end BlockBuffer

end Negatus
