import Negatus.Buffer.Scan
import Negatus.Foundations.Refinement

/-!
# `BlockBuffer` refines a byte queue

The specification is a list of bytes: `put` appends, `get` and `getline` remove
at the front, `find` and `avail` look. `Tidy` chains simulate it, operation by
operation, and so along every sequence of operations.

The code counts in `int`. Two bounds come from there and from nowhere else: an
offset inside a block has to fit an `int` (`Block::find`), and so does the
length of a line plus one (`getline`).
-/

namespace Negatus

open Foundations

inductive BufferOp : Type where
  | put (bs : Bytes)
  | get (size : Nat)
  | getline                                  -- into a `std::stringstream`
  | getlineArray (out : Bytes) (size : Nat)  -- into the caller's array `out`
  | find                                     -- `find('\n')`
  | avail
deriving DecidableEq

/-- What the caller of an operation sees: the returned number, and the bytes
stored in `out`. -/
structure Reply where
  ret : Int
  out : Bytes
deriving DecidableEq

namespace BlockBuffer

def step (b : BlockBuffer) : BufferOp → Option (Reply × BlockBuffer)
  | .put bs => do
      let (n, b') ← b.put bs
      some (⟨int32 n, []⟩, b')
  | .get size => do
      let (out, b') ← b.get size
      some (⟨int32 out.length, out⟩, b')
  | .getline => do
      let (out, len, b') ← b.getline
      some (⟨len, out⟩, b')
  | .getlineArray out size => do
      let (out', len, b') ← b.getlineArray out size
      some (⟨len, out'⟩, b')
  | .find => do
      let len ← b.find newline
      some (⟨len, []⟩, b)
  | .avail => do
      let n ← b.avail
      some (⟨n, []⟩, b)

/-- The queue: what each operation is for. -/
def fifoStep (q : Bytes) : BufferOp → Reply × Bytes
  | .put bs => (⟨bs.length, []⟩, q ++ bs)
  | .get size => (⟨size, q.take size⟩, q.drop size)
  | .getline =>
      match firstLine q with
      | none => (⟨0, []⟩, q)
      | some (line, rest) => (⟨line.length, line⟩, rest)
  | .getlineArray out _ =>
      match firstLine q with
      | none => (⟨0, out⟩, q)
      | some (line, rest) => (⟨line.length, line ++ 0 :: out.drop (line.length + 1)⟩, rest)
  | .find =>
      match q.findIdx? (· == newline) with
      | none => (⟨-1, []⟩, q)
      | some k => (⟨k + 1, []⟩, q)
  | .avail => (⟨q.length, []⟩, q)

/-- Fewer than `2 ^ 31` bytes are held, a `get` asks for what is there, and the
array given to `getline` has room for the line and its NUL. -/
def FifoLegal (q : Bytes) : BufferOp → Prop
  | .put bs => q.length + bs.length < 2 ^ 31
  | .get size => size ≤ q.length
  | .getlineArray out size => ∀ line rest, firstLine q = some (line, rest) →
      line.length < size ∧ size ≤ out.length
  | _ => True

/-- Both overloads of `getline` are called on fewer than `2 ^ 31 - 1` bytes. -/
def GetlineFits (q : Bytes) : BufferOp → Prop
  | .getline | .getlineArray _ _ => q.length < 2 ^ 31 - 1
  | _ => True

/-- Both positions lie in the chain, in this order, and the first block is not
read to its end. -/
structure Placed (b : BlockBuffer) : Prop where
  get_first : b.mGetPtr.block = 0
  put_index : b.mPutPtr.block < b.mBlocks.length
  get_live : ∀ blk, b.mBlocks[b.mGetPtr.block]? = some blk → b.mGetPtr.elem < blk.mSize
  put_live : ∀ blk, b.mBlocks[b.mPutPtr.block]? = some blk → b.mPutPtr.elem < blk.mSize
  get_le_put : b.mGetPtr.block < b.mPutPtr.block ∨
    b.mGetPtr.block = b.mPutPtr.block ∧ b.mGetPtr.elem ≤ b.mPutPtr.elem

theorem Tidy.placed {b : BlockBuffer} (h : b.Tidy) : b.Placed := by
  obtain ⟨head, tail, hblocks, hget⟩ := h.get_elem
  obtain ⟨init, last, hlast, hput, hle⟩ := h.put_last
  refine ⟨h.get_block, ?_, ?_, ?_, ?_⟩
  · rw [hput, hlast]
    simp
  · intro blk hblk
    rw [h.get_block, hblocks, List.getElem?_cons_zero, Option.some.injEq] at hblk
    exact hblk ▸ h.get_lt head tail hblocks
  · intro blk hblk
    have hblk' : last = blk := by simpa [hput, hlast] using hblk
    subst hblk'
    have hpos := h.blocks_pos last (by rw [hlast]; simp)
    rcases h.put_room init last hlast with hroom | ⟨-, hroom⟩
    · exact hroom
    · omega
  · by_cases htail : tail = []
    · subst htail
      rw [if_pos rfl] at hget
      obtain ⟨rfl, rfl⟩ := snoc_inj (show [] ++ [head] = _ from hblocks.symm.trans hlast)
      exact Or.inr ⟨by rw [h.get_block, hput]; rfl, hget⟩
    · obtain ⟨init', rfl, -⟩ := snoc_of_cons htail (hblocks.symm.trans hlast)
      exact Or.inl (by rw [h.get_block, hput]; simp)

/-- A chain whose blocks an `int` can index, with fewer than `2 ^ 31` bytes held. -/
structure Stocked (b : BlockBuffer) : Prop extends Linked b where
  bounded : b.Bounded (2 ^ 31 - 1)
  held : b.unread.length < 2 ^ 31

/-- The representation invariant of a buffer that only `put` has filled. -/
structure Held (b : BlockBuffer) : Prop extends Tidy b where
  bounded : b.Bounded (2 ^ 31 - 1)
  held : b.unread.length < 2 ^ 31

theorem Held.stocked {b : BlockBuffer} (h : b.Held) : b.Stocked :=
  ⟨h.toLinked, h.bounded, h.held⟩

theorem Advanced.stocked {b b' : BlockBuffer} {n : Nat} (hadv : Advanced b n b') (h : b.Stocked) :
    b'.Stocked where
  toLinked := hadv.linked
  bounded := hadv.bounded _ h.bounded
  held := by
    have := h.held
    rw [hadv.unread_eq, List.length_drop]
    omega

theorem Filled.stocked {b b' : BlockBuffer} {bs : Bytes} (hfill : Filled b bs b') (h : b.Stocked)
    (hlen : b.unread.length + bs.length < 2 ^ 31) : b'.Stocked where
  toLinked := hfill.linked
  bounded := hfill.bounded _ h.bounded
  held := by
    rw [hfill.unread_eq, List.length_append]
    exact hlen

theorem drop_firstLine {q line rest : Bytes} (h : firstLine q = some (line, rest)) :
    q.drop line.length = rest := by
  rw [← splitAfter_append_eq h, List.drop_left]

/-- One operation of the code is one operation of the queue. -/
theorem stocked_square {b : BlockBuffer} {op : BufferOp} (h : b.Stocked)
    (hlegal : FifoLegal b.unread op) (hfits : GetlineFits b.unread op) :
    ∃ b', step b op = some ((fifoStep b.unread op).1, b') ∧ b'.Stocked ∧
      b'.unread = (fifoStep b.unread op).2 ∧ (b.Tidy → b'.Tidy) := by
  have hheld := h.held
  cases op with
  | put bs =>
      obtain ⟨b', hput, hfill⟩ := put_spec h.toLinked bs
      refine ⟨b', ?_, hfill.stocked h hlegal, hfill.unread_eq, hfill.tidy⟩
      have hlen : b.unread.length + bs.length < 2 ^ 31 := hlegal
      simp [step, fifoStep, hput, int32_of_lt (show bs.length < 2 ^ 31 by omega)]
  | get size =>
      obtain ⟨b', hget, hadv⟩ := get_spec h.toLinked hlegal
      have hsize : (b.unread.take size).length = size := by
        rw [List.length_take]
        exact Nat.min_eq_left hlegal
      -- what is held can be counted in an `int`, and so can what is asked for
      have hint : size < 2 ^ 31 := Nat.lt_of_le_of_lt hlegal hheld
      refine ⟨b', ?_, hadv.stocked h, hadv.unread_eq, hadv.tidy⟩
      simp [step, fifoStep, hget, hsize, int32_of_lt hint]
  | getline =>
      cases hline : firstLine b.unread with
      | none =>
          refine ⟨b, ?_, h, by simp [fifoStep, hline], id⟩
          simp [step, fifoStep, hline, getline_none h.toLinked h.bounded hline]
      | some s =>
          obtain ⟨line, rest⟩ := s
          have hlen := Nat.lt_of_le_of_lt (firstLine_length_le hline) hfits
          obtain ⟨b', hget, hadv⟩ := getline_some h.toLinked h.bounded hline hlen
          refine ⟨b', ?_, hadv.stocked h, ?_, hadv.tidy⟩
          · simp [step, fifoStep, hline, hget]
          · simp [fifoStep, hline, hadv.unread_eq, drop_firstLine hline]
  | getlineArray out size =>
      cases hline : firstLine b.unread with
      | none =>
          refine ⟨b, ?_, h, by simp [fifoStep, hline], id⟩
          simp [step, fifoStep, hline, getlineArray_none h.toLinked h.bounded hline]
      | some s =>
          obtain ⟨line, rest⟩ := s
          have hlen := Nat.lt_of_le_of_lt (firstLine_length_le hline) hfits
          -- the array has room for the line and the NUL
          obtain ⟨hsize, hout⟩ := hlegal line rest hline
          obtain ⟨b', hget, hadv⟩ := getlineArray_some h.toLinked h.bounded hline hlen hsize
            (Nat.lt_of_lt_of_le hsize hout)
          refine ⟨b', ?_, hadv.stocked h, ?_, hadv.tidy⟩
          · simp [step, fifoStep, hline, hget]
          · simp [fifoStep, hline, hadv.unread_eq, drop_firstLine hline]
  | find =>
      have hfind := find_spec h.toLinked h.bounded newline
      cases hk : b.unread.findIdx? (· == newline) with
      | none =>
          refine ⟨b, ?_, h, by simp [fifoStep, hk], id⟩
          simp [step, fifoStep, hk, hfind, foundLen]
      | some k =>
          have hlt := (List.findIdx?_eq_some_iff_getElem.mp hk).1
          have hlen : foundLen 0 (some k) = (k : Int) + 1 := by
            rw [foundLen, Nat.zero_add, wrap32_of_lt (by omega), int32_of_lt (by omega)]
            rfl
          refine ⟨b, ?_, h, by simp [fifoStep, hk], id⟩
          simp [step, fifoStep, hk, hfind, hlen]
  | avail =>
      refine ⟨b, ?_, h, rfl, id⟩
      simp [step, fifoStep, avail_spec h.toLinked,
        wrap32_of_lt (show b.unread.length < 2 ^ 32 by omega)]

theorem refines_fifo :
    Refines step fifoStep (fun q op => FifoLegal q op ∧ GetlineFits q op) unread Held where
  square := by
    rintro b op h ⟨hlegal, hfits⟩
    obtain ⟨b', hstep, hstocked, hunread, htidy⟩ := stocked_square h.stocked hlegal hfits
    exact ⟨b', hstep, ⟨htidy h.toTidy, hstocked.bounded, hstocked.held⟩, hunread⟩

theorem new_held {n : Nat} (hn : 0 < n) (hn' : n < 2 ^ 31) : (new n).Held where
  toTidy := new_tidy hn
  bounded := new_bounded (by omega)
  held := by simp

/-- **The block buffer is a FIFO byte queue.** For every default block size that
an `int` can hold and every legal sequence of operations, the code is defined
all the way, gives the answers of the queue, and ends in a chain that holds the
bytes of the queue, with both positions in place. -/
theorem blockBuffer_fifo {n : Nat} (hn : 0 < n) (hn' : n < 2 ^ 31) {ops : List BufferOp}
    (hl : LegalRun (fun q op => FifoLegal q op ∧ GetlineFits q op) fifoStep [] ops) :
    ∃ b, runOps step (new n) ops = some ((runSpec fifoStep [] ops).1, b) ∧
      b.unread = (runSpec fifoStep [] ops).2 ∧ b.Placed := by
  have hl' : LegalRun (fun q op => FifoLegal q op ∧ GetlineFits q op) fifoStep (new n).unread ops := by
    rwa [new_unread]
  obtain ⟨b, hrun, hheld, habs⟩ := refines_fifo.run (new_held hn hn') hl'
  rw [new_unread] at hrun habs
  exact ⟨b, hrun, habs, hheld.toTidy.placed⟩

theorem blockBuffer_fifo_two_byte_blocks :
    ∃ b, runOps step (new 2) [.put (str "ab\ncd"), .find, .getline, .avail, .get 2] =
        some ([⟨5, []⟩, ⟨3, []⟩, ⟨3, str "ab\n"⟩, ⟨2, []⟩, ⟨2, str "cd"⟩], b) ∧
      b.unread = [] ∧ b.Placed :=
  blockBuffer_fifo (n := 2) (by decide) (by decide)
    ⟨⟨show (5 : Nat) < 2 ^ 31 by decide, trivial⟩, ⟨trivial, trivial⟩,
      ⟨trivial, show (5 : Nat) < 2 ^ 31 - 1 by decide⟩, ⟨trivial, trivial⟩,
      ⟨show (2 : Nat) ≤ 2 by decide, trivial⟩, trivial⟩

/-! ## Where the `int`s end

Without the two bounds the queue is lost: a line of `2 ^ 31 - 1` bytes, newline
included, makes `getline` compute `len + 1`, and in a block of `2 ^ 31` bytes
`Block::find` counts past the largest `int`. -/

/-- The queue simulation without the bounds of `getline` and of the block size. -/
def FifoRefined (n : Nat) (ops : List BufferOp) : Prop :=
  LegalRun FifoLegal fifoStep [] ops →
    ∃ b, runOps step (new n) ops = some ((runSpec fifoStep [] ops).1, b)

theorem firstLine_replicate (m : Nat) :
    firstLine (List.replicate m 0 ++ [newline]) = some (List.replicate m 0 ++ [newline], []) :=
  splitAfter_at (by simp [newline]) rfl

theorem long_line_undefined {n m : Nat} (hn : 0 < n) (hn' : n < 2 ^ 31) (hm : m + 1 = 2 ^ 31 - 1) :
    LegalRun FifoLegal fifoStep [] [.put (List.replicate m 0 ++ [newline]), .getline] ∧
      runOps step (new n) [.put (List.replicate m 0 ++ [newline]), .getline] = none := by
  have hlen : (List.replicate m (0 : UInt8) ++ [newline]).length = 2 ^ 31 - 1 := by simp [hm]
  constructor
  · refine ⟨?_, trivial, trivial⟩
    show [].length + (List.replicate m (0 : UInt8) ++ [newline]).length < 2 ^ 31
    rw [hlen]
    simp
  · have hnew := new_held hn hn'
    obtain ⟨b, hput, hfill⟩ := put_spec hnew.toLinked (List.replicate m 0 ++ [newline])
    have hunread : b.unread = List.replicate m 0 ++ [newline] := by
      rw [hfill.unread_eq, new_unread, List.nil_append]
    have hline : firstLine b.unread = some (List.replicate m 0 ++ [newline], []) := by
      rw [hunread, firstLine_replicate]
    have hnone := getline_overflow hfill.linked (hfill.bounded _ hnew.bounded) hline hlen
    simp [runOps, step, hput, hnone]

/-- `put` of bytes for which the only block has room is one round of the loop. -/
theorem put_single (d g : Nat) (data : Bytes) {size e : Nat} {bs : Bytes} (hbs : bs ≠ [])
    (h : e + bs.length ≤ size) :
    put ⟨d, [⟨size, data⟩], ⟨0, g⟩, ⟨0, e⟩⟩ bs = (updateBufferEnd
      ⟨d, [⟨size, data.take e ++ bs ++ data.drop (e + bs.length)⟩], ⟨0, g⟩,
        ⟨0, e + bs.length⟩⟩).map fun b => (bs.length, b) := by
  have hround : (if size - e > bs.length then bs.length else size - e) = bs.length := by
    split <;> omega
  have hstored : Block.put ⟨size, data⟩ bs e =
      some ⟨size, data.take e ++ bs ++ data.drop (e + bs.length)⟩ := if_pos h
  rw [put, putLoop, if_neg hbs, Option.bind_eq_bind, Option.bind_eq_bind]
  simp only [List.getElem?_cons_zero, Option.bind_eq_bind, Option.bind_some, hround,
    sub32_of_le (show e ≤ size by omega), List.take_length, hstored, List.set_cons_zero,
    List.drop_length, putLoop, if_true, Option.bind_fun_some]
  cases updateBufferEnd
      ⟨d, [⟨size, data.take e ++ bs ++ data.drop (e + bs.length)⟩], ⟨0, g⟩, ⟨0, e + bs.length⟩⟩ with
  | none => rfl
  | some b => rfl

/-- `put` of bytes that leave room in the only block. -/
theorem put_inside (d g : Nat) (data : Bytes) {size e : Nat} {bs : Bytes} (hbs : bs ≠ [])
    (h : e + bs.length < size) :
    put ⟨d, [⟨size, data⟩], ⟨0, g⟩, ⟨0, e⟩⟩ bs = some (bs.length,
      ⟨d, [⟨size, data.take e ++ bs ++ data.drop (e + bs.length)⟩], ⟨0, g⟩, ⟨0, e + bs.length⟩⟩) := by
  rw [put_single d g data hbs (Nat.le_of_lt h)]
  simp only [updateBufferEnd, List.getElem?_cons_zero, Option.bind_eq_bind, Option.bind_some]
  rw [if_neg (Nat.ne_of_lt h), Option.map_some]

/-- `put` of bytes that fill the only block. -/
theorem put_filling (d g : Nat) (data : Bytes) {size e : Nat} {bs : Bytes} (hbs : bs ≠ [])
    (h : e + bs.length = size) :
    put ⟨d, [⟨size, data⟩], ⟨0, g⟩, ⟨0, e⟩⟩ bs = some (bs.length,
      ⟨d, [⟨size, data.take e ++ bs ++ data.drop size⟩, Block.new d], ⟨0, g⟩, ⟨1, 0⟩⟩) := by
  subst h
  rw [put_single d g data hbs (Nat.le_refl _)]
  simp only [updateBufferEnd, List.getElem?_cons_zero, Option.bind_eq_bind, Option.bind_some]
  rfl

/-- The first bytes put into a block that they do not fill. -/
theorem put_zeros {d m : Nat} (hpos : 0 < m) (hlt : m < d) :
    ∃ data, (new d).put (List.replicate m 0) =
        some (m, ⟨d, [⟨d, data⟩], ⟨0, 0⟩, ⟨0, m⟩⟩) ∧
      data.length = d ∧ data.take m = List.replicate m 0 := by
  have hne : List.replicate m (0 : UInt8) ≠ [] := by
    intro h
    have := congrArg List.length h
    simp only [List.length_replicate, List.length_nil] at this
    omega
  have hput := put_inside d 0 (List.replicate d 0) hne
    (show 0 + (List.replicate m (0 : UInt8)).length < d by rw [List.length_replicate]; omega)
  rw [List.length_replicate, Nat.zero_add] at hput
  refine ⟨_, hput, ?_, ?_⟩
  · simp only [List.length_append, List.length_take, List.length_replicate, List.length_drop]
    omega
  · simp

theorem get_inside (d : Nat) (data : Bytes) {size e : Nat} (hpos : 0 < e) (h : e < size) :
    get ⟨d, [⟨size, data⟩], ⟨0, 0⟩, ⟨0, e⟩⟩ e =
      some (data.take e, ⟨d, [⟨size, data⟩], ⟨0, e⟩, ⟨0, e⟩⟩) := by
  have hne : (⟨0, 0⟩ : BlockPtr) ≠ ⟨0, e⟩ := by
    intro heq
    have := congrArg BlockPtr.elem heq
    exact Nat.ne_of_lt hpos this
  have hgotten : Block.get ⟨size, data⟩ 0 e = some (data.take e) :=
    if_pos (show 0 + e ≤ size by omega)
  have hkeep : updateBufferStart ⟨d, [⟨size, data⟩], ⟨0, e⟩, ⟨0, e⟩⟩ =
      some ⟨d, [⟨size, data⟩], ⟨0, e⟩, ⟨0, e⟩⟩ := by
    simp only [updateBufferStart, List.getElem?_cons_zero, Option.bind_eq_bind, Option.bind_some]
    rw [if_neg (Nat.ne_of_lt h)]
    rfl
  rw [get, getLoop, if_pos ⟨hpos, hne⟩]
  simp only [List.getElem?_cons_zero, Option.bind_eq_bind, Option.bind_some, List.length_nil,
    sub32_of_le (Nat.zero_le size), Nat.sub_zero, if_neg (show ¬ e > size by omega), hgotten,
    Nat.zero_add, hkeep, List.nil_append]
  show getLoop e (e + 1) _ _ = _
  rw [getLoop, if_neg fun hmore => hmore.2 rfl]

theorem find_past_int (d : Nat) (blocks : List Block) {m : Nat} {data : Bytes}
    (hm : m + 1 = 2 ^ 31) (hbyte : data[m]? = some 0) :
    find ⟨d, ⟨m + 1, data⟩ :: blocks, ⟨0, m⟩, ⟨1, 0⟩⟩ newline = none := by
  have hone : m + 1 - m = 1 := by omega
  have hscan : Block.find ⟨m + 1, data⟩ newline m (m + 1) = none := by
    unfold Block.find
    rw [hone, Block.findFrom, if_pos (by omega), hbyte]
    show (if (0 : UInt8) = newline then _ else _) = none
    rw [if_neg (by decide), if_neg (by omega)]
  simp [find, findLoop, hscan]

theorem wide_block_undefined {m : Nat} (hm : m + 1 = 2 ^ 31) :
    LegalRun FifoLegal fifoStep []
        [.put (List.replicate m 0), .get m, .put [0], .find] ∧
      runOps step (new (m + 1)) [.put (List.replicate m 0), .get m, .put [0], .find] = none := by
  have hpos : 0 < m := by omega
  constructor
  · refine ⟨?_, ?_, ?_, trivial, trivial⟩
    · show [].length + (List.replicate m (0 : UInt8)).length < 2 ^ 31
      simp only [List.length_nil, List.length_replicate]
      omega
    · show m ≤ ([] ++ List.replicate m (0 : UInt8)).length
      simp
    · show (([] ++ List.replicate m (0 : UInt8)).drop m).length + [(0 : UInt8)].length < 2 ^ 31
      simp
  · obtain ⟨data, h₁, hlen, -⟩ := put_zeros hpos (Nat.lt_succ_self m)
    have h₂ := get_inside (m + 1) data hpos (show m < m + 1 by omega)
    have h₃ := put_filling (m + 1) m data (List.cons_ne_nil (0 : UInt8) [])
      (show m + [(0 : UInt8)].length = m + 1 from rfl)
    have hbyte : (List.take m data ++ [0] ++ List.drop (m + 1) data)[m]? = some 0 := by
      simp [hlen]
    generalize List.take m data ++ [0] ++ List.drop (m + 1) data = data' at h₃ hbyte
    have h₄ := find_past_int (m + 1) [Block.new (m + 1)] hm hbyte
    simp [runOps, step, h₁, h₂, h₃, h₄]

theorem not_fifo_at_int_limit :
    ¬ FifoRefined 1024 [.put (List.replicate (2 ^ 31 - 2) 0 ++ [newline]), .getline] ∧
    ¬ FifoRefined (2 ^ 31)
        [.put (List.replicate (2 ^ 31 - 1) 0), .get (2 ^ 31 - 1), .put [0], .find] := by
  constructor
  · intro h
    obtain ⟨hlegal, hnone⟩ := long_line_undefined (n := 1024) (m := 2 ^ 31 - 2)
      (by decide) (by decide) (by decide)
    obtain ⟨b, hsome⟩ := h hlegal
    exact Option.some_ne_none _ (hsome.symm.trans hnone)
  · intro h
    obtain ⟨hlegal, hnone⟩ := wide_block_undefined (m := 2 ^ 31 - 1) (by decide)
    obtain ⟨b, hsome⟩ := h hlegal
    exact Option.some_ne_none _ (hsome.symm.trans hnone)

end BlockBuffer

end Negatus
