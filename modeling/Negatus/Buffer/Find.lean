import Negatus.Buffer.Getline

/-!
# `find(c)`

The loop of `find` searches `'\n'`, whatever its argument is. So it finds `c` only
where a newline is what is asked for, or where neither of the two is in the buffer.
What it looks at are the unread bytes, in a chain with blocks of any sizes; the
counter of `Block::find` is an `int`.
-/

namespace Negatus

namespace BlockBuffer

/-! ## Histories with the zero-copy calls -/

/-- A history of calls on a buffer with default block size `d` has led to `b`; `q` is
what was put and written without what was handed out. -/
inductive LaidOut (d : Nat) : BlockBuffer → Bytes → Prop
  | new : LaidOut d (new d) []
  | call {b b' : BlockBuffer} {q : Bytes} {op : BufferOp} {r : Reply} (h : LaidOut d b q)
      (hok : GetsClamped b op) (hstep : step b op = some (r, b')) :
      LaidOut d b' (q.drop (taken op r) ++ given op)
  | write {b b' : BlockBuffer} {q : Bytes} {n : Nat} {w : Bytes} (h : LaidOut d b q)
      (hw : w.length ≤ n) (hwrite : b.allocWrite n w = some b') : LaidOut d b' (q ++ w)

theorem LaidOut.shaped {d : Nat} {b : BlockBuffer} {q : Bytes} (h : LaidOut d b q) :
    b.Shaped ∧ b.unread = q := by
  induction h with
  | new => exact ⟨new_shaped d, new_unread d⟩
  | @call b b' q op r _ hok hstep ih =>
      obtain ⟨hshaped, rfl⟩ := ih
      refine step_shaped hshaped ?_ hstep
      rintro size rfl
      obtain ⟨n, havail, hle⟩ := hok
      -- `avail` counts modulo `2 ^ 32`, so never more than there is
      have hcount := avail_spec hshaped
      rw [avail_withDefault, havail] at hcount
      obtain rfl := Option.some.inj hcount
      exact Nat.le_trans hle (Nat.mod_le _ _)
  | write _ hw hwrite ih =>
      obtain ⟨hshaped, rfl⟩ := ih
      obtain ⟨b₁, hsome, hshaped', -, hunread, -⟩ := allocWrite_shaped hshaped hw
      obtain rfl := Option.some.inj (hsome.symm.trans hwrite)
      exact ⟨hshaped', hunread⟩

/-! ## What `find` looks at -/

/-- `p` is in front of the put position and not before the get position, inside its
block. -/
def HoldsAt (b : BlockBuffer) (p : BlockPtr) : Prop :=
  (b.mGetPtr.block < p.block ∨ b.mGetPtr.block = p.block ∧ b.mGetPtr.elem ≤ p.elem) ∧
  (p.block < b.mPutPtr.block ∨ p.block = b.mPutPtr.block ∧ p.elem < b.mPutPtr.elem) ∧
  ∀ blk, b.mBlocks[p.block]? = some blk → p.elem < blk.mSize

def byteAt (b : BlockBuffer) (p : BlockPtr) : Option UInt8 :=
  b.mBlocks[p.block]?.bind fun blk => blk.mData[p.elem]?

/-- Blocks of the same sizes with the same unread bytes; the others may differ, or be
missing. -/
structure SameUnread (b b' : BlockBuffer) : Prop where
  getPtr : b'.mGetPtr = b.mGetPtr
  putPtr : b'.mPutPtr = b.mPutPtr
  sizes : b'.mBlocks.map Block.mSize = b.mBlocks.map Block.mSize
  bytes : ∀ p, b.HoldsAt p → b'.byteAt p = b.byteAt p

theorem Block.findFrom_congr {blk blk' : Block} {c : UInt8} {n i : Nat}
    (h : ∀ j, i ≤ j → j < i + n → blk'.mData[j]? = blk.mData[j]?) :
    blk'.findFrom c n i = blk.findFrom c n i := by
  induction n generalizing i with
  | zero => rfl
  | succ n ih =>
      have hrest := ih (i := i + 1) fun j hle hlt => h j (by omega) (by omega)
      rw [Block.findFrom, Block.findFrom, h i (Nat.le_refl i) (by omega), hrest]

/-- The loop looks at the bytes between the two positions, block by block. -/
theorem findLoop_congr {b b' : BlockBuffer} (hget : b'.mGetPtr = b.mGetPtr)
    (hput : b'.mPutPtr = b.mPutPtr) {blocks blocks' : List Block} {block : Nat} (len : Nat)
    (hlen : blocks'.length = blocks.length)
    (hsame : ∀ k blk blk', blocks[k]? = some blk → blocks'[k]? = some blk' →
      blk'.mSize = blk.mSize ∧ ∀ j, (block + k = b.mGetPtr.block → b.mGetPtr.elem ≤ j) →
        j < (if block + k = b.mPutPtr.block then b.mPutPtr.elem else blk.mSize) →
        blk'.mData[j]? = blk.mData[j]?) :
    findLoop b' blocks' block len = findLoop b blocks block len := by
  induction blocks generalizing blocks' block len with
  | nil =>
      obtain rfl := List.length_eq_zero_iff.mp hlen
      rfl
  | cons blk rest ih =>
      obtain ⟨blk', rest', rfl⟩ := List.exists_cons_of_length_eq_add_one hlen
      obtain ⟨hsize, hbytes⟩ := hsame 0 blk blk' rfl rfl
      have hrest : ∀ len, findLoop b' rest' (block + 1) len = findLoop b rest (block + 1) len := by
        refine fun len => ih len (Nat.succ.inj hlen) fun k x x' hx hx' => ?_
        have hnext := hsame (k + 1) x x' hx hx'
        rwa [← Nat.add_assoc, Nat.add_right_comm] at hnext
      have hscan : ∀ start stop,
          start = (if block = b.mGetPtr.block then b.mGetPtr.elem else 0) →
          stop = (if block = b.mPutPtr.block then b.mPutPtr.elem else blk.mSize) →
          blk'.find newline start stop = blk.find newline start stop := by
        rintro start stop rfl rfl
        refine Block.findFrom_congr fun j hle hlt => hbytes j ?_ ?_
        · intro hfirst
          rwa [if_pos (show block = b.mGetPtr.block from hfirst)] at hle
        · show j < if block = b.mPutPtr.block then _ else _
          omega
      simp only [findLoop, hget, hput, hsize, hrest, hscan _ _ rfl rfl]

/-- **`find` looks at the unread bytes only.** -/
theorem find_congr {b b' : BlockBuffer} (h : b.Shaped) (hsame : SameUnread b b') (c : UInt8) :
    b'.find c = b.find c := by
  obtain ⟨init, last, (hblocks : b.mBlocks = init ++ [last]),
    (hput : b.mPutPtr.block = init.length), (hle : b.mPutPtr.elem ≤ last.mSize)⟩ := h.put_last
  have hget : b.mGetPtr.block = 0 := h.get_block
  have hlen : b'.mBlocks.length = b.mBlocks.length := by
    have := congrArg List.length hsame.sizes
    rwa [List.length_map, List.length_map] at this
  unfold find
  rw [hsame.getPtr, hget, List.drop_zero, List.drop_zero]
  refine findLoop_congr hsame.getPtr hsame.putPtr 0 hlen fun k blk blk' hblk hblk' => ?_
  have hsize : blk'.mSize = blk.mSize := by
    have := congrArg (·[k]?) hsame.sizes
    simpa [hblk, hblk'] using this
  refine ⟨hsize, fun j hfrom hto => ?_⟩
  rw [Nat.zero_add] at hfrom hto
  have hk : k < init.length + 1 := by
    have := (List.getElem?_eq_some_iff.mp hblk).1
    rwa [hblocks, List.length_append, List.length_singleton] at this
  have hbyte := hsame.bytes ⟨k, j⟩ ⟨?_, ?_, ?_⟩
  · simpa [byteAt, hblk, hblk'] using hbyte
  · show b.mGetPtr.block < k ∨ b.mGetPtr.block = k ∧ b.mGetPtr.elem ≤ j
    by_cases hfirst : k = b.mGetPtr.block
    · exact Or.inr ⟨hfirst.symm, hfrom hfirst⟩
    · omega
  · show k < b.mPutPtr.block ∨ k = b.mPutPtr.block ∧ j < b.mPutPtr.elem
    by_cases hlast : k = b.mPutPtr.block
    · rw [if_pos hlast] at hto
      exact Or.inr ⟨hlast, hto⟩
    · omega
  · intro x hx
    obtain rfl := Option.some.inj (hblk.symm.trans hx)
    show j < blk.mSize
    -- the put position is inside the last block
    by_cases hlast : k = b.mPutPtr.block
    · rw [if_pos hlast] at hto
      have : blk = last := by simpa [hblocks, hlast, hput, eq_comm] using hblk
      rw [this]
      omega
    · rwa [if_neg hlast] at hto

/-! ## What `find` finds -/

/-- One plus the offset of the first `c` in the queue, -1 if there is none. -/
def firstOffset (q : Bytes) (c : UInt8) : Int :=
  match q.findIdx? (· == c) with
  | none => -1
  | some k => (k : Int) + 1

/-- `find(c)` returns where the first `c` is in the queue, whatever the other bytes of
the blocks are. -/
structure Finds (b : BlockBuffer) (q : Bytes) (c : UInt8) : Prop where
  found : b.find c = some (firstOffset q c)
  unseen : ∀ b', SameUnread b b' → b'.find c = some (firstOffset q c)

theorem firstOffset_neg {q : Bytes} {c : UInt8} (h : c ∉ q) : firstOffset q c = -1 := by
  have hnone : q.findIdx? (· == c) = none :=
    List.findIdx?_eq_none_iff.mpr fun x hx => beq_false_of_ne fun heq => h (heq ▸ hx)
  rw [firstOffset, hnone]

theorem firstOffset_pos {q : Bytes} {c : UInt8} (h : c ∈ q) :
    ∃ k, ∃ hk : k < q.length, q[k] = c ∧ firstOffset q c = (k : Int) + 1 := by
  cases hidx : q.findIdx? (· == c) with
  | none => simpa using List.findIdx?_eq_none_iff.mp hidx c h
  | some k =>
      obtain ⟨hk, hc, -⟩ := List.findIdx?_eq_some_iff_getElem.mp hidx
      exact ⟨k, hk, eq_of_beq hc, by rw [firstOffset, hidx]⟩

theorem firstOffset_eq {q : Bytes} {c d : UInt8} :
    firstOffset q c = firstOffset q d ↔ c = d ∨ c ∉ q ∧ d ∉ q := by
  constructor
  · intro heq
    by_cases hc : c ∈ q
    · obtain ⟨k, hk, hqc, hfirst⟩ := firstOffset_pos hc
      by_cases hd : d ∈ q
      · obtain ⟨k', hk', hqd, hfirst'⟩ := firstOffset_pos hd
        obtain rfl : k = k' := by omega
        exact Or.inl (hqc.symm.trans hqd)
      · rw [hfirst, firstOffset_neg hd] at heq
        omega
    · by_cases hd : d ∈ q
      · obtain ⟨k, -, -, hfirst⟩ := firstOffset_pos hd
        rw [hfirst, firstOffset_neg hc] at heq
        omega
      · exact Or.inr ⟨hc, hd⟩
  · rintro (rfl | ⟨hc, hd⟩)
    · rfl
    · rw [firstOffset_neg hc, firstOffset_neg hd]

/-- `foundLen` is the offset as long as it fits an `int`. -/
theorem foundLen_eq {q : Bytes} (h : q.length < 2 ^ 31) :
    foundLen 0 (q.findIdx? (· == newline)) = firstOffset q newline := by
  cases hidx : q.findIdx? (· == newline) with
  | none => simp [firstOffset, hidx, foundLen]
  | some k =>
      have hk := (List.findIdx?_eq_some_iff_findIdx_eq.mp hidx).1
      simp only [firstOffset, hidx, foundLen]
      rw [Nat.zero_add, wrap32_of_lt (by omega), int32_of_lt (by omega), Int.natCast_succ]

theorem find_shaped {b : BlockBuffer} (h : b.Shaped) (hheld : b.unread.length < 2 ^ 31)
    (c : UInt8) :
    b.find c = if Scannable b.mGetPtr.elem b.firstRun then some (firstOffset b.unread newline)
      else none := by
  rw [← find_withDefault 1, find_eq h hheld, ← foundLen_eq hheld]
  rfl

/-- **When `find` finds the character that it is asked for.** -/
theorem finds_iff {d : Nat} {b : BlockBuffer} {q : Bytes} (h : LaidOut d b q)
    (hheld : q.length < 2 ^ 31) (c : UInt8) :
    Finds b q c ↔
      (c = newline ∨ c ∉ q ∧ newline ∉ q) ∧ Scannable b.mGetPtr.elem b.firstRun := by
  obtain ⟨hshaped, rfl⟩ := h.shaped
  -- whatever `c` is, what is found is the first newline
  have hfind := find_shaped hshaped hheld c
  constructor
  · rintro ⟨hfound, -⟩
    rw [hfind] at hfound
    by_cases hscan : Scannable b.mGetPtr.elem b.firstRun
    · rw [if_pos hscan] at hfound
      exact ⟨firstOffset_eq.mp (Option.some.inj hfound).symm, hscan⟩
    · rw [if_neg hscan] at hfound
      cases hfound
  · rintro ⟨hc, hscan⟩
    rw [if_pos hscan, ← firstOffset_eq.mpr hc] at hfind
    exact ⟨hfind, fun b' hsame => (find_congr hshaped hsame c).trans hfind⟩

/-- A buffer with `a\n` in it. -/
def aLine : BlockBuffer where
  mDefaultBlockSize := 4
  mBlocks := [⟨4, [97, 10, 0, 0]⟩]
  mGetPtr := ⟨0, 0⟩
  mPutPtr := ⟨0, 2⟩

theorem aLine_laidOut : LaidOut 4 aLine (str "a\n") := by
  have hput : step (new 4) (.put (str "a\n")) = some (⟨2, []⟩, aLine) := by decide
  exact .call .new (show GetsClamped (new 4) (.put (str "a\n")) from trivial) hput

theorem aLine_finds_newline : Finds aLine (str "a\n") newline :=
  (finds_iff aLine_laidOut (by decide) newline).mpr ⟨Or.inl rfl, by decide⟩

/-- The first `a` is the first byte, and the two is where the newline is. -/
theorem aLine_misses_a : LaidOut 4 aLine (str "a\n") ∧ aLine.find 97 = some 2 ∧
    ¬ Finds aLine (str "a\n") 97 := by
  refine ⟨aLine_laidOut, by decide, fun h => ?_⟩
  have hfound : aLine.find 97 = some 1 := h.found
  revert hfound
  decide

end BlockBuffer

end Negatus
