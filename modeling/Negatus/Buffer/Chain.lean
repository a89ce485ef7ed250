import Negatus.Buffer

/-!
# The chain of blocks as a queue of bytes

`unread b` is the queue that a block buffer represents: the bytes of all blocks
in order, cut at the put position, without what lies before the get position.
`Linked` is the representation invariant; `get` and `put` keep it and act on
`unread` as the queue operations of the same names do.

`Linked` allows an empty last block, and so a first block that is read to its
end. `Tidy` excludes both: it is what the chain looks like when bytes only enter
through `put`.
-/

namespace Negatus

namespace BlockBuffer

/-- The bytes of a chain of blocks, the last one up to offset `e`. -/
def chain : List Block → Nat → Bytes
  | [], _ => []
  | [last], e => last.mData.take e
  | blk :: next :: rest, e => blk.mData.take blk.mSize ++ chain (next :: rest) e

def unread (b : BlockBuffer) : Bytes :=
  (chain b.mBlocks b.mPutPtr.elem).drop b.mGetPtr.elem

/-- Both positions point into the chain; the last block may be full, as it is
between the copying of bytes in `put` and the call of `updateBufferEnd`. -/
structure Chained (b : BlockBuffer) : Prop where
  default_pos : 0 < b.mDefaultBlockSize
  sizes : ∀ blk ∈ b.mBlocks, blk.mSize ≤ blk.mData.length
  get_block : b.mGetPtr.block = 0
  get_elem : ∃ head tail, b.mBlocks = head :: tail ∧
    b.mGetPtr.elem ≤ if tail = [] then b.mPutPtr.elem else head.mSize
  put_last : ∃ init last, b.mBlocks = init ++ [last] ∧ b.mPutPtr.block = init.length ∧
    b.mPutPtr.elem ≤ last.mSize

structure Linked (b : BlockBuffer) : Prop extends Chained b where
  put_room : ∀ init last, b.mBlocks = init ++ [last] →
    b.mPutPtr.elem < last.mSize ∨ b.mPutPtr.elem = 0 ∧ last.mSize = 0

/-- No block is empty, and none that is read to its end is kept. -/
structure Tidy (b : BlockBuffer) : Prop extends Linked b where
  blocks_pos : ∀ blk ∈ b.mBlocks, 0 < blk.mSize
  get_lt : ∀ head tail, b.mBlocks = head :: tail → b.mGetPtr.elem < head.mSize

/-- No block, and none that `newBlock` will append, is larger than `m`. -/
structure Bounded (m : Nat) (b : BlockBuffer) : Prop where
  default_le : b.mDefaultBlockSize ≤ m
  blocks_le : ∀ blk ∈ b.mBlocks, blk.mSize ≤ m

/-! ## The chain as a list -/

theorem chain_cons {blk : Block} {rest : List Block} (h : rest ≠ []) (e : Nat) :
    chain (blk :: rest) e = blk.mData.take blk.mSize ++ chain rest e := by
  cases rest with
  | nil => exact absurd rfl h
  | cons next rest => rfl

theorem chain_snoc (init : List Block) (last : Block) (e : Nat) :
    chain (init ++ [last]) e =
      init.flatMap (fun blk => blk.mData.take blk.mSize) ++ last.mData.take e := by
  induction init with
  | nil => rfl
  | cons blk init ih =>
      rw [List.cons_append, chain_cons (by simp), ih, List.flatMap_cons, List.append_assoc]

theorem unread_single {b : BlockBuffer} {blk : Block} (h : b.mBlocks = [blk]) :
    b.unread = (blk.mData.take b.mPutPtr.elem).drop b.mGetPtr.elem := by
  simp [unread, h, chain]

theorem unread_cons {b : BlockBuffer} {blk : Block} {rest : List Block}
    (h : b.mBlocks = blk :: rest) (hrest : rest ≠ []) (hget : b.mGetPtr.elem ≤ blk.mSize)
    (hsize : blk.mSize ≤ blk.mData.length) :
    b.unread =
      (blk.mData.take blk.mSize).drop b.mGetPtr.elem ++ chain rest b.mPutPtr.elem := by
  rw [unread, h, chain_cons hrest, List.drop_append_of_le_length]
  simp only [List.length_take]
  omega

/-! ## The empty buffer -/

theorem new_tidy {n : Nat} (hn : 0 < n) : (new n).Tidy where
  default_pos := hn
  sizes := by simp [new, newBlock, Block.new]
  get_block := rfl
  get_elem := ⟨Block.new n, [], rfl, Nat.le_refl 0⟩
  put_last := ⟨[], Block.new n, rfl, rfl, Nat.zero_le _⟩
  put_room := by
    intro init last h
    have heq : [] ++ [Block.new n] = init ++ [last] := h
    obtain ⟨-, h'⟩ := List.append_inj' heq rfl
    obtain ⟨rfl, -⟩ := List.cons.inj h'
    exact Or.inl hn
  blocks_pos := by simpa [new, newBlock, Block.new] using hn
  get_lt := by
    rintro head tail h
    obtain ⟨rfl, -⟩ : Block.new n = head ∧ [] = tail := List.cons.inj h
    exact hn

theorem new_bounded {m n : Nat} (hn : n ≤ m) : (new n).Bounded m where
  default_le := hn
  blocks_le := by simpa [new, newBlock, Block.new] using hn

@[simp] theorem new_unread (n : Nat) : (new n).unread = [] := by
  simp [unread, new, newBlock, chain]

/-! ## `get` -/

theorem updateBufferStart_stay {b : BlockBuffer} {head : Block} {tail : List Block}
    (hblocks : b.mBlocks = head :: tail) (hblock : b.mGetPtr.block = 0)
    (hne : b.mGetPtr.elem ≠ head.mSize) :
    b.updateBufferStart = some b := by
  simp [updateBufferStart, hblocks, hblock, hne, eraseFront]

theorem updateBufferStart_advance {b : BlockBuffer} {head : Block} {tail : List Block} {k : Nat}
    (hblocks : b.mBlocks = head :: tail) (hget : b.mGetPtr = ⟨0, head.mSize⟩)
    (hput : b.mPutPtr.block = k + 1) :
    b.updateBufferStart = some { b with
      mBlocks := tail, mGetPtr := ⟨0, 0⟩, mPutPtr := ⟨k, b.mPutPtr.elem⟩ } := by
  simp [updateBufferStart, hblocks, hget, hput, eraseFront]

/-- What one round of `get` that copies `n` bytes does to the buffer. -/
structure Advanced (b : BlockBuffer) (n : Nat) (b' : BlockBuffer) : Prop where
  linked : b'.Linked
  unread_eq : b'.unread = b.unread.drop n
  tidy : b.Tidy → b'.Tidy
  bounded : ∀ m, b.Bounded m → b'.Bounded m

theorem snoc_inj {α : Type*} {init init' : List α} {last last' : α}
    (h : init ++ [last] = init' ++ [last']) : init = init' ∧ last = last' := by
  obtain ⟨hinit, hlast⟩ := List.append_inj' h rfl
  exact ⟨hinit, (List.cons.inj hlast).1⟩

theorem snoc_of_cons {α : Type*} {x last : α} {rest init : List α} (hrest : rest ≠ [])
    (h : x :: rest = init ++ [last]) : ∃ init', init = x :: init' ∧ rest = init' ++ [last] := by
  cases init with
  | nil => simp [hrest] at h
  | cons y init =>
      obtain ⟨rfl, rfl⟩ := List.cons.inj h
      exact ⟨init, rfl, rfl⟩

/-- A round that stops inside the first block. -/
theorem advance_stay {b : BlockBuffer} (h : b.Linked) {head : Block} {tail : List Block}
    (hblocks : b.mBlocks = head :: tail) {n : Nat}
    (hn : b.mGetPtr.elem + n ≤ if tail = [] then b.mPutPtr.elem else head.mSize)
    (hlt : b.mGetPtr.elem + n < head.mSize) :
    Advanced b n { b with mGetPtr := { b.mGetPtr with elem := b.mGetPtr.elem + n } } where
  linked :=
    { h with get_elem := ⟨head, tail, hblocks, hn⟩ }
  unread_eq := by simp [unread]
  tidy := by
    intro ht
    refine { ht with get_elem := ⟨head, tail, hblocks, hn⟩, get_lt := ?_ }
    intro head' tail' h'
    obtain ⟨rfl, rfl⟩ := List.cons.inj (hblocks.symm.trans h')
    exact hlt
  bounded := fun _ hb => ⟨hb.default_le, hb.blocks_le⟩

/-- A round that reads the first block to its end: the block is erased. -/
theorem advance_erase {b : BlockBuffer} (h : b.Linked) {head : Block} {tail : List Block}
    (hblocks : b.mBlocks = head :: tail) (htail : tail ≠ []) {n : Nat}
    (hn : b.mGetPtr.elem + n = head.mSize) :
    ∃ b', updateBufferStart
        { b with mGetPtr := { b.mGetPtr with elem := b.mGetPtr.elem + n } } = some b' ∧
      Advanced b n b' ∧ b'.mBlocks = tail ∧ b'.mGetPtr = ⟨0, 0⟩ ∧
      b'.mPutPtr.elem = b.mPutPtr.elem := by
  obtain ⟨init, last, hlast, hput, hle⟩ := h.put_last
  obtain ⟨init', rfl, htail'⟩ := snoc_of_cons htail (hblocks.symm.trans hlast)
  obtain ⟨head', tail', hcons⟩ := List.exists_cons_of_ne_nil htail
  have hsizes : ∀ blk ∈ tail, blk.mSize ≤ blk.mData.length := fun blk hblk =>
    h.sizes blk (by rw [hblocks]; exact List.mem_cons_of_mem _ hblk)
  have hhead : head.mSize ≤ head.mData.length :=
    h.sizes head (by rw [hblocks]; exact List.mem_cons_self)
  refine ⟨{ b with mBlocks := tail, mGetPtr := ⟨0, 0⟩, mPutPtr := ⟨init'.length, b.mPutPtr.elem⟩ },
    ?_, ?_, rfl, rfl, rfl⟩
  · rw [updateBufferStart_advance (b := { b with
      mGetPtr := { b.mGetPtr with elem := b.mGetPtr.elem + n } }) (k := init'.length) hblocks]
    · simp [h.get_block, hn]
    · simpa using hput
  · have hlinked : Linked { b with
        mBlocks := tail, mGetPtr := ⟨0, 0⟩, mPutPtr := ⟨init'.length, b.mPutPtr.elem⟩ } :=
      { default_pos := h.default_pos
        sizes := hsizes
        get_block := rfl
        get_elem := ⟨head', tail', hcons, Nat.zero_le _⟩
        put_last := ⟨init', last, htail', rfl, hle⟩
        put_room := fun init'' last'' h'' =>
          h.put_room (head :: init'') last'' (hblocks.trans (congrArg (head :: ·) h'')) }
    refine ⟨hlinked, ?_, ?_, fun m hb => ⟨hb.default_le, fun blk hblk =>
      hb.blocks_le blk (by rw [hblocks]; exact List.mem_cons_of_mem _ hblk)⟩⟩
    -- what was left of the first block is dropped, and the second one has not been read
    · rw [unread_cons hblocks htail (by omega) hhead]
      simp only [unread, List.drop_zero]
      rw [List.drop_append, List.drop_drop, List.drop_of_length_le (by simp; omega)]
      simp only [List.length_drop, List.length_take, List.nil_append]
      rw [show n - (min head.mSize head.mData.length - b.mGetPtr.elem) = 0 by omega,
        List.drop_zero]
    · intro ht
      have hpos : ∀ blk ∈ tail, 0 < blk.mSize := fun blk hblk =>
        ht.blocks_pos blk (by rw [hblocks]; exact List.mem_cons_of_mem _ hblk)
      refine { hlinked with blocks_pos := hpos, get_lt := ?_ }
      intro head'' tail'' h''
      exact hpos head'' (by rw [show tail = head'' :: tail'' from h'']; exact List.mem_cons_self)

theorem Block.get_eq {blk : Block} {start n : Nat} (h : start + n ≤ blk.mSize) :
    blk.get start n = some ((blk.mData.drop start).take n) := by
  simp [Block.get, h]

/-- One round of the loop of `get`: it copies the next `n` unread bytes, up to
the end of the first block, and either asks for less or holds fewer blocks. -/
theorem get_round {b : BlockBuffer} (h : b.Linked) {want : Nat} (hpos : 0 < want)
    (hle : want ≤ b.unread.length) :
    b.mGetPtr ≠ b.mPutPtr ∧ ∃ blockp room n b',
      b.mBlocks[b.mGetPtr.block]? = some blockp ∧
      sub32 blockp.mSize b.mGetPtr.elem = some room ∧
      n = (if want > room then room else want) ∧
      blockp.get b.mGetPtr.elem n = some (b.unread.take n) ∧
      updateBufferStart
        { b with mGetPtr := { b.mGetPtr with elem := b.mGetPtr.elem + n } } = some b' ∧
      Advanced b n b' ∧ n ≤ want ∧
      want - n + b'.mBlocks.length < want + b.mBlocks.length := by
  obtain ⟨head, tail, hblocks, hget⟩ := h.get_elem
  obtain ⟨init, last, hlast, hput, -⟩ := h.put_last
  have hroom := h.put_room init last hlast
  have hhead : head.mSize ≤ head.mData.length :=
    h.sizes head (by rw [hblocks]; exact List.mem_cons_self)
  have hblockp : b.mBlocks[b.mGetPtr.block]? = some head := by simp [hblocks, h.get_block]
  by_cases htail : tail = []
  · -- the only block: the put position bounds what is unread
    subst htail
    rw [if_pos rfl] at hget
    obtain ⟨rfl, rfl⟩ := snoc_inj (show [] ++ [head] = _ from hblocks.symm.trans hlast)
    rw [unread_single hblocks] at hle
    simp only [List.length_drop, List.length_take] at hle
    have hsize : b.mPutPtr.elem < head.mSize := by omega
    refine ⟨?_, head, head.mSize - b.mGetPtr.elem, want, _, hblockp, sub32_of_le (by omega), ?_,
      ?_, updateBufferStart_stay hblocks h.get_block ?_, ?_, Nat.le_refl _, ?_⟩
    · intro heq
      have := congrArg BlockPtr.elem heq
      omega
    · rw [if_neg (by omega)]
    · rw [Block.get_eq (by omega), unread_single hblocks, List.drop_take, List.take_take,
        Nat.min_eq_left (by omega)]
    · show b.mGetPtr.elem + want ≠ head.mSize
      omega
    · exact advance_stay h hblocks (by rw [if_pos rfl]; omega) (by omega)
    · show want - want + b.mBlocks.length < _
      omega
  · rw [if_neg htail] at hget
    have hunread := unread_cons hblocks htail hget hhead
    -- more than one block: the put position is in another one
    have hblock : b.mGetPtr ≠ b.mPutPtr := by
      intro heq
      obtain ⟨init', rfl, -⟩ := snoc_of_cons htail (hblocks.symm.trans hlast)
      have := congrArg BlockPtr.block heq
      rw [h.get_block, hput] at this
      simp at this
    have htake : ∀ n, b.mGetPtr.elem + n ≤ head.mSize →
        head.get b.mGetPtr.elem n = some (b.unread.take n) := by
      intro n hn
      rw [Block.get_eq hn, hunread, List.take_append_of_le_length (by simp; omega),
        List.drop_take, List.take_take, Nat.min_eq_left (by omega)]
    refine ⟨hblock, ?_⟩
    by_cases hwant : want < head.mSize - b.mGetPtr.elem
    · refine ⟨head, head.mSize - b.mGetPtr.elem, want, _, hblockp, sub32_of_le hget, ?_,
        htake want (by omega), updateBufferStart_stay hblocks h.get_block ?_, ?_, Nat.le_refl _, ?_⟩
      · rw [if_neg (by omega)]
      · show b.mGetPtr.elem + want ≠ head.mSize
        omega
      · exact advance_stay h hblocks (by rw [if_neg htail]; omega) (by omega)
      · show want - want + b.mBlocks.length < _
        omega
    · obtain ⟨b', hb', hadv, hblocks', -⟩ := advance_erase h hblocks htail
        (n := head.mSize - b.mGetPtr.elem) (by omega)
      refine ⟨head, head.mSize - b.mGetPtr.elem, head.mSize - b.mGetPtr.elem, b', hblockp,
        sub32_of_le hget, ?_, htake _ (by omega), hb', hadv, by omega, ?_⟩
      · split <;> omega
      · rw [hblocks', hblocks, List.length_cons]
        omega

theorem getLoop_spec {size : Nat} {fuel : Nat} {b : BlockBuffer} {out : Bytes} (h : b.Linked)
    (hout : out.length ≤ size) (hle : size - out.length ≤ b.unread.length)
    (hfuel : size - out.length + b.mBlocks.length < fuel) :
    ∃ b', getLoop size fuel b out = some (out ++ b.unread.take (size - out.length), b') ∧
      Advanced b (size - out.length) b' := by
  induction fuel generalizing b out with
  | zero => omega
  | succ fuel ih =>
      by_cases hdone : out.length = size
      · refine ⟨b, ?_, ?_⟩
        · simp [getLoop, hdone]
        · rw [hdone, Nat.sub_self]
          exact ⟨h, by simp, id, fun _ => id⟩
      · obtain ⟨hne, blockp, room, n, b₁, hblockp, hroom, hn, hgot, hupd, hadv, hnle, hmeasure⟩ :=
          get_round h (Nat.sub_pos_of_lt (Nat.lt_of_le_of_ne hout hdone)) hle
        have hlen : (out ++ b.unread.take n).length = out.length + n := by
          rw [List.length_append, List.length_take]
          omega
        have hleft : size - (out ++ b.unread.take n).length ≤ b₁.unread.length := by
          rw [hadv.unread_eq, List.length_drop]
          omega
        obtain ⟨b₂, hloop, hadv₂⟩ := ih hadv.linked (by omega) hleft (by omega)
        refine ⟨b₂, ?_, hadv₂.linked, ?_, fun ht => hadv₂.tidy (hadv.tidy ht),
          fun m hb => hadv₂.bounded m (hadv.bounded m hb)⟩
        · rw [getLoop, if_pos ⟨by omega, hne⟩]
          simp only [hblockp, hroom, Option.bind_eq_bind, Option.bind_some, ← hn, hgot, hupd, hloop]
          rw [hlen, hadv.unread_eq, List.append_assoc]
          congr 3
          rw [← List.take_append_drop n (b.unread.take (size - out.length)), List.take_take,
            Nat.min_eq_left hnle, List.drop_take, Nat.sub_sub]
        · rw [hadv₂.unread_eq, hadv.unread_eq, List.drop_drop, hlen]
          congr 1
          omega

/-- `get` of at most `avail()` bytes hands out the first bytes of the queue. -/
theorem get_spec {b : BlockBuffer} (h : b.Linked) {size : Nat} (hle : size ≤ b.unread.length) :
    ∃ b', b.get size = some (b.unread.take size, b') ∧ Advanced b size b' := by
  have hloop : size - ([] : Bytes).length + b.mBlocks.length < size + b.mBlocks.length + 1 :=
    Nat.lt_succ_self _
  simpa [get] using getLoop_spec h (Nat.zero_le size) hle hloop

/-! ## `put` -/

theorem Chained.get_le_chain {b : BlockBuffer} (h : b.Chained) :
    b.mGetPtr.elem ≤ (chain b.mBlocks b.mPutPtr.elem).length := by
  obtain ⟨head, tail, hblocks, hget⟩ := h.get_elem
  obtain ⟨init, last, hlast, -, hle⟩ := h.put_last
  have hhead : head.mSize ≤ head.mData.length :=
    h.sizes head (by rw [hblocks]; exact List.mem_cons_self)
  by_cases htail : tail = []
  · subst htail
    rw [if_pos rfl] at hget
    obtain ⟨rfl, rfl⟩ := snoc_inj (show [] ++ [head] = _ from hblocks.symm.trans hlast)
    rw [hblocks]
    simp only [chain, List.length_take]
    omega
  · rw [if_neg htail] at hget
    rw [hblocks, chain_cons htail]
    simp only [List.length_append, List.length_take]
    omega

/-- The buffer after `Block::put` of `bs` at the put position, before
`updateBufferEnd`. -/
def store (b : BlockBuffer) (bs : Bytes) (blockp : Block) : BlockBuffer :=
  { b with
    mBlocks := b.mBlocks.set b.mPutPtr.block blockp
    mPutPtr := { b.mPutPtr with elem := b.mPutPtr.elem + bs.length } }

theorem memcpy_take {data bs : Bytes} {e : Nat} (he : e ≤ data.length) :
    (data.take e ++ bs ++ data.drop (e + bs.length)).take (e + bs.length) = data.take e ++ bs := by
  have hlen : (data.take e ++ bs).length = e + bs.length := by
    rw [List.length_append, List.length_take, Nat.min_eq_left he]
  rw [List.take_append_of_le_length (Nat.le_of_eq hlen.symm),
    List.take_of_length_le (Nat.le_of_eq hlen)]

theorem store_spec {b : BlockBuffer} (h : b.Chained) {init : List Block} {last : Block} {bs : Bytes}
    (hblocks : b.mBlocks = init ++ [last]) (hput : b.mPutPtr.block = init.length)
    (hle : b.mPutPtr.elem + bs.length ≤ last.mSize) :
    ∃ last', last.put bs b.mPutPtr.elem = some last' ∧ last'.mSize = last.mSize ∧
      (b.store bs last').mBlocks = init ++ [last'] ∧ (b.store bs last').Chained ∧
      (b.store bs last').unread = b.unread ++ bs := by
  have hlast : last.mSize ≤ last.mData.length := h.sizes last (by rw [hblocks]; simp)
  let last' : Block := { last with
    mData := last.mData.take b.mPutPtr.elem ++ bs ++
      last.mData.drop (b.mPutPtr.elem + bs.length) }
  have hlen : last'.mData.length = last.mData.length := by
    simp only [last', List.length_append, List.length_take, List.length_drop]
    omega
  have hset : b.mBlocks.set b.mPutPtr.block last' = init ++ [last'] := by
    rw [hblocks, hput]
    simp
  refine ⟨last', by simp [Block.put, hle, last'], rfl, hset, ?_, ?_⟩
  · refine
      { default_pos := h.default_pos
        sizes := ?_
        get_block := h.get_block
        get_elem := ?_
        put_last := ⟨init, last', hset, hput, hle⟩ }
    · intro blk hblk
      rw [show (b.store bs last').mBlocks = init ++ [last'] from hset] at hblk
      rcases List.mem_append.mp hblk with hblk | hblk
      · exact h.sizes blk (by rw [hblocks]; exact List.mem_append_left _ hblk)
      · obtain rfl := List.mem_singleton.mp hblk
        rw [hlen]
        exact hlast
    · obtain ⟨head, tail, hcons, hget⟩ := h.get_elem
      cases init with
      | nil =>
          obtain ⟨rfl, rfl⟩ := List.cons.inj (hcons.symm.trans hblocks)
          refine ⟨last', [], hset, ?_⟩
          rw [if_pos rfl] at hget ⊢
          exact Nat.le_add_right_of_le hget
      | cons x init =>
          obtain ⟨rfl, rfl⟩ := List.cons.inj (hcons.symm.trans hblocks)
          refine ⟨head, init ++ [last'], hset, ?_⟩
          rwa [if_neg (by simp)] at hget ⊢
  · have hchain : chain (init ++ [last']) (b.mPutPtr.elem + bs.length) =
        chain b.mBlocks b.mPutPtr.elem ++ bs := by
      rw [hblocks, chain_snoc, chain_snoc, List.append_assoc]
      simp only [last', memcpy_take (show b.mPutPtr.elem ≤ last.mData.length by omega)]
    show (chain (b.mBlocks.set b.mPutPtr.block last') (b.mPutPtr.elem + bs.length)).drop
      b.mGetPtr.elem = _
    rw [hset, hchain, List.drop_append_of_le_length h.get_le_chain, unread]

theorem Bounded.store {b : BlockBuffer} {m : Nat} (h : b.Bounded m) {init : List Block}
    {last last' : Block} {bs : Bytes} (hblocks : b.mBlocks = init ++ [last])
    (hsize : last'.mSize = last.mSize) (hset : (b.store bs last').mBlocks = init ++ [last']) :
    (b.store bs last').Bounded m where
  default_le := h.default_le
  blocks_le := by
    intro blk hblk
    rw [hset] at hblk
    rcases List.mem_append.mp hblk with hblk | hblk
    · exact h.blocks_le blk (by rw [hblocks]; exact List.mem_append_left _ hblk)
    · obtain rfl := List.mem_singleton.mp hblk
      rw [hsize]
      exact h.blocks_le last (by rw [hblocks]; simp)

theorem Tidy.store {b : BlockBuffer} (h : b.Tidy) {init : List Block} {last last' : Block}
    {bs : Bytes} (hblocks : b.mBlocks = init ++ [last]) (hsize : last'.mSize = last.mSize)
    (hset : (b.store bs last').mBlocks = init ++ [last']) :
    (∀ blk ∈ (b.store bs last').mBlocks, 0 < blk.mSize) ∧
      ∀ head tail, (b.store bs last').mBlocks = head :: tail → b.mGetPtr.elem < head.mSize := by
  constructor
  · intro blk hblk
    rw [hset] at hblk
    rcases List.mem_append.mp hblk with hblk | hblk
    · exact h.blocks_pos blk (by rw [hblocks]; exact List.mem_append_left _ hblk)
    · obtain rfl := List.mem_singleton.mp hblk
      rw [hsize]
      exact h.blocks_pos last (by rw [hblocks]; simp)
  · intro head tail h'
    cases init with
    | nil =>
        obtain ⟨rfl, -⟩ := List.cons.inj (hset.symm.trans h')
        rw [hsize]
        exact h.get_lt last [] hblocks
    | cons x init =>
        obtain ⟨rfl, -⟩ := List.cons.inj (hset.symm.trans h')
        exact h.get_lt x (init ++ [last]) hblocks

/-- The last block can take another byte. -/
def HasRoom (b : BlockBuffer) : Prop :=
  ∀ init last, b.mBlocks = init ++ [last] → b.mPutPtr.elem < last.mSize

/-- Behind a full last block a fresh one of any size changes nothing in the queue. -/
theorem newBlock_linked {b : BlockBuffer} (h : b.Chained) {init : List Block} {last : Block}
    (hblocks : b.mBlocks = init ++ [last]) (hfull : b.mPutPtr.elem = last.mSize) (n : Nat) :
    (b.newBlock n).Linked ∧ (b.newBlock n).unread = b.unread := by
  constructor
  · exact
      { default_pos := h.default_pos
        sizes := by
          intro blk hblk
          rcases List.mem_append.mp hblk with hblk | hblk
          · exact h.sizes blk hblk
          · obtain rfl := List.mem_singleton.mp hblk
            simp [Block.new]
        get_block := h.get_block
        get_elem := by
          obtain ⟨head, tail, hcons, hget⟩ := h.get_elem
          refine ⟨head, tail ++ [Block.new n], by simp [newBlock, hcons], ?_⟩
          rw [if_neg (by simp)]
          show b.mGetPtr.elem ≤ head.mSize
          by_cases htail : tail = []
          · -- the only block was the full one
            subst htail
            rw [if_pos rfl] at hget
            obtain ⟨-, rfl⟩ := snoc_inj (show [] ++ [head] = _ from hcons.symm.trans hblocks)
            omega
          · rwa [if_neg htail] at hget
        put_last := ⟨b.mBlocks, Block.new n, rfl, by simp [newBlock], Nat.zero_le _⟩
        put_room := by
          intro init' last' h'
          obtain ⟨-, rfl⟩ := snoc_inj (show b.mBlocks ++ [Block.new n] = _ from h')
          show 0 < n ∨ 0 = 0 ∧ n = 0
          omega }
  · have htake : last.mData.take last.mSize = last.mData.take b.mPutPtr.elem := by rw [hfull]
    simp only [unread, newBlock, hblocks]
    rw [chain_snoc, chain_snoc, List.flatMap_append]
    simp [htake]

theorem Bounded.newBlock {b : BlockBuffer} {m : Nat} (h : b.Bounded m) :
    (b.newBlock b.mDefaultBlockSize).Bounded m where
  default_le := h.default_le
  blocks_le := by
    intro blk hblk
    rcases List.mem_append.mp hblk with hblk | hblk
    · exact h.blocks_le blk hblk
    · obtain rfl := List.mem_singleton.mp hblk
      exact h.default_le

/-- A full last block gets a fresh one behind it; the queue does not change. -/
theorem updateBufferEnd_spec {b : BlockBuffer} (h : b.Chained) :
    ∃ b', b.updateBufferEnd = some b' ∧ b'.Linked ∧ b'.HasRoom ∧ b'.unread = b.unread ∧
      (∀ m, b.Bounded m → b'.Bounded m) ∧
      ((∀ blk ∈ b.mBlocks, 0 < blk.mSize) →
        (∀ head tail, b.mBlocks = head :: tail → b.mGetPtr.elem < head.mSize) → b'.Tidy) := by
  obtain ⟨init, last, hblocks, hput, hle⟩ := h.put_last
  by_cases hfull : b.mPutPtr.elem = last.mSize
  -- the last block is full, and the put position goes to the beginning of a fresh one
  · have hnew : (b.newBlock b.mDefaultBlockSize).HasRoom := by
      intro init' last' h'
      obtain ⟨-, rfl⟩ := snoc_inj (show b.mBlocks ++ [Block.new _] = _ from h')
      exact h.default_pos
    obtain ⟨hlinked, hunread⟩ := newBlock_linked h hblocks hfull b.mDefaultBlockSize
    refine ⟨b.newBlock b.mDefaultBlockSize, ?_, hlinked, hnew, hunread,
      fun m hb => hb.newBlock, ?_⟩
    · simp [updateBufferEnd, hblocks, hput, hfull]
    · intro hpos hget
      refine { hlinked with blocks_pos := ?_, get_lt := ?_ }
      · intro blk hblk
        rcases List.mem_append.mp hblk with hblk | hblk
        · exact hpos blk hblk
        · obtain rfl := List.mem_singleton.mp hblk
          exact h.default_pos
      · intro head tail h'
        obtain ⟨head', tail', hcons, -⟩ := h.get_elem
        simp only [newBlock, hcons, List.cons_append] at h'
        obtain ⟨rfl, -⟩ := List.cons.inj h'
        exact hget head' tail' hcons
  -- the last block has room, and nothing is done
  · have hroom : b.HasRoom := by
      intro init' last' h'
      obtain ⟨-, rfl⟩ := snoc_inj (hblocks.symm.trans h')
      omega
    have hlinked : b.Linked := { h with put_room := fun init' last' h' => Or.inl (hroom init' last' h') }
    refine ⟨b, ?_, hlinked, hroom, rfl, fun _ => id, fun hpos hget =>
      { hlinked with blocks_pos := hpos, get_lt := hget }⟩
    simp [updateBufferEnd, hblocks, hput, hfull]

/-- What storing `bs` does to the buffer. -/
structure Filled (b : BlockBuffer) (bs : Bytes) (b' : BlockBuffer) : Prop where
  linked : b'.Linked
  unread_eq : b'.unread = b.unread ++ bs
  tidy : b.Tidy → b'.Tidy
  bounded : ∀ m, b.Bounded m → b'.Bounded m

/-- One round of the loop of `put` stores a prefix of `left`, not an empty one
unless the last block was created without room. -/
theorem put_round {b : BlockBuffer} (h : b.Linked) (left : Bytes) :
    ∃ blockp room n blockp' b',
      b.mBlocks[b.mPutPtr.block]? = some blockp ∧
      sub32 blockp.mSize b.mPutPtr.elem = some room ∧
      n = (if room > left.length then left.length else room) ∧ n ≤ left.length ∧
      blockp.put (left.take n) b.mPutPtr.elem = some blockp' ∧
      updateBufferEnd (b.store (left.take n) blockp') = some b' ∧
      Filled b (left.take n) b' ∧ b'.HasRoom ∧ (b.HasRoom → left ≠ [] → 0 < n) := by
  obtain ⟨init, last, hblocks, hput, hle⟩ := h.put_last
  let n := if last.mSize - b.mPutPtr.elem > left.length then left.length
    else last.mSize - b.mPutPtr.elem
  have hn : n ≤ left.length ∧ b.mPutPtr.elem + n ≤ last.mSize := by
    simp only [n]
    split <;> omega
  obtain ⟨last', hputBlock, hsize, hset, hchained, hunread⟩ :=
    store_spec h.toChained hblocks hput (show b.mPutPtr.elem + (left.take n).length ≤ last.mSize by
      rw [List.length_take]
      omega)
  obtain ⟨b', hb', hlinked, hroom, hsame, hbound, htidy⟩ := updateBufferEnd_spec hchained
  refine ⟨last, _, n, last', b', by simp [hblocks, hput], sub32_of_le hle, rfl, hn.1, hputBlock, hb',
    ⟨hlinked, hsame.trans hunread, fun ht => ?_, fun m hb => hbound m (hb.store hblocks hsize hset)⟩,
    hroom, ?_⟩
  · obtain ⟨hpos, hget⟩ := ht.store hblocks hsize hset
    exact htidy hpos hget
  · intro hroom' hleft
    have := hroom' init last hblocks
    have := List.length_pos_iff.mpr hleft
    simp only [n]
    split <;> omega

theorem putLoop_spec {fuel : Nat} {b : BlockBuffer} {left : Bytes} (h : b.Linked)
    (hfuel : left.length < fuel) (hroom : b.HasRoom ∨ left.length + 1 < fuel) :
    ∃ b', putLoop fuel b left = some b' ∧ Filled b left b' := by
  induction fuel generalizing b left with
  | zero => omega
  | succ fuel ih =>
      by_cases hleft : left = []
      · subst hleft
        exact ⟨b, by simp [putLoop], h, by simp, id, fun _ => id⟩
      · obtain ⟨blockp, room, n, blockp', b₁, hblockp, hsub, hn, hnle, hput, hupd, hfill, hroom₁,
          hpos⟩ := put_round h left
        have hdrop : (left.drop n).length < fuel := by
          rw [List.length_drop]
          have := List.length_pos_iff.mpr hleft
          rcases hroom with hroom | hroom
          · have := hpos hroom hleft
            omega
          · omega
        obtain ⟨b₂, hloop, hfill₂⟩ := ih hfill.linked hdrop (Or.inl hroom₁)
        have hlen : (left.take n).length = n := by simp [hnle]
        refine ⟨b₂, ?_, hfill₂.linked, ?_, fun ht => hfill₂.tidy (hfill.tidy ht),
          fun m hb => hfill₂.bounded m (hfill.bounded m hb)⟩
        · rw [putLoop, if_neg hleft]
          simp only [store, hlen] at hupd
          simp only [hblockp, hsub, Option.bind_eq_bind, Option.bind_some, ← hn, hput, hupd, hloop]
        · rw [hfill₂.unread_eq, hfill.unread_eq, List.append_assoc, List.take_append_drop]

theorem put_spec {b : BlockBuffer} (h : b.Linked) (bs : Bytes) :
    ∃ b', b.put bs = some (bs.length, b') ∧ Filled b bs b' := by
  obtain ⟨b', hloop, hfill⟩ := putLoop_spec h (show bs.length < bs.length + 2 by omega)
    (Or.inr (by omega))
  exact ⟨b', by simp [put, hloop], hfill⟩

end BlockBuffer

end Negatus
