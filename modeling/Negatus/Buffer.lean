import Negatus.Machine

/-!
# `Buffer.cpp`: the block buffer

A `BlockBuffer` is a chain of heap blocks with a get position and a put
position, each a pair (block index, offset). Bytes are put into the last block
and a fresh block is appended as soon as it is full; a block is erased as soon
as it has been read to its end.

Every operation returns an `Option`. `none` stands for what the C++ leaves
undefined or aborts on: a failed `assert`, a block index outside `mBlocks`, an
unsigned difference below zero, a read outside a block, a signed overflow, and
`new char[n]` with a negative `n`.
-/

namespace Negatus

structure Block where
  mSize : Nat
  mData : Bytes
deriving DecidableEq, Repr

namespace Block

/-- `new char[size]` is not initialized; the zeros are never read. -/
def new (size : Nat) : Block := ⟨size, List.replicate size 0⟩

def get (b : Block) (start size : Nat) : Option Bytes :=
  if start + size ≤ b.mSize then some ((b.mData.drop start).take size) else none

def put (b : Block) (bs : Bytes) (start : Nat) : Option Block :=
  if start + bs.length ≤ b.mSize then
    some { b with mData := b.mData.take start ++ bs ++ b.mData.drop (start + bs.length) }
  else none

/-- Body of the `for` loop of `Block::find`, for the `n` offsets from `i` on. The
counter is an `int`: from `2 ^ 31` on it would index in front of the block. -/
def findFrom (b : Block) (c : UInt8) : (n i : Nat) → Option Int
  | 0, _ => some (-1)
  | n + 1, i =>
      if i < 2 ^ 31 then
        match b.mData[i]? with
        | none => none
        | some x =>
            if x = c then some (i : Int)
            else if i + 1 < 2 ^ 31 then b.findFrom c n (i + 1)
            else none
      else none

def find (b : Block) (c : UInt8) (start stop : Nat) : Option Int :=
  b.findFrom c (stop - start) start

def shrink (b : Block) (newSize : Nat) : Option Block :=
  if newSize ≤ b.mSize then some { b with mSize := newSize } else none

end Block

@[ext]
structure BlockPtr where
  block : Nat
  elem : Nat
deriving DecidableEq, Repr

structure BlockBuffer where
  mDefaultBlockSize : Nat
  mBlocks : List Block
  mGetPtr : BlockPtr
  mPutPtr : BlockPtr
deriving DecidableEq, Repr

namespace BlockBuffer

def newBlock (b : BlockBuffer) (size : Nat) : BlockBuffer :=
  let blocks := b.mBlocks ++ [Block.new size]
  { b with mBlocks := blocks, mPutPtr := ⟨blocks.length - 1, 0⟩ }

def new (defaultBlockSize : Nat) : BlockBuffer :=
  newBlock ⟨defaultBlockSize, [], ⟨0, 0⟩, ⟨0, 0⟩⟩ defaultBlockSize

/-- The `while (mGetPtr.block > 0)` loop; the first argument is `mGetPtr.block`. -/
def eraseFront : Nat → BlockBuffer → Option BlockBuffer
  | 0, b => some b
  | n + 1, b =>
      match b.mBlocks with
      | [] => none
      | _ :: blocks => do
          let putBlock ← sub32 b.mPutPtr.block 1
          eraseFront n { b with
            mBlocks := blocks
            mGetPtr := { b.mGetPtr with block := n }
            mPutPtr := { b.mPutPtr with block := putBlock } }

def updateBufferStart (b : BlockBuffer) : Option BlockBuffer := do
  let blockp ← b.mBlocks[b.mGetPtr.block]?
  let b' :=
    if b.mGetPtr.elem = blockp.mSize then
      { b with mGetPtr := ⟨b.mGetPtr.block + 1, 0⟩ }
    else b
  eraseFront b'.mGetPtr.block b'

def updateBufferEnd (b : BlockBuffer) : Option BlockBuffer := do
  let blockp ← b.mBlocks[b.mPutPtr.block]?
  if b.mPutPtr.elem = blockp.mSize then some (b.newBlock b.mDefaultBlockSize)
  else some b

/-- The loop of `get`; `out` holds the `totalGotten` bytes copied so far. -/
def getLoop (size : Nat) : (fuel : Nat) → BlockBuffer → (out : Bytes) → Option (Bytes × BlockBuffer)
  | 0, _, _ => none
  | fuel + 1, b, out =>
      if out.length < size ∧ b.mGetPtr ≠ b.mPutPtr then do
        let blockp ← b.mBlocks[b.mGetPtr.block]?
        let room ← sub32 blockp.mSize b.mGetPtr.elem
        let toGet := if size - out.length > room then room else size - out.length
        let gotten ← blockp.get b.mGetPtr.elem toGet
        let b' ← updateBufferStart
          { b with mGetPtr := { b.mGetPtr with elem := b.mGetPtr.elem + toGet } }
        getLoop size fuel b' (out ++ gotten)
      else some (out, b)

/-- `get(out, size)`: the bytes stored in `out` (their number is the returned
count) and the buffer afterwards. Every round copies a byte or leaves a block. -/
def get (b : BlockBuffer) (size : Nat) : Option (Bytes × BlockBuffer) :=
  getLoop size (size + b.mBlocks.length + 1) b []

/-- The loop of `put`, on the bytes of `in` that are still to be written. -/
def putLoop : (fuel : Nat) → BlockBuffer → (left : Bytes) → Option BlockBuffer
  | 0, _, _ => none
  | fuel + 1, b, left =>
      if left = [] then some b
      else do
        let blockp ← b.mBlocks[b.mPutPtr.block]?
        let room ← sub32 blockp.mSize b.mPutPtr.elem
        let toWrite := if room > left.length then left.length else room
        let blockp' ← blockp.put (left.take toWrite) b.mPutPtr.elem
        let b' ← updateBufferEnd { b with
          mBlocks := b.mBlocks.set b.mPutPtr.block blockp'
          mPutPtr := { b.mPutPtr with elem := b.mPutPtr.elem + toWrite } }
        putLoop fuel b' (left.drop toWrite)

/-- `put(in, size)`: the returned count and the buffer afterwards. -/
def put (b : BlockBuffer) (bs : Bytes) : Option (Nat × BlockBuffer) := do
  let b' ← putLoop (bs.length + 2) b bs
  some (bs.length, b')

/-- The loop of `find` from the block with index `block` on. The `int` that
`Block::find` returns is kept in a `PRUint32`, and so is its `-1`. -/
def findLoop (b : BlockBuffer) : List Block → (block len : Nat) → Option Int
  | [], _, _ => some (-1)
  | blockp :: blocks, block, len => do
      let start := if block = b.mGetPtr.block then b.mGetPtr.elem else 0
      let stop := if block = b.mPutPtr.block then b.mPutPtr.elem else blockp.mSize
      let found ← blockp.find newline start stop
      let nl := uint32 found
      if nl = uint32 (-1) then do
        let n ← sub32 stop start
        findLoop b blocks (block + 1) (wrap32 (len + n))
      else do
        let n ← sub32 nl start
        some (int32 (wrap32 (len + n + 1)))

/-- `find(c)`. The argument is not looked at: the loop searches a newline. -/
def find (b : BlockBuffer) (_c : UInt8) : Option Int :=
  findLoop b (b.mBlocks.drop b.mGetPtr.block) b.mGetPtr.block 0

/-- `getline(std::stringstream&)`: the bytes written to the stream, the returned
count and the buffer afterwards. -/
def getline (b : BlockBuffer) : Option (Bytes × Int × BlockBuffer) := do
  let len ← b.find newline
  if len = -1 then some ([], 0, b)
  else do
    let room ← addInt len 1
    if room < 0 then none
    else do
      let (out, b') ← b.get (uint32 len)
      -- `out.write(outp, len)`: bytes that `get` did not store are not initialized
      if (out.length : Int) = len then some (out, len, b') else none

/-- `getline(char*, PRUint32)` on the caller's array `out`: the array, the
returned count and the buffer afterwards. -/
def getlineArray (b : BlockBuffer) (out : Bytes) (size : Nat) :
    Option (Bytes × Int × BlockBuffer) := do
  let len ← b.find newline
  if len = -1 then some (out, 0, b)
  else do
    let need ← addInt len 1
    if size < uint32 need then some (out, -1, b)
    else if 0 ≤ len ∧ len.toNat < out.length then do
      let (gotten, b') ← b.get (uint32 len)
      some (gotten ++ (out.set len.toNat 0).drop gotten.length, gotten.length, b')
    else none

/-- `allocBlock(size)`: the index of the block whose bytes the returned pointer
points to, and the buffer afterwards. -/
def allocBlock (b : BlockBuffer) (size : Nat) : Option (Nat × BlockBuffer) := do
  let blockp ← b.mBlocks[b.mPutPtr.block]?
  let blockp' ← blockp.shrink b.mPutPtr.elem
  let b' := newBlock { b with mBlocks := b.mBlocks.set b.mPutPtr.block blockp' } size
  some (b'.mPutPtr.block, b')

/-- The loop of `advancePutPtr`; `left` is `amount - totalAdvanced`. -/
def advanceLoop : (fuel : Nat) → BlockBuffer → (left : Nat) → Option BlockBuffer
  | 0, _, _ => none
  | fuel + 1, b, left =>
      if left = 0 then some b
      else do
        let blockp ← b.mBlocks[b.mPutPtr.block]?
        let room ← sub32 blockp.mSize b.mPutPtr.elem
        let toAdvance := if room > left then left else room
        let b' ← updateBufferEnd { b with
          mPutPtr := { b.mPutPtr with elem := b.mPutPtr.elem + toAdvance } }
        advanceLoop fuel b' (left - toAdvance)

def advancePutPtr (b : BlockBuffer) (amount : Nat) : Option BlockBuffer :=
  advanceLoop (amount + 2) b amount

/-- The loop of `avail` over the `n` blocks from index `block` on. -/
def availLoop (b : BlockBuffer) : (n block avail : Nat) → Option Nat
  | 0, _, avail => some avail
  | n + 1, block, avail => do
      let start := if block = b.mGetPtr.block then b.mGetPtr.elem else 0
      let stop ←
        if block = b.mPutPtr.block then some b.mPutPtr.elem
        else (b.mBlocks[block]?).map Block.mSize
      let len ← sub32 stop start
      availLoop b n (block + 1) (wrap32 (avail + len))

def avail (b : BlockBuffer) : Option Nat :=
  availLoop b (b.mPutPtr.block + 1 - b.mGetPtr.block) b.mGetPtr.block 0

end BlockBuffer

end Negatus
