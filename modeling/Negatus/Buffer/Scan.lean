import Negatus.Buffer.Chain
import Negatus.Foundations.FirstSplit

/-!
# Scanning the chain: `find`, `avail` and `getline`

`find` and `avail` walk over the blocks and add up lengths in a `PRUint32`;
`getline` takes what `find` has measured. On a chain whose blocks are smaller
than `2 ^ 31` bytes all three see the queue only, up to the width of the
integers they count with.
-/

namespace Negatus

open Foundations

namespace BlockBuffer

/-! ## `find` and `avail` -/

/-- The `int` that a scan of `l` from offset `i` on returns. -/
def foundAt (i : Nat) (k : Option Nat) : Int :=
  match k with
  | none => -1
  | some k => ((i + k : Nat) : Int)

/-- The scan is right exactly if the offset at which it stops fits its counter. -/
theorem Block.findFrom_eq {blk : Block} {c : UInt8} {n i : Nat}
    (hlen : i + n ≤ blk.mData.length) :
    blk.findFrom c n i =
      if n = 0 ∨ i + ((blk.mData.drop i).take n).findIdx (· == c) < 2 ^ 31 then
        some (foundAt i (((blk.mData.drop i).take n).findIdx? (· == c)))
      else none := by
  induction n generalizing i with
  | zero => simp [Block.findFrom, foundAt]
  | succ n ih =>
      have hi : i < blk.mData.length := by omega
      have hih := ih (i := i + 1) (by omega)
      have hnil : n = 0 → (blk.mData.drop (i + 1)).take n = [] := by
        rintro rfl
        exact List.take_zero
      rw [Block.findFrom, List.getElem?_eq_getElem hi, List.drop_eq_getElem_cons hi,
        List.take_succ_cons, List.findIdx?_cons, List.findIdx_cons]
      generalize (blk.mData.drop (i + 1)).take n = l at hih hnil ⊢
      by_cases hx : blk.mData[i] = c
      · simp [hx, foundAt]
      · have hbeq : (blk.mData[i] == c) = false := by simpa using hx
        have hfound : foundAt i ((l.findIdx? (· == c)).map (· + 1)) =
            foundAt (i + 1) (l.findIdx? (· == c)) := by
          cases l.findIdx? (· == c) with
          | none => rfl
          | some k =>
              simp only [foundAt, Option.map_some]
              rw [Nat.add_right_comm, Nat.add_assoc]
        simp only [hx, hbeq, if_false, Bool.false_eq_true, cond_false, hfound, hih]
        by_cases hnext : i + 1 < 2 ^ 31
        · have hfits : (n = 0 ∨ i + 1 + l.findIdx (· == c) < 2 ^ 31) ↔
              n + 1 = 0 ∨ i + (l.findIdx (· == c) + 1) < 2 ^ 31 := by
            constructor
            · rintro (hzero | hlt)
              · rw [hnil hzero]
                exact Or.inr hnext
              · omega
            · omega
          rw [if_pos (by omega), if_pos hnext]
          simp only [hfits]
        · -- `i++` overflows behind the largest `int`
          rw [if_neg (show ¬ (n + 1 = 0 ∨ i + (l.findIdx (· == c) + 1) < 2 ^ 31) by omega),
            if_neg hnext, ite_self]

/-- The bytes `run` can be scanned for a newline from the offset `start` of their
block on: the scan stops at an offset that is an `int`. -/
def Scannable (start : Nat) (run : Bytes) : Prop :=
  run = [] ∨ start + run.findIdx (· == newline) < 2 ^ 31

instance (start : Nat) (run : Bytes) : Decidable (Scannable start run) :=
  inferInstanceAs (Decidable (_ ∨ _))

theorem scannable_of_lt {start : Nat} {run : Bytes} (h : start + run.length < 2 ^ 31) :
    Scannable start run :=
  Or.inr (Nat.lt_of_le_of_lt (Nat.add_le_add_left List.findIdx_le_length start) h)

/-- The `int` that `find` returns for a newline with index `k` in the queue. -/
def foundLen (len : Nat) (k : Option Nat) : Int :=
  match k with
  | none => -1
  | some k => int32 (wrap32 (len + k + 1))

/-- What is found behind `n` bytes. -/
theorem foundLen_behind (len n : Nat) (o : Option Nat) :
    foundLen (wrap32 (len + n)) o = foundLen len (o.map (· + n)) := by
  cases o with
  | none => rfl
  | some k =>
      simp only [foundLen, wrap32, Option.map_some]
      congr 1
      omega

theorem findIdx?_append_none {α : Type*} {p : α → Bool} {l m : List α}
    (h : l.findIdx? p = none) : (l ++ m).findIdx? p = (m.findIdx? p).map (· + l.length) := by
  rw [List.findIdx?_append, h]
  rfl

/-- One round of the loop of `find` on the bytes `[start, stop)` of a block. -/
theorem find_round {blk : Block} {start stop len : Nat} (hle : start ≤ stop)
    (hlen : stop ≤ blk.mData.length) (next : Nat → Option Int) :
    (do
      let found ← blk.find newline start stop
      let nl := uint32 found
      if nl = uint32 (-1) then do
        let n ← sub32 stop start
        next (wrap32 (len + n))
      else do
        let n ← sub32 nl start
        some (int32 (wrap32 (len + n + 1)))) =
      if Scannable start ((blk.mData.drop start).take (stop - start)) then
        match ((blk.mData.drop start).take (stop - start)).findIdx? (· == newline) with
        | none => next (wrap32 (len + (stop - start)))
        | some k => some (int32 (wrap32 (len + k + 1)))
      else none := by
  have hend : start + (stop - start) ≤ blk.mData.length := by omega
  have hrun : ((blk.mData.drop start).take (stop - start)).length = stop - start := by
    rw [List.length_take, List.length_drop]
    omega
  rw [Block.find, Block.findFrom_eq hend]
  generalize (blk.mData.drop start).take (stop - start) = run at hrun ⊢
  have hiff : (stop - start = 0 ∨ start + run.findIdx (· == newline) < 2 ^ 31) ↔
      Scannable start run := by
    rw [← hrun, List.length_eq_zero_iff]
    exact Iff.rfl
  simp only [hiff]
  by_cases hscan : Scannable start run
  · rw [if_pos hscan, if_pos hscan, Option.bind_eq_bind, Option.bind_some]
    cases hk : run.findIdx? (· == newline) with
    | none => simp [foundAt, hle]
    | some k =>
        obtain ⟨hlt, hidx⟩ := List.findIdx?_eq_some_iff_findIdx_eq.mp hk
        have hfits : start + k < 2 ^ 31 := by
          rcases hscan with hnil | hstop
          · rw [hnil] at hlt
            exact absurd hlt (Nat.not_lt_zero k)
          · exact hidx ▸ hstop
        have hnl : uint32 (foundAt start (some k)) = start + k := uint32_ofNat (by omega)
        rw [hnl, if_neg (by rw [uint32_neg_one]; omega), sub32_of_le (by omega)]
        simp
  · rw [if_neg hscan, if_neg hscan, Option.bind_eq_bind, Option.bind_none]

/-- The loop of `find` behind the first block. -/
theorem findLoop_tail {b : BlockBuffer} {blocks : List Block} {block len : Nat}
    (hsizes : ∀ blk ∈ blocks, blk.mSize ≤ blk.mData.length)
    (hget : b.mGetPtr.block < block) (hput : b.mPutPtr.block + 1 = block + blocks.length)
    (hlast : ∀ init last, blocks = init ++ [last] → b.mPutPtr.elem ≤ last.mSize)
    (hne : blocks ≠ []) :
    findLoop b blocks block len =
      some (foundLen len ((chain blocks b.mPutPtr.elem).findIdx? (· == newline))) ∨
    findLoop b blocks block len = none ∧ (∃ blk ∈ blocks, 2 ^ 31 ≤ blk.mSize) ∧
      2 ^ 31 ≤ (chain blocks b.mPutPtr.elem).length := by
  induction blocks generalizing block len with
  | nil => exact absurd rfl hne
  | cons blk rest ih =>
      have hsize := hsizes blk List.mem_cons_self
      rw [findLoop, if_neg (by omega)]
      by_cases hrest : rest = []
      -- the last block is scanned up to the put position
      · subst hrest
        have hle := hlast [] blk rfl
        have hblock : block = b.mPutPtr.block := by simpa using hput.symm
        rw [if_pos hblock, find_round (Nat.zero_le _) (Nat.le_trans hle hsize)
          (fun len => findLoop b [] (block + 1) len)]
        simp only [Nat.sub_zero, List.drop_zero, chain]
        split
        · cases (blk.mData.take b.mPutPtr.elem).findIdx? (· == newline) with
          | none => exact Or.inl rfl
          | some k => exact Or.inl rfl
        · rename_i hbig
          have hlen : (blk.mData.take b.mPutPtr.elem).length = b.mPutPtr.elem := by
            simp [Nat.le_trans hle hsize]
          have hstop : 2 ^ 31 ≤ b.mPutPtr.elem := by
            by_contra hsmall
            exact hbig (scannable_of_lt (by omega))
          exact Or.inr ⟨rfl, ⟨blk, List.mem_cons_self, Nat.le_trans hstop hle⟩,
            hstop.trans_eq hlen.symm⟩
      -- a block before the last is scanned to its end
      · have hblock : block ≠ b.mPutPtr.block := by
          have := List.length_pos_iff.mpr hrest
          simp only [List.length_cons] at hput
          omega
        have hlen : (blk.mData.take blk.mSize).length = blk.mSize := by simp [hsize]
        have hih : ∀ len, findLoop b rest (block + 1) len =
              some (foundLen len ((chain rest b.mPutPtr.elem).findIdx? (· == newline))) ∨
            findLoop b rest (block + 1) len = none ∧ (∃ x ∈ rest, 2 ^ 31 ≤ x.mSize) ∧
              2 ^ 31 ≤ (chain rest b.mPutPtr.elem).length :=
          fun len => ih (fun x hx => hsizes x (List.mem_cons_of_mem _ hx)) (by omega)
            (by simp only [List.length_cons] at hput; omega)
            (fun init last h' => hlast (blk :: init) last (by rw [h']; rfl)) hrest
        rw [if_neg hblock, chain_cons hrest, find_round (Nat.zero_le _) hsize
          (fun len => findLoop b rest (block + 1) len)]
        simp only [Nat.sub_zero, List.drop_zero]
        split
        · cases hk : (blk.mData.take blk.mSize).findIdx? (· == newline) with
          | none =>
              -- no newline in it: the offset of one further on counts the whole block
              rw [findIdx?_append_none hk, hlen]
              rcases hih (wrap32 (len + blk.mSize)) with htail | ⟨hnone, ⟨x, hx, hbig⟩, hlong⟩
              · left
                simp only [htail, foundLen_behind]
              · refine Or.inr ⟨hnone, ⟨x, List.mem_cons_of_mem _ hx, hbig⟩, ?_⟩
                rw [List.length_append]
                omega
          | some k =>
              rw [List.findIdx?_append, hk]
              exact Or.inl rfl
        · rename_i hbig
          have hstop : 2 ^ 31 ≤ blk.mSize := by
            by_contra hsmall
            exact hbig (scannable_of_lt (by omega))
          refine Or.inr ⟨rfl, ⟨blk, List.mem_cons_self, hstop⟩, ?_⟩
          rw [List.length_append]
          omega

/-- The unread bytes in the block of the get position. -/
def firstRun (b : BlockBuffer) : Bytes :=
  match b.mBlocks with
  | [] => []
  | [last] => (last.mData.take b.mPutPtr.elem).drop b.mGetPtr.elem
  | blk :: _ => (blk.mData.take blk.mSize).drop b.mGetPtr.elem

/-- `find` scans the first run, and behind it the queue only, unless a block is too
large for its counter. -/
theorem find_first {b : BlockBuffer} (h : b.Linked) (c : UInt8) :
    ∃ later blk, ∃ next : Nat → Option Int, b.unread = b.firstRun ++ later ∧
      blk ∈ b.mBlocks ∧ b.mGetPtr.elem + b.firstRun.length ≤ blk.mSize ∧
      b.find c = (if Scannable b.mGetPtr.elem b.firstRun then
        match b.firstRun.findIdx? (· == newline) with
        | none => next (wrap32 (0 + b.firstRun.length))
        | some k => some (int32 (wrap32 (0 + k + 1)))
        else none) ∧
      ∀ len, next len = some (foundLen len (later.findIdx? (· == newline))) ∨
        next len = none ∧ (∃ blk ∈ b.mBlocks, 2 ^ 31 ≤ blk.mSize) ∧ 2 ^ 31 ≤ later.length := by
  obtain ⟨head, tail, hblocks, hget⟩ := h.get_elem
  obtain ⟨init, last, hlast, hput, hle⟩ := h.put_last
  have hmem : head ∈ b.mBlocks := by
    rw [hblocks]
    exact List.mem_cons_self
  have hsize : head.mSize ≤ head.mData.length := h.sizes head hmem
  rw [find, h.get_block, List.drop_zero, hblocks, findLoop, if_pos h.get_block.symm]
  by_cases htail : tail = []
  · subst htail
    rw [if_pos rfl] at hget
    obtain ⟨rfl, rfl⟩ := snoc_inj (show [] ++ [head] = _ from hblocks.symm.trans hlast)
    have hblock : 0 = b.mPutPtr.block := by simpa using hput.symm
    have hfirst : b.firstRun = (head.mData.drop b.mGetPtr.elem).take
        (b.mPutPtr.elem - b.mGetPtr.elem) := by
      rw [← List.drop_take, firstRun, hblocks]
    have hlen : b.firstRun.length = b.mPutPtr.elem - b.mGetPtr.elem := by
      rw [hfirst, List.length_take, List.length_drop]
      omega
    refine ⟨[], head, fun len => findLoop b [] (0 + 1) len, ?_, List.mem_cons_self, by omega, ?_,
      fun len => Or.inl rfl⟩
    · rw [unread_single hblocks, List.append_nil, hfirst, List.drop_take]
    · rw [if_pos hblock, find_round hget (Nat.le_trans hle hsize)
        (fun len => findLoop b [] (0 + 1) len), ← hfirst, hlen]
  · rw [if_neg htail] at hget
    obtain ⟨init', rfl, htail'⟩ := snoc_of_cons htail (hblocks.symm.trans hlast)
    have hfirst : b.firstRun = (head.mData.drop b.mGetPtr.elem).take
        (head.mSize - b.mGetPtr.elem) := by
      obtain ⟨next, rest, rfl⟩ := List.exists_cons_of_ne_nil htail
      rw [← List.drop_take, firstRun, hblocks]
    have hlen : b.firstRun.length = head.mSize - b.mGetPtr.elem := by
      rw [hfirst, List.length_take, List.length_drop]
      omega
    refine ⟨chain tail b.mPutPtr.elem, head, fun len => findLoop b tail (0 + 1) len, ?_,
      List.mem_cons_self, by omega, ?_, fun len => ?_⟩
    · rw [unread_cons hblocks htail hget hsize, hfirst, List.drop_take]
    · rw [if_neg (by rw [hput]; simp), find_round hget hsize
        (fun len => findLoop b tail (0 + 1) len), ← hfirst, hlen]
    · have hloop := @findLoop_tail b tail (0 + 1) len
        (fun blk hblk => h.sizes blk (by rw [hblocks]; exact List.mem_cons_of_mem _ hblk))
        (by rw [h.get_block]; omega) (show _ + 1 = 0 + 1 + tail.length by
          rw [hput, htail']; simp; omega)
        (fun init₂ last₂ h₂ => by
          obtain ⟨-, rfl⟩ := snoc_inj (htail'.symm.trans h₂)
          exact hle) htail
      rcases hloop with hfound | ⟨hnone, ⟨x, hx, hbig⟩, hlong⟩
      · exact Or.inl hfound
      · exact Or.inr ⟨hnone, ⟨x, List.mem_cons_of_mem _ hx, hbig⟩, hlong⟩

/-- `find` sees the queue only, unless a block is too large for its counter. -/
theorem find_cases {b : BlockBuffer} (h : b.Linked) (c : UInt8) :
    b.find c = some (foundLen 0 (b.unread.findIdx? (· == newline))) ∨
      b.find c = none ∧ ∃ blk ∈ b.mBlocks, 2 ^ 31 ≤ blk.mSize := by
  obtain ⟨later, blk, next, hunread, hmem, hroom, hfind, hnext⟩ := find_first h c
  rw [hfind, hunread]
  split
  · cases hk : b.firstRun.findIdx? (· == newline) with
    | none =>
        rw [findIdx?_append_none hk]
        rcases hnext (wrap32 (0 + b.firstRun.length)) with hfound | ⟨hnone, hbig, -⟩
        · left
          simp only [hfound, foundLen_behind]
        · exact Or.inr ⟨hnone, hbig⟩
    | some k =>
        rw [List.findIdx?_append, hk]
        exact Or.inl rfl
  · rename_i hbig
    refine Or.inr ⟨rfl, blk, hmem, ?_⟩
    by_contra hsmall
    exact hbig (scannable_of_lt (by omega))

/-- With fewer than `2 ^ 31` bytes in the buffer only the first run can be too much for
the counter: all other blocks are scanned from their beginning. -/
theorem find_eq {b : BlockBuffer} (h : b.Linked) (hheld : b.unread.length < 2 ^ 31) (c : UInt8) :
    b.find c = if Scannable b.mGetPtr.elem b.firstRun then
      some (foundLen 0 (b.unread.findIdx? (· == newline))) else none := by
  obtain ⟨later, -, next, hunread, -, -, hfind, hnext⟩ := find_first h c
  rw [hunread, List.length_append] at hheld
  rw [hfind, hunread]
  split
  · cases hk : b.firstRun.findIdx? (· == newline) with
    | none =>
        rw [findIdx?_append_none hk]
        rcases hnext (wrap32 (0 + b.firstRun.length)) with hfound | ⟨-, -, hlong⟩
        · simp only [hfound, foundLen_behind]
        · omega
    | some k =>
        rw [List.findIdx?_append, hk]
        rfl
  · rfl

theorem find_spec {b : BlockBuffer} (h : b.Linked) (hb : b.Bounded (2 ^ 31 - 1)) (c : UInt8) :
    b.find c = some (foundLen 0 (b.unread.findIdx? (· == newline))) := by
  rcases find_cases h c with hfind | ⟨-, blk, hblk, hbig⟩
  · exact hfind
  · have := hb.blocks_le blk hblk
    omega

/-- The loop of `avail` behind the first block. -/
theorem availLoop_tail {b : BlockBuffer} {pre blocks : List Block} {avail : Nat}
    (hblocks : b.mBlocks = pre ++ blocks) (hget : b.mGetPtr.block < pre.length)
    (hput : b.mPutPtr.block + 1 = pre.length + blocks.length) (hne : blocks ≠ [])
    (hsizes : ∀ blk ∈ blocks, blk.mSize ≤ blk.mData.length)
    (hlast : ∀ init last, blocks = init ++ [last] → b.mPutPtr.elem ≤ last.mSize) :
    availLoop b blocks.length pre.length avail =
      some (wrap32 (avail + (chain blocks b.mPutPtr.elem).length)) := by
  induction blocks generalizing pre avail with
  | nil => exact absurd rfl hne
  | cons blk rest ih =>
      have hsize := hsizes blk List.mem_cons_self
      have hstart : (if pre.length = b.mGetPtr.block then b.mGetPtr.elem else 0) = 0 :=
        if_neg (by omega)
      simp only [List.length_cons, availLoop, hstart]
      by_cases hrest : rest = []
      · subst hrest
        have hle := hlast [] blk rfl
        have hblock : pre.length = b.mPutPtr.block := by simpa using hput.symm
        simp [hblock, availLoop, chain, Nat.min_eq_left (Nat.le_trans hle hsize)]
      · have hblock : pre.length ≠ b.mPutPtr.block := by
          have := List.length_pos_iff.mpr hrest
          simp only [List.length_cons] at hput
          omega
        have hih : ∀ avail, availLoop b rest.length (pre ++ [blk]).length avail =
            some (wrap32 (avail + (chain rest b.mPutPtr.elem).length)) :=
          fun avail => ih (by simp [hblocks]) (by simp; omega)
            (by simp only [List.length_cons] at hput; simp; omega) hrest
            (fun x hx => hsizes x (List.mem_cons_of_mem _ hx))
            (fun init last h' => hlast (blk :: init) last (by rw [h']; rfl))
        simp only [List.length_append, List.length_singleton] at hih
        rw [if_neg hblock, chain_cons hrest]
        simp only [hblocks, Option.bind_eq_bind, List.getElem?_append_right (Nat.le_refl _),
          Nat.sub_self, List.getElem?_cons_zero, Option.map_some, Option.bind_some,
          sub32_of_le (Nat.zero_le _), hih, Nat.sub_zero, List.length_append, List.length_take,
          Nat.min_eq_left hsize, wrap32]
        congr 1
        omega

theorem avail_spec {b : BlockBuffer} (h : b.Linked) :
    b.avail = some (wrap32 b.unread.length) := by
  obtain ⟨head, tail, hblocks, hget⟩ := h.get_elem
  obtain ⟨init, last, hlast, hput, hle⟩ := h.put_last
  have hsize : head.mSize ≤ head.mData.length :=
    h.sizes head (by rw [hblocks]; exact List.mem_cons_self)
  by_cases htail : tail = []
  · subst htail
    rw [if_pos rfl] at hget
    obtain ⟨rfl, rfl⟩ := snoc_inj (show [] ++ [head] = _ from hblocks.symm.trans hlast)
    have hblock : b.mPutPtr.block = 0 := by simpa using hput
    rw [unread_single hblocks]
    simp [avail, availLoop, h.get_block, hblock, hget, Nat.min_eq_left (Nat.le_trans hle hsize)]
  · rw [if_neg htail] at hget
    obtain ⟨init', rfl, htail'⟩ := snoc_of_cons htail (hblocks.symm.trans hlast)
    have hlen : tail.length = init'.length + 1 := by rw [htail']; simp
    have hput' : b.mPutPtr.block = init'.length + 1 := by simpa using hput
    have hloop : ∀ avail, availLoop b tail.length [head].length avail =
        some (wrap32 (avail + (chain tail b.mPutPtr.elem).length)) :=
      fun avail => availLoop_tail hblocks (by rw [h.get_block]; simp) (by simp; omega) htail
        (fun blk hblk => h.sizes blk (by rw [hblocks]; exact List.mem_cons_of_mem _ hblk))
        (fun init₂ last₂ h₂ => by
          obtain ⟨-, rfl⟩ := snoc_inj (htail'.symm.trans h₂)
          exact hle)
    rw [avail, h.get_block, hput', show init'.length + 1 + 1 - 0 = tail.length + 1 by omega,
      availLoop, if_pos h.get_block.symm, if_neg (by omega), unread_cons hblocks htail hget hsize]
    simp only [List.length_singleton] at hloop
    simp only [hblocks, Option.bind_eq_bind, List.getElem?_cons_zero, Option.map_some,
      Option.bind_some, sub32_of_le hget, hloop, List.length_append, List.length_drop,
      List.length_take, Nat.min_eq_left hsize, wrap32]
    congr 1
    omega

/-! ## `getline` -/

/-- Through the first newline of the queue. -/
def firstLine (q : Bytes) : Option (Bytes × Bytes) := splitAfter (· == newline) q

theorem firstLine_eq (q : Bytes) :
    firstLine q = (q.findIdx? (· == newline)).map fun k => (q.take (k + 1), q.drop (k + 1)) :=
  splitAfter_eq_findIdx? q

theorem findIdx?_of_firstLine {q line rest : Bytes} (h : firstLine q = some (line, rest)) :
    ∃ k, q.findIdx? (· == newline) = some k ∧ line = q.take (k + 1) ∧ rest = q.drop (k + 1) ∧
      line.length = k + 1 := by
  rw [firstLine_eq] at h
  obtain ⟨k, hk, heq⟩ := Option.map_eq_some_iff.mp h
  obtain ⟨rfl, rfl⟩ := Prod.mk.inj heq
  have hlt := (List.findIdx?_eq_some_iff_getElem.mp hk).1
  exact ⟨k, hk, rfl, rfl, by simp; omega⟩

theorem firstLine_length_le {q line rest : Bytes} (h : firstLine q = some (line, rest)) :
    line.length ≤ q.length := by
  rw [← splitAfter_append_eq h, List.length_append]
  omega

theorem find_of_firstLine_none {b : BlockBuffer} (h : b.Linked) (hb : b.Bounded (2 ^ 31 - 1))
    (hline : firstLine b.unread = none) (c : UInt8) : b.find c = some (-1) := by
  rw [firstLine_eq, Option.map_eq_none_iff] at hline
  rw [find_spec h hb, hline]
  rfl

theorem find_of_firstLine_some {b : BlockBuffer} (h : b.Linked) (hb : b.Bounded (2 ^ 31 - 1))
    {line rest : Bytes} (hline : firstLine b.unread = some (line, rest)) (c : UInt8) :
    b.find c = some (int32 (wrap32 line.length)) := by
  obtain ⟨k, hk, -, -, hlen⟩ := findIdx?_of_firstLine hline
  rw [find_spec h hb, hk, foundLen, Nat.zero_add, hlen]

theorem getline_none {b : BlockBuffer} (h : b.Linked) (hb : b.Bounded (2 ^ 31 - 1))
    (hline : firstLine b.unread = none) : b.getline = some ([], 0, b) := by
  simp [getline, find_of_firstLine_none h hb hline]

/-- The `int` in which `getline` measures a line, for any length of the line. -/
theorem getline_of_get {b b' : BlockBuffer} {n : Nat} (hn : n < 2 ^ 31 - 1)
    (hfind : b.find newline = some (n : Int)) (hle : n ≤ b.unread.length)
    (hget : b.get n = some (b.unread.take n, b')) :
    b.getline = some (b.unread.take n, (n : Int), b') := by
  unfold getline
  rw [hfind, Option.bind_eq_bind, Option.bind_some, if_neg (by omega), addInt_of_range (by omega),
    Option.bind_eq_bind, Option.bind_some, if_neg (by omega), uint32_ofNat (by omega), hget,
    Option.bind_some]
  simp [hle]

theorem getline_of_find {b : BlockBuffer} (h : b.Linked) {n : Nat} (hn : n < 2 ^ 31 - 1)
    (hfind : b.find newline = some (n : Int)) (hle : n ≤ b.unread.length) :
    ∃ b', b.getline = some (b.unread.take n, (n : Int), b') ∧ Advanced b n b' := by
  obtain ⟨b', hget, hadv⟩ := get_spec h hle
  exact ⟨b', getline_of_get hn hfind hle hget, hadv⟩

theorem getline_some {b : BlockBuffer} (h : b.Linked) (hb : b.Bounded (2 ^ 31 - 1))
    {line rest : Bytes} (hline : firstLine b.unread = some (line, rest))
    (hlen : line.length < 2 ^ 31 - 1) :
    ∃ b', b.getline = some (line, (line.length : Int), b') ∧ Advanced b line.length b' := by
  obtain ⟨k, -, htake, -, hk⟩ := findIdx?_of_firstLine hline
  have hfind := find_of_firstLine_some h hb hline newline
  rw [wrap32_of_lt (by omega), int32_of_lt (by omega)] at hfind
  have hle := firstLine_length_le hline
  have hline' : b.unread.take line.length = line := by rw [hk]; exact htake.symm
  obtain ⟨b', hget, hadv⟩ := getline_of_find h hlen hfind hle
  exact ⟨b', by rw [hget, hline'], hadv⟩

/-- What `find` returns: nothing found, or the length of a prefix of the queue
as long as it fits an `int`. -/
theorem find_range {b : BlockBuffer} (h : b.Linked) :
    b.find newline = none ∨ b.find newline = some (-1) ∨
      (∃ n : Nat, b.find newline = some (n : Int) ∧ n < 2 ^ 31 ∧ n ≤ b.unread.length) ∨
      ∃ len : Int, b.find newline = some len ∧ len < -1 := by
  rcases find_cases h newline with hfind | ⟨hnone, -⟩
  · cases hline : firstLine b.unread with
    | none =>
        rw [firstLine_eq, Option.map_eq_none_iff] at hline
        rw [hline] at hfind
        exact Or.inr (Or.inl hfind)
    | some s =>
        obtain ⟨line, rest⟩ := s
        obtain ⟨k, hk, -, -, hlen⟩ := findIdx?_of_firstLine hline
        rw [hk, foundLen, Nat.zero_add, ← hlen] at hfind
        have hle : wrap32 line.length ≤ b.unread.length :=
          Nat.le_trans (Nat.mod_le _ _) (firstLine_length_le hline)
        have hlt : wrap32 line.length < 2 ^ 32 := Nat.mod_lt _ (by decide)
        by_cases hsmall : wrap32 line.length < 2 ^ 31
        · rw [int32_of_lt hsmall] at hfind
          exact Or.inr (Or.inr (Or.inl ⟨_, hfind, hsmall, hle⟩))
        · have hneg : int32 (wrap32 line.length) = (wrap32 line.length : Int) - 2 ^ 32 := by
            unfold int32
            rw [Int.bmod_def]
            split <;> omega
          by_cases hone : int32 (wrap32 line.length) = -1
          · exact Or.inr (Or.inl (hone ▸ hfind))
          · exact Or.inr (Or.inr (Or.inr ⟨_, hfind, by omega⟩))
  · exact Or.inl hnone

/-- A length that leaves the `int` when it is increased by one, or a negative one:
`len + 1` overflows, or `new char[len + 1]` has no size. -/
theorem getline_undefined {b : BlockBuffer} {len : Int} (hfind : b.find newline = some len)
    (hlen : len = 2 ^ 31 - 1 ∨ len < -1) : b.getline = none := by
  unfold getline
  rw [hfind, Option.bind_eq_bind, Option.bind_some, if_neg (by omega)]
  by_cases hrange : -2 ^ 31 ≤ len + 1 ∧ len + 1 < 2 ^ 31
  · rw [addInt_of_range hrange, Option.bind_eq_bind, Option.bind_some, if_pos (by omega)]
  · unfold addInt
    rw [if_neg hrange, Option.bind_eq_bind, Option.bind_none]

/-- Whatever the length of the first line, `getline` either has no defined
result or hands out a prefix of the queue. -/
theorem getline_cases {b : BlockBuffer} (h : b.Linked) :
    b.getline = none ∨ ∃ n b', b.getline = some (b.unread.take n, (n : Int), b') ∧
      n < 2 ^ 31 - 1 ∧ n ≤ b.unread.length ∧ Advanced b n b' := by
  rcases find_range h with hnone | hfind | ⟨n, hfind, hlt, hle⟩ | ⟨len, hfind, hneg⟩
  · exact Or.inl (by simp [getline, hnone])
  · exact Or.inr ⟨0, b, by simp [getline, hfind], by omega, Nat.zero_le _,
      h, by simp, id, fun _ => id⟩
  · by_cases hmax : n < 2 ^ 31 - 1
    · obtain ⟨b', hget, hadv⟩ := getline_of_find h hmax hfind hle
      exact Or.inr ⟨n, b', hget, hmax, hle, hadv⟩
    · exact Or.inl (getline_undefined hfind (by omega))
  · exact Or.inl (getline_undefined hfind (Or.inr hneg))

/-- A line of `2 ^ 31 - 1` bytes is one too long: `len + 1` leaves the `int`. -/
theorem getline_overflow {b : BlockBuffer} (h : b.Linked) (hb : b.Bounded (2 ^ 31 - 1))
    {line rest : Bytes} (hline : firstLine b.unread = some (line, rest))
    (hlen : line.length = 2 ^ 31 - 1) : b.getline = none := by
  have hfind := find_of_firstLine_some h hb hline newline
  rw [wrap32_of_lt (by omega), int32_of_lt (by omega)] at hfind
  exact getline_undefined hfind (by omega)

theorem getlineArray_none {b : BlockBuffer} (h : b.Linked) (hb : b.Bounded (2 ^ 31 - 1))
    (hline : firstLine b.unread = none) (out : Bytes) (size : Nat) :
    b.getlineArray out size = some (out, 0, b) := by
  simp [getlineArray, find_of_firstLine_none h hb hline]

/-- The array overload by the length that `find` has measured. -/
theorem getlineArray_of_get {b b' : BlockBuffer} {n : Nat} (hn : n < 2 ^ 31 - 1)
    (hfind : b.find newline = some (n : Int)) (hle : n ≤ b.unread.length)
    (hget : b.get n = some (b.unread.take n, b')) (out : Bytes) (size : Nat) :
    b.getlineArray out size =
      if size < n + 1 then some (out, -1, b)
      else if n < out.length then some (b.unread.take n ++ 0 :: out.drop (n + 1), (n : Int), b')
      else none := by
  have hneed : uint32 ((n : Int) + 1) = n + 1 := by
    rw [← Int.natCast_succ, uint32_ofNat (by omega)]
  unfold getlineArray
  rw [hfind, Option.bind_eq_bind, Option.bind_some, if_neg (by omega), addInt_of_range (by omega),
    Option.bind_eq_bind, Option.bind_some, hneed]
  by_cases hsize : size < n + 1
  · rw [if_pos hsize, if_pos hsize]
  · rw [if_neg hsize, if_neg hsize]
    by_cases hout : n < out.length
    · have htail : (out.set n 0).drop n = 0 :: out.drop (n + 1) := by
        rw [List.drop_set, if_neg (Nat.lt_irrefl _), Nat.sub_self, List.drop_eq_getElem_cons hout,
          List.set_cons_zero]
      rw [if_pos hout, if_pos ⟨by omega, by simpa using hout⟩, uint32_ofNat (by omega), hget,
        Option.bind_some, Int.toNat_natCast]
      simp [hle, htail]
    · rw [if_neg hout, if_neg (by simpa using hout)]

theorem getlineArray_of_find {b : BlockBuffer} (h : b.Linked) {n : Nat} (hn : n < 2 ^ 31 - 1)
    (hfind : b.find newline = some (n : Int)) (hle : n ≤ b.unread.length) (out : Bytes)
    (size : Nat) :
    ∃ b', b.getlineArray out size =
        (if size < n + 1 then some (out, -1, b)
          else if n < out.length then
            some (b.unread.take n ++ 0 :: out.drop (n + 1), (n : Int), b')
          else none) ∧
      Advanced b n b' := by
  obtain ⟨b', hget, hadv⟩ := get_spec h hle
  exact ⟨b', getlineArray_of_get hn hfind hle hget out size, hadv⟩

/-- The array overload where the measured length is no `int` that a line can have:
the buffer is left alone. -/
theorem getlineArray_stuck {b : BlockBuffer} {len : Int} (hfind : b.find newline = some len)
    (hlen : len = 2 ^ 31 - 1 ∨ len < -1) (out : Bytes) (size : Nat) :
    b.getlineArray out size =
      if -2 ^ 31 ≤ len + 1 ∧ len + 1 < 2 ^ 31 ∧ size < uint32 (len + 1) then some (out, -1, b)
      else none := by
  unfold getlineArray
  rw [hfind, Option.bind_eq_bind, Option.bind_some, if_neg (by omega)]
  by_cases hrange : -2 ^ 31 ≤ len + 1 ∧ len + 1 < 2 ^ 31
  · rw [addInt_of_range hrange, Option.bind_eq_bind, Option.bind_some]
    by_cases hsize : size < uint32 (len + 1)
    · rw [if_pos hsize, if_pos ⟨hrange.1, hrange.2, hsize⟩]
    · rw [if_neg hsize, if_neg (by omega), if_neg fun hall => hsize hall.2.2]
  · unfold addInt
    rw [if_neg hrange, Option.bind_eq_bind, Option.bind_none,
      if_neg fun hall => hrange ⟨hall.1, hall.2.1⟩]

/-- The array overload on an array with room for the line and its NUL. -/
theorem getlineArray_some {b : BlockBuffer} (h : b.Linked) (hb : b.Bounded (2 ^ 31 - 1))
    {line rest out : Bytes} {size : Nat} (hline : firstLine b.unread = some (line, rest))
    (hlen : line.length < 2 ^ 31 - 1) (hsize : line.length < size) (hout : line.length < out.length) :
    ∃ b', b.getlineArray out size =
        some (line ++ 0 :: out.drop (line.length + 1), (line.length : Int), b') ∧
      Advanced b line.length b' := by
  obtain ⟨k, -, htake, -, hk⟩ := findIdx?_of_firstLine hline
  have hfind := find_of_firstLine_some h hb hline newline
  rw [wrap32_of_lt (by omega), int32_of_lt (by omega)] at hfind
  obtain ⟨b', hget, hadv⟩ :=
    getlineArray_of_find h hlen hfind (firstLine_length_le hline) out size
  rw [if_neg (by omega), if_pos hout, hk, ← htake, ← hk] at hget
  exact ⟨b', hget, hadv⟩

end BlockBuffer

end Negatus
