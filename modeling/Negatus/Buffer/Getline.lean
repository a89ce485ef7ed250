import Negatus.Buffer.Alloc

/-!
# The two overloads of `getline`

Both measure the first line with `find` and take it with `get`. The overload for
arrays looks at the size of the array in between, and leaves everything as it is
if the line and its NUL do not fit. Where they fit, the two overloads are the same
call.
-/

namespace Negatus

open Foundations

namespace BlockBuffer

/-- Calls of `get` ask for at most `avail()` bytes. -/
def GetsClamped (b : BlockBuffer) : BufferOp → Prop
  | .get size => ∃ n, b.avail = some n ∧ size ≤ n
  | _ => True

theorem GetsClamped.called {b b' : BlockBuffer} {op : BufferOp} {r : Reply} (h : b.Tidy)
    (hok : GetsClamped b op) (hstep : step b op = some (r, b')) : Called b op r b' := by
  refine step_called h ?_ hstep
  rintro size rfl
  obtain ⟨n, havail, hle⟩ := hok
  obtain rfl : wrap32 b.unread.length = n := by simpa [avail_spec h.toLinked] using havail
  exact Nat.le_trans hle (Nat.mod_le _ _)

/-- The newline-terminated lines of `q`, and what follows the last newline. -/
structure LinesOf (q : Bytes) (lines : List Bytes) (tail : Bytes) : Prop where
  append_eq : lines.flatten ++ tail = q
  terminated : ∀ line ∈ lines, ∃ text, line = text ++ [newline] ∧ newline ∉ text
  unterminated : newline ∉ tail

/-- `getline(std::stringstream&)` until it returns 0: the lines, and the buffer. -/
def getlines : (fuel : Nat) → BlockBuffer → Option (List Bytes × BlockBuffer)
  | 0, _ => none
  | fuel + 1, b => do
      let (line, len, b') ← b.getline
      if len = 0 then some ([], b')
      else do
        let (lines, b'') ← getlines fuel b'
        some (line :: lines, b'')

/-- `getline(char*, PRUint32)` until it returns 0, each time on the next array. -/
def getlinesArray : List Bytes → BlockBuffer → Option (List Bytes × BlockBuffer)
  | [], _ => none
  | out :: outs, b => do
      let (out', len, b') ← b.getlineArray out out.length
      if len = 0 then some ([], b')
      else do
        let (lines, b'') ← getlinesArray outs b'
        some (out'.take len.toNat :: lines, b'')

/-- How the two overloads behave on a buffer that holds `q`. -/
structure GetlinesAgree (b : BlockBuffer) (q : Bytes) : Prop where
  /-- the array overload, for every array -/
  array : ∀ out size, size ≤ out.length → ∃ out' len b',
    b.getlineArray out size = some (out', len, b') ∧
    (len = 0 ↔ newline ∉ q) ∧
    (len = -1 ↔ ∃ line rest, firstLine q = some (line, rest) ∧ size < line.length + 1) ∧
    (len = 0 ∨ len = -1 → out' = out ∧ b' = b) ∧
    (len ≠ 0 → len ≠ -1 → ∃ line rest, firstLine q = some (line, rest) ∧ len = line.length ∧
      out' = line ++ 0 :: out.drop (line.length + 1) ∧ b.getline = some (line, len, b'))
  /-- the stream overload without a line -/
  stream_none : newline ∉ q → b.getline = some ([], 0, b)
  /-- either overload, called until it returns 0 -/
  repeated : ∃ lines tail b', LinesOf q lines tail ∧ b'.unread = tail ∧
    (∀ fuel, lines.length < fuel → getlines fuel b = some (lines, b')) ∧
    ∀ outs : List Bytes, lines.length < outs.length →
      (∀ out ∈ outs, ∀ line ∈ lines, line.length < out.length) →
      getlinesArray outs b = some (lines, b')

theorem firstLine_eq_none {q : Bytes} : firstLine q = none ↔ newline ∉ q := by
  rw [firstLine, splitAfter_eq_none]
  constructor
  · intro h hmem
    have := h newline hmem
    simp at this
  · rintro h c hc
    rw [beq_eq_false_iff_ne]
    rintro rfl
    exact h hc

/-- One line, taken by both overloads. -/
theorem getline_both {b : BlockBuffer} (h : b.Indexed) {line rest : Bytes}
    (hline : firstLine b.unread = some (line, rest)) (hlen : line.length < 2 ^ 31 - 1) :
    ∃ b', b'.Indexed ∧ b'.unread = rest ∧ b.getline = some (line, (line.length : Int), b') ∧
      ∀ out size, size ≤ out.length → b.getlineArray out size =
        if size < line.length + 1 then some (out, -1, b)
        else some (line ++ 0 :: out.drop (line.length + 1), (line.length : Int), b') := by
  have hle := firstLine_length_le hline
  have hfind := find_of_firstLine_some h.toLinked h.bounded hline newline
  rw [wrap32_of_lt (by omega), int32_of_lt (by omega)] at hfind
  have htake : b.unread.take line.length = line := by
    rw [← splitAfter_append_eq hline, List.take_left]
  obtain ⟨b', hget, hadv⟩ := get_spec h.toLinked hle
  refine ⟨b', hadv.indexed h, by rw [hadv.unread_eq, drop_firstLine hline], ?_, ?_⟩
  · have hsome := getline_of_get hlen hfind hle hget
    rwa [htake] at hsome
  · intro out size hsize
    rw [getlineArray_of_get hlen hfind hle hget out size, htake]
    by_cases hsmall : size < line.length + 1
    · rw [if_pos hsmall, if_pos hsmall]
    · rw [if_neg hsmall, if_neg hsmall, if_pos (by omega)]

theorem LinesOf.cons {q line rest tail : Bytes} {lines : List Bytes}
    (hline : firstLine q = some (line, rest)) (h : LinesOf rest lines tail) :
    LinesOf q (line :: lines) tail where
  append_eq := by
    rw [List.flatten_cons, List.append_assoc, h.append_eq, splitAfter_append_eq hline]
  terminated := by
    intro l hl
    rcases List.mem_cons.mp hl with rfl | hl
    · obtain ⟨text, c, rfl, hc, htext⟩ := splitAfter_eq_some hline
      refine ⟨text, by rw [eq_of_beq hc], fun hmem => ?_⟩
      have := htext newline hmem
      simp at this
    · exact h.terminated l hl
  unterminated := h.unterminated

/-- Every round takes the first line of what is held, until no line is left. -/
theorem getlines_spec {b : BlockBuffer} (h : b.Indexed) (hlen : b.unread.length < 2 ^ 31 - 1) :
    ∃ lines tail b', LinesOf b.unread lines tail ∧ b'.unread = tail ∧
      (∀ fuel, lines.length < fuel → getlines fuel b = some (lines, b')) ∧
      ∀ outs : List Bytes, lines.length < outs.length →
        (∀ out ∈ outs, ∀ line ∈ lines, line.length < out.length) →
        getlinesArray outs b = some (lines, b') := by
  -- induction on the number of bytes held
  generalize hn : b.unread.length = n at hlen
  induction n using Nat.strong_induction_on generalizing b with
  | _ n ih =>
    cases hline : firstLine b.unread with
    | none =>
        refine ⟨[], b.unread, b, ⟨rfl, by simp, firstLine_eq_none.mp hline⟩, rfl, ?_, ?_⟩
        · intro fuel hfuel
          obtain ⟨fuel, rfl⟩ := Nat.exists_eq_add_of_lt hfuel
          simp [getlines, getline_none h.toLinked h.bounded hline]
        · intro outs houts _
          obtain ⟨out, outs, rfl⟩ := List.exists_cons_of_length_pos houts
          simp [getlinesArray, getlineArray_none h.toLinked h.bounded hline]
    | some s =>
        obtain ⟨line, rest⟩ := s
        have hle := firstLine_length_le hline
        have hnil : line ≠ [] := splitAfter_ne_nil hline
        have hpos := List.length_pos_of_ne_nil hnil
        have hrest : line.length + rest.length = b.unread.length := by
          rw [← splitAfter_append_eq hline, List.length_append]
        obtain ⟨b₁, hb₁, hunread, hstream, harray⟩ := getline_both h hline (by omega)
        obtain ⟨lines, tail, b', hlines, htail, hloop, hloops⟩ :=
          ih rest.length (by omega) hb₁ (by rw [hunread]) (by omega)
        rw [hunread] at hlines
        refine ⟨line :: lines, tail, b', hlines.cons hline, htail, ?_, ?_⟩
        · intro fuel hfuel
          obtain ⟨fuel, rfl⟩ : ∃ k, fuel = k + 1 := ⟨fuel - 1, by omega⟩
          rw [List.length_cons] at hfuel
          have hrec := hloop fuel (by omega)
          simp [getlines, hstream, hnil, hrec]
        · intro outs houts hroom
          obtain ⟨out, outs, rfl⟩ := List.exists_cons_of_length_pos (Nat.zero_lt_of_lt houts)
          rw [List.length_cons, List.length_cons] at houts
          have hout := hroom out List.mem_cons_self line List.mem_cons_self
          have hrec := hloops outs (by omega) fun o ho l hl =>
            hroom o (List.mem_cons_of_mem _ ho) l (List.mem_cons_of_mem _ hl)
          have hcall := harray out out.length (Nat.le_refl _)
          rw [if_neg (by omega)] at hcall
          simp [getlinesArray, hcall, hnil, hrec]

theorem Indexed.getlinesAgree {b : BlockBuffer} (h : b.Indexed)
    (hlen : b.unread.length < 2 ^ 31 - 1) : GetlinesAgree b b.unread where
  array := by
    intro out size hsize
    cases hline : firstLine b.unread with
    | none =>
        refine ⟨out, 0, b, getlineArray_none h.toLinked h.bounded hline out size, ?_, ?_, ?_, ?_⟩
        · exact iff_of_true rfl (firstLine_eq_none.mp hline)
        · exact iff_of_false (by decide) (by simp)
        · exact fun _ => ⟨rfl, rfl⟩
        · exact fun hzero => absurd rfl hzero
    | some s =>
        obtain ⟨line, rest⟩ := s
        have hle := firstLine_length_le hline
        have hpos := List.length_pos_of_ne_nil (splitAfter_ne_nil hline)
        have hmem : ¬ newline ∉ b.unread := by
          rw [← firstLine_eq_none, hline]
          exact Option.some_ne_none _
        obtain ⟨b', -, -, hstream, harray⟩ := getline_both h hline (by omega)
        have hcall := harray out size hsize
        by_cases hsmall : size < line.length + 1
        · rw [if_pos hsmall] at hcall
          refine ⟨out, -1, b, hcall, ?_, ?_, fun _ => ⟨rfl, rfl⟩, fun _ hne => absurd rfl hne⟩
          · exact iff_of_false (by decide) hmem
          · exact iff_of_true rfl ⟨line, rest, rfl, hsmall⟩
        · rw [if_neg hsmall] at hcall
          refine ⟨_, _, b', hcall, ?_, ?_, ?_, ?_⟩
          · exact iff_of_false (by omega) hmem
          · refine iff_of_false (by omega) ?_
            rintro ⟨line', rest', heq, hlt⟩
            obtain ⟨rfl, -⟩ := Prod.mk.inj (Option.some.inj heq)
            exact hsmall hlt
          · rintro (hzero | hneg) <;> omega
          · exact fun _ _ => ⟨line, rest, rfl, rfl, rfl, hstream⟩
  stream_none := fun hno => getline_none h.toLinked h.bounded (firstLine_eq_none.mpr hno)
  repeated := getlines_spec h hlen

/-- **The two overloads of `getline` agree and fail atomically.** After any
history of `put`, `getline` and `get` calls, for every array. -/
theorem getlines_agree {d : Nat} (hd : 0 < d) (hd' : d < 2 ^ 31) {b : BlockBuffer} {q : Bytes}
    (h : Reached GetsClamped d b q) (hlen : q.length < 2 ^ 31 - 1) : GetlinesAgree b q := by
  obtain ⟨htidy, rfl, hbound⟩ := h.called hd fun _ _ _ _ => GetsClamped.called
  exact Indexed.getlinesAgree ⟨htidy.toLinked, hbound _ (by omega)⟩ hlen

theorem getlines_agree_two_lines :
    GetlinesAgree ⟨4, [⟨4, str "a\nb\n"⟩, ⟨4, [99, 0, 0, 0]⟩], ⟨0, 0⟩, ⟨1, 1⟩⟩ (str "a\nb\nc") := by
  have hput : step (new 4) (.put (str "a\nb\nc")) =
      some (⟨5, []⟩, ⟨4, [⟨4, str "a\nb\n"⟩, ⟨4, [99, 0, 0, 0]⟩], ⟨0, 0⟩, ⟨1, 1⟩⟩) := by
    decide
  exact getlines_agree (by decide) (by decide) (Reached.call Reached.new trivial hput) (by decide)

/-! ## A block that an `int` cannot index -/

theorem find_two_past_int (d : Nat) (blocks : List Block) {m : Nat} {data : Bytes}
    (hm : m + 2 = 2 ^ 31) (hfst : data[m]? = some 0) (hsnd : data[m + 1]? = some 0) :
    find ⟨d, ⟨m + 2, data⟩ :: blocks, ⟨0, m⟩, ⟨1, 0⟩⟩ newline = none := by
  have htwo : m + 2 - m = 2 := by omega
  have hscan : Block.find ⟨m + 2, data⟩ newline m (m + 2) = none := by
    unfold Block.find
    rw [htwo, Block.findFrom, if_pos (by omega), hfst]
    show (if (0 : UInt8) = newline then _ else _) = none
    rw [if_neg (by decide), if_pos (by omega), Block.findFrom, if_pos (by omega), hsnd]
    show (if (0 : UInt8) = newline then _ else _) = none
    rw [if_neg (by decide), if_neg (by omega)]
  simp [find, findLoop, hscan]

/-- A default block of `2 ^ 31` bytes, of which all but two were put and read, and
two more bytes: no newline is buffered, and `find` has no defined result. -/
theorem wide_getline_undefined {m : Nat} (hm : m + 2 = 2 ^ 31) :
    ∃ b, Reached GetsClamped (m + 2) b [0, 0] ∧ b.getline = none := by
  have hpos : 0 < m := by omega
  obtain ⟨data, hput, hlen, -⟩ := put_zeros hpos (show m < m + 2 by omega)
  have h₁ : step (new (m + 2)) (.put (List.replicate m 0)) =
      some (⟨int32 m, []⟩, ⟨m + 2, [⟨m + 2, data⟩], ⟨0, 0⟩, ⟨0, m⟩⟩) := by
    simp [step, hput]
  have h₂ : step ⟨m + 2, [⟨m + 2, data⟩], ⟨0, 0⟩, ⟨0, m⟩⟩ (.get m) =
      some (⟨int32 (data.take m).length, data.take m⟩,
        ⟨m + 2, [⟨m + 2, data⟩], ⟨0, m⟩, ⟨0, m⟩⟩) := by
    have hget := get_inside (m + 2) data hpos (show m < m + 2 by omega)
    simp [step, hget]
  have hfull := put_filling (m + 2) m data (List.cons_ne_nil (0 : UInt8) [0])
    (show m + [(0 : UInt8), 0].length = m + 2 from rfl)
  have hfst : (data.take m ++ [0, 0] ++ data.drop (m + 2))[m]? = some 0 := by simp [hlen]
  have hsnd : (data.take m ++ [0, 0] ++ data.drop (m + 2))[m + 1]? = some 0 := by simp [hlen]
  generalize data.take m ++ [0, 0] ++ data.drop (m + 2) = data' at hfull hfst hsnd
  have hfind := find_two_past_int (m + 2) [Block.new (m + 2)] hm hfst hsnd
  refine ⟨⟨m + 2, [⟨m + 2, data'⟩, Block.new (m + 2)], ⟨0, m⟩, ⟨1, 0⟩⟩, ?_,
    by simp [getline, hfind]⟩
  have hclamped : GetsClamped ⟨m + 2, [⟨m + 2, data⟩], ⟨0, 0⟩, ⟨0, m⟩⟩ (.get m) := by
    have hwrap : wrap32 m = m := wrap32_of_lt (by omega)
    exact ⟨m, by simp [avail, availLoop, hwrap], Nat.le_refl m⟩
  have h₃ : step ⟨m + 2, [⟨m + 2, data⟩], ⟨0, m⟩, ⟨0, m⟩⟩ (.put [0, 0]) =
      some (⟨2, []⟩, ⟨m + 2, [⟨m + 2, data'⟩, Block.new (m + 2)], ⟨0, m⟩, ⟨1, 0⟩⟩) := by
    have hint : int32 2 = 2 := by decide
    simp [step, hfull, hint]
  have hputs : ∀ b bs, GetsClamped b (.put bs) := fun _ _ => trivial
  have hheld := (Reached.call Reached.new (hputs _ _) h₁).call hclamped h₂
  simpa [taken, given, hlen] using hheld.call (hputs _ _) h₃

theorem not_agree_at_int_limit :
    ∃ b, Reached GetsClamped (2 ^ 31) b [0, 0] ∧ ¬ GetlinesAgree b [0, 0] := by
  obtain ⟨b, hreached, hnone⟩ := wide_getline_undefined (m := 2 ^ 31 - 2) (by decide)
  refine ⟨b, hreached, fun hagree => ?_⟩
  have hsome := hagree.stream_none (by decide)
  exact Option.some_ne_none _ (hsome.symm.trans hnone)

end BlockBuffer

end Negatus
