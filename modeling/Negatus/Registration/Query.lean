import Negatus.Foundations.PercentCode
import Negatus.Registration

/-!
# What a query says

`urlencode` is percent-encoding as long as the characters are not negative: a
character from 128 on is printed with its sign, as eight digits into a buffer of
three bytes. Queries of the other characters can be taken apart again, as neither
separator occurs in an encoded piece.
-/

namespace Negatus

open Foundations

namespace Registration

/-- Characters that stand for themselves. -/
def unreserved (c : UInt8) : Bool := isAlpha c || isAllowedChar c

/-- What is asked of the encoding of a string: no buffer overflows, the output is made
of unreserved characters and triplets, and decoding gives the string back. -/
def Encodes (plain : Bytes) : Prop :=
  ∃ out, urlencode plain = some out ∧ PercentEncoded unreserved out ∧
    percentDecode out = some plain

/-- A piece of a query, split at its first `=`. -/
def decodePiece (piece : Bytes) : Option (Bytes × Bytes) :=
  match piece.dropWhile (· ≠ 61) with
  | [] => none
  | _ :: value => do
      let key ← percentDecode (piece.takeWhile (· ≠ 61))
      let value ← percentDecode value
      return (key, value)

/-- The pairs of a query, split at `&`. -/
def decodeQuery (query : Bytes) : Option (List (Bytes × Bytes)) :=
  if query = [] then some [] else (query.splitOn 38).mapM decodePiece

/-- Keys and values are strings of 7-bit characters. -/
def SevenBit (data : Dict) : Prop :=
  ∀ p ∈ data.pairs, (∀ c ∈ p.1, c < 128) ∧ ∀ c ∈ p.2, c < 128

/-- Keys and values are short enough for an `int` to count their characters. -/
def Countable (data : Dict) : Prop :=
  ∀ p ∈ data.pairs, p.1.length < 2 ^ 31 ∧ p.2.length < 2 ^ 31

/-- The query says what the pairs are, and is empty only if there are none. -/
def Decodable (data : Dict) : Prop :=
  ∃ query, genQueryUrl data = some query ∧ decodeQuery query = some data.pairs ∧
    (query = [] ↔ data.pairs = [])

/-! ## One character -/

theorem hexText_eq (c : UInt8) (hc : c < 128) :
    hexText c = [hexDigit (c.toNat / 16), hexDigit (c.toNat % 16)] := by
  have hall : ∀ n < 128, hexText (UInt8.ofNat n) = [hexDigit (n / 16), hexDigit (n % 16)] := by
    decide +kernel
  have hcode := hall c.toNat (UInt8.lt_iff_toNat_lt.mp hc)
  rwa [UInt8.ofNat_toNat] at hcode

/-- A negative character has eight digits. -/
theorem hexText_negative (c : UInt8) (hc : ¬ c < 128) : (hexText c).length = 8 := by
  have hall : ∀ n < 256, 128 ≤ n → (hexText (UInt8.ofNat n)).length = 8 := by
    decide +kernel
  rw [UInt8.lt_iff_toNat_lt, Nat.not_lt] at hc
  have hcode := hall c.toNat c.toNat_lt hc
  rwa [UInt8.ofNat_toNat] at hcode

theorem unreserved_lt {c : UInt8} (h : unreserved c = true) : c < 128 := by
  have hall : ∀ n < 256, unreserved (UInt8.ofNat n) = true → n < 128 := by decide +kernel
  rw [UInt8.lt_iff_toNat_lt]
  refine hall c.toNat c.toNat_lt ?_
  rwa [UInt8.ofNat_toNat]

theorem urlencodeChar_eq (c : UInt8) :
    urlencodeChar c = if c < 128 then some (percentByte unreserved c) else none := by
  unfold urlencodeChar percentByte
  rw [show (isAlpha c || isAllowedChar c) = unreserved c from rfl]
  by_cases hplain : unreserved c = true
  · rw [if_pos hplain, if_pos hplain, if_pos (unreserved_lt hplain)]
  · rw [if_neg hplain, if_neg hplain]
    by_cases hc : c < 128
    · rw [if_pos hc, hexText_eq c hc]
      rfl
    · rw [if_neg hc]
      dsimp only
      rw [hexText_negative c hc]
      rfl

/-! ## A string -/

theorem urlencodeLoop_some {plain : Bytes} (h : ∀ c ∈ plain, c < 128) :
    urlencodeLoop plain = some (percentEncode unreserved plain) := by
  induction plain with
  | nil => rfl
  | cons c rest ih =>
      obtain ⟨hc, hrest⟩ := List.forall_mem_cons.mp h
      unfold urlencodeLoop
      rw [urlencodeChar_eq, if_pos hc, ih hrest, percentEncode_cons]
      rfl

theorem urlencodeLoop_none {plain : Bytes} {c : UInt8} (hmem : c ∈ plain) (hc : ¬ c < 128) :
    urlencodeLoop plain = none := by
  induction plain with
  | nil => cases hmem
  | cons b rest ih =>
      unfold urlencodeLoop
      rcases List.mem_cons.mp hmem with rfl | hmem
      · rw [urlencodeChar_eq, if_neg hc]
        rfl
      · rw [ih hmem]
        cases urlencodeChar b <;> rfl

theorem urlencode_some {plain : Bytes} (hlen : plain.length < 2 ^ 31)
    (hseven : ∀ c ∈ plain, c < 128) :
    urlencode plain = some (percentEncode unreserved plain) := by
  unfold urlencode
  rw [if_pos hlen, urlencodeLoop_some hseven]

/-- What is encoded can be counted, and has no negative characters. -/
theorem urlencode_range {plain out : Bytes} (h : urlencode plain = some out) :
    plain.length < 2 ^ 31 ∧ ∀ c ∈ plain, c < 128 := by
  unfold urlencode at h
  split at h
  · rename_i hlen
    refine ⟨hlen, fun c hmem => ?_⟩
    by_contra hc
    rw [urlencodeLoop_none hmem hc] at h
    cases h
  · cases h

/-- **When `urlencode` is a percent-encoding**: exactly for strings of 7-bit characters
that an `int` can count. -/
theorem urlencode_encodes_iff (plain : Bytes) :
    Encodes plain ↔ plain.length < 2 ^ 31 ∧ ∀ c ∈ plain, c < 128 := by
  constructor
  · rintro ⟨out, hout, -⟩
    exact urlencode_range hout
  · rintro ⟨hlen, hseven⟩
    exact ⟨_, urlencode_some hlen hseven, percentEncoded_encode plain,
      percentDecode_encode (by decide) plain⟩

/-- The byte 128 is printed as `FFFFFF80`. -/
theorem urlencode_overflows : ¬ ∀ plain, Encodes plain := by
  intro hall
  obtain ⟨out, hout, -⟩ := hall [128]
  have hnone : urlencode [128] = none := by decide
  rw [hnone] at hout
  cases hout

/-! ## A query -/

/-- Neither separator occurs in an encoded piece. -/
theorem separator_notMem (s : Bytes) :
    38 ∉ percentEncode unreserved s ∧ 61 ∉ percentEncode unreserved s := by
  have hcode : PercentEncoded unreserved (percentEncode unreserved s) := percentEncoded_encode s
  constructor
  · intro hmem
    exact absurd (hcode.mem hmem) (by decide)
  · intro hmem
    exact absurd (hcode.mem hmem) (by decide)

/-- A pair as the query has it. -/
def piece (p : Bytes × Bytes) : Bytes :=
  percentEncode unreserved p.1 ++ [61] ++ percentEncode unreserved p.2

theorem separator_notMem_piece (p : Bytes × Bytes) : 38 ∉ piece p := by
  unfold piece
  simp only [List.mem_append, List.mem_singleton, not_or]
  exact ⟨⟨(separator_notMem p.1).1, by decide⟩, (separator_notMem p.2).1⟩

theorem decodePiece_piece (p : Bytes × Bytes) : decodePiece (piece p) = some p := by
  have hkey := decide_ne_of_notMem (separator_notMem p.1).2
  have hdrop : (piece p).dropWhile (· ≠ 61) = 61 :: percentEncode unreserved p.2 := by
    unfold piece
    rw [List.append_assoc, List.dropWhile_append_of_pos hkey]
    rfl
  have htake : (piece p).takeWhile (· ≠ 61) = percentEncode unreserved p.1 := by
    unfold piece
    rw [List.append_assoc, List.takeWhile_append_of_pos hkey]
    exact List.append_nil _
  unfold decodePiece
  rw [hdrop, htake]
  dsimp only
  rw [percentDecode_encode (by decide), percentDecode_encode (by decide)]
  rfl

theorem queryLoop_eq {pairs : List (Bytes × Bytes)}
    (hseven : ∀ p ∈ pairs, (∀ c ∈ p.1, c < 128) ∧ ∀ c ∈ p.2, c < 128)
    (hshort : ∀ p ∈ pairs, p.1.length < 2 ^ 31 ∧ p.2.length < 2 ^ 31) :
    queryLoop pairs = some (pairs.flatMap fun p => piece p ++ [38]) := by
  induction pairs with
  | nil => rfl
  | cons p rest ih =>
      obtain ⟨hp, hseven⟩ := List.forall_mem_cons.mp hseven
      obtain ⟨hlen, hshort⟩ := List.forall_mem_cons.mp hshort
      unfold queryLoop
      rw [ih hseven hshort, urlencode_some hlen.1 hp.1, urlencode_some hlen.2 hp.2,
        List.flatMap_cons]
      show some (_ ++ str "=" ++ _ ++ str "&" ++ _) = some _
      rfl

/-- The last `&` is erased. -/
theorem eraseLast_flatMap {pieces : List Bytes} (hne : pieces ≠ []) :
    eraseLast (pieces.flatMap (· ++ [38])) = [38].intercalate pieces := by
  induction pieces with
  | nil => exact absurd rfl hne
  | cons p rest ih =>
      cases rest with
      | nil => simp [eraseLast]
      | cons q rest =>
          have hrest : (q :: rest).flatMap (· ++ [38]) ≠ [] := by simp
          rw [List.intercalate_cons_cons, ← ih (List.cons_ne_nil q rest), List.flatMap_cons]
          unfold eraseLast
          rw [List.dropLast_append_of_ne_nil hrest]

theorem mapM_decodePiece (pairs : List (Bytes × Bytes)) :
    (pairs.map piece).mapM decodePiece = some pairs := by
  induction pairs with
  | nil => rfl
  | cons p rest ih =>
      rw [List.map_cons, List.mapM_cons, decodePiece_piece, ih]
      rfl

/-- What the query is. -/
theorem genQueryUrl_eq {data : Dict} (hseven : SevenBit data) (hcount : Countable data) :
    genQueryUrl data = some ([38].intercalate (data.pairs.map piece)) := by
  unfold genQueryUrl
  rw [queryLoop_eq hseven hcount, Option.map_some]
  congr 1
  by_cases hnone : data.pairs = []
  · rw [hnone]
    rfl
  · rw [← eraseLast_flatMap (by simpa using hnone), List.flatMap_map]

theorem decodable {data : Dict} (hseven : SevenBit data) (hcount : Countable data) :
    Decodable data := by
  refine ⟨_, genQueryUrl_eq hseven hcount, ?_⟩
  by_cases hnone : data.pairs = []
  · rw [hnone]
    exact ⟨rfl, by simp⟩
  · have hsome : data.pairs.map piece ≠ [] := by simpa using hnone
    have hsplit : ([38].intercalate (data.pairs.map piece)).splitOn 38 = data.pairs.map piece := by
      apply List.splitOn_intercalate 38 _ hsome
      intro l hl
      obtain ⟨p, -, rfl⟩ := List.mem_map.mp hl
      exact separator_notMem_piece p
    have hquery : [38].intercalate (data.pairs.map piece) ≠ [] := by
      intro hempty
      rw [hempty] at hsplit
      -- an empty query would be one empty piece, and no piece is empty
      have hpiece : ([] : Bytes) ∈ data.pairs.map piece := by
        rw [← hsplit]
        simp
      obtain ⟨p, -, hp⟩ := List.mem_map.mp hpiece
      simp [piece] at hp
    unfold decodeQuery
    rw [if_neg hquery, hsplit]
    exact ⟨mapM_decodePiece data.pairs, iff_of_false hquery hnone⟩

/-- **Queries can be decoded**: each gives back the pairs, and two of them are the same
only for the same pairs. -/
theorem queries_decodable (data data' : Dict) (hseven : SevenBit data) (hcount : Countable data)
    (hseven' : SevenBit data') (hcount' : Countable data') :
    Decodable data ∧ (genQueryUrl data = genQueryUrl data' → data = data') := by
  have hdecodable := decodable hseven hcount
  refine ⟨hdecodable, fun hsame => ?_⟩
  obtain ⟨query, hquery, hpairs, -⟩ := hdecodable
  obtain ⟨query', hquery', hpairs', -⟩ := decodable hseven' hcount'
  rw [hquery, hquery'] at hsame
  obtain rfl := Option.some.inj hsame
  apply SortedMap.ext
  rw [hpairs] at hpairs'
  exact Option.some.inj hpairs'

/-- The characters of the syntax, in keys and in values, a NUL and an empty key. -/
def mixed : Dict :=
  ((SortedMap.empty.set (str "a&b") (str "1=%2")).set [0, 43] (str "+&")).set [] [10]

/-- Much the same characters, with the cuts at other places. -/
def recut : Dict :=
  ((SortedMap.empty.set (str "a") (str "b=1")).set (str "%2&") [0, 43]).set (str "=") []

theorem queries_decodable_mixed :
    Decodable mixed ∧ (genQueryUrl mixed = genQueryUrl recut → mixed = recut) := by
  have hseven : SevenBit mixed ∧ SevenBit recut := by
    unfold SevenBit
    decide +kernel
  have hcount : Countable mixed ∧ Countable recut := by
    unfold Countable
    decide
  exact queries_decodable mixed recut hseven.1 hcount.1 hseven.2 hcount.2

/-- A key of `2 ^ 31` letters is not counted to its end. -/
theorem query_key_too_long : ¬ ∀ data : Dict, SevenBit data → Decodable data := by
  intro hall
  have hseven : SevenBit (SortedMap.empty.set (List.replicate (2 ^ 31) 97) []) := by
    intro p hp
    obtain rfl := List.mem_singleton.mp hp
    refine ⟨fun c hc => ?_, fun c hc => nomatch hc⟩
    rw [List.eq_of_mem_replicate hc]
    decide
  obtain ⟨query, hquery, -⟩ := hall _ hseven
  have hnone : urlencode (List.replicate (2 ^ 31) 97) = none := by
    unfold urlencode
    rw [List.length_replicate, if_neg (Nat.lt_irrefl _)]
  unfold genQueryUrl at hquery
  have hloop : queryLoop (SortedMap.empty.set (List.replicate (2 ^ 31) 97) []).pairs = none := by
    show queryLoop [(List.replicate (2 ^ 31) 97, [])] = none
    unfold queryLoop
    rw [hnone]
    rfl
  rw [hloop] at hquery
  cases hquery

end Registration

end Negatus
