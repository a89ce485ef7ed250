import Mathlib.Data.List.Basic

/-!
# Percent-encoding

A byte that is not literal is written as `%` and its two hexadecimal digits. Which
bytes are literal is left open, but for the `%` itself, which has to be encoded:
then decoding gives the text back.
-/

namespace Foundations

def percent : UInt8 := 37

/-- The upper-case digit of a number below 16. -/
def hexDigit (n : Nat) : UInt8 := UInt8.ofNat (if n < 10 then 48 + n else 55 + n)

def isUpperHex (c : UInt8) : Bool := (48 ≤ c && c ≤ 57) || (65 ≤ c && c ≤ 70)

def hexValue (c : UInt8) : Option Nat :=
  if 48 ≤ c ∧ c ≤ 57 then some (c.toNat - 48)
  else if 65 ≤ c ∧ c ≤ 70 then some (c.toNat - 55)
  else if 97 ≤ c ∧ c ≤ 102 then some (c.toNat - 87)
  else none

def percentByte (literal : UInt8 → Bool) (c : UInt8) : List UInt8 :=
  if literal c then [c] else [percent, hexDigit (c.toNat / 16), hexDigit (c.toNat % 16)]

def percentEncode (literal : UInt8 → Bool) (s : List UInt8) : List UInt8 :=
  s.flatMap (percentByte literal)

/-- A `%` without two digits behind it means nothing. -/
def percentDecode : List UInt8 → Option (List UInt8)
  | [] => some []
  | c :: hi :: lo :: rest =>
      if c = percent then do
        let high ← hexValue hi
        let low ← hexValue lo
        let more ← percentDecode rest
        return UInt8.ofNat (16 * high + low) :: more
      else (percentDecode (hi :: lo :: rest)).map (c :: ·)
  | c :: rest => if c = percent then none else (percentDecode rest).map (c :: ·)

/-- Literal bytes, and triplets of `%` and two upper-case digits. -/
inductive PercentEncoded (literal : UInt8 → Bool) : List UInt8 → Prop
  | nil : PercentEncoded literal []
  | literal {c : UInt8} {s : List UInt8} (hc : literal c = true) (hs : PercentEncoded literal s) :
      PercentEncoded literal (c :: s)
  | triplet {hi lo : UInt8} {s : List UInt8} (hhi : isUpperHex hi = true)
      (hlo : isUpperHex lo = true) (hs : PercentEncoded literal s) :
      PercentEncoded literal (percent :: hi :: lo :: s)

variable {literal : UInt8 → Bool} {c : UInt8} {s t : List UInt8}

/-! ## Digits -/

theorem hexDigit_upper {n : Nat} (h : n < 16) : isUpperHex (hexDigit n) = true := by
  revert n
  decide

theorem hexValue_hexDigit {n : Nat} (h : n < 16) : hexValue (hexDigit n) = some n := by
  revert n
  decide

theorem byte_of_digits (c : UInt8) : UInt8.ofNat (16 * (c.toNat / 16) + c.toNat % 16) = c := by
  rw [Nat.div_add_mod, UInt8.ofNat_toNat]

theorem high_lt (c : UInt8) : c.toNat / 16 < 16 := by
  have hc := c.toNat_lt
  omega

theorem low_lt (c : UInt8) : c.toNat % 16 < 16 := Nat.mod_lt _ (by decide)

/-! ## The code -/

@[simp] theorem percentEncode_nil : percentEncode literal [] = [] := rfl

theorem percentEncode_cons (c : UInt8) (s : List UInt8) :
    percentEncode literal (c :: s) = percentByte literal c ++ percentEncode literal s :=
  List.flatMap_cons

theorem percentEncoded_append (hs : PercentEncoded literal s) (ht : PercentEncoded literal t) :
    PercentEncoded literal (s ++ t) := by
  induction hs with
  | nil => exact ht
  | literal hc hs ih => exact .literal hc ih
  | triplet hhi hlo hs ih => exact .triplet hhi hlo ih

theorem percentEncoded_byte (c : UInt8) : PercentEncoded literal (percentByte literal c) := by
  unfold percentByte
  split
  · rename_i hc
    exact .literal hc .nil
  · exact .triplet (hexDigit_upper (high_lt c)) (hexDigit_upper (low_lt c)) .nil

theorem percentEncoded_encode (s : List UInt8) :
    PercentEncoded literal (percentEncode literal s) := by
  induction s with
  | nil => exact .nil
  | cons c s ih =>
      rw [percentEncode_cons]
      exact percentEncoded_append (percentEncoded_byte c) ih

/-- What there is in an encoded text. -/
theorem PercentEncoded.mem (h : PercentEncoded literal s) (hc : c ∈ s) :
    literal c = true ∨ c = percent ∨ isUpperHex c = true := by
  induction h with
  | nil => cases hc
  | literal hb hs ih =>
      rcases List.mem_cons.mp hc with rfl | hc
      · exact Or.inl hb
      · exact ih hc
  | triplet hhi hlo hs ih =>
      rcases List.mem_cons.mp hc with rfl | hc
      · exact Or.inr (Or.inl rfl)
      rcases List.mem_cons.mp hc with rfl | hc
      · exact Or.inr (Or.inr hhi)
      rcases List.mem_cons.mp hc with rfl | hc
      · exact Or.inr (Or.inr hlo)
      · exact ih hc

/-- A byte that is not a `%` stands for itself. -/
theorem percentDecode_cons (hc : c ≠ percent) (s : List UInt8) :
    percentDecode (c :: s) = (percentDecode s).map (c :: ·) := by
  rcases s with _ | ⟨hi, _ | ⟨lo, s⟩⟩
  · simp [percentDecode, hc]
  · simp [percentDecode, hc]
  · rw [percentDecode, if_neg hc]

/-- One byte is decoded, whatever comes behind it. -/
theorem percentDecode_byte (hpercent : literal percent = false) (c : UInt8) (s : List UInt8) :
    percentDecode (percentByte literal c ++ s) = (percentDecode s).map (c :: ·) := by
  unfold percentByte
  split
  · rename_i hc
    apply percentDecode_cons
    rintro rfl
    rw [hpercent] at hc
    cases hc
  · show percentDecode (percent :: _ :: _ :: s) = _
    rw [percentDecode, if_pos rfl, hexValue_hexDigit (high_lt c), hexValue_hexDigit (low_lt c)]
    cases percentDecode s with
    | none => rfl
    | some more =>
        show some (_ :: more) = some (c :: more)
        rw [byte_of_digits]

/-- **Decoding gives the text back.** -/
theorem percentDecode_encode (hpercent : literal percent = false) (s : List UInt8) :
    percentDecode (percentEncode literal s) = some s := by
  induction s with
  | nil => rfl
  | cons c s ih => rw [percentEncode_cons, percentDecode_byte hpercent, ih, Option.map_some]

end Foundations
