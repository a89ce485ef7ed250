import Negatus.Foundations.SortedMap
import Negatus.Strings

/-!
# `Registration.cpp`

The query that the agent registers with, and the reader of its `.ini` file. The
build is one whose `char` is signed, as with `g++` on x86.
-/

namespace Negatus

open Foundations

instance : Std.Trichotomous fun a b : Bytes => a < b := inferInstance

instance : Trans (fun a b : Bytes => a < b) (fun a b => a < b) (fun a b => a < b) := inferInstance

abbrev Dict : Type := SortedMap Bytes Bytes

namespace Registration

/-! ## Queries -/

def isAlpha (c : UInt8) : Bool :=
  (48 ≤ c && c ≤ 57) || (97 ≤ c && c ≤ 122) || (65 ≤ c && c ≤ 90)

def isAllowedChar (c : UInt8) : Bool := c = 46 || c = 45 || c = 95 || c = 126

/-- `sprintf(hex, "%02X", c)`: the character is promoted to an `int` with its sign, and
the `int` printed as an `unsigned`. -/
def hexText (c : UInt8) : Bytes :=
  let n := c.toInt8.toInt32.toUInt32.toNat
  let digits := (Nat.toDigits 16 n).map fun d => UInt8.ofNat d.toUpper.toNat
  List.replicate (2 - digits.length) 48 ++ digits

def urlencodeChar (c : UInt8) : Option Bytes :=
  if isAlpha c || isAllowedChar c then some [c]
  else
    let hex := hexText c
    if hex.length + 1 ≤ 3 then some (str "%" ++ hex) else none     -- `char hex[3]`

def urlencodeLoop : Bytes → Option Bytes
  | [] => some []
  | c :: rest => do
      let code ← urlencodeChar c
      let codes ← urlencodeLoop rest
      return code ++ codes

def urlencode (plain : Bytes) : Option Bytes :=
  -- `++i` overflows at `INT_MAX`
  if plain.length < 2 ^ 31 then urlencodeLoop plain else none

def queryLoop : List (Bytes × Bytes) → Option Bytes
  | [] => some []
  | it :: rest => do
      let first ← urlencode it.1
      let second ← urlencode it.2
      let buf ← queryLoop rest
      return first ++ str "=" ++ second ++ str "&" ++ buf

def genQueryUrl (data : Dict) : Option Bytes := (queryLoop data.pairs).map eraseLast

/-! ## The `.ini` file -/

/-- `find` of a character -/
def find (c : UInt8) (s : Bytes) : Option Nat := s.findIdx? (· = c)

/-- `find_last_of` a character -/
def findLastOf (c : UInt8) (s : Bytes) : Option Nat :=
  (s.reverse.findIdx? (· = c)).map (s.length - 1 - ·)

def substr (s : Bytes) (pos len : Nat) : Bytes := (s.drop pos).take len

/-- What the loop of `read_ini` works on. -/
structure IniReader where
  data : SortedMap Bytes Dict
  c_section : Bytes := []

/-- `data[c_section][name] = value;` -/
def IniReader.store (r : IniReader) (name value : Bytes) : IniReader :=
  let section_ := (r.data.get? r.c_section).getD .empty
  { r with data := r.data.set r.c_section (section_.set name value) }

/-- The body of the loop, for one buffer of `fgets`; `none` is `return false`. -/
def readBuf (r : IniReader) (buf : Bytes) : Option IniReader :=
  let line := trim (cstr buf)
  if line = [] then some r
  else if line.head? = some 35 then some r
  else if line.head? = some 91 then
    match findLastOf 93 line with
    | none => none
    | some idx =>
        let c_section := trim (substr line 1 (idx - 1))
        some { data := r.data.set c_section .empty, c_section }
  else
    match find 61 line with
    | none => some r
    | some idx =>
        some (r.store (trim (substr line 0 idx)) (trim (line.drop (idx + 1))))

/-- `while (fgets(buf, 1024, f))`, over the buffers it sees. -/
def readLoop (r : IniReader) : List Bytes → Bool × IniReader
  | [] => (true, r)
  | buf :: bufs =>
      match readBuf r buf with
      | none => (false, r)
      | some r => readLoop r bufs

/-- `read_ini`, with what `fopen` finds. -/
def readIni (file : Option Bytes) (data : SortedMap Bytes Dict) :
    Bool × SortedMap Bytes Dict :=
  match file with
  | none => (false, data)
  | some content =>
      let (ok, r) := readLoop { data } (fgetsBufs content)
      (ok, r.data)

end Registration

end Negatus
