import Mathlib.Data.List.DropRight
import Mathlib.Data.List.Infix

/-!
# Python text and bytes

A `str` is a list of characters where the code looks inside it and a `String` where it
is only carried. `lower` is `str.lower` as far as ASCII can tell: besides the capitals,
the Kelvin sign and the dotted capital I are the only characters whose lower case has an
ASCII letter in it, and no other character's lower case is ASCII.
-/

namespace Hx.Python

abbrev Bytes := List UInt8

/-- `s.encode("ascii")`, for the text the checks search for. -/
def ascii (s : String) : Bytes := s.toList.map fun c => UInt8.ofNat c.toNat

/-- `b.decode("latin-1")`. -/
def latin1 (b : Bytes) : List Char := b.map fun x => Char.ofNat x.toNat

/-- `needle in hay`, for `bytes` and for `str`. -/
def contains {α : Type} [DecidableEq α] (needle hay : List α) : Bool := decide (needle <:+: hay)

def lowerChar (c : Char) : List Char :=
  if c = '\u212a' then ['k']
  else if c = '\u0130' then ['i', '\u0307']
  else if 'A' ≤ c ∧ c ≤ 'Z' then [Char.ofNat (c.toNat + 32)]
  else [c]

def lower (s : List Char) : List Char := s.flatMap lowerChar

/-- `str.isspace` of one character. -/
def isSpace (c : Char) : Bool :=
  let n := c.toNat
  (0x09 ≤ n && n ≤ 0x0d) || (0x1c ≤ n && n ≤ 0x20) || n == 0x85 || n == 0xa0 || n == 0x1680 ||
  (0x2000 ≤ n && n ≤ 0x200a) || n == 0x2028 || n == 0x2029 || n == 0x202f || n == 0x205f ||
  n == 0x3000

def strip (s : List Char) : List Char := (s.dropWhile isSpace).rdropWhile isSpace

/-- `s.partition(sep)` for one character: what is before it, and what is after if it is
there at all. -/
def partition {α : Type} [DecidableEq α] (sep : α) (s : List α) : List α × Option (List α) :=
  match s.span (· ≠ sep) with
  | (before, []) => (before, none)
  | (before, _ :: after) => (before, some after)

/-- The last part of `s.rpartition(sep)`. -/
def afterLast {α : Type} [DecidableEq α] (sep : α) (s : List α) : List α :=
  s.rtakeWhile (· ≠ sep)

def hexDigit (n : Nat) : Char := if n < 10 then Char.ofNat (48 + n) else Char.ofNat (55 + n)

/-- The characters `quote` leaves alone. -/
def unreserved (x : UInt8) : Bool :=
  (48 ≤ x && x ≤ 57) || (65 ≤ x && x ≤ 90) || (97 ≤ x && x ≤ 122) || x == 45 || x == 46 ||
  x == 95 || x == 126

/-- `urllib.parse.quote(s, safe="")`. -/
def quote (s : String) : String :=
  String.ofList <| s.toUTF8.data.toList.flatMap fun x =>
    if unreserved x then [Char.ofNat x.toNat]
    else ['%', hexDigit (x.toNat / 16), hexDigit (x.toNat % 16)]

/-- `s.encode("latin-1")` answers rather than raises. -/
def isLatin1 (s : String) : Bool := s.toList.all fun c => c.toNat < 256

end Hx.Python
