import Mathlib.Algebra.GroupWithZero.Nat
import Mathlib.Data.List.Basic

/-!
# Java characters and strings

A `char` is a 16-bit code unit and a `String` is a list of them, so that unpaired
surrogates and every index of the source stay expressible. Literals are written
with `js`, which is meant for text without supplementary characters.
-/

namespace Hx.Java

instance neZero_units : NeZero 65536 := ⟨Nat.succ_ne_zero 65535⟩

/-- One UTF-16 code unit. -/
abbrev JChar := Fin 65536

instance lawfulBEq_units : LawfulBEq JChar := inferInstance

/-- A Java `String` as its code units. -/
abbrev JString := List JChar

/-- A literal of the source. -/
def js (s : String) : JString := s.toList.map fun c => Fin.ofNat 65536 c.toNat

/-- A character literal of the source. -/
def ch (c : Char) : JChar := Fin.ofNat 65536 c.toNat

/-- `Character.isWhitespace(char)`: the space, line and paragraph separators that
are not no-break spaces, and the nine control characters Java adds. -/
def isWhitespace (c : JChar) : Bool :=
  (0x09 ≤ c.val && c.val ≤ 0x0d) || (0x1c ≤ c.val && c.val ≤ 0x20) || c.val == 0x1680 ||
  (0x2000 ≤ c.val && c.val ≤ 0x2006) || (0x2008 ≤ c.val && c.val ≤ 0x200a) ||
  c.val == 0x2028 || c.val == 0x2029 || c.val == 0x205f || c.val == 0x3000

/-- `String.isBlank()`. No supplementary code point is white space, so the test is
one code unit at a time. -/
def isBlank (s : JString) : Bool := s.all isWhitespace

/-- `Character.digit(char, 10)`: a table of the JVM, fixed on ASCII. -/
structure DigitMap where
  digit : JChar → Option Nat
  ascii : ∀ c, 0x30 ≤ c.val → c.val ≤ 0x39 → digit c = some (c.val - 0x30)

/-- The table that knows the ASCII digits alone. -/
def basicDigits : DigitMap where
  digit c := if 0x30 ≤ c.val ∧ c.val ≤ 0x39 then some (c.val - 0x30) else none
  ascii _ low high := if_pos ⟨low, high⟩

end Hx.Java
