import Hx.Java.Text

/-!
# Longs

A `long` is an `Int64`: sums, differences and products wrap. Where the exact result fits
64 bits, they are what they are on integers. `parseLong` reads an optional sign and the
decimal digits of the JVM's table.
-/

namespace Hx.Java

/-! ## Texts -/

/-- `String.strip()`; white space has no supplementary code point. -/
def JString.strip (s : JString) : JString :=
  ((s.dropWhile isWhitespace).reverse.dropWhile isWhitespace).reverse

/-- The number the digits write, the most significant one first. -/
def digitsFrom (D : DigitMap) (n : Nat) : JString → Option Nat
  | [] => some n
  | c :: rest => (D.digit c).bind fun d => digitsFrom D (n * 10 + d) rest

/-- At least one digit, and digits only. -/
def digits (D : DigitMap) (s : JString) : Option Nat := if s = [] then none else digitsFrom D 0 s

/-- The number the digits write, where it is within the limit. -/
def magnitude (D : DigitMap) (limit : Nat) (s : JString) : Option Nat :=
  (digits D s).bind fun n => if n ≤ limit then some n else none

/-- `Long.parseLong`, where `none` is the NumberFormatException. -/
def parseLong (D : DigitMap) : JString → Option Int64
  | [] => none
  | first :: rest =>
      if first = ch '-' then
        (magnitude D 9223372036854775808 rest).map fun n => Int64.ofInt (-n)
      else if first = ch '+' then (magnitude D 9223372036854775807 rest).map Int64.ofNat
      else if first.val < 0x30 then none
      else (magnitude D 9223372036854775807 (first :: rest)).map Int64.ofNat

def longText (n : Int64) : JString := js (toString n)

/-! ## Arithmetic -/

/-- The integer is a `long`. -/
def Fits (n : Int) : Prop := -9223372036854775808 ≤ n ∧ n ≤ 9223372036854775807

theorem fits_toInt (a : Int64) : Fits a.toInt := ⟨a.le_toInt, Int.le_of_lt_add_one a.toInt_lt⟩

theorem bmod_of_fits {n : Int} (fits : Fits n) : n.bmod (2 ^ 64) = n := by
  obtain ⟨low, high⟩ := fits
  apply Int.bmod_eq_of_le
  · exact low
  · exact Int.lt_add_one_of_le high

variable {a b : Int64}

theorem toInt_add_fits (fits : Fits (a.toInt + b.toInt)) : (a + b).toInt = a.toInt + b.toInt := by
  rw [Int64.toInt_add, bmod_of_fits fits]

theorem toInt_sub_fits (fits : Fits (a.toInt - b.toInt)) : (a - b).toInt = a.toInt - b.toInt := by
  rw [Int64.toInt_sub, bmod_of_fits fits]

theorem toInt_mul_fits (fits : Fits (a.toInt * b.toInt)) : (a * b).toInt = a.toInt * b.toInt := by
  rw [Int64.toInt_mul, bmod_of_fits fits]

/-- The quotient of a `long` that is not negative by a positive one. -/
theorem toInt_div_of_pos (nonneg : 0 ≤ a.toInt) (pos : 0 < b.toInt) :
    (a / b).toInt = a.toInt / b.toInt := by
  have fits : Fits (a.toInt.tdiv b.toInt) := by
    rw [Int.tdiv_eq_ediv_of_nonneg nonneg]
    have low := Int.ediv_nonneg nonneg (Int.le_of_lt pos)
    have high := Int.ediv_le_self b.toInt nonneg
    exact ⟨Int.le_trans (by decide) low, Int.le_trans high (fits_toInt a).2⟩
  rw [Int64.toInt_div, bmod_of_fits fits, Int.tdiv_eq_ediv_of_nonneg nonneg]

theorem toInt_max : (max a b).toInt = max a.toInt b.toInt := by
  have max_ : max a b = if a ≤ b then b else a := rfl
  rw [max_]
  split
  · rename_i le
    exact (Int.max_eq_right (Int64.le_iff_toInt_le.1 le)).symm
  · rename_i gt
    exact (Int.max_eq_left (Int.le_of_lt (Int64.lt_iff_toInt_lt.1 (Int64.not_le.1 gt)))).symm

end Hx.Java
