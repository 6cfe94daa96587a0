import Mathlib.Data.Nat.Basic

/-!
# The decimal digits of a number

They are digits, at least one, and the first of several is no zero.
-/

namespace Hx.Library

theorem digit_bounds {c : Char} (digit : c.isDigit = true) : 48 ≤ c.toNat ∧ c.toNat ≤ 57 := by
  simpa [Char.isDigit, UInt32.le_iff_toNat_le] using digit

/-- `toDigits` to the base ten, as the numbers of its characters. -/
def decimal (n : ℕ) : List ℕ := (Nat.toDigits 10 n).map Char.toNat

theorem decimal_ne_nil (n : ℕ) : decimal n ≠ [] :=
  fun none_ => Nat.toDigits_ne_nil (List.map_eq_nil_iff.1 none_)

theorem decimal_bounds {n d : ℕ} (mem : d ∈ decimal n) : 48 ≤ d ∧ d ≤ 57 := by
  obtain ⟨c, inside, rfl⟩ := List.mem_map.1 mem
  exact digit_bounds (Nat.isDigit_of_mem_toDigits (by decide) (by decide) inside)

theorem decimal_of_lt {n : ℕ} (small : n < 10) : decimal n = [48 + n] := by
  rw [decimal, Nat.toDigits_of_lt_base small, List.map_singleton,
    Nat.toNat_digitChar_of_lt_ten small]

theorem decimal_of_le {n : ℕ} (large : 10 ≤ n) :
    decimal n = decimal (n / 10) ++ [48 + n % 10] := by
  rw [decimal, Nat.toDigits_of_base_le (by decide) large, List.map_append, List.map_singleton,
    Nat.toNat_digitChar_of_lt_ten (Nat.mod_lt n (by decide))]
  rfl

/-- A number of more than one digit does not start with zero. -/
theorem head_decimal {n : ℕ} (pos : 0 < n) : ∃ d rest, decimal n = d :: rest ∧ d ≠ 48 := by
  induction n using Nat.strong_induction_on with
  | _ n ih =>
      by_cases small : n < 10
      · exact ⟨48 + n, [], decimal_of_lt small, by omega⟩
      · obtain ⟨d, rest, same, no_zero⟩ := ih (n / 10) (by omega) (by omega)
        refine ⟨d, rest ++ [48 + n % 10], ?_, no_zero⟩
        rw [decimal_of_le (by omega), same]
        rfl

/-- The digits have the value of the number. -/
theorem value_decimal (n : ℕ) : (decimal n).foldl (fun v d => v * 10 + (d - 48)) 0 = n := by
  induction n using Nat.strong_induction_on with
  | _ n ih =>
      by_cases small : n < 10
      · rw [decimal_of_lt small]
        show 0 * 10 + (48 + n - 48) = n
        omega
      · rw [decimal_of_le (by omega), List.foldl_append, ih (n / 10) (by omega)]
        show n / 10 * 10 + (48 + n % 10 - 48) = n
        omega

/-! ## The text of an integer -/

theorem repr_injective {m n : ℕ} (same : m.repr = n.repr) : m = n := by
  have digits : Nat.toDigits 10 m = Nat.toDigits 10 n := by
    rw [← Nat.toList_repr, same, Nat.toList_repr]
  calc m = Nat.ofDigitChars 10 (Nat.toDigits 10 m) 0 := Nat.ofDigitChars_ten_toDigits.symm
    _ = Nat.ofDigitChars 10 (Nat.toDigits 10 n) 0 := by rw [digits]
    _ = n := Nat.ofDigitChars_ten_toDigits

theorem isDigit_of_mem_repr {n : ℕ} {c : Char} (mem : c ∈ n.repr.toList) : c.isDigit = true := by
  rw [Nat.toList_repr] at mem
  exact Nat.isDigit_of_mem_toDigits (by decide) (by decide) mem

/-- An integer is written with digits, and a sign in front of them when it is negative. -/
theorem toList_toString (n : ℤ) :
    (toString n).toList = if 0 ≤ n then n.toNat.repr.toList else '-' :: n.natAbs.repr.toList := by
  cases n with
  | ofNat n => rfl
  | negSucc n =>
      show ("-" ++ Nat.repr (n + 1)).toList = _
      rw [String.toList_append]
      rfl

theorem mem_toString {n : ℤ} {c : Char} (mem : c ∈ (toString n).toList) :
    c.isDigit = true ∨ c = '-' := by
  rw [toList_toString] at mem
  split at mem
  · exact .inl (isDigit_of_mem_repr mem)
  · obtain rfl | digit := List.mem_cons.1 mem
    · exact .inr rfl
    · exact .inl (isDigit_of_mem_repr digit)

theorem toString_ne_nil (n : ℤ) : (toString n).toList ≠ [] := by
  rw [toList_toString]
  split
  · rw [Nat.toList_repr]
    exact Nat.toDigits_ne_nil
  · exact List.cons_ne_nil _ _

/-- There is a digit in it. -/
theorem toString_ne_sign (n : ℤ) : (toString n).toList ≠ ['-'] := by
  intro same
  rw [toList_toString] at same
  split at same
  · have sign : '-' ∈ n.toNat.repr.toList := by
      rw [same]
      exact List.mem_cons_self
    exact absurd (isDigit_of_mem_repr sign) (by decide)
  · rw [Nat.toList_repr] at same
    exact Nat.toDigits_ne_nil (List.cons_inj_right _ |>.1 same)

theorem toString_injective {m n : ℤ} (same : toString m = toString n) : m = n := by
  have text := congrArg String.toList same
  have sign : ∀ (k l : ℕ), k.repr.toList ≠ '-' :: l.repr.toList := by
    intro k l equal
    have sign : '-' ∈ k.repr.toList := by
      rw [equal]
      exact List.mem_cons_self
    exact absurd (isDigit_of_mem_repr sign) (by decide)
  rw [toList_toString, toList_toString] at text
  split_ifs at text with low low' low'
  · have digits := repr_injective (String.toList_injective text)
    omega
  · exact absurd text (sign _ _)
  · exact absurd text.symm (sign _ _)
  · have digits := repr_injective (String.toList_injective (List.cons_inj_right _ |>.1 text))
    omega

end Hx.Library
