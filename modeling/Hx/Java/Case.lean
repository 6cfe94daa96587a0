import Hx.Java.Text
import Mathlib.Tactic.SplitIfs

/-!
# Code points and the simple lower-case mapping

`Character.toLowerCase(int)` is the Unicode table of the JVM that runs the program, so
it is a structure: the mapping and the laws every version of that table keeps. `lower`
folds one code point at a time, as `Policy.lower` does; an unpaired surrogate is a code
point of its own.
-/

namespace Hx.Java

/-- What `String.codePointAt` answers. -/
abbrev CodePoint := Fin 0x110000

def isHighSurrogate (c : JChar) : Bool := 0xd800 ≤ c.val && c.val ≤ 0xdbff

def isLowSurrogate (c : JChar) : Bool := 0xdc00 ≤ c.val && c.val ≤ 0xdfff

/-- A code unit that is no half of a pair, as a code point. -/
def codePoint (c : JChar) : CodePoint := ⟨c.val, by omega⟩

/-- The code point of a pair; outside the surrogate ranges the value is not used. -/
def pairPoint (high low : JChar) : CodePoint :=
  Fin.ofNat 0x110000 (0x10000 + (high.val - 0xd800) * 0x400 + (low.val - 0xdc00))

/-- `StringBuilder.appendCodePoint`. -/
def units (cp : CodePoint) : JString :=
  if cp.val < 0x10000 then [Fin.ofNat 65536 cp.val]
  else [Fin.ofNat 65536 (0xd800 + (cp.val - 0x10000) / 0x400),
    Fin.ofNat 65536 (0xdc00 + (cp.val - 0x10000) % 0x400)]

/-- The ASCII part of the mapping. -/
def lowerAscii (n : Nat) : Nat := if 0x41 ≤ n ∧ n ≤ 0x5a then n + 0x20 else n

/-- The simple lower-case mapping. It stays in its plane, it is idempotent, it is the
usual one on ASCII, and what it sends into ASCII from outside are letters. -/
structure CaseMap where
  toLowerCase : CodePoint → CodePoint
  plane : ∀ c, (toLowerCase c).val / 0x10000 = c.val / 0x10000
  idempotent : ∀ c, toLowerCase (toLowerCase c) = toLowerCase c
  ascii : ∀ c, c.val < 0x80 → (toLowerCase c).val = lowerAscii c.val
  letters : ∀ c, 0x80 ≤ c.val → (toLowerCase c).val < 0x80 →
    0x61 ≤ (toLowerCase c).val ∧ (toLowerCase c).val ≤ 0x7a

variable (U : CaseMap)

/-- The case fold of the policy. Its early-out answers what the loop would build. -/
def lower : JString → JString
  | [] => []
  | [c] => units (U.toLowerCase (codePoint c))
  | high :: low :: rest =>
      if isHighSurrogate high && isLowSurrogate low then
        units (U.toLowerCase (pairPoint high low)) ++ lower rest
      else units (U.toLowerCase (codePoint high)) ++ lower (low :: rest)

variable {U}

theorem units_codePoint_length (c : JChar) : (units (U.toLowerCase (codePoint c))).length = 1 := by
  have plane := U.plane (codePoint c)
  have small : (codePoint c).val < 0x10000 := c.isLt
  unfold units
  rw [if_pos (by omega)]
  rfl

theorem length_lower_le (s : JString) : (lower U s).length ≤ s.length := by
  induction s using lower.induct with
  | case1 => simp [lower]
  | case2 c => simp [lower, units_codePoint_length]
  | case3 high low rest pair ih =>
      rw [lower, if_pos pair, List.length_append]
      have two : (units (U.toLowerCase (pairPoint high low))).length ≤ 2 := by
        unfold units
        split <;> simp
      simp only [List.length_cons]
      omega
  | case4 high low rest single ih =>
      rw [lower, if_neg single, List.length_append, units_codePoint_length]
      simp only [List.length_cons] at ih ⊢
      omega

theorem lowerAscii_lt {n : Nat} (small : n < 0x80) : lowerAscii n < 0x80 := by
  unfold lowerAscii
  split <;> omega

/-- An ASCII character folds by itself, whatever follows it. -/
theorem lower_cons_ascii {c : JChar} (small : c.val < 0x80) (rest : JString) :
    lower U (c :: rest) = Fin.ofNat 65536 (lowerAscii c.val) :: lower U rest := by
  have value : (U.toLowerCase (codePoint c)).val = lowerAscii c.val := U.ascii (codePoint c) small
  have unit : units (U.toLowerCase (codePoint c)) = [Fin.ofNat 65536 (lowerAscii c.val)] := by
    have bound := lowerAscii_lt small
    rw [units, value, if_pos (by omega)]
  have single : isHighSurrogate c = false := by
    simp only [isHighSurrogate, Bool.and_eq_false_iff, decide_eq_false_iff_not]
    omega
  cases rest with
  | nil => simp [lower, unit]
  | cons low rest => simp [lower, single, unit]

/-- An ASCII character is no half of a pair, so the fold of a string splits in front of
one. -/
theorem lower_append_ascii {c : JChar} (small : c.val < 0x80) (s rest : JString) :
    lower U (s ++ c :: rest) = lower U s ++ lower U (c :: rest) := by
  have unpaired : isLowSurrogate c = false := by
    simp only [isLowSurrogate, Bool.and_eq_false_iff, decide_eq_false_iff_not]
    omega
  induction s using lower.induct with
  | case1 => simp [lower]
  | case2 d => simp [lower, unpaired]
  | case3 high low s pair ih =>
      rw [List.cons_append, List.cons_append, lower, if_pos pair, ih, lower, if_pos pair,
        List.append_assoc]
  | case4 high low s single ih =>
      rw [List.cons_append] at ih
      rw [List.cons_append, List.cons_append, lower, if_neg single, ih, lower, if_neg single,
        List.append_assoc]

/-- A mapping that folds the ASCII capitals, the Kelvin sign and the dotted capital I, and
nothing else. -/
def basicLower (n : Nat) : Nat :=
  if n = 0x212a then 0x6b else if n = 0x130 then 0x69 else lowerAscii n

def basicCase : CaseMap where
  toLowerCase c := ⟨basicLower c.val, by
    unfold basicLower lowerAscii
    split_ifs <;> omega⟩
  plane c := by
    simp only [basicLower, lowerAscii]
    split_ifs <;> omega
  idempotent c := by
    ext
    simp only [basicLower, lowerAscii]
    split_ifs <;> omega
  ascii c small := by
    simp only [basicLower]
    split_ifs <;> omega
  letters c large := by
    simp only [basicLower, lowerAscii]
    split_ifs <;> omega

end Hx.Java
