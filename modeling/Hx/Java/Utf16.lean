import Hx.Java.Case
import Hx.Library.Utf8

/-!
# Strings as texts

`utf16` is a text as a `String`. `points` is a `String` as the text it is written to bytes as:
a surrogate outside a pair is a question mark there. On texts without surrogates the second
undoes the first, and the strings the first undoes the second on are those whose surrogates are
all in pairs.
-/

namespace Hx.Java

open Hx.Library

def utf16 (t : Text) : JString := t.flatMap units

/-- A unit that is no half of a pair, as the encoder has it. -/
def single (c : JChar) : CodePoint :=
  if isHighSurrogate c || isLowSurrogate c then chr 63 else codePoint c

def points : JString → Text
  | [] => []
  | [c] => [single c]
  | high :: low :: rest =>
      if isHighSurrogate high && isLowSurrogate low then pairPoint high low :: points rest
      else single high :: points (low :: rest)

/-- `getBytes(UTF_8)`. -/
def getBytes (s : JString) : List UInt8 := utf8Bytes (points s)

/-- `new String(bytes, UTF_8)`. What malformed bytes are replaced by is the decoder's own. -/
def newString (malformed : List UInt8 → JString) (bytes : List UInt8) : JString :=
  match utf8Decode bytes with
  | some t => utf16 t
  | none => malformed bytes

/-- Every surrogate is in a pair. -/
def WellFormed (s : JString) : Prop := utf16 (points s) = s

@[simp] theorem utf16_nil : utf16 [] = [] := rfl

@[simp] theorem utf16_cons (c : CodePoint) (t : Text) : utf16 (c :: t) = units c ++ utf16 t := rfl

@[simp] theorem utf16_append (s t : Text) : utf16 (s ++ t) = utf16 s ++ utf16 t :=
  List.flatMap_append

/-! ## Units -/

theorem units_small {c : CodePoint} (small : c.val < 0x10000) :
    units c = [Fin.ofNat 65536 c.val] := if_pos small

theorem units_large {c : CodePoint} (large : ¬ c.val < 0x10000) :
    units c = [Fin.ofNat 65536 (0xd800 + (c.val - 0x10000) / 0x400),
      Fin.ofNat 65536 (0xdc00 + (c.val - 0x10000) % 0x400)] := if_neg large

theorem isHighSurrogate_iff {c : JChar} :
    isHighSurrogate c = true ↔ 0xd800 ≤ c.val ∧ c.val ≤ 0xdbff := by
  simp only [isHighSurrogate, Bool.and_eq_true, decide_eq_true_eq]

theorem isLowSurrogate_iff {c : JChar} :
    isLowSurrogate c = true ↔ 0xdc00 ≤ c.val ∧ c.val ≤ 0xdfff := by
  simp only [isLowSurrogate, Bool.and_eq_true, decide_eq_true_eq]

theorem isScalar_iff {c : CodePoint} :
    isScalar c = true ↔ c.val < 0xd800 ∨ 0xe000 ≤ c.val := by
  simp only [isScalar, Bool.or_eq_true, decide_eq_true_eq]

theorem val_unit {n : ℕ} (small : n < 65536) : (Fin.ofNat 65536 n).val = n :=
  Nat.mod_eq_of_lt small

theorem units_codePoint (c : JChar) : units (codePoint c) = [c] := by
  rw [units_small c.isLt]
  exact congrArg (fun u => [u]) (Fin.ext (val_unit c.isLt))

/-- The halves of a pair are the units of its code point. -/
theorem mem_units {c : CodePoint} {d : JChar} (mem : d ∈ units c) :
    (c.val < 0x10000 ∧ d.val = c.val) ∨ (0x10000 ≤ c.val ∧ 0xd800 ≤ d.val ∧ d.val ≤ 0xdfff) := by
  have bound := c.isLt
  by_cases small : c.val < 0x10000
  · rw [units_small small, List.mem_singleton] at mem
    rw [mem]
    exact .inl ⟨small, val_unit small⟩
  · rw [units_large small] at mem
    obtain rfl | mem := List.mem_cons.1 mem
    · rw [val_unit (by omega)]
      omega
    · rw [List.mem_singleton] at mem
      rw [mem, val_unit (by omega)]
      omega

theorem units_pairPoint {high low : JChar} (isHigh : isHighSurrogate high = true)
    (isLow : isLowSurrogate low = true) : units (pairPoint high low) = [high, low] := by
  rw [isHighSurrogate_iff] at isHigh
  rw [isLowSurrogate_iff] at isLow
  have val : (pairPoint high low).val =
      0x10000 + (high.val - 0xd800) * 0x400 + (low.val - 0xdc00) :=
    Nat.mod_eq_of_lt (by omega)
  rw [units_large (by omega), val]
  have first : Fin.ofNat 65536 (0xd800 +
      (0x10000 + (high.val - 0xd800) * 0x400 + (low.val - 0xdc00) - 0x10000) / 0x400) = high :=
    Fin.ext (by rw [val_unit (by omega)]; omega)
  have second : Fin.ofNat 65536 (0xdc00 +
      (0x10000 + (high.val - 0xd800) * 0x400 + (low.val - 0xdc00) - 0x10000) % 0x400) = low :=
    Fin.ext (by rw [val_unit (by omega)]; omega)
  rw [first, second]

/-- The units of a supplementary code point are the halves of a pair that is its own. -/
theorem exists_pair {c : CodePoint} (large : ¬ c.val < 0x10000) : ∃ high low,
    units c = [high, low] ∧ isHighSurrogate high = true ∧ isLowSurrogate low = true ∧
      pairPoint high low = c := by
  have bound := c.isLt
  have first : (Fin.ofNat 65536 (0xd800 + (c.val - 0x10000) / 0x400)).val =
      0xd800 + (c.val - 0x10000) / 0x400 := val_unit (by omega)
  have second : (Fin.ofNat 65536 (0xdc00 + (c.val - 0x10000) % 0x400)).val =
      0xdc00 + (c.val - 0x10000) % 0x400 := val_unit (by omega)
  refine ⟨_, _, units_large large, isHighSurrogate_iff.2 (by omega),
    isLowSurrogate_iff.2 (by omega), ?_⟩
  apply Fin.ext
  rw [pairPoint, first, second]
  show (_ : ℕ) % 0x110000 = c.val
  omega

theorem isScalar_pairPoint {high low : JChar} (isHigh : isHighSurrogate high = true)
    (isLow : isLowSurrogate low = true) : isScalar (pairPoint high low) = true := by
  rw [isHighSurrogate_iff] at isHigh
  rw [isLowSurrogate_iff] at isLow
  have val : (pairPoint high low).val =
      0x10000 + (high.val - 0xd800) * 0x400 + (low.val - 0xdc00) :=
    Nat.mod_eq_of_lt (by omega)
  rw [isScalar_iff, val]
  omega

theorem isScalar_single (c : JChar) : isScalar (single c) = true := by
  rw [single]
  by_cases surrogate : (isHighSurrogate c || isLowSurrogate c) = true
  · rw [if_pos surrogate]
    rfl
  · rw [if_neg surrogate]
    rw [Bool.or_eq_true, isHighSurrogate_iff, isLowSurrogate_iff] at surrogate
    have val : (codePoint c).val = c.val := rfl
    rw [isScalar_iff, val]
    omega

/-! ## Strings -/

theorem points_pair {high low : JChar} (isHigh : isHighSurrogate high = true)
    (isLow : isLowSurrogate low = true) (rest : JString) :
    points (high :: low :: rest) = pairPoint high low :: points rest := by
  rw [points, if_pos (by rw [isHigh, isLow]; rfl)]

theorem points_cons {c : JChar} {rest : JString}
    (unpaired : isHighSurrogate c = false ∨ rest.head?.any isLowSurrogate = false) :
    points (c :: rest) = single c :: points rest := by
  cases rest with
  | nil => rfl
  | cons d rest =>
      have apart : ¬ (isHighSurrogate c && isLowSurrogate d) = true := by
        rw [Bool.and_eq_true]
        rintro ⟨isHigh, isLow⟩
        cases unpaired with
        | inl no_high => exact Bool.false_ne_true (no_high.symm.trans isHigh)
        | inr no_low => exact Bool.false_ne_true (no_low.symm.trans isLow)
      rw [points, if_neg apart]

theorem scalars_points (s : JString) : Scalars (points s) := by
  induction s using points.induct with
  | case1 => exact fun c mem => absurd mem List.not_mem_nil
  | case2 c =>
      rw [points]
      exact scalars_cons.2 ⟨isScalar_single c, fun c mem => absurd mem List.not_mem_nil⟩
  | case3 high low rest pair ih =>
      rw [Bool.and_eq_true] at pair
      rw [points_pair pair.1 pair.2]
      exact scalars_cons.2 ⟨isScalar_pairPoint pair.1 pair.2, ih⟩
  | case4 high low rest apart ih =>
      rw [points, if_neg apart]
      exact scalars_cons.2 ⟨isScalar_single high, ih⟩

/-- A string may be cut in front of what is no low surrogate. -/
theorem points_append {s t : JString} (cut : t.head?.any isLowSurrogate = false) :
    points (s ++ t) = points s ++ points t := by
  induction s using points.induct with
  | case1 => rfl
  | case2 c => exact points_cons (.inr cut)
  | case3 high low rest pair ih =>
      rw [Bool.and_eq_true] at pair
      rw [List.cons_append, List.cons_append, points_pair pair.1 pair.2,
        points_pair pair.1 pair.2, ih]
      rfl
  | case4 high low rest apart ih =>
      rw [List.cons_append] at ih
      rw [List.cons_append, List.cons_append, points, if_neg apart, points, if_neg apart, ih]
      rfl

/-- A text without surrogates is read back from the string it makes. -/
theorem points_utf16_append {t : Text} (scalars : Scalars t) (s : JString) :
    points (utf16 t ++ s) = t ++ points s := by
  induction t with
  | nil => rfl
  | cons c t ih =>
      obtain ⟨scalar, scalars⟩ := scalars_cons.1 scalars
      rw [isScalar_iff] at scalar
      rw [utf16_cons, List.append_assoc, List.cons_append, ← ih scalars]
      by_cases small : c.val < 0x10000
      · have val := val_unit small
        have no_high : isHighSurrogate (Fin.ofNat 65536 c.val) = false := by
          rw [Bool.eq_false_iff, ne_eq, isHighSurrogate_iff, val]
          omega
        have no_low : isLowSurrogate (Fin.ofNat 65536 c.val) = false := by
          rw [Bool.eq_false_iff, ne_eq, isLowSurrogate_iff, val]
          omega
        have point : single (Fin.ofNat 65536 c.val) = c := by
          rw [single, no_high, no_low]
          exact Fin.ext val
        rw [units_small small, List.singleton_append, points_cons (.inl no_high), point]
      · obtain ⟨high, low, halves, isHigh, isLow, point⟩ := exists_pair small
        rw [halves, List.cons_append, List.singleton_append, points_pair isHigh isLow, point]

theorem points_utf16 {t : Text} (scalars : Scalars t) : points (utf16 t) = t := by
  have whole := points_utf16_append scalars []
  rw [List.append_nil] at whole
  rw [whole]
  exact List.append_nil t

theorem wellFormed_utf16 {t : Text} (scalars : Scalars t) : WellFormed (utf16 t) := by
  rw [WellFormed, points_utf16 scalars]

end Hx.Java
