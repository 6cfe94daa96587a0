import Hx.Bridge.Json
import Hx.Java.Utf16
import Hx.Python.Written

/-!
# What the extension writes, as the harness would write it

The bytes of a header are those of a text, and that text is what `dumps` writes of the header
with its strings read as texts.
-/

namespace Hx.Bridge

open Hx.Java Hx.Library

/-- A value of the extension as the harness has it. -/
def spelled : Value → Python.Json.Value
  | .null => .null
  | .bool b => .bool b
  | .long n => .int n.toInt
  | .string s => .string (points s)

def spelledItem (item : JString × Value) : Text × Python.Json.Value :=
  (points item.1, spelled item.2)

/-- All characters of a literal are ASCII. -/
def ascii (w : String) : Bool := w.toList.all fun c => c.toNat < 0x80

theorem points_cons_ascii {c : JChar} (small : c.val < 0x80) (rest : JString) :
    points (c :: rest) = codePoint c :: points rest := by
  have no_high : isHighSurrogate c = false := by
    rw [Bool.eq_false_iff, ne_eq, isHighSurrogate_iff]
    omega
  have no_low : isLowSurrogate c = false := by
    rw [Bool.eq_false_iff, ne_eq, isLowSurrogate_iff]
    omega
  rw [points_cons (.inl no_high), single, no_high, no_low]
  rfl

theorem points_js {w : String} (all : ascii w = true) (rest : JString) :
    points (js w ++ rest) = text w ++ points rest := by
  have go : ∀ cs : List Char, (cs.all fun c => c.toNat < 0x80) = true →
      points (cs.map (fun c => Fin.ofNat 65536 c.toNat) ++ rest) =
        cs.map (fun c => chr c.toNat) ++ points rest := by
    intro cs
    induction cs with
    | nil => exact fun _ => rfl
    | cons c cs ih =>
        intro all
        rw [List.all_cons, Bool.and_eq_true, decide_eq_true_eq] at all
        have val := val_unit (n := c.toNat) (by omega)
        have same : codePoint (Fin.ofNat 65536 c.toNat) = chr c.toNat := by
          apply Fin.ext
          rw [val_chr, Nat.mod_eq_of_lt (by omega)]
          exact val
        rw [List.map_cons, List.cons_append, points_cons_ascii (by omega), ih all.2, same]
        rfl
  exact go w.toList all

theorem ascii_int (n : ℤ) : ascii (toString n) = true := by
  have digits (n : ℕ) : ∀ c ∈ (toString n).toList, c.toNat < 0x80 := by
    intro c mem
    have inside : c ∈ Nat.toDigits 10 n := (Nat.toList_repr : (toString n).toList = _) ▸ mem
    have bounds := digit_bounds (Nat.isDigit_of_mem_toDigits (by decide) (by decide) inside)
    omega
  rw [ascii, List.all_eq_true]
  intro c mem
  rw [decide_eq_true_eq]
  cases n with
  | ofNat n => exact digits n c mem
  | negSucc n =>
      have whole : (toString (Int.negSucc n)).toList = '-' :: (toString (n + 1)).toList :=
        String.toList_append
      rw [whole, List.mem_cons] at mem
      cases mem with
      | inl minus => exact minus ▸ (by decide)
      | inr inside => exact digits (n + 1) c inside

/-! ## Strings -/

theorem escaped_self {c : JChar} (large : 0x80 ≤ c.val) : Json.escaped c = [c] := by
  have ne {d : JChar} (small : d.val < 0x80) : c ≠ d := fun same => by
    subst same
    omega
  rw [Json.escaped, if_neg (ne (by decide)), if_neg (ne (by decide)), if_neg (ne (by decide)),
    if_neg (ne (by decide)), if_neg (ne (by decide)), if_neg (by omega), if_neg (by omega),
    if_neg (by omega)]

theorem escaped_point_self {c : CodePoint} (large : 0x80 ≤ c.val) :
    Python.Json.escaped c = [c] := by
  rw [Python.Json.escaped, if_neg (by omega), if_neg (by omega), if_neg (by omega),
    if_neg (by omega), if_neg (by omega), if_neg (by omega), if_neg (by omega),
    if_neg (by omega)]

theorem hexDigit_point : ∀ n, n < 16 →
    (Json.hexDigits.getD n 0).val < 0x80 ∧
      codePoint (Json.hexDigits.getD n 0) = Python.Json.hexDigits.getD n (chr 0) := by decide

/-- An ASCII character is escaped alike. -/
theorem points_escaped {c : JChar} (small : c.val < 0x80) (rest : JString) :
    points (Json.escaped c ++ rest) = Python.Json.escaped (codePoint c) ++ points rest := by
  have val : (codePoint c).val = c.val := rfl
  have ne {d : JChar} (n : ℕ) (is : d.val = n) (apart : ¬ c = d) : ¬ c.val = n := fun same =>
    apart (Fin.ext (same.trans is.symm))
  rw [Json.escaped]
  split_ifs with h₁ h₂ h₃ h₄ h₅ h₆ h₇ h₈
  · subst h₁
    exact points_js rfl rest
  · subst h₂
    exact points_js rfl rest
  · subst h₃
    exact points_js rfl rest
  · subst h₄
    exact points_js rfl rest
  · subst h₅
    exact points_js rfl rest
  · obtain rfl : c = 8 := Fin.ext h₆
    exact points_js rfl rest
  · obtain rfl : c = 12 := Fin.ext h₇
    exact points_js rfl rest
  · obtain ⟨small₁, first⟩ := hexDigit_point (c.val / 16) (by omega)
    obtain ⟨small₂, second⟩ := hexDigit_point (c.val % 16) (by omega)
    rw [Python.Json.escaped, val, if_neg (ne 34 rfl h₁), if_neg (ne 92 rfl h₂),
      if_neg (ne 10 rfl h₃), if_neg (ne 13 rfl h₄), if_neg (ne 9 rfl h₅), if_neg h₇, if_neg h₆,
      if_pos h₈, Json.controlEscape, List.append_assoc, points_js rfl, Python.Json.controlEscape, val, ← first, ← second, List.append_assoc]
    show _ ++ points (_ :: _ :: rest) = _
    rw [points_cons_ascii small₁, points_cons_ascii small₂]
    rfl
  · rw [Python.Json.escaped, val, if_neg (ne 34 rfl h₁), if_neg (ne 92 rfl h₂),
      if_neg (ne 10 rfl h₃), if_neg (ne 13 rfl h₄), if_neg (ne 9 rfl h₅), if_neg h₇, if_neg h₆,
      if_neg h₈]
    exact points_cons_ascii small rest

theorem head_escaped (c : JChar) (rest : JString) :
    ∃ d more, Json.escaped c ++ rest = d :: more ∧ (d = c ∨ d.val < 0x80) := by
  by_cases large : 0x80 ≤ c.val
  · exact ⟨c, rest, by rw [escaped_self large]; rfl, .inl rfl⟩
  · rw [Json.escaped]
    split_ifs
    all_goals first
      | exact ⟨_, _, rfl, .inr (by decide)⟩
      | exact ⟨_, _, rfl, .inl rfl⟩

theorem isLowSurrogate_eq_false {c : JChar} (small : c.val < 0x80) :
    isLowSurrogate c = false := by
  rw [Bool.eq_false_iff, ne_eq, isLowSurrogate_iff]
  omega

/-- A string is written as its text is. -/
theorem points_flatMap_escaped (s : JString) {rest : JString}
    (cut : rest.head?.any isLowSurrogate = false) :
    points (s.flatMap Json.escaped ++ rest) =
      (points s).flatMap Python.Json.escaped ++ points rest := by
  have one (c : JChar) {more : JString}
      (apart : isHighSurrogate c = false ∨ more.head?.any isLowSurrogate = false) :
      points (Json.escaped c ++ more) = Python.Json.escaped (single c) ++ points more := by
    by_cases small : c.val < 0x80
    · have no_high : isHighSurrogate c = false := by
        rw [Bool.eq_false_iff, ne_eq, isHighSurrogate_iff]
        omega
      rw [points_escaped small, single, no_high, isLowSurrogate_eq_false small]
      rfl
    · rw [escaped_self (by omega), List.singleton_append, points_cons apart]
      have plain : Python.Json.escaped (single c) = [single c] := by
        rw [single]
        split_ifs
        · rfl
        · exact escaped_point_self (Nat.not_lt.1 small)
      rw [plain]
      rfl
  induction s using points.induct with
  | case1 => rfl
  | case2 c =>
      rw [List.flatMap_singleton, one c (.inr cut), points, List.flatMap_singleton]
  | case3 high low s pair ih =>
      rw [Bool.and_eq_true] at pair
      have isHigh := isHighSurrogate_iff.1 pair.1
      have isLow := isLowSurrogate_iff.1 pair.2
      have large : 0x80 ≤ (pairPoint high low).val := by
        have val : (pairPoint high low).val =
            0x10000 + (high.val - 0xd800) * 0x400 + (low.val - 0xdc00) :=
          Nat.mod_eq_of_lt (by omega)
        omega
      rw [points_pair pair.1 pair.2, List.flatMap_cons, List.flatMap_cons, List.flatMap_cons,
        escaped_self (by omega), escaped_self (by omega), escaped_point_self large]
      show points (high :: low :: (s.flatMap Json.escaped ++ rest)) = _
      rw [points_pair pair.1 pair.2, ih]
      rfl
  | case4 high low s apart ih =>
      have next : isHighSurrogate high = false ∨
          ((low :: s).flatMap Json.escaped ++ rest).head?.any isLowSurrogate = false := by
        cases isHigh : isHighSurrogate high with
        | false => exact .inl rfl
        | true =>
            rw [isHigh, Bool.true_and] at apart
            rw [List.flatMap_cons, List.append_assoc]
            obtain ⟨d, more, same, which⟩ := head_escaped low (s.flatMap Json.escaped ++ rest)
            rw [same]
            cases which with
            | inl eq => exact .inr (by rw [eq]; exact Bool.eq_false_iff.2 apart)
            | inr small => exact .inr (isLowSurrogate_eq_false small)
      rw [List.flatMap_cons, List.append_assoc, one high next, ih, points,
        if_neg apart, List.flatMap_cons, List.append_assoc]

theorem points_writeString (s : JString) (rest : JString) :
    points (Json.writeString s ++ rest) =
      Python.Json.writeString (points s) ++ points rest := by
  show points (ch '"' :: (s.flatMap Json.escaped ++ [ch '"'] ++ rest)) = _
  have quote : (ch '"').val < 0x80 := by decide
  rw [points_cons_ascii quote, List.append_assoc, points_flatMap_escaped]
  · show _ :: (_ ++ points (ch '"' :: rest)) = _
    rw [points_cons_ascii quote, Python.Json.writeString_append]
    rfl
  · rfl

/-! ## Headers -/

theorem points_writeValue (v : Value) (rest : JString) :
    points (Json.writeValue v ++ rest) =
      Python.Json.writeValue (spelled v) ++ points rest := by
  cases v with
  | null => exact points_js rfl rest
  | bool b => cases b <;> exact points_js rfl rest
  | long n => exact points_js (ascii_int n.toInt) rest
  | string s => exact points_writeString s rest

theorem points_item (key : JString) (v : Value) (rest : JString) :
    points (Json.writeString key ++ ch ':' :: Json.writeValue v ++ rest) =
      Python.Json.writeString (points key) ++ chr 58 :: Python.Json.writeValue (spelled v) ++
        points rest := by
  have colon : (ch ':').val < 0x80 := by decide
  rw [List.append_assoc, points_writeString, List.cons_append, points_cons_ascii colon,
    points_writeValue, List.append_assoc]
  rfl

theorem points_writeMore (pairs : Header) (rest : JString) :
    points (Json.writeMore pairs ++ rest) =
      Python.Json.writeMore (pairs.map spelledItem) ++ points rest := by
  induction pairs with
  | nil => rfl
  | cons p pairs ih =>
      obtain ⟨key, v⟩ := p
      have comma : (ch ',').val < 0x80 := by decide
      rw [Json.writeMore, List.cons_append, List.cons_append, points_cons_ascii comma,
        List.append_assoc, points_item, ih, List.map_cons, Python.Json.writeMore, spelledItem]
      simp only [List.cons_append, List.append_assoc]
      rfl

/-- The text of the bytes the extension writes of a header. -/
theorem points_write (pairs : Header) :
    points (Json.write pairs) = Python.Json.dumps (pairs.map spelledItem) := by
  have opening : (ch '\x7b').val < 0x80 := by decide
  have closing : (ch '\x7d').val < 0x80 := by decide
  have last : points [ch '\x7d'] = [chr 125] := points_cons_ascii closing []
  rw [Json.write, points_cons_ascii opening]
  cases pairs with
  | nil =>
      show _ :: points [ch '\x7d'] = _
      rw [last]
      rfl
  | cons p pairs =>
      obtain ⟨key, v⟩ := p
      rw [Json.writeMembers, List.append_assoc, points_item, points_writeMore, last]
      rw [List.map_cons, Python.Json.dumps, spelledItem, Python.Json.writeMembers]
      simp only [List.cons_append, List.append_assoc]
      rfl

end Hx.Bridge
