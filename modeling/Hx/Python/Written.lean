import Hx.Library.Decimal
import Hx.Python.Json

/-!
# What `dumps` writes is read back

The text of a header makes `loads` answer that header: each character of a string is one piece
of it, and a number ends where the comma or the brace behind it starts.
-/

namespace Hx.Python.Json

open Hx.Library

/-! ## Strings -/

theorem chr_val (c : Fin 0x110000) : chr c.val = c := Fin.ext (Nat.mod_eq_of_lt c.isLt)

theorem hexValue_hexDigits : ∀ n, n < 16 → hexValue (hexDigits.getD n (chr 0)) = some n := by decide

theorem hexRun_control {c : Fin 0x110000} (small : c.val < 0x20) (rest : Text) :
    hexRun 4 0 (chr 48 :: chr 48 :: hexDigits.getD (c.val / 16) (chr 0) ::
      hexDigits.getD (c.val % 16) (chr 0) :: rest) = some (c.val, rest) := by
  have zero : hexValue (chr 48) = some 0 := rfl
  have first := hexValue_hexDigits (c.val / 16) (by omega)
  have second := hexValue_hexDigits (c.val % 16) (by omega)
  simp only [hexRun, zero, first, second, Option.bind_some]
  congr 2
  omega

/-- A character as it is written is one piece. -/
theorem piece_escaped (c : Fin 0x110000) (rest : Text) :
    piece (escaped c ++ rest) = some (some c, rest) := by
  rw [escaped]
  split_ifs with h₁ h₂ h₃ h₄ h₅ h₆ h₇ h₈
  · obtain rfl : c = chr 34 := Fin.ext h₁
    rfl
  · obtain rfl : c = chr 92 := Fin.ext h₂
    rfl
  · obtain rfl : c = chr 10 := Fin.ext h₃
    rfl
  · obtain rfl : c = chr 13 := Fin.ext h₄
    rfl
  · obtain rfl : c = chr 9 := Fin.ext h₅
    rfl
  · obtain rfl : c = chr 12 := Fin.ext h₆
    rfl
  · obtain rfl : c = chr 8 := Fin.ext h₇
    rfl
  · have low : isHigh c = false := by
      simp only [isHigh, Bool.and_eq_false_iff, decide_eq_false_iff_not]
      omega
    show (escapePiece (chr 117 :: chr 48 :: chr 48 :: _ :: _ :: rest)).map _ = _
    have escape : (chr 117).val = 117 := rfl
    rw [escapePiece, if_pos escape, hexRun_control h₈]
    simp only [Option.map_some, chr_val, low]
    rfl
  · show piece (c :: rest) = _
    rw [piece, if_neg h₁, if_neg h₈, if_pos h₂]

theorem stringBody_written (s rest : Text) {fuel : ℕ}
    (enough : (s.flatMap escaped ++ chr 34 :: rest).length ≤ fuel) :
    stringBody fuel (s.flatMap escaped ++ chr 34 :: rest) = some (s, rest) := by
  induction s generalizing fuel with
  | nil =>
      cases fuel with
      | zero => exact absurd enough (Nat.not_succ_le_zero _)
      | succ fuel => rfl
  | cons c s ih =>
      rw [List.flatMap_cons, List.append_assoc] at enough ⊢
      have some_ : 0 < (escaped c).length := by
        rw [escaped]
        split_ifs <;> exact Nat.succ_pos _
      rw [List.length_append] at enough
      cases fuel with
      | zero => omega
      | succ fuel =>
          rw [stringBody, piece_escaped]
          simp only
          rw [ih (by omega)]
          rfl

theorem writeString_append (s rest : Text) :
    writeString s ++ rest = chr 34 :: (s.flatMap escaped ++ chr 34 :: rest) := by
  rw [writeString, List.cons_append, List.append_assoc]
  rfl

theorem string_written (s rest : Text) : string (writeString s ++ rest) = some (s, rest) := by
  rw [writeString_append]
  exact stringBody_written s rest le_rfl

/-! ## Numbers -/

theorem text_nat (n : ℕ) : text (toString n) = (decimal n).map chr := by
  have digits : (toString n).toList = Nat.toDigits 10 n := Nat.toList_repr
  rw [text, digits, decimal, List.map_map]
  rfl

/-- What follows a value: the comma or the brace behind it. -/
def Stops (rest : Text) : Prop := ∃ c more, rest = c :: more ∧ (c.val = 44 ∨ c.val = 125)

theorem isDigit_chr {d : ℕ} (bounds : 48 ≤ d ∧ d ≤ 57) : isDigit (chr d) = true := by
  have val : (chr d).val = d := Nat.mod_eq_of_lt (by omega)
  simp only [isDigit, val, Bool.and_eq_true, decide_eq_true_eq]
  exact bounds

theorem span_decimal (n : ℕ) {rest : Text} (stops : Stops rest) :
    ((decimal n).map chr ++ rest).takeWhile isDigit = (decimal n).map chr ∧
      ((decimal n).map chr ++ rest).dropWhile isDigit = rest := by
  have digits : ∀ c ∈ (decimal n).map chr, isDigit c = true := by
    intro c mem
    obtain ⟨d, inside, rfl⟩ := List.mem_map.1 mem
    exact isDigit_chr (decimal_bounds inside)
  obtain ⟨c, more, rfl, comma⟩ := stops
  have no_digit : isDigit c = false := by
    simp only [isDigit, Bool.and_eq_false_iff, decide_eq_false_iff_not]
    omega
  rw [List.takeWhile_append_of_pos digits, List.dropWhile_append_of_pos digits]
  simp [no_digit]

theorem integer_written (n : ℕ) {rest : Text} (stops : Stops rest) :
    integer ((decimal n).map chr ++ rest) = some ((decimal n).map chr, rest) := by
  obtain ⟨took, left⟩ := span_decimal n stops
  cases Nat.eq_zero_or_pos n with
  | inl zero =>
      subst zero
      rfl
  | inr pos =>
      obtain ⟨d, ds, same, no_zero⟩ := head_decimal pos
      have bounds := decimal_bounds (same ▸ List.mem_cons_self : d ∈ decimal n)
      have val : (chr d).val = d := Nat.mod_eq_of_lt (by omega)
      rw [same, List.map_cons, List.cons_append] at took left ⊢
      rw [integer, if_neg (by omega), if_pos (isDigit_chr bounds), took, left]

theorem digitsValue_written (n : ℕ) : digitsValue ((decimal n).map chr) = n := by
  rw [digitsValue, List.foldl_map]
  calc (decimal n).foldl (fun v d => v * 10 + ((chr d).val - 48)) 0 =
        (decimal n).foldl (fun v d => v * 10 + (d - 48)) 0 := by
          refine List.foldl_ext _ _ _ fun v d mem => ?_
          have bounds := decimal_bounds mem
          have val : (chr d).val = d := Nat.mod_eq_of_lt (by omega)
          rw [val]
    _ = n := value_decimal n

theorem number_written (negative : Bool) (n : ℕ) {rest : Text} (stops : Stops rest) :
    number negative ((decimal n).map chr ++ rest) =
      some (.int (if negative then -n else n), rest) := by
  obtain ⟨c, more, same, comma⟩ := id stops
  have no_fraction : fraction rest = none := by
    rw [same, fraction, expect, if_neg (by omega)]
    rfl
  have no_exponent : exponent rest = none := by
    rw [same, exponent, if_neg (by omega)]
  rw [number, integer_written n stops]
  simp only [no_fraction, no_exponent, digitsValue_written]

/-! ## Values and members -/

/-- A value that is written as a header's. -/
def Flat : Value → Prop
  | .float | .list | .dict => False
  | _ => True

theorem text_neg (n : ℕ) :
    text (toString (Int.negSucc n)) = chr 45 :: (decimal (n + 1)).map chr := by
  rw [← text_nat]
  show text ("-" ++ toString (n + 1)) = _
  rw [text, String.toList_append, List.map_append]
  rfl

theorem not_isPrefixOf {n : ℕ} {w : List (Fin n)} {d c : Fin n} (first : w.head? = some d)
    (apart : d.val ≠ c.val) (rest : List (Fin n)) : ¬ w.isPrefixOf (c :: rest) = true := by
  obtain ⟨w', rfl⟩ := List.head?_eq_some_iff.1 first
  have ne : (d == c) = false := beq_eq_false_iff_ne.2 fun same => apart (congrArg Fin.val same)
  rw [List.isPrefixOf_cons_cons, ne, Bool.false_and]
  exact Bool.false_ne_true

/-- The constants start with letters. -/
theorem scalar_digit {c : Fin 0x110000} (digit : 48 ≤ c.val ∧ c.val ≤ 57) (rest : Text) :
    scalar (c :: rest) = number false (c :: rest) := by
  have apart (n : ℕ) (other : n < 48 ∨ 57 < n) (small : n < 0x110000) : (chr n).val ≠ c.val := by
    have val : (chr n).val = n := Nat.mod_eq_of_lt small
    omega
  have none_ {w : Text} (n : ℕ) (first : w.head? = some (chr n)) (other : n < 48 ∨ 57 < n)
      (small : n < 0x110000) : ¬ w.isPrefixOf (c :: rest) = true :=
    not_isPrefixOf first (apart n other small) rest
  rw [scalar, if_neg (by omega), if_neg (none_ 110 rfl (by decide) (by decide)),
    if_neg (none_ 116 rfl (by decide) (by decide)),
    if_neg (none_ 102 rfl (by decide) (by decide)),
    if_neg (none_ 78 rfl (by decide) (by decide)),
    if_neg (none_ 73 rfl (by decide) (by decide)),
    if_neg (none_ 45 rfl (by decide) (by decide)), if_neg (by omega)]

theorem scalar_minus {c : Fin 0x110000} (digit : 48 ≤ c.val ∧ c.val ≤ 57) (rest : Text) :
    scalar (chr 45 :: c :: rest) = number true (c :: rest) := by
  have none_ {w : Text} {d : Fin 0x110000} (first : w.head? = some d) (apart : d.val ≠ 45) :
      ¬ w.isPrefixOf (chr 45 :: c :: rest) = true := not_isPrefixOf first apart _
  have infinity : ¬ (text "-Infinity").isPrefixOf (chr 45 :: c :: rest) = true := by
    have val : (chr 73).val = 73 := rfl
    exact not_isPrefixOf (w := text "Infinity") (d := chr 73) rfl (by omega) rest
  have minus : (chr 45).val = 45 := rfl
  rw [scalar, if_neg (by omega), if_neg (none_ (d := chr 110) rfl (by decide)),
    if_neg (none_ (d := chr 116) rfl (by decide)), if_neg (none_ (d := chr 102) rfl (by decide)),
    if_neg (none_ (d := chr 78) rfl (by decide)), if_neg (none_ (d := chr 73) rfl (by decide)),
    if_neg infinity, if_pos minus]

theorem scalar_written {v : Value} (flat : Flat v) {rest : Text} (stops : Stops rest) :
    scalar (writeValue v ++ rest) = some (v, rest) := by
  cases v with
  | null => rfl
  | bool b => cases b <;> rfl
  | int n =>
      have digits (n : ℕ) : ∃ d ds, decimal n = d :: ds ∧ 48 ≤ (chr d).val ∧ (chr d).val ≤ 57 := by
        cases same : decimal n with
        | nil => exact absurd same (decimal_ne_nil n)
        | cons d ds =>
            have bounds := decimal_bounds (same ▸ List.mem_cons_self : d ∈ decimal n)
            have val : (chr d).val = d := Nat.mod_eq_of_lt (by omega)
            exact ⟨d, ds, rfl, by omega⟩
      cases n with
      | ofNat n =>
          obtain ⟨d, ds, same, bounds⟩ := digits n
          show scalar (text (toString n) ++ rest) = _
          have number := number_written false n stops
          rw [same] at number
          rw [text_nat, same]
          exact (scalar_digit bounds _).trans number
      | negSucc n =>
          obtain ⟨d, ds, same, bounds⟩ := digits (n + 1)
          show scalar (text (toString (Int.negSucc n)) ++ rest) = _
          have number := number_written true (n + 1) stops
          rw [same] at number
          rw [text_neg, same]
          exact (scalar_minus bounds _).trans number
  | string s =>
      have quote : (chr 34).val = 34 := rfl
      rw [writeValue, writeString_append, scalar, if_pos quote, stringBody_written s rest le_rfl]
      rfl
  | float => exact flat.elim
  | list => exact flat.elim
  | dict => exact flat.elim

theorem isSpace_eq_false {c : Fin 0x110000} (large : 32 < c.val) : isSpace c = false := by
  simp only [isSpace, List.contains_eq_mem, List.mem_cons, List.not_mem_nil, or_false,
    decide_eq_false_iff_not]
  omega

/-- What a written value starts with: neither a blank nor a bracket. -/
theorem head_writeValue {v : Value} (flat : Flat v) :
    ∃ c more, writeValue v = c :: more ∧ isSpace c = false ∧ c.val ≠ 123 ∧ c.val ≠ 91 := by
  cases v with
  | null => exact ⟨chr 110, text "ull", rfl, rfl, by decide, by decide⟩
  | bool b =>
      cases b
      · exact ⟨chr 102, text "alse", rfl, rfl, by decide, by decide⟩
      · exact ⟨chr 116, text "rue", rfl, rfl, by decide, by decide⟩
  | int n =>
      cases n with
      | ofNat n =>
          cases same : decimal n with
          | nil => exact absurd same (decimal_ne_nil n)
          | cons d ds =>
              have bounds := decimal_bounds (same ▸ List.mem_cons_self : d ∈ decimal n)
              have val : (chr d).val = d := Nat.mod_eq_of_lt (by omega)
              refine ⟨chr d, ds.map chr, ?_, ?_, by omega, by omega⟩
              · show text (toString n) = _
                rw [text_nat, same]
                rfl
              · exact isSpace_eq_false (by omega)
      | negSucc n => exact ⟨chr 45, _, text_neg n, rfl, by decide, by decide⟩
  | string s => exact ⟨chr 34, _, rfl, rfl, by decide, by decide⟩
  | float => exact flat.elim
  | list => exact flat.elim
  | dict => exact flat.elim

theorem ws_cons {c : Fin 0x110000} (no_space : isSpace c = false) (rest : Text) :
    ws (c :: rest) = c :: rest := by
  rw [ws, List.dropWhile_cons, no_space]
  rfl

theorem value_scalar {c : Fin 0x110000} (no_object : c.val ≠ 123) (no_array : c.val ≠ 91)
    (fuel : ℕ) (rest : Text) : value (fuel + 1) (c :: rest) = scalar (c :: rest) := by
  rw [value, if_neg no_object, if_neg no_array]

theorem value_written {v : Value} (flat : Flat v) {rest : Text} (stops : Stops rest) (fuel : ℕ) :
    value (fuel + 1) (ws (writeValue v ++ rest)) = some (v, rest) := by
  obtain ⟨c, more, same, no_space, no_object, no_array⟩ := head_writeValue flat
  rw [← scalar_written flat stops, same, List.cons_append, ws_cons no_space,
    value_scalar no_object no_array]

theorem writeMore_stops (pairs : Dict) (rest : Text) :
    ∃ c more, writeMore pairs ++ chr 125 :: rest = c :: more ∧ isSpace c = false ∧
      (c.val = 44 ∨ c.val = 125) := by
  cases pairs with
  | nil => exact ⟨_, _, rfl, rfl, .inr rfl⟩
  | cons p pairs => exact ⟨_, _, rfl, rfl, .inl rfl⟩

/-- The members behind a brace, as they are written. -/
theorem members_written {pairs : Dict} (flat : ∀ p ∈ pairs, Flat p.2) (some_ : pairs ≠ [])
    (rest : Text) {fuel : ℕ} (enough : pairs.length < fuel) :
    members fuel (writeMembers pairs ++ chr 125 :: rest) = some (pairs, rest) := by
  induction pairs generalizing fuel with
  | nil => exact absurd rfl some_
  | cons p pairs ih =>
      obtain ⟨key, v⟩ := p
      obtain ⟨fuel, rfl⟩ : ∃ n, fuel = n + 2 :=
        ⟨fuel - 2, by rw [List.length_cons] at enough; omega⟩
      obtain ⟨c, more, same, no_space, stop⟩ := writeMore_stops pairs rest
      have text_ : writeMembers ((key, v) :: pairs) ++ chr 125 :: rest =
          writeString key ++ chr 58 :: (writeValue v ++ c :: more) := by
        rw [writeMembers, List.append_assoc, same, List.append_assoc]
        rfl
      have colon : (chr 58).val = 58 := rfl
      rw [text_, members, string_written]
      simp only
      rw [ws_cons rfl, expect, if_pos colon]
      simp only
      rw [value_written (flat _ List.mem_cons_self) ⟨c, more, rfl, stop⟩]
      simp only
      rw [ws_cons no_space]
      simp only
      cases pairs with
      | nil =>
          obtain ⟨rfl, rfl⟩ := List.cons.inj same
          rfl
      | cons q pairs =>
          obtain ⟨rfl, rfl⟩ := List.cons.inj same
          obtain ⟨k, w⟩ := q
          have left : ((k, w) :: pairs).length < fuel + 1 := by
            rw [List.length_cons] at enough
            omega
          have next := ih (fun p mem => flat p (List.mem_cons_of_mem _ mem))
            (List.cons_ne_nil _ _) left
          have blank : ws (writeMembers ((k, w) :: pairs) ++ chr 125 :: rest) =
              writeMembers ((k, w) :: pairs) ++ chr 125 :: rest := ws_cons rfl _
          have comma : (chr 44).val = 44 := rfl
          rw [if_neg (by omega), if_pos comma]
          show (members (fuel + 1)
            (ws (writeMembers ((k, w) :: pairs) ++ chr 125 :: rest))).map _ = _
          rw [blank, next]
          rfl

/-- The members take at least a character each. -/
theorem length_le_writeMore (pairs : Dict) : pairs.length ≤ (writeMore pairs).length := by
  induction pairs with
  | nil => exact le_rfl
  | cons p pairs ih =>
      obtain ⟨key, v⟩ := p
      rw [writeMore, List.length_cons, List.length_append, List.length_cons]
      omega

/-- What is written of a header is read as that header. -/
theorem loads_dumps {pairs : Dict} (flat : ∀ p ∈ pairs, Flat p.2) :
    loads (dumps pairs) = some (some pairs) := by
  have brace : (chr 123).val = 123 := rfl
  have text_ : dumps pairs = chr 123 :: (writeMembers pairs ++ chr 125 :: []) := rfl
  rw [text_, loads, ws_cons rfl]
  simp only
  rw [if_pos brace]
  cases pairs with
  | nil => rfl
  | cons p pairs =>
      obtain ⟨key, v⟩ := p
      have size : ((key, v) :: pairs).length + 1 <
          fuelFor (chr 123 :: (writeMembers ((key, v) :: pairs) ++ [chr 125])) := by
        have more := length_le_writeMore pairs
        rw [fuelFor, writeMembers, List.length_cons, List.length_cons, List.length_append,
          List.length_append]
        omega
      obtain ⟨fuel, same⟩ := Nat.exists_eq_add_one.2 (Nat.zero_lt_of_lt size)
      rw [same] at size ⊢
      have blank : ws (writeMembers ((key, v) :: pairs) ++ [chr 125]) =
          writeMembers ((key, v) :: pairs) ++ [chr 125] := ws_cons rfl _
      have first : expect 125 (writeMembers ((key, v) :: pairs) ++ [chr 125]) = none := rfl
      rw [object, blank, first]
      simp only
      rw [members_written flat (List.cons_ne_nil _ _) [] (by omega)]
      rfl

end Hx.Python.Json
