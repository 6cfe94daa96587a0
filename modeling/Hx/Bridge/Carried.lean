import Hx.Bridge.Dialects
import Hx.Python.Written

/-!
# A header the harness reads, in the extension

Where every member of a header is one a header may hold, the overwritten ones among them, the
extension reads the members the harness does.
-/

namespace Hx.Bridge

open Hx.Java Hx.Library

/-- A value of the harness as the extension has it. -/
def carried : Python.Json.Value → Value
  | .bool b => .bool b
  | .int n => .long (Int64.ofInt n)
  | .string s => .string (utf16 s)
  | .null | .float | .list | .dict => .null

def carriedItem (item : Text × Python.Json.Value) : JString × Value :=
  (utf16 item.1, carried item.2)

/-- A value that a header may hold. -/
def Held : Python.Json.Value → Prop
  | .null | .bool _ => True
  | .int n => -9223372036854775808 ≤ n ∧ n ≤ 9223372036854775807
  | .string s => Scalars s
  | .float | .list | .dict => False

/-- A member that a header may hold and that has bytes. -/
def HeldItem (item : Text × Python.Json.Value) : Prop := Scalars item.1 ∧ Held item.2

/-! ## Numbers -/

/-- What follows a value in a header. -/
def Ends (rest : Text) : Prop :=
  ∃ c more, rest = c :: more ∧ (Python.Json.isSpace c = true ∨ c.val = 44 ∨ c.val = 125)

theorem isSpace_iff {c : CodePoint} :
    Python.Json.isSpace c = true ↔ c.val = 9 ∨ c.val = 10 ∨ c.val = 13 ∨ c.val = 32 := by
  simp only [Python.Json.isSpace, List.contains_eq_mem, List.mem_cons, List.not_mem_nil, or_false,
    decide_eq_true_eq]

theorem isDigit_iff {c : CodePoint} :
    Python.Json.isDigit c = true ↔ 48 ≤ c.val ∧ c.val ≤ 57 := by
  simp only [Python.Json.isDigit, Bool.and_eq_true, decide_eq_true_eq]

theorem integer_some {t digits rest : Text}
    (read : Python.Json.integer t = some (digits, rest)) :
    t = digits ++ rest ∧ digits ≠ [] ∧ (∀ c ∈ digits, Python.Json.isDigit c = true) ∧
      (1 < digits.length → ∀ c ∈ digits.head?, c.val ≠ 48) := by
  cases t with
  | nil => cases read
  | cons c t =>
      rw [Python.Json.integer] at read
      split_ifs at read with zero digit
      · cases read
        refine ⟨rfl, List.cons_ne_nil _ _, ?_, fun long => absurd long (lt_irrefl 1)⟩
        intro d mem
        rw [List.mem_singleton.1 mem, isDigit_iff]
        omega
      · obtain ⟨rfl, rfl⟩ := Prod.mk.inj (Option.some.inj read)
        have head : ((c :: t).takeWhile Python.Json.isDigit).head? = some c := by
          rw [List.takeWhile_cons, digit]
          rfl
        refine ⟨(List.takeWhile_append_dropWhile).symm, ?_, ?_, fun _ d mem => ?_⟩
        · intro none_
          rw [none_] at head
          cases head
        · exact fun d mem => List.mem_takeWhile_imp mem
        · rw [head] at mem
          cases mem
          exact zero

theorem number_int {negative : Bool} {t rest : Text} {n : ℤ}
    (read : Python.Json.number negative t = some (.int n, rest)) :
    ∃ digits, Python.Json.integer t = some (digits, rest) ∧
      n = if negative then -(Python.Json.digitsValue digits : ℤ)
        else (Python.Json.digitsValue digits : ℤ) := by
  rw [Python.Json.number] at read
  cases whole : Python.Json.integer t with
  | none =>
      rw [whole] at read
      cases read
  | some p =>
      obtain ⟨digits, more⟩ := p
      rw [whole] at read
      simp only at read
      cases point : Python.Json.fraction more with
      | some _ =>
          rw [point] at read
          cases read
      | none =>
          rw [point] at read
          simp only at read
          cases power : Python.Json.exponent more with
          | some _ =>
              rw [power] at read
              cases read
          | none =>
              rw [power] at read
              obtain ⟨value, rfl⟩ := Prod.mk.inj (Option.some.inj read)
              exact ⟨digits, rfl, (Python.Json.Value.int.inj value).symm⟩

/-- Digits have the same value to both. -/
theorem digitsFrom_utf16 (D : DigitMap) {digits : Text}
    (all : ∀ c ∈ digits, Python.Json.isDigit c = true) (n : ℕ) :
    digitsFrom D n (utf16 digits) =
      some (digits.foldl (fun n c => n * 10 + (c.val - 48)) n) := by
  induction digits generalizing n with
  | nil => rfl
  | cons c digits ih =>
      have digit := isDigit_iff.1 (all c List.mem_cons_self)
      have val := val_unit (n := c.val) (by omega)
      rw [utf16_cons, units_small (by omega), List.singleton_append, digitsFrom,
        D.ascii _ (by omega) (by omega), Option.bind_some, val,
        ih fun d mem => all d (List.mem_cons_of_mem _ mem)]
      rfl

theorem utf16_digits_ne {digits : Text} (some_ : digits ≠ []) : utf16 digits ≠ [] := by
  cases digits with
  | nil => exact absurd rfl some_
  | cons c digits =>
      obtain ⟨u, -, -, text_⟩ | ⟨-, high, low, -, -, -, text_⟩ := utf16_cons_cases c digits
      all_goals
        rw [text_]
        exact List.cons_ne_nil _ _

theorem magnitude_utf16 (D : DigitMap) {digits : Text} (some_ : digits ≠ [])
    (all : ∀ c ∈ digits, Python.Json.isDigit c = true) {limit : ℕ}
    (fits : Python.Json.digitsValue digits ≤ limit) :
    magnitude D limit (utf16 digits) = some (Python.Json.digitsValue digits) := by
  rw [magnitude, Java.digits, if_neg (utf16_digits_ne some_), digitsFrom_utf16 D all]
  exact if_pos fits

variable (D : Json.Digits)

/-- Where the digits end for the harness they end for the extension. -/
theorem span_utf16 {digits rest : Text} (all : ∀ c ∈ digits, Python.Json.isDigit c = true)
    (ends : Ends rest) :
    (utf16 (digits ++ rest)).takeWhile (Json.isDigit D) = utf16 digits ∧
      (utf16 (digits ++ rest)).dropWhile (Json.isDigit D) = utf16 rest := by
  have digit : ∀ u ∈ utf16 digits, Json.isDigit D u = true := by
    intro u mem
    obtain ⟨c, inside, unit⟩ := List.mem_flatMap.1 mem
    have bounds := isDigit_iff.1 (all c inside)
    have val := val_unit (n := c.val) (by omega)
    rw [units_small (by omega), List.mem_singleton] at unit
    rw [Json.isDigit, unit, D.ascii _ (by omega) (by omega)]
    rfl
  obtain ⟨c, more, rfl, comma⟩ := ends
  rw [isSpace_iff] at comma
  have stop : Json.isDigit D (Fin.ofNat 65536 c.val) = false := by
    have val := val_unit (n := c.val) (by omega)
    rw [Json.isDigit, D.others _ (by omega) (by omega)]
    rfl
  rw [utf16_append, List.takeWhile_append_of_pos digit, List.dropWhile_append_of_pos digit,
    utf16_cons, units_small (by omega), List.singleton_append, List.takeWhile_cons, stop,
    List.dropWhile_cons, stop]
  simp

/-- A number that fits is read alike. -/
theorem number_utf16 {negative : Bool} {t rest : Text} {n : ℤ}
    (read : Python.Json.number negative t = some (.int n, rest)) (ends : Ends rest)
    (fits : Held (.int n)) :
    Json.number D (if negative then [ch '-'] else []) (utf16 t) =
      some (.long (Int64.ofInt n), utf16 rest) := by
  obtain ⟨digits, whole, value⟩ := number_int read
  obtain ⟨rfl, some_, all, zero⟩ := integer_some whole
  obtain ⟨took, left⟩ := span_utf16 D all ends
  obtain ⟨c, ds, rfl⟩ : ∃ c ds, digits = c :: ds := by
    cases digits with
    | nil => exact absurd rfl some_
    | cons c ds => exact ⟨c, ds, rfl⟩
  have digit := isDigit_iff.1 (all c List.mem_cons_self)
  obtain ⟨low, high⟩ := fits
  obtain ⟨u, same, -, text_⟩ | ⟨large, -⟩ := utf16_cons_cases c ds
  · have no_point : ¬ (utf16 rest).head?.any (fun c => c = ch '.' ∨ c = ch 'e' ∨ c = ch 'E') =
        true := by
      obtain ⟨d, more, rfl, comma⟩ := ends
      rw [isSpace_iff] at comma
      have val := val_unit (n := d.val) (by omega)
      rw [utf16_cons, units_small (by omega)]
      show ¬ decide (_ ∨ _ ∨ _) = true
      rw [decide_eq_true_eq, Fin.ext_iff, Fin.ext_iff, Fin.ext_iff, val]
      have point : (ch '.').val = 46 := rfl
      have e : (ch 'e').val = 101 := rfl
      have E : (ch 'E').val = 69 := rfl
      omega
    have no_zero : ¬ (1 < (utf16 (c :: ds)).length ∧ (utf16 (c :: ds)).head? = some (ch '0')) := by
      rintro ⟨long, first⟩
      rw [text_] at long first
      have is : u.val = 48 := congrArg Fin.val (Option.some.inj first)
      cases ds with
      | nil => exact absurd long (lt_irrefl 1)
      | cons d ds => exact zero (by simp) c rfl (same.symm.trans is)
    rw [Json.number]
    simp only [took, left]
    rw [if_neg (utf16_digits_ne some_), if_neg no_point, if_neg no_zero]
    cases negative with
    | true =>
        rw [if_pos rfl] at value
        rw [if_pos rfl, List.singleton_append, parseLong, if_pos rfl,
          magnitude_utf16 D.toDigitMap some_ all (by omega), value]
        rfl
    | false =>
        rw [if_neg Bool.false_ne_true] at value
        have magnitude_ : magnitude D.toDigitMap 9223372036854775807 (utf16 (c :: ds)) = some _ :=
          magnitude_utf16 D.toDigitMap some_ all (by omega)
        rw [text_] at magnitude_
        have no_minus : ¬ u = ch '-' := fun is => by
          have : u.val = 45 := congrArg Fin.val is
          omega
        have no_plus : ¬ u = ch '+' := fun is => by
          have : u.val = 43 := congrArg Fin.val is
          omega
        rw [if_neg Bool.false_ne_true, List.nil_append, text_, parseLong, if_neg no_minus,
          if_neg no_plus, if_neg (by omega), magnitude_, value]
        simp only [Option.map_some, Int64.ofInt_eq_ofNat]
  · omega

/-! ## Values -/

theorem ws_utf16 {t : Text}
    (head : ∀ c ∈ (Python.Json.ws t).head?, ∀ u ∈ (units c).head?, isWhitespace u = false) :
    Json.ws (utf16 t) = utf16 (Python.Json.ws t) := by
  induction t with
  | nil => rfl
  | cons c t ih =>
      rw [Python.Json.ws, List.dropWhile_cons] at head ⊢
      cases blank : Python.Json.isSpace c with
      | true =>
          rw [blank, if_pos rfl] at head
          have bounds := isSpace_iff.1 blank
          have val := val_unit (n := c.val) (by omega)
          have white : isWhitespace (Fin.ofNat 65536 c.val) = true := by
            simp only [isWhitespace, val, Bool.or_eq_true, Bool.and_eq_true, decide_eq_true_eq]
            omega
          rw [if_pos rfl, utf16_cons, units_small (by omega), Json.ws, List.singleton_append,
            List.dropWhile_cons, white, if_pos rfl]
          exact ih head
      | false =>
          rw [blank, if_neg Bool.false_ne_true] at head
          rw [if_neg Bool.false_ne_true]
          obtain ⟨u, -, one, text_⟩ | ⟨-, high, low, -, -, two, text_⟩ := utf16_cons_cases c t
          · have black := head c rfl u (by rw [one]; rfl)
            rw [text_, Json.ws, List.dropWhile_cons, black, if_neg Bool.false_ne_true]
          · have black := head c rfl high (by rw [two]; rfl)
            rw [text_, Json.ws, List.dropWhile_cons, black, if_neg Bool.false_ne_true]

/-- A character that is white space to neither. -/
theorem black_unit {c : CodePoint} (bounds : 0x21 ≤ c.val ∧ c.val < 0x80) :
    ∀ u ∈ (units c).head?, isWhitespace u = false := by
  intro u mem
  have val := val_unit (n := c.val) (by omega)
  rw [units_small (by omega)] at mem
  cases mem
  rw [Bool.eq_false_iff, ne_eq]
  simp only [isWhitespace, val, Bool.or_eq_true, Bool.and_eq_true, decide_eq_true_eq, beq_iff_eq]
  omega

theorem expect_utf16 {n : ℕ} {d : JChar} (is : d.val = n) (small : n < 0x80) (t : Text) :
    Json.expect d (utf16 t) = (Python.Json.expect n t).map utf16 := by
  cases t with
  | nil => rfl
  | cons c t =>
      rw [Python.Json.expect]
      obtain ⟨u, same, -, text_⟩ | ⟨large, high, low, isHigh, -, -, text_⟩ := utf16_cons_cases c t
      · have agree : u = d ↔ c.val = n := by rw [unit_eq_iff same, is]
        rw [text_, Json.expect]
        by_cases eq : c.val = n
        · rw [if_pos (agree.2 eq), if_pos eq]
          rfl
        · rw [if_neg (agree.not.2 eq), if_neg eq]
          rfl
      · rw [text_, Json.expect, if_neg (unit_ne (by omega) (by omega)), if_neg (by omega)]
        rfl

theorem string_utf16 {t : Text} (scalars : Scalars t) :
    Json.string (utf16 t) = (Python.Json.string t).bind takenString := by
  rw [Json.string, expect_utf16 (n := 34) rfl (by decide), Python.Json.string]
  cases quote : Python.Json.expect 34 t with
  | none => rfl
  | some rest =>
      have tail : rest <:+ t := by
        cases t with
        | nil => cases quote
        | cons c t =>
            rw [Python.Json.expect] at quote
            split_ifs at quote
            cases quote
            exact List.suffix_cons c _
      exact stringBody_utf16 (scalars_of_suffix scalars tail) le_rfl le_rfl

theorem number_value {negative : Bool} {t rest : Text} {v : Python.Json.Value}
    (read : Python.Json.number negative t = some (v, rest)) (held : Held v) :
    ∃ n, v = .int n := by
  rw [Python.Json.number] at read
  cases whole : Python.Json.integer t with
  | none =>
      rw [whole] at read
      cases read
  | some p =>
      rw [whole] at read
      simp only at read
      cases point : Python.Json.fraction p.2 with
      | some _ =>
          rw [point] at read
          cases read
          exact held.elim
      | none =>
          rw [point] at read
          simp only at read
          cases power : Python.Json.exponent p.2 with
          | some _ =>
              rw [power] at read
              cases read
              exact held.elim
          | none =>
              rw [power] at read
              cases read
              exact ⟨_, rfl⟩

theorem number_digit {negative : Bool} {c : CodePoint} {t rest : Text} {n : ℤ}
    (read : Python.Json.number negative (c :: t) = some (.int n, rest)) :
    Python.Json.isDigit c = true := by
  obtain ⟨digits, whole, -⟩ := number_int read
  obtain ⟨same, some_, all, -⟩ := integer_some whole
  cases digits with
  | nil => exact absurd rfl some_
  | cons d ds =>
      obtain ⟨rfl, -⟩ := List.cons.inj same
      exact all _ List.mem_cons_self

/-- The constants of the extension start with letters. -/
theorem value_other {u : JChar} (other : u.val = 45 ∨ 48 ≤ u.val ∧ u.val ≤ 57) (rest : JString) :
    Json.value D (u :: rest) =
      if u = ch '-' then Json.number D [u] rest else Json.number D [] (u :: rest) := by
  have ne (n : ℕ) (d : JChar) (val : d.val = n) (apart : n ≠ 45 ∧ ¬ (48 ≤ n ∧ n ≤ 57)) : ¬ u = d :=
    fun is => by
      subst is
      omega
  have none_ {w : JString} {d : JChar} (first : w.head? = some d) (apart : 57 < d.val) :
      ¬ w.isPrefixOf (u :: rest) = true := Python.Json.not_isPrefixOf first (by omega) rest
  rw [Json.value, if_neg (ne 34 _ rfl (by decide)), if_neg,
    if_neg (none_ (d := ch 't') rfl (by decide)), if_neg (none_ (d := ch 'f') rfl (by decide)),
    if_neg (none_ (d := ch 'n') rfl (by decide))]
  rintro (brace | bracket)
  · exact ne 123 _ rfl (by decide) brace
  · exact ne 91 _ rfl (by decide) bracket

theorem append_of_isPrefixOf {w t : Text} (starts : w.isPrefixOf t = true) :
    t = w ++ t.drop w.length := by
  obtain ⟨rest, rfl⟩ := List.isPrefixOf_iff_prefix.1 starts
  rw [List.drop_left]

/-- A value that a header may hold is read alike. -/
theorem scalar_utf16 {t rest : Text} {v : Python.Json.Value} (scalars : Scalars t)
    (read : Python.Json.scalar t = some (v, rest)) (held : Held v) (ends : Ends rest) :
    Json.value D (utf16 t) = some (carried v, utf16 rest) := by
  cases t with
  | nil => cases read
  | cons c t =>
      rw [Python.Json.scalar] at read
      by_cases quote : c.val = 34
      · rw [if_pos quote] at read
        obtain ⟨⟨s, more⟩, body, value⟩ := Option.map_eq_some_iff.1 read
        obtain ⟨rfl, rfl⟩ := Prod.mk.inj value
        obtain ⟨u, same, -, text_⟩ | ⟨large, -⟩ := utf16_cons_cases c t
        · have is : u = ch '"' := (unit_eq_iff same _).2 quote
          have taken_ : takenString (s, more) = some (utf16 s, utf16 more) :=
            if_pos (List.all_eq_true.2 held)
          rw [text_, Json.value, if_pos is,
            stringBody_utf16 (scalars_cons.1 scalars).2 le_rfl le_rfl, body, Option.bind_some,
            taken_]
          rfl
        · omega
      rw [if_neg quote] at read
      split_ifs at read with null true_ false_ nan infinity minus_infinity minus
      · cases read
        rw [append_of_isPrefixOf null]
        rfl
      · cases read
        rw [append_of_isPrefixOf true_]
        rfl
      · cases read
        rw [append_of_isPrefixOf false_]
        rfl
      · cases read
        exact held.elim
      · cases read
        exact held.elim
      · cases read
        exact held.elim
      · obtain ⟨n, rfl⟩ := number_value read held
        obtain ⟨u, same, -, text_⟩ | ⟨large, -⟩ := utf16_cons_cases c t
        · have is : u = ch '-' := (unit_eq_iff same _).2 minus
          rw [text_, value_other D (.inl (same.trans minus)), if_pos is, is]
          exact number_utf16 D read ends held
        · omega
      · obtain ⟨n, rfl⟩ := number_value read held
        have digit := isDigit_iff.1 (number_digit read)
        obtain ⟨u, same, -, text_⟩ | ⟨large, -⟩ := utf16_cons_cases c t
        · have no_minus : ¬ u = ch '-' := fun is => minus ((unit_eq_iff same _).1 is)
          have number := number_utf16 D read ends held
          rw [text_] at number ⊢
          rw [value_other D (.inr (same ▸ digit)), if_neg no_minus]
          exact number
        · omega

/-! ## Members -/

theorem stringBody_behind {k : ℕ} {t s rest : Text}
    (read : Python.Json.stringBody k t = some (s, rest)) : Behind t rest := by
  induction k generalizing t s with
  | zero => cases read
  | succ k ih =>
      rw [Python.Json.stringBody] at read
      cases first : Python.Json.piece t with
      | none =>
          rw [first] at read
          cases read
      | some p =>
          obtain ⟨o, more⟩ := p
          rw [first] at read
          have behind := piece_behind first
          cases o with
          | none =>
              cases read
              exact behind
          | some c =>
              obtain ⟨⟨s', rest'⟩, tail, value⟩ := Option.map_eq_some_iff.1 read
              obtain ⟨-, rfl⟩ := Prod.mk.inj value
              exact behind.trans (ih tail)

theorem expect_some {n : ℕ} {t rest : Text} (read : Python.Json.expect n t = some rest) :
    ∃ c : CodePoint, c.val = n ∧ t = c :: rest := by
  cases t with
  | nil => cases read
  | cons c t =>
      rw [Python.Json.expect] at read
      split_ifs at read with is
      cases read
      exact ⟨c, is, rfl⟩

theorem string_some {t s rest : Text} (read : Python.Json.string t = some (s, rest)) :
    Behind t rest ∧ ∃ c more, t = c :: more ∧ c.val = 34 := by
  obtain ⟨body, quote, more⟩ := Option.bind_eq_some_iff.1 read
  obtain ⟨c, is, rfl⟩ := expect_some quote
  exact ⟨(behind_cons c body).trans (stringBody_behind more), c, body, rfl, is⟩

theorem length_le_utf16 (t : Text) : t.length ≤ (utf16 t).length := by
  induction t with
  | nil => exact le_rfl
  | cons c t ih =>
      obtain ⟨u, -, -, text_⟩ | ⟨-, high, low, -, -, -, text_⟩ := utf16_cons_cases c t
      all_goals
        rw [text_]
        simp only [List.length_cons]
        omega

theorem ws_suffix (t : Text) : Python.Json.ws t <:+ t := List.dropWhile_suffix _

/-- One member, and the brace or the other members behind it. -/
theorem members_some {fuel : ℕ} {t rest : Text} {pairs : Python.Json.Dict}
    (read : Python.Json.members (fuel + 1) t = some (pairs, rest)) :
    ∃ key s₁ s₂ v s₃ c s₄, Python.Json.string t = some (key, s₁) ∧
      Python.Json.expect 58 (Python.Json.ws s₁) = some s₂ ∧
      Python.Json.value fuel (Python.Json.ws s₂) = some (v, s₃) ∧ Python.Json.ws s₃ = c :: s₄ ∧
      (c.val = 125 ∧ pairs = [(key, v)] ∧ rest = s₄ ∨
        c.val = 44 ∧ ∃ more, Python.Json.members fuel (Python.Json.ws s₄) = some (more, rest) ∧
          pairs = (key, v) :: more) := by
  rw [Python.Json.members] at read
  cases name : Python.Json.string t with
  | none =>
      rw [name] at read
      cases read
  | some p =>
      obtain ⟨key, s₁⟩ := p
      rw [name] at read
      simp only at read
      cases colon : Python.Json.expect 58 (Python.Json.ws s₁) with
      | none =>
          rw [colon] at read
          cases read
      | some s₂ =>
          rw [colon] at read
          simp only at read
          cases item : Python.Json.value fuel (Python.Json.ws s₂) with
          | none =>
              rw [item] at read
              cases read
          | some q =>
              obtain ⟨v, s₃⟩ := q
              rw [item] at read
              simp only at read
              cases last : Python.Json.ws s₃ with
              | nil =>
                  rw [last] at read
                  cases read
              | cons c s₄ =>
                  rw [last] at read
                  simp only at read
                  refine ⟨key, s₁, s₂, v, s₃, c, s₄, rfl, colon, item, last, ?_⟩
                  split_ifs at read with brace comma
                  · cases read
                    exact .inl ⟨brace, rfl, rfl⟩
                  · obtain ⟨⟨more, rest'⟩, tail, value⟩ := Option.map_eq_some_iff.1 read
                    obtain ⟨rfl, rfl⟩ := Prod.mk.inj value
                    exact .inr ⟨comma, more, tail, rfl⟩

theorem ends_of_ws {t rest : Text} {c : CodePoint} (read : Python.Json.ws t = c :: rest)
    (comma : c.val = 125 ∨ c.val = 44) : Ends t := by
  cases t with
  | nil => cases read
  | cons d t =>
      rw [Python.Json.ws, List.dropWhile_cons] at read
      split_ifs at read with blank
      · exact ⟨d, t, rfl, .inl blank⟩
      · cases read
        exact ⟨c, _, rfl, .inr comma.symm⟩

theorem number_suffix {negative : Bool} {t rest : Text} {n : ℤ}
    (read : Python.Json.number negative t = some (.int n, rest)) : rest <:+ t := by
  obtain ⟨digits, whole, -⟩ := number_int read
  obtain ⟨rfl, -⟩ := integer_some whole
  exact List.suffix_append _ _

/-- A value that a header may hold starts with a character that is no white space. -/
theorem scalar_held {t rest : Text} {v : Python.Json.Value}
    (read : Python.Json.scalar t = some (v, rest)) (held : Held v) :
    rest <:+ t ∧ ∃ c more, t = c :: more ∧ 0x21 ≤ c.val ∧ c.val < 0x80 := by
  have starts {w t : Text} {d : CodePoint} {w' : Text} (is : w = d :: w')
      (prefix_ : w.isPrefixOf t = true) : t.drop w.length <:+ t ∧ ∃ more, t = d :: more := by
    refine ⟨List.drop_suffix _ _, w' ++ t.drop w.length, ?_⟩
    rw [append_of_isPrefixOf prefix_, is]
    simp
  cases t with
  | nil => cases read
  | cons c t =>
      rw [Python.Json.scalar] at read
      split_ifs at read with quote null true_ false_ nan infinity minus_infinity minus
      · obtain ⟨⟨s, more⟩, body, value⟩ := Option.map_eq_some_iff.1 read
        obtain ⟨-, rfl⟩ := Prod.mk.inj value
        exact ⟨((behind_cons c t).trans (stringBody_behind body)).suffix, c, t, rfl, by omega⟩
      · cases read
        obtain ⟨tail, more, same⟩ := starts rfl null
        exact ⟨tail, _, more, same, by decide⟩
      · cases read
        obtain ⟨tail, more, same⟩ := starts rfl true_
        exact ⟨tail, _, more, same, by decide⟩
      · cases read
        obtain ⟨tail, more, same⟩ := starts rfl false_
        exact ⟨tail, _, more, same, by decide⟩
      · cases read
        exact held.elim
      · cases read
        exact held.elim
      · cases read
        exact held.elim
      · obtain ⟨n, rfl⟩ := number_value read held
        exact ⟨(number_suffix read).trans (List.suffix_cons c t), c, t, rfl, by omega⟩
      · obtain ⟨n, rfl⟩ := number_value read held
        have digit := isDigit_iff.1 (number_digit read)
        exact ⟨number_suffix read, c, t, rfl, by omega⟩

theorem value_held {fuel : ℕ} {t rest : Text} {v : Python.Json.Value}
    (read : Python.Json.value fuel t = some (v, rest)) (held : Held v) :
    Python.Json.scalar t = some (v, rest) := by
  cases fuel with
  | zero => cases read
  | succ fuel =>
      cases t with
      | nil => cases read
      | cons c t =>
          rw [Python.Json.value] at read
          split_ifs at read
          · obtain ⟨p, -, value⟩ := Option.map_eq_some_iff.1 read
            obtain ⟨rfl, -⟩ := Prod.mk.inj value
            exact held.elim
          · cases close : Python.Json.expect 93 (Python.Json.ws t) with
            | some more =>
                rw [close] at read
                cases read
                exact held.elim
            | none =>
                rw [close] at read
                obtain ⟨p, -, value⟩ := Option.map_eq_some_iff.1 read
                obtain ⟨rfl, -⟩ := Prod.mk.inj value
                exact held.elim
          · exact read

theorem ws_head {t : Text} {c : CodePoint} {more : Text} (text_ : Python.Json.ws t = c :: more)
    (bounds : 0x21 ≤ c.val ∧ c.val < 0x80) : Json.ws (utf16 t) = utf16 (Python.Json.ws t) := by
  apply ws_utf16
  intro d mem
  rw [text_] at mem
  cases mem
  exact black_unit bounds

theorem members_ws (j : ℕ) (s : JString) :
    Json.members D j (Json.ws s) = Json.members D j s := by
  cases j with
  | zero => rfl
  | succ j =>
      have twice : Json.ws (Json.ws s) = Json.ws s := List.dropWhile_idempotent _ s
      rw [Json.members, twice, Json.members]

theorem members_head {fuel : ℕ} {t rest : Text} {pairs : Python.Json.Dict}
    (read : Python.Json.members fuel t = some (pairs, rest)) :
    ∃ c more, t = c :: more ∧ c.val = 34 := by
  cases fuel with
  | zero => cases read
  | succ fuel =>
      obtain ⟨key, s₁, s₂, v, s₃, c, s₄, name, -⟩ := members_some read
      exact (string_some name).2

/-- Members that a header may hold are read alike. -/
theorem members_utf16 {fuel j : ℕ} {t rest : Text} {pairs : Python.Json.Dict}
    (scalars : Scalars t) (read : Python.Json.members fuel t = some (pairs, rest))
    (held : ∀ p ∈ pairs, HeldItem p) (enough : t.length ≤ j) :
    Json.members D j (utf16 t) = some (pairs.map carriedItem, utf16 rest) := by
  induction fuel generalizing t pairs j with
  | zero => cases read
  | succ fuel ih =>
      obtain ⟨key, s₁, s₂, v, s₃, c, s₄, name, colon, item, last, which⟩ := members_some read
      have first : HeldItem (key, v) := by
        obtain ⟨-, rfl, -⟩ | ⟨-, more, -, rfl⟩ := which
        · exact held _ (List.mem_singleton_self _)
        · exact held _ List.mem_cons_self
      obtain ⟨behind, q, t', rfl, quote⟩ := string_some name
      obtain ⟨d, is, colon_text⟩ := expect_some colon
      have scalar := value_held item first.2
      obtain ⟨tail, b, b', value_text, bounds⟩ := scalar_held scalar first.2
      have ends := ends_of_ws last (which.imp And.left And.left)
      have bounds' : 0x21 ≤ c.val ∧ c.val < 0x80 := by
        obtain ⟨brace, -⟩ | ⟨comma, -⟩ := which <;> omega
      -- what is left of the text at each step
      have left₁ := behind.suffix
      have left₂ : s₂ <:+ s₁ := by
        have cut := ws_suffix s₁
        rw [colon_text] at cut
        exact (List.suffix_cons d s₂).trans cut
      have left₃ : s₃ <:+ s₂ := tail.trans (ws_suffix s₂)
      have left₄ : s₄ <:+ s₃ := by
        have cut := ws_suffix s₃
        rw [last] at cut
        exact (List.suffix_cons c s₄).trans cut
      have scalars₁ := scalars_of_suffix scalars left₁
      have scalars₂ := scalars_of_suffix scalars₁ left₂
      have scalars₄ := scalars_of_suffix (scalars_of_suffix scalars₂ left₃) left₄
      have shorter := behind.length_lt
      have shorter₂ := left₂.length_le
      have shorter₃ := left₃.length_le
      have shorter₄ := left₄.length_le
      obtain ⟨j, rfl⟩ : ∃ n, j = n + 1 := ⟨j - 1, by omega⟩
      have blank : Python.Json.ws (q :: t') = q :: t' :=
        Python.Json.ws_cons (Python.Json.isSpace_eq_false (by omega)) t'
      have key_ : takenString (key, s₁) = some (utf16 key, utf16 s₁) :=
        if_pos (List.all_eq_true.2 first.1)
      have value_ := scalar_utf16 D (scalars_of_suffix scalars₂ (ws_suffix s₂)) scalar first.2 ends
      obtain ⟨u, same, -, text_⟩ | ⟨large, -⟩ := utf16_cons_cases c s₄
      · rw [Json.members, ws_head blank (by omega), blank, string_utf16 scalars, name,
          Option.bind_some, key_]
        simp only
        rw [ws_head colon_text (by omega), expect_utf16 (n := 58) rfl (by decide), colon]
        simp only [Option.map_some]
        rw [ws_head value_text bounds, value_]
        simp only
        rw [ws_head last bounds', last, text_]
        simp only
        obtain ⟨brace, rfl, rfl⟩ | ⟨comma, more, tail_, rfl⟩ := which
        · rw [if_pos ((unit_eq_iff same _).2 brace)]
          rfl
        · have no_brace : ¬ u = ch '\x7d' := fun is => by
            have : u.val = 125 := congrArg Fin.val is
            omega
          obtain ⟨p, p', next, quote'⟩ := members_head tail_
          have rest_ := ih (scalars_of_suffix scalars₄ (ws_suffix s₄)) tail_
            (fun p mem => held p (List.mem_cons_of_mem _ mem))
            (j := j) (by
              have := (ws_suffix s₄).length_le
              omega)
          rw [← ws_head next (by omega), members_ws] at rest_
          rw [if_neg no_brace, if_pos ((unit_eq_iff same _).2 comma), rest_]
          rfl
      · omega

theorem loads_some {t : Text} {pairs : Python.Json.Dict}
    (read : Python.Json.loads t = some (some pairs)) :
    ∃ c s rest, Python.Json.ws t = c :: s ∧ c.val = 123 ∧
      Python.Json.object (Python.Json.fuelFor t) s = some (pairs, rest) ∧
      Python.Json.ws rest = [] := by
  rw [Python.Json.loads] at read
  cases text_ : Python.Json.ws t with
  | nil =>
      rw [text_] at read
      cases read
  | cons c s =>
      rw [text_] at read
      simp only at read
      split_ifs at read with brace
      · cases object : Python.Json.object (Python.Json.fuelFor t) s with
        | none =>
            rw [object] at read
            cases read
        | some p =>
            obtain ⟨dict, rest⟩ := p
            rw [object] at read
            simp only at read
            split_ifs at read with finished
            cases read
            exact ⟨c, s, rest, rfl, brace, object, finished⟩
      · cases value : Python.Json.value (Python.Json.fuelFor t) (c :: s) with
        | none =>
            rw [value] at read
            cases read
        | some p =>
            rw [value] at read
            simp only at read
            split_ifs at read
            cases read

theorem object_some {fuel : ℕ} {s rest : Text} {pairs : Python.Json.Dict}
    (read : Python.Json.object fuel s = some (pairs, rest)) :
    Python.Json.expect 125 (Python.Json.ws s) = some rest ∧ pairs = [] ∨
      Python.Json.expect 125 (Python.Json.ws s) = none ∧ ∃ fuel,
        Python.Json.members fuel (Python.Json.ws s) = some (pairs, rest) := by
  cases fuel with
  | zero => cases read
  | succ fuel =>
      rw [Python.Json.object] at read
      cases close : Python.Json.expect 125 (Python.Json.ws s) with
      | some more =>
          rw [close] at read
          cases read
          exact .inl ⟨rfl, rfl⟩
      | none =>
          rw [close] at read
          exact .inr ⟨rfl, fuel, read⟩

/-- A header the harness reads is read alike, where each of its members is one a header may hold. -/
theorem parse_utf16 {t : Text} {pairs : Python.Json.Dict} (scalars : Scalars t)
    (read : Python.Json.loads t = some (some pairs)) (held : ∀ p ∈ pairs, HeldItem p) :
    Json.parse D (utf16 t) = some (pairs.map carriedItem) := by
  obtain ⟨c, s, rest, text_, brace, object, finished⟩ := loads_some read
  have left : s <:+ t := by
    have cut := ws_suffix t
    rw [text_] at cut
    exact (List.suffix_cons c s).trans cut
  have scalars' := scalars_of_suffix scalars left
  have opened : Json.expect (ch '\x7b') (Json.ws (utf16 t)) = some (utf16 s) := by
    rw [ws_head text_ (by omega), expect_utf16 (n := 123) rfl (by decide), text_,
      Python.Json.expect, if_pos brace]
    rfl
  have ended : Json.ws (utf16 rest) = [] := by
    rw [ws_utf16 (by rw [finished]; exact fun c mem => absurd mem (Option.not_mem_none c)), finished]
    rfl
  have whole : Json.object D (utf16 t) = some (pairs.map carriedItem, utf16 rest) := by
    rw [Json.object, opened]
    simp only
    obtain ⟨close, rfl⟩ | ⟨open_, fuel, members⟩ := object_some object
    · obtain ⟨d, is, close_text⟩ := expect_some close
      rw [ws_head close_text (by omega), expect_utf16 (n := 125) rfl (by decide), close]
      rfl
    · obtain ⟨d, more, text', quote⟩ := members_head members
      have head := ws_head text' (by omega)
      have read' := members_utf16 D (scalars_of_suffix scalars' (ws_suffix s)) members held
        (j := (utf16 s).length) (by
          have short : (Python.Json.ws s).length ≤ s.length := (ws_suffix s).length_le
          have long := length_le_utf16 s
          omega)
      rw [← head, members_ws] at read'
      rw [head, expect_utf16 (n := 125) rfl (by decide), open_]
      exact read'
  rw [Json.parse, whole]
  exact if_pos ended

end Hx.Bridge
