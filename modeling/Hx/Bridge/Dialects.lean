import Hx.Bridge.Json
import Hx.Bridge.Codec
import Hx.Java.Utf16

/-!
# Two readers of one text

The harness reads a header as a text of characters, the extension as a string of units. Where
both read a string they read the same one, except that the extension refuses what stands for a
surrogate on its own; and a header the harness reads is read alike by the extension, as long as
every member of it is one a header may hold.
-/

namespace Hx.Bridge

open Hx.Java Hx.Library

/-! ## What is left of a text -/

/-- The second text is the first one behind some characters. -/
def Behind (t rest : Text) : Prop := ∃ w, w ≠ [] ∧ t = w ++ rest

theorem behind_cons (c : CodePoint) (t : Text) : Behind (c :: t) t :=
  ⟨[c], List.cons_ne_nil _ _, rfl⟩

theorem Behind.trans {s t u : Text} (first : Behind s t) (second : Behind t u) : Behind s u := by
  obtain ⟨w, some_, rfl⟩ := first
  obtain ⟨v, -, rfl⟩ := second
  exact ⟨w ++ v, by simp [some_], (List.append_assoc _ _ _).symm⟩

theorem Behind.of_suffix {s t u : Text} (suffix : t <:+ s) (second : Behind t u) : Behind s u := by
  obtain ⟨w, rfl⟩ := suffix
  obtain ⟨v, some_, rfl⟩ := second
  exact ⟨w ++ v, by simp [some_], (List.append_assoc _ _ _).symm⟩

theorem Behind.suffix {t rest : Text} (behind : Behind t rest) : rest <:+ t := by
  obtain ⟨w, -, rfl⟩ := behind
  exact List.suffix_append w rest

theorem Behind.length_lt {t rest : Text} (behind : Behind t rest) : rest.length < t.length := by
  obtain ⟨w, some_, rfl⟩ := behind
  have := List.length_pos_of_ne_nil some_
  rw [List.length_append]
  omega

theorem Behind.length_utf16_lt {t rest : Text} (behind : Behind t rest) :
    (utf16 rest).length < (utf16 t).length := by
  obtain ⟨w, some_, rfl⟩ := behind
  rw [utf16_append, List.length_append]
  cases w with
  | nil => exact absurd rfl some_
  | cons c w =>
      have pos : 0 < (units c).length := by
        rw [units]
        split_ifs <;> exact Nat.succ_pos _
      rw [utf16_cons, List.length_append]
      omega

theorem scalars_of_suffix {t rest : Text} (scalars : Scalars t) (suffix : rest <:+ t) :
    Scalars rest := fun c mem => scalars c (suffix.subset mem)

/-- A character is one unit of its number, or two that are no ASCII. -/
theorem utf16_cons_cases (c : CodePoint) (t : Text) :
    (∃ u : JChar, u.val = c.val ∧ units c = [u] ∧ utf16 (c :: t) = u :: utf16 t) ∨
      0x10000 ≤ c.val ∧ ∃ high low : JChar, 0xd800 ≤ high.val ∧ 0xd800 ≤ low.val ∧
        units c = [high, low] ∧ utf16 (c :: t) = high :: low :: utf16 t := by
  by_cases small : c.val < 0x10000
  · refine .inl ⟨_, val_unit small, units_small small, ?_⟩
    rw [utf16_cons, units_small small]
    rfl
  · have bound := c.isLt
    refine .inr ⟨Nat.not_lt.1 small, _, _, ?_, ?_, units_large small, ?_⟩
    · rw [val_unit (by omega)]
      omega
    · rw [val_unit (by omega)]
      omega
    · rw [utf16_cons, units_large small]
      rfl

/-! ## Escapes -/

theorem hexValue_utf16 {c : CodePoint} {u : JChar} (same : u.val = c.val) :
    Json.hexValue u = Python.Json.hexValue c := by
  have le (d e : JChar) : d ≤ e ↔ d.val ≤ e.val := Iff.rfl
  have zero : (ch '0').val = 48 := rfl
  have nine : (ch '9').val = 57 := rfl
  have a : (ch 'a').val = 97 := rfl
  have f : (ch 'f').val = 102 := rfl
  have A : (ch 'A').val = 65 := rfl
  have F : (ch 'F').val = 70 := rfl
  simp only [Json.hexValue, Python.Json.hexValue, le, same, zero, nine, a, f, A, F]

theorem hexValue_large {u : JChar} (large : 0x80 ≤ u.val) : Json.hexValue u = none := by
  have le (d e : JChar) : d ≤ e ↔ d.val ≤ e.val := Iff.rfl
  have nine : (ch '9').val = 57 := rfl
  have f : (ch 'f').val = 102 := rfl
  have F : (ch 'F').val = 70 := rfl
  simp only [Json.hexValue, le, nine, f, F]
  rw [if_neg (by omega), if_neg (by omega), if_neg (by omega)]

theorem hexValue_point_large {c : CodePoint} (large : 0x80 ≤ c.val) :
    Python.Json.hexValue c = none := by
  rw [Python.Json.hexValue, if_neg (by omega), if_neg (by omega), if_neg (by omega)]

theorem hexRun_utf16 (k n : ℕ) (t : Text) :
    Json.hexRun k n (utf16 t) =
      (Python.Json.hexRun k n t).map fun p => (p.1, utf16 p.2) := by
  induction k generalizing n t with
  | zero => rfl
  | succ k ih =>
      cases t with
      | nil => rfl
      | cons c t =>
          rw [Python.Json.hexRun]
          obtain ⟨u, same, -, text_⟩ | ⟨large, high, low, isHigh, -, -, text_⟩ :=
            utf16_cons_cases c t
          · rw [text_, Json.hexRun, hexValue_utf16 same]
            cases Python.Json.hexValue c with
            | none => rfl
            | some d => exact ih _ t
          · rw [text_, Json.hexRun, hexValue_large (by omega), hexValue_point_large (by omega)]
            rfl

theorem hexValue_lt {c : CodePoint} {d : ℕ} (value : Python.Json.hexValue c = some d) : d < 16 := by
  rw [Python.Json.hexValue] at value
  split_ifs at value
  all_goals
    have := Option.some.inj value
    omega

theorem hexRun_step {k n m : ℕ} {t rest : Text}
    (run : Python.Json.hexRun (k + 1) n t = some (m, rest)) :
    ∃ c t' d, t = c :: t' ∧ d < 16 ∧ Python.Json.hexRun k (n * 16 + d) t' = some (m, rest) := by
  cases t with
  | nil => cases run
  | cons c t =>
      obtain ⟨d, value, more⟩ := Option.bind_eq_some_iff.1 run
      exact ⟨c, t, d, rfl, hexValue_lt value, more⟩

theorem hexRun_suffix {k n m : ℕ} {t rest : Text}
    (run : Python.Json.hexRun k n t = some (m, rest)) : rest <:+ t := by
  induction k generalizing n t with
  | zero =>
      cases run
      exact List.suffix_rfl
  | succ k ih =>
      obtain ⟨c, t', d, rfl, -, more⟩ := hexRun_step run
      exact (ih more).trans (List.suffix_cons c t')

theorem hexRun_lt {m : ℕ} {t rest : Text}
    (run : Python.Json.hexRun 4 0 t = some (m, rest)) : m < 65536 := by
  obtain ⟨c₁, t₁, d₁, -, small₁, run⟩ := hexRun_step run
  obtain ⟨c₂, t₂, d₂, -, small₂, run⟩ := hexRun_step run
  obtain ⟨c₃, t₃, d₃, -, small₃, run⟩ := hexRun_step run
  obtain ⟨c₄, t₄, d₄, -, small₄, run⟩ := hexRun_step run
  cases run
  omega

section Units

variable {n : ℕ} (small : n < 65536)

include small

theorem val_chr_unit : (chr n).val = n := Nat.mod_eq_of_lt (by omega)

theorem isHigh_chr : Python.Json.isHigh (chr n) = isHighSurrogate (Fin.ofNat 65536 n) := by
  rw [Python.Json.isHigh, isHighSurrogate, val_chr_unit small, val_unit small]

theorem isLow_chr : Python.Json.isLow (chr n) = isLowSurrogate (Fin.ofNat 65536 n) := by
  rw [Python.Json.isLow, isLowSurrogate, val_chr_unit small, val_unit small]

theorem isScalar_chr :
    isScalar (chr n) =
      !(isHighSurrogate (Fin.ofNat 65536 n) || isLowSurrogate (Fin.ofNat 65536 n)) := by
  rw [Bool.eq_iff_iff, isScalar_iff, Bool.not_eq_true', Bool.eq_false_iff, ne_eq, Bool.or_eq_true,
    isHighSurrogate_iff, isLowSurrogate_iff, val_chr_unit small, val_unit small]
  omega

theorem units_chr : units (chr n) = [Fin.ofNat 65536 n] := by
  rw [units_small (by rw [val_chr_unit small]; exact small), val_chr_unit small]

end Units

theorem unit_eq_iff {u : JChar} {c : CodePoint} (same : u.val = c.val) (d : JChar) :
    u = d ↔ c.val = d.val := by
  rw [Fin.ext_iff, same]

theorem unit_ne {u : JChar} (large : 0x80 ≤ u.val) {d : JChar} (small : d.val < 0x80) : u ≠ d :=
  fun same => by
    subst same
    omega

theorem lowHalf_utf16 (t : Text) :
    Json.lowHalf (utf16 t) =
      (Python.Json.lowHalf t).map fun p => (Fin.ofNat 65536 p.1.val, utf16 p.2) := by
  cases t with
  | nil => rfl
  | cons x t =>
      obtain ⟨u, same, -, text_⟩ | ⟨large, high, low, isHigh, -, -, text_⟩ := utf16_cons_cases x t
      · rw [text_]
        cases t with
        | nil => rfl
        | cons y t =>
            obtain ⟨v, same', -, text_⟩ | ⟨large, high, low, isHigh, -, -, text_⟩ :=
              utf16_cons_cases y t
            · have agree : (u = ch '\\' ∧ v = ch 'u') ↔ (x.val = 92 ∧ y.val = 117) :=
                and_congr (unit_eq_iff same (ch '\\')) (unit_eq_iff same' (ch 'u'))
              rw [text_, Json.lowHalf, Python.Json.lowHalf]
              by_cases escape : x.val = 92 ∧ y.val = 117
              · rw [if_pos (agree.2 escape), if_pos escape, hexRun_utf16]
                cases run : Python.Json.hexRun 4 0 t with
                | none => rfl
                | some p =>
                    obtain ⟨n, rest⟩ := p
                    have small := hexRun_lt run
                    simp only [Option.map_some, Option.bind_some, isLow_chr small]
                    split_ifs
                    · rw [Option.map_some, val_chr_unit small]
                    · rfl
              · rw [if_neg (fun both => escape (agree.1 both)), if_neg escape]
                rfl
            · have no_u : high ≠ ch 'u' := unit_ne (by omega) (by decide)
              rw [text_, Json.lowHalf, Python.Json.lowHalf, if_neg fun both => no_u both.2,
                if_neg (by omega)]
              rfl
      · have no_escape : high ≠ ch '\\' := unit_ne (by omega) (by decide)
        rw [text_, Json.lowHalf, if_neg fun both => no_escape both.1]
        cases t with
        | nil => rfl
        | cons y t =>
            rw [Python.Json.lowHalf, if_neg (by omega)]
            rfl

theorem lowHalf_some {t rest : Text} {low : CodePoint}
    (half : Python.Json.lowHalf t = some (low, rest)) :
    ∃ m < 65536, low = chr m ∧ isLowSurrogate (Fin.ofNat 65536 m) = true ∧ rest <:+ t := by
  cases t with
  | nil => cases half
  | cons x t =>
      cases t with
      | nil => cases half
      | cons y t =>
          rw [Python.Json.lowHalf] at half
          split_ifs at half
          obtain ⟨⟨m, more⟩, run, value⟩ := Option.bind_eq_some_iff.1 half
          have small := hexRun_lt run
          rw [isLow_chr small] at value
          split_ifs at value with isLow
          cases value
          exact ⟨m, small, rfl, isLow,
            (hexRun_suffix run).trans ((List.suffix_cons y t).trans (List.suffix_cons x _))⟩

/-- What the extension makes of a character the harness read. -/
def taken (p : CodePoint × Text) : Option (JString × JString) :=
  if isScalar p.1 then some (units p.1, utf16 p.2) else none

theorem joined_units {high low : ℕ} (small₁ : high < 65536) (small₂ : low < 65536)
    (isHigh : isHighSurrogate (Fin.ofNat 65536 high) = true)
    (isLow : isLowSurrogate (Fin.ofNat 65536 low) = true) :
    isScalar (Python.Json.joined (chr high) (chr low)) = true ∧
      units (Python.Json.joined (chr high) (chr low)) =
        [Fin.ofNat 65536 high, Fin.ofNat 65536 low] := by
  have same : Python.Json.joined (chr high) (chr low) =
      pairPoint (Fin.ofNat 65536 high) (Fin.ofNat 65536 low) := by
    rw [Python.Json.joined, pairPoint, val_chr_unit small₁, val_chr_unit small₂, val_unit small₁,
      val_unit small₂]
    rfl
  rw [same]
  exact ⟨isScalar_pairPoint isHigh isLow, units_pairPoint isHigh isLow⟩

theorem escape_utf16 {u : JChar} {c : CodePoint} (same : u.val = c.val) :
    Json.escape u = (Python.Json.escape c).map fun e => Fin.ofNat 65536 e.val := by
  have is (n : ℕ) (d : JChar) (val : d.val = n) : u = d ↔ c.val = n := by
    rw [unit_eq_iff same, val]
  have unit : Fin.ofNat 65536 c.val = u := by
    rw [← same]
    exact Fin.ext (val_unit u.isLt)
  have same_ : (u = ch '"' ∨ u = ch '\\' ∨ u = ch '/') ↔ (c.val = 34 ∨ c.val = 92 ∨ c.val = 47) :=
    or_congr (is 34 _ rfl) (or_congr (is 92 _ rfl) (is 47 _ rfl))
  rw [Json.escape, Python.Json.escape]
  by_cases h₁ : c.val = 34 ∨ c.val = 92 ∨ c.val = 47
  · rw [if_pos (same_.2 h₁), if_pos h₁, Option.map_some, unit]
  rw [if_neg (same_.not.2 h₁), if_neg h₁]
  by_cases h₂ : c.val = 110
  · rw [if_pos ((is 110 _ rfl).2 h₂), if_pos h₂]
    rfl
  rw [if_neg ((is 110 _ rfl).not.2 h₂), if_neg h₂]
  by_cases h₃ : c.val = 114
  · rw [if_pos ((is 114 _ rfl).2 h₃), if_pos h₃]
    rfl
  rw [if_neg ((is 114 _ rfl).not.2 h₃), if_neg h₃]
  by_cases h₄ : c.val = 116
  · rw [if_pos ((is 116 _ rfl).2 h₄), if_pos h₄]
    rfl
  rw [if_neg ((is 116 _ rfl).not.2 h₄), if_neg h₄]
  by_cases h₅ : c.val = 98
  · rw [if_pos ((is 98 _ rfl).2 h₅), if_pos h₅]
    rfl
  rw [if_neg ((is 98 _ rfl).not.2 h₅), if_neg h₅]
  by_cases h₆ : c.val = 102
  · rw [if_pos ((is 102 _ rfl).2 h₆), if_pos h₆]
    rfl
  rw [if_neg ((is 102 _ rfl).not.2 h₆), if_neg h₆]
  rfl

/-- What an escape stands for is a small scalar. -/
theorem escape_small {c e : CodePoint} (escape : Python.Json.escape c = some e) : e.val < 0x80 := by
  rw [Python.Json.escape] at escape
  split_ifs at escape with h₁
  · cases escape
    omega
  all_goals
    cases escape
    decide

theorem escapePiece_utf16 (t : Text) :
    Json.escapePiece (utf16 t) = (Python.Json.escapePiece t).bind taken := by
  cases t with
  | nil => rfl
  | cons c t =>
      obtain ⟨u, same, -, text_⟩ | ⟨large, high, low, isHigh, -, -, text_⟩ := utf16_cons_cases c t
      · rw [text_, Json.escapePiece, Python.Json.escapePiece]
        by_cases hex : c.val = 117
        · have is_u : u = ch 'u' := (unit_eq_iff same _).2 hex
          rw [if_pos is_u, if_pos hex, hexRun_utf16]
          cases run : Python.Json.hexRun 4 0 t with
          | none => rfl
          | some p =>
              obtain ⟨n, rest⟩ := p
              have small := hexRun_lt run
              have scalar := isScalar_chr small
              simp only [Option.map_some, Option.bind_some, isHigh_chr small, lowHalf_utf16]
              cases isHigh : isHighSurrogate (Fin.ofNat 65536 n) with
              | true =>
                  rw [isHigh, Bool.true_or] at scalar
                  cases half : Python.Json.lowHalf rest with
                  | none =>
                      simp only [if_true, Option.map_none, taken, scalar]
                      rfl
                  | some q =>
                      obtain ⟨low, more⟩ := q
                      obtain ⟨m, small', rfl, isLow, -⟩ := lowHalf_some half
                      obtain ⟨pair, two⟩ := joined_units small small' isHigh isLow
                      simp only [if_true, Option.map_some, taken, pair, two, val_chr_unit small']
              | false =>
                  rw [isHigh, Bool.false_or] at scalar
                  cases isLow : isLowSurrogate (Fin.ofNat 65536 n) with
                  | true =>
                      rw [isLow] at scalar
                      simp only [Bool.false_eq_true, if_false, if_true, taken, scalar]
                      rfl
                  | false =>
                      rw [isLow] at scalar
                      simp only [Bool.false_eq_true, if_false, taken, scalar, units_chr small]
                      rfl
        · have no_u : ¬ u = ch 'u' := fun is => hex ((unit_eq_iff same _).1 is)
          rw [if_neg no_u, if_neg hex, escape_utf16 same]
          cases value : Python.Json.escape c with
          | none => rfl
          | some e =>
              have small := escape_small value
              have scalar : isScalar e = true := isScalar_iff.2 (.inl (by omega))
              simp only [Option.map_some, Option.bind_some, taken, scalar, if_true]
              rw [units_small (by omega)]
      · have no_u : ¬ high = ch 'u' := unit_ne (by omega) (by decide)
        have none_ : Json.escape high = none := by
          have ne {d : JChar} (small : d.val < 0x80) : ¬ high = d := unit_ne (by omega) small
          rw [Json.escape, if_neg, if_neg (ne (by decide)), if_neg (ne (by decide)),
            if_neg (ne (by decide)), if_neg (ne (by decide)), if_neg (ne (by decide))]
          rintro (is | is | is)
          all_goals exact ne (by decide) is
        have none' : Python.Json.escape c = none := by
          rw [Python.Json.escape, if_neg (by omega), if_neg (by omega), if_neg (by omega),
            if_neg (by omega), if_neg (by omega), if_neg (by omega)]
        rw [text_, Json.escapePiece, if_neg no_u, none_, Python.Json.escapePiece,
          if_neg (by omega), none']
        rfl

/-! ## Strings -/

theorem escapePiece_suffix {t rest : Text} {c : CodePoint}
    (read : Python.Json.escapePiece t = some (c, rest)) : rest <:+ t := by
  cases t with
  | nil => cases read
  | cons esc t =>
      rw [Python.Json.escapePiece] at read
      split_ifs at read
      · obtain ⟨⟨n, more⟩, run, value⟩ := Option.map_eq_some_iff.1 read
        have tail := (hexRun_suffix run).trans (List.suffix_cons esc t)
        simp only at value
        split_ifs at value
        · cases half : Python.Json.lowHalf more with
          | none =>
              rw [half] at value
              obtain ⟨-, same⟩ := Prod.mk.inj value
              exact same ▸ tail
          | some q =>
              obtain ⟨low, last⟩ := q
              rw [half] at value
              obtain ⟨-, same⟩ := Prod.mk.inj value
              obtain ⟨-, -, -, -, more⟩ := lowHalf_some half
              exact same ▸ more.trans tail
        · obtain ⟨-, same⟩ := Prod.mk.inj value
          exact same ▸ tail
      · obtain ⟨e, -, value⟩ := Option.map_eq_some_iff.1 read
        obtain ⟨-, rfl⟩ := Prod.mk.inj value
        exact List.suffix_cons esc _

theorem piece_behind {t rest : Text} {o : Option CodePoint}
    (read : Python.Json.piece t = some (o, rest)) : Behind t rest := by
  cases t with
  | nil => cases read
  | cons c t =>
      rw [Python.Json.piece] at read
      split_ifs at read
      · cases read
        exact behind_cons c _
      · cases read
        exact behind_cons c _
      · obtain ⟨⟨d, more⟩, escape, value⟩ := Option.map_eq_some_iff.1 read
        obtain ⟨-, rfl⟩ := Prod.mk.inj value
        obtain ⟨w, rfl⟩ := escapePiece_suffix escape
        exact ⟨c :: w, List.cons_ne_nil _ _, rfl⟩

/-- What the extension makes of a piece the harness read. -/
def takenPiece (p : Option CodePoint × Text) : Option (Option JString × JString) :=
  match p.1 with
  | none => some (none, utf16 p.2)
  | some c => (taken (c, p.2)).map fun q => (some q.1, q.2)

theorem piece_utf16 {c : CodePoint} {t : Text} (scalar : isScalar c = true)
    (small : c.val < 0x10000) :
    Json.piece (utf16 (c :: t)) = (Python.Json.piece (c :: t)).bind takenPiece := by
  obtain ⟨u, same, one, text_⟩ | ⟨large, -⟩ := utf16_cons_cases c t
  · rw [text_, Json.piece, Python.Json.piece]
    have quote : u = ch '"' ↔ c.val = 34 := unit_eq_iff same _
    have backslash : u = ch '\\' ↔ c.val = 92 := unit_eq_iff same _
    by_cases h₁ : c.val = 34
    · rw [if_pos (quote.2 h₁), if_pos h₁]
      rfl
    rw [if_neg (quote.not.2 h₁), if_neg h₁, same]
    by_cases h₂ : c.val < 0x20
    · rw [if_pos h₂, if_pos h₂]
      rfl
    rw [if_neg h₂, if_neg h₂]
    by_cases h₃ : c.val = 92
    · rw [if_neg (not_not.2 (backslash.2 h₃)), if_neg (not_not.2 h₃), escapePiece_utf16]
      cases Python.Json.escapePiece t <;> rfl
    · rw [if_pos (backslash.not.2 h₃), if_pos h₃]
      simp only [Option.bind_some, takenPiece, taken, scalar, if_true, one, Option.map_some]
  · omega

/-- A character outside the basic plane is two pieces to the extension. -/
theorem piece_large {u : JChar} (large : 0x80 ≤ u.val) (s : JString) :
    Json.piece (u :: s) = some (some [u], s) := by
  have ne {d : JChar} (small : d.val < 0x80) : ¬ u = d := unit_ne large small
  rw [Json.piece, if_neg (ne (by decide)), if_neg (by omega), if_pos (ne (by decide))]

theorem piece_point_large {c : CodePoint} (large : 0x80 ≤ c.val) (t : Text) :
    Python.Json.piece (c :: t) = some (some c, t) := by
  rw [Python.Json.piece, if_neg (by omega), if_neg (by omega), if_pos (by omega)]

/-- What the extension makes of a string the harness read. -/
def takenString (p : Text × Text) : Option (JString × JString) :=
  if p.1.all isScalar then some (utf16 p.1, utf16 p.2) else none

theorem takenString_cons (c : CodePoint) (p : Text × Text) :
    takenString (c :: p.1, p.2) =
      if isScalar c then (takenString p).map fun q => (units c ++ q.1, q.2) else none := by
  rw [takenString, takenString, List.all_cons]
  cases isScalar c <;> cases p.1.all isScalar <;> rfl

/-- Both read the same string, or the extension refuses it for a surrogate on its own. -/
theorem stringBody_utf16 {t : Text} (scalars : Scalars t) {j k : ℕ}
    (enough : (utf16 t).length ≤ j) (enough' : t.length ≤ k) :
    Json.stringBody j (utf16 t) = (Python.Json.stringBody k t).bind takenString := by
  induction k generalizing t j with
  | zero =>
      obtain rfl := List.eq_nil_of_length_eq_zero (Nat.le_zero.1 enough')
      cases j <;> rfl
  | succ k ih =>
      cases t with
      | nil => cases j <;> rfl
      | cons c t =>
          obtain ⟨scalar, rest⟩ := scalars_cons.1 scalars
          rw [List.length_cons] at enough'
          obtain ⟨u, same, one, text_⟩ | ⟨large, high, low, isHigh, isLow, two, text_⟩ :=
            utf16_cons_cases c t
          · obtain ⟨j, rfl⟩ : ∃ n, j = n + 1 := by
              rw [text_, List.length_cons] at enough
              exact ⟨j - 1, by omega⟩
            have small : c.val < 0x10000 := by
              have := u.isLt
              omega
            rw [Json.stringBody, piece_utf16 scalar small, Python.Json.stringBody]
            cases read : Python.Json.piece (c :: t) with
            | none => rfl
            | some p =>
                obtain ⟨o, more⟩ := p
                have behind := piece_behind read
                have shorter := behind.length_lt
                have shorter' := behind.length_utf16_lt
                rw [List.length_cons] at shorter
                cases o with
                | none => rfl
                | some d =>
                    have next := ih (t := more) (j := j) (scalars_of_suffix scalars behind.suffix)
                      (by omega) (by omega)
                    cases pair : isScalar d with
                    | false =>
                        simp only [Option.bind_some, takenPiece, taken, pair, Bool.false_eq_true,
                          if_false, Option.map_none]
                        cases Python.Json.stringBody k more with
                        | none => rfl
                        | some p =>
                            rw [Option.map_some, Option.bind_some, takenString_cons, pair]
                            rfl
                    | true =>
                        simp only [Option.bind_some, takenPiece, taken, pair, if_true,
                          Option.map_some, next]
                        cases Python.Json.stringBody k more with
                        | none => rfl
                        | some p =>
                            rw [Option.map_some, Option.bind_some, Option.bind_some,
                              takenString_cons, pair, if_pos rfl]
          · obtain ⟨j, rfl⟩ : ∃ n, j = n + 2 := by
              rw [text_, List.length_cons, List.length_cons] at enough
              exact ⟨j - 2, by omega⟩
            rw [text_, List.length_cons, List.length_cons] at enough
            rw [text_, Json.stringBody, piece_large (by omega)]
            simp only
            rw [Json.stringBody, piece_large (by omega), Python.Json.stringBody,
              piece_point_large (by omega)]
            simp only
            rw [ih rest (by omega) (by omega)]
            cases Python.Json.stringBody k t with
            | none => rfl
            | some p =>
                simp only [Option.bind_some, Option.map_some, takenString_cons, scalar, if_true,
                  two]
                cases takenString p <;> rfl

end Hx.Bridge
