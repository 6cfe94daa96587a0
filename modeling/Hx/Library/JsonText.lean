import Hx.Library.Decimal
import Hx.Library.Lowering

/-!
# The texts that are one JSON value

`Spelled .value s` says that `s` is a JSON value, blanks around its parts included. What stands
outside the strings of such a text is its `bare` part: it has no capital letters but the `E` of an
exponent, so a text that names `NaN` or `Infinity` is none.
-/

namespace Hx.Library

/-! ## The grammar -/

def Blank (s : Text) : Prop := ∀ c ∈ s, c.val = 9 ∨ c.val = 10 ∨ c.val = 13 ∨ c.val = 32

structure Digits (s : Text) : Prop where
  some_ : s ≠ []
  digits : ∀ c ∈ s, 48 ≤ c.val ∧ c.val ≤ 57

/-- A number: no zero is in front of its other digits. -/
structure NumberText (s : Text) : Prop where
  parts : ∃ sign whole fraction exponent : Text, s = sign ++ whole ++ fraction ++ exponent ∧
    (sign = [] ∨ sign = [chr 45]) ∧
    (Digits whole ∧ (whole.head? = some (chr 48) → whole = [chr 48])) ∧
    (fraction = [] ∨ ∃ digits, Digits digits ∧ fraction = chr 46 :: digits) ∧
    (exponent = [] ∨ ∃ mark sign digits, (mark = chr 101 ∨ mark = chr 69) ∧
      (sign = [] ∨ sign = [chr 43] ∨ sign = [chr 45]) ∧ Digits digits ∧
      exponent = mark :: (sign ++ digits))

def IsHex (c : Fin 0x110000) : Prop :=
  (48 ≤ c.val ∧ c.val ≤ 57) ∨ (97 ≤ c.val ∧ c.val ≤ 102) ∨ (65 ≤ c.val ∧ c.val ≤ 70)

/-- What stands between the quotes of a string. -/
inductive Inside : Text → Prop where
  | nil : Inside []
  | plain {c : Fin 0x110000} {s : Text} (printed : 0x20 ≤ c.val) (quote : c.val ≠ 34)
      (backslash : c.val ≠ 92) (rest : Inside s) : Inside (c :: s)
  | short {c : Fin 0x110000} {s : Text} (named : c.val ∈ [34, 92, 47, 98, 102, 110, 114, 116])
      (rest : Inside s) : Inside (chr 92 :: c :: s)
  | unicode {a b c d : Fin 0x110000} {s : Text} (ha : IsHex a) (hb : IsHex b) (hc : IsHex c)
      (hd : IsHex d) (rest : Inside s) : Inside (chr 92 :: chr 117 :: a :: b :: c :: d :: s)

def quoted (s : Text) : Text := chr 34 :: (s ++ [chr 34])

inductive Category where
  | value
  | items
  | members

/-- A JSON value, the items of an array, or the members of an object: one at least. -/
inductive Spelled : Category → Text → Prop where
  | null : Spelled .value (text "null")
  | true_ : Spelled .value (text "true")
  | false_ : Spelled .value (text "false")
  | number {s : Text} (h : NumberText s) : Spelled .value s
  | string {s : Text} (h : Inside s) : Spelled .value (quoted s)
  | emptyArray {s : Text} (h : Blank s) : Spelled .value (chr 91 :: (s ++ [chr 93]))
  | array {s : Text} (h : Spelled .items s) : Spelled .value (chr 91 :: (s ++ [chr 93]))
  | emptyObject {s : Text} (h : Blank s) : Spelled .value (chr 123 :: (s ++ [chr 125]))
  | object {s : Text} (h : Spelled .members s) : Spelled .value (chr 123 :: (s ++ [chr 125]))
  | padded {k : Category} {s before after : Text} (h : Spelled k s) (left : Blank before)
      (right : Blank after) : Spelled k (before ++ s ++ after)
  | item {s : Text} (h : Spelled .value s) : Spelled .items s
  | items {s rest : Text} (h : Spelled .value s) (more : Spelled .items rest) :
      Spelled .items (s ++ chr 44 :: rest)
  | member {key gap s : Text} (name : Inside key) (blank : Blank gap) (h : Spelled .value s) :
      Spelled .members (quoted key ++ gap ++ chr 58 :: s)
  | members {s rest : Text} (h : Spelled .members s) (more : Spelled .members rest) :
      Spelled .members (s ++ chr 44 :: rest)

/-! ## What stands outside the strings -/

inductive Mode where
  | outside
  | inside
  | escape

def bare : Mode → Text → Text
  | _, [] => []
  | .outside, c :: s => if c.val = 34 then bare .inside s else c :: bare .outside s
  | .inside, c :: s =>
      if c.val = 34 then bare .outside s else if c.val = 92 then bare .escape s
      else bare .inside s
  | .escape, _ :: s => bare .inside s

/-- The bare part of a text, whatever follows it. -/
def Bare (s marks : Text) : Prop :=
  ∀ rest, bare .outside (s ++ rest) = marks ++ bare .outside rest

theorem Bare.nil : Bare [] [] := fun _ => rfl

theorem Bare.append {s t marks marks' : Text} (first : Bare s marks) (second : Bare t marks') :
    Bare (s ++ t) (marks ++ marks') := by
  intro rest
  rw [List.append_assoc, first, second, List.append_assoc]

theorem Bare.one {c : Fin 0x110000} (quote : c.val ≠ 34) : Bare [c] [c] := by
  intro rest
  show bare .outside (c :: rest) = c :: bare .outside rest
  rw [bare, if_neg quote]

theorem Bare.cons {c : Fin 0x110000} {s marks : Text} (quote : c.val ≠ 34) (rest : Bare s marks) :
    Bare (c :: s) (c :: marks) := (Bare.one quote).append rest

/-- Without a quote, a text is its own bare part. -/
theorem Bare.self {s : Text} (quotes : ∀ c ∈ s, c.val ≠ 34) : Bare s s := by
  induction s with
  | nil => exact Bare.nil
  | cons c s ih =>
      exact Bare.cons (quotes c List.mem_cons_self) (ih fun d mem =>
        quotes d (List.mem_cons_of_mem c mem))

theorem Bare.unique {s marks marks' : Text} (one : Bare s marks) (other : Bare s marks') :
    marks = marks' := by
  have same := (one []).symm.trans (other [])
  simpa [bare] using same

theorem bare_inside {c : Fin 0x110000} (s : Text) (quote : c.val ≠ 34) (backslash : c.val ≠ 92) :
    bare .inside (c :: s) = bare .inside s := by
  rw [bare, if_neg quote, if_neg backslash]

theorem bare_hex {c : Fin 0x110000} (s : Text) (h : IsHex c) :
    bare .inside (c :: s) = bare .inside s := by
  obtain h | h | h := h <;> exact bare_inside s (by omega) (by omega)

/-- A string ends at the quote that closes it. -/
theorem Inside.closes {s : Text} (h : Inside s) (rest : Text) :
    bare .inside (s ++ chr 34 :: rest) = bare .outside rest := by
  induction h with
  | nil => exact if_pos rfl
  | plain _ quote backslash _ ih => rw [List.cons_append, bare_inside _ quote backslash, ih]
  | short _ _ ih => exact ih
  | @unicode a b c d s ha hb hc hd _ ih =>
      show bare .inside (a :: b :: c :: d :: (s ++ chr 34 :: rest)) = _
      rw [bare_hex _ ha, bare_hex _ hb, bare_hex _ hc, bare_hex _ hd, ih]

theorem Bare.quoted {s : Text} (h : Inside s) : Bare (quoted s) [] := by
  intro rest
  have assoc : (s ++ [chr 34]) ++ rest = s ++ chr 34 :: rest := by
    rw [List.append_assoc, List.singleton_append]
  show bare .inside ((s ++ [chr 34]) ++ rest) = bare .outside rest
  rw [assoc, h.closes]

/-! ## Numbers -/

/-- The characters of a number. -/
theorem NumberText.chars {s : Text} (h : NumberText s) {c : Fin 0x110000} (mem : c ∈ s) :
    (48 ≤ c.val ∧ c.val ≤ 57) ∨ c.val = 43 ∨ c.val = 45 ∨ c.val = 46 ∨ c.val = 69 ∨
      c.val = 101 := by
  obtain ⟨sign, whole, fraction, exponent, rfl, hsign, hwhole, hfraction, hexponent⟩ := h.parts
  simp only [List.mem_append] at mem
  obtain ((mem | mem) | mem) | mem := mem
  · obtain rfl | rfl := hsign
    · cases mem
    · obtain rfl := List.mem_singleton.1 mem
      exact .inr (.inr (.inl rfl))
  · exact .inl (hwhole.1.digits c mem)
  · obtain rfl | ⟨digits, hdigits, rfl⟩ := hfraction
    · cases mem
    · obtain rfl | mem := List.mem_cons.1 mem
      · exact .inr (.inr (.inr (.inl rfl)))
      · exact .inl (hdigits.digits c mem)
  · obtain rfl | ⟨mark, sign', digits, hmark, hsign', hdigits, rfl⟩ := hexponent
    · cases mem
    · obtain rfl | mem := List.mem_cons.1 mem
      · obtain rfl | rfl := hmark
        · exact .inr (.inr (.inr (.inr (.inr rfl))))
        · exact .inr (.inr (.inr (.inr (.inl rfl))))
      · obtain mem | mem := List.mem_append.1 mem
        · obtain rfl | rfl | rfl := hsign'
          · cases mem
          · obtain rfl := List.mem_singleton.1 mem
            exact .inr (.inl rfl)
          · obtain rfl := List.mem_singleton.1 mem
            exact .inr (.inr (.inl rfl))
        · exact .inl (hdigits.digits c mem)

/-- The digits of a number as a text. -/
def naturalText (n : ℕ) : Text := (decimal n).map chr

def integerText (n : ℤ) : Text :=
  (if n < 0 then [chr 45] else []) ++ naturalText n.natAbs

theorem digits_naturalText (n : ℕ) : Digits (naturalText n) := by
  constructor
  · intro none_
    exact decimal_ne_nil n (List.map_eq_nil_iff.1 none_)
  · intro c mem
    obtain ⟨d, inside, rfl⟩ := List.mem_map.1 mem
    have bounds := decimal_bounds inside
    rw [val_chr, Nat.mod_eq_of_lt (by omega)]
    exact bounds

theorem integerText_number (n : ℤ) : NumberText (integerText n) := by
  refine ⟨⟨if n < 0 then [chr 45] else [], naturalText n.natAbs, [], [], ?_, ?_,
    ⟨digits_naturalText _, ?_⟩, .inl rfl, .inl rfl⟩⟩
  · show integerText n = integerText n ++ [] ++ []
    rw [List.append_nil, List.append_nil]
  · split
    · exact .inr rfl
    · exact .inl rfl
  · intro zero
    obtain none_ | pos := Nat.eq_zero_or_pos n.natAbs
    · rw [none_]
      rfl
    · obtain ⟨d, rest, same, no_zero⟩ := head_decimal pos
      have bounds := decimal_bounds (n := n.natAbs) (d := d) (same ▸ List.mem_cons_self)
      rw [naturalText, same, List.map_cons, List.head?_cons] at zero
      have value := congrArg Fin.val (Option.some.inj zero)
      rw [val_chr, val_chr, Nat.mod_eq_of_lt (by omega)] at value
      exact absurd value no_zero

/-! ## What no JSON text says -/

/-- Whether a mark starts `NaN` or `Infinity`. -/
def namesNoNumber (c : Fin 0x110000) : Bool := c.val == 73 || c.val == 78

def quiet (marks : Text) : Bool := marks.all fun c => !namesNoNumber c

@[simp] theorem quiet_append (s t : Text) : quiet (s ++ t) = (quiet s && quiet t) :=
  List.all_append

@[simp] theorem quiet_cons (c : Fin 0x110000) (s : Text) :
    quiet (c :: s) = (!namesNoNumber c && quiet s) := rfl

theorem NumberText.quiet {s : Text} (h : NumberText s) : quiet s = true := by
  refine List.all_eq_true.2 fun c mem => ?_
  have shape := h.chars mem
  simp only [namesNoNumber, Bool.not_eq_true', Bool.or_eq_false_iff, beq_eq_false_iff_ne]
  omega

theorem NumberText.bare {s : Text} (h : NumberText s) : Bare s s :=
  Bare.self fun c mem => by
    have shape := h.chars mem
    omega

theorem Blank.bare {s : Text} (h : Blank s) : Bare s s :=
  Bare.self fun c mem => by
    have shape := h c mem
    omega

theorem Blank.quiet {s : Text} (h : Blank s) : quiet s = true := by
  refine List.all_eq_true.2 fun c mem => ?_
  have shape := h c mem
  simp only [namesNoNumber, Bool.not_eq_true', Bool.or_eq_false_iff, beq_eq_false_iff_ne]
  omega

/-- Between two marks. -/
theorem Bare.between {s marks : Text} {first last : Fin 0x110000} (open_ : first.val ≠ 34)
    (close : last.val ≠ 34) (h : Bare s marks) :
    Bare (first :: (s ++ [last])) (first :: (marks ++ [last])) :=
  Bare.cons open_ (h.append (Bare.one close))

theorem quiet_between {marks : Text} {first last : Fin 0x110000}
    (open_ : namesNoNumber first = false) (close : namesNoNumber last = false) :
    quiet (first :: (marks ++ [last])) = quiet marks := by
  rw [quiet_cons, quiet_append, quiet_cons, open_, close]
  exact (Bool.true_and _).trans (Bool.and_true _)

/-- Outside its strings, a JSON text names neither `NaN` nor `Infinity`. -/
theorem Spelled.quiet {k : Category} {s : Text} (h : Spelled k s) :
    ∃ marks, Bare s marks ∧ quiet marks = true := by
  induction h with
  | null => exact ⟨text "null", fun _ => rfl, rfl⟩
  | true_ => exact ⟨text "true", fun _ => rfl, rfl⟩
  | false_ => exact ⟨text "false", fun _ => rfl, rfl⟩
  | number h => exact ⟨_, h.bare, h.quiet⟩
  | string h => exact ⟨_, Bare.quoted h, rfl⟩
  | emptyArray h | emptyObject h =>
      exact ⟨_, h.bare.between (by decide) (by decide), (quiet_between rfl rfl).trans h.quiet⟩
  | array _ ih | object _ ih =>
      obtain ⟨marks, outside, quiet⟩ := ih
      exact ⟨_, outside.between (by decide) (by decide), (quiet_between rfl rfl).trans quiet⟩
  | padded _ left right ih =>
      obtain ⟨marks, outside, quiet⟩ := ih
      refine ⟨_, (left.bare.append outside).append right.bare, ?_⟩
      rw [quiet_append, quiet_append, left.quiet, right.quiet, quiet]
      rfl
  | item _ ih => exact ih
  | items _ _ ih ih' | members _ _ ih ih' =>
      obtain ⟨marks, outside, quiet⟩ := ih
      obtain ⟨marks', outside', quiet'⟩ := ih'
      refine ⟨_, outside.append (Bare.cons (by decide) outside'), ?_⟩
      rw [quiet_append, quiet_cons, quiet, quiet']
      rfl
  | member name blank _ ih =>
      obtain ⟨marks, outside, quiet⟩ := ih
      refine ⟨_, ((Bare.quoted name).append blank.bare).append (Bare.cons (by decide) outside), ?_⟩
      rw [quiet_append, quiet_append, quiet_cons, blank.quiet, quiet]
      rfl

end Hx.Library
