import Hx.Library.Lowering

/-!
# Strict UTF-8

What is no UTF-8 is refused, and so is a text with a surrogate in it: encoding such a text
fails, and no bytes decode to one.
-/

namespace Hx.Library

/-- A code point that is a character: no surrogate. -/
def isScalar (c : Fin 0x110000) : Bool := c.val < 0xd800 || 0xe000 ≤ c.val

abbrev Scalars (t : Text) : Prop := ∀ c ∈ t, isScalar c = true

theorem scalars_cons {c : Fin 0x110000} {t : Text} :
    Scalars (c :: t) ↔ isScalar c = true ∧ Scalars t := List.forall_mem_cons

theorem scalars_append {s t : Text} : Scalars (s ++ t) ↔ Scalars s ∧ Scalars t :=
  List.forall_mem_append

/-- The character of a code point that is one. -/
def toChar (c : Fin 0x110000) : Char := Char.ofNat c.val

theorem toNat_toChar {c : Fin 0x110000} (valid : c.val.isValidChar) : (toChar c).toNat = c.val := by
  rw [toChar, Char.ofNat, dif_pos valid]
  rfl

def ofChar (c : Char) : Fin 0x110000 := chr c.toNat

theorem val_ofChar (c : Char) : (ofChar c).val = c.toNat := by
  have bound : c.toNat < 0x110000 := by
    cases c.valid with
    | inl small =>
        show c.val.toNat < 0x110000
        omega
    | inr large => exact large.2
  exact Nat.mod_eq_of_lt bound

theorem isValidChar_of_isScalar {c : Fin 0x110000} (scalar : isScalar c = true) :
    c.val.isValidChar := by
  simp only [isScalar, Bool.or_eq_true, decide_eq_true_eq] at scalar
  cases scalar with
  | inl small => exact .inl small
  | inr large => exact .inr ⟨large, c.isLt⟩

theorem ofChar_toChar {c : Fin 0x110000} (scalar : isScalar c = true) : ofChar (toChar c) = c := by
  apply Fin.ext
  rw [val_ofChar, toNat_toChar (isValidChar_of_isScalar scalar)]

def utf8Bytes (t : Text) : List UInt8 := t.flatMap fun c => String.utf8EncodeChar (toChar c)

/-- The bytes of a text; one with a surrogate has none. -/
def utf8Encode (t : Text) : Option (List UInt8) :=
  if t.all isScalar then some (utf8Bytes t) else none

/-- The text that some bytes are; there is none where they are no UTF-8. -/
def utf8Decode (b : List UInt8) : Option Text :=
  b.toByteArray.utf8Decode?.map fun cs => cs.toList.map ofChar

theorem utf8Encode_eq_some {t : Text} {b : List UInt8} :
    utf8Encode t = some b ↔ Scalars t ∧ utf8Bytes t = b := by
  rw [utf8Encode]
  split_ifs with all
  · rw [List.all_eq_true] at all
    exact ⟨fun same => ⟨all, Option.some.inj same⟩, fun same => congrArg some same.2⟩
  · rw [List.all_eq_true] at all
    exact ⟨fun none_ => by contradiction, fun same => absurd same.1 all⟩

/-- What is encoded is decoded again. -/
theorem utf8Decode_utf8Bytes {t : Text} (scalars : Scalars t) :
    utf8Decode (utf8Bytes t) = some t := by
  have encoded : (utf8Bytes t).toByteArray = (t.map toChar).utf8Encode := by
    rw [utf8Bytes, List.utf8Encode, List.flatMap_map]
  have back : (t.map toChar).map ofChar = t := by
    rw [List.map_map]
    calc t.map (ofChar ∘ toChar) = t.map id :=
          List.map_congr_left fun c mem => ofChar_toChar (scalars c mem)
      _ = t := List.map_id t
  rw [utf8Decode, encoded, List.utf8Decode?_utf8Encode, Option.map_some, List.toList_toArray, back]

/-- A byte below 0x80 is a character of its own. -/
theorem mem_utf8EncodeChar_ascii {c : Char} {b : UInt8} (ascii : b.toNat < 0x80)
    (mem : b ∈ String.utf8EncodeChar c) : c.toNat = b.toNat := by
  have val : c.val.toNat = c.toNat := rfl
  rw [String.utf8EncodeChar] at mem
  simp only [val] at mem
  split_ifs at mem with one two three
  all_goals
    simp only [List.mem_cons, List.not_mem_nil, or_false] at mem
  · rw [mem, UInt8.toNat_ofNat']
    omega
  · rcases mem with rfl | rfl
    all_goals
      rw [UInt8.toNat_ofNat'] at ascii
      omega
  · rcases mem with rfl | rfl | rfl
    all_goals
      rw [UInt8.toNat_ofNat'] at ascii
      omega
  · rcases mem with rfl | rfl | rfl | rfl
    all_goals
      rw [UInt8.toNat_ofNat'] at ascii
      omega

theorem notMem_utf8Bytes {t : Text} (scalars : Scalars t) {b : UInt8} (ascii : b.toNat < 0x80)
    (absent : ∀ c ∈ t, c.val ≠ b.toNat) : b ∉ utf8Bytes t := by
  intro mem
  obtain ⟨c, inside, byte⟩ := List.mem_flatMap.1 mem
  have same := mem_utf8EncodeChar_ascii ascii byte
  rw [toNat_toChar (isValidChar_of_isScalar (scalars c inside))] at same
  exact absent c inside same

end Hx.Library
