import Hx.Python.Text
import Mathlib

/-!
# `bytes.decode("utf-8", "replace")`

Bytes that are no character are replaced: a lead byte together with the bytes behind it that
could go on, three at most. What comes out is encoded in no fewer bytes than went in, and in no
more of the ASCII ones.
-/

namespace Hx.Python

/-- U+FFFD. -/
def replacement : Char := '\ufffd'

/-- The character at the front, if one is there. -/
def decodeFirst (b : Bytes) : Option Char := b.toByteArray.utf8DecodeChar? 0

def isContinuation (x : UInt8) : Bool := 0x80 ≤ x && x ≤ 0xbf

/-- Whether a second byte can go on behind a lead byte of three or four. -/
def secondFits (lead second : UInt8) : Bool :=
  if lead == 0xe0 then 0xa0 ≤ second && second ≤ 0xbf
  else if lead == 0xed then 0x80 ≤ second && second ≤ 0x9f
  else if lead == 0xf0 then 0x90 ≤ second && second ≤ 0xbf
  else if lead == 0xf4 then 0x80 ≤ second && second ≤ 0x8f
  else isContinuation second

/-- How many bytes one U+FFFD stands for. -/
def brokenLength : Bytes → ℕ
  | lead :: second :: third :: _ =>
      if 0xe0 ≤ lead && lead ≤ 0xf4 && secondFits lead second then
        if 0xf0 ≤ lead && isContinuation third then 3 else 2
      else 1
  | [lead, second] => if 0xe0 ≤ lead && lead ≤ 0xf4 && secondFits lead second then 2 else 1
  | _ => 1

/-- The decoder's loop, with fuel for each byte. -/
def decodeReplaceFrom : ℕ → Bytes → List Char
  | 0, _ => []
  | _ + 1, [] => []
  | fuel + 1, x :: b =>
      match decodeFirst (x :: b) with
      | some c => c :: decodeReplaceFrom fuel ((x :: b).drop c.utf8Size)
      | none => replacement :: decodeReplaceFrom fuel ((x :: b).drop (brokenLength (x :: b)))

/-- `b.decode("utf-8", "replace")`. -/
def decodeReplace (b : Bytes) : List Char := decodeReplaceFrom b.length b

variable {b : Bytes} {c : Char}

theorem decodeFirst_encoded (c : Char) (b : Bytes) :
    decodeFirst (String.utf8EncodeChar c ++ b) = some c := by
  rw [decodeFirst, List.toByteArray_append]
  exact ByteArray.utf8DecodeChar?_utf8EncodeChar_append

theorem of_decodeFirst (first : decodeFirst b = some c) :
    b = String.utf8EncodeChar c ++ b.drop c.utf8Size := by
  obtain ⟨rest, whole⟩ := ByteArray.exists_of_utf8DecodeChar?_eq_some first
  have lists : b = String.utf8EncodeChar c ++ rest.data.toList := by
    have data := congrArg (fun bytes : ByteArray => bytes.data.toList) whole
    simpa using data
  have tail : b.drop c.utf8Size = rest.data.toList := by
    rw [lists, ← String.length_utf8EncodeChar, List.drop_left]
  rw [tail]
  exact lists

theorem brokenLength_le (b : Bytes) : 1 ≤ brokenLength b ∧ brokenLength b ≤ 3 := by
  unfold brokenLength
  split
  · split
    · split <;> decide
    · decide
  · split <;> decide
  · decide

/-- What was encoded is decoded. -/
theorem decodeReplaceFrom_encoded : ∀ (s : List Char) {fuel : ℕ},
    (s.flatMap String.utf8EncodeChar).length ≤ fuel →
      decodeReplaceFrom fuel (s.flatMap String.utf8EncodeChar) = s
  | [], 0, _ => rfl
  | [], _ + 1, _ => rfl
  | c :: s, fuel, enough => by
      have positive : 0 < (String.utf8EncodeChar c).length := by
        rw [String.length_utf8EncodeChar]
        exact c.utf8Size_pos
      rw [List.flatMap_cons, List.length_append] at enough
      obtain ⟨fuel, rfl⟩ : ∃ n, fuel = n + 1 := ⟨fuel - 1, by omega⟩
      obtain ⟨x, rest, start⟩ := List.exists_cons_of_length_pos positive
      have whole : x :: (rest ++ s.flatMap String.utf8EncodeChar) =
          String.utf8EncodeChar c ++ s.flatMap String.utf8EncodeChar := by
        rw [start]
        rfl
      rw [List.flatMap_cons, ← whole, decodeReplaceFrom, whole, decodeFirst_encoded]
      dsimp only
      rw [← String.length_utf8EncodeChar, List.drop_left,
        decodeReplaceFrom_encoded s (by omega)]

theorem decodeReplace_encoded (s : List Char) :
    decodeReplace (s.flatMap String.utf8EncodeChar) = s :=
  decodeReplaceFrom_encoded s le_rfl

/-- Nothing is encoded in fewer bytes than it was decoded from. -/
theorem length_le_decodeReplaceFrom : ∀ (fuel : ℕ) (b : Bytes), b.length ≤ fuel →
    b.length ≤ ((decodeReplaceFrom fuel b).flatMap String.utf8EncodeChar).length
  | 0, b, enough => enough.trans (Nat.zero_le _)
  | _ + 1, [], _ => Nat.zero_le _
  | fuel + 1, x :: b, enough => by
      rw [decodeReplaceFrom]
      cases first : decodeFirst (x :: b) with
      | some c =>
          have size := c.utf8Size_pos
          have short : ((x :: b).drop c.utf8Size).length ≤ fuel := by
            rw [List.length_drop]
            omega
          have rest := length_le_decodeReplaceFrom fuel _ short
          dsimp only
          rw [List.flatMap_cons, List.length_append, String.length_utf8EncodeChar]
          rw [List.length_drop] at rest
          omega
      | none =>
          have broken := brokenLength_le (x :: b)
          have three : (String.utf8EncodeChar replacement).length = 3 := by decide
          have short : ((x :: b).drop (brokenLength (x :: b))).length ≤ fuel := by
            rw [List.length_drop]
            omega
          have rest := length_le_decodeReplaceFrom fuel _ short
          dsimp only
          rw [List.flatMap_cons, List.length_append, three]
          rw [List.length_drop] at rest
          omega

/-- The sign for what was broken has no byte of ASCII. -/
theorem replacement_high :
    (String.utf8EncodeChar replacement).all (fun x => Nat.ble 128 x.toNat) = true := by decide

theorem sum_replacement (w : UInt8 → ℕ) (high : ∀ x, 128 ≤ x.toNat → w x = 0) :
    ((String.utf8EncodeChar replacement).map w).sum = 0 := by
  refine List.sum_eq_zero_iff_forall_eq_nat.2 fun n mem => ?_
  obtain ⟨x, inside, rfl⟩ := List.mem_map.1 mem
  exact high x (Nat.le_of_ble_eq_true (List.all_eq_true.1 replacement_high x inside))

/-- A weight that only ASCII bytes have does not grow. -/
theorem sum_decodeReplaceFrom (w : UInt8 → ℕ) (high : ∀ x, 128 ≤ x.toNat → w x = 0) :
    ∀ (fuel : ℕ) (b : Bytes),
      (((decodeReplaceFrom fuel b).flatMap String.utf8EncodeChar).map w).sum ≤ (b.map w).sum
  | 0, _ => Nat.zero_le _
  | _ + 1, [] => le_rfl
  | fuel + 1, x :: b => by
      rw [decodeReplaceFrom]
      cases first : decodeFirst (x :: b) with
      | some c =>
          have rest := sum_decodeReplaceFrom w high fuel ((x :: b).drop c.utf8Size)
          dsimp only
          rw [List.flatMap_cons, List.map_append, List.sum_append_nat]
          conv_rhs => rw [of_decodeFirst first, List.map_append, List.sum_append_nat]
          exact Nat.add_le_add_left rest _
      | none =>
          have rest := sum_decodeReplaceFrom w high fuel
            ((x :: b).drop (brokenLength (x :: b)))
          have dropped : (((x :: b).drop (brokenLength (x :: b))).map w).sum ≤
              ((x :: b).map w).sum := by
            conv_rhs => rw [← List.take_append_drop (brokenLength (x :: b)) (x :: b),
              List.map_append, List.sum_append_nat]
            exact Nat.le_add_left _ _
          dsimp only
          rw [List.flatMap_cons, List.map_append, List.sum_append_nat,
            sum_replacement w high, Nat.zero_add]
          exact rest.trans dropped

end Hx.Python
