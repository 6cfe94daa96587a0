import Hx.Library.Codes
import Hx.Library.Lowering
import Hx.Python.Text

/-!
# The identity of a cookie's finding

The name of a cookie is taken to its bytes, surrogates among them, and each byte is one character
or an escape of three. Both are codes that say where they end.
-/

namespace Hx.Checks.CookieIdentity

open Hx.Library
open Hx.Python (hexDigit)

/-! ## The bytes of a name -/

/-- What `encode("utf-8", "surrogatepass")` makes of one code point. -/
def pointBytes (c : Fin 0x110000) : List UInt8 :=
  if c.val < 0x80 then [UInt8.ofNat c.val]
  else if c.val < 0x800 then [UInt8.ofNat (0xc0 + c.val / 64), UInt8.ofNat (0x80 + c.val % 64)]
  else if c.val < 0x10000 then
    [UInt8.ofNat (0xe0 + c.val / 4096), UInt8.ofNat (0x80 + c.val / 64 % 64),
      UInt8.ofNat (0x80 + c.val % 64)]
  else
    [UInt8.ofNat (0xf0 + c.val / 262144), UInt8.ofNat (0x80 + c.val / 4096 % 64),
      UInt8.ofNat (0x80 + c.val / 64 % 64), UInt8.ofNat (0x80 + c.val % 64)]

/-- The code point at the front, read from as many bytes as its first one announces. -/
def firstPoint : List UInt8 → Option (Fin 0x110000 × List UInt8)
  | [] => none
  | a :: rest =>
      let more (i : ℕ) : ℕ := (rest.getD i 0).toNat - 0x80
      if a.toNat < 0x80 then some (chr a.toNat, rest)
      else if a.toNat < 0xe0 then some (chr ((a.toNat - 0xc0) * 64 + more 0), rest.drop 1)
      else if a.toNat < 0xf0 then
        some (chr ((a.toNat - 0xe0) * 4096 + more 0 * 64 + more 1), rest.drop 2)
      else
        some (chr ((a.toNat - 0xf0) * 262144 + more 0 * 4096 + more 1 * 64 + more 2), rest.drop 3)

theorem toNat_ofNat {n : ℕ} (small : n < 256) : (UInt8.ofNat n).toNat = n := by
  rw [UInt8.toNat_ofNat']
  omega

theorem chr_val {n : ℕ} {c : Fin 0x110000} (same : n = c.val) : chr n = c := by
  have bound := c.isLt
  refine Fin.ext ?_
  rw [val_chr]
  omega

/-- The lengths of the codes are told by their first bytes. -/
theorem reads_pointBytes : Reads pointBytes firstPoint where
  front c rest := by
    have bound := c.isLt
    have found {n : ℕ} (same : n = c.val) : some (chr n, rest) = some (c, rest) := by
      rw [chr_val same]
    rw [pointBytes]
    split_ifs with one two three
    · rw [List.singleton_append, firstPoint, toNat_ofNat (by omega), if_pos one]
      exact found rfl
    · rw [List.cons_append, firstPoint, toNat_ofNat (by omega), if_neg (by omega),
        if_pos (by omega)]
      show some (chr (_ + ((UInt8.ofNat (0x80 + c.val % 64)).toNat - 0x80)), rest) = _
      rw [toNat_ofNat (by omega)]
      exact found (by omega)
    · rw [List.cons_append, firstPoint, toNat_ofNat (by omega), if_neg (by omega),
        if_neg (by omega), if_pos (by omega)]
      show some (chr (_ + ((UInt8.ofNat (0x80 + c.val / 64 % 64)).toNat - 0x80) * 64 +
        ((UInt8.ofNat (0x80 + c.val % 64)).toNat - 0x80)), rest) = _
      rw [toNat_ofNat (by omega), toNat_ofNat (by omega)]
      exact found (by omega)
    · rw [List.cons_append, firstPoint, toNat_ofNat (by omega), if_neg (by omega),
        if_neg (by omega), if_neg (by omega)]
      show some (chr (_ + ((UInt8.ofNat (0x80 + c.val / 4096 % 64)).toNat - 0x80) * 4096 +
        ((UInt8.ofNat (0x80 + c.val / 64 % 64)).toNat - 0x80) * 64 +
        ((UInt8.ofNat (0x80 + c.val % 64)).toNat - 0x80)), rest) = _
      rw [toNat_ofNat (by omega), toNat_ofNat (by omega), toNat_ofNat (by omega)]
      exact found (by omega)
  some_ c := by
    rw [pointBytes]
    split_ifs
    all_goals exact List.cons_ne_nil _ _

/-! ## The spelling of a byte -/

/-- `_SAFE`. -/
def safe : List Char :=
  "ABCDEFGHIJKLMNOPQRSTUVWXYZabcdefghijklmnopqrstuvwxyz0123456789-._".toList

def spelled (b : UInt8) : List Char :=
  if safe.contains (Char.ofNat b.toNat) then [Char.ofNat b.toNat]
  else ['%', hexDigit (b.toNat / 16), hexDigit (b.toNat % 16)]

/-- The value of an upper-case digit. -/
def digitValue (c : Char) : ℕ := if c.toNat < 65 then c.toNat - 48 else c.toNat - 55

/-- The byte at the front: an escape, or a character. -/
def firstByte : List Char → Option (UInt8 × List Char)
  | [] => none
  | c :: rest =>
      if c = '%' then
        some (UInt8.ofNat (digitValue (rest.getD 0 ' ') * 16 + digitValue (rest.getD 1 ' ')),
          rest.drop 2)
      else some (UInt8.ofNat c.toNat, rest)

/-- `_encode_name`. -/
def encodeName (name : Text) : List Char := (name.flatMap pointBytes).flatMap spelled

/-- What stands in front of the name in an issue type, and behind it. -/
def opening : List Char := ['c', 'o', 'o', 'k', 'i', 'e', '-']

def closing : List Char := ['-', 'f', 'l', 'a', 'g', 's']

/-- `_issue_type`. -/
def issueType (name : Text) : List Char := opening ++ (encodeName name ++ closing)

/-- The name that is in an issue type. -/
def decodeName (type_ : List Char) : Option Text :=
  (readWord firstByte ((type_.drop 7).take (type_.length - 13))).bind (readWord firstPoint)

theorem digitValue_hexDigit : ∀ n, n < 16 → digitValue (hexDigit n) = n := by decide

theorem hexDigit_plain : ∀ n, n < 16 → hexDigit n ≠ '|' := by decide

theorem safe_plain : '%' ∉ safe ∧ '|' ∉ safe := by decide

theorem toNat_byteChar (b : UInt8) : (Char.ofNat b.toNat).toNat = b.toNat := by
  have valid : b.toNat.isValidChar := .inl (b.toNat_lt.trans (by decide))
  rw [Char.ofNat, dif_pos valid]
  rfl

theorem reads_spelled : Reads spelled firstByte where
  front b rest := by
    have bound := b.toNat_lt
    rw [spelled]
    split_ifs with kept
    · have other : Char.ofNat b.toNat ≠ '%' := fun same =>
        safe_plain.1 (same ▸ List.contains_iff_mem.1 kept)
      rw [List.singleton_append, firstByte, if_neg other, toNat_byteChar, UInt8.ofNat_toNat]
    · have whole : b.toNat / 16 * 16 + b.toNat % 16 = b.toNat := by omega
      rw [List.cons_append, firstByte, if_pos rfl]
      show some (UInt8.ofNat (digitValue (hexDigit (b.toNat / 16)) * 16 +
        digitValue (hexDigit (b.toNat % 16))), rest) = _
      rw [digitValue_hexDigit _ (by omega), digitValue_hexDigit _ (by omega), whole,
        UInt8.ofNat_toNat]
  some_ b := by
    rw [spelled]
    split_ifs
    all_goals exact List.cons_ne_nil _ _

theorem spelled_plain (b : UInt8) : '|' ∉ spelled b := by
  have bound := b.toNat_lt
  rw [spelled]
  split_ifs with kept
  · intro mem
    rw [← List.mem_singleton.1 mem] at kept
    exact safe_plain.2 (List.contains_iff_mem.1 kept)
  · intro mem
    simp only [List.mem_cons, List.not_mem_nil, or_false] at mem
    rcases mem with bar | bar | bar
    · exact absurd bar (by decide)
    · exact hexDigit_plain _ (by omega) bar.symm
    · exact hexDigit_plain _ (by omega) bar.symm

theorem encodeName_plain (name : Text) : '|' ∉ encodeName name := by
  intro mem
  obtain ⟨b, -, inside⟩ := List.mem_flatMap.1 mem
  exact spelled_plain b inside

theorem middle_issueType (name : Text) :
    ((issueType name).drop 7).take ((issueType name).length - 13) = encodeName name := by
  have front : opening.length = 7 := rfl
  have back : closing.length = 6 := rfl
  have rest : (issueType name).drop 7 = encodeName name ++ closing := List.drop_left' front
  have length : (issueType name).length - 13 = (encodeName name).length := by
    rw [issueType, List.length_append, List.length_append, front, back]
    omega
  rw [rest, length, List.take_left]

/-- The name is read back. -/
theorem decodeName_issueType (name : Text) : decodeName (issueType name) = some name := by
  rw [decodeName, middle_issueType, encodeName, reads_spelled.readWord, Option.bind_some,
    reads_pointBytes.readWord]

theorem issueType_plain (name : Text) : '|' ∉ issueType name := by
  intro mem
  rw [issueType, List.mem_append, List.mem_append] at mem
  rcases mem with front | middle | back
  · exact absurd front (by decide)
  · exact encodeName_plain name middle
  · exact absurd back (by decide)

/-- Two names have one issue type only if they are one name; it never holds the separator of a
finding's key, and the name can be read from it. -/
theorem issueType_iff (a b : Text) : (issueType a = issueType b ↔ a = b) ∧
    '|' ∉ issueType a ∧ decodeName (issueType a) = some a := by
  refine ⟨⟨fun same => ?_, fun same => congrArg issueType same⟩, issueType_plain a,
    decodeName_issueType a⟩
  have read := decodeName_issueType a
  rw [same, decodeName_issueType b] at read
  exact (Option.some.inj read).symm

end Hx.Checks.CookieIdentity
