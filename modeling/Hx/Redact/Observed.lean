import Hx.Redact.Target
import Mathlib.Data.List.DropRight

/-!
# Redaction of an observed request

The head of a request is read line by line. The value of a credential header and of every
fold of it is replaced, and the first line of the head is redacted as a target. What follows
the first empty line is copied.
-/

namespace Hx.Redact

open Hx.Library

abbrev Bytes := List UInt8

/-- `getBytes(US_ASCII)`, of a literal. -/
def usAscii (s : String) : Bytes := s.toList.map fun c => UInt8.ofNat c.toNat

/-! ## Names -/

def credentialHeaders : List String := ["authorization", "cookie", "proxy-authorization"]

/-- The placeholders, in the order of the headers. -/
def observedCredential : List Bytes := credentialHeaders.map fun name =>
  usAscii "\x7b\x7bobserved:" ++ usAscii name ++ usAscii "\x7d\x7d"

def observedUserinfo : Bytes := usAscii "\x7b\x7bobserved:userinfo\x7d\x7d"

def observedParam : Bytes := usAscii "\x7b\x7bobserved:param\x7d\x7d"

def credentialParams : List String :=
  ["access_token", "refresh_token", "id_token", "auth_token", "token", "jwt", "api_key", "apikey",
    "api-key", "key", "secret", "client_secret", "password", "passwd", "pwd", "auth",
    "authorization", "sig", "signature", "session", "sessionid", "sid", "x-amz-signature",
    "x-amz-credential", "x-amz-security-token"]

/-- Space, tab, CR and LF. -/
def isOws (b : UInt8) : Bool := [32, 9, 13, 10].contains b

def isBlank (b : UInt8) : Bool := [32, 9].contains b

def asciiLower (b : UInt8) : UInt8 := if 65 ≤ b ∧ b ≤ 90 then b + 32 else b

def asciiEqualsIgnoreCase (lower : String) (actual : Bytes) : Bool :=
  actual.map asciiLower == usAscii lower

/-! ## The target -/

def isCredentialParam (name : Bytes) : Bool :=
  credentialParams.any fun wanted => asciiEqualsIgnoreCase wanted name

theorem letters_of_params : ∀ wanted ∈ credentialParams, ∀ b ∈ usAscii wanted,
    97 ≤ b.toNat ∨ b.toNat = 95 ∨ 45 = b.toNat := by
  have listed : (credentialParams.all fun wanted => (usAscii wanted).all fun b =>
      decide (97 ≤ b.toNat ∨ b.toNat = 95 ∨ 45 = b.toNat)) = true := by decide +kernel
  intro wanted mem b letter
  exact of_decide_eq_true (List.all_eq_true.1 (List.all_eq_true.1 listed wanted mem) b letter)

/-- Names are letters, `_` and `-`. -/
theorem isCredentialParam_plain (name : Bytes) (named : isCredentialParam name = true) :
    ∀ b ∈ name, b.toNat ∉ [9, 10, 13, 32, 35, 38, 47, 58, 61, 63, 64] := by
  intro b mem
  obtain ⟨wanted, listed, same⟩ := List.any_eq_true.1 named
  have lower : asciiLower b ∈ usAscii wanted := by
    rw [← beq_iff_eq.1 same]
    exact List.mem_map_of_mem mem
  have letter := letters_of_params wanted listed _ lower
  simp only [List.mem_cons, List.not_mem_nil, or_false]
  rw [asciiLower] at letter
  split at letter
  · rename_i capital
    have least : 65 ≤ b.toNat := UInt8.le_iff_toNat_le.1 capital.1
    have most : b.toNat ≤ 90 := UInt8.le_iff_toNat_le.1 capital.2
    omega
  · omega

theorem observedUserinfo_plain : ∀ b ∈ observedUserinfo, b.toNat ≠ 38 ∧ b.toNat ≠ 61 :=
  List.all_iff_forall_prop.1 (by decide)

theorem toNat_ofNat {n : ℕ} (low : n < 128) : (UInt8.ofNat n).toNat = n :=
  UInt8.toNat_ofNat_of_lt (low.trans (by decide))

/-- Bytes as letters of a target; cuts are sorted by their start. -/
def redactor : Vocabulary UInt8 where
  code b := b.toNat
  ofCode n := UInt8.ofNat n
  userinfo := observedUserinfo
  param := observedParam
  isCredentialParam := isCredentialParam
  before c d := c.start ≤ d.start
  code_ofCode _ low := toNat_ofNat low
  userinfo_ne_nil := List.cons_ne_nil _ _
  userinfo_plain := observedUserinfo_plain
  name_plain := isCredentialParam_plain
  ordered _ _ less := decide_eq_true less.le
  strict _ _ le := of_decide_eq_true le
  before_shift n _ _ := by
    simp only [Cut.shift, Nat.add_le_add_iff_left]

def redactTarget (line : Bytes) : Bytes := redactor.redact line

/-! ## Lines -/

/-- The text cut behind every LF. -/
def linesOf : Bytes → List Bytes
  | [] => []
  | b :: rest =>
      if b = 10 then [b] :: linesOf rest
      else match linesOf rest with
        | [] => [[b]]
        | line :: lines => (b :: line) :: lines

def chop (b : UInt8) (line : Bytes) : Bytes :=
  if line.getLast? = some b then line.dropLast else line

/-- The line without its terminator, be it CRLF or a bare LF. -/
def contentOf (line : Bytes) : Bytes := chop 13 (chop 10 line)

/-- Which credential header the line is, by the name before its first colon. -/
def credentialOf (content : Bytes) : Option ℕ :=
  match content.idxOf? 58 with
  | none => none
  | some 0 => none
  | some (colon + 1) =>
      credentialHeaders.findIdx? fun wanted =>
        asciiEqualsIgnoreCase wanted ((content.take (colon + 1)).rdropWhile isOws)

def isFold (line : Bytes) : Bool := line.head?.any isBlank

def placeholder (credential : ℕ) : Bytes := observedCredential.getD credential []

/-- A continuation: of a credential it goes whole, but for its blanks. -/
def redactFold (credential : Option ℕ) (line : Bytes) : Bytes :=
  match credential with
  | none => line
  | some k =>
      (contentOf line).takeWhile isBlank ++ placeholder k ++ line.drop (contentOf line).length

/-- A credential field keeps its name and the blanks before its value. -/
def redactField (k : ℕ) (line : Bytes) : Bytes :=
  let value := (contentOf line).idxOf 58 + 1
  line.take value ++ ((contentOf line).drop value).takeWhile isBlank ++ placeholder k ++
    line.drop (contentOf line).length

/-- The loop over the lines that are left: whether the head has not begun, whether its first
line is done, and the credential header the last field was. -/
def redactLines (first targetDone : Bool) (credential : Option ℕ) : List Bytes → Bytes
  | [] => []
  | line :: rest =>
      if contentOf line = [] then
        if first then line ++ redactLines first targetDone credential rest
        else (line :: rest).flatten
      else if isFold line then
        redactFold credential line ++ redactLines false true credential rest
      else match credentialOf (contentOf line) with
        | none =>
            (if targetDone then line else redactTarget line) ++ redactLines false true none rest
        | some k => redactField k line ++ redactLines false true (some k) rest

def redactObservedRequest (raw : Bytes) : Bytes := redactLines true false none (linesOf raw)

end Hx.Redact
