import Hx.Library.Message
import Hx.Python.Text
import Mathlib.Data.List.DropRight

/-!
# One request, written out

`request_bytes` writes an origin-form request from a method, a path, a host, header lines and
a body, or raises a `ValueError`.
-/

namespace Hx.Issue

open Hx.Python

abbrev Text := List Char

def txt (s : String) : Text := s.toList

/-! ## Python's integers and bytes -/

/-- The decimal digits of Unicode. In Latin-1 they are those of ASCII. -/
structure Decimals where
  digit : Char → Option ℕ
  latin1 : ∀ c : Char, c.toNat < 256 →
    digit c = if 48 ≤ c.toNat ∧ c.toNat ≤ 57 then some (c.toNat - 48) else none

/-- The longest number `int` reads. -/
def maxStrDigits : ℕ := 4300

/-- The digits behind a sign, with single underscores between them. -/
def digitsOf (D : Decimals) (s : Text) : Option ℕ :=
  let groups := s.splitOn '_'
  if (groups.all fun g => !g.isEmpty && g.all fun c => (D.digit c).isSome) ∧
      groups.flatten.length ≤ maxStrDigits then
    some (groups.flatten.foldl (fun n c => 10 * n + (D.digit c).getD 0) 0)
  else none

/-- `int(s)`, or nothing where it raises. -/
def int (D : Decimals) (s : Text) : Option ℤ :=
  match strip s with
  | '-' :: rest => (digitsOf D rest).map fun n => -(n : ℤ)
  | '+' :: rest => (digitsOf D rest).map fun n => (n : ℤ)
  | digits => (digitsOf D digits).map fun n => (n : ℤ)

def encodeChar (c : Char) : UInt8 := UInt8.ofNat c.toNat

/-- `s.encode("latin-1")`, or nothing where it raises. -/
def encodeLatin1 (s : Text) : Option (List UInt8) :=
  if s.all fun c => c.toNat < 256 then some (s.map encodeChar) else none

/-! ## Refusals -/

/-- What a `ValueError` quotes. -/
inductive RequestError where
  | forbidden (what : String) (ch : Char) (value : Text)
  | method (method : Text)
  | notOriginForm (path : Text)
  | space (path : Text)
  | noColon (line : Text)
  | fieldName (line : Text)
  | transferEncoding (line : Text)
  | notAnInteger (line : Text)
  | disagrees (line : Text) (length : ℕ)
  | hosts (hosts : List Text)
  | encode (head : Text)
  deriving DecidableEq

/-- The names of Python's that an error text needs: the `repr` of a string, that of a list of
them, and the text of a `UnicodeEncodeError`. -/
structure ErrorTexts where
  repr : Text → Text
  reprAll : List Text → Text
  encodeError : Text → Text

/-- `str(e)`. -/
def RequestError.text (T : ErrorTexts) : RequestError → Text
  | .forbidden what ch value => txt what ++ txt " contains " ++ T.repr [ch] ++
      txt ", which would end the line: " ++ T.repr value ++
      txt ". One request becoming two is the whole of request smuggling, and it would happen " ++
      txt "BELOW the gate -- the extension decides about the request it was handed, and the " ++
      txt "second request was never handed to it."
  | .method m => txt "method must be one token, got " ++ T.repr m
  | .notOriginForm path => txt "path must be origin-form and start with '/', got " ++ T.repr path
  | .space path => txt "path contains a space, which ends the request target: " ++ T.repr path ++
      txt ". Percent-encode it."
  | .noColon line => txt "header " ++ T.repr line ++
      txt " has no ':'; headers are wire lines of the form 'Name: value'"
  | .fieldName line => txt "header " ++ T.repr line ++
      txt " has an empty or whitespace-led field name. RFC 9112 has no field name that starts " ++
      txt "with whitespace -- that shape is obs-fold, which some parsers reject and some fold " ++
      txt "into the PRECEDING header, and an agent-supplied header line is not the place " ++
      txt "either behaviour is safe to invite."
  | .transferEncoding line => txt "header " ++ T.repr line ++
      txt " sets Transfer-Encoding, refused outright. A Content-Length/Transfer-Encoding " ++
      txt "disagreement is a request-smuggling primitive (CL.TE / TE.CL), and this seam is not " ++
      txt "where one gets built by accident -- deliberate desync testing needs a different " ++
      txt "tool than the one every agent request goes through."
  | .notAnInteger line => txt "header " ++ T.repr line ++ txt " is not a valid Content-Length integer"
  | .disagrees line length => txt "header " ++ T.repr line ++
      txt " disagrees with the body actually given (" ++ txt (toString length) ++
      txt " bytes). A Content-Length that does not match its body is a request-smuggling " ++
      txt "primitive, not a typo to silently correct."
  | .hosts lines => txt (toString lines.length) ++ txt " Host headers: " ++ T.reprAll lines ++
      txt ". RFC 9112 s3.2 admits exactly one, and a pair is host-header desync -- a front end " ++
      txt "honouring the first and a back end honouring the second are reading two different " ++
      txt "requests out of the bytes this function built."
  | .encode head => T.encodeError head

/-! ## The request -/

def forbidden : List Char := ['\r', '\n', '\x00']

/-- `_clean`. -/
def clean (what : String) (value : Text) : Except RequestError Unit :=
  match forbidden.find? fun ch => value.contains ch with
  | some ch => .error (.forbidden what ch value)
  | none => .ok ()

/-- The name of a header line as it is compared. -/
def nameOf (line : Text) : Text := lower (strip (partition ':' line).1)

def isHost (line : Text) : Bool := nameOf line == txt "host"

/-- Whether a header line that passes is the `Content-Length` of a body so long. -/
def checkHeader (D : Decimals) (length : ℕ) (line : Text) : Except RequestError Bool := do
  clean "header" line
  match (partition ':' line).2 with
  | none => .error (.noColon line)
  | some value =>
      if (partition ':' line).1 = [] ∨ line.head? = some ' ' ∨ line.head? = some '\t' then
        .error (.fieldName line)
      else if nameOf line = txt "transfer-encoding" then .error (.transferEncoding line)
      else if nameOf line = txt "content-length" then
        match int D (strip value) with
        | none => .error (.notAnInteger line)
        | some declared =>
            if declared ≠ (length : ℤ) then .error (.disagrees line length) else .ok true
      else .ok false

/-- Whether one of the header lines is a `Content-Length`. -/
def checkHeaders (D : Decimals) (length : ℕ) : List Text → Except RequestError Bool
  | [] => .ok false
  | line :: lines => do
      let first ← checkHeader D length line
      let later ← checkHeaders D length lines
      return first || later

/-- The lines of the head. -/
def linesOf (method path host : Text) (headers : List Text) (length : ℕ) (counted : Bool) :
    List Text :=
  (method ++ txt " " ++ path ++ txt " HTTP/1.1") ::
    ((if headers.any isHost then [] else [txt "Host: " ++ host]) ++ headers ++
      if length ≠ 0 ∧ counted = false then [txt "Content-Length: " ++ txt (toString length)] else [])

/-- `request_bytes`. -/
def requestBytes (D : Decimals) (method path host : Text) (headers : List Text)
    (body : List UInt8) : Except RequestError (List UInt8) := do
  clean "method" method
  clean "path" path
  if ' ' ∈ method ∨ method = [] then .error (.method method)
  else if path.head? ≠ some '/' then .error (.notOriginForm path)
  else if ' ' ∈ path then .error (.space path)
  else
    let counted ← checkHeaders D body.length headers
    if 1 < (headers.filter isHost).length then .error (.hosts (headers.filter isHost))
    else
      let head := (txt "\r\n").intercalate (linesOf method path host headers body.length counted) ++
        txt "\r\n\r\n"
      match encodeLatin1 head with
      | none => .error (.encode head)
      | some bytes => .ok (bytes ++ body)

end Hx.Issue
