import Hx.Bridge.Frame
import Hx.Java.Case
import Hx.Java.Long

/-!
# The header as JSON, in the extension

`Json.write` writes a flat object, `Json.parse` reads one. Where the source throws a
`JsonError` the readers answer `none`.
-/

namespace Hx.Bridge.Json

open Hx.Java

/-! ## Writing -/

def hexDigits : JString := js "0123456789abcdef"

/-- `String.format("\\u%04x", c)`, of a control character. -/
def controlEscape (c : JChar) : JString :=
  js "\\u00" ++ [hexDigits.getD (c.val / 16) 0, hexDigits.getD (c.val % 16) 0]

def escaped (c : JChar) : JString :=
  if c = ch '"' then js "\\\""
  else if c = ch '\\' then js "\\\\"
  else if c = ch '\n' then js "\\n"
  else if c = ch '\r' then js "\\r"
  else if c = ch '\t' then js "\\t"
  else if c.val = 8 then js "\\b"
  else if c.val = 12 then js "\\f"
  else if c.val < 0x20 then controlEscape c
  else [c]

def writeString (v : JString) : JString := ch '"' :: (v.flatMap escaped ++ [ch '"'])

def writeValue : Value → JString
  | .null => js "null"
  | .string s => writeString s
  | .bool b => js (if b then "true" else "false")
  | .long n => longText n

/-- The members behind the first one. -/
def writeMore : Header → JString
  | [] => []
  | (key, v) :: rest => ch ',' :: (writeString key ++ ch ':' :: writeValue v) ++ writeMore rest

def writeMembers : Header → JString
  | [] => []
  | (key, v) :: rest => (writeString key ++ ch ':' :: writeValue v) ++ writeMore rest

/-- `Json.write`. -/
def write (obj : Header) : JString := ch '{' :: (writeMembers obj ++ [ch '}'])

/-! ## Reading -/

def ws (s : JString) : JString := s.dropWhile isWhitespace

def expect (c : JChar) : JString → Option JString
  | [] => none
  | got :: rest => if got = c then some rest else none

def hexValue (c : JChar) : Option ℕ :=
  if ch '0' ≤ c ∧ c ≤ ch '9' then some (c.val - 48)
  else if ch 'a' ≤ c ∧ c ≤ ch 'f' then some (c.val - 87)
  else if ch 'A' ≤ c ∧ c ≤ ch 'F' then some (c.val - 55)
  else none

/-- Some hexadecimal digits behind a number, and what follows them. -/
def hexRun : ℕ → ℕ → JString → Option (ℕ × JString)
  | 0, n, s => some (n, s)
  | _ + 1, _, [] => none
  | k + 1, n, c :: s => (hexValue c).bind fun d => hexRun k (n * 16 + d) s

/-- The low half that the escape of a high one must be followed by, and what follows it. -/
def lowHalf : JString → Option (JChar × JString)
  | x :: y :: s =>
      if x = ch '\\' ∧ y = ch 'u' then
        (hexRun 4 0 s).bind fun p =>
          if isLowSurrogate (Fin.ofNat 65536 p.1) then some (Fin.ofNat 65536 p.1, p.2) else none
      else none
  | _ => none

/-- What an escape of one character stands for. -/
def escape (esc : JChar) : Option JChar :=
  if esc = ch '"' ∨ esc = ch '\\' ∨ esc = ch '/' then some esc
  else if esc = ch 'n' then some (ch '\n')
  else if esc = ch 'r' then some (ch '\r')
  else if esc = ch 't' then some (ch '\t')
  else if esc = ch 'b' then some 8
  else if esc = ch 'f' then some 12
  else none

/-- What an escape behind its backslash stands for, and what follows it. A surrogate is written as
the first or second half of a pair of escapes only. -/
def escapePiece : JString → Option (JString × JString)
  | [] => none
  | esc :: s =>
      if esc = ch 'u' then
        (hexRun 4 0 s).bind fun p =>
          let u := Fin.ofNat 65536 p.1
          if isHighSurrogate u then (lowHalf p.2).map fun q => ([u, q.1], q.2)
          else if isLowSurrogate u then none
          else some ([u], p.2)
      else (escape esc).map fun e => ([e], s)

/-- The next units of a string, or nothing where it is closed, and what follows. -/
def piece : JString → Option (Option JString × JString)
  | [] => none
  | c :: s =>
      if c = ch '"' then some (none, s)
      else if c.val < 0x20 then none
      else if c ≠ ch '\\' then some (some [c], s)
      else (escapePiece s).map fun p => (some p.1, p.2)

/-- A string behind its opening quote, and what follows it; one piece for each unit of `fuel`. -/
def stringBody : ℕ → JString → Option (JString × JString)
  | 0, _ => none
  | fuel + 1, s =>
      match piece s with
      | none => none
      | some (none, rest) => some ([], rest)
      | some (some units, rest) => (stringBody fuel rest).map fun p => (units ++ p.1, p.2)

def string (s : JString) : Option (JString × JString) :=
  (expect (ch '"') s).bind fun s => stringBody s.length s

/-- `Character.isDigit` too is a table of the JVM, and known on ASCII. -/
structure Digits extends DigitMap where
  others : ∀ c : JChar, c.val < 0x80 → ¬ (0x30 ≤ c.val ∧ c.val ≤ 0x39) → digit c = none

variable (D : Digits)

def isDigit (c : JChar) : Bool := (D.digit c).isSome

/-- The digits of a number behind its sign, and what follows them. -/
def number (sign : JString) (s : JString) : Option (Value × JString) :=
  let digits := s.takeWhile (isDigit D)
  let rest := s.dropWhile (isDigit D)
  if digits = [] then none
  else if rest.head?.any fun c => c = ch '.' ∨ c = ch 'e' ∨ c = ch 'E' then none
  else if 1 < digits.length ∧ digits.head? = some (ch '0') then none
  else (parseLong D.toDigitMap (sign ++ digits)).map fun n => (.long n, rest)

/-- A value; objects and arrays are refused. -/
def value (s : JString) : Option (Value × JString) :=
  match s with
  | [] => none
  | c :: rest =>
      if c = ch '"' then (stringBody rest.length rest).map fun p => (.string p.1, p.2)
      else if c = ch '\x7b' ∨ c = ch '[' then none
      else if (js "true").isPrefixOf s then some (.bool true, s.drop 4)
      else if (js "false").isPrefixOf s then some (.bool false, s.drop 5)
      else if (js "null").isPrefixOf s then some (.null, s.drop 4)
      else if c = ch '-' then number D [c] rest
      else number D [] s

/-- The loop over the members, one for each unit of `fuel`. -/
def members : ℕ → JString → Option (Header × JString)
  | 0, _ => none
  | fuel + 1, s =>
      match string (ws s) with
      | none => none
      | some (key, s) =>
          match expect (ch ':') (ws s) with
          | none => none
          | some s =>
              match value D (ws s) with
              | none => none
              | some (v, s) =>
                  match ws s with
                  | [] => none
                  | c :: s =>
                      if c = ch '\x7d' then some ([(key, v)], s)
                      else if c = ch ',' then
                        (members fuel s).map fun p => ((key, v) :: p.1, p.2)
                      else none

def object (s : JString) : Option (Header × JString) :=
  match expect (ch '\x7b') (ws s) with
  | none => none
  | some s =>
      match expect (ch '\x7d') (ws s) with
      | some s => some ([], s)
      | none => members D s.length s

/-- `Json.parse`: the members in the order they are put. -/
def parse (text : JString) : Option Header :=
  match object D text with
  | some (header, rest) => if ws rest = [] then some header else none
  | none => none

end Hx.Bridge.Json
