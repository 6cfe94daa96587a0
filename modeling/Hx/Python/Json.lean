import Hx.Library.Lowering
import Hx.Java.Case

/-!
# JSON as Python's `json` module has it

`dumps` writes a flat object without blanks and without escaping what is not ASCII. `loads`
reads any JSON text, the constants `NaN` and `Infinity` among it; an object holds what its
members hold, in their order.
-/

namespace Hx.Python.Json

open Hx.Library

/-- What `loads` makes of a value. What a float, a list or an inner object holds is never looked
at. -/
inductive Value where
  | null
  | bool (b : Bool)
  | int (n : ℤ)
  | string (s : Text)
  | float
  | list
  | dict
  deriving DecidableEq

/-- The items of a `dict`, in their order. -/
abbrev Dict := List (Text × Value)

/-! ## Writing -/

def hexDigits : Text := text "0123456789abcdef"

/-- `'\\u{0:04x}'.format(n)`, of a control character. -/
def controlEscape (c : Fin 0x110000) : Text :=
  text "\\u00" ++ [hexDigits.getD (c.val / 16) (chr 0), hexDigits.getD (c.val % 16) (chr 0)]

/-- `ESCAPE_DCT`. -/
def escaped (c : Fin 0x110000) : Text :=
  if c.val = 34 then text "\\\""
  else if c.val = 92 then text "\\\\"
  else if c.val = 10 then text "\\n"
  else if c.val = 13 then text "\\r"
  else if c.val = 9 then text "\\t"
  else if c.val = 12 then text "\\f"
  else if c.val = 8 then text "\\b"
  else if c.val < 0x20 then controlEscape c
  else [c]

def writeString (s : Text) : Text := chr 34 :: (s.flatMap escaped ++ [chr 34])

/-- A value of a header; no other is written. -/
def writeValue : Value → Text
  | .null => text "null"
  | .bool b => text (if b then "true" else "false")
  | .int n => text (toString n)
  | .string s => writeString s
  | .float | .list | .dict => []

def writeMore : Dict → Text
  | [] => []
  | (key, v) :: rest => chr 44 :: (writeString key ++ chr 58 :: writeValue v) ++ writeMore rest

def writeMembers : Dict → Text
  | [] => []
  | (key, v) :: rest => (writeString key ++ chr 58 :: writeValue v) ++ writeMore rest

/-- `json.dumps(header, separators=(",", ":"), ensure_ascii=False)`. -/
def dumps (header : Dict) : Text := chr 123 :: (writeMembers header ++ [chr 125])

/-! ## Reading -/

/-- `" \t\n\r"`. -/
def isSpace (c : Fin 0x110000) : Bool := [9, 10, 13, 32].contains c.val

def ws (s : Text) : Text := s.dropWhile isSpace

/-- What follows a character. -/
def expect (n : ℕ) : Text → Option Text
  | [] => none
  | c :: rest => if c.val = n then some rest else none

def hexValue (c : Fin 0x110000) : Option ℕ :=
  if 48 ≤ c.val ∧ c.val ≤ 57 then some (c.val - 48)
  else if 97 ≤ c.val ∧ c.val ≤ 102 then some (c.val - 87)
  else if 65 ≤ c.val ∧ c.val ≤ 70 then some (c.val - 55)
  else none

/-- Some hexadecimal digits behind a number, and what follows them. -/
def hexRun : ℕ → ℕ → Text → Option (ℕ × Text)
  | 0, n, s => some (n, s)
  | _ + 1, _, [] => none
  | k + 1, n, c :: s => (hexValue c).bind fun d => hexRun k (n * 16 + d) s

def isHigh (c : Fin 0x110000) : Bool := 0xd800 ≤ c.val && c.val ≤ 0xdbff

def isLow (c : Fin 0x110000) : Bool := 0xdc00 ≤ c.val && c.val ≤ 0xdfff

/-- The code point of a pair. -/
def joined (high low : Fin 0x110000) : Fin 0x110000 :=
  chr (0x10000 + (high.val - 0xd800) * 0x400 + (low.val - 0xdc00))

/-- `BACKSLASH`. -/
def escape (esc : Fin 0x110000) : Option (Fin 0x110000) :=
  if esc.val = 34 ∨ esc.val = 92 ∨ esc.val = 47 then some esc
  else if esc.val = 110 then some (chr 10)
  else if esc.val = 114 then some (chr 13)
  else if esc.val = 116 then some (chr 9)
  else if esc.val = 98 then some (chr 8)
  else if esc.val = 102 then some (chr 12)
  else none

/-- The low half that the escape of a high one is followed by, and what follows it. -/
def lowHalf : Text → Option (Fin 0x110000 × Text)
  | x :: y :: s =>
      if x.val = 92 ∧ y.val = 117 then
        (hexRun 4 0 s).bind fun p => if isLow (chr p.1) then some (chr p.1, p.2) else none
      else none
  | _ => none

/-- What an escape behind its backslash stands for, and what follows it. A surrogate that is not
followed by its other half stands for itself. -/
def escapePiece : Text → Option (Fin 0x110000 × Text)
  | [] => none
  | esc :: s =>
      if esc.val = 117 then
        (hexRun 4 0 s).map fun p =>
          if isHigh (chr p.1) then
            match lowHalf p.2 with
            | some (low, rest) => (joined (chr p.1) low, rest)
            | none => (chr p.1, p.2)
          else (chr p.1, p.2)
      else (escape esc).map fun e => (e, s)

/-- The next character of a string, or nothing where it is closed, and what follows. -/
def piece : Text → Option (Option (Fin 0x110000) × Text)
  | [] => none
  | c :: s =>
      if c.val = 34 then some (none, s)
      else if c.val < 0x20 then none
      else if c.val ≠ 92 then some (some c, s)
      else (escapePiece s).map fun p => (some p.1, p.2)

/-- `scanstring`: a string behind its opening quote, and what follows it; one piece for each unit
of `fuel`. -/
def stringBody : ℕ → Text → Option (Text × Text)
  | 0, _ => none
  | fuel + 1, s =>
      match piece s with
      | none => none
      | some (none, rest) => some ([], rest)
      | some (some c, rest) => (stringBody fuel rest).map fun p => (c :: p.1, p.2)

def string (s : Text) : Option (Text × Text) :=
  (expect 34 s).bind fun s => stringBody s.length s

def isDigit (c : Fin 0x110000) : Bool := 48 ≤ c.val && c.val ≤ 57

/-- The value of some digits. -/
def digitsValue (digits : Text) : ℕ := digits.foldl (fun n c => n * 10 + (c.val - 48)) 0

/-- The integer part of a number behind its sign, and what follows it. -/
def integer : Text → Option (Text × Text)
  | [] => none
  | c :: rest =>
      if c.val = 48 then some ([c], rest)
      else if isDigit c then some ((c :: rest).takeWhile isDigit, (c :: rest).dropWhile isDigit)
      else none

/-- What follows digits, of which there is at least one. -/
def someDigits (s : Text) : Option Text :=
  if s.takeWhile isDigit = [] then none else some (s.dropWhile isDigit)

/-- What follows the fraction of a number. -/
def fraction (s : Text) : Option Text := (expect 46 s).bind someDigits

/-- What follows a sign, if there is one. -/
def unsigned : Text → Text
  | [] => []
  | c :: rest => if c.val = 43 ∨ c.val = 45 then rest else c :: rest

/-- What follows the exponent of a number. -/
def exponent : Text → Option Text
  | [] => none
  | e :: rest => if e.val = 101 ∨ e.val = 69 then someDigits (unsigned rest) else none

/-- A number: it is a float as soon as it has a fraction or an exponent. -/
def number (negative : Bool) (s : Text) : Option (Value × Text) :=
  match integer s with
  | none => none
  | some (digits, rest) =>
      match fraction rest with
      | some rest => some (.float, (exponent rest).getD rest)
      | none =>
          match exponent rest with
          | some rest => some (.float, rest)
          | none =>
              some (.int (if negative then -digitsValue digits else digitsValue digits), rest)

/-- A value that holds no other one. -/
def scalar (s : Text) : Option (Value × Text) :=
  match s with
  | [] => none
  | c :: rest =>
      if c.val = 34 then (stringBody rest.length rest).map fun p => (.string p.1, p.2)
      else if (text "null").isPrefixOf s then some (.null, s.drop 4)
      else if (text "true").isPrefixOf s then some (.bool true, s.drop 4)
      else if (text "false").isPrefixOf s then some (.bool false, s.drop 5)
      else if (text "NaN").isPrefixOf s then some (.float, s.drop 3)
      else if (text "Infinity").isPrefixOf s then some (.float, s.drop 8)
      else if (text "-Infinity").isPrefixOf s then some (.float, s.drop 9)
      else if c.val = 45 then number true rest
      else number false s

mutual

/-- `scan_once`. Each call takes one unit of `fuel`, and two of them take a character. -/
def value : ℕ → Text → Option (Value × Text)
  | 0, _ => none
  | fuel + 1, s =>
      match s with
      | [] => none
      | c :: rest =>
          if c.val = 123 then (object fuel rest).map fun p => (.dict, p.2)
          else if c.val = 91 then
            match expect 93 (ws rest) with
            | some rest => some (.list, rest)
            | none => (elements fuel (ws rest)).map fun rest => (.list, rest)
          else scalar s

/-- The elements of an array, up to behind its bracket. -/
def elements : ℕ → Text → Option Text
  | 0, _ => none
  | fuel + 1, s =>
      match value fuel s with
      | none => none
      | some (_, s) =>
          match ws s with
          | [] => none
          | c :: s =>
              if c.val = 93 then some s
              else if c.val = 44 then elements fuel (ws s)
              else none

/-- An object behind its brace. -/
def object : ℕ → Text → Option (Dict × Text)
  | 0, _ => none
  | fuel + 1, s =>
      match expect 125 (ws s) with
      | some rest => some ([], rest)
      | none => members fuel (ws s)

/-- The members of an object, up to behind its brace. -/
def members : ℕ → Text → Option (Dict × Text)
  | 0, _ => none
  | fuel + 1, s =>
      match string s with
      | none => none
      | some (key, s) =>
          match expect 58 (ws s) with
          | none => none
          | some s =>
              match value fuel (ws s) with
              | none => none
              | some (v, s) =>
                  match ws s with
                  | [] => none
                  | c :: s =>
                      if c.val = 125 then some ([(key, v)], s)
                      else if c.val = 44 then
                        (members fuel (ws s)).map fun p => ((key, v) :: p.1, p.2)
                      else none

end

/-- Enough for every value of a text. -/
def fuelFor (s : Text) : ℕ := 4 * s.length + 4

/-- `json.loads`, of a text that holds an object: its members, of which a later one of the same
key replaces the one before it. What is no object is `none` in the inner option. -/
def loads (s : Text) : Option (Option Dict) :=
  match ws s with
  | [] => none
  | c :: rest =>
      if c.val = 123 then
        match object (fuelFor s) rest with
        | none => none
        | some (dict, rest) => if ws rest = [] then some (some dict) else none
      else
        match value (fuelFor s) (c :: rest) with
        | none => none
        | some (_, rest) => if ws rest = [] then some none else none

/-- `dict.get`: the last value put under the key. -/
def get (d : Dict) (key : Text) : Option Value := d.reverse.lookup key

end Hx.Python.Json
