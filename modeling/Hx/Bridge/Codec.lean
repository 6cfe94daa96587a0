import Hx.Library.Framing
import Hx.Library.Items
import Hx.Library.Utf8
import Hx.Python.Json

/-!
# The frame codec of the harness

A header is a `dict`. `encode` writes one frame and `decode` reads the one in front of a buffer;
`FrameReader.read` is the `read` of a stream, with this decoder.
-/

namespace Hx.Bridge.Codec

open Hx.Library Hx.Python.Json

/-- `MAX_FRAME`. -/
def maxFrame : ℕ := 67108864

/-- `BODIES_KEY`. -/
def bodiesKey : Text := text "bodies"

abbrev Fields := Items Text Python.Json.Value

/-- The refusals: the `FrameError`s with what their texts name, the `Incomplete`, and the
`UnicodeEncodeError` of a text that has no bytes. -/
inductive FrameError where
  | missing (required : Text)
  | notFlat (key : Text)
  | surrogate (key : Text)
  | outOfRange (key : Text) (n : ℤ)
  | unencodable
  | tooLong (size : ℕ)
  | bodiesTooLong (first second : ℕ)
  | incomplete
  | noNewline
  | notJson
  | notObject
  | bodies (v : Python.Json.Value)
  | oneBody
  | packing (m : Misfit)

def isSurrogate (c : Fin 0x110000) : Bool := 0xd800 ≤ c.val && c.val ≤ 0xdfff

/-- The checks of one item of a header. -/
def checkItem (key : Text) : Python.Json.Value → Except FrameError Unit
  | .float | .list | .dict => .error (.notFlat key)
  | .string s => if s.any isSurrogate then .error (.surrogate key) else .ok ()
  | .int n =>
      if -9223372036854775808 ≤ n ∧ n ≤ 9223372036854775807 then .ok ()
      else .error (.outOfRange key n)
  | .bool _ | .null => .ok ()

def checkItems : List (Text × Python.Json.Value) → Except FrameError Unit
  | [] => .ok ()
  | (key, v) :: rest =>
      match checkItem key v with
      | .error e => .error e
      | .ok () => checkItems rest

/-- `_check_header`. -/
def checkHeader (header : Fields) : Except FrameError Unit :=
  if header.get (text "v") = none then .error (.missing (text "v"))
  else if header.get (text "t") = none then .error (.missing (text "t"))
  else checkItems header.pairs

def encode (header : Fields) (body : List UInt8) : Except FrameError (List UInt8) :=
  match checkHeader header with
  | .error e => .error e
  | .ok () =>
      match utf8Encode (dumps header.pairs) with
      | none => .error .unencodable
      | some head =>
          let payload := head ++ 10 :: body
          if maxFrame < payload.length then .error (.tooLong payload.length)
          else .ok (framed payload)

/-- The header a frame with two bodies has. -/
def stamped (header : Fields) : Fields := header.put bodiesKey (.int 2)

def encodeTwo (header : Fields) (first second : List UInt8) : Except FrameError (List UInt8) :=
  if maxFrame < 4 + first.length + (4 + second.length) then
    .error (.bodiesTooLong first.length second.length)
  else encode (stamped header) (joined first second)

/-- `_declares_two_bodies`. A header holds no float, the only other value equal to 2. -/
def declaresTwoBodies (header : Fields) : Except FrameError Bool :=
  match header.get bodiesKey with
  | none => .ok false
  | some (.int n) => if n = 2 then .ok true else .error (.bodies (.int n))
  | some v => .error (.bodies v)

/-- The halves that `_body_spans` answers the places of. -/
def bodySpans (payload : List UInt8) : Except FrameError (List UInt8 × List UInt8) :=
  (halves payload).mapError .packing

def splitBodies (header : Fields) (payload : List UInt8) :
    Except FrameError (List UInt8 × List UInt8) :=
  match declaresTwoBodies header with
  | .error e => .error e
  | .ok false => .error .oneBody
  | .ok true => bodySpans payload

/-- The header of a frame as its text has it, checked. -/
def header (head : List UInt8) : Except FrameError Fields :=
  match (utf8Decode head).bind loads with
  | none => .error .notJson
  | some none => .error .notObject
  | some (some dict) =>
      match checkHeader (Items.ofPairs dict) with
      | .error e => .error e
      | .ok () => .ok (Items.ofPairs dict)

/-- `decode`: the header, the body, and how many bytes they took. -/
def decode (buf : List UInt8) : Except FrameError ((Fields × List UInt8) × ℕ) :=
  match extent maxFrame buf with
  | .incomplete => .error .incomplete
  | .tooLong declared => .error (.tooLong declared)
  | .whole size =>
      match cutNewline ((buf.take size).drop 4) with
      | none => .error .noNewline
      | some (head, body) =>
          match header head with
          | .error e => .error e
          | .ok fields => .ok ((fields, body), size)

/-- What repeated calls of `FrameReader.read` answer, `n` at most, up to the first that raises. -/
def readFrames (n : ℕ) (delivered : Delivery) :
    List (Except (ReadError FrameError) (Fields × List UInt8)) :=
  reads maxFrame decode n delivered []

end Hx.Bridge.Codec
