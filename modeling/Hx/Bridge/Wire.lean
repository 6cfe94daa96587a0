import Hx.Bridge.Json
import Hx.Java.Utf16
import Hx.Library.Framing
import Hx.Library.Items

/-!
# The frame codec of the extension

A header is a `LinkedHashMap`. `encode` writes one frame and `decode` reads the one in front of
a buffer, with its two bodies apart where the header declares two; `Reader.read` is the `read` of
a stream, with this decoder.
-/

namespace Hx.Bridge.Wire

open Hx.Java Hx.Library Hx.Bridge.Json

/-- `MAX_FRAME`. -/
def maxFrame : ℕ := 67108864

/-- `BODIES_KEY`. -/
def bodiesKey : JString := js "bodies"

abbrev Fields := Items JString Value

/-- A `byte[]`: its length is an `int`. -/
structure Bytes where
  data : List UInt8
  size : data.length < 2147483648

structure Decoded where
  header : Fields
  body : List UInt8
  second : Option (List UInt8)

/-- The refusals: the `FrameError`s with what their texts name, the `Incomplete`, and what the
runtime throws where an array is longer than an `int` counts. -/
inductive FrameError where
  | tooLong (size : ℤ)
  | bodiesTooLong (first second : ℕ)
  | noArray
  | incomplete
  | noNewline
  | notUtf8
  | notJson
  | bodies (v : Value)
  | packing (m : Misfit)

/-- A sum of `int`s. -/
def intSum (n : ℕ) : ℤ := (n : ℤ).bmod 4294967296

/-- `encode` of one body. A sum that wrapped is negative, and no array is that long. -/
def encode (header : Fields) (body : Bytes) : Except FrameError (List UInt8) :=
  let head := getBytes (write header.pairs)
  if 2147483648 ≤ head.length then .error .noArray
  else
    let length := intSum (head.length + 1 + body.data.length)
    if maxFrame < length then .error (.tooLong length)
    else if length < 0 then .error .noArray
    else .ok (framed (head ++ 10 :: body.data))

/-- The header a frame with two bodies has. -/
def stamped (header : Fields) : Fields := header.put bodiesKey (.long 2)

theorem joined_size {first second : List UInt8}
    (short : ¬ maxFrame < 4 + first.length + 4 + second.length) :
    (joined first second).length < 2147483648 := by
  rw [joined, List.length_append, length_framed, length_framed]
  unfold maxFrame at short
  omega

/-- `encode` of two bodies, each behind its length. -/
def encodeTwo (header : Fields) (first second : Bytes) : Except FrameError (List UInt8) :=
  if long : maxFrame < 4 + first.data.length + 4 + second.data.length then
    .error (.bodiesTooLong first.data.length second.data.length)
  else encode (stamped header) ⟨joined first.data second.data, joined_size long⟩

def declaresTwoBodies (header : Fields) : Except FrameError Bool :=
  match header.get bodiesKey with
  | none | some .null => .ok false
  | some (.long n) => if n = 2 then .ok true else .error (.bodies (.long n))
  | some v => .error (.bodies v)

def splitBodies (payload : List UInt8) : Except FrameError (List UInt8 × List UInt8) :=
  (halves payload).mapError .packing

variable (D : Digits)

/-- The header of a frame as its text has it. -/
def header (head : List UInt8) : Except FrameError Fields :=
  match utf8Decode head with
  | none => .error .notUtf8
  | some t =>
      match parse D (utf16 t) with
      | none => .error .notJson
      | some pairs => .ok (Items.ofPairs pairs)

/-- The body of a frame, or its two. -/
def withBodies (fields : Fields) (payload : List UInt8) : Except FrameError Decoded :=
  match declaresTwoBodies fields with
  | .error e => .error e
  | .ok false => .ok ⟨fields, payload, none⟩
  | .ok true =>
      match splitBodies payload with
      | .error e => .error e
      | .ok (first, second) => .ok ⟨fields, first, some second⟩

/-- `decode`: the frame, and how many bytes it took. -/
def decode (buf : List UInt8) : Except FrameError (Decoded × ℕ) :=
  match extent maxFrame buf with
  | .incomplete => .error .incomplete
  | .tooLong declared => .error (.tooLong declared)
  | .whole size =>
      match cutNewline ((buf.take size).drop 4) with
      | none => .error .noNewline
      | some (head, payload) =>
          match header D head with
          | .error e => .error e
          | .ok fields =>
              match withBodies fields payload with
              | .error e => .error e
              | .ok decoded => .ok (decoded, size)

/-- What repeated calls of `Reader.read` answer, `n` at most, up to the first that throws. -/
def readFrames (n : ℕ) (delivered : Delivery) :
    List (Except (ReadError FrameError) Decoded) :=
  reads maxFrame (decode D) n delivered []

end Hx.Bridge.Wire
