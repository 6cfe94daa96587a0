import Hx.Java.Text

/-!
# Frames and authorisations

A decoded frame is a flat header and a body of bytes. An `Authorisation` is the
pair of epoch and scope that one reference publishes; `denied` is the DENY-ALL
value, the only one with epoch 0.
-/

namespace Hx.Bridge

open Hx.Java

/-- A header value: the flat types the JSON reader produces. -/
inductive Value where
  | null
  | bool (b : Bool)
  | long (n : Int64)
  | string (s : JString)
  deriving DecidableEq

/-- A `Map<String, Object>` in insertion order. -/
abbrev Header := List (JString × Value)

/-- `Map.get`, where a key put twice holds its last value. -/
def Header.get (h : Header) (key : JString) : Option Value := (h.reverse.lookup key)

structure Frame where
  header : Header
  body : List UInt8

/-- `String.valueOf` of what `get` answered. -/
def valueOf : Option Value → JString
  | none => js "null"
  | some .null => js "null"
  | some (.bool b) => js (if b then "true" else "false")
  | some (.long n) => js (toString n)
  | some (.string s) => s

/-- A parsed `configure` body: keys in insertion order, each with its values. -/
abbrev Scope := List (JString × List JString)

/-- The values of a key, none for an absent one. -/
def Scope.get (s : Scope) (key : JString) : Option (List JString) := s.lookup key

structure Authorisation where
  epoch : Nat
  scope : Scope

def denied : Authorisation := ⟨0, []⟩

/-- `PROTOCOL_VERSION`. -/
def protocolVersion : Int64 := 1

namespace Frame

/-- The frame carries the version this client speaks. -/
def speaks (f : Frame) : Bool := f.header.get (js "v") == some (.long protocolVersion)

def kind (f : Frame) : JString := valueOf (f.header.get (js "t"))

/-- `header.get("deadline_us") instanceof Long`. -/
def deadline (f : Frame) : Option Int64 :=
  match f.header.get (js "deadline_us") with
  | some (.long n) => some n
  | _ => none

def serves (f : Frame) (engagementId : JString) : Bool :=
  f.header.get (js "engagement_id") == some (.string engagementId)

/-- The reason of a `halt` frame, `null` when it is not a string. -/
def reason (f : Frame) : Option JString :=
  match f.header.get (js "reason") with
  | some (.string s) => some s
  | _ => none

end Frame

end Hx.Bridge
