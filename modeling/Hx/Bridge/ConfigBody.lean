import Hx.Bridge.Frame
import Hx.Java.Long

/-!
# The body of a configure

Lines of a key, a tab and a value, repeated keys accumulating in order. Three keys are
numbers and are checked once the whole body is read.
-/

namespace Hx.Bridge

open Hx.Java

namespace ConfigBody

/-- `KEYS`. -/
def keys : List JString :=
  [js "scope.include", js "scope.exclude", js "dangerous.path", js "method.allow",
    js "limit.rate_rps", js "limit.rate_burst", js "limit.concurrency",
    js "limit.max_requests", js "render.allow"]

/-- `POSITIVE_INTEGER_KEYS`. A `Set` has no order of its own: which of two unusable keys an
error names is read here in the order of the source. -/
def positiveIntegerKeys : List JString :=
  [js "limit.rate_rps", js "limit.rate_burst", js "limit.max_requests"]

/-- `split("\n", -1)`. -/
def lines : JString → List JString
  | [] => [[]]
  | c :: rest =>
      if c = ch '\n' then [] :: lines rest
      else (lines rest).modifyHead fun line => c :: line

/-- `computeIfAbsent` and `add`. -/
def add (scope : Scope) (key value : JString) : Scope :=
  if (scope.get key).isSome then
    scope.map fun kv => if kv.1 = key then (kv.1, kv.2 ++ [value]) else kv
  else scope ++ [(key, [value])]

def readLine (scope : Scope) (line : JString) : Except JString Scope :=
  if line = [] then .ok scope
  else if ch '\t' ∈ line then
    let key := line.takeWhile fun c => c ≠ ch '\t'
    if keys.contains key then .ok (add scope key (line.drop (key.length + 1)))
    else .error (js "unrecognised config key: " ++ key)
  else .error (js "config line has no tab separator: " ++ line)

def timesText (key : JString) (n : Nat) : JString :=
  key ++ js " was set " ++ js (toString n) ++ js " times; it is an integer, once"

def notAnInteger (key raw : JString) : JString := key ++ js " is not an integer: " ++ raw

def notPositive (key : JString) (n : Int64) : JString :=
  key ++ js " must be positive, not " ++ longText n

/-- What is thrown over the values of a key, if anything. -/
def positiveInteger (D : DigitMap) (values : Option (List JString)) (key : JString) :
    Option JString :=
  match values.getD [] with
  | [] => none
  | [value] =>
      match parseLong D (JString.strip value) with
      | none => some (notAnInteger key (JString.strip value))
      | some n => if n ≤ 0 then some (notPositive key n) else none
  | several => some (timesText key several.length ++
      js " -- two answers to \"how fast\" is not a limit")

/-- The scope, where its numbers are usable. -/
def checked (D : DigitMap) (scope : Scope) : Except JString Scope :=
  match positiveIntegerKeys.findSome? fun key => positiveInteger D (scope.get key) key with
  | some message => .error message
  | none => .ok scope

/-- `parse` of the text of a body, with the message of the `FrameError` it throws. -/
def parse (D : DigitMap) (text : JString) : Except JString Scope :=
  ((lines text).foldlM readLine []).bind (checked D)

/-! ## What is accepted -/

variable {D : DigitMap} {text : JString} {scope : Scope}

theorem usable_of_checked {found : Scope} (accepted : checked D found = .ok scope) :
    ∀ key ∈ positiveIntegerKeys, positiveInteger D (scope.get key) key = none := by
  rw [checked] at accepted
  split at accepted
  · contradiction
  · rename_i usable
    cases accepted
    exact List.findSome?_eq_none_iff.1 usable

/-- A body that is accepted has three usable numbers. -/
theorem usable_of_parse (parsed : parse D text = .ok scope) :
    ∀ key ∈ positiveIntegerKeys, positiveInteger D (scope.get key) key = none := by
  rw [parse] at parsed
  cases read : (lines text).foldlM readLine [] with
  | error message =>
      rw [read] at parsed
      contradiction
  | ok found =>
      rw [read] at parsed
      exact usable_of_checked parsed

end ConfigBody

end Hx.Bridge
