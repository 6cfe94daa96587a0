import Hx.Checks.ProbeUtil
import Hx.Identity.Origins
import Hx.Library.Effects
import Hx.Store.Records

/-!
# The identity of a pass

Where a credential comes from, what the bridge refuses to register, what a canary has to
be answered with, and the window the canaries bracket. A credential is the code points of
its text; what a refresh command printed is bytes. `Texts` is what Python itself writes:
the `repr` of a string and strict UTF-8.
-/

namespace Hx.Scan

open Hx.Checks Hx.Library Hx.Python Hx.Store

/-- An exception on its way out of a statement. `interrupt` is a `BaseException` that is
no `Exception`; the named ones are told apart by an `except` of the runner. -/
inductive Exc where
  | identityDead (message stopReason : String)
  | identityError (text : String)
  | refused (text : String)
  | exception (type text : String)
  | interrupt (type text : String)
  deriving DecidableEq

namespace Exc

/-- `type(exc).__name__` -/
def type : Exc → String
  | identityDead _ _ => "IdentityDead"
  | identityError _ => "IdentityError"
  | refused _ => "ProbeRefused"
  | exception type _ => type
  | interrupt type _ => type

/-- `str(exc)` -/
def text : Exc → String
  | identityDead message _ => message
  | identityError text => text
  | refused text => text
  | exception _ text => text
  | interrupt _ text => text

end Exc

structure Texts where
  repr : String → String
  utf8 : Bytes → Except String Text

/-! ## Credentials -/

inductive Strategy where
  | static
  | programmatic
  deriving DecidableEq

def Strategy.word : Strategy → String
  | static => "static"
  | programmatic => "programmatic"

/-- `Liveness`, with what `canary` encodes already bytes. -/
structure Liveness where
  path : String
  expectBody : Bytes
  expectAbsent : Option Bytes := none
  everyNProbes : Nat
  positive : 1 ≤ everyNProbes

/-- A declared `Identity`. -/
structure Identity where
  id : String
  strategy : Strategy
  header : String
  valueFromEnv : Option String := none
  refresh : Option (List String) := none
  liveness : Liveness
  origins : List String := []

/-- The credential. -/
structure Resolved where
  id : String
  header : String
  value : Text
  generation : Nat
  deriving DecidableEq

/-- How `subprocess.run` ends: `OSError` or `SubprocessError`, or with what was printed. -/
inductive Command where
  | notRun (text : String)
  | exited (code : Int) (stdout stderr : Bytes)

/-- `text=True`: both streams are decoded, and line endings translated. -/
def universalNewlines : Text → Text
  | [] => []
  | c :: rest =>
      if c = chr 0x0d then
        if rest.head? = some (chr 0x0a) then universalNewlines rest
        else chr 0x0a :: universalNewlines rest
      else c :: universalNewlines rest

def unicodeDecodeError (text : String) : Exc := .exception "UnicodeDecodeError" text

def decoded (texts : Texts) (stdout stderr : Bytes) : Except Exc Text :=
  match texts.utf8 stdout, texts.utf8 stderr with
  | .error text, _ => .error (unicodeDecodeError text)
  | .ok _, .error text => .error (unicodeDecodeError text)
  | .ok out, .ok _ => .ok (universalNewlines out)

/-- `resolve`, given `dict(os.environ)`. -/
def resolve (texts : Texts) (identity : Identity) (env : String → Option Text) :
    Except Exc Resolved :=
  match identity.strategy, identity.valueFromEnv with
  | .programmatic, _ => .error <| .identityError <|
      s!"identity {texts.repr identity.id} is {texts.repr identity.strategy.word} and has no " ++
      "environment variable to read; a programmatic identity is minted by refresh(), not resolved"
  | .static, none => .error <| .identityError <|
      s!"identity {texts.repr identity.id} needs None in the environment and it is not set. " ++
      "Refusing rather than issuing anonymously: an anonymous run of an authenticated " ++
      "application answers `clean` about a view none of its users are in"
  | .static, some name =>
      match env name with
      | none => .error <| .identityError <|
          s!"identity {texts.repr identity.id} needs {name} in the environment and it is not " ++
          "set. Refusing rather than issuing anonymously: an anonymous run of an " ++
          "authenticated application answers `clean` about a view none of its users are in"
      | some value =>
          if Hx.Identity.strip value = [] then .error <| .identityError <|
            s!"{name} is set but empty, for identity {texts.repr identity.id}"
          else .ok ⟨identity.id, identity.header, Hx.Identity.strip value, 1⟩

/-- `refresh` once the command was run. -/
def minted (texts : Texts) (identity : Identity) (generation : Nat) :
    Command → Except Exc Resolved
  | .notRun text => .error <| .identityError <|
      s!"refresh command for {texts.repr identity.id} could not run: {text}"
  | .exited code stdout stderr =>
      match decoded texts stdout stderr with
      | .error e => .error e
      | .ok printed =>
          if code ≠ 0 then .error <| .identityError <|
            s!"refresh command for {texts.repr identity.id} exit {code}. Its output is " ++
            "deliberately not repeated here: this message reaches the client-facing report, " ++
            "and the stderr of a command that mints a credential is presumed to carry one. " ++
            "Run the command yourself to see what it said"
          else if Hx.Identity.strip printed = [] then .error <| .identityError <|
            s!"refresh command for {texts.repr identity.id} printed nothing; an empty " ++
            "credential is not a credential"
          else .ok ⟨identity.id, identity.header, Hx.Identity.strip printed, generation + 1⟩

theorem generation_of_minted {texts : Texts} {identity : Identity} {generation : Nat}
    {command : Command} {r : Resolved} (h : minted texts identity generation command = .ok r) :
    r.id = identity.id ∧ r.generation = generation + 1 := by
  cases command with
  | notRun text => contradiction
  | exited code stdout stderr =>
      rw [minted] at h
      cases printed : decoded texts stdout stderr with
      | error exc =>
          rw [printed] at h
          contradiction
      | ok printed' =>
          rw [printed] at h
          simp only at h
          split at h
          · contradiction
          split at h
          · contradiction
          · cases h
            exact ⟨rfl, rfl⟩

def noRefreshCommand (texts : Texts) (identity : Identity) : Exc :=
  .identityError <| s!"identity {texts.repr identity.id} has no refresh command; only a " ++
    "programmatic identity can be refreshed"

/-! ## Registration -/

def frameError (text : String) : Exc := .exception "FrameError" text

/-- `_refuse_unwritable`: the first character that could not be written as itself. -/
def refuseUnwritable (texts : Texts) (id what : String) : Text → Option Exc
  | [] => none
  | c :: rest =>
      if c = chr 0x0d ∨ c = chr 0x0a then some <| frameError <|
        s!"identity {texts.repr id}'s {what} contains a carriage return or line feed; such " ++
        "values are rejected rather than escaped, because injecting one would write a header " ++
        "the extension never decided about"
      else if c = chr 0 then some <| frameError s!"identity {texts.repr id}'s {what} contains a NUL"
      else if 0xff < c.val then some <| frameError <|
        s!"identity {texts.repr id}'s {what} contains a character outside Latin-1; the " ++
        "extension's wire encoding would replace it with '?', and a mangled credential " ++
        "answers as an unauthenticated one"
      else refuseUnwritable texts id what rest

/-- `identity_body` refuses what it cannot build; the origins are looked at last. -/
def identityBody (texts : Texts) (r : Resolved) (origins : List String) : Option Exc :=
  if r.id = "" then some (frameError "an identity frame needs an identity_id")
  else if r.generation < 1 then
    some (frameError s!"generation must be an integer >= 1, got {r.generation}")
  else if r.header = "" then
    some (frameError "an identity frame needs a header to inject into")
  else if r.value = [] then
    some (frameError "an identity frame with no value registers nothing")
  else
    ((refuseUnwritable texts r.id "id" (Library.text r.id)).or
      (refuseUnwritable texts r.id "header name" (Library.text r.header))).or <|
    (refuseUnwritable texts r.id "value" r.value).or <|
      if origins = [] ∨ origins.any (fun o => strip o.toList = []) then some <| frameError <|
        "an identity frame needs at least one origin; an identity with no origin could be " ++
        "applied to any host the scope allows"
      else none

def maxFrame : Nat := 64 * 1024 * 1024

/-- What the bridge is found to be when a credential is registered: not connected, or with
some overhead around the body and then some answer. -/
structure Registration where
  lost : Option Exc
  frameLength : Resolved → Nat
  answer : Option Exc

def oversized (length : Nat) : Option Exc :=
  if maxFrame < length then
    some (frameError s!"frame of {length} bytes exceeds MAX_FRAME {maxFrame}")
  else none

/-- `register_identity`: what it raises, if anything. -/
def registerIdentity (texts : Texts) (r : Resolved) (origins : List String)
    (bridge : Registration) : Option Exc :=
  (identityBody texts r origins).or <| bridge.lost.or <|
    (oversized (bridge.frameLength r)).or bridge.answer

/-! ## The canary -/

/-- How `ProbeSender.get` ends. A refusal may come after the request was issued. -/
inductive Got where
  | response (r : Response)
  | refused (reason : String) (issued : Bool)
  | raised (e : Exc) (issued : Bool)

def Got.sent : Got → Nat
  | response _ => 1
  | refused _ issued => if issued then 1 else 0
  | raised _ issued => if issued then 1 else 0

/-- `ProbeSender.refused`: the classes, with their counts. -/
abbrev Tally := List (String × Nat)

def Got.refusals : Got → Tally
  | refused reason _ => [(reason, 1)]
  | _ => []

/-- `identity.canary` on a response. -/
def signed (liveness : Liveness) (r : Response) : Bool :=
  (r.status.any fun s => decide (200 ≤ s ∧ s < 300)) && contains liveness.expectBody r.body &&
  !(liveness.expectAbsent.any fun absent => contains absent r.body)

/-- `identity.canary`: a refusal is a failure, any other exception goes on. -/
def canary (liveness : Liveness) : Got → Except Exc Bool
  | .response r => .ok (signed liveness r)
  | .refused _ _ => .ok false
  | .raised e _ => .error e

/-! ## The window -/

/-- `IdentityWindow`. -/
structure Window where
  dueEvery : Nat
  since : Nat := 0
  firstOpenPassed : Option Bool := none
  anyFailure : Bool := false
  deriving DecidableEq

namespace Window

def open_ (w : Window) (passed : Bool) : Window :=
  { w with
    firstOpenPassed := some (w.firstOpenPassed.getD passed)
    anyFailure := w.anyFailure || !passed
    since := 0 }

/-- `note_probe`: whether a canary is due, and the window after it. -/
def noteProbe (w : Window) : Bool × Window :=
  if w.dueEvery ≤ w.since + 1 then (true, { w with since := 0 })
  else (false, { w with since := w.since + 1 })

def close (w : Window) (passed : Bool) : Window :=
  { w with anyFailure := w.anyFailure || !passed }

def stateForRun (w : Window) : IdentityState :=
  if w.firstOpenPassed = some true then
    if w.anyFailure then .assumed else .proven
  else .dead

end Window

end Hx.Scan
