import Hx.Library.Lowering

/-!
# Where a credential may go

`identities.<name>.origins` is read and checked in Python, crosses the bridge and is read
again in Java, where the host of a request is compared with the host of every entry. An
identity that declares none is bound to the host of the surface its liveness canary is
sent to. A text is its code points on both sides: nothing here looks inside a pair of
surrogates.
-/

namespace Hx.Identity

open Hx.Library

abbrev CodePoint := Fin 0x110000

/-! ## The host of an origin -/

/-- `s.find(needle)` and `s.indexOf(needle)`, for a needle that is not empty. -/
def find (needle : Text) : Text → Option Nat
  | [] => none
  | c :: rest => if needle.isPrefixOf (c :: rest) then some 0 else (find needle rest).map (· + 1)

def delimiters : Text := text "/:?"

/-- What is left once everything up to `://` is gone. -/
def afterScheme (rest : Text) : Text :=
  match find (text "://") rest with
  | some scheme => rest.drop (scheme + 3)
  | none => rest

/-- One turn of the loop over the delimiters. -/
def cutAt (rest : Text) (cut : Nat) (delimiter : CodePoint) : Nat :=
  match rest.idxOf? delimiter with
  | some at_ => if at_ < cut then at_ else cut
  | none => cut

/-- The first `/`, `:` or `?`, or the end. -/
def cut (rest : Text) : Nat := delimiters.foldl (cutAt rest) rest.length

/-- What `_origin_host` and `hostOf` both do with the trimmed and lower-cased origin. -/
def hostPart (rest : Text) : Text :=
  let rest := afterScheme rest
  rest.take (cut rest)

/-! ## Python -/

/-- `str.isspace` of one character. -/
def isSpace (c : CodePoint) : Bool :=
  (0x09 ≤ c.val && c.val ≤ 0x0d) || (0x1c ≤ c.val && c.val ≤ 0x20) || c.val == 0x85 ||
  c.val == 0xa0 || c.val == 0x1680 || (0x2000 ≤ c.val && c.val ≤ 0x200a) || c.val == 0x2028 ||
  c.val == 0x2029 || c.val == 0x202f || c.val == 0x205f || c.val == 0x3000

def strip (s : Text) : Text := (s.dropWhile isSpace).rdropWhile isSpace

/-- `_ORIGIN_HOST_CHARS`. -/
def isOriginHostChar (c : CodePoint) : Bool :=
  (0x61 ≤ c.val && c.val ≤ 0x7a) || (0x30 ≤ c.val && c.val ≤ 0x39) || c.val == 0x2e ||
  c.val == 0x2d || c.val == 0x5f

/-- `_origin_host`. -/
def originHost (L : Lowering) (origin : Text) : Text := hostPart (L.lower (strip origin))

/-- An entry of the list in `config.yaml`. -/
inductive Entry where
  | str (s : Text)
  | other

/-- The value under `origins`, if the key is there. -/
inductive Declared where
  | absent
  | list (entries : List Entry)
  | other

/-- The three `ConfigError`s. -/
inductive ConfigError where
  | notAList
  | notAString (entry : Entry)
  | namesNoHost (entry host : Text)

def checkEntry (L : Lowering) : Entry → Except ConfigError Text
  | .other => .error (.notAString .other)
  | .str entry =>
      if strip entry = [] then .error (.notAString (.str entry))
      else
        let host := originHost L entry
        if host = [] ∨ ¬ host.all isOriginHostChar then .error (.namesNoHost entry host)
        else .ok (strip entry)

def checkEntries (L : Lowering) : List Entry → Except ConfigError (List Text)
  | [] => .ok []
  | entry :: rest =>
      match checkEntry L entry with
      | .error e => .error e
      | .ok origin =>
          match checkEntries L rest with
          | .error e => .error e
          | .ok origins => .ok (origin :: origins)

/-- `_origins`. -/
def origins (L : Lowering) : Declared → Except ConfigError (List Text)
  | .absent => .ok []
  | .other => .error .notAList
  | .list [] => .error .notAList
  | .list entries => checkEntries L entries

/-- `declared.origins or (target[3],)` of `_identity_bracket`. -/
def boundTo (origins : List Text) (surfaceHost : Text) : List Text :=
  if origins = [] then [surfaceHost] else origins

/-! ## Java -/

/-- `String.trim` takes these off both ends. -/
def isTrimmed (c : CodePoint) : Bool := c.val ≤ 0x20

def trim (s : Text) : Text := (s.dropWhile isTrimmed).rdropWhile isTrimmed

/-- `Sender.hostOf`. -/
def hostOf (L : Lowering) (origin : Text) : Text := hostPart (L.lower (trim origin))

/-- `Sender.appliesTo`. -/
def appliesTo (L : Lowering) (origins : List Text) (host : Text) : Bool :=
  origins.any fun origin => L.lower host == hostOf L origin

/-- `Character.isWhitespace`. -/
def isWhitespace (c : CodePoint) : Bool :=
  (0x09 ≤ c.val && c.val ≤ 0x0d) || (0x1c ≤ c.val && c.val ≤ 0x20) || c.val == 0x1680 ||
  (0x2000 ≤ c.val && c.val ≤ 0x2006) || (0x2008 ≤ c.val && c.val ≤ 0x200a) ||
  c.val == 0x2028 || c.val == 0x2029 || c.val == 0x205f || c.val == 0x3000

def isSurrogate (c : CodePoint) : Bool := 0xd800 ≤ c.val && c.val ≤ 0xdfff

/-- What the origins of an `identity` frame have to be to reach the registry:
`identity_body` refuses a blank one, UTF-8 has no surrogates, and `IdentityBody` refuses
what Java calls blank. The credential's own checks are no matter of origins. -/
def registers (origins : List Text) : Bool :=
  !origins.isEmpty && origins.all fun o =>
    !(strip o).isEmpty && o.all (!isSurrogate ·) && !o.all isWhitespace

/-- How the identity step of `decideAndIssue` ends, past every gate. -/
inductive Step where
  | anonymous
  | unknownIdentity
  | identityOrigin
  | injected (id : Text)
  deriving DecidableEq

/-- The identity step, over the origins the registry holds for each id. -/
def identityStep (L : Lowering) (registry : Text → Option (List Text)) (identityId : Option Text)
    (host : Text) : Step :=
  match identityId with
  | none => .anonymous
  | some id =>
      if id.all isWhitespace then .anonymous
      else
        match registry id with
        | none => .unknownIdentity
        | some origins => if appliesTo L origins host then .injected id else .identityOrigin

end Hx.Identity
