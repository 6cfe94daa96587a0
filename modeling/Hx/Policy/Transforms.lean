import Hx.Java.Case
import Hx.Policy.BestFit
import Mathlib.Data.List.DropRight

/-!
# What a server may do to a path before it routes it

The transforms of the policy, each as the source computes it on code units. An early-out
of the source that answers what its loop would build is not repeated, except in
`collapseDotSegments`, where that is a fact about the loop.

No transform lengthens its input; `Transform` names the eleven that read a path, and
`percentEncodeUtf8`, which lengthens, is not one of them.
-/

namespace Hx.Policy

open Hx.Java

def slash : JChar := ch '/'
def backslash : JChar := ch '\\'
def dot : JChar := ch '.'
def semicolon : JChar := ch ';'
def percent : JChar := ch '%'
def nul : JChar := 0

/-! ## Percent-decoding -/

def maxDecodeRounds : Nat := 16

def hexDigit (c : JChar) : Option Nat :=
  if 0x30 ≤ c.val ∧ c.val ≤ 0x39 then some (c.val - 0x30)
  else if 0x61 ≤ c.val ∧ c.val ≤ 0x66 then some (c.val - 0x61 + 10)
  else if 0x41 ≤ c.val ∧ c.val ≤ 0x46 then some (c.val - 0x41 + 10)
  else none

/-- The character an escape of these three characters is decoded to. -/
def escape (separatorsInert : Bool) (c a b : JChar) : Option JChar :=
  if c = percent then
    match hexDigit a, hexDigit b with
    | some hi, some lo =>
        let decoded : JChar := Fin.ofNat 65536 (hi * 16 + lo)
        if separatorsInert && (decoded == slash || decoded == backslash) then none
        else some decoded
    | _, _ => none
  else none

/-- One round. A malformed escape and one that is left inert are copied through. -/
def decodeOnce (separatorsInert : Bool) : JString → JString
  | c :: a :: b :: rest =>
      match escape separatorsInert c a b with
      | some decoded => decoded :: decodeOnce separatorsInert rest
      | none => c :: decodeOnce separatorsInert (a :: b :: rest)
  | short => short

/-- At most `n` rounds, stopping when one changes nothing. -/
def rounds (once : JString → JString) : Nat → JString → JString
  | 0, s => s
  | n + 1, s => if once s = s then s else rounds once n (once s)

def decodeToFixedPoint (s : JString) : JString := rounds (decodeOnce false) maxDecodeRounds s

def decodeSeparatorsInert (s : JString) : JString := rounds (decodeOnce true) maxDecodeRounds s

def decodesFully (s : JString) : Bool :=
  decodeOnce false (decodeToFixedPoint s) == decodeToFixedPoint s

/-! ## Overlong UTF-8 -/

/-- How many continuation bytes a lead byte announces. -/
def extraBytes (c : JChar) : Nat :=
  if 0xf0 ≤ c.val ∧ c.val ≤ 0xf7 then 3
  else if 0xe0 ≤ c.val ∧ c.val ≤ 0xef then 2
  else if 0xc0 ≤ c.val ∧ c.val ≤ 0xdf then 1
  else 0

/-- Six bits from each continuation byte. -/
def continuation : Nat → JString → Option Nat
  | cp, [] => some cp
  | cp, b :: rest =>
      if b.val < 0x80 ∨ 0xbf < b.val then none else continuation (cp * 64 + b.val % 64) rest

/-- The character a well-formed sequence spells, and its continuation bytes. -/
def sequenceAt (c : JChar) (rest : JString) : Option (JChar × Nat) :=
  let extra := extraBytes c
  if extra = 0 ∨ rest.length < extra then none
  else match continuation (c.val % 2 ^ (6 - extra)) (rest.take extra) with
    | some cp => if 0xffff < cp then none else some (Fin.ofNat 65536 cp, extra)
    | none => none

/-- The fold, past the continuation bytes that are already read. -/
def foldUtf8From : Nat → JString → JString
  | _, [] => []
  | skip + 1, _ :: rest => foldUtf8From skip rest
  | 0, c :: rest =>
      match sequenceAt c rest with
      | some (folded, extra) => folded :: foldUtf8From extra rest
      | none => c :: foldUtf8From 0 rest

def foldOverlongUtf8 (s : JString) : JString := foldUtf8From 0 s

/-! ## Segments -/

def segments (path : JString) : List JString := path.splitOn slash

def joined (parts : List JString) : JString := [slash].intercalate parts

/-- `.` and `..`, and not the longer runs of dots. -/
def isDotSegment (segment : JString) : Bool := segment == [dot] || segment == [dot, dot]

/-- What is trimmed from a tail whatever is in front of it. -/
def isBlankTail (c : JChar) : Bool := c == ch ' ' || c == nul

def trimSegmentTail (segment : JString) : JString :=
  let cut := segment.rdropWhile isBlankTail
  if isDotSegment cut then cut else cut.rdropWhile fun c => c == dot || isBlankTail c

def trimSegmentTails (path : JString) : JString := joined ((segments path).map trimSegmentTail)

def hasTrimmableTail (path : JString) : Bool :=
  (segments path).any fun segment =>
    match segment.getLast? with
    | some last => isBlankTail last || (last == dot && !isDotSegment segment)
    | none => false

def foldBackslashes (path : JString) : JString :=
  path.map fun c => if c = backslash then slash else c

/-- From a `;` to the end of its segment. -/
def stripFrom : Bool → JString → JString
  | _, [] => []
  | dropping, c :: rest =>
      if c = slash then c :: stripFrom false rest
      else if dropping || c == semicolon then stripFrom true rest
      else c :: stripFrom false rest

def stripPathParameters (path : JString) : JString := stripFrom false path

def truncateAtNul (path : JString) : JString := path.takeWhile fun c => c != nul

/-- A `/` after a `/` is dropped. -/
def collapseFrom : Bool → JString → JString
  | _, [] => []
  | prevSlash, c :: rest =>
      if c == slash && prevSlash then collapseFrom prevSlash rest
      else c :: collapseFrom (c == slash) rest

def collapseEmptySegments (path : JString) : JString := collapseFrom false path

/-- The segments that are kept, and whether the last one implied a trailing slash. -/
def resolveDots : List JString → List JString → List JString × Bool
  | kept, [] => (kept, false)
  | kept, segment :: rest =>
      if segment = [dot] then
        if rest = [] then (kept, true) else resolveDots kept rest
      else if segment = [dot, dot] then
        if rest = [] then (kept.dropLast, true) else resolveDots kept.dropLast rest
      else resolveDots (kept ++ [segment]) rest

/-- RFC 3986 `remove_dot_segments`, over the segments of a path. -/
def collapseDotSegments (path : JString) : JString :=
  if dot ∉ path then path
  else
    let absolute := path.head? == some slash
    let (kept, trailingSlash) := resolveDots [] ((segments path).drop (if absolute then 1 else 0))
    let out := (if absolute then [slash] else []) ++ joined kept
    if trailingSlash && out.getLast? != some slash then out ++ [slash] else out

/-! ## Percent-encoding -/

def hexChar (upperHex : Bool) (n : Nat) : JChar :=
  if n < 10 then Fin.ofNat 65536 (0x30 + n)
  else Fin.ofNat 65536 ((if upperHex then 0x41 else 0x61) + (n - 10))

def percentByte (upperHex : Bool) (b : Nat) : JString :=
  [percent, hexChar upperHex (b / 16), hexChar upperHex (b % 16)]

/-- `String.getBytes(UTF_8)` of one code point: a `?` for an unpaired surrogate. -/
def utf8Bytes (cp : Nat) : List Nat :=
  if cp < 0x80 then [cp]
  else if cp < 0x800 then [0xc0 + cp / 64, 0x80 + cp % 64]
  else if 0xd800 ≤ cp ∧ cp ≤ 0xdfff then [0x3f]
  else if cp < 0x10000 then [0xe0 + cp / 4096, 0x80 + cp / 64 % 64, 0x80 + cp % 64]
  else [0xf0 + cp / 262144, 0x80 + cp / 4096 % 64, 0x80 + cp / 64 % 64, 0x80 + cp % 64]

def percentEncodeUtf8 (upperHex : Bool) : JString → JString
  | [] => []
  | [c] =>
      if c.val < 0x80 then [c] else (utf8Bytes c.val).flatMap (percentByte upperHex)
  | c :: next :: rest =>
      if c.val < 0x80 then c :: percentEncodeUtf8 upperHex (next :: rest)
      else if isHighSurrogate c && isLowSurrogate next then
        (utf8Bytes (pairPoint c next).val).flatMap (percentByte upperHex) ++
          percentEncodeUtf8 upperHex rest
      else (utf8Bytes c.val).flatMap (percentByte upperHex) ++
        percentEncodeUtf8 upperHex (next :: rest)

/-! ## The eleven transforms -/

inductive Transform where
  | decodeToFixedPoint
  | decodeSeparatorsInert
  | foldOverlongUtf8
  | foldBestFit
  | truncateAtNul
  | foldBackslashes
  | stripPathParameters
  | trimSegmentTails
  | collapseEmptySegments
  | collapseDotSegments
  | lower
  deriving DecidableEq, Repr

variable (U : CaseMap)

def Transform.apply : Transform → JString → JString
  | .decodeToFixedPoint => Policy.decodeToFixedPoint
  | .decodeSeparatorsInert => Policy.decodeSeparatorsInert
  | .foldOverlongUtf8 => Policy.foldOverlongUtf8
  | .foldBestFit => Policy.foldBestFit
  | .truncateAtNul => Policy.truncateAtNul
  | .foldBackslashes => Policy.foldBackslashes
  | .stripPathParameters => Policy.stripPathParameters
  | .trimSegmentTails => Policy.trimSegmentTails
  | .collapseEmptySegments => Policy.collapseEmptySegments
  | .collapseDotSegments => Policy.collapseDotSegments
  | .lower => Java.lower U

/-- A sequence of transforms, first one first. -/
def applyAll (ts : List Transform) (s : JString) : JString :=
  ts.foldl (fun s t => t.apply U s) s

end Hx.Policy
