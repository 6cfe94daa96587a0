import Hx.Library.Glob
import Hx.Library.Worklist
import Hx.Policy.Lengths
import Mathlib.Data.Fintype.Card
import Mathlib.Data.Finset.Prod

/-!
# Readings

`readings` closes a path under one derivation step: the path as it is, decoded, or
decoded with the separators left inert; each as it is, folded as UTF-8, or folded as
UTF-8 and then to its best fit; each under every combination of the segment transforms
that have something to act on, resolved in both orders and case folded. A query is
closed under the byte folds alone.

`none` is the limit the source writes as `Integer.MAX_VALUE`.
-/

namespace Hx.Policy

open Hx.Java Hx.Library

def star : JChar := ch '*'

/-- `glob`: a star matches any run of characters, and nothing else is special. -/
def glob (pattern text : JString) : Bool := Glob.globMatches star pattern text

variable (U : CaseMap)

/-! ## One base -/

/-- The four segment transforms a base can be put through. -/
structure Flags where
  stripParams : Bool
  foldBackslash : Bool
  trimTails : Bool
  truncateNul : Bool
  deriving DecidableEq

/-- The flags in the order of their bits: `STRIP_PARAMS` is the lowest. -/
def allFlags : List Flags := do
  let truncateNul ← [false, true]
  let trimTails ← [false, true]
  let foldBackslash ← [false, true]
  let stripParams ← [false, true]
  return ⟨stripParams, foldBackslash, trimTails, truncateNul⟩

/-- The transforms that have something to act on. -/
def applicable (base : JString) : Flags where
  stripParams := base.contains semicolon
  foldBackslash := base.contains backslash
  trimTails := hasTrimmableTail base
  truncateNul := base.contains nul

/-- `(flags & ~applicable) == 0`. -/
def Flags.within (f applicable : Flags) : Bool :=
  (!f.stripParams || applicable.stripParams) && (!f.foldBackslash || applicable.foldBackslash) &&
  (!f.trimTails || applicable.trimTails) && (!f.truncateNul || applicable.truncateNul)

/-- The chosen transforms as a sequence. -/
def Flags.transforms (f : Flags) : List Transform :=
  (if f.truncateNul then [.truncateAtNul] else []) ++
  (if f.foldBackslash then [.foldBackslashes] else []) ++
  (if f.stripParams then [.stripPathParameters] else []) ++
  (if f.trimTails then [.trimSegmentTails] else [])

def Flags.apply (f : Flags) (s : JString) : JString :=
  let s := if f.truncateNul then truncateAtNul s else s
  let s := if f.foldBackslash then foldBackslashes s else s
  let s := if f.stripParams then stripPathParameters s else s
  if f.trimTails then trimSegmentTails s else s

/-- What `addReadings` adds, in its order. -/
def addReadings (base : JString) : List JString :=
  (allFlags.filter fun f => f.within (applicable base)).flatMap fun f =>
    [lower U (collapseDotSegments (collapseEmptySegments (f.apply base))),
      lower U (collapseEmptySegments (collapseDotSegments (f.apply base)))]

/-- One base and its two byte-level re-readings. -/
def addBases (base : JString) : List JString :=
  let utf8 := foldOverlongUtf8 base
  let bestFit := foldBestFit utf8
  addReadings U base ++ (if utf8 = base then [] else addReadings U utf8) ++
    (if bestFit = utf8 then [] else addReadings U bestFit)

/-- Every reading of one member. -/
def derive (member : JString) : List JString :=
  let decoded := decodeToFixedPoint member
  let inert := decodeSeparatorsInert member
  addBases U member ++ (if decoded = member then [] else addBases U decoded) ++
    (if inert = member ∨ inert = decoded then [] else addBases U inert)

/-- The two byte folds and the case fold over one query base. -/
def addQueryFolds (base : JString) : List JString :=
  let utf8 := foldOverlongUtf8 base
  let bestFit := foldBestFit utf8
  lower U base :: ((if utf8 = base then [] else [lower U utf8]) ++
    (if bestFit = utf8 then [] else [lower U bestFit]))

def deriveQuery (member : JString) : List JString :=
  let decoded := decodeToFixedPoint member
  addQueryFolds U member ++ (if decoded = member then [] else addQueryFolds U decoded)

/-! ## The sets -/

/-- Enough for every string of this length. -/
def readingFuel (length : Nat) : Nat := 65537 ^ length + 1

def readings (path : JString) (limit : Option Nat) : List JString :=
  Worklist.run limit (derive U) (readingFuel path.length) ⟨[path], [path]⟩

def queryReadings (query : JString) (limit : Option Nat) : List JString :=
  Worklist.run limit (deriveQuery U) (readingFuel query.length) ⟨[], [query]⟩

/-- Every reading of a deny pattern: its own, and those of its two encoded spellings. -/
def patternReadings (pattern : JString) : List JString :=
  let encoded := percentEncodeUtf8 false pattern
  readings U pattern none ++
    if encoded = pattern then []
    else readings U encoded none ++ readings U (percentEncodeUtf8 true pattern) none

/-! ## Spellings of an allow pattern -/

def isAscii (s : JString) : Bool := s.all fun c => c.val < 0x80

def addLetterFold (s : JString) : List JString :=
  let letters := foldBestFitLetters s
  if letters = s then []
  else lower U letters :: if isAscii letters then [letters] else []

def addSpelling (s : JString) : List JString :=
  lower U s :: ((if isAscii s then [s] else []) ++ addLetterFold U s)

def addSpellings (s : JString) : List JString :=
  let decoded := decodeToFixedPoint s
  let utf8 := foldOverlongUtf8 decoded
  let inert := decodeSeparatorsInert s
  s :: lower U s :: (addLetterFold U s ++
    if decoded = s then []
    else addSpelling U decoded ++ (if utf8 = decoded then [] else addSpelling U utf8) ++
      (if inert = decoded then [] else addSpelling U inert))

/-- Every way an allow pattern spells one resource. -/
def spellingReadings (pattern : JString) : List JString :=
  let encoded := percentEncodeUtf8 false pattern
  addSpellings U pattern ++
    if encoded = pattern then []
    else addSpellings U encoded ++ addSpellings U (percentEncodeUtf8 true pattern)

end Hx.Policy
