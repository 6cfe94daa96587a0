import Hx.Python.Text
import Hx.Library.Pieces
import Mathlib.Data.List.SplitBy

/-!
# The template of a path

`surface.path_template` reads a path segment by segment: each is decoded, and a placeholder
or the escaped segment stands in its place. No segment gains a separator, so a template has
as many segments as the path it was made of.
-/

namespace Hx.Checks

open Hx.Python

/-- `MAX_DECODE_ROUNDS`. -/
def maxDecodeRounds : Nat := 16

def hexValue (c : Char) : Option Nat :=
  if '0' ≤ c ∧ c ≤ '9' then some (c.toNat - 48)
  else if 'A' ≤ c ∧ c ≤ 'F' then some (c.toNat - 55)
  else if 'a' ≤ c ∧ c ≤ 'f' then some (c.toNat - 87)
  else none

/-- `unquote_to_bytes` of ASCII text. -/
def unquoteToBytes : List Char → Bytes
  | '%' :: a :: b :: rest =>
      match hexValue a, hexValue b with
      | some high, some low => UInt8.ofNat (16 * high + low) :: unquoteToBytes rest
      | _, _ => 37 :: unquoteToBytes (a :: b :: rest)
  | c :: rest => UInt8.ofNat c.toNat :: unquoteToBytes rest
  | [] => []

def isAscii (c : Char) : Bool := c.toNat < 128

/-- A run of ASCII characters is decoded, any other stays. -/
def unquoteRun (run : List Char) : Option (List Char) :=
  if run.all isAscii then (unquoteToBytes run).toByteArray.utf8Decode?.map (·.toList)
  else some run

/-- `unquote(seg, errors="strict")`; nothing where it raises. -/
def unquote (seg : List Char) : Option (List Char) :=
  ((seg.splitBy fun a b => isAscii a == isAscii b).mapM unquoteRun).map List.flatten

/-- `_decode_once`. -/
def decodeOnce (seg : List Char) : List Char := (unquote seg).getD seg

/-- The loop of `_decode_segment`. -/
def decodeRounds : Nat → List Char → List Char
  | 0, decoded => decoded
  | n + 1, decoded =>
      if decodeOnce decoded = decoded then decoded else decodeRounds n (decodeOnce decoded)

/-- `_decode_segment`. -/
def decodeSegment (seg : List Char) : List Char :=
  if '/' ∈ decodeRounds maxDecodeRounds seg then seg else decodeRounds maxDecodeRounds seg

/-- `_kept_segment`. -/
def keptSegment (seg : List Char) : List Char :=
  seg.flatMap fun c => if c = '{' then "%7B".toList else if c = '}' then "%7D".toList else [c]

def isDigit (c : Char) : Bool := '0' ≤ c && c ≤ '9'

def isHex (c : Char) : Bool := (hexValue c).isSome

/-- `_UUID`. -/
def isUuid (seg : List Char) : Bool :=
  let groups := seg.splitOn '-'
  groups.map List.length == [8, 4, 4, 4, 12] && groups.all fun g => g.all isHex

/-- The configuration the normaliser reads. -/
structure Normaliser where
  preserve : List (List Char)
  slugThreshold : Nat

/-- `_template_segment`. -/
def templateSegment (n : Normaliser) (seg : List Char) : List Char :=
  let decoded := decodeSegment seg
  if decoded ∈ n.preserve then keptSegment decoded
  else if decoded ≠ [] ∧ decoded.all isDigit then "{id}".toList
  else if isUuid decoded then "{uuid}".toList
  else if 32 ≤ decoded.length ∧ decoded.all isHex then "{hex}".toList
  else if n.slugThreshold ≤ decoded.length ∧ decoded.any isDigit then "{slug}".toList
  else keptSegment decoded

/-- `"/".join(segments)`. -/
def joined (segments : List (List Char)) : List Char := List.intercalate ['/'] segments

/-- `path_template`. -/
def pathTemplate (n : Normaliser) (path : List Char) : List Char :=
  if path = [] then ['/']
  else
    match path.splitOn '/' with
    | first :: rest => joined (first :: rest.map (templateSegment n))
    | [] => []

/-! ## Segments -/

variable {seg path : List Char} {n : Normaliser}

theorem notMem_decodeSegment (plain : '/' ∉ seg) : '/' ∉ decodeSegment seg := by
  rw [decodeSegment]
  split
  · exact plain
  · rename_i clean
    exact clean

theorem notMem_keptSegment (plain : '/' ∉ seg) : '/' ∉ keptSegment seg := by
  intro mem
  obtain ⟨c, there, mem⟩ := List.mem_flatMap.1 mem
  split at mem
  · exact absurd mem (by decide)
  · split at mem
    · exact absurd mem (by decide)
    · exact plain (List.mem_singleton.1 mem ▸ there)

theorem notMem_templateSegment (plain : '/' ∉ seg) : '/' ∉ templateSegment n seg := by
  have kept := notMem_keptSegment (notMem_decodeSegment plain)
  rw [templateSegment]
  split
  · exact kept
  · split
    · decide
    · split
      · decide
      · split
        · decide
        · split
          · decide
          · exact kept

/-- The template's segments are the path's, rewritten one for one behind the first. -/
theorem splitOn_pathTemplate (some_ : path ≠ []) :
    ∃ first rest, path.splitOn '/' = first :: rest ∧
      (pathTemplate n path).splitOn '/' = first :: rest.map (templateSegment n) := by
  obtain ⟨first, rest, split⟩ := List.exists_cons_of_ne_nil (List.splitOn_ne_nil '/' path)
  have plain : ∀ s ∈ path.splitOn '/', '/' ∉ s := fun s mem => (Library.mem_splitOn mem).1
  rw [split] at plain
  refine ⟨first, rest, split, ?_⟩
  rw [pathTemplate, if_neg some_, split]
  refine List.splitOn_intercalate _ ?_ (List.cons_ne_nil _ _)
  intro s mem
  cases mem with
  | head => exact plain first List.mem_cons_self
  | tail _ mem =>
      obtain ⟨seg, there, rfl⟩ := List.mem_map.1 mem
      exact notMem_templateSegment (plain seg (List.mem_cons_of_mem _ there))

theorem length_pathTemplate (some_ : path ≠ []) :
    ((pathTemplate n path).splitOn '/').length = (path.splitOn '/').length := by
  obtain ⟨first, rest, split, template⟩ := splitOn_pathTemplate (n := n) some_
  rw [split, template, List.length_cons, List.length_cons, List.length_map]

end Hx.Checks
