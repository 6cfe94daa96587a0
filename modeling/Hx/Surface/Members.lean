import Hx.Library.Fallible
import Hx.Library.Lowering
import Mathlib.Data.Finset.Card

/-!
# The members of a JSON body

`walk` follows the keys of nested objects down to what is no object and names each place it
comes to by the keys on its way, with dots between them. A name that is empty is left out, and
two places of one name are one point.

The names are told apart by less than the keys are: a key may itself have dots in it, and a key
that is empty leaves no trace at the front of a name. `pieces` is what a name keeps of its
keys.
-/

namespace Hx.Surface

open Hx.Library

/-- What `json.loads` makes of a body. A list, a string, a number or a constant is one leaf;
what it holds is never looked at. -/
inductive Node where
  | leaf
  | object (items : List (Text × Node))

/-- What reading a body or walking it may raise. `UnicodeDecodeError` is a `ValueError`. -/
inductive Raised where
  | valueError
  | recursionError
  deriving DecidableEq

def dot : Fin 0x110000 := chr 46

/-- `f"{prefix}.{key}" if prefix else str(key)`. -/
def extend (before key : Text) : Text := if before = [] then key else before ++ dot :: key

mutual

/-- The names that `walk(node, prefix)` adds, where `frames` more calls may be nested. -/
def walk : Node → ℕ → Text → Except Raised (List Text)
  | _, 0, _ => .error .recursionError
  | .leaf, _ + 1, before => .ok (if before = [] then [] else [before])
  | .object items, frames + 1, before => walkItems items frames before

/-- The loop over `node.items()`. -/
def walkItems : List (Text × Node) → ℕ → Text → Except Raised (List Text)
  | [], _, _ => .ok []
  | (key, value) :: rest, frames, before => do
      let here ← walk value frames (extend before key)
      let more ← walkItems rest frames before
      return here ++ more

end

/-- The names of the `body_json` points. `loads` stands for decoding a body and reading it. -/
def jsonMembers (loads : List UInt8 → Except Raised Node) (frames : ℕ) (body : List UInt8) :
    Except Raised (Finset Text) :=
  match loads body with
  | .error .valueError => .ok ∅
  | .error .recursionError => .error .recursionError
  | .ok parsed => (walk parsed frames []).map List.toFinset

/-! ## Positions -/

mutual

/-- The keys on the way to each value that is no object. -/
def Node.positions : Node → List (List Text)
  | .leaf => [[]]
  | .object items => positionsOf items

def positionsOf : List (Text × Node) → List (List Text)
  | [] => []
  | (key, value) :: rest => value.positions.map (key :: ·) ++ positionsOf rest

end

mutual

/-- How many calls of `walk` are nested on the longest way. -/
def Node.depth : Node → ℕ
  | .leaf => 1
  | .object items => depthOf items + 1

def depthOf : List (Text × Node) → ℕ
  | [] => 0
  | (_, value) :: rest => max value.depth (depthOf rest)

end

/-- The keys of a position, without the empty ones at the front and each cut at its dots. -/
def pieces (keys : List Text) : List Text :=
  (keys.dropWhile List.isEmpty).flatMap fun key => key.splitOn dot

/-- A body whose positions differ in their pieces, and where none is without. -/
structure Apart (node : Node) : Prop where
  some_ : ∀ keys ∈ node.positions, pieces keys ≠ []
  differ : (node.positions.map pieces).Nodup

/-- The points of a body are as many as its positions. -/
def Complete (points : Except Raised (Finset Text)) (node : Node) : Prop :=
  ∃ names, points = .ok names ∧ names.card = node.positions.length

/-! ## Names -/

/-- The name of a position below a name. -/
def nameFrom (before : Text) (keys : List Text) : Text := keys.foldl extend before

theorem extend_of_ne {before : Text} (some_ : before ≠ []) (key : Text) :
    extend before key = before ++ dot :: key := if_neg some_

theorem splitOn_extend {before : Text} (some_ : before ≠ []) (key : Text) :
    (extend before key).splitOn dot = before.splitOn dot ++ key.splitOn dot := by
  rw [extend_of_ne some_]
  exact List.splitOn_append_cons_self before key

theorem extend_ne_nil {before : Text} (some_ : before ≠ []) (key : Text) :
    extend before key ≠ [] := by
  rw [extend_of_ne some_]
  exact List.append_ne_nil_of_left_ne_nil some_ _

/-- Behind a name that is not empty every key leaves its pieces. -/
theorem splitOn_nameFrom {before : Text} (some_ : before ≠ []) (keys : List Text) :
    nameFrom before keys ≠ [] ∧ (nameFrom before keys).splitOn dot =
      before.splitOn dot ++ keys.flatMap fun key => key.splitOn dot := by
  induction keys generalizing before with
  | nil => exact ⟨some_, by simp [nameFrom]⟩
  | cons key keys ih =>
      obtain ⟨named, cut⟩ := ih (extend_ne_nil some_ key)
      refine ⟨named, cut.trans ?_⟩
      rw [splitOn_extend some_, List.flatMap_cons, List.append_assoc]

/-- The pieces of a position are those of its name; only the empty name has none. -/
theorem pieces_eq (keys : List Text) :
    pieces keys = if nameFrom [] keys = [] then [] else (nameFrom [] keys).splitOn dot := by
  induction keys with
  | nil => rfl
  | cons key keys ih =>
      cases key with
      | nil => exact ih
      | cons c key =>
          obtain ⟨named, cut⟩ := splitOn_nameFrom (List.cons_ne_nil c key) keys
          show ((c :: key) :: keys).flatMap _ = if nameFrom (c :: key) keys = [] then [] else _
          rw [if_neg named, List.flatMap_cons]
          exact cut.symm

theorem pieces_eq_nil {keys : List Text} : pieces keys = [] ↔ nameFrom [] keys = [] := by
  rw [pieces_eq]
  split_ifs with empty
  · exact ⟨fun _ => empty, fun _ => rfl⟩
  · exact ⟨fun none_ => absurd none_ (List.splitOn_ne_nil _ _), fun none_ => absurd none_ empty⟩

/-- Two positions have one name where they have the same pieces. -/
theorem pieces_inj {keys other : List Text} :
    pieces keys = pieces other ↔ nameFrom [] keys = nameFrom [] other := by
  refine ⟨fun same => ?_, fun same => by rw [pieces_eq, pieces_eq, same]⟩
  by_cases empty : nameFrom [] keys = []
  · have none_ := pieces_eq_nil.1 (same.symm.trans (pieces_eq_nil.2 empty))
    exact empty.trans none_.symm
  · have empty' : nameFrom [] other ≠ [] := fun none_ =>
      empty (pieces_eq_nil.1 (same.trans (pieces_eq_nil.2 none_)))
    rw [pieces_eq, pieces_eq, if_neg empty, if_neg empty'] at same
    have joined := congrArg (List.intercalate [dot]) same
    rwa [List.intercalate_splitOn, List.intercalate_splitOn] at joined

/-! ## The walk -/

/-- The names of some positions below a name. -/
def namesFrom (before : Text) (positions : List (List Text)) : List Text :=
  (positions.map (nameFrom before)).filter fun name => name ≠ []

theorem namesFrom_append (before : Text) (some_ more : List (List Text)) :
    namesFrom before (some_ ++ more) = namesFrom before some_ ++ namesFrom before more := by
  rw [namesFrom, List.map_append, List.filter_append]
  rfl

theorem namesFrom_cons (before key : Text) (positions : List (List Text)) :
    namesFrom before (positions.map (key :: ·)) = namesFrom (extend before key) positions := by
  rw [namesFrom, List.map_map]
  rfl

mutual

/-- A walk that is not nested too deep adds the names of the positions. -/
theorem walk_ok : ∀ (node : Node) {frames : ℕ} (before : Text), node.depth ≤ frames →
    walk node frames before = .ok (namesFrom before node.positions)
  | .leaf, 0, _, deep => absurd deep (Nat.not_succ_le_zero 0)
  | .object _, 0, _, deep => absurd deep (Nat.not_succ_le_zero _)
  | .leaf, frames + 1, before, _ => by
      rw [walk, Node.positions, namesFrom, List.map_singleton, List.filter_singleton]
      show _ = Except.ok (bif decide (before ≠ []) then [before] else [])
      by_cases empty : before = [] <;> simp [empty]
  | .object items, frames + 1, before, deep => by
      rw [walk, Node.positions]
      exact walkItems_ok items before (Nat.le_of_succ_le_succ deep)

theorem walkItems_ok : ∀ (items : List (Text × Node)) {frames : ℕ} (before : Text),
    depthOf items ≤ frames →
    walkItems items frames before = .ok (namesFrom before (positionsOf items))
  | [], _, _, _ => by rw [walkItems]; rfl
  | (key, value) :: rest, frames, before, deep => by
      rw [depthOf, Nat.max_le] at deep
      rw [walkItems, walk_ok value _ deep.1, walkItems_ok rest before deep.2, positionsOf,
        namesFrom_append, namesFrom_cons]
      rfl

end

mutual

theorem walk_deep : ∀ (node : Node) {frames : ℕ} (before : Text), frames < node.depth →
    walk node frames before = .error .recursionError
  | _, 0, _, _ => by rw [walk]
  | .leaf, frames + 1, _, deep => absurd deep (Nat.not_lt.2 (Nat.succ_pos frames))
  | .object items, frames + 1, before, deep => by
      rw [walk]
      exact walkItems_deep items before (Nat.lt_of_succ_lt_succ deep)

theorem walkItems_deep : ∀ (items : List (Text × Node)) {frames : ℕ} (before : Text),
    frames < depthOf items → walkItems items frames before = .error .recursionError
  | [], frames, _, deep => absurd deep (Nat.not_lt_zero frames)
  | (key, value) :: rest, frames, before, deep => by
      rw [walkItems]
      by_cases here : frames < value.depth
      · rw [walk_deep value _ here]
        rfl
      · rw [depthOf, lt_max_iff] at deep
        rw [walk_ok value _ (Nat.not_lt.1 here),
          walkItems_deep rest before (deep.resolve_left here)]
        rfl

end

/-- As many names as positions. -/
theorem card_names {positions : List (List Text)} :
    (namesFrom [] positions).toFinset.card = positions.length ↔
      (∀ keys ∈ positions, pieces keys ≠ []) ∧ (positions.map pieces).Nodup := by
  have short : (namesFrom [] positions).length ≤ positions.length := by
    refine (List.length_filter_le _ _).trans_eq ?_
    rw [List.length_map]
  have few := (namesFrom [] positions).toFinset_card_le
  have alike : (positions.map pieces).Nodup ↔ (positions.map (nameFrom [])).Nodup := by
    rw [List.Nodup, List.pairwise_map, List.Nodup, List.pairwise_map]
    simp only [ne_eq, pieces_inj]
  rw [alike]
  constructor
  · intro full
    have whole : (namesFrom [] positions).length = (positions.map (nameFrom [])).length := by
      rw [List.length_map]
      omega
    have kept := List.length_filter_eq_length_iff.1 whole
    have named : ∀ keys ∈ positions, pieces keys ≠ [] := by
      intro keys mem none_
      have name := kept _ (List.mem_map_of_mem mem)
      simp [pieces_eq_nil.1 none_] at name
    have all : namesFrom [] positions = positions.map (nameFrom []) := List.filter_eq_self.2 kept
    refine ⟨named, Multiset.coe_nodup.1 (Multiset.toFinset_card_eq_card_iff_nodup.1 ?_)⟩
    rw [← all, Multiset.coe_card]
    exact full.trans (by rw [all, List.length_map])
  · rintro ⟨named, differ⟩
    have all : namesFrom [] positions = positions.map (nameFrom []) := by
      refine List.filter_eq_self.2 fun name mem => ?_
      obtain ⟨keys, inside, rfl⟩ := List.mem_map.1 mem
      exact decide_eq_true fun none_ => named keys inside (pieces_eq_nil.2 none_)
    rw [all, List.toFinset_card_of_nodup differ, List.length_map]

/-- `{"a":{"b":1},"a.b":2}`. -/
def dottedKey : List UInt8 := "\x7b\"a\":\x7b\"b\":1\x7d,\"a.b\":2\x7d".toUTF8.toList

/-- `{"":1}`. -/
def emptyKey : List UInt8 := "\x7b\"\":1\x7d".toUTF8.toList

/-- What is read of these two. -/
def loadsExample (body : List UInt8) : Except Raised Node :=
  if body = dottedKey then
    .ok (.object [(text "a", .object [(text "b", .leaf)]), (text "a.b", .leaf)])
  else if body = emptyKey then .ok (.object [(text "", .leaf)])
  else .error .valueError

end Hx.Surface
