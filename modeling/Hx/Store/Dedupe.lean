import Hx.Library.Decimal
import Hx.Store.Records

/-!
# Which findings share a key

`dedupe_key` joins the parts of a finding's identity with `|`, and writes `-` for a part that
is absent, empty or wider than the scope level. The scope level itself is no part of the key.
-/

namespace Hx.Store

open Hx.Checks Hx.Library

/-- What `dedupe_key` is called with. -/
structure Identity where
  type_ : String
  issueTypeId : String
  scheme : String
  host : String
  port : Option Int
  method : String
  pathTemplate : String
  insertionKind : Option String
  insertionName : Option String
  scopeLevel : ScopeLevel
  deriving DecidableEq

/-- The parts in the order of the key. -/
def keyParts : List KeyPart :=
  [.type_, .issueTypeId, .scheme, .host, .port, .method, .pathTemplate, .insertionKind,
    .insertionName]

inductive Part where
  | text (s : String)
  | number (n : Int)
  deriving DecidableEq

namespace Part

/-- `str(value)`. -/
def str : Part → String
  | .text s => s
  | .number n => toString n

/-- `value == ""`. -/
def isEmpty : Part → Bool
  | .text s => s == ""
  | .number _ => false

theorem str_eq_empty_iff (v : Part) : v.str = "" ↔ v.isEmpty = true := by
  cases v with
  | text s => exact beq_iff_eq.symm
  | number n =>
      refine iff_of_false (fun empty => ?_) Bool.false_ne_true
      exact toString_ne_nil n (congrArg String.toList empty)

end Part

namespace Identity

def value (i : Identity) : KeyPart → Option (Part)
  | .type_ => some (.text i.type_)
  | .issueTypeId => some (.text i.issueTypeId)
  | .scheme => some (.text i.scheme)
  | .host => some (.text i.host)
  | .port => i.port.map .number
  | .method => some (.text i.method)
  | .pathTemplate => some (.text i.pathTemplate)
  | .insertionKind => i.insertionKind.map .text
  | .insertionName => i.insertionName.map .text

/-- `dedupe_key`. -/
def key (i : Identity) : String :=
  String.intercalate "|" (keyParts.map fun p =>
    keyPart (scopeBlanks i.scopeLevel) p ((i.value p).map Part.str))

/-- The identity without the parts its scope level ignores. -/
def blanked (i : Identity) (p : KeyPart) : Option (Part) :=
  if (scopeBlanks i.scopeLevel).contains p then none else i.value p

/-- What is left of it when an empty part counts as an absent one. -/
def seen (i : Identity) (p : KeyPart) : Option (Part) :=
  (i.blanked p).filter fun v => !v.isEmpty

/-- No string that is left holds the separator or is the placeholder. -/
def Plain (i : Identity) : Prop :=
  ∀ p s, i.seen p = some (.text s) → '|' ∉ s.toList ∧ s ≠ "-"

end Identity

/-- The key of a finding as the scan and the tools ask for it. -/
theorem dedupeKey_eq (type_ issueTypeId : String) (at_ : Location) (insertion : Option Insertion)
    (scopeLevel : ScopeLevel) :
    dedupeKey type_ issueTypeId at_ insertion scopeLevel =
      Identity.key
        { type_, issueTypeId, scopeLevel, scheme := at_.scheme, host := at_.host, port := at_.port
          method := at_.method, pathTemplate := at_.pathTemplate
          insertionKind := insertion.map fun i => insertionKind i.kind
          insertionName := insertion.map (·.name) } := by
  cases at_ with
  | mk scheme host port method pathTemplate =>
      cases port <;> cases insertion <;> rfl

/-! ## One part -/

namespace Identity

variable {i j : Identity} {p : KeyPart}

/-- What is seen of a part, or `-`. -/
def shown (i : Identity) (p : KeyPart) : String := ((i.seen p).map Part.str).getD "-"

theorem keyPart_eq (i : Identity) (p : KeyPart) :
    keyPart (scopeBlanks i.scopeLevel) p ((i.value p).map Part.str) = i.shown p := by
  rw [keyPart, shown, seen, blanked]
  by_cases blank : (scopeBlanks i.scopeLevel).contains p = true
  · rw [if_pos (.inl blank), if_pos blank]
    rfl
  · rw [if_neg blank]
    cases value : i.value p with
    | none =>
        rw [if_pos (.inr (.inl rfl))]
        rfl
    | some v =>
        by_cases empty : v.isEmpty = true
        · have text := congrArg some (v.str_eq_empty_iff.2 empty)
          rw [if_pos (.inr (.inr text)), Option.filter_some, if_neg (by rw [empty]; decide)]
          rfl
        · have text : some v.str ≠ some "" := fun same =>
            empty (v.str_eq_empty_iff.1 (Option.some.inj same))
          have kept : (!v.isEmpty) = true := by
            rw [Bool.eq_false_iff.2 empty]
            rfl
          have here : ¬ ((scopeBlanks i.scopeLevel).contains p = true ∨
              (some v).map Part.str = none ∨ (some v).map Part.str = some "") := by
            rintro (wide | absent | none_)
            · exact blank wide
            · contradiction
            · exact text none_
          rw [if_neg here, Option.filter_some, if_pos kept]

theorem key_eq (i : Identity) : i.key = String.intercalate "|" (keyParts.map i.shown) := by
  rw [key, List.map_congr_left fun p _ => i.keyPart_eq p]

/-- Only the port is a number. -/
theorem seen_cases {v : Part} (left_ : i.seen p = some v) :
    (p = .port ∧ ∃ n, v = .number n) ∨ p ≠ .port ∧ ∃ s, v = .text s := by
  have blanked : i.blanked p = some v := (Option.filter_eq_some_iff.1 left_).1
  have value : i.value p = some v := by
    rw [Identity.blanked] at blanked
    split at blanked
    · contradiction
    · exact blanked
  cases p with
  | port =>
      obtain ⟨n, -, rfl⟩ := Option.map_eq_some_iff.1 value
      exact .inl ⟨rfl, n, rfl⟩
  | insertionKind | insertionName =>
      obtain ⟨s, -, rfl⟩ := Option.map_eq_some_iff.1 value
      exact .inr ⟨nofun, s, rfl⟩
  | type_ | issueTypeId | scheme | host | method | pathTemplate =>
      exact .inr ⟨nofun, _, (Option.some.inj value).symm⟩

/-- A part that is seen is not written as the placeholder, nor with the separator. -/
theorem Plain.str (plain : i.Plain) {v : Part} (left_ : i.seen p = some v) :
    v.str ≠ "-" ∧ '|' ∉ v.str.toList := by
  obtain ⟨-, n, rfl⟩ | ⟨-, s, rfl⟩ := seen_cases left_
  · refine ⟨fun sign => toString_ne_sign n (congrArg String.toList sign), fun mem => ?_⟩
    obtain digit | sign := mem_toString mem
    · exact absurd digit (by decide)
    · exact absurd sign (by decide)
  · exact (plain p s left_).symm

theorem Plain.shown (plain : i.Plain) (p : KeyPart) : '|' ∉ (i.shown p).toList := by
  rw [Identity.shown]
  cases left_ : i.seen p with
  | none => decide
  | some v => exact (plain.str left_).2

/-- Plain parts are seen alike when they are written alike. -/
theorem Plain.seen_eq (plain : i.Plain) (plain' : j.Plain) (same : i.shown p = j.shown p) :
    i.seen p = j.seen p := by
  rw [Identity.shown, Identity.shown] at same
  cases left_ : i.seen p with
  | none =>
      cases left' : j.seen p with
      | none => rfl
      | some w =>
          rw [left_, left'] at same
          exact absurd same.symm (plain'.str left').1
  | some v =>
      cases left' : j.seen p with
      | none =>
          rw [left_, left'] at same
          exact absurd same (plain.str left_).1
      | some w =>
          rw [left_, left'] at same
          have text : v.str = w.str := same
          obtain ⟨port, n, rfl⟩ | ⟨other, s, rfl⟩ := seen_cases left_
          · obtain ⟨-, m, rfl⟩ | ⟨other, -⟩ := seen_cases left'
            · rw [toString_injective text]
            · exact absurd port other
          · obtain ⟨port, -⟩ | ⟨-, t, rfl⟩ := seen_cases left'
            · exact absurd port other
            · exact congrArg (some ∘ Part.text) text

/-! ## The key -/

theorem key_of_seen (same : i.seen = j.seen) : i.key = j.key := by
  have shown : i.shown = j.shown := funext fun p => by rw [Identity.shown, Identity.shown, same]
  rw [key_eq, key_eq, shown]

/-- The separator cannot be read out of plain parts. -/
theorem shown_of_key (plain : i.Plain) (plain' : j.Plain) (same : i.key = j.key) :
    ∀ p ∈ keyParts, i.shown p = j.shown p := by
  have split_ : ∀ k : Identity, k.Plain →
      k.key.toList.splitOn '|' = (keyParts.map k.shown).map String.toList := by
    intro k plain
    rw [key_eq, String.toList_intercalate]
    refine List.splitOn_intercalate '|' (fun text mem => ?_) (List.cons_ne_nil _ _)
    obtain ⟨shown, inside, rfl⟩ := List.mem_map.1 mem
    obtain ⟨p, -, rfl⟩ := List.mem_map.1 inside
    exact plain.shown p
  have lists : (keyParts.map i.shown).map String.toList =
      (keyParts.map j.shown).map String.toList := by
    rw [← split_ i plain, same, split_ j plain']
  have parts := List.map_injective_iff.2 (fun _ _ => String.toList_injective) lists
  exact fun p mem => List.map_inj_left.1 parts p mem

theorem mem_keyParts (p : KeyPart) : p ∈ keyParts := by
  cases p <;> decide

/-- A path of a form and a parameter it has. -/
def pathAndName (path name : String) : Identity where
  type_ := "hx.active.reflected-xss"
  issueTypeId := "reflected-xss"
  scheme := "https"
  host := "app.test"
  port := some 443
  method := "GET"
  pathTemplate := path
  insertionKind := some "query"
  insertionName := some name
  scopeLevel := .surface

theorem plain_pathAndName : (pathAndName "/a" "q").Plain ∧ (pathAndName "/a" "r").Plain := by
  have plain : ∀ path name, '|' ∉ path.toList ∧ path ≠ "-" → '|' ∉ name.toList ∧ name ≠ "-" →
      (pathAndName path name).Plain := by
    intro path name outside inside p s left_
    have fixed : ∀ s ∈ ["hx.active.reflected-xss", "reflected-xss", "https", "app.test", "GET",
        "query"], '|' ∉ s.toList ∧ s ≠ "-" := by decide
    have value : (pathAndName path name).value p = some (.text s) :=
      (Option.filter_eq_some_iff.1 left_).1
    cases p with
    | pathTemplate =>
        cases value
        exact outside
    | insertionName =>
        cases value
        exact inside
    | type_ | issueTypeId | scheme | host | method | insertionKind =>
        cases value
        exact fixed _ (by simp [pathAndName])
    | port => cases value
  exact ⟨plain _ _ (by decide) (by decide), plain _ _ (by decide) (by decide)⟩

end Identity

end Hx.Store
