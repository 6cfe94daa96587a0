import Hx.Checks.Address
import Hx.Library.Fallible
import Hx.Surface.Keys
import Hx.Surface.Members

/-!
# The insertion points of a captured request

`derive` reads a request nobody vouches for: its target with `urlsplit`, its fields by hand, its
body with `json.loads` and a walk that calls itself. It answers unless one of the three gives up:
`urlsplit` on a network location whose brackets do not fit, the other two on a body that is nested
too deep. `request_path` reads the same target.
-/

namespace Hx.Surface

open Hx.Library Hx.Checks Hx.Issue.HttpText
open Hx.Python (Bytes latin1 strip lower contains partition isControlOrSpace isUnsafe afterScheme
  afterNetloc netloc bracketsFit urlsplitPath)

/-! ## Points -/

/-- An `Insertion`, whose name may have lone surrogates in it. -/
structure InsertionPoint where
  kind : InsertionKind
  name : Text
  named : name ≠ []

theorem InsertionPoint.eq_iff (p q : InsertionPoint) : p = q ↔ p.kind = q.kind ∧ p.name = q.name := by
  cases p
  cases q
  simp

instance : DecidableEq InsertionPoint := fun p q => decidable_of_iff' _ (InsertionPoint.eq_iff p q)

/-- `Insertion(kind, name)`. -/
def insertion (kind : InsertionKind) (name : Text) : Except Raised InsertionPoint :=
  if named : name ≠ [] then .ok ⟨kind, name, named⟩ else .error .valueError

/-- The text of a kind, as it is sorted by. -/
def kindText : InsertionKind → String
  | .query => "query"
  | .pathSegment => "path_segment"
  | .header => "header"
  | .cookie => "cookie"
  | .bodyForm => "body_form"
  | .bodyJson => "body_json"

def textBefore (s t : Text) : Bool := s.lex t fun a b => a.val < b.val

/-- The order of `(i.kind, i.name)`. -/
def sortsBefore (p q : InsertionPoint) : Bool :=
  if p.kind = q.kind then !textBefore q.name p.name
  else textBefore (text (kindText p.kind)) (text (kindText q.kind))

def codes (s : List Char) : Text := s.map fun c => chr c.toNat

/-- Names of one kind. -/
def ofKind (kind : InsertionKind) (names : List Text) : List (InsertionKind × Text) :=
  names.map fun name => (kind, name)

/-! ## The request line -/

/-- What `urlsplit` reads of a text. -/
def cleaned (url : List Char) : List Char :=
  (url.dropWhile isControlOrSpace).filter fun c => !isUnsafe c

/-- A text without a network location, or with one whose brackets fit. -/
def splits (bracketed : List Char → Bool) (url : List Char) : Bool :=
  (netloc (afterScheme (cleaned url))).all (bracketsFit bracketed)

/-- `urlsplit(url).query`. -/
def urlsplitQuery (bracketed : List Char → Bool) (url : List Char) : Except Raised (List Char) :=
  if splits bracketed url then
    .ok ((((afterNetloc (afterScheme (cleaned url))).takeWhile (· ≠ '#')).dropWhile (· ≠ '?')).drop
      1)
  else .error .valueError

section Derivation

variable (bracketed : List Char → Bool) (unquoteReplace : List Char → List Char)
variable (loads : Bytes → Except Raised Node) (frames : ℕ)

/-- The names of a query or a form, without the empty ones. -/
def formNames (query : List Char) : List Text :=
  ((parsedKeys unquoteReplace query).filter (· ≠ [])).map codes

def queryNames (head : Bytes) : Except Raised (List Text) :=
  match requestTarget head with
  | none => .ok []
  | some target => (urlsplitQuery bracketed target).map (formNames unquoteReplace)

def segmentNames (template : List Char) : List Text :=
  ((template.splitOn '/').filter isPlaceholder).map codes

/-! ## The fields -/

/-- `head.split(b"\r\n")`. -/
def crlfLines : Bytes → List Bytes
  | [] => [[]]
  | 13 :: 10 :: rest => [] :: crlfLines rest
  | b :: rest => (crlfLines rest).modifyHead (b :: ·)

/-- The fields of a head, each key and value without the blanks around it. -/
def fields (head : Bytes) : List (List Char × List Char) :=
  (crlfLines head).tail.filterMap fun raw =>
    match partition 58 raw with
    | (name, some value) => some (strip (latin1 name), strip (latin1 value))
    | (_, none) => none

/-- `_NOT_INSERTABLE`. -/
def notInsertable : List (List Char) :=
  ["host".toList, "content-length".toList, "content-type".toList, "connection".toList,
    "transfer-encoding".toList, "upgrade".toList, "expect".toList, "accept-encoding".toList]

/-- The last `Content-Type`. -/
def contentType (head : Bytes) : List Char :=
  (fields head).foldl
    (fun seen field => if lower field.1 = "content-type".toList then lower field.2 else seen) []

/-- The cookies of a value. -/
def crumbs (value : List Char) : List (List Char) :=
  ((value.splitOn ';').map fun crumb => strip (crumb.takeWhile (· ≠ '='))).filter (· ≠ [])

def fieldNames (field : List Char × List Char) : List (InsertionKind × Text) :=
  if lower field.1 = "cookie".toList then ofKind .cookie ((crumbs field.2).map codes)
  else if notInsertable.contains (lower field.1) ∨ field.1 = [] then []
  else [(.header, codes field.1)]

/-! ## The body -/

/-- Whether the body is a form, and whether it is read as JSON. -/
def isForm (head : Bytes) : Bool :=
  contains "application/x-www-form-urlencoded".toList (contentType head)

def isJson (head : Bytes) : Bool := !isForm head && contains "json".toList (contentType head)

/-- `_json_members`. -/
def memberNames (body : Bytes) : Except Raised (List Text) :=
  match loads body with
  | .error .valueError => .ok []
  | .error .recursionError => .error .recursionError
  | .ok parsed => walk parsed frames []

def bodyNames (head body : Bytes) : Except Raised (List (InsertionKind × Text)) :=
  if body = [] then .ok []
  else if isForm head then
    .ok (ofKind .bodyForm (formNames unquoteReplace (latin1 body)))
  else if isJson head then (memberNames loads frames body).map (ofKind .bodyJson)
  else .ok []

/-- `derive`. -/
def derive (request : Bytes) (template : List Char) : Except Raised (List InsertionPoint) :=
  match find crlfCrlf request with
  | none => .ok []
  | some n => do
      let head := request.take n
      let body := request.drop (n + 4)
      let query ← queryNames bracketed unquoteReplace head
      let members ← bodyNames unquoteReplace loads frames head body
      let found ← (ofKind .query query ++ ofKind .pathSegment (segmentNames template) ++
        (fields head).flatMap fieldNames ++ members).mapM fun point => insertion point.1 point.2
      return found.dedup.mergeSort sortsBefore

/-! ## What gives up -/

/-- A body that `json.loads` reads or refuses, and whose nesting the walk can follow. -/
def Shallow (body : Bytes) : Prop :=
  loads body ≠ .error .recursionError ∧ ∀ parsed, loads body = .ok parsed → parsed.depth ≤ frames

/-- A request whose target splits, read from the whole and from the head, and whose body, if it
is read as JSON, is nested no deeper than it may be. -/
structure Sound (request : Bytes) : Prop where
  line : ∀ target, requestTarget request = some target → splits bracketed target = true
  head : ∀ n, find crlfCrlf request = some n → ∀ target,
    requestTarget (request.take n) = some target → splits bracketed target = true
  body : ∀ n, find crlfCrlf request = some n → request.drop (n + 4) ≠ [] →
    isJson (request.take n) = true → Shallow loads frames (request.drop (n + 4))

/-- Both functions answer. -/
def Total (request : Bytes) (template : List Char) : Prop :=
  (∃ points, derive bracketed unquoteReplace loads frames request template = .ok points) ∧
    ∃ path, requestPath bracketed request = .ok path

end Derivation

section Answers

variable {bracketed : List Char → Bool} {unquoteReplace : List Char → List Char}
variable {loads : Bytes → Except Raised Node} {frames : ℕ}

/-! ## Names -/

theorem exists_insertion {kind : InsertionKind} {name : Text} (named : name ≠ []) :
    ∃ point, insertion kind name = .ok point := ⟨⟨kind, name, named⟩, dif_pos named⟩

theorem codes_ne_nil {s : List Char} (some_ : s ≠ []) : codes s ≠ [] :=
  fun empty => some_ (List.map_eq_nil_iff.1 empty)

/-- Every point of a list of names has one. -/
def Named (points : List (InsertionKind × Text)) : Prop := ∀ point ∈ points, point.2 ≠ []

theorem named_ofKind {kind : InsertionKind} {names : List Text} (named : ∀ name ∈ names, name ≠ []) :
    Named (ofKind kind names) := by
  intro point mem
  obtain ⟨name, inside, rfl⟩ := List.mem_map.1 mem
  exact named name inside

theorem Named.append {points more : List (InsertionKind × Text)} (first : Named points)
    (second : Named more) : Named (points ++ more) := by
  intro point mem
  exact (List.mem_append.1 mem).elim (first point) (second point)

theorem named_codes {texts : List (List Char)} (some_ : ∀ s ∈ texts, s ≠ []) :
    ∀ name ∈ texts.map codes, name ≠ [] := by
  intro name mem
  obtain ⟨s, inside, rfl⟩ := List.mem_map.1 mem
  exact codes_ne_nil (some_ s inside)

theorem named_filter (texts : List (List Char)) : ∀ s ∈ texts.filter (· ≠ []), s ≠ [] :=
  fun _ mem => of_decide_eq_true (List.mem_filter.1 mem).2

theorem named_segments (template : List Char) : ∀ name ∈ segmentNames template, name ≠ [] := by
  refine named_codes fun s mem => ?_
  rintro rfl
  exact absurd (List.mem_filter.1 mem).2 (by decide)

theorem named_field (field : List Char × List Char) : Named (fieldNames field) := by
  rw [fieldNames]
  split_ifs with cookie excluded
  · exact named_ofKind (named_codes (named_filter _))
  · intro point mem
    contradiction
  · intro point mem
    rw [List.mem_singleton.1 mem]
    exact codes_ne_nil fun empty => excluded (.inr empty)

theorem named_fields (head : Bytes) : Named ((fields head).flatMap fieldNames) := by
  intro point mem
  obtain ⟨field, -, mem⟩ := List.mem_flatMap.1 mem
  exact named_field field point mem

/-- Points that have names are all made. -/
theorem exists_points {points : List (InsertionKind × Text)} (named : Named points) :
    ∃ found, points.mapM (fun point => insertion point.1 point.2) = .ok found := by
  induction points with
  | nil => exact ⟨[], rfl⟩
  | cons point points ih =>
      obtain ⟨here, others⟩ := List.forall_mem_cons.1 named
      obtain ⟨first, made⟩ := @exists_insertion point.1 _ here
      obtain ⟨found, rest⟩ := ih others
      refine ⟨first :: found, ?_⟩
      rw [List.mapM_cons, made, rest]
      rfl

/-! ## The request line -/

theorem urlsplitQuery_iff {url : List Char} :
    (∃ query, urlsplitQuery bracketed url = .ok query) ↔ splits bracketed url = true :=
  exists_ok_ite _ _

theorem urlsplitPath_iff {url : List Char} :
    (∃ path, urlsplitPath bracketed url = .ok path) ↔ splits bracketed url = true := by
  show _ ↔ (netloc (afterScheme ((url.dropWhile isControlOrSpace).filter
    fun c => !isUnsafe c))).all (bracketsFit bracketed) = true
  rw [urlsplitPath]
  cases place : netloc (afterScheme ((url.dropWhile isControlOrSpace).filter
      fun c => !isUnsafe c)) with
  | none => exact ⟨fun _ => rfl, fun _ => ⟨_, rfl⟩⟩
  | some place => exact exists_ok_ite _ _

theorem queryNames_iff {head : Bytes} :
    (∃ names, queryNames bracketed unquoteReplace head = .ok names) ↔
      ∀ target, requestTarget head = some target → splits bracketed target = true := by
  rw [queryNames]
  cases requestTarget head with
  | none =>
      refine ⟨fun _ target named => ?_, fun _ => ⟨_, rfl⟩⟩
      contradiction
  | some target =>
      simp only [Option.some.injEq, forall_eq']
      exact (exists_ok_map _).trans urlsplitQuery_iff

theorem requestPath_iff {request : Bytes} :
    (∃ path, requestPath bracketed request = .ok path) ↔
      ∀ target, requestTarget request = some target → splits bracketed target = true := by
  rw [requestPath]
  cases requestTarget request with
  | none =>
      refine ⟨fun _ target named => ?_, fun _ => ⟨_, rfl⟩⟩
      contradiction
  | some target =>
      simp only [Option.some.injEq, forall_eq']
      rw [← urlsplitPath_iff]
      cases urlsplitPath bracketed target with
      | error raised =>
          constructor
          · rintro ⟨path, read⟩
            contradiction
          · rintro ⟨path, read⟩
            contradiction
      | ok path => exact ⟨fun _ => ⟨_, rfl⟩, fun _ => ⟨_, rfl⟩⟩

/-! ## The body -/

theorem memberNames_iff {body : Bytes} :
    (∃ names, memberNames loads frames body = .ok names) ↔ Shallow loads frames body := by
  rw [memberNames, Shallow]
  cases loads body with
  | error raised =>
      cases raised with
      | valueError =>
          refine ⟨fun _ => ⟨?_, ?_⟩, fun _ => ⟨[], rfl⟩⟩
          · intro same
            exact absurd (Except.error.inj same) (by decide)
          · intro parsed read
            contradiction
      | recursionError =>
          constructor
          · rintro ⟨names, read⟩
            contradiction
          · rintro ⟨within, -⟩
            exact absurd rfl within
  | ok parsed =>
      constructor
      · rintro ⟨names, walked⟩
        refine ⟨fun same => ?_, fun other read => ?_⟩
        · contradiction
        · obtain rfl := Except.ok.inj read
          by_contra deep
          have raised : walk parsed frames [] = .ok names := walked
          rw [walk_deep _ [] (Nat.not_le.1 deep)] at raised
          contradiction
      · rintro ⟨-, flat⟩
        exact ⟨_, walk_ok parsed [] (flat parsed rfl)⟩

theorem named_members {body : Bytes} {names : List Text}
    (read : memberNames loads frames body = .ok names) : ∀ name ∈ names, name ≠ [] := by
  have answers : Shallow loads frames body := memberNames_iff.1 ⟨names, read⟩
  rw [memberNames] at read
  cases parsing : loads body with
  | error raised =>
      rw [parsing] at read
      cases raised with
      | valueError =>
          obtain rfl := Except.ok.inj read
          intro name mem
          contradiction
      | recursionError => contradiction
  | ok parsed =>
      rw [parsing] at read
      have walked := walk_ok parsed [] (answers.2 parsed parsing)
      obtain rfl := Except.ok.inj (walked.symm.trans read)
      exact fun name mem => of_decide_eq_true (List.mem_filter.1 mem).2

theorem bodyNames_iff {head body : Bytes} :
    (∃ names, bodyNames unquoteReplace loads frames head body = .ok names) ↔
      (body ≠ [] → isJson head = true → Shallow loads frames body) := by
  rw [bodyNames]
  split_ifs with empty form json
  · exact ⟨fun _ some_ => absurd empty some_, fun _ => ⟨_, rfl⟩⟩
  · refine ⟨fun _ _ json => ?_, fun _ => ⟨_, rfl⟩⟩
    rw [isJson, form] at json
    contradiction
  · rw [← memberNames_iff]
    cases memberNames loads frames body with
    | error raised =>
        constructor
        · rintro ⟨names, read⟩
          contradiction
        · intro answers
          obtain ⟨names, read⟩ := answers empty json
          contradiction
    | ok names => exact ⟨fun _ _ _ => ⟨_, rfl⟩, fun _ => ⟨_, rfl⟩⟩
  · exact ⟨fun _ _ read => absurd read json, fun _ => ⟨_, rfl⟩⟩

theorem named_body {head body : Bytes} {points : List (InsertionKind × Text)}
    (read : bodyNames unquoteReplace loads frames head body = .ok points) : Named points := by
  rw [bodyNames] at read
  split_ifs at read with empty form json
  · obtain rfl := Except.ok.inj read
    intro point mem
    contradiction
  · obtain rfl := Except.ok.inj read
    exact named_ofKind (named_codes (named_filter _))
  · cases members : memberNames loads frames body with
    | error raised =>
        rw [members] at read
        contradiction
    | ok names =>
        rw [members] at read
        obtain rfl := Except.ok.inj read
        exact named_ofKind (named_members members)
  · obtain rfl := Except.ok.inj read
    intro point mem
    contradiction

theorem named_query {head : Bytes} {names : List Text}
    (read : queryNames bracketed unquoteReplace head = .ok names) : ∀ name ∈ names, name ≠ [] := by
  rw [queryNames] at read
  split at read
  · obtain rfl := Except.ok.inj read
    intro name mem
    contradiction
  · rename_i target named
    cases query : urlsplitQuery bracketed target with
    | error raised =>
        rw [query] at read
        contradiction
    | ok query =>
        simp only [query] at read
        obtain rfl := Except.ok.inj read
        exact named_codes (named_filter _)

/-! ## The whole -/

theorem derive_iff (request : Bytes) (template : List Char) :
    (∃ points, derive bracketed unquoteReplace loads frames request template = .ok points) ↔
      ∀ n, find crlfCrlf request = some n →
        (∃ names, queryNames bracketed unquoteReplace (request.take n) = .ok names) ∧
          ∃ names, bodyNames unquoteReplace loads frames (request.take n) (request.drop (n + 4)) =
            .ok names := by
  rw [derive]
  cases find crlfCrlf request with
  | none =>
      refine ⟨fun _ n there => ?_, fun _ => ⟨[], rfl⟩⟩
      contradiction
  | some n =>
      simp only [Option.some.injEq, forall_eq']
      constructor
      · rintro ⟨points, read⟩
        obtain ⟨query, queried, read⟩ := of_bind_ok read
        obtain ⟨members, walked, -⟩ := of_bind_ok read
        exact ⟨⟨query, queried⟩, members, walked⟩
      · rintro ⟨⟨query, queried⟩, members, walked⟩
        have named := (((@named_ofKind .query _ (named_query queried)).append
          (@named_ofKind .pathSegment _ (named_segments template))).append
            (named_fields (request.take n))).append (named_body walked)
        obtain ⟨found, made⟩ := exists_points named
        refine ⟨found.dedup.mergeSort sortsBefore, ?_⟩
        rw [queried, walked]
        simp only [bind, Except.bind]
        rw [made]
        rfl

end Answers

/-- Both functions answer exactly where the target splits and the body is not nested too deep. -/
theorem total_iff_sound (bracketed : List Char → Bool) (unquoteReplace : List Char → List Char)
    (loads : Bytes → Except Raised Node) (frames : ℕ) (request : Bytes) (template : List Char) :
    Total bracketed unquoteReplace loads frames request template ↔
      Sound bracketed loads frames request := by
  rw [Total, derive_iff, requestPath_iff]
  simp only [queryNames_iff, bodyNames_iff]
  constructor
  · rintro ⟨answers, line⟩
    exact ⟨line, fun n there => (answers n there).1, fun n there => (answers n there).2⟩
  · intro sound
    exact ⟨fun n there => ⟨sound.head n there, sound.body n there⟩, sound.line⟩

/-! ## A bracket that is not closed -/

/-- `GET //[ HTTP/1.1`, and nothing else. -/
def openBracket : Bytes := Hx.Python.ascii "GET //[ HTTP/1.1\r\n\r\n"

theorem openBracket_raises : ¬ ∀ (bracketed : List Char → Bool)
    (unquoteReplace : List Char → List Char) (loads : Bytes → Except Raised Node) (frames : ℕ)
    (request : Bytes) (template : List Char),
      Total bracketed unquoteReplace loads frames request template := by
  intro all
  obtain ⟨-, path, read⟩ := all (fun _ => false) id (fun _ => .error .valueError) 900 openBracket
    "/".toList
  have raised : requestPath (fun _ => false) openBracket = .error () := by decide
  rw [raised] at read
  contradiction

end Hx.Surface
