import Hx.Tools.Conforms

/-!
# Schemas as they are written

The validator reads a schema as the dictionary it was written as. It reads a schema that
`checkSchema` accepted as that check read it, so what is decided of the one is decided of the other.
-/

namespace Hx.Tools

open Hx.Library

/-! ## Validation over the written schema -/

/-- What `validate` raises. What it does over a schema that no check accepted is left open. -/
inductive Failure where
  | raised (e : Raised)
  | unchecked

/-- A `bool` compares as the number it is. -/
def truth (b : Bool) : Number := .int (if b then 1 else 0)

def PyValue.numeric : PyValue → Option Number
  | .bool b => some (truth b)
  | v => v.number?

def PyObj.numeric : PyObj → Option Number
  | .bool b => some (truth b)
  | m => m.number?

/-- `value == member`, of values that hold no others. -/
def PyValue.equals : PyValue → PyObj → Bool
  | .str s, .str s' => s == s'
  | .none, .none => true
  | v, m =>
      match v.numeric, m.numeric with
      | some x, some y => x.equals y
      | _, _ => false

/-- `isinstance(value, _TYPES[type_])`, where a `bool` is no number. -/
def JsonType.isInstance : JsonType → PyValue → Bool
  | .string, .str _ => true
  | .integer, .int _ => true
  | .number, .int _ | .number, .float _ => true
  | .boolean, .bool _ => true
  | .array, .list _ => true
  | .object, .dict _ => true
  | _, _ => false

def JsonType.word : JsonType → String
  | .string => "string"
  | .integer => "integer"
  | .number => "number"
  | .boolean => "boolean"
  | .array => "array"
  | .object => "object"

/-- A member of an `enum`, as a message lists it. -/
def PyObj.choice? : PyObj → Option Choice
  | .str s => some (.text s)
  | .int n => some (.number (.int n))
  | .float x => some (.number (.float x))
  | .bool b => some (.bool b)
  | _ => Option.none

/-- The value of a keyword, when it is there. -/
def keyword {α : Type} (name : String) (read : PyObj → Option α) (entries : List (DictKey × PyObj)) :
    Except Failure (Option α) :=
  match getEntry (text name) entries with
  | none => .ok none
  | some v =>
      match read v with
      | none => .error .unchecked
      | some a => .ok (some a)

def raising {α : Type} : Except Raised α → Except Failure α
  | .ok a => .ok a
  | .error e => .error (.raised e)

/-- `value not in obj["enum"]`. -/
def enumProblems (entries : List (DictKey × PyObj)) (v : PyValue) (where_ : Text) :
    Except Failure (List Problem) :=
  match keyword "enum" PyObj.list? entries with
  | .error e => .error e
  | .ok choices => .ok (breach choices (fun c => !c.any v.equals)
      (fun c => .notOneOf where_ (c.filterMap PyObj.choice?)))

/-- The keywords of one name that bound from below and from above. -/
def boundProblems {α : Type} (least most : String) (read : PyObj → Option α)
    (entries : List (DictKey × PyObj)) (isBelow isAbove : α → Bool)
    (tooSmall tooLarge : α → Problem) : Except Failure (List Problem) :=
  match keyword least read entries with
  | .error e => .error e
  | .ok low =>
      match keyword most read entries with
      | .error e => .error e
      | .ok high => .ok (breach low isBelow tooSmall ++ breach high isAbove tooLarge)

/-- The names of `required`. -/
def requiredNames (entries : List (DictKey × PyObj)) : Except Failure (List Text) :=
  match keyword "required" PyObj.list? entries with
  | .error e => .error e
  | .ok names => .ok ((names.getD []).filterMap PyObj.str?)

/-- `obj.get("type")`, looked up. -/
def jsonType (entries : List (DictKey × PyObj)) : Option JsonType :=
  match getEntry (text "type") entries with
  | some (.str name) => types.lookup name
  | _ => none

/-- The keys of `obj.get("properties") or {}`. -/
def propertyKeys (entries : List (DictKey × PyObj)) : List DictKey :=
  match getEntry (text "properties") entries with
  | some (.dict properties) => properties.map Prod.fst
  | _ => []

/-- `set(value) - set(props)`. -/
def unknownNames (entries : List (DictKey × PyObj)) (values : List (DictKey × PyValue)) :
    List DictKey :=
  (values.map Prod.fst).filter fun k => !(propertyKeys entries).contains k

/-- The problems of a value that holds no others, of its type. -/
def leafProblems (t : JsonType) (entries : List (DictKey × PyObj)) (v : PyValue) (where_ : Text) :
    Except Failure (List Problem) :=
  match t, v with
  | .string, .str s => boundProblems "minLength" "maxLength" PyObj.int? entries
      (fun n => decide ((s.length : Int) < n)) (fun n => decide (n < (s.length : Int)))
      (.shorter where_) (.longer where_)
  | .integer, .int n => boundProblems "minimum" "maximum" PyObj.number? entries
      (Number.int n).lt (fun b => b.lt (.int n)) (.belowMinimum where_) (.aboveMaximum where_)
  | .number, v =>
      match v.number? with
      | some x => boundProblems "minimum" "maximum" PyObj.number? entries
          x.lt (fun b => b.lt x) (.belowMinimum where_) (.aboveMaximum where_)
      | none => .ok []
  | .array, .list xs => boundProblems "minItems" "maxItems" PyObj.int? entries
      (fun n => decide ((xs.length : Int) < n)) (fun n => decide (n < (xs.length : Int)))
      (.fewerItems where_) (.moreItems where_)
  | _, _ => .ok []

/-- The problems of a dict beside those of its properties. -/
def keyProblems (entries : List (DictKey × PyObj)) (values : List (DictKey × PyValue))
    (where_ : Text) : Except Failure (List Problem) :=
  match requiredNames entries with
  | .error e => .error e
  | .ok required =>
      match sortKeys (unknownNames entries values) with
      | .error e => .error (.raised e)
      | .ok unknown =>
          match written (unknown.map (.notArgument where_)) with
          | .error e => .error (.raised e)
          | .ok notArguments => .ok
              ((required.filter fun key => (getEntry key values).isNone).map (.isRequired where_) ++
                notArguments)

/-- One list of problems, and then another. -/
def followed {ε : Type} (first rest : Except ε (List Problem)) : Except ε (List Problem) :=
  match first with
  | .error e => .error e
  | .ok first =>
      match rest with
      | .error e => .error e
      | .ok rest => .ok (first ++ rest)

mutual

/-- `_validate`, over the dictionary. -/
def PyObj.validate : PyObj → PyValue → Text → Except Failure (List Problem)
  | .dict entries, v, where_ =>
      match jsonType entries with
      | none => .error .unchecked
      | some t =>
          if t.isInstance v = false then .ok [.expected where_ t.word v.typeName]
          else
            match followed (enumProblems entries v where_) (leafProblems t entries v where_) with
            | .error e => .error e
            | .ok here => followed (raising (written here)) (match v with
                | .list xs => validateItems entries xs.zipIdx where_
                | .dict values => followed (keyProblems entries values where_)
                    (validateProperties entries values where_)
                | _ => .ok [])
  | _, _, _ => .error .unchecked

/-- The loop over the items, each against `obj["items"]`. -/
def validateItems : List (DictKey × PyObj) → List (PyValue × Nat) → Text →
    Except Failure (List Problem)
  | [], [], _ => .ok []
  | [], _ :: _, _ => .error .unchecked
  | (key, sub) :: rest, xs, where_ =>
      if key = .str (text "items") then
        collect (fun p => PyObj.validate sub p.1 (indexed where_ p.2)) xs
      else validateItems rest xs where_

/-- The loop over the properties that are there. -/
def validateProperties : List (DictKey × PyObj) → List (DictKey × PyValue) → Text →
    Except Failure (List Problem)
  | [], _, _ => .ok []
  | (key, v) :: rest, values, where_ =>
      if key = .str (text "properties") then validatePropertiesOf v values where_
      else validateProperties rest values where_

def validatePropertiesOf : PyObj → List (DictKey × PyValue) → Text →
    Except Failure (List Problem)
  | .dict properties, values, where_ => validateNamed properties values where_
  | _, _, _ => .error .unchecked

def validateNamed : List (DictKey × PyObj) → List (DictKey × PyValue) → Text →
    Except Failure (List Problem)
  | [], _, _ => .ok []
  | (.str name, sub) :: rest, values, where_ =>
      match getEntry name values with
      | none => validateNamed rest values where_
      | some v => followed (PyObj.validate sub v (where_ ++ text "." ++ name))
          (validateNamed rest values where_)
  | _ :: _, _, _ => .error .unchecked

end

/-! ## What the check leaves of the keywords -/

theorem checkKeywords_ok {where_ : Text} {t : JsonType} {name : Text} {k : Keyword} {v : PyObj}
    {entries : List (DictKey × PyObj)} (h : checkKeywords where_ t entries = .ok ())
    (hname : keywords.lookup name = some k) (hv : getEntry name entries = some v) :
    checkKeyword where_ t name k v = .ok () := by
  induction entries with
  | nil => cases hv
  | cons e entries ih =>
      obtain ⟨key, v'⟩ := e
      rw [getEntry] at hv
      split at hv
      next hkey =>
        cases hkey
        cases hv
        simp only [checkKeywords, hname] at h
        split at h
        · cases h
        · assumption
      next hkey =>
        refine ih ?_ hv
        cases key with
        | str name' =>
            simp only [checkKeywords] at h
            split at h
            · exact h
            · split at h
              · cases h
              · exact h
        | _ => exact h

theorem checkHere_ok {where_ : Text} {t : JsonType} {entries : List (DictKey × PyObj)}
    (h : checkHere where_ entries = .ok t) :
    jsonType entries = some t ∧ checkKeywords where_ t entries = .ok () := by
  have htype {t' : JsonType} (h : checkType where_ entries = .ok t') : jsonType entries = some t' := by
    unfold checkType at h
    unfold jsonType
    split at h <;> simp_all
    split at h <;> simp_all
  unfold checkHere at h
  split at h
  · cases h
  · split at h
    · cases h
    · split at h
      · cases h
      · split at h
        · cases h
        · cases h
          exact ⟨htype ‹_›, ‹_›⟩

/-- An `enum` whose members are of one type, as that type reads them. -/
theorem members_read {α : Type} {t : JsonType} {v : PyValue} {read : PyObj → Option α}
    {equals : α → Bool} {choice : α → Choice}
    (hmember : ∀ m, t.hasMember m = true →
      ∃ a, read m = some a ∧ v.equals m = equals a ∧ m.choice? = some (choice a)) :
    ∀ members : List PyObj, (∀ m ∈ members, t.hasMember m = true) →
      members.any v.equals = (members.filterMap read).any equals ∧
        members.filterMap PyObj.choice? = (members.filterMap read).map choice := by
  intro members hall
  induction members with
  | nil => exact ⟨rfl, rfl⟩
  | cons m members ih =>
      rw [List.forall_mem_cons] at hall
      obtain ⟨a, hread, hequals, hchoice⟩ := hmember m hall.1
      obtain ⟨hany, hmap⟩ := ih hall.2
      simp [hread, hequals, hchoice, hany, hmap]

section Keywords

variable {where_ : Text} {t : JsonType} {entries : List (DictKey × PyObj)}
  (h : checkKeywords where_ t entries = .ok ())
include h

theorem takes_of_check {name : Text} {k : Keyword} {v : PyObj}
    (hname : keywords.lookup name = some k) (hv : getEntry name entries = some v) :
    k.appliesTo t = true ∧ k.takes v = true := by
  have := checkKeywords_ok h hname hv
  unfold checkKeyword at this
  split at this
  · cases this
  · split at this
    · cases this
    · simp_all

theorem keyword_ok {α : Type} {name : String} {k : Keyword} {read : PyObj → Option α}
    (hname : keywords.lookup (text name) = some k)
    (hread : ∀ v, k.takes v = true → (read v).isSome = true) :
    keyword name read entries = .ok ((getEntry (text name) entries).bind read) := by
  unfold keyword
  cases hv : getEntry (text name) entries with
  | none => rfl
  | some v =>
      obtain ⟨a, ha⟩ := Option.isSome_iff_exists.mp (hread v (takes_of_check h hname hv).2)
      simp [ha]

theorem getEntry_eq_none (name : Text) {k : Keyword} (hname : keywords.lookup name = some k)
    (hk : k.appliesTo t = false) : getEntry name entries = none := by
  cases hv : getEntry name entries with
  | none => rfl
  | some v =>
      have := (takes_of_check h hname hv).1
      rw [hk] at this
      cases this

theorem enumProblems_ok {α : Type} {v : PyValue} {here : Text} (read : PyObj → Option α)
    (equals : α → Bool) (choice : α → Choice)
    (hmember : ∀ m, t.hasMember m = true →
      ∃ a, read m = some a ∧ v.equals m = equals a ∧ m.choice? = some (choice a)) :
    enumProblems entries v here = .ok (breach (choicesOf read entries) (fun c => !c.any equals)
      (fun c => .notOneOf here (c.map choice))) := by
  have hname : keywords.lookup (text "enum") = some .enum := by decide
  have hlist (v : PyObj) (hv : Keyword.enum.takes v = true) : v.list?.isSome = true := by
    cases v <;> first | rfl | cases hv
  unfold enumProblems choicesOf
  rw [keyword_ok h hname hlist]
  cases hv : getEntry (text "enum") entries with
  | none => rfl
  | some v' =>
      have htakes := takes_of_check h hname hv
      have hcheck := checkKeywords_ok h hname hv
      cases v' with
      | list members =>
          have hall : ∀ m ∈ members, t.hasMember m = true := by
            simp only [checkKeyword, htakes, Bool.not_true, Bool.false_eq_true, if_false] at hcheck
            split at hcheck
            · cases hcheck
            · split at hcheck
              · exact List.all_eq_true.mp ‹_›
              · cases hcheck
          obtain ⟨hany, hmap⟩ := members_read hmember members hall
          simp [PyObj.list?, breach, hany, hmap]
      | _ => cases htakes.2

theorem boundProblems_ok {α : Type} {least most : String} {kLeast kMost : Keyword}
    {read : PyObj → Option α} {isBelow isAbove : α → Bool} {tooSmall tooLarge : α → Problem}
    (hleast : keywords.lookup (text least) = some kLeast)
    (hmost : keywords.lookup (text most) = some kMost)
    (readLeast : ∀ v, kLeast.takes v = true → (read v).isSome = true)
    (readMost : ∀ v, kMost.takes v = true → (read v).isSome = true) :
    boundProblems least most read entries isBelow isAbove tooSmall tooLarge =
      .ok (breach ((getEntry (text least) entries).bind read) isBelow tooSmall ++
        breach ((getEntry (text most) entries).bind read) isAbove tooLarge) := by
  simp only [boundProblems, keyword_ok h hleast readLeast, keyword_ok h hmost readMost]

theorem enumProblems_of_not_applies {v : PyValue} {here : Text}
    (ht : Keyword.enum.appliesTo t = false) : enumProblems entries v here = .ok [] := by
  simp [enumProblems, keyword, getEntry_eq_none h (text "enum") (by decide) ht, breach]

end Keywords

theorem isSome_int? (k : Keyword) (hk : k ∈ [Keyword.minLength, .maxLength, .minItems, .maxItems])
    (v : PyObj) (h : k.takes v = true) : v.int?.isSome = true := by
  cases k <;> first
    | exact absurd hk (by decide)
    | (cases v <;> first | rfl | cases h)

theorem isSome_number? (k : Keyword) (hk : k ∈ [Keyword.minimum, .maximum]) (v : PyObj)
    (h : k.takes v = true) : v.number?.isSome = true := by
  cases k <;> first
    | exact absurd hk (by decide)
    | (cases v <;> first | rfl | cases h)

/-! ## The written schema and the one that was read -/

theorem followed_nil (first : Except Failure (List Problem)) :
    followed first (.ok []) = first := by
  cases first <;> simp [followed]

theorem collect_raising {α : Type} (f : α → Except Raised (List Problem)) (xs : List α) :
    collect (fun a => raising (f a)) xs = raising (collect f xs) := by
  induction xs with
  | nil => rfl
  | cons a xs ih =>
      simp only [collect, ih]
      cases f a with
      | error e => rfl
      | ok first => cases collect f xs <;> rfl

theorem checkRequired_ok {where_ : Text} {names keys : List Text} {members : List PyObj}
    (h : checkRequired where_ names members = .ok keys) : members.filterMap PyObj.str? = keys := by
  induction members generalizing keys with
  | nil =>
      cases h
      rfl
  | cons m members ih =>
      cases m with
      | str key =>
          simp only [checkRequired] at h
          split at h
          · split at h
            · cases h
            · cases h
              simp [PyObj.str?, ih ‹_›]
          · cases h
      | _ => cases h

/-- Each property was checked, under its name. -/
theorem checkEach_keys {properties : List (DictKey × PyObj)} {where_ : Text}
    {schemas : List (Text × Schema)} (h : checkEach properties where_ = .ok schemas) :
    properties.map Prod.fst = schemas.map fun p => .str p.1 := by
  induction properties generalizing schemas with
  | nil =>
      cases h
      rfl
  | cons p properties ih =>
      obtain ⟨key, sub⟩ := p
      cases key with
      | str name =>
          simp only [checkEach] at h
          split at h
          · cases h
          · split at h
            · cases h
            · cases h
              simp [ih ‹_›]
      | _ => cases h

theorem checkProperties_keys {entries : List (DictKey × PyObj)} {where_ : Text}
    {schemas : List (Text × Schema)} (h : checkProperties entries where_ = .ok schemas) :
    propertyKeys entries = schemas.map fun p => .str p.1 := by
  induction entries with
  | nil =>
      cases h
      rfl
  | cons e entries ih =>
      obtain ⟨key, v⟩ := e
      rw [checkProperties] at h
      rw [propertyKeys, getEntry]
      split at h
      next hkey =>
        rw [if_pos hkey]
        cases v with
        | dict properties => exact checkEach_keys h
        | _ =>
            cases h
            rfl
      next hkey =>
        rw [if_neg hkey]
        exact ih h

theorem unknownNames_eq {entries : List (DictKey × PyObj)} {where_ : Text}
    {schemas : List (Text × Schema)} (h : checkProperties entries where_ = .ok schemas)
    (values : List (DictKey × PyValue)) :
    unknownNames entries values = unknownKeys schemas values := by
  rw [unknownNames, unknownKeys, checkProperties_keys h]
  refine List.filter_congr fun k _ => ?_
  rw [List.contains_eq_any_beq, List.any_map]
  rfl


theorem followed_raising (first rest : Except Raised (List Problem)) :
    followed (raising first) (raising rest) = raising (followed first rest) := by
  cases first with
  | error e => rfl
  | ok first => cases rest <;> rfl

/-- The problems of one value beside those below it, as the schema that was read finds them. -/
theorem here_string {where_ here : Text} {entries : List (DictKey × PyObj)} {s : Text}
    (h : checkKeywords where_ .string entries = .ok ()) :
    followed (enumProblems entries (.str s) here) (leafProblems .string entries (.str s) here) =
      .ok (breach (choicesOf PyObj.str? entries) (fun c => !c.contains s)
          (fun c => .notOneOf here (c.map .text)) ++
        (breach ((getEntry (text "minLength") entries).bind PyObj.int?)
            (fun n => decide ((s.length : Int) < n)) (.shorter here) ++
          breach ((getEntry (text "maxLength") entries).bind PyObj.int?)
            (fun n => decide (n < (s.length : Int))) (.longer here))) := by
  rw [enumProblems_ok h PyObj.str? (fun s' => s == s') .text]
  · simp only [leafProblems]
    rw [boundProblems_ok h (by decide) (by decide) (isSome_int? .minLength (by decide))
      (isSome_int? .maxLength (by decide))]
    simp only [followed, List.contains_eq_any_beq]
  · intro m hm
    cases m with
    | str s' => exact ⟨s', rfl, rfl, rfl⟩
    | _ => cases hm

theorem here_integer {where_ here : Text} {entries : List (DictKey × PyObj)} {n : Int}
    (h : checkKeywords where_ .integer entries = .ok ()) :
    followed (enumProblems entries (.int n) here) (leafProblems .integer entries (.int n) here) =
      .ok (breach (choicesOf PyObj.int? entries) (fun c => !c.contains n)
          (fun c => .notOneOf here (c.map fun n => .number (.int n))) ++
        (breach ((getEntry (text "minimum") entries).bind PyObj.number?)
            (Number.int n).lt (.belowMinimum here) ++
          breach ((getEntry (text "maximum") entries).bind PyObj.number?)
            (fun b => b.lt (.int n)) (.aboveMaximum here))) := by
  rw [enumProblems_ok h PyObj.int? (fun m => n == m) fun n => .number (.int n)]
  · simp only [leafProblems]
    rw [boundProblems_ok h (by decide) (by decide) (isSome_number? .minimum (by decide))
      (isSome_number? .maximum (by decide))]
    simp only [followed, List.contains_eq_any_beq]
  · intro m hm
    cases m with
    | int m => exact ⟨m, rfl, rfl, rfl⟩
    | _ => cases hm

theorem here_number {where_ here : Text} {entries : List (DictKey × PyObj)} {v : PyValue}
    {x : Number} (value : v.number? = some x) (h : checkKeywords where_ .number entries = .ok ()) :
    followed (enumProblems entries v here) (leafProblems .number entries v here) =
      .ok (breach (choicesOf PyObj.number? entries) (fun c => !c.any x.equals)
          (fun c => .notOneOf here (c.map .number)) ++
        (breach ((getEntry (text "minimum") entries).bind PyObj.number?)
            x.lt (.belowMinimum here) ++
          breach ((getEntry (text "maximum") entries).bind PyObj.number?)
            (fun b => b.lt x) (.aboveMaximum here))) := by
  rw [enumProblems_ok h PyObj.number? x.equals .number]
  · simp only [leafProblems, value]
    rw [boundProblems_ok h (by decide) (by decide) (isSome_number? .minimum (by decide))
      (isSome_number? .maximum (by decide))]
    simp only [followed]
  · intro m hm
    cases v with
    | int n =>
        cases value
        cases m with
        | int m => exact ⟨.int m, rfl, rfl, rfl⟩
        | float y => exact ⟨.float y, rfl, rfl, rfl⟩
        | _ => cases hm
    | float z =>
        cases value
        cases m with
        | int m => exact ⟨.int m, rfl, rfl, rfl⟩
        | float y => exact ⟨.float y, rfl, rfl, rfl⟩
        | _ => cases hm
    | _ => cases value

theorem here_boolean {where_ here : Text} {entries : List (DictKey × PyObj)} {b : Bool}
    (h : checkKeywords where_ .boolean entries = .ok ()) :
    followed (enumProblems entries (.bool b) here) (leafProblems .boolean entries (.bool b) here) =
      .ok (breach (choicesOf PyObj.bool? entries) (fun c => !c.contains b)
        (fun c => .notOneOf here (c.map .bool))) := by
  rw [enumProblems_ok h PyObj.bool? (fun b' => b == b') .bool]
  · simp only [leafProblems, followed_nil, List.contains_eq_any_beq]
  · intro m hm
    cases m with
    | bool b' => exact ⟨b', rfl, by cases b <;> cases b' <;> rfl, rfl⟩
    | _ => cases hm

theorem here_array {where_ here : Text} {entries : List (DictKey × PyObj)} {xs : List PyValue}
    (h : checkKeywords where_ .array entries = .ok ()) :
    followed (enumProblems entries (.list xs) here) (leafProblems .array entries (.list xs) here) =
      .ok (breach ((getEntry (text "minItems") entries).bind PyObj.int?)
            (fun n => decide ((xs.length : Int) < n)) (.fewerItems here) ++
          breach ((getEntry (text "maxItems") entries).bind PyObj.int?)
            (fun n => decide (n < (xs.length : Int))) (.moreItems here)) := by
  rw [enumProblems_of_not_applies h rfl]
  simp only [leafProblems]
  rw [boundProblems_ok h (by decide) (by decide) (isSome_int? .minItems (by decide))
    (isSome_int? .maxItems (by decide))]
  rfl

theorem here_object {where_ here : Text} {entries : List (DictKey × PyObj)}
    {values : List (DictKey × PyValue)} (h : checkKeywords where_ .object entries = .ok ()) :
    followed (enumProblems entries (.dict values) here)
      (leafProblems .object entries (.dict values) here) = .ok [] := by
  rw [enumProblems_of_not_applies h rfl]
  rfl

/-- The keys of a dict, as the schema that was read finds them. -/
theorem keyProblems_ok {where_ here : Text} {entries : List (DictKey × PyObj)}
    {values : List (DictKey × PyValue)} {schemas : List (Text × Schema)} {required : List Text}
    (h : checkKeywords where_ .object entries = .ok ())
    (hproperties : checkProperties entries where_ = .ok schemas)
    (hrequired : checkRequired where_ (schemas.map Prod.fst)
      (((getEntry (text "required") entries).bind PyObj.list?).getD []) = .ok required) :
    followed (keyProblems entries values here) (raising (validateEach schemas values here)) =
      raising (validate (.object schemas required) (.dict values) here) := by
  have hnames : requiredNames entries = .ok required := by
    have hlist (v : PyObj) (hv : Keyword.required.takes v = true) : v.list?.isSome = true := by
      cases v <;> first | rfl | cases hv
    rw [requiredNames, keyword_ok h (by decide) hlist]
    simp only [checkRequired_ok hrequired]
  simp only [keyProblems, hnames, unknownNames_eq hproperties, validate]
  cases sortKeys (unknownKeys schemas values) with
  | error e => rfl
  | ok unknown =>
      simp only
      cases written (unknown.map (.notArgument here)) with
      | error e => rfl
      | ok notArguments =>
          cases validateEach schemas values here with
          | error e => rfl
          | ok more => simp [followed, raising]

mutual

/-- The validator reads a schema that was accepted as the check read it. -/
theorem validate_checked : ∀ (obj : PyObj) (where_ : Text) (schema : Schema),
    checkSchema obj where_ = .ok schema → ∀ (v : PyValue) (here : Text),
      PyObj.validate obj v here = raising (validate schema v here)
  | .dict entries, where_, schema, h => by
      intro v here
      rw [checkSchema] at h
      split at h
      · cases h
      next hhere =>
        cases h
        obtain ⟨htype, hk⟩ := checkHere_ok hhere
        cases v with
        | str s =>
            simp only [PyObj.validate, htype, here_string hk]
            exact followed_nil _
        | _ =>
            simp only [PyObj.validate, htype]
            rfl
      next hhere =>
        cases h
        obtain ⟨htype, hk⟩ := checkHere_ok hhere
        cases v with
        | int n =>
            simp only [PyObj.validate, htype, here_integer hk]
            exact followed_nil _
        | _ =>
            simp only [PyObj.validate, htype]
            rfl
      next hhere =>
        cases h
        obtain ⟨htype, hk⟩ := checkHere_ok hhere
        cases v with
        | int n =>
            have value : (PyValue.int n).number? = some (.int n) := rfl
            simp only [PyObj.validate, htype, here_number value hk]
            exact followed_nil _
        | float x =>
            have value : (PyValue.float x).number? = some (.float x) := rfl
            simp only [PyObj.validate, htype, here_number value hk]
            exact followed_nil _
        | _ =>
            simp only [PyObj.validate, htype]
            rfl
      next hhere =>
        cases h
        obtain ⟨htype, hk⟩ := checkHere_ok hhere
        cases v with
        | bool b =>
            simp only [PyObj.validate, htype, here_boolean hk]
            exact followed_nil _
        | _ =>
            simp only [PyObj.validate, htype]
            rfl
      next hhere =>
        obtain ⟨htype, hk⟩ := checkHere_ok hhere
        split at h
        · cases h
        next items hitems =>
          cases h
          cases v with
          | list xs =>
              simp only [PyObj.validate, htype, here_array hk,
                validateItems_checked entries where_ items hitems]
              rw [if_neg nofun, followed_raising, validate]
              unfold followed
              cases written _ with
              | error e => rfl
              | ok first =>
                  cases collect (fun p => validate items p.1 (indexed here p.2)) xs.zipIdx <;> rfl
          | _ =>
            simp only [PyObj.validate, htype]
            rfl
      next hhere =>
        obtain ⟨htype, hk⟩ := checkHere_ok hhere
        split at h
        · cases h
        next schemas hschemas =>
          split at h
          · cases h
          next required hrequired =>
            cases h
            cases v with
            | dict values =>
                have htakes (v : PyObj) (hv : getEntry (text "properties") entries = some v) :
                    Keyword.properties.takes v = true := (takes_of_check hk (by decide) hv).2
                simp only [PyObj.validate, htype, here_object hk]
                rw [if_neg nofun, validateProperties_checked entries where_ schemas hschemas
                  htakes, keyProblems_ok hk hschemas hrequired]
                cases validate (.object schemas required) (.dict values) here <;> rfl
            | _ =>
            simp only [PyObj.validate, htype]
            rfl
  | .none, _, _, h | .bool _, _, _, h | .int _, _, _, h | .float _, _, _, h | .str _, _, _, h
  | .list _, _, _, h => nomatch h

theorem validateItems_checked : ∀ (entries : List (DictKey × PyObj)) (where_ : Text)
    (items : Schema), checkItems entries where_ = .ok items →
      ∀ (xs : List (PyValue × Nat)) (here : Text), validateItems entries xs here =
        raising (collect (fun p => validate items p.1 (indexed here p.2)) xs)
  | [], _, _, h => nomatch h
  | (key, sub) :: rest, where_, items, h => by
      intro xs here
      rw [checkItems] at h
      rw [validateItems]
      split at h
      next hkey =>
        rw [if_pos hkey, ← collect_raising]
        exact collect_congr fun p _ => validate_checked sub _ items h p.1 (indexed here p.2)
      next hkey =>
        rw [if_neg hkey]
        exact validateItems_checked rest where_ items h xs here

theorem validateProperties_checked : ∀ (entries : List (DictKey × PyObj)) (where_ : Text)
    (schemas : List (Text × Schema)), checkProperties entries where_ = .ok schemas →
      (∀ v, getEntry (text "properties") entries = some v → Keyword.properties.takes v = true) →
        ∀ (values : List (DictKey × PyValue)) (here : Text),
          validateProperties entries values here = raising (validateEach schemas values here)
  | [], _, _, h => by
      intro _ values here
      cases h
      rfl
  | (key, v) :: rest, where_, schemas, h => by
      intro htakes values here
      rw [checkProperties] at h
      rw [validateProperties]
      rw [getEntry] at htakes
      split at h
      next hkey =>
        rw [if_pos hkey] at htakes ⊢
        exact validatePropertiesOf_checked v where_ schemas h (htakes v rfl) values here
      next hkey =>
        rw [if_neg hkey] at htakes ⊢
        exact validateProperties_checked rest where_ schemas h htakes values here

theorem validatePropertiesOf_checked : ∀ (v : PyObj) (where_ : Text)
    (schemas : List (Text × Schema)), checkPropertiesOf v where_ = .ok schemas →
      Keyword.properties.takes v = true → ∀ (values : List (DictKey × PyValue)) (here : Text),
        validatePropertiesOf v values here = raising (validateEach schemas values here)
  | .dict properties, where_, schemas, h => by
      intro _ values here
      rw [checkPropertiesOf] at h
      rw [validatePropertiesOf]
      exact validateNamed_checked properties where_ schemas h values here
  | .none, _, _, _ | .bool _, _, _, _ | .int _, _, _, _ | .float _, _, _, _ | .str _, _, _, _
  | .list _, _, _, _ => nofun

theorem validateNamed_checked : ∀ (properties : List (DictKey × PyObj)) (where_ : Text)
    (schemas : List (Text × Schema)), checkEach properties where_ = .ok schemas →
      ∀ (values : List (DictKey × PyValue)) (here : Text),
        validateNamed properties values here = raising (validateEach schemas values here)
  | [], _, _, h => by
      intro values here
      cases h
      rfl
  | (.str name, sub) :: rest, where_, schemas, h => by
      intro values here
      rw [checkEach] at h
      split at h
      · cases h
      next hsub =>
        split at h
        · cases h
        next hrest =>
          cases h
          have ih := validateNamed_checked rest where_ _ hrest values here
          rw [validateNamed, validateEach]
          cases getEntry name values with
          | none => exact ih
          | some v =>
              simp only
              rw [ih, validate_checked sub _ _ hsub v, followed_raising]
              unfold followed
              cases validate _ v (here ++ text "." ++ name) with
              | error e => rfl
              | ok first => cases validateEach _ values here <;> rfl
  | (.none, _) :: _, _, _, h | (.bool _, _) :: _, _, _, h | (.int _, _) :: _, _, _, h => nomatch h

end

/-! ## The validator -/

/-- What is asked of the validator at a value, where its schema was read: it answers, with no
problem exactly when the value conforms, and with the same problems for every value that differs
in its leaves alone. -/
def Correct (obj : PyObj) (schema : Schema) (v : PyValue) (where_ : Text) : Prop :=
  ∃ problems, PyObj.validate obj v where_ = .ok problems ∧ (problems = [] ↔ Conforms schema v) ∧
    ∀ v', Alike schema v v' → PyObj.validate obj v' where_ = .ok problems

theorem raising_eq_ok {α : Type} {x : Except Raised α} {a : α} :
    raising x = .ok a ↔ x = .ok a := by
  cases x <;> simp [raising]

/-- A tool without arguments. -/
def noArguments : PyObj :=
  .dict [(.str (text "type"), .str (text "object")),
    (.str (text "additionalProperties"), .bool false)]

/-- `{1: None, "a": None}`. -/
def mixedKeys : PyValue := .dict [(.int 1, .none), (.str (text "a"), .none)]

theorem noArguments_checked :
    checkSchema noArguments (text "params") = .ok (.object [] []) := by
  rfl

theorem validate_mixedKeys (where_ : Text) :
    PyObj.validate noArguments mixedKeys where_ = .error (.raised .notSupportedBetweenInstances) := by
  rw [validate_checked _ _ _ noArguments_checked]
  rfl

end Hx.Tools
