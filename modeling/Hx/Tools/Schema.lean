import Hx.Library.Lowering
import Mathlib.Data.List.Sort

/-!
# The schema subset of the tools

`checkSchema` reads a schema that a tool registers, or says what it cannot enforce in it.
`validate` lists every way a call's arguments fail a schema that was read. Sorting the unknown
arguments of a call compares them, and Python compares numbers with numbers and text with text
alone.
-/

namespace Hx.Tools

open Hx.Library

/-! ## Python objects -/

/-- A finite `float` is `mantissa * 2 ** exponent`. -/
inductive PyFloat where
  | finite (mantissa exponent : Int)
  | infinite (negative : Bool)
  | nan
  deriving DecidableEq

/-- A key of a `dict`. Of `True` and `1` a `dict` holds one at most, and every key once. -/
inductive DictKey where
  | none
  | bool (b : Bool)
  | int (n : Int)
  | str (s : Text)
  deriving DecidableEq

/-- What a schema is written with. -/
inductive PyObj where
  | none
  | bool (b : Bool)
  | int (n : Int)
  | float (x : PyFloat)
  | str (s : Text)
  | list (items : List PyObj)
  | dict (entries : List (DictKey × PyObj))

/-- What a call's arguments are made of. -/
inductive PyValue where
  | none
  | bool (b : Bool)
  | int (n : Int)
  | float (x : PyFloat)
  | str (s : Text)
  | list (items : List PyValue)
  | dict (entries : List (DictKey × PyValue))
  | other (typeName : String)

/-- `type(value).__name__`. -/
def PyValue.typeName : PyValue → String
  | .none => "NoneType"
  | .bool _ => "bool"
  | .int _ => "int"
  | .float _ => "float"
  | .str _ => "str"
  | .list _ => "list"
  | .dict _ => "dict"
  | .other name => name

def powerOfTwo (k : Nat) : Int := Int.ofNat (Nat.shiftLeft 1 k)

namespace PyFloat

/-- `x < y`, of the exact values. -/
def lt : PyFloat → PyFloat → Bool
  | .finite m e, .finite m' e' =>
      decide (m * powerOfTwo (e - e').toNat < m' * powerOfTwo (e' - e).toNat)
  | .finite _ _, .infinite negative => !negative
  | .infinite negative, .finite _ _ => negative
  | .infinite negative, .infinite negative' => negative && !negative'
  | _, _ => false

/-- `x == y`. -/
def equals : PyFloat → PyFloat → Bool
  | .finite m e, .finite m' e' =>
      m * powerOfTwo (e - e').toNat == m' * powerOfTwo (e' - e).toNat
  | .infinite negative, .infinite negative' => negative == negative'
  | _, _ => false

end PyFloat

/-- A number of a schema or of a call. An integer and a `float` compare by their values. -/
inductive Number where
  | int (n : Int)
  | float (x : PyFloat)
  deriving DecidableEq

namespace Number

def toFloat : Number → PyFloat
  | .int n => .finite n 0
  | .float x => x

def lt : Number → Number → Bool
  | .int m, .int n => decide (m < n)
  | x, y => x.toFloat.lt y.toFloat

def equals : Number → Number → Bool
  | .int m, .int n => m == n
  | x, y => x.toFloat.equals y.toFloat

end Number

/-- The number that an `int` or a `float` is. A `bool` is none. -/
def PyValue.number? : PyValue → Option Number
  | .int n => some (.int n)
  | .float x => some (.float x)
  | _ => Option.none

/-! ## Schemas -/

/-- A schema that was read. A keyword that is not there is `none`. -/
inductive Schema where
  | string (choices : Option (List Text)) (minLength maxLength : Option Int)
  | integer (choices : Option (List Int)) (minimum maximum : Option Number)
  | number (choices : Option (List Number)) (minimum maximum : Option Number)
  | boolean (choices : Option (List Bool))
  | array (items : Schema) (minItems maxItems : Option Int)
  | object (properties : List (Text × Schema)) (required : List Text)

def Schema.typeWord : Schema → String
  | .string .. => "string"
  | .integer .. => "integer"
  | .number .. => "number"
  | .boolean .. => "boolean"
  | .array .. => "array"
  | .object .. => "object"

/-- `isinstance(value, _TYPES[type_])`, where a `bool` is no number. -/
def Schema.isInstance : Schema → PyValue → Bool
  | .string .., .str _ => true
  | .integer .., .int _ => true
  | .number .., .int _ | .number .., .float _ => true
  | .boolean .., .bool _ => true
  | .array .., .list _ => true
  | .object .., .dict _ => true
  | _, _ => false

/-- The refusals of `check_schema`, with what their texts name. -/
inductive SchemaError where
  | notObject (where_ : Text)
  | notImplemented (where_ : Text) (unknown : List DictKey)
  | noType (where_ : Text)
  | typeNotText (where_ : Text)
  | unknownType (where_ : Text) (type_ : Text)
  | doesNotApply (where_ : Text) (keyword : Text)
  | wrongValue (where_ : Text) (keyword : Text)
  | emptyEnum (where_ : Text)
  | enumMember (where_ : Text)
  | additional (where_ : Text)
  | propertyName (where_ : Text) (key : DictKey)
  | requiredName (where_ : Text)
  | requiredUnknown (where_ : Text) (key : Text)
  | noItems (where_ : Text)

inductive Keyword where
  | type_
  | enum
  | properties
  | required
  | additionalProperties
  | items
  | minimum
  | maximum
  | minLength
  | maxLength
  | minItems
  | maxItems
  deriving DecidableEq

/-- `_CONSTRAINT_TABLE`, by name. -/
def keywords : List (Text × Keyword) :=
  [(text "type", .type_), (text "enum", .enum), (text "properties", .properties),
    (text "required", .required), (text "additionalProperties", .additionalProperties),
    (text "items", .items), (text "minimum", .minimum), (text "maximum", .maximum),
    (text "minLength", .minLength), (text "maxLength", .maxLength),
    (text "minItems", .minItems), (text "maxItems", .maxItems)]

/-- `METADATA`. -/
def metadata : List Text := [text "description", text "title", text "default", text "examples"]

/-- `_TYPES`. -/
inductive JsonType where
  | object
  | array
  | string
  | integer
  | number
  | boolean
  deriving DecidableEq

def types : List (Text × JsonType) :=
  [(text "object", .object), (text "array", .array), (text "string", .string),
    (text "integer", .integer), (text "number", .number), (text "boolean", .boolean)]

/-- The types a keyword applies to. -/
def Keyword.appliesTo (t : JsonType) : Keyword → Bool
  | .type_ => true
  | .enum => [JsonType.string, .integer, .number, .boolean].contains t
  | .properties | .required | .additionalProperties => t == .object
  | .items | .minItems | .maxItems => t == .array
  | .minimum | .maximum => [JsonType.integer, .number].contains t
  | .minLength | .maxLength => t == .string

/-- Whether a keyword's value is of its type. A `bool` is no number. -/
def Keyword.takes : Keyword → PyObj → Bool
  | .type_, .str _ => true
  | .enum, .list _ | .required, .list _ => true
  | .properties, .dict _ | .items, .dict _ => true
  | .additionalProperties, .bool _ => true
  | .minimum, .int _ | .minimum, .float _ | .maximum, .int _ | .maximum, .float _ => true
  | .minLength, .int _ | .maxLength, .int _ | .minItems, .int _ | .maxItems, .int _ => true
  | _, _ => false

/-- Whether a member of an `enum` is of the schema's type. -/
def JsonType.hasMember : JsonType → PyObj → Bool
  | .string, .str _ => true
  | .integer, .int _ => true
  | .number, .int _ | .number, .float _ => true
  | .boolean, .bool _ => true
  | _, _ => false

/-- `obj.get(name)`. -/
def getEntry {α : Type} (name : Text) : List (DictKey × α) → Option α
  | [] => none
  | (key, v) :: rest => if key = .str name then some v else getEntry name rest

namespace PyObj

def int? : PyObj → Option Int
  | .int n => some n
  | _ => Option.none

def number? : PyObj → Option Number
  | .int n => some (.int n)
  | .float x => some (.float x)
  | _ => Option.none

def str? : PyObj → Option Text
  | .str s => some s
  | _ => Option.none

def bool? : PyObj → Option Bool
  | .bool b => some b
  | _ => Option.none

def list? : PyObj → Option (List PyObj)
  | .list items => some items
  | _ => Option.none

end PyObj

/-- Whether a key is in `CONSTRAINTS` or in `METADATA`. -/
def isImplemented : DictKey → Bool
  | .str name => (keywords.lookup name).isSome || metadata.contains name
  | _ => false

/-- The members of an `enum` that is there. -/
def choicesOf {α : Type} (read : PyObj → Option α) (entries : List (DictKey × PyObj)) :
    Option (List α) :=
  ((getEntry (text "enum") entries).bind PyObj.list?).map (·.filterMap read)

/-- One keyword beside its value. -/
def checkKeyword (where_ : Text) (t : JsonType) (name : Text) (k : Keyword) (v : PyObj) :
    Except SchemaError Unit :=
  if !k.appliesTo t then .error (.doesNotApply where_ name)
  else if !k.takes v then .error (.wrongValue where_ name)
  else match k, v with
    | .enum, .list members =>
        if members.isEmpty then .error (.emptyEnum where_)
        else if members.all t.hasMember then .ok ()
        else .error (.enumMember where_)
    | _, _ => .ok ()

/-- The loop over the keywords of one schema. -/
def checkKeywords (where_ : Text) (t : JsonType) :
    List (DictKey × PyObj) → Except SchemaError Unit
  | [] => .ok ()
  | (.str name, v) :: rest =>
      match keywords.lookup name with
      | none => checkKeywords where_ t rest
      | some k =>
          match checkKeyword where_ t name k v with
          | .error e => .error e
          | .ok () => checkKeywords where_ t rest
  | _ :: rest => checkKeywords where_ t rest

/-- The names of `required`, each text and each of a property. -/
def checkRequired (where_ : Text) (names : List Text) : List PyObj → Except SchemaError (List Text)
  | [] => .ok []
  | .str key :: rest =>
      if names.contains key then
        match checkRequired where_ names rest with
        | .error e => .error e
        | .ok keys => .ok (key :: keys)
      else .error (.requiredUnknown where_ key)
  | _ :: _ => .error (.requiredName where_)

/-- `type`, when it is one of `_TYPES`. -/
def checkType (where_ : Text) (entries : List (DictKey × PyObj)) : Except SchemaError JsonType :=
  match getEntry (text "type") entries with
  | none | some .none => .error (.noType where_)
  | some (.str name) =>
      match types.lookup name with
      | none => .error (.unknownType where_ name)
      | some t => .ok t
  | some _ => .error (.typeNotText where_)

/-- What `check_schema` settles before it looks into the schemas below: the type. Where a key is
not text, the source may stop at sorting the unknown ones instead. -/
def checkHere (where_ : Text) (entries : List (DictKey × PyObj)) : Except SchemaError JsonType :=
  if !(entries.all fun e => isImplemented e.1) then
    .error (.notImplemented where_ ((entries.map Prod.fst).filter fun k => !isImplemented k))
  else match checkType where_ entries with
    | .error e => .error e
    | .ok t =>
        match checkKeywords where_ t entries with
        | .error e => .error e
        | .ok () =>
            if t = .object ∧ (getEntry (text "additionalProperties") entries).bind PyObj.bool? ≠
                some false then .error (.additional where_)
            else .ok t

mutual

/-- `check_schema`, and the schema it leaves. -/
def checkSchema : PyObj → Text → Except SchemaError Schema
  | .dict entries, where_ =>
      match checkHere where_ entries with
      | .error e => .error e
      | .ok .string => .ok (.string (choicesOf PyObj.str? entries)
          ((getEntry (text "minLength") entries).bind PyObj.int?)
          ((getEntry (text "maxLength") entries).bind PyObj.int?))
      | .ok .integer => .ok (.integer (choicesOf PyObj.int? entries)
          ((getEntry (text "minimum") entries).bind PyObj.number?)
          ((getEntry (text "maximum") entries).bind PyObj.number?))
      | .ok .number => .ok (.number (choicesOf PyObj.number? entries)
          ((getEntry (text "minimum") entries).bind PyObj.number?)
          ((getEntry (text "maximum") entries).bind PyObj.number?))
      | .ok .boolean => .ok (.boolean (choicesOf PyObj.bool? entries))
      | .ok .array =>
          match checkItems entries where_ with
          | .error e => .error e
          | .ok items => .ok (.array items
              ((getEntry (text "minItems") entries).bind PyObj.int?)
              ((getEntry (text "maxItems") entries).bind PyObj.int?))
      | .ok .object =>
          match checkProperties entries where_ with
          | .error e => .error e
          | .ok properties =>
              match checkRequired where_ (properties.map Prod.fst)
                  (((getEntry (text "required") entries).bind PyObj.list?).getD []) with
              | .error e => .error e
              | .ok required => .ok (.object properties required)
  | _, where_ => .error (.notObject where_)

/-- `obj["items"]`. -/
def checkItems : List (DictKey × PyObj) → Text → Except SchemaError Schema
  | [], where_ => .error (.noItems where_)
  | (key, sub) :: rest, where_ =>
      if key = .str (text "items") then checkSchema sub (where_ ++ text "[]")
      else checkItems rest where_

/-- The schemas under `obj.get("properties") or {}`. -/
def checkProperties : List (DictKey × PyObj) → Text → Except SchemaError (List (Text × Schema))
  | [], _ => .ok []
  | (key, v) :: rest, where_ =>
      if key = .str (text "properties") then checkPropertiesOf v where_
      else checkProperties rest where_

def checkPropertiesOf : PyObj → Text → Except SchemaError (List (Text × Schema))
  | .dict properties, where_ => checkEach properties where_
  | _, _ => .ok []

def checkEach : List (DictKey × PyObj) → Text → Except SchemaError (List (Text × Schema))
  | [], _ => .ok []
  | (.str name, sub) :: rest, where_ =>
      match checkSchema sub (where_ ++ text "." ++ name) with
      | .error e => .error e
      | .ok schema =>
          match checkEach rest where_ with
          | .error e => .error e
          | .ok schemas => .ok ((name, schema) :: schemas)
  | (key, _) :: _, where_ => .error (.propertyName where_ key)

end

/-! ## Validation -/

/-- A member of an `enum`, as a message lists it. -/
inductive Choice where
  | text (s : Text)
  | number (x : Number)
  | bool (b : Bool)
  deriving DecidableEq

/-- A message of `validate`, as the values its text is made of. -/
inductive Problem where
  | expected (where_ : Text) (type_ : String) (got : String)
  | notOneOf (where_ : Text) (choices : List Choice)
  | isRequired (where_ : Text) (key : Text)
  | notArgument (where_ : Text) (key : DictKey)
  | fewerItems (where_ : Text) (least : Int)
  | moreItems (where_ : Text) (most : Int)
  | belowMinimum (where_ : Text) (least : Number)
  | aboveMaximum (where_ : Text) (most : Number)
  | shorter (where_ : Text) (least : Int)
  | longer (where_ : Text) (most : Int)
  deriving DecidableEq

/-- What `validate` raises: `sorted` a `TypeError`, a message over a long integer a `ValueError`. -/
inductive Raised where
  | notSupportedBetweenInstances
  | exceedsTheLimit
  deriving DecidableEq

/-- `str(n)` takes integers of 4300 digits at most. -/
def maxStrDigits : Nat := 4300

def isWritten (n : Int) : Bool := decide ((Nat.toDigits 10 n.natAbs).length ≤ maxStrDigits)

def Number.isWritten : Number → Bool
  | .int n => Tools.isWritten n
  | .float _ => true

def DictKey.isWritten : DictKey → Bool
  | .int n => Tools.isWritten n
  | _ => true

def Choice.isWritten : Choice → Bool
  | .number b => b.isWritten
  | _ => true

def Problem.isWritten : Problem → Bool
  | .notOneOf _ choices => choices.all Choice.isWritten
  | .notArgument _ key => key.isWritten
  | .fewerItems _ n | .moreItems _ n | .shorter _ n | .longer _ n => Tools.isWritten n
  | .belowMinimum _ b | .aboveMaximum _ b => b.isWritten
  | .expected .. | .isRequired .. => true

/-- The messages, written one after the other. -/
def written (problems : List Problem) : Except Raised (List Problem) :=
  if problems.all Problem.isWritten then .ok problems else .error .exceedsTheLimit

/-- The problem of a keyword that is there and is not kept. -/
def breach {α : Type} (keyword : Option α) (broken : α → Bool) (problem : α → Problem) :
    List Problem :=
  match keyword with
  | some k => if broken k then [problem k] else []
  | none => []

/-- The problems of each element, in order. -/
def collect {α β ε : Type} (f : α → Except ε (List β)) : List α → Except ε (List β)
  | [] => .ok []
  | a :: rest =>
      match f a with
      | .error e => .error e
      | .ok first =>
          match collect f rest with
          | .error e => .error e
          | .ok more => .ok (first ++ more)

namespace DictKey

def isText : DictKey → Bool
  | .str _ => true
  | _ => false

def isNumber : DictKey → Bool
  | .bool _ | .int _ => true
  | _ => false

/-- Text by its characters, numbers by their value. -/
def code : DictKey → List Int
  | .none => [0]
  | .bool b => [1, if b then 1 else 0, 0]
  | .int n => [1, n, 1]
  | .str s => 2 :: s.map fun c => (c.val : Int)

end DictKey

def lexLe : List Int → List Int → Bool
  | [], _ => true
  | _ :: _, [] => false
  | a :: s, b :: t => decide (a < b) || (a == b && lexLe s t)

/-- Whether `<` answers between any two of the keys. -/
def comparable (keys : List DictKey) : Bool :=
  decide (keys.length ≤ 1) || keys.all DictKey.isText || keys.all DictKey.isNumber

/-- `sorted(keys)`. -/
def sortKeys (keys : List DictKey) : Except Raised (List DictKey) :=
  if comparable keys then .ok (keys.insertionSort fun a b => lexLe a.code b.code = true)
  else .error .notSupportedBetweenInstances

/-- `set(value) - set(props)`. -/
def unknownKeys (properties : List (Text × Schema)) (entries : List (DictKey × PyValue)) :
    List DictKey :=
  (entries.map Prod.fst).filter fun k => !properties.any fun p => k == .str p.1

def indexed (where_ : Text) (i : Nat) : Text := where_ ++ text "[" ++ text (toString i) ++ text "]"

mutual

/-- `_validate`. -/
def validate : Schema → PyValue → Text → Except Raised (List Problem)
  | .string choices least most, v, where_ =>
      match v with
      | .str s => written
          (breach choices (fun c => !c.contains s) (fun c => .notOneOf where_ (c.map .text)) ++
            (breach least (fun n => decide ((s.length : Int) < n)) (.shorter where_) ++
              breach most (fun n => decide (n < (s.length : Int))) (.longer where_)))
      | v => .ok [.expected where_ "string" v.typeName]
  | .integer choices least most, v, where_ =>
      match v with
      | .int n => written
          (breach choices (fun c => !c.contains n)
              (fun c => .notOneOf where_ (c.map fun n => .number (.int n))) ++
            (breach least (Number.int n).lt (.belowMinimum where_) ++
              breach most (fun b => b.lt (.int n)) (.aboveMaximum where_)))
      | v => .ok [.expected where_ "integer" v.typeName]
  | .number choices least most, v, where_ =>
      match v.number? with
      | some x => written
          (breach choices (fun c => !c.any x.equals)
              (fun c => .notOneOf where_ (c.map .number)) ++
            (breach least x.lt (.belowMinimum where_) ++
              breach most (fun b => b.lt x) (.aboveMaximum where_)))
      | none => .ok [.expected where_ "number" v.typeName]
  | .boolean choices, v, where_ =>
      match v with
      | .bool b => written
          (breach choices (fun c => !c.contains b) (fun c => .notOneOf where_ (c.map .bool)))
      | v => .ok [.expected where_ "boolean" v.typeName]
  | .array items least most, v, where_ =>
      match v with
      | .list xs =>
          match written
              (breach least (fun n => decide ((xs.length : Int) < n)) (.fewerItems where_) ++
                breach most (fun n => decide (n < (xs.length : Int))) (.moreItems where_)) with
          | .error e => .error e
          | .ok first =>
              match collect (fun p => validate items p.1 (indexed where_ p.2)) xs.zipIdx with
              | .error e => .error e
              | .ok more => .ok (first ++ more)
      | v => .ok [.expected where_ "array" v.typeName]
  | .object properties required, v, where_ =>
      match v with
      | .dict entries =>
          match sortKeys (unknownKeys properties entries) with
          | .error e => .error e
          | .ok unknown =>
              match written (unknown.map (.notArgument where_)) with
              | .error e => .error e
              | .ok notArguments =>
                  match validateEach properties entries where_ with
                  | .error e => .error e
                  | .ok more => .ok
                      ((required.filter fun key => (getEntry key entries).isNone).map
                          (.isRequired where_) ++ (notArguments ++ more))
      | v => .ok [.expected where_ "object" v.typeName]

/-- The loop over the properties that are there. -/
def validateEach : List (Text × Schema) → List (DictKey × PyValue) → Text →
    Except Raised (List Problem)
  | [], _, _ => .ok []
  | (key, sub) :: rest, entries, where_ =>
      match getEntry key entries with
      | none => validateEach rest entries where_
      | some v =>
          match validate sub v (where_ ++ text "." ++ key) with
          | .error e => .error e
          | .ok first =>
              match validateEach rest entries where_ with
              | .error e => .error e
              | .ok more => .ok (first ++ more)

end

end Hx.Tools
