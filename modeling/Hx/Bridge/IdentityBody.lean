import Hx.Bridge.RoundTrip
import Hx.Scan.Identity
import Hx.Send.Registry

/-!
# The identity body

`identity_body` writes one identity as JSON that nests. `Json.parseBody` is the reader of the
header with nesting allowed, `IdentityBody.parse` checks what it read and `register` checks it
again. What the extension registers from a body of the harness is the identity that was put into
it, or nothing.
-/

namespace Hx.Bridge.Json

open Hx.Java

/-- What a body holds; an object, its members in the order they are put. -/
inductive Nested where
  | scalar (v : Value)
  | object (members : List (JString × Nested))
  | array (elements : List Nested)

/-- `MAX_DEPTH`. -/
def maxDepth : ℕ := 8

variable (D : Digits)

mutual

/-- `value`, with nesting allowed. Each call takes one unit of `fuel`, and no more than three calls
in a row are at one place of the text. -/
def nested : ℕ → ℕ → JString → Option (Nested × JString)
  | 0, _, _ => none
  | fuel + 1, depth, s =>
      if s.head? = some (ch '\x7b') then
        if maxDepth < depth + 1 then none
        else (nestedObject fuel (depth + 1) s).map fun p => (.object p.1, p.2)
      else if s.head? = some (ch '[') then
        if maxDepth < depth + 1 then none
        else (nestedArray fuel (depth + 1) s).map fun p => (.array p.1, p.2)
      else (value D s).map fun p => (.scalar p.1, p.2)
termination_by structural fuel => fuel

/-- `parseObject`. -/
def nestedObject : ℕ → ℕ → JString → Option (List (JString × Nested) × JString)
  | 0, _, _ => none
  | fuel + 1, depth, s =>
      match expect (ch '\x7b') (ws s) with
      | none => none
      | some s =>
          match expect (ch '\x7d') (ws s) with
          | some s => some ([], s)
          | none => nestedMembers fuel depth s
termination_by structural fuel => fuel

/-- The loop over the members. -/
def nestedMembers : ℕ → ℕ → JString → Option (List (JString × Nested) × JString)
  | 0, _, _ => none
  | fuel + 1, depth, s =>
      match string (ws s) with
      | none => none
      | some (key, s) =>
          match expect (ch ':') (ws s) with
          | none => none
          | some s =>
              match nested fuel depth (ws s) with
              | none => none
              | some (v, s) =>
                  match ws s with
                  | [] => none
                  | c :: s =>
                      if c = ch '\x7d' then some ([(key, v)], s)
                      else if c = ch ',' then
                        (nestedMembers fuel depth s).map fun p => ((key, v) :: p.1, p.2)
                      else none
termination_by structural fuel => fuel

/-- `parseArray`. -/
def nestedArray : ℕ → ℕ → JString → Option (List Nested × JString)
  | 0, _, _ => none
  | fuel + 1, depth, s =>
      match expect (ch '[') (ws s) with
      | none => none
      | some s =>
          match expect (ch ']') (ws s) with
          | some s => some ([], s)
          | none => nestedElements fuel depth s
termination_by structural fuel => fuel

/-- The loop over the elements. -/
def nestedElements : ℕ → ℕ → JString → Option (List Nested × JString)
  | 0, _, _ => none
  | fuel + 1, depth, s =>
      match nested fuel depth (ws s) with
      | none => none
      | some (v, s) =>
          match ws s with
          | [] => none
          | c :: s =>
              if c = ch ']' then some ([v], s)
              else if c = ch ',' then
                (nestedElements fuel depth s).map fun p => (v :: p.1, p.2)
              else none
termination_by structural fuel => fuel

end

/-- `Json.parseBody`. -/
def parseBody (text : JString) : Option (List (JString × Nested)) :=
  match nestedObject D (4 * text.length + 4) 0 text with
  | some (members, rest) => if ws rest = [] then some members else none
  | none => none

/-- `get` of a map: of two members with one key the later one counts. -/
def Nested.get (members : List (JString × Nested)) (key : JString) : Option Nested :=
  members.reverse.lookup key

end Hx.Bridge.Json

namespace Hx.Bridge.IdentityBody

open Hx.Java Json

/-- `Parsed`. -/
structure Parsed where
  identityId : JString
  generation : Int32
  header : JString
  value : JString
  origins : List JString

/-- The refusals, with what their texts name. -/
inductive FrameError where
  | notJson
  | noId
  | notAnInteger (got : Option Nested)
  | outOfRange (generation : Int64)
  | noInject
  | noHeader
  | noValue
  | noOrigin

/-- `string`: a text that is not blank. -/
def string : Option Nested → Option JString
  | some (.scalar (.string s)) => if isBlank s then none else some s
  | _ => none

def generation : Option Nested → Except FrameError Int32
  | some (.scalar (.long g)) =>
      if g < 1 ∨ 2147483647 < g then .error (.outOfRange g) else .ok g.toInt32
  | v => .error (.notAnInteger v)

def inject : Option Nested → Except FrameError (List (JString × Nested))
  | some (.object members) => .ok members
  | _ => .error .noInject

/-- One blank origin is as bad as no list. -/
def origins : Option Nested → Option (List JString)
  | some (.array []) => none
  | some (.array elements) => elements.mapM fun o => string (some o)
  | _ => none

def supplied {α : Type} (e : FrameError) (v : Option α) : Except FrameError α :=
  v.elim (.error e) .ok

variable (D : Digits) (malformed : List UInt8 → JString)

def parse (body : List UInt8) : Except FrameError Parsed := do
  let payload ← supplied .notJson (parseBody D (newString malformed body))
  let identityId ← supplied .noId (string (Nested.get payload (js "identity_id")))
  let generation ← generation (Nested.get payload (js "generation"))
  let inject ← inject (Nested.get payload (js "inject"))
  let header ← supplied .noHeader (string (Nested.get inject (js "header")))
  let value ← supplied .noValue (string (Nested.get inject (js "value")))
  let origins ← supplied .noOrigin (origins (Nested.get payload (js "origins")))
  .ok ⟨identityId, generation, header, value, origins⟩

/-- The arguments of `register`. -/
def call (p : Parsed) : Send.RegisterCall :=
  ⟨some p.identityId, p.generation, some p.header, some p.value, some (p.origins.map some)⟩

/-- The entry of an identity. -/
def entryOf (p : Parsed) : Send.Entry := ⟨p.identityId, p.generation, p.header, p.value, p.origins⟩

end Hx.Bridge.IdentityBody

namespace Hx.Python.Json

open Hx.Library

/-! ## What is written -/

/-- Texts with commas between them. -/
def separated : List Text → Text
  | [] => []
  | w :: ws => w ++ ws.flatMap fun w => chr 44 :: w

/-- An object whose values are written already. -/
def objectText (members : List (Text × Text)) : Text :=
  chr 123 :: (separated (members.map fun m => writeString m.1 ++ chr 58 :: m.2) ++ [chr 125])

def arrayText (elements : List Text) : Text := chr 91 :: (separated elements ++ [chr 93])

end Hx.Python.Json

namespace Hx.Scan

open Hx.Library Hx.Python.Json

/-- The payload of `identity_body`, as `dumps` writes it. -/
def identityText (r : Resolved) (origins : List String) : Text :=
  objectText
    [(text "identity_id", writeString (text r.id)),
      (text "generation", writeValue (.int r.generation)),
      (text "inject", objectText
        [(text "header", writeString (text r.header)), (text "value", writeString r.value)]),
      (text "origins", arrayText (origins.map fun o => writeString (text o)))]

/-- What `identity_body` answers where it does not refuse. -/
def identityBytes (r : Resolved) (origins : List String) : Option (List UInt8) :=
  utf8Encode (identityText r origins)

end Hx.Scan

namespace Hx.Bridge.IdentityBody

open Hx.Java Hx.Library Hx.Python.Json

/-! ## Texts that have bytes -/

theorem scalars_ascii {t : Text} (ascii : t.all fun c => c.val < 0x80) : Scalars t := by
  intro c mem
  have small := of_decide_eq_true (List.all_eq_true.1 ascii c mem)
  exact isScalar_iff.2 (.inl (by omega))

theorem scalars_string (s : String) : Scalars (text s) := by
  intro c mem
  obtain ⟨d, -, rfl⟩ := List.mem_map.1 mem
  have valid : d.toNat < 0xd800 ∨ 0xdfff < d.toNat ∧ d.toNat < 0x110000 := d.valid
  rw [isScalar_iff, val_chr, Nat.mod_eq_of_lt (by omega)]
  omega

theorem ascii_escaped : ∀ n < 0x80, (escaped (chr n)).all fun c => c.val < 0x80 := by
  decide +kernel

theorem scalars_writeString {s : Text} (scalars : Scalars s) : Scalars (writeString s) := by
  refine scalars_cons.2 ⟨rfl, scalars_append.2 ⟨?_, scalars_ascii rfl⟩⟩
  intro c mem
  obtain ⟨d, inside, mem⟩ := List.mem_flatMap.1 mem
  by_cases large : 0x80 ≤ d.val
  · rw [escaped_point_self large, List.mem_singleton] at mem
    exact mem ▸ scalars d inside
  · have ascii := ascii_escaped d.val (by omega)
    rw [chr_val] at ascii
    exact scalars_ascii ascii c mem

/-! ## Steps of the reader -/

theorem utf16_chr {n : ℕ} (small : n < 0x80) (t : Text) :
    utf16 (chr n :: t) = Fin.ofNat 65536 n :: utf16 t := by
  have val : (chr n).val = n := Nat.mod_eq_of_lt (by omega)
  rw [utf16_cons, units_small (by omega), val, List.singleton_append]

/-- A text that starts with a visible ASCII character. -/
def Black (t : Text) : Prop := ∃ c more, t = c :: more ∧ 0x21 ≤ c.val ∧ c.val < 0x80

theorem Black.append {t : Text} (black : Black t) (rest : Text) : Black (t ++ rest) := by
  obtain ⟨c, more, rfl, bounds⟩ := black
  exact ⟨c, more ++ rest, rfl, bounds⟩

theorem Black.ws {t : Text} (black : Black t) : Json.ws (utf16 t) = utf16 t := by
  obtain ⟨c, more, rfl, bounds⟩ := black
  have no_space : isSpace c = false := isSpace_eq_false (by omega)
  rw [ws_utf16, ws_cons no_space]
  rw [ws_cons no_space]
  intro d mem
  cases mem
  exact black_unit bounds

theorem ws_visible {n : ℕ} (bounds : 0x21 ≤ n ∧ n < 0x80) (rest : Text) :
    Json.ws (utf16 (chr n :: rest)) = Fin.ofNat 65536 n :: utf16 rest := by
  have val : (chr n).val = n := Nat.mod_eq_of_lt (by omega)
  have black : Black (chr n :: rest) := ⟨_, _, rfl, by omega⟩
  rw [black.ws, utf16_chr bounds.2]

theorem quote_writeString (s rest : Text) : ∃ more, writeString s ++ rest = chr 34 :: more :=
  ⟨_, rfl⟩

theorem black_writeString (s : Text) : Black (writeString s) := ⟨chr 34, _, rfl, by decide⟩

variable (D : Json.Digits)

/-- A string the harness wrote is read as itself. -/
theorem string_read {s rest : Text} (scalars : Scalars s) (behind : Scalars rest) :
    Json.string (utf16 (writeString s ++ rest)) = some (utf16 s, utf16 rest) := by
  rw [string_utf16 (scalars_append.2 ⟨scalars_writeString scalars, behind⟩), string_written,
    Option.bind_some, takenString, if_pos (List.all_eq_true.2 scalars)]

theorem value_string {s t rest : JString} (read : Json.string s = some (t, rest)) :
    Json.value D s = some (.string t, rest) := by
  cases s with
  | nil => cases read
  | cons c s =>
      rw [Json.string, Json.expect] at read
      split_ifs at read with quote
      · rw [Json.value, if_pos quote]
        exact congrArg (Option.map _) read
      · cases read

theorem nested_string {s rest : Text} (scalars : Scalars s) (behind : Scalars rest)
    (fuel depth : ℕ) :
    Json.nested D (fuel + 1) depth (utf16 (writeString s ++ rest)) =
      some (.scalar (.string (utf16 s)), utf16 rest) := by
  have head : (utf16 (writeString s ++ rest)).head? = some (ch '"') := by
    rw [writeString_append, utf16_chr (by decide)]
    rfl
  rw [Json.nested, head, if_neg (by decide), if_neg (by decide),
    value_string D (string_read scalars behind)]
  rfl

/-! ## Members -/

section Members

variable {key t : Text} (name : Scalars key) (behind : Scalars t) (black : Black t)

include name behind black

/-- What is read in front of a member's value. -/
theorem key_read :
    Json.string (Json.ws (utf16 (writeString key ++ chr 58 :: t))) =
        some (utf16 key, utf16 (chr 58 :: t)) ∧
      Json.expect (ch ':') (Json.ws (utf16 (chr 58 :: t))) = some (utf16 t) ∧
      Json.ws (utf16 t) = utf16 t := by
  have colon : Black (chr 58 :: t) := ⟨_, _, rfl, by decide⟩
  refine ⟨?_, ?_, black.ws⟩
  · rw [((black_writeString key).append _).ws]
    exact string_read name (scalars_cons.2 ⟨rfl, behind⟩)
  · rw [colon.ws, expect_utf16 (n := 58) rfl (by decide)]
    rfl

variable {fuel depth : ℕ} {v : Json.Nested} {rest : Text}

theorem member_refused (read : Json.nested D fuel depth (utf16 t) = none) :
    Json.nestedMembers D (fuel + 1) depth (utf16 (writeString key ++ chr 58 :: t)) = none := by
  obtain ⟨string, colon, start⟩ := key_read name behind black
  rw [Json.nestedMembers]
  simp only [string, colon, start, read]

theorem member_last
    (read : Json.nested D fuel depth (utf16 t) = some (v, utf16 (chr 125 :: rest))) :
    Json.nestedMembers D (fuel + 1) depth (utf16 (writeString key ++ chr 58 :: t)) =
      some ([(utf16 key, v)], utf16 rest) := by
  obtain ⟨string, colon, start⟩ := key_read name behind black
  have brace : Json.ws (utf16 (chr 125 :: rest)) = ch '\x7d' :: utf16 rest :=
    ws_visible (by decide) rest
  rw [Json.nestedMembers]
  simp only [string, colon, start, read, brace, if_pos]

theorem member_more
    (read : Json.nested D fuel depth (utf16 t) = some (v, utf16 (chr 44 :: rest))) :
    Json.nestedMembers D (fuel + 1) depth (utf16 (writeString key ++ chr 58 :: t)) =
      (Json.nestedMembers D fuel depth (utf16 rest)).map
        fun p => ((utf16 key, v) :: p.1, p.2) := by
  obtain ⟨string, colon, start⟩ := key_read name behind black
  have comma : Json.ws (utf16 (chr 44 :: rest)) = ch ',' :: utf16 rest :=
    ws_visible (by decide) rest
  have apart : ¬ ch ',' = ch '\x7d' := by decide
  rw [Json.nestedMembers]
  simp only [string, colon, start, read, comma, if_neg apart, if_pos]

end Members

section Elements

variable {t : Text} (black : Black t) {fuel depth : ℕ} {v : Json.Nested} {rest : Text}

include black

theorem element_last
    (read : Json.nested D fuel depth (utf16 t) = some (v, utf16 (chr 93 :: rest))) :
    Json.nestedElements D (fuel + 1) depth (utf16 t) = some ([v], utf16 rest) := by
  have bracket : Json.ws (utf16 (chr 93 :: rest)) = ch ']' :: utf16 rest :=
    ws_visible (by decide) rest
  rw [Json.nestedElements]
  simp only [black.ws, read, bracket, if_pos]

theorem element_more
    (read : Json.nested D fuel depth (utf16 t) = some (v, utf16 (chr 44 :: rest))) :
    Json.nestedElements D (fuel + 1) depth (utf16 t) =
      (Json.nestedElements D fuel depth (utf16 rest)).map fun p => (v :: p.1, p.2) := by
  have comma : Json.ws (utf16 (chr 44 :: rest)) = ch ',' :: utf16 rest :=
    ws_visible (by decide) rest
  have apart : ¬ ch ',' = ch ']' := by decide
  rw [Json.nestedElements]
  simp only [black.ws, read, comma, if_neg apart, if_pos]

end Elements

theorem scalars_separated {ws : List Text} (scalars : ∀ w ∈ ws, Scalars w) :
    Scalars (separated ws) := by
  cases ws with
  | nil => exact scalars_ascii rfl
  | cons w ws =>
      obtain ⟨first, later⟩ := List.forall_mem_cons.1 scalars
      refine scalars_append.2 ⟨first, ?_⟩
      intro c mem
      obtain ⟨w, inside, mem⟩ := List.mem_flatMap.1 mem
      exact scalars_cons.2 ⟨rfl, later w inside⟩ c mem

theorem scalars_objectText {members : List (Text × Text)}
    (scalars : ∀ m ∈ members, Scalars m.1 ∧ Scalars m.2) : Scalars (objectText members) := by
  refine scalars_cons.2 ⟨rfl, scalars_append.2 ⟨scalars_separated ?_, scalars_ascii rfl⟩⟩
  intro w mem
  obtain ⟨m, inside, rfl⟩ := List.mem_map.1 mem
  obtain ⟨name, text_⟩ := scalars m inside
  exact scalars_append.2 ⟨scalars_writeString name, scalars_cons.2 ⟨rfl, text_⟩⟩

theorem scalars_arrayText {elements : List Text} (scalars : ∀ w ∈ elements, Scalars w) :
    Scalars (arrayText elements) :=
  scalars_cons.2 ⟨rfl, scalars_append.2 ⟨scalars_separated scalars, scalars_ascii rfl⟩⟩

theorem scalars_strings {ss : List Text} (scalars : ∀ s ∈ ss, Scalars s) :
    Scalars (separated (ss.map writeString)) := by
  refine scalars_separated fun w mem => ?_
  obtain ⟨s, inside, rfl⟩ := List.mem_map.1 mem
  exact scalars_writeString (scalars s inside)

/-- What the reader makes of the text of a value, with this much fuel, in front of a comma or a
brace. -/
structure Reads (depth fuel : ℕ) (w : Text) (v : Json.Nested) : Prop where
  scalars : Scalars w
  black : Black w
  read : ∀ {rest : Text}, Scalars rest → Stops rest → ∀ {enough : ℕ}, fuel ≤ enough →
    Json.nested D enough depth (utf16 (w ++ rest)) = some (v, utf16 rest)

/-- A member: its key, the text of its value, and the value. -/
abbrev Member := Text × Text × Json.Nested

def memberText (m : Member) : Text := writeString m.1 ++ chr 58 :: m.2.1

section Objects

variable {D} {depth fuel : ℕ} {ms : List Member}
  (reads : ∀ m ∈ ms, Scalars m.1 ∧ Reads D depth fuel m.2.1 m.2.2)

include reads

theorem scalars_members : Scalars (separated (ms.map memberText)) := by
  refine scalars_separated fun w mem => ?_
  obtain ⟨m, inside, rfl⟩ := List.mem_map.1 mem
  obtain ⟨name, read⟩ := reads m inside
  exact scalars_append.2 ⟨scalars_writeString name, scalars_cons.2 ⟨rfl, read.scalars⟩⟩

theorem members_read (some_ : ms ≠ []) {rest : Text} (behind : Scalars rest) {enough : ℕ}
    (fuel_ : fuel + ms.length ≤ enough) :
    Json.nestedMembers D enough depth
        (utf16 (separated (ms.map memberText) ++ chr 125 :: rest)) =
      some (ms.map fun m => (utf16 m.1, m.2.2), utf16 rest) := by
  induction ms generalizing enough with
  | nil => exact absurd rfl some_
  | cons m ms ih =>
      obtain ⟨⟨name, read⟩, later⟩ := List.forall_mem_cons.1 reads
      have end_ : Scalars (chr 125 :: rest) := scalars_cons.2 ⟨rfl, behind⟩
      rw [List.length_cons] at fuel_
      obtain ⟨enough, rfl⟩ : ∃ n, enough = n + 1 := ⟨enough - 1, by omega⟩
      -- the last member is in front of the brace, any other in front of a comma
      cases ms with
      | nil =>
          have text_ : separated ([m].map memberText) ++ chr 125 :: rest =
              writeString m.1 ++ chr 58 :: (m.2.1 ++ chr 125 :: rest) := by
            simp only [separated, List.map_cons, List.map_nil, List.flatMap_nil, List.append_nil,
              memberText, List.append_assoc, List.cons_append]
          rw [text_]
          exact member_last D name (scalars_append.2 ⟨read.scalars, end_⟩) (read.black.append _)
            (read.read end_ ⟨_, _, rfl, .inr rfl⟩ (by omega))
      | cons next ms =>
          have text_ : separated ((m :: next :: ms).map memberText) ++ chr 125 :: rest =
              writeString m.1 ++ chr 58 :: (m.2.1 ++
                chr 44 :: (separated ((next :: ms).map memberText) ++ chr 125 :: rest)) := by
            simp only [separated, List.map_cons, List.flatMap_cons, memberText, List.append_assoc,
              List.cons_append]
          have more : Scalars
              (chr 44 :: (separated ((next :: ms).map memberText) ++ chr 125 :: rest)) :=
            scalars_cons.2 ⟨rfl, scalars_append.2 ⟨scalars_members later, end_⟩⟩
          rw [text_, member_more D name (scalars_append.2 ⟨read.scalars, more⟩)
            (read.black.append _) (read.read more ⟨_, _, rfl, .inl rfl⟩ (by omega)),
            ih later (List.cons_ne_nil _ _) (by omega)]
          rfl

end Objects

section Objects

variable {depth fuel : ℕ}

/-- A bracket in front of a quote is taken, and the quote is not its end. -/
theorem opened {n : ℕ} {d e : JChar} (is : d.val = n) (bounds : 0x21 ≤ n ∧ n < 0x80)
    (small : e.val < 0x80) (apart : (chr 34).val ≠ e.val) (more : Text) :
    Json.expect d (Json.ws (utf16 (chr n :: chr 34 :: more))) =
        some (utf16 (chr 34 :: more)) ∧
      Json.expect e (Json.ws (utf16 (chr 34 :: more))) = none := by
  have val : (chr n).val = n := Nat.mod_eq_of_lt (by omega)
  have bracket : Black (chr n :: chr 34 :: more) := ⟨_, _, rfl, by omega⟩
  have quote : Black (chr 34 :: more) := ⟨_, _, rfl, by decide⟩
  constructor
  · rw [bracket.ws, expect_utf16 is bounds.2, expect, if_pos val]
    rfl
  · rw [quote.ws, expect_utf16 rfl small, expect, if_neg apart]
    rfl

/-- Behind the brace of an object that has members. -/
theorem object_inner {t : Text} (quote : ∃ more, t = chr 34 :: more) :
    Json.nestedObject D (fuel + 1) depth (utf16 (chr 123 :: t)) =
      Json.nestedMembers D fuel depth (utf16 t) := by
  obtain ⟨more, rfl⟩ := quote
  obtain ⟨start, not_closed⟩ := opened (n := 123) (d := ch '\x7b') (e := ch '\x7d') rfl (by decide)
    (by decide) (by decide) more
  rw [Json.nestedObject]
  simp only [start, not_closed]

theorem array_inner {t : Text} (quote : ∃ more, t = chr 34 :: more) :
    Json.nestedArray D (fuel + 1) depth (utf16 (chr 91 :: t)) =
      Json.nestedElements D fuel depth (utf16 t) := by
  obtain ⟨more, rfl⟩ := quote
  obtain ⟨start, not_closed⟩ := opened (n := 91) (d := ch '[') (e := ch ']') rfl (by decide)
    (by decide) (by decide) more
  rw [Json.nestedArray]
  simp only [start, not_closed]

theorem object_text (members : List (Text × Text)) (rest : Text) :
    objectText members ++ rest = chr 123 :: (separated
      (members.map fun m => writeString m.1 ++ chr 58 :: m.2) ++ chr 125 :: rest) := by
  rw [objectText, List.cons_append, List.append_assoc]
  rfl

theorem array_text (elements : List Text) (rest : Text) :
    arrayText elements ++ rest = chr 91 :: (separated elements ++ chr 93 :: rest) := by
  rw [arrayText, List.cons_append, List.append_assoc]
  rfl

/-- The members as `objectText` takes them. -/
def texts (ms : List Member) : List (Text × Text) := ms.map fun m => (m.1, m.2.1)

theorem object_members (ms : List Member) (rest : Text) :
    objectText (texts ms) ++ rest =
      chr 123 :: (separated (ms.map memberText) ++ chr 125 :: rest) := by
  rw [object_text, texts, List.map_map]
  rfl

variable {D} {ms : List Member}

theorem object_read (reads : ∀ m ∈ ms, Scalars m.1 ∧ Reads D depth fuel m.2.1 m.2.2)
    (some_ : ms ≠ []) {rest : Text} (behind : Scalars rest) {enough : ℕ}
    (fuel_ : fuel + ms.length ≤ enough) :
    Json.nestedObject D (enough + 1) depth (utf16 (objectText (texts ms) ++ rest)) =
      some (ms.map fun m => (utf16 m.1, m.2.2), utf16 rest) := by
  rw [object_members, object_inner D, members_read reads some_ behind fuel_]
  cases ms with
  | nil => exact absurd rfl some_
  | cons m ms => exact ⟨_, rfl⟩

theorem Reads.object (shallow : depth + 1 ≤ Json.maxDepth)
    (reads : ∀ m ∈ ms, Scalars m.1 ∧ Reads D (depth + 1) fuel m.2.1 m.2.2) (some_ : ms ≠ []) :
    Reads D depth (fuel + ms.length + 2) (objectText (texts ms))
      (.object (ms.map fun m => (utf16 m.1, m.2.2))) where
  scalars := by
    have text_ := object_members ms []
    rw [List.append_nil] at text_
    rw [text_]
    exact scalars_cons.2 ⟨rfl, scalars_append.2 ⟨scalars_members reads, scalars_ascii rfl⟩⟩
  black := ⟨chr 123, _, rfl, by decide⟩
  read := by
    intro rest behind _ enough fuel_
    obtain ⟨n, rfl⟩ : ∃ n, enough = n + 1 + 1 := ⟨enough - 2, by omega⟩
    have head : (utf16 (objectText (texts ms) ++ rest)).head? = some (ch '\x7b') := by
      rw [object_members, utf16_chr (by decide)]
      rfl
    rw [Json.nested, head, if_pos rfl, if_neg (by omega),
      object_read reads some_ behind (by omega)]
    rfl

theorem elements_read {ss : List Text} (scalars : ∀ s ∈ ss, Scalars s) (some_ : ss ≠ [])
    {rest : Text} (behind : Scalars rest) {enough : ℕ} (fuel_ : ss.length + 1 ≤ enough) :
    Json.nestedElements D enough depth
        (utf16 (separated (ss.map writeString) ++ chr 93 :: rest)) =
      some (ss.map fun s => .scalar (.string (utf16 s)), utf16 rest) := by
  induction ss generalizing enough with
  | nil => exact absurd rfl some_
  | cons s ss ih =>
      obtain ⟨first, later⟩ := List.forall_mem_cons.1 scalars
      have end_ : Scalars (chr 93 :: rest) := scalars_cons.2 ⟨rfl, behind⟩
      rw [List.length_cons] at fuel_
      obtain ⟨n, rfl⟩ : ∃ n, enough = n + 1 + 1 := ⟨enough - 2, by omega⟩
      -- the last element is in front of the bracket, any other in front of a comma
      cases ss with
      | nil =>
          have text_ : separated ([s].map writeString) ++ chr 93 :: rest =
              writeString s ++ chr 93 :: rest := by
            simp only [separated, List.map_cons, List.map_nil, List.flatMap_nil, List.append_nil]
          rw [text_]
          exact element_last D ((black_writeString s).append _) (nested_string D first end_ n depth)
      | cons next ss =>
          have text_ : separated ((s :: next :: ss).map writeString) ++ chr 93 :: rest =
              writeString s ++
                chr 44 :: (separated ((next :: ss).map writeString) ++ chr 93 :: rest) := by
            simp only [separated, List.map_cons, List.flatMap_cons, List.append_assoc,
              List.cons_append]
          have more : Scalars
              (chr 44 :: (separated ((next :: ss).map writeString) ++ chr 93 :: rest)) :=
            scalars_cons.2 ⟨rfl, scalars_append.2 ⟨scalars_strings later, end_⟩⟩
          rw [text_, element_more D ((black_writeString s).append _)
            (nested_string D first more n depth), ih later (List.cons_ne_nil _ _) (by omega)]
          rfl

theorem Reads.strings {ss : List Text} (shallow : depth + 1 ≤ Json.maxDepth)
    (scalars : ∀ s ∈ ss, Scalars s) (some_ : ss ≠ []) :
    Reads D depth (ss.length + 3) (arrayText (ss.map writeString))
      (.array (ss.map fun s => .scalar (.string (utf16 s)))) where
  scalars :=
    scalars_cons.2 ⟨rfl, scalars_append.2 ⟨scalars_strings scalars, scalars_ascii rfl⟩⟩
  black := ⟨chr 91, _, rfl, by decide⟩
  read := by
    intro rest behind _ enough fuel_
    obtain ⟨n, rfl⟩ : ∃ n, enough = n + 1 + 1 := ⟨enough - 2, by omega⟩
    have head : (utf16 (arrayText (ss.map writeString) ++ rest)).head? = some (ch '[') := by
      rw [array_text, utf16_chr (by decide)]
      rfl
    have quote : ∃ more, separated (ss.map writeString) ++ chr 93 :: rest = chr 34 :: more := by
      cases ss with
      | nil => exact absurd rfl some_
      | cons s ss => exact ⟨_, rfl⟩
    rw [Json.nested, head, if_neg (by decide), if_pos rfl, if_neg (by omega), array_text,
      array_inner D quote, elements_read scalars some_ behind (by omega)]
    rfl

theorem Reads.string {s : Text} (scalars : Scalars s) :
    Reads D depth 1 (writeString s) (.scalar (.string (utf16 s))) where
  scalars := scalars_writeString scalars
  black := black_writeString s
  read := by
    intro rest behind _ enough fuel_
    obtain ⟨n, rfl⟩ : ∃ n, enough = n + 1 := ⟨enough - 1, by omega⟩
    exact nested_string D scalars behind n depth

theorem Reads.mono {fuel' : ℕ} {w : Text} {v : Json.Nested} (reads : Reads D depth fuel w v)
    (more : fuel ≤ fuel') : Reads D depth fuel' w v :=
  ⟨reads.scalars, reads.black, fun behind stops _ enough => reads.read behind stops
    (more.trans enough)⟩

end Objects

/-! ## Generations -/

section Generations

variable (n : ℕ)

theorem writeValue_nat : writeValue (.int n) = (decimal n).map chr := text_nat n

theorem decimal_cons : ∃ d ds, decimal n = d :: ds ∧ 48 ≤ d ∧ d ≤ 57 := by
  cases same : decimal n with
  | nil => exact absurd same (decimal_ne_nil n)
  | cons d ds => exact ⟨d, ds, rfl, decimal_bounds (same ▸ List.mem_cons_self : d ∈ decimal n)⟩

theorem scalars_nat : Scalars (writeValue (.int n)) := by
  intro c mem
  rw [writeValue_nat] at mem
  obtain ⟨d, inside, rfl⟩ := List.mem_map.1 mem
  have bounds := decimal_bounds inside
  have val : (chr d).val = d := Nat.mod_eq_of_lt (by omega)
  exact isScalar_iff.2 (.inl (by omega))

theorem black_nat : Black (writeValue (.int n)) := by
  obtain ⟨d, ds, same, bounds⟩ := decimal_cons n
  have val : (chr d).val = d := Nat.mod_eq_of_lt (by omega)
  refine ⟨chr d, ds.map chr, ?_, by omega⟩
  rw [writeValue_nat, same]
  rfl

/-- A natural number is neither an object nor an array. -/
theorem nested_nat (fuel depth : ℕ) (rest : Text) :
    Json.nested D (fuel + 1) depth (utf16 (writeValue (.int n) ++ rest)) =
      (Json.value D (utf16 (writeValue (.int n) ++ rest))).map
        fun p => (.scalar p.1, p.2) := by
  obtain ⟨d, ds, same, bounds⟩ := decimal_cons n
  have val := val_unit (n := d) (by omega)
  have head : (utf16 (writeValue (.int n) ++ rest)).head? = some (Fin.ofNat 65536 d) := by
    rw [writeValue_nat, same, List.map_cons, List.cons_append, utf16_chr (by omega)]
    rfl
  have apart {c : JChar} (other : c.val < 48 ∨ 57 < c.val) :
      ¬ some (Fin.ofNat 65536 d) = some c := fun is => by
    have : (Fin.ofNat 65536 d).val = c.val := congrArg Fin.val (Option.some.inj is)
    omega
  rw [Json.nested, head, if_neg (apart (.inr (by decide))), if_neg (apart (.inr (by decide)))]

variable {n}

theorem Reads.nat {depth : ℕ} (fits : n ≤ 9223372036854775807) :
    Reads D depth 1 (writeValue (.int n)) (.scalar (.long (Int64.ofInt n))) := by
  refine ⟨scalars_nat n, black_nat n, ?_⟩
  · intro rest behind stops enough fuel_
    obtain ⟨m, rfl⟩ : ∃ m, enough = m + 1 := ⟨enough - 1, by omega⟩
    obtain ⟨c, more, rfl, comma⟩ := stops
    rw [nested_nat, scalar_utf16 D (scalars_append.2 ⟨scalars_nat n, behind⟩)
      (scalar_written (v := .int n) trivial ⟨c, more, rfl, comma⟩) ⟨by omega, by omega⟩
      ⟨c, more, rfl, .inr comma⟩]
    rfl

/-- A number that no `long` holds is no number of the extension. -/
theorem nat_refused {fuel depth : ℕ} (large : 9223372036854775807 < n) {rest : Text}
    (stops : Stops rest) :
    Json.nested D fuel depth (utf16 (writeValue (.int n) ++ rest)) = none := by
  cases fuel with
  | zero => rw [Json.nested]
  | succ fuel =>
      obtain ⟨d, ds, same, bounds⟩ := decimal_cons n
      have val := val_unit (n := d) (by omega)
      have digits : ∀ c ∈ (decimal n).map chr, isDigit c = true := by
        intro c mem
        obtain ⟨d, inside, rfl⟩ := List.mem_map.1 mem
        exact isDigit_chr (decimal_bounds inside)
      obtain ⟨c, more, rfl, comma⟩ := stops
      obtain ⟨took, left⟩ := span_utf16 D digits ⟨c, more, rfl, .inr comma⟩
      have text_ : utf16 ((decimal n).map chr) = Fin.ofNat 65536 d :: utf16 (ds.map chr) := by
        rw [same, List.map_cons, utf16_chr (by omega)]
      have no_minus : ¬ Fin.ofNat 65536 d = ch '-' := fun is => by
        have : (Fin.ofNat 65536 d).val = 45 := congrArg Fin.val is
        omega
      have no_plus : ¬ Fin.ofNat 65536 d = ch '+' := fun is => by
        have : (Fin.ofNat 65536 d).val = 43 := congrArg Fin.val is
        omega
      have some_ : ¬ utf16 ((decimal n).map chr) = [] := text_ ▸ List.cons_ne_nil _ _
      have too_large : magnitude D.toDigitMap 9223372036854775807
          (utf16 ((decimal n).map chr)) = none := by
        have value : ((decimal n).map chr).foldl (fun n c => n * 10 + (c.val - 48)) 0 = n :=
          digitsValue_written n
        rw [magnitude, Java.digits, if_neg some_, digitsFrom_utf16 D.toDigitMap digits, value]
        exact if_neg (by omega)
      have number : Json.number D [] (utf16 ((decimal n).map chr ++ c :: more)) = none := by
        rw [Json.number]
        simp only [took, left, List.nil_append]
        split_ifs with none_ point zero
        · rfl
        · rfl
        · rfl
        · rw [text_] at too_large
          rw [text_, parseLong, if_neg no_minus, if_neg no_plus, if_neg (by omega), too_large]
          rfl
      rw [nested_nat, writeValue_nat]
      rw [utf16_append, text_, List.cons_append] at number ⊢
      rw [value_other D (.inr (by omega)), if_neg no_minus, number]
      rfl

end Generations

/-! ## The body -/

section Body

open Hx.Scan (Resolved identityText identityBytes)

/-- An identity as the extension has it. -/
def parsed (r : Resolved) (origins : List String) : IdentityBody.Parsed :=
  ⟨utf16 (text r.id), Int32.ofInt r.generation, utf16 (text r.header), utf16 r.value,
    origins.map fun o => utf16 (text o)⟩

def injected (r : Resolved) : List Member :=
  [(text "header", writeString (text r.header), .scalar (.string (utf16 (text r.header)))),
    (text "value", writeString r.value, .scalar (.string (utf16 r.value)))]

/-- The payload, with what the extension makes of each value. -/
def payload (r : Resolved) (origins : List String) : List Member :=
  [(text "identity_id", writeString (text r.id), .scalar (.string (utf16 (text r.id)))),
    (text "generation", writeValue (.int r.generation), .scalar (.long (Int64.ofInt r.generation))),
    (text "inject", objectText (texts (injected r)),
      .object ((injected r).map fun m => (utf16 m.1, m.2.2))),
    (text "origins", arrayText ((origins.map text).map writeString),
      .array ((origins.map text).map fun s => .scalar (.string (utf16 s))))]

theorem identityText_eq (r : Resolved) (origins : List String) :
    identityText r origins = objectText (texts (payload r origins)) := by
  show identityText r origins = objectText
    [(text "identity_id", writeString (text r.id)),
      (text "generation", writeValue (.int r.generation)),
      (text "inject", objectText
        [(text "header", writeString (text r.header)), (text "value", writeString r.value)]),
      (text "origins", arrayText ((origins.map text).map writeString))]
  rw [identityText, List.map_map]
  rfl

variable {r : Resolved} {origins : List String}

theorem scalars_identityText (value : Scalars r.value) : Scalars (identityText r origins) := by
  have string (s : String) : Scalars (writeString (text s)) :=
    scalars_writeString (scalars_string s)
  have strings : Scalars (arrayText (origins.map fun o => writeString (text o))) := by
    refine scalars_arrayText fun w mem => ?_
    obtain ⟨o, -, rfl⟩ := List.mem_map.1 mem
    exact string o
  have inject : Scalars (objectText
      [(text "header", writeString (text r.header)), (text "value", writeString r.value)]) := by
    refine scalars_objectText (List.forall_mem_cons.2 ⟨⟨scalars_string _, string _⟩, ?_⟩)
    exact List.forall_mem_singleton.2 ⟨scalars_string _, scalars_writeString value⟩
  refine scalars_objectText (List.forall_mem_cons.2 ⟨⟨scalars_string _, string _⟩, ?_⟩)
  refine List.forall_mem_cons.2 ⟨⟨scalars_string _, scalars_nat _⟩, ?_⟩
  refine List.forall_mem_cons.2 ⟨⟨scalars_string _, inject⟩, ?_⟩
  exact List.forall_mem_singleton.2 ⟨scalars_string _, strings⟩

theorem injected_reads (value : Scalars r.value) {depth : ℕ} :
    ∀ m ∈ injected r, Scalars m.1 ∧ Reads D depth 1 m.2.1 m.2.2 := by
  refine List.forall_mem_cons.2 ⟨⟨scalars_ascii rfl, .string (scalars_string _)⟩, ?_⟩
  exact List.forall_mem_singleton.2 ⟨scalars_ascii rfl, .string value⟩

theorem payload_reads (value : Scalars r.value) (some_ : origins ≠ [])
    (fits : r.generation ≤ 9223372036854775807) :
    ∀ m ∈ payload r origins,
      Scalars m.1 ∧ Reads D 0 (origins.length + 5) m.2.1 m.2.2 := by
  have inner : Reads D 0 5 _ _ :=
    Reads.object (by decide) (injected_reads D value) (List.cons_ne_nil _ _)
  have names : ∀ s ∈ origins.map text, Scalars s := by
    intro s mem
    obtain ⟨o, -, rfl⟩ := List.mem_map.1 mem
    exact scalars_string o
  have list : Reads D 0 _ _ _ :=
    Reads.strings (by decide) names (fun none_ => some_ (List.map_eq_nil_iff.1 none_))
  rw [List.length_map] at list
  refine List.forall_mem_cons.2 ⟨⟨scalars_ascii rfl, ?_⟩, ?_⟩
  · exact (Reads.string (scalars_string _)).mono (by omega)
  refine List.forall_mem_cons.2 ⟨⟨scalars_ascii rfl, (Reads.nat D fits).mono (by omega)⟩, ?_⟩
  refine List.forall_mem_cons.2 ⟨⟨scalars_ascii rfl, inner.mono (by omega)⟩, ?_⟩
  exact List.forall_mem_singleton.2 ⟨scalars_ascii rfl, list.mono (by omega)⟩

/-- Between two texts stands a comma. -/
theorem length_separated (ws : List Text) : ws.length ≤ (separated ws).length + 1 := by
  cases ws with
  | nil => exact Nat.zero_le _
  | cons w ws =>
      have commas : ws.length ≤ (ws.flatMap fun w => chr 44 :: w).length := by
        induction ws with
        | nil => exact le_rfl
        | cons w ws ih =>
            rw [List.flatMap_cons, List.length_append, List.length_cons, List.length_cons]
            omega
      rw [separated, List.length_append, List.length_cons]
      omega

theorem length_payload (r : Resolved) (origins : List String) :
    origins.length + 2 ≤ (utf16 (identityText r origins)).length := by
  refine le_trans ?_ (length_le_utf16 _)
  have array : origins.length ≤ (arrayText (origins.map fun o => writeString (text o))).length := by
    have inner := length_separated (origins.map fun o => writeString (text o))
    rw [List.length_map] at inner
    rw [arrayText, List.length_cons, List.length_append]
    omega
  simp only [identityText, objectText, separated, List.map_cons, List.map_nil,
    List.flatMap_cons, List.flatMap_nil, List.length_append, List.length_cons, List.length_nil]
  omega

theorem parseBody_payload (value : Scalars r.value) (some_ : origins ≠ [])
    (fits : r.generation ≤ 9223372036854775807) :
    Json.parseBody D (utf16 (identityText r origins)) =
      some ((payload r origins).map fun m => (utf16 m.1, m.2.2)) := by
  have long := length_payload r origins
  have read := object_read (payload_reads D value some_ fits) (List.cons_ne_nil _ _)
    (scalars_ascii (t := []) rfl)
    (show origins.length + 5 + 4 ≤ 4 * (utf16 (identityText r origins)).length + 3 by omega)
  rw [List.append_nil, ← identityText_eq] at read
  rw [Json.parseBody, read]
  rfl

/-- A generation that no `long` holds leaves no body. -/
theorem parseBody_refused (value : Scalars r.value)
    (large : 9223372036854775807 < r.generation) :
    Json.parseBody D (utf16 (identityText r origins)) = none := by
  have whole : Scalars (identityText r origins) := scalars_identityText value
  generalize fuel_ : 4 * (utf16 (identityText r origins)).length + 4 = fuel
  obtain ⟨n, rfl⟩ : ∃ n, fuel = n + 1 + 1 + 1 := ⟨fuel - 3, by omega⟩
  obtain ⟨tail, text_⟩ : ∃ tail, identityText r origins =
      chr 123 :: (writeString (text "identity_id") ++ chr 58 :: (writeString (text r.id) ++
        chr 44 :: (writeString (text "generation") ++ chr 58 ::
          (writeValue (.int r.generation) ++ chr 44 :: tail)))) := by
    simp only [identityText, objectText, separated, List.map_cons, List.flatMap_cons,
      List.append_assoc, List.cons_append]
    exact ⟨_, rfl⟩
  rw [text_] at whole
  have id_ := (scalars_cons.1 (scalars_append.1 (scalars_cons.1 whole).2).2).2
  have more := (scalars_append.1 id_).2
  have number := (scalars_cons.1 (scalars_append.1 (scalars_cons.1 more).2).2).2
  rw [Json.parseBody, fuel_, text_, object_inner D (quote_writeString _ _),
    member_more D (scalars_ascii rfl) id_ ((black_writeString _).append _)
      (nested_string D (scalars_string _) more n 0),
    member_refused D (scalars_ascii rfl) number ((black_nat _).append _)
      (nat_refused D large ⟨_, _, rfl, .inl rfl⟩)]
  rfl

/-! ## What is refused -/

theorem scalars_unrefused {texts : Scan.Texts} {id what : String} {t : Text}
    (taken : Scan.refuseUnwritable texts id what t = none) : Scalars t := by
  induction t with
  | nil => exact scalars_ascii rfl
  | cons c t ih =>
      rw [Scan.refuseUnwritable] at taken
      split_ifs at taken with line nul outside
      exact scalars_cons.2 ⟨isScalar_iff.2 (.inl (by omega)), ih taken⟩

theorem isSpace_of_isWhitespace {c : Char}
    (white : ∀ u ∈ units (chr c.toNat), isWhitespace u = true) : Python.isSpace c = true := by
  have valid : c.toNat < 0xd800 ∨ 0xdfff < c.toNat ∧ c.toNat < 0x110000 := c.valid
  have val : (chr c.toNat).val = c.toNat := Nat.mod_eq_of_lt (by omega)
  by_cases small : c.toNat < 0x10000
  · rw [units_small (by omega), val, List.forall_mem_singleton] at white
    have unit := val_unit small
    simp only [isWhitespace, unit, Bool.or_eq_true, Bool.and_eq_true, decide_eq_true_eq,
      beq_iff_eq] at white
    simp only [Python.isSpace, Bool.or_eq_true, Bool.and_eq_true, decide_eq_true_eq, beq_iff_eq]
    omega
  · -- a surrogate is not white space
    rw [units_large (by omega)] at white
    have high := (List.forall_mem_cons.1 white).1
    have unit := val_unit (n := 0xd800 + (c.toNat - 0x10000) / 0x400) (by omega)
    rw [val] at high
    simp only [isWhitespace, unit, Bool.or_eq_true, Bool.and_eq_true, decide_eq_true_eq,
      beq_iff_eq] at high
    omega

/-- What is not blank to the harness is not blank to the extension. -/
theorem isBlank_origin {o : String} (some_ : ¬ Python.strip o.toList = []) :
    isBlank (utf16 (text o)) = false := by
  rw [Bool.eq_false_iff]
  intro blank
  have white := List.all_eq_true.1 blank
  have spaces : ∀ c ∈ o.toList, Python.isSpace c = true := fun c mem =>
    isSpace_of_isWhitespace fun u inside =>
      white u (List.mem_flatMap.2 ⟨chr c.toNat, List.mem_map_of_mem mem, inside⟩)
  apply some_
  rw [Python.strip, List.dropWhile_eq_nil_iff.2 spaces]
  rfl

/-- What `_refuse_unwritable` leaves is what `checkWritable` leaves. -/
theorem writable_unrefused {texts : Scan.Texts} {id what : String} {t : Text}
    (taken : Scan.refuseUnwritable texts id what t = none) (id' what' : JString) :
    Send.checkWritable id' what' (utf16 t) = .ok () := by
  have writable : ∀ u ∈ utf16 t, Send.isWritable u = true := by
    induction t with
    | nil => exact fun u mem => absurd mem List.not_mem_nil
    | cons c t ih =>
        rw [Scan.refuseUnwritable] at taken
        split_ifs at taken with line nul outside
        have val := val_unit (n := c.val) (by omega)
        rw [not_or] at line
        have no_cr : c.val ≠ 13 := fun is => line.1 (Fin.ext is)
        have no_lf : c.val ≠ 10 := fun is => line.2 (Fin.ext is)
        have no_nul : c.val ≠ 0 := fun is => nul (Fin.ext is)
        intro u mem
        rw [utf16_cons, units_small (by omega), List.singleton_append] at mem
        cases mem with
        | head =>
            have apart {n : ℕ} {d : JChar} (is : d.val = n) (other : c.val ≠ n) :
                Fin.ofNat 65536 c.val ≠ d := fun same => other (by rw [← is, ← same, val])
            rw [Send.isWritable, beq_eq_false_iff_ne.2 (apart (d := Send.cr) rfl no_cr),
              beq_eq_false_iff_ne.2 (apart (d := Send.lf) rfl no_lf),
              bne_iff_ne.2 (apart (d := 0) rfl no_nul), val, decide_eq_false outside]
            rfl
        | tail _ later => exact ih taken u later
  have none_ : ((utf16 t).find? fun c => !Send.isWritable c) = none := by
    rw [List.find?_eq_none]
    intro u mem
    rw [writable u mem]
    exact Bool.false_ne_true
  rw [Send.checkWritable, none_]

/-- What `identity_body` has looked at. -/
theorem identityBody_none {texts : Scan.Texts} (taken : Scan.identityBody texts r origins = none) :
    1 ≤ r.generation ∧
      (Scan.refuseUnwritable texts r.id "id" (text r.id) = none ∧
        Scan.refuseUnwritable texts r.id "header name" (text r.header) = none ∧
        Scan.refuseUnwritable texts r.id "value" r.value = none) ∧
      origins ≠ [] ∧ ∀ o ∈ origins, isBlank (utf16 (text o)) = false := by
  rw [Scan.identityBody] at taken
  split_ifs at taken with no_id early no_header no_value list
  all_goals simp only [Option.or_eq_none_iff] at taken
  · exact absurd taken.2.2 (Option.some_ne_none _)
  · rw [not_or] at list
    refine ⟨Nat.le_of_not_lt early, ⟨taken.1.1, taken.1.2, taken.2.1⟩, list.1, fun o mem => ?_⟩
    refine isBlank_origin fun blank => list.2 (List.any_eq_true.2 ⟨o, mem, ?_⟩)
    exact decide_eq_true blank

/-! ## What is taken from it -/

/-- The keys as the extension has them. -/
theorem got_payload (r : Resolved) (origins : List String) :
    let members := (payload r origins).map fun m => (utf16 m.1, m.2.2)
    Json.Nested.get members (js "identity_id") = some (.scalar (.string (utf16 (text r.id)))) ∧
      Json.Nested.get members (js "generation") =
        some (.scalar (.long (Int64.ofInt r.generation))) ∧
      Json.Nested.get members (js "inject") =
        some (.object ((injected r).map fun m => (utf16 m.1, m.2.2))) ∧
      Json.Nested.get members (js "origins") =
        some (.array ((origins.map text).map fun s => .scalar (.string (utf16 s)))) :=
  ⟨rfl, rfl, rfl, rfl⟩

theorem got_injected (r : Resolved) :
    let members := (injected r).map fun m => (utf16 m.1, m.2.2)
    Json.Nested.get members (js "header") = some (.scalar (.string (utf16 (text r.header)))) ∧
      Json.Nested.get members (js "value") = some (.scalar (.string (utf16 r.value))) :=
  ⟨rfl, rfl⟩

theorem generation_ofInt {n : ℕ} (pos : 1 ≤ n) (fits : n ≤ 9223372036854775807) :
    IdentityBody.generation (some (.scalar (.long (Int64.ofInt n)))) =
      if n ≤ 2147483647 then .ok (Int32.ofInt n) else .error (.outOfRange (Int64.ofInt n)) := by
  have value : (Int64.ofInt n).toInt = n := Int64.toInt_ofInt_of_le (by omega) (by omega)
  have one : (1 : Int64).toInt = 1 := rfl
  have limit : (2147483647 : Int64).toInt = 2147483647 := rfl
  rw [IdentityBody.generation]
  simp only [Int64.lt_iff_toInt_lt, value, one, limit, Int64.toInt32_ofInt]
  split_ifs
  · omega
  · rfl
  · rfl
  · omega

section Origins

variable {ss : List Text} (filled : ∀ s ∈ ss, isBlank (utf16 s) = false)

include filled

theorem mapM_strings :
    (ss.map fun s => Json.Nested.scalar (.string (utf16 s))).mapM
      (fun o => IdentityBody.string (some o)) = some (ss.map utf16) := by
  induction ss with
  | nil => rfl
  | cons s ss ih =>
      obtain ⟨first, later⟩ := List.forall_mem_cons.1 filled
      rw [List.map_cons, List.mapM_cons, ih later, IdentityBody.string, first]
      rfl

/-- Origins that are not blank are all taken. -/
theorem origins_strings (some_ : ss ≠ []) :
    IdentityBody.origins (some (.array (ss.map fun s => .scalar (.string (utf16 s))))) =
      some (ss.map utf16) := by
  cases ss with
  | nil => exact absurd rfl some_
  | cons s ss => exact mapM_strings filled

end Origins

variable (malformed : List UInt8 → JString)

/-- The body that `identity_body` builds is read as the identity it was built from, whose texts
are not blank to the extension and whose generation is an `int`; and any other is refused. -/
theorem identity_crosses {texts : Scan.Texts}
    (taken : Scan.identityBody texts r origins = none) :
    ∃ bytes, identityBytes r origins = some bytes ∧ ∀ p,
      IdentityBody.parse D malformed bytes = .ok p ↔
        p = parsed r origins ∧ r.generation ≤ 2147483647 ∧ isBlank (utf16 (text r.id)) = false ∧
          isBlank (utf16 (text r.header)) = false ∧ isBlank (utf16 r.value) = false := by
  obtain ⟨pos, ⟨-, -, unrefused⟩, some_, filled⟩ := identityBody_none taken
  have value : Scalars r.value := scalars_unrefused unrefused
  have scalars : Scalars (identityText r origins) := scalars_identityText value
  refine ⟨_, utf8Encode_eq_some.2 ⟨scalars, rfl⟩, fun p => ?_⟩
  have decoded : newString malformed (utf8Bytes (identityText r origins)) =
      utf16 (identityText r origins) := by
    rw [newString, utf8Decode_utf8Bytes scalars]
  rw [IdentityBody.parse, decoded]
  -- a generation that no `long` holds fails in the grammar, one that no `int` holds behind it
  by_cases fits : r.generation ≤ 9223372036854775807
  · obtain ⟨got_id, got_generation, got_inject, got_origins⟩ := got_payload r origins
    obtain ⟨got_header, got_value⟩ := got_injected r
    have list : IdentityBody.origins
        (some (.array ((origins.map text).map fun s => .scalar (.string (utf16 s))))) =
          some (parsed r origins).origins := by
      rw [origins_strings (List.forall_mem_map.2 filled)
        (fun none_ => some_ (List.map_eq_nil_iff.1 none_)), List.map_map]
      rfl
    have inject (members : List (JString × Json.Nested)) :
        IdentityBody.inject (some (.object members)) = .ok members := rfl
    have string (s : JString) : IdentityBody.string (some (.scalar (.string s))) =
        if isBlank s then none else some s := rfl
    simp only [parseBody_payload D value some_ fits, IdentityBody.supplied, Option.elim_some,
      got_id, got_generation, got_inject, got_origins, got_header, got_value, inject, string,
      generation_ofInt pos fits, list, bind, Except.bind]
    cases isBlank (utf16 (text r.id)) with
    | true => exact iff_of_false (fun is => by cases is) fun both => by cases both.2.2.1
    | false =>
        by_cases small : r.generation ≤ 2147483647
        · rw [if_pos small]
          cases isBlank (utf16 (text r.header)) with
          | true => exact iff_of_false (fun is => by cases is) fun both => by cases both.2.2.2.1
          | false =>
              cases isBlank (utf16 r.value) with
              | true => exact iff_of_false (fun is => by cases is) fun both => by cases both.2.2.2.2
              | false =>
                  refine ⟨fun is => ?_, fun both => ?_⟩
                  · cases is
                    exact ⟨rfl, small, rfl, rfl, rfl⟩
                  · rw [both.1]
                    rfl
        · rw [if_neg small]
          exact iff_of_false (fun is => by cases is) fun both => small both.2.1
  · rw [parseBody_refused D value (by omega)]
    refine iff_of_false (fun is => by cases is) fun both => fits (by omega)

theorem copyOf_some (origins : List JString) :
    Send.copyOf (origins.map some) = .ok origins := by
  have all : (origins.map some).mapM (fun o => o) = some origins := by
    induction origins with
    | nil => rfl
    | cons o origins ih =>
        rw [List.map_cons, List.mapM_cons, ih]
        rfl
  rw [Send.copyOf, all]

/-- Past the checks of the body, the header alone decides. -/
theorem check_call {texts : Scan.Texts} (taken : Scan.identityBody texts r origins = none)
    (fits : r.generation ≤ 2147483647) (id : isBlank (utf16 (text r.id)) = false)
    (header : isBlank (utf16 (text r.header)) = false) (value : isBlank (utf16 r.value) = false)
    {entry : Send.Entry} :
    Send.checkRegistration (call (parsed r origins)) = .ok entry ↔
      entry = entryOf (parsed r origins) ∧
        Send.isCredentialHeader (utf16 (text r.header)) = true := by
  obtain ⟨pos, ⟨id_, header_, value_⟩, some_, -⟩ := identityBody_none taken
  have early : ¬ Int32.ofInt r.generation < 1 := by
    have one : (1 : Int32).toInt = 1 := rfl
    rw [Int32.lt_iff_toInt_lt, Int32.toInt_ofInt_of_le (by omega) (by omega)]
    omega
  have passed (refusal : JString) : Send.require true refusal = .ok () := rfl
  have filled {s : JString} (blank : isBlank s = false) (refusal : JString) :
      Send.present (some s) refusal = .ok s := by
    rw [Send.present, blank]
    rfl
  have listed (refusal : JString) :
      Send.require (!((origins.map fun o => utf16 (text o)).map some).isEmpty) refusal =
        .ok () := by
    cases origins with
    | nil => exact absurd rfl some_
    | cons o origins => rfl
  simp only [Send.checkRegistration, call, parsed, filled id, filled header, filled value,
    writable_unrefused id_, writable_unrefused header_, writable_unrefused value_, early,
    decide_false, Bool.not_false, passed, Option.getD_some, listed, copyOf_some, bind, Except.bind]
  cases Send.isCredentialHeader (utf16 (text r.header)) with
  | false => exact iff_of_false (fun is => by cases is) fun both => by cases both.2
  | true =>
      refine ⟨fun is => ?_, fun both => ?_⟩
      · cases is
        exact ⟨rfl, rfl⟩
      · rw [both.1]
        rfl

end Body

end Hx.Bridge.IdentityBody
