import Hx.Library.JsonText
import Hx.Python.Text
import Hx.Tools.Door

/-!
# The tools over stdio

`serveStreams` reads JSON-RPC 2.0 messages, one on a line, and writes an answer to each that asks
for one. What `handle` raises is an answer too, but reading a line that is nested too deep raises
what no clause catches, and an `id` that is not a number of JSON comes back as it arrived.
-/

namespace Hx.Tools.Mcp

open Hx.Library

/-! ## What a line is read as -/

/-- What `json.loads` makes of a line. The keys of a `dict` are all different. -/
inductive Loaded where
  | null
  | bool (b : Bool)
  | int (n : Int)
  | float (x : PyFloat)
  | str (s : Text)
  | list (items : List Loaded)
  | dict (entries : List (Text × Loaded))

abbrev Entries := List (Text × Loaded)

/-- `obj.get(key)`. -/
def get (key : String) (entries : Entries) : Loaded := (entries.lookup (text key)).getD .null

/-- The items without the key. -/
def without (key : String) (entries : Entries) : Entries :=
  entries.filter fun e => e.1 != text key

def Loaded.isText (s : String) : Loaded → Bool
  | .str t => t == text s
  | _ => false

def Loaded.isNull : Loaded → Bool
  | .null => true
  | _ => false

/-- The items of an object, and none of anything else. -/
def Loaded.entries : Loaded → Entries
  | .dict entries => entries
  | _ => []

/-- A number that JSON can write: `NaN` and the infinities are none. -/
def isFinite : PyFloat → Bool
  | .finite _ _ => true
  | _ => false

mutual

/-- Whether there is no `NaN` and no infinity in a value. -/
def Loaded.isJson : Loaded → Bool
  | .null | .bool _ | .int _ | .str _ => true
  | .float x => isFinite x
  | .list items => allItems items
  | .dict entries => allEntries entries

def allItems : List Loaded → Bool
  | [] => true
  | v :: rest => v.isJson && allItems rest

def allEntries : List (Text × Loaded) → Bool
  | [] => true
  | (_, v) :: rest => v.isJson && allEntries rest

end

mutual

/-- How many lists and objects are open around the innermost part of a value. -/
def Loaded.nesting : Loaded → Nat
  | .null | .bool _ | .int _ | .str _ | .float _ => 0
  | .list items => nestingItems items + 1
  | .dict entries => nestingEntries entries + 1

def nestingItems : List Loaded → Nat
  | [] => 0
  | v :: rest => max v.nesting (nestingItems rest)

def nestingEntries : List (Text × Loaded) → Nat
  | [] => 0
  | (_, v) :: rest => max v.nesting (nestingEntries rest)

end

/-! ## Writing -/

def hexDigit (n : Nat) : Fin 0x110000 := chr (if n % 16 < 10 then 48 + n % 16 else 87 + n % 16)

/-- `'\\u{0:04x}'.format(n)`. -/
def unicodeEscape (n : Nat) : Text :=
  [chr 92, chr 117, hexDigit (n / 4096), hexDigit (n / 256), hexDigit (n / 16), hexDigit n]

/-- `ESCAPE_ASCII` and its replacement. -/
def escaped (c : Fin 0x110000) : Text :=
  if c.val = 34 then [chr 92, chr 34]
  else if c.val = 92 then [chr 92, chr 92]
  else if c.val = 10 then [chr 92, chr 110]
  else if c.val = 13 then [chr 92, chr 114]
  else if c.val = 9 then [chr 92, chr 116]
  else if c.val = 12 then [chr 92, chr 102]
  else if c.val = 8 then [chr 92, chr 98]
  else if 0x20 ≤ c.val ∧ c.val ≤ 0x7e then [c]
  else if c.val < 0x10000 then unicodeEscape c.val
  else unicodeEscape (0xd800 + (c.val - 0x10000) / 0x400) ++
    unicodeEscape (0xdc00 + (c.val - 0x10000) % 0x400)

def writeString (s : Text) : Text := quoted (s.flatMap escaped)

/-- What a line does besides answering: the tool's calls of `dispatch`, as they reach it. -/
structure Call where
  name : Loaded
  args : Loaded
  why : Loaded

/-- What `dispatch` gives back: whether the tool ran, and the envelope as `json.dumps` writes it or
fails to. -/
structure Envelope where
  ran : Bool
  written : Except Exception Text

inductive LoadsError where
  | value (message : Text)
  | recursion

/-- What is outside of this module. `loads` fails with a `ValueError`, or with a `RecursionError`
where a line is nested too deep; `dumps` does where a reply is nested past `limit`. A finite
`float` is written as a number. -/
structure Server (σ : Type) where
  loads : Text → Except LoadsError Loaded
  floatText : Int → Int → Text
  limit : Nat
  listing : Except Exception Loaded
  methodRepr : Loaded → Except Exception Text
  dispatch : σ → Call → σ × Except Exception Envelope
  number : ∀ mantissa exponent, NumberText (floatText mantissa exponent)
  roomy : 4 ≤ limit
  published : ∀ v, listing = .ok v → v.isJson = true ∧ v.nesting + 2 ≤ limit

section Writing

variable (floatText : Int → Int → Text)

/-- `float.__repr__`, and the names of the rest. -/
def writeFloat : PyFloat → Text
  | .finite mantissa exponent => floatText mantissa exponent
  | .infinite false => text "Infinity"
  | .infinite true => text "-Infinity"
  | .nan => text "NaN"

mutual

def write : Loaded → Text
  | .null => text "null"
  | .bool true => text "true"
  | .bool false => text "false"
  | .int n => integerText n
  | .float x => writeFloat floatText x
  | .str s => writeString s
  | .list items => chr 91 :: (writeItems items ++ [chr 93])
  | .dict entries => chr 123 :: (writeEntries entries ++ [chr 125])

/-- The items, with `", "` between them. -/
def writeItems : List Loaded → Text
  | [] => []
  | [v] => write v
  | v :: w :: rest => write v ++ chr 44 :: ([chr 32] ++ writeItems (w :: rest))

def writeEntries : List (Text × Loaded) → Text
  | [] => []
  | [(key, v)] => writeString key ++ [] ++ chr 58 :: ([chr 32] ++ write v)
  | (key, v) :: e :: rest =>
      (writeString key ++ [] ++ chr 58 :: ([chr 32] ++ write v)) ++
        chr 44 :: ([chr 32] ++ writeEntries (e :: rest))

end

end Writing

/-- `RecursionError`. -/
def recursionError : Exception :=
  ⟨text "RecursionError", text "maximum recursion depth exceeded"⟩

section Serving

variable {σ : Type} (server : Server σ)

/-- `json.dumps`. -/
def dumps (v : Loaded) : Except Exception Text :=
  if v.nesting ≤ server.limit then .ok (write server.floatText v) else .error recursionError

/-! ## Replies -/

def okReply (msgId result : Loaded) : Loaded :=
  .dict [(text "jsonrpc", .str (text "2.0")), (text "id", msgId), (text "result", result)]

def errReply (msgId : Loaded) (code : Int) (message : Text) : Loaded :=
  .dict [(text "jsonrpc", .str (text "2.0")), (text "id", msgId),
    (text "error", .dict [(text "code", .int code), (text "message", .str message)])]

def parseError : Int := -32700
def invalidRequest : Int := -32600
def methodNotFound : Int := -32601
def internalError : Int := -32603

def initialized : Loaded :=
  .dict [(text "protocolVersion", .str (text "2025-06-18")),
    (text "capabilities", .dict [(text "tools", .dict [])]),
    (text "serverInfo", .dict [(text "name", .str (text "hx")),
      (text "version", .str (text "0.1.0"))])]

def content (env : Text) (ran : Bool) : Loaded :=
  .dict [(text "content", .list [.dict [(text "type", .str (text "text")),
      (text "text", .str env)]]),
    (text "isError", .bool !ran)]

/-! ## Handling a message -/

/-- The objects a call's arguments are read and changed through, by their addresses. -/
abbrev Objects := List Entries

/-- `dict(args)`: another object with the same items. -/
def Objects.copy (objects : Objects) (address : Nat) : Objects :=
  objects ++ [objects.getD address []]

/-- `args.pop(key, None)`. -/
def Objects.pop (objects : Objects) (address : Nat) (key : String) : Loaded × Objects :=
  (get key (objects.getD address []),
    objects.set address (without key (objects.getD address [])))

/-- A message that was handled. The arguments the message holds are the object at address 0 of
`objects`, when they are an object. -/
structure Handled (σ : Type) where
  world : σ
  calls : List Call
  objects : Objects
  reply : Except Exception (Option Loaded)

/-- The call that `tools/call` makes, and the objects it leaves. -/
def prepared (params : Entries) : Call × Objects :=
  match get "arguments" params with
  | .dict entries =>
      let popped := (Objects.copy [entries] 0).pop 1 "why"
      (⟨get "name" params, .dict (popped.2.getD 1 []), popped.1⟩, popped.2)
  | args => (⟨get "name" params, args, .null⟩, [])

/-- The branch of `tools/call`. -/
def toolsCall (s : σ) (msgId : Loaded) (params : Entries) : Handled σ :=
  let call := prepared params
  match server.dispatch s call.1 with
  | (s, .error e) => ⟨s, [call.1], call.2, .error e⟩
  | (s, .ok env) =>
      match env.written with
      | .error e => ⟨s, [call.1], call.2, .error e⟩
      | .ok written => ⟨s, [call.1], call.2, .ok (some (okReply msgId (content written env.ran)))⟩

/-- The methods of `handle`, of a request. -/
def answer (s : σ) (msg : Entries) : Handled σ :=
  if (get "method" msg).isText "initialize" then
    ⟨s, [], [], .ok (some (okReply (get "id" msg) initialized))⟩
  else if (get "method" msg).isText "tools/list" then
    match server.listing with
    | .error e => ⟨s, [], [], .error e⟩
    | .ok tools => ⟨s, [], [], .ok (some (okReply (get "id" msg)
        (.dict [(text "tools", tools)])))⟩
  else if (get "method" msg).isText "tools/call" then
    toolsCall server s (get "id" msg) (get "params" msg).entries
  else
    match server.methodRepr (get "method" msg) with
    | .error e => ⟨s, [], [], .error e⟩
    | .ok repr => ⟨s, [], [], .ok (some (errReply (get "id" msg) methodNotFound
        (text "unknown method " ++ repr)))⟩

def handle (s : σ) : Loaded → Handled σ
  | .dict msg =>
      if !(get "jsonrpc" msg).isText "2.0" then
        ⟨s, [], [], .ok (some (errReply .null invalidRequest
          (text "not a JSON-RPC 2.0 message")))⟩
      else if (get "id" msg).isNull then ⟨s, [], [], .ok none⟩
      else answer server s msg
  | _ => ⟨s, [], [], .ok (some (errReply .null invalidRequest
      (text "not a JSON-RPC 2.0 message")))⟩

/-- What is answered to a message: what `handle` raises is named in the reply. -/
def replyTo (msg : Loaded) : Except Exception (Option Loaded) → Option Loaded
  | .ok reply => reply
  | .error e => some (errReply (get "id" msg.entries) internalError
      (e.className ++ text ": " ++ e.message))

/-! ## Serving the lines -/

/-- `line.strip()`. -/
def strip (line : Text) : Text :=
  let space := fun c : Fin 0x110000 => Python.isSpace (Char.ofNat c.val)
  (line.dropWhile space).rdropWhile space

/-- A line that was read, what was written for it, or what ended the loop at it. -/
structure Served (σ : Type) where
  world : σ
  calls : List Call
  objects : Objects
  written : Except Exception (Option Text)

/-- `stdout.write(json.dumps(reply) + "\n")`, where there is a reply. -/
def writeReply : Option Loaded → Except Exception (Option Text)
  | none => .ok none
  | some reply =>
      match dumps server reply with
      | .error e => .error e
      | .ok line => .ok (some (line ++ [chr 10]))

/-- One turn of the loop. -/
def serveLine (s : σ) (line : Text) : Served σ :=
  if strip line = [] then ⟨s, [], [], .ok none⟩
  else match server.loads (strip line) with
    | .error .recursion => ⟨s, [], [], .error recursionError⟩
    | .error (.value message) =>
        ⟨s, [], [], writeReply server (some (errReply .null parseError
          (text "could not parse: " ++ message)))⟩
    | .ok msg =>
        let handled := handle server s msg
        ⟨handled.world, handled.calls, handled.objects,
          writeReply server (replyTo msg handled.reply)⟩

/-- The lines that were read, and what ended the loop before the last of them. -/
structure Conversation (σ : Type) where
  world : σ
  turns : List (Served σ)
  raised : Option Exception

def serveStreams (s : σ) : List Text → Conversation σ
  | [] => ⟨s, [], none⟩
  | line :: rest =>
      let turn := serveLine server s line
      match turn.written with
      | .error e => ⟨turn.world, [turn], some e⟩
      | .ok _ =>
          let more := serveStreams turn.world rest
          ⟨more.world, turn :: more.turns, more.raised⟩

end Serving

/-! ## What is written -/

theorem isHex_hexDigit (n : Nat) : IsHex (hexDigit n) := by
  unfold IsHex hexDigit
  rw [val_chr]
  split <;> omega

theorem inside_unicodeEscape (n : Nat) {s : Text} (rest : Inside s) :
    Inside (unicodeEscape n ++ s) :=
  Inside.unicode (isHex_hexDigit _) (isHex_hexDigit _) (isHex_hexDigit _) (isHex_hexDigit _) rest

theorem inside_escaped (c : Fin 0x110000) {s : Text} (rest : Inside s) :
    Inside (escaped c ++ s) := by
  unfold escaped
  split_ifs with quote backslash feed carriage tab form back printed basic
  all_goals try exact Inside.short (by decide) rest
  · exact Inside.plain printed.1 quote backslash rest
  · exact inside_unicodeEscape _ rest
  · rw [List.append_assoc]
    exact inside_unicodeEscape _ (inside_unicodeEscape _ rest)

theorem inside_flatMap (s : Text) : Inside (s.flatMap escaped) := by
  induction s with
  | nil => exact Inside.nil
  | cons c s ih => exact inside_escaped c ih

theorem low_hexDigit (n : Nat) : 0x20 ≤ (hexDigit n).val := by
  obtain h | h | h := isHex_hexDigit n <;> omega

theorem low_escaped (c d : Fin 0x110000) (mem : d ∈ escaped c) : 0x20 ≤ d.val := by
  have unicode : ∀ n, ∀ d ∈ unicodeEscape n, 0x20 ≤ d.val := by
    intro n d mem
    simp only [unicodeEscape, List.mem_cons, List.not_mem_nil, or_false] at mem
    obtain rfl | rfl | rfl | rfl | rfl | rfl := mem
    · decide
    · decide
    all_goals exact low_hexDigit _
  have pair : ∀ x y : Fin 0x110000, 0x20 ≤ x.val → 0x20 ≤ y.val → ∀ d ∈ [x, y], 0x20 ≤ d.val := by
    intro x y hx hy d mem
    obtain rfl | mem := List.mem_cons.1 mem
    · exact hx
    · obtain rfl := List.mem_singleton.1 mem
      exact hy
  unfold escaped at mem
  split_ifs at mem with quote backslash feed carriage tab form back printed basic
  all_goals try exact pair _ _ (by decide) (by decide) d mem
  · obtain rfl := List.mem_singleton.1 mem
    exact printed.1
  · exact unicode _ d mem
  · obtain mem | mem := List.mem_append.1 mem <;> exact unicode _ d mem

/-- Nothing below a blank is written: no line ends inside a reply. -/
def Low (s : Text) : Prop := ∀ c ∈ s, 0x20 ≤ c.val

theorem Low.append {s t : Text} (first : Low s) (second : Low t) : Low (s ++ t) :=
  fun c mem => (List.mem_append.1 mem).elim (first c) (second c)

theorem Low.cons {c : Fin 0x110000} {s : Text} (one : 0x20 ≤ c.val) (rest : Low s) :
    Low (c :: s) := by
  intro d mem
  obtain rfl | mem := List.mem_cons.1 mem
  · exact one
  · exact rest d mem

theorem Low.nil : Low [] := fun _ mem => absurd mem List.not_mem_nil

theorem low_writeString (s : Text) : Low (writeString s) := by
  refine Low.cons (by decide) (Low.append ?_ (Low.cons (by decide) Low.nil))
  intro d mem
  obtain ⟨c, _, among⟩ := List.mem_flatMap.1 mem
  exact low_escaped c d among

theorem Low.of_all {s : Text} (h : (s.all fun c => decide (0x20 ≤ c.val)) = true) : Low s :=
  fun c mem => of_decide_eq_true (List.all_eq_true.1 h c mem)

theorem low_number {s : Text} (h : NumberText s) : Low s := by
  intro c mem
  have shape := h.chars mem
  omega

theorem blank_space : Blank [chr 32] := by
  intro c mem
  obtain rfl := List.mem_singleton.1 mem
  exact .inr (.inr (.inr rfl))

theorem spelled_padded {k : Category} {s : Text} (h : Spelled k s) : Spelled k ([chr 32] ++ s) := by
  have padded := Spelled.padded h blank_space (fun _ mem => absurd mem List.not_mem_nil)
  rwa [List.append_nil] at padded

section Written

variable {floatText : Int → Int → Text}

/-- How `floatText` writes a finite `float`. -/
abbrev Numbers (floatText : Int → Int → Text) : Prop :=
  ∀ mantissa exponent, NumberText (floatText mantissa exponent)

mutual

theorem write_low (number : Numbers floatText) : ∀ v : Loaded, Low (write floatText v)
  | .null | .bool true | .bool false => Low.of_all rfl
  | .int n => low_number (integerText_number n)
  | .float (.finite m e) => low_number (number m e)
  | .float (.infinite true) | .float (.infinite false) | .float .nan => Low.of_all rfl
  | .str s => low_writeString s
  | .list items => Low.cons (by decide)
      ((writeItems_low number items).append (Low.cons (by decide) Low.nil))
  | .dict entries => Low.cons (by decide)
      ((writeEntries_low number entries).append (Low.cons (by decide) Low.nil))

theorem writeItems_low (number : Numbers floatText) :
    ∀ items : List Loaded, Low (writeItems floatText items)
  | [] => Low.nil
  | [v] => write_low number v
  | v :: w :: rest => (write_low number v).append (Low.cons (by decide)
      (Low.cons (by decide) (writeItems_low number (w :: rest))))

theorem writeEntries_low (number : Numbers floatText) :
    ∀ entries : List (Text × Loaded), Low (writeEntries floatText entries)
  | [] => Low.nil
  | [(key, v)] => ((low_writeString key).append Low.nil).append (Low.cons (by decide)
      (Low.cons (by decide) (write_low number v)))
  | (key, v) :: e :: rest => (((low_writeString key).append Low.nil).append (Low.cons (by decide)
      (Low.cons (by decide) (write_low number v)))).append (Low.cons (by decide)
      (Low.cons (by decide) (writeEntries_low number (e :: rest))))

end

mutual

/-- A value without `NaN` and the infinities is written as one JSON value. -/
theorem write_spelled (number : Numbers floatText) :
    ∀ v : Loaded, v.isJson = true → Spelled .value (write floatText v)
  | .null, _ => Spelled.null
  | .bool true, _ => Spelled.true_
  | .bool false, _ => Spelled.false_
  | .int n, _ => Spelled.number (integerText_number n)
  | .float (.finite m e), _ => Spelled.number (number m e)
  | .str s, _ => Spelled.string (inside_flatMap s)
  | .list [], _ => Spelled.emptyArray (fun _ mem => absurd mem List.not_mem_nil)
  | .list (v :: rest), json =>
      Spelled.array (writeItems_spelled number (v :: rest) (List.cons_ne_nil v rest) json)
  | .dict [], _ => Spelled.emptyObject (fun _ mem => absurd mem List.not_mem_nil)
  | .dict (e :: rest), json =>
      Spelled.object (writeEntries_spelled number (e :: rest) (List.cons_ne_nil e rest) json)

theorem writeItems_spelled (number : Numbers floatText) :
    ∀ items : List Loaded, items ≠ [] → allItems items = true →
      Spelled .items (writeItems floatText items)
  | [], some_, _ => absurd rfl some_
  | [v], _, json => Spelled.item (write_spelled number v (Bool.and_eq_true_iff.1 json).1)
  | v :: w :: rest, _, json =>
      Spelled.items (write_spelled number v (Bool.and_eq_true_iff.1 json).1)
        (spelled_padded (writeItems_spelled number (w :: rest) (List.cons_ne_nil w rest)
          (Bool.and_eq_true_iff.1 json).2))

theorem writeEntries_spelled (number : Numbers floatText) :
    ∀ entries : List (Text × Loaded), entries ≠ [] → allEntries entries = true →
      Spelled .members (writeEntries floatText entries)
  | [], some_, _ => absurd rfl some_
  | [(key, v)], _, json =>
      Spelled.member (inside_flatMap key) (fun _ mem => absurd mem List.not_mem_nil)
        (spelled_padded (write_spelled number v (Bool.and_eq_true_iff.1 json).1))
  | (key, v) :: e :: rest, _, json =>
      Spelled.members (Spelled.member (inside_flatMap key)
          (fun _ mem => absurd mem List.not_mem_nil)
          (spelled_padded (write_spelled number v (Bool.and_eq_true_iff.1 json).1)))
        (spelled_padded (writeEntries_spelled number (e :: rest) (List.cons_ne_nil e rest)
          (Bool.and_eq_true_iff.1 json).2))

end

/-- The bare part of what is written tells whether `NaN` or an infinity is in it. -/
structure Tells (s : Text) (json : Bool) : Prop where
  marks : ∃ marks, Bare s marks ∧ quiet marks = json

theorem Tells.append {s t : Text} {b c : Bool} (first : Tells s b) (second : Tells t c) :
    Tells (s ++ t) (b && c) := by
  obtain ⟨marks, outside, rfl⟩ := first.marks
  obtain ⟨marks', outside', rfl⟩ := second.marks
  exact ⟨_, outside.append outside', quiet_append _ _⟩

theorem Tells.cons {c : Fin 0x110000} {s : Text} {b : Bool} (quote : c.val ≠ 34)
    (mark : namesNoNumber c = false) (rest : Tells s b) : Tells (c :: s) b := by
  obtain ⟨marks, outside, rfl⟩ := rest.marks
  refine ⟨_, Bare.cons quote outside, ?_⟩
  rw [quiet_cons, mark]
  rfl

theorem Tells.nil : Tells [] true := ⟨[], Bare.nil, rfl⟩

theorem Tells.number {s : Text} (h : NumberText s) : Tells s true := ⟨s, h.bare, h.quiet⟩

theorem Tells.string (s : Text) : Tells (writeString s) true :=
  ⟨[], Bare.quoted (inside_flatMap s), rfl⟩

theorem Tells.close {c : Fin 0x110000} {s : Text} {b : Bool} (quote : c.val ≠ 34)
    (mark : namesNoNumber c = false) (rest : Tells s b) : Tells (s ++ [c]) b := by
  have both := rest.append (Tells.cons quote mark Tells.nil)
  rwa [Bool.and_true] at both

theorem Tells.entry {s : Text} {b : Bool} (key : Text) (rest : Tells s b) :
    Tells (writeString key ++ [] ++ chr 58 :: ([chr 32] ++ s)) b :=
  ((Tells.string key).append Tells.nil).append
    (Tells.cons (by decide) rfl (Tells.cons (by decide) rfl rest))

mutual

theorem write_tells (number : Numbers floatText) :
    ∀ v : Loaded, Tells (write floatText v) v.isJson
  | .null => ⟨text "null", fun _ => rfl, rfl⟩
  | .bool true => ⟨text "true", fun _ => rfl, rfl⟩
  | .bool false => ⟨text "false", fun _ => rfl, rfl⟩
  | .int n => Tells.number (integerText_number n)
  | .float (.finite m e) => Tells.number (number m e)
  | .float (.infinite true) => ⟨text "-Infinity", fun _ => rfl, rfl⟩
  | .float (.infinite false) => ⟨text "Infinity", fun _ => rfl, rfl⟩
  | .float .nan => ⟨text "NaN", fun _ => rfl, rfl⟩
  | .str s => Tells.string s
  | .list items => Tells.cons (by decide) rfl
      ((writeItems_tells number items).close (by decide) rfl)
  | .dict entries => Tells.cons (by decide) rfl
      ((writeEntries_tells number entries).close (by decide) rfl)

theorem writeItems_tells (number : Numbers floatText) :
    ∀ items : List Loaded, Tells (writeItems floatText items) (allItems items)
  | [] => Tells.nil
  | [v] => by
      have one := write_tells number v
      rwa [← Bool.and_true v.isJson] at one
  | v :: w :: rest => (write_tells number v).append
      (Tells.cons (by decide) rfl
        (Tells.cons (by decide) rfl (writeItems_tells number (w :: rest))))

theorem writeEntries_tells (number : Numbers floatText) :
    ∀ entries : List (Text × Loaded), Tells (writeEntries floatText entries) (allEntries entries)
  | [] => Tells.nil
  | [(key, v)] => by
      have one := Tells.entry key (write_tells number v)
      rwa [← Bool.and_true v.isJson] at one
  | (key, v) :: e :: rest => (Tells.entry key (write_tells number v)).append
      (Tells.cons (by decide) rfl
        (Tells.cons (by decide) rfl (writeEntries_tells number (e :: rest))))

end

/-- What is written is one JSON value exactly when there is no `NaN` and no infinity in it. -/
theorem spelled_write_iff (number : Numbers floatText) (v : Loaded) :
    Spelled .value (write floatText v) ↔ v.isJson = true := by
  constructor
  · intro spelled
    obtain ⟨marks, outside, quiet⟩ := spelled.quiet
    obtain ⟨marks', outside', told⟩ := (write_tells number v).marks
    rw [← told, outside'.unique outside, quiet]
  · exact write_spelled number v

end Written

/-! ## What a conversation owes its client -/

def isMessage (msg : Loaded) : Bool := (get "jsonrpc" msg.entries).isText "2.0"

/-- The `id` of a request: a JSON-RPC 2.0 message that has one. -/
def requestId (msg : Loaded) : Option Loaded :=
  if isMessage msg && !(get "id" msg.entries).isNull then some (get "id" msg.entries) else none

/-- The call that the `params` of a request carry. -/
def callOf (params : Entries) : Call :=
  match get "arguments" params with
  | .dict entries => ⟨get "name" params, .dict (without "why" entries), get "why" entries⟩
  | args => ⟨get "name" params, args, .null⟩

/-- The calls that a message asks for. -/
def asked (msg : Loaded) : List Call :=
  if (requestId msg).isSome && (get "method" msg.entries).isText "tools/call" then
    [callOf (get "params" msg.entries).entries]
  else []

/-- A line of the protocol: one JSON value, and the end of the line behind it. -/
structure OneLine (line : Text) : Prop where
  value : ∃ json, Spelled .value json ∧ chr 10 ∉ json ∧ line = json ++ [chr 10]

section Owed

variable {σ : Type} (server : Server σ)

/-- The message on a line, if there is one. -/
def messageOn (line : Text) : Option Loaded :=
  if strip line = [] then none
  else match server.loads (strip line) with
    | .ok msg => some msg
    | .error _ => none

/-- One line, and no end of the conversation. -/
structure Answered (line : Text) (turn : Served σ) : Prop where
  request : ∀ msg, messageOn server line = some msg → (requestId msg).isSome = true →
    ∃ out, turn.written = .ok (some out) ∧ OneLine out
  notification : ∀ msg, messageOn server line = some msg → isMessage msg = true →
    requestId msg = none → turn.written = .ok none
  other : (∀ msg, messageOn server line = some msg → isMessage msg = false) →
    turn.written = .ok none ∨ ∃ code message,
      turn.written = .ok (some (write server.floatText (errReply .null code message) ++ [chr 10])) ∧
      OneLine (write server.floatText (errReply .null code message) ++ [chr 10])
  calls : turn.calls = ((messageOn server line).map asked).getD []
  unchanged : ∀ msg entries, messageOn server line = some msg → asked msg ≠ [] →
    get "arguments" (get "params" msg.entries).entries = .dict entries →
      turn.objects[0]? = some entries

/-- Every line is read, and every line is answered. -/
structure Conversed (lines : List Text) (conversation : Conversation σ) : Prop where
  ended : conversation.raised = none
  answered : List.Forall₂ (Answered server) lines conversation.turns

/-- A line that the conversation outlives: it is not nested too deep to be read, and the `id` of a
request in it can be written back. -/
def Endures (line : Text) : Prop :=
  strip line ≠ [] → server.loads (strip line) ≠ .error .recursion ∧
    ∀ msg id, server.loads (strip line) = .ok msg → requestId msg = some id →
      id.isJson = true ∧ id.nesting < server.limit

/-! ## Replies -/

theorem oneLine_write_iff (v : Loaded) :
    OneLine (write server.floatText v ++ [chr 10]) ↔ v.isJson = true := by
  constructor
  · intro line
    obtain ⟨json, spelled, _, same⟩ := line.value
    rw [← spelled_write_iff server.number, List.append_cancel_right same]
    exact spelled
  · intro json
    refine ⟨⟨_, (spelled_write_iff server.number v).2 json, ?_, rfl⟩⟩
    intro mem
    exact absurd (write_low server.number v _ mem) (by decide)

theorem writeReply_some_iff (v : Loaded) :
    (∃ out, writeReply server (some v) = .ok (some out) ∧ OneLine out) ↔
      v.isJson = true ∧ v.nesting ≤ server.limit := by
  unfold writeReply dumps
  by_cases fits : v.nesting ≤ server.limit
  · simp only [fits, and_true, ← oneLine_write_iff server]
    constructor
    · rintro ⟨out, same, line⟩
      cases same
      exact line
    · exact fun line => ⟨_, rfl, line⟩
  · simp only [fits, and_false, iff_false]
    rintro ⟨out, same, _⟩
    cases same

theorem okReply_isJson {v : Loaded} (id : Loaded) (json : v.isJson = true) :
    (okReply id v).isJson = id.isJson := by
  show (true && (id.isJson && (v.isJson && true))) = id.isJson
  rw [json]
  simp

theorem errReply_isJson (id : Loaded) (code : Int) (message : Text) :
    (errReply id code message).isJson = id.isJson := by
  show (true && (id.isJson && (true && true))) = id.isJson
  simp

theorem okReply_nesting (id v : Loaded) :
    (okReply id v).nesting = max id.nesting v.nesting + 1 := by
  show max 0 (max id.nesting (max v.nesting 0)) + 1 = _
  omega

theorem errReply_nesting (id : Loaded) (code : Int) (message : Text) :
    (errReply id code message).nesting = max id.nesting 1 + 1 := by
  show max 0 (max id.nesting (max (max 0 (max 0 0) + 1) 0)) + 1 = _
  omega

/-- A reply that can be written wherever its `id` can. -/
structure RepliesTo (id reply : Loaded) : Prop where
  isJson : reply.isJson = id.isJson
  nesting : reply.nesting ≤ server.limit ↔ id.nesting < server.limit

variable {server}

theorem repliesTo_ok {v : Loaded} (id : Loaded) (json : v.isJson = true)
    (low : v.nesting + 1 ≤ server.limit) : RepliesTo server id (okReply id v) := by
  refine ⟨okReply_isJson id json, ?_⟩
  rw [okReply_nesting]
  omega

theorem repliesTo_err (id : Loaded) (code : Int) (message : Text) :
    RepliesTo server id (errReply id code message) := by
  refine ⟨errReply_isJson id code message, ?_⟩
  have roomy := server.roomy
  rw [errReply_nesting]
  omega

theorem RepliesTo.written_iff {id reply : Loaded} (h : RepliesTo server id reply) :
    (∃ out, writeReply server (some reply) = .ok (some out) ∧ OneLine out) ↔
      id.isJson = true ∧ id.nesting < server.limit := by
  rw [writeReply_some_iff, h.isJson, h.nesting]

variable (server) in
/-- An error about no message in particular is always written. -/
theorem err_written (code : Int) (message : Text) :
    writeReply server (some (errReply .null code message)) =
        .ok (some (write server.floatText (errReply .null code message) ++ [chr 10])) ∧
      OneLine (write server.floatText (errReply .null code message) ++ [chr 10]) := by
  have roomy := server.roomy
  have low : (errReply .null code message).nesting ≤ server.limit := by
    rw [errReply_nesting]
    show max 0 1 + 1 ≤ server.limit
    omega
  constructor
  · simp only [writeReply, dumps, if_pos low]
  · exact (oneLine_write_iff server _).2 (errReply_isJson .null code message)

/-! ## One message -/

theorem prepared_call (params : Entries) : (prepared params).1 = callOf params := by
  unfold prepared callOf
  split <;> rfl

/-- The arguments of the message are as they were. -/
theorem prepared_objects {params entries : Entries} (h : get "arguments" params = .dict entries) :
    (prepared params).2[0]? = some entries := by
  unfold prepared
  rw [h]
  rfl

variable (server) in
theorem toolsCall_calls (s : σ) (id : Loaded) (params : Entries) :
    (toolsCall server s id params).calls = [callOf params] ∧
      (toolsCall server s id params).objects = (prepared params).2 := by
  rw [← prepared_call]
  simp only [toolsCall]
  split
  · exact ⟨rfl, rfl⟩
  · split <;> exact ⟨rfl, rfl⟩

variable (server) in
theorem content_fits (written : Text) (ran : Bool) :
    (content written ran).isJson = true ∧ (content written ran).nesting + 1 ≤ server.limit := by
  constructor
  · cases ran <;> rfl
  · have roomy := server.roomy
    have low : (content written ran).nesting = 3 := rfl
    omega

theorem handle_notification (s : σ) {msg : Loaded} (message : isMessage msg = true)
    (no_id : requestId msg = none) : handle server s msg = ⟨s, [], [], .ok none⟩ := by
  have null : (get "id" msg.entries).isNull = true := by
    by_contra some_
    rw [requestId, message, Bool.eq_false_iff.2 some_] at no_id
    cases no_id
  cases msg with
  | dict entries =>
      have spoken : (get "jsonrpc" entries).isText "2.0" = true := message
      have absent : (get "id" entries).isNull = true := null
      simp [handle, spoken, absent]
  | _ => cases message

theorem handle_other (s : σ) {msg : Loaded} (message : isMessage msg = false) :
    handle server s msg = ⟨s, [], [], .ok (some (errReply .null invalidRequest
      (text "not a JSON-RPC 2.0 message")))⟩ := by
  cases msg with
  | dict entries =>
      have spoken : (get "jsonrpc" entries).isText "2.0" = false := message
      simp [handle, spoken]
  | _ => rfl

theorem of_requestId {msg id : Loaded} (h : requestId msg = some id) :
    ∃ entries, msg = .dict entries ∧ (get "jsonrpc" entries).isText "2.0" = true ∧
      (get "id" entries).isNull = false ∧ get "id" entries = id := by
  unfold requestId at h
  split at h
  · rename_i both
    obtain ⟨message, some_⟩ := Bool.and_eq_true_iff.1 both
    cases msg with
    | dict entries =>
        exact ⟨entries, rfl, message, (Bool.not_eq_true' _).mp some_, Option.some.inj h⟩
    | _ => cases message
  · cases h

theorem isText_unique {v : Loaded} {a b : String} (ha : v.isText a = true)
    (hb : v.isText b = true) : text a = text b := by
  cases v with
  | str s => exact (beq_iff_eq.1 ha).symm.trans (beq_iff_eq.1 hb)
  | _ => cases ha

theorem asked_request {entries : Entries} {id : Loaded}
    (request : requestId (.dict entries) = some id) : asked (.dict entries) =
      if (get "method" entries).isText "tools/call" then [callOf (get "params" entries).entries]
      else [] := by
  unfold asked
  rw [request]
  rfl

/-- What a request of another method asks for. -/
theorem isText_other {v : Loaded} {a b : String} (ha : v.isText a = true) (ne : text a ≠ text b) :
    v.isText b = false := by
  cases hb : v.isText b with
  | false => rfl
  | true => exact absurd (isText_unique ha hb) ne

/-- A request that was handled, and what it asked for. -/
structure Handles (server : Server σ) (msg id : Loaded) (handled : Handled σ) : Prop where
  reply : ∃ reply, replyTo msg handled.reply = some reply ∧ RepliesTo server id reply
  calls : handled.calls = asked msg
  unchanged : ∀ entries, asked msg ≠ [] →
    get "arguments" (get "params" msg.entries).entries = .dict entries →
      handled.objects[0]? = some entries

theorem Handles.quietly {s : σ} {msg id : Loaded} {result : Except Exception (Option Loaded)}
    (none_ : asked msg = [])
    (reply : ∃ reply, replyTo msg result = some reply ∧ RepliesTo server id reply) :
    Handles server msg id ⟨s, [], [], result⟩ :=
  ⟨reply, none_.symm, fun _ some_ => absurd none_ some_⟩

/-- A request is answered under its own `id`, and makes the calls it asks for. -/
theorem answer_handles (s : σ) {entries : Entries} {id : Loaded}
    (request : requestId (.dict entries) = some id) (same : get "id" entries = id) :
    Handles server (.dict entries) id (answer server s entries) := by
  have asks := asked_request request
  have roomy := server.roomy
  have raised : ∀ e : Exception, ∃ reply, replyTo (.dict entries) (.error e) = some reply ∧
      RepliesTo server id reply := by
    intro e
    rw [← same]
    exact ⟨_, rfl, repliesTo_err _ _ _⟩
  unfold answer
  rw [same]
  split_ifs with initialize_ list_ call
  · rw [isText_other initialize_ (by decide +kernel)] at asks
    refine Handles.quietly asks ⟨_, rfl, repliesTo_ok _ rfl ?_⟩
    show 4 ≤ server.limit
    omega
  · rw [isText_other list_ (by decide +kernel)] at asks
    split
    · exact Handles.quietly asks (raised _)
    · rename_i tools listed
      obtain ⟨json, low⟩ := server.published tools listed
      refine Handles.quietly asks ⟨_, rfl, repliesTo_ok _ ?_ ?_⟩
      · show (tools.isJson && true) = true
        rw [json]
        rfl
      · show max tools.nesting 0 + 1 + 1 ≤ server.limit
        omega
  · rw [call] at asks
    obtain ⟨calls, objects⟩ := toolsCall_calls server s id (get "params" entries).entries
    refine ⟨?_, calls.trans asks.symm, ?_⟩
    · simp only [toolsCall]
      split
      · exact raised _
      · split
        · exact raised _
        · exact ⟨_, rfl, repliesTo_ok _ (content_fits server _ _).1
            (content_fits server _ _).2⟩
    · intro arguments _ held
      rw [objects]
      exact prepared_objects held
  · rw [Bool.eq_false_iff.2 call] at asks
    split
    · exact Handles.quietly asks (raised _)
    · exact Handles.quietly asks ⟨_, rfl, repliesTo_err _ _ _⟩

variable (server) in
theorem handle_request (s : σ) {msg id : Loaded} (request : requestId msg = some id) :
    Handles server msg id (handle server s msg) := by
  obtain ⟨entries, rfl, spoken, some_, same⟩ := of_requestId request
  have answered : handle server s (.dict entries) = answer server s entries := by
    simp [handle, spoken, some_]
  rw [answered]
  exact answer_handles s request same

/-! ## One line -/

theorem messageOn_ok {line : Text} {msg : Loaded} (some_ : strip line ≠ [])
    (read : server.loads (strip line) = .ok msg) : messageOn server line = some msg := by
  rw [messageOn, if_neg some_, read]

theorem serveLine_ok (s : σ) {line : Text} {msg : Loaded} (some_ : strip line ≠ [])
    (read : server.loads (strip line) = .ok msg) : serveLine server s line =
      ⟨(handle server s msg).world, (handle server s msg).calls, (handle server s msg).objects,
        writeReply server (replyTo msg (handle server s msg).reply)⟩ := by
  rw [serveLine, if_neg some_, read]

/-- A line without a message on it that says nothing, or an error. -/
theorem answered_none {line : Text} (s : σ) {written : Except Exception (Option Text)}
    (none_ : messageOn server line = none)
    (silent : written = .ok none ∨ ∃ code message,
      written = .ok (some (write server.floatText (errReply .null code message) ++ [chr 10])) ∧
      OneLine (write server.floatText (errReply .null code message) ++ [chr 10])) :
    Answered server line ⟨s, [], [], written⟩ := by
  refine ⟨?_, ?_, fun _ => silent, ?_, ?_⟩
  · intro msg held
    rw [none_] at held
    cases held
  · intro msg held
    rw [none_] at held
    cases held
  · rw [none_]
    rfl
  · intro msg entries held
    rw [none_] at held
    cases held

/-- A line that is not a request asks for nothing. -/
theorem asked_none {msg : Loaded} (no_id : requestId msg = none) : asked msg = [] := by
  unfold asked
  rw [no_id]
  rfl

/-- A line with a message that is not a request is answered. -/
theorem answered_quiet {line : Text} {msg : Loaded} (s : σ)
    (held : messageOn server line = some msg) (no_id : requestId msg = none)
    {written : Except Exception (Option Text)}
    (silent : isMessage msg = true → written = .ok none)
    (error_ : isMessage msg = false → ∃ code message,
      written = .ok (some (write server.floatText (errReply .null code message) ++ [chr 10])) ∧
      OneLine (write server.floatText (errReply .null code message) ++ [chr 10])) :
    Answered server line ⟨s, [], [], written⟩ := by
  refine ⟨?_, ?_, ?_, ?_, ?_⟩
  · intro other same some_
    obtain rfl := Option.some.inj (held.symm.trans same)
    rw [no_id] at some_
    cases some_
  · intro other same message _
    obtain rfl := Option.some.inj (held.symm.trans same)
    exact silent message
  · intro none_
    exact .inr (error_ (none_ msg held))
  · rw [held]
    exact (asked_none no_id).symm
  · intro other entries same some_
    obtain rfl := Option.some.inj (held.symm.trans same)
    exact absurd (asked_none no_id) some_

theorem isMessage_of_requestId {msg id : Loaded} (request : requestId msg = some id) :
    isMessage msg = true := by
  obtain ⟨entries, rfl, spoken, _, _⟩ := of_requestId request
  exact spoken

/-- A request is answered exactly when its `id` can be written. -/
theorem answered_request_iff {line : Text} {msg id : Loaded}
    (held : messageOn server line = some msg) (request : requestId msg = some id)
    {handled : Handled σ} (h : Handles server msg id handled) :
    Answered server line ⟨handled.world, handled.calls, handled.objects,
        writeReply server (replyTo msg handled.reply)⟩ ↔
      id.isJson = true ∧ id.nesting < server.limit := by
  obtain ⟨reply, replied, fits⟩ := h.reply
  have message := isMessage_of_requestId request
  rw [replied, ← fits.written_iff]
  constructor
  · intro answered
    exact answered.request msg held (by rw [request]; rfl)
  · rintro ⟨out, written, line_⟩
    refine ⟨?_, ?_, ?_, ?_, ?_⟩
    · exact fun _ _ _ => ⟨out, written, line_⟩
    · intro other same _ none_
      obtain rfl := Option.some.inj (held.symm.trans same)
      rw [request] at none_
      cases none_
    · intro none_
      exact absurd message (Bool.eq_false_iff.1 (none_ msg held))
    · rw [held]
      exact h.calls
    · intro other entries same asks arguments
      obtain rfl := Option.some.inj (held.symm.trans same)
      exact h.unchanged entries asks arguments

variable (server) in
/-- Whatever the state of the world, a line is answered exactly when it endures. -/
theorem answered_iff (s : σ) (line : Text) :
    Answered server line (serveLine server s line) ∧
        (∃ written, (serveLine server s line).written = .ok written) ↔ Endures server line := by
  by_cases blank : strip line = []
  · have none_ : messageOn server line = none := if_pos blank
    have turn : serveLine server s line = ⟨s, [], [], .ok none⟩ := if_pos blank
    rw [turn]
    exact ⟨fun _ some_ => absurd blank some_,
      fun _ => ⟨answered_none s none_ (.inl rfl), none, rfl⟩⟩
  · cases read : server.loads (strip line) with
    | error e =>
        have none_ : messageOn server line = none := by
          rw [messageOn, if_neg blank, read]
        cases e with
        | recursion =>
            have turn : serveLine server s line = ⟨s, [], [], .error recursionError⟩ := by
              rw [serveLine, if_neg blank, read]
            rw [turn]
            constructor
            · rintro ⟨_, written, same⟩
              cases same
            · intro endures
              exact absurd read (endures blank).1
        | value message =>
            have turn : serveLine server s line = ⟨s, [], [], writeReply server
                (some (errReply .null parseError (text "could not parse: " ++ message)))⟩ := by
              rw [serveLine, if_neg blank, read]
            have written := err_written server parseError
              (text "could not parse: " ++ message)
            rw [turn]
            constructor
            · intro _ _
              rw [read]
              refine ⟨fun same => (nomatch same), ?_⟩
              intro msg id same
              cases same
            · exact fun _ => ⟨answered_none s none_ (.inr ⟨_, _, written⟩), _, written.1⟩
    | ok msg =>
        have held := messageOn_ok blank read
        have endures_iff : Endures server line ↔ ∀ id, requestId msg = some id →
            id.isJson = true ∧ id.nesting < server.limit := by
          constructor
          · exact fun endures id request => (endures blank).2 msg id read request
          · intro fits _
            rw [read]
            refine ⟨fun same => (nomatch same), ?_⟩
            intro other id same request
            cases same
            exact fits id request
        rw [serveLine_ok s blank read, endures_iff]
        cases request : requestId msg with
        | some id =>
            have handles := handle_request server s request
            constructor
            · rintro ⟨answered, _⟩ other same
              cases same
              exact (answered_request_iff held request handles).1 answered
            · intro fits
              have answered := (answered_request_iff held request handles).2 (fits id rfl)
              obtain ⟨out, written, _⟩ := answered.request msg held (by rw [request]; rfl)
              exact ⟨answered, _, written⟩
        | none =>
            refine ⟨fun _ id same => (nomatch same), fun _ => ?_⟩
            cases message : isMessage msg with
            | true =>
                rw [handle_notification s message request]
                exact ⟨answered_quiet s held request (fun _ => rfl)
                  (fun other => absurd message (Bool.eq_false_iff.1 other)), _, rfl⟩
            | false =>
                have written := err_written server invalidRequest
                  (text "not a JSON-RPC 2.0 message")
                rw [handle_other s message]
                exact ⟨answered_quiet s held request
                  (fun other => absurd other (Bool.eq_false_iff.1 message))
                  (fun _ => ⟨_, _, written⟩), _, written.1⟩

end Owed

/-! ## All the lines -/

/-- A conversation reads every line and answers each as it owes, exactly when each line can be
read and its `id` written back. -/
theorem serveStreams_conversed_iff {σ : Type} (server : Server σ) (s : σ) (lines : List Text) :
    Conversed server lines (serveStreams server s lines) ↔
      ∀ line ∈ lines, Endures server line := by
  induction lines generalizing s with
  | nil => exact ⟨fun _ _ mem => absurd mem List.not_mem_nil, fun _ => ⟨rfl, List.Forall₂.nil⟩⟩
  | cons line rest ih =>
      have step := answered_iff server s line
      unfold serveStreams
      cases written : (serveLine server s line).written with
      | error e =>
          simp only [written]
          constructor
          · exact fun conversed => nomatch conversed.ended
          · intro endures
            obtain ⟨_, out, same⟩ := step.2 (endures line List.mem_cons_self)
            rw [written] at same
            cases same
      | ok out =>
          simp only [written]
          constructor
          · rintro ⟨ended, answered⟩
            obtain ⟨first, more⟩ := List.forall₂_cons.1 answered
            have endures := (ih (serveLine server s line).world).1 ⟨ended, more⟩
            intro one mem
            obtain rfl | mem := List.mem_cons.1 mem
            · exact step.1 ⟨first, out, written⟩
            · exact endures one mem
          · intro endures
            have more := (ih (serveLine server s line).world).2 fun one mem =>
              endures one (List.mem_cons_of_mem line mem)
            exact ⟨more.ended, List.Forall₂.cons (step.2 (endures line List.mem_cons_self)).1
              more.answered⟩

/-! ## A line that is nested too deep -/

theorem digits_zero : Digits [chr 48] := by
  refine ⟨List.cons_ne_nil _ _, fun c mem => ?_⟩
  obtain rfl := List.mem_singleton.1 mem
  exact ⟨le_refl 48, by decide⟩

theorem zero_number : Numbers fun _ _ => [chr 48] :=
  fun _ _ =>
    ⟨⟨[], [chr 48], [], [], rfl, .inl rfl, ⟨digits_zero, fun _ => rfl⟩, .inl rfl, .inl rfl⟩⟩

theorem four_le : 4 ≤ 1000 := by decide

theorem none_published (v : Loaded) (h : (.ok (.list []) : Except Exception Loaded) = .ok v) :
    v.isJson = true ∧ v.nesting + 2 ≤ 1000 := by
  cases h
  exact ⟨rfl, show 1 + 2 ≤ 1000 by decide⟩

/-- Of a run of opening brackets, as `json.loads` has it: more than a thousand are too many, and
fewer are a list that never closes. -/
def loadsBrackets (line : Text) : Except LoadsError Loaded :=
  if 1000 < (line.takeWhile fun c => c == chr 91).length then .error .recursion
  else .error (.value (text "Expecting value"))

def bracketServer : Server Unit where
  loads := loadsBrackets
  floatText := fun _ _ => [chr 48]
  limit := 1000
  listing := .ok (.list [])
  methodRepr := fun _ => .ok (text "None")
  dispatch := fun s _ => (s, .ok ⟨true, .ok (text "\x7b\x7d")⟩)
  number := zero_number
  roomy := four_le
  published := none_published

/-- A hundred thousand opening brackets. -/
def deepLine : Text := List.replicate 100000 (chr 91)

theorem strip_brackets (n : Nat) :
    strip (List.replicate n (chr 91)) = List.replicate n (chr 91) := by
  have first : List.dropWhile (fun c => Python.isSpace (Char.ofNat c.val))
      (List.replicate n (chr 91)) = List.replicate n (chr 91) := by
    refine List.dropWhile_eq_self_iff.2 fun some_ => ?_
    rw [List.getElem_replicate]
    decide
  have last : List.rdropWhile (fun c => Python.isSpace (Char.ofNat c.val))
      (List.replicate n (chr 91)) = List.replicate n (chr 91) := by
    refine List.rdropWhile_eq_self_iff.2 fun some_ => ?_
    rw [List.getLast_replicate]
    decide
  show List.rdropWhile _ (List.dropWhile _ (List.replicate n (chr 91))) = _
  rw [first, last]

theorem strip_deepLine : strip deepLine = deepLine := strip_brackets 100000

theorem deepLine_ne_nil : deepLine ≠ [] := by
  intro none_
  have zero : 100000 = 0 := (List.replicate_eq_nil_iff (chr 91)).1 none_
  exact absurd zero (by decide)

theorem loads_deepLine : loadsBrackets deepLine = .error .recursion := by
  have all : deepLine.takeWhile (fun c => c == chr 91) = deepLine :=
    List.takeWhile_eq_self_iff.2 fun c mem => by
      rw [List.eq_of_mem_replicate mem]
      exact beq_self_eq_true _
  unfold loadsBrackets
  rw [all, deepLine, List.length_replicate, if_pos (by decide)]

theorem ends_at {line : Text} (blank : strip line ≠ [])
    (read : loadsBrackets (strip line) = .error .recursion) :
    ¬Conversed bracketServer [line] (serveStreams bracketServer () [line]) := by
  have deep : bracketServer.loads (strip line) = .error .recursion := read
  have turn : serveLine bracketServer () line = ⟨(), [], [], .error recursionError⟩ := by
    rw [serveLine, if_neg blank, deep]
  intro conversed
  have ended := conversed.ended
  simp only [serveStreams, turn] at ended
  cases ended

/-- One line nested too deep ends the conversation. -/
theorem deep_line_ends :
    ¬Conversed bracketServer [deepLine] (serveStreams bracketServer () [deepLine]) := by
  apply ends_at
  · rw [strip_deepLine]
    exact deepLine_ne_nil
  · rw [strip_deepLine, loads_deepLine]

end Hx.Tools.Mcp
