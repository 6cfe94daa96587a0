import Hx.Policy.Decide

/-!
# From a send frame to the wire

`parse` reads a send frame's header and body into the request the policy decides about;
`compose` serialises that request, with an identity's header first when there is one;
`secureOf` and `portOf` read the connection's scheme and port off its URL. The adapter
that opens the connection uses these two and the request's host.

`Character.toUpperCase` is a table of the JVM that no result depends on: `upper`.
-/

namespace Hx.Send

open Hx.Java Hx.Bridge Hx.Policy

/-! ## Bytes and characters -/

/-- `new String(body, ISO_8859_1)`. -/
def latin1 (bytes : List UInt8) : JString := bytes.map fun b => Fin.ofNat 65536 b.toNat

/-- A character of ISO-8859-1 as its byte, any other as a `?`. -/
def latin1Byte (c : JChar) : UInt8 := if c.val < 0x100 then UInt8.ofNat c.val else 0x3f

/-- `String.getBytes(ISO_8859_1)`; a surrogate pair is one character. -/
def latin1Bytes : JString → List UInt8
  | [] => []
  | [c] => [latin1Byte c]
  | c :: next :: rest =>
      if isHighSurrogate c && isLowSurrogate next then 0x3f :: latin1Bytes rest
      else latin1Byte c :: latin1Bytes (next :: rest)

def cr : JChar := 0x0d
def lf : JChar := 0x0a
def space : JChar := ch ' '
def colon : JChar := ch ':'
def question : JChar := ch '?'

/-- `String.strip`. -/
def strip (s : JString) : JString := (s.dropWhile isWhitespace).rdropWhile isWhitespace

/-- `split("\r\n|\n", -1)`. -/
def splitLines : JString → List JString
  | [] => [[]]
  | c :: rest =>
      if c = lf then [] :: splitLines rest
      else if c = cr ∧ rest.head? = some lf then [] :: (splitLines rest).tail
      else (splitLines rest).modifyHead (c :: ·)

/-- `split(" ")`, which leaves trailing empty parts out. -/
def splitSpaces (line : JString) : List JString :=
  (line.splitOn space).rdropWhile List.isEmpty

def lastIndexOf (c : JChar) (s : JString) : Option Nat :=
  (s.reverse.idxOf? c).map fun k => s.length - 1 - k

/-! ## The fields of a send frame -/

/-- `target_host`, when it is a string that is not empty. -/
def targetHost (header : Header) : Option JString :=
  match header.get (js "target_host") with
  | some (.string host) => if host.isEmpty then none else some host
  | _ => none

def tlsOf (header : Header) : Bool := header.get (js "tls") == some (.bool true)

def targetPort (header : Header) : Int64 :=
  match header.get (js "target_port") with
  | some (.long p) => p
  | _ => if tlsOf header then 443 else 80

/-! ## Parsing -/

/-- Where the head ends and where the body starts. -/
def headOf (text : JString) : Nat × Nat :=
  match indexOf [cr, lf, cr, lf] text, indexOf [lf, lf] text with
  | some crlf, some lf => if crlf ≤ lf then (crlf, crlf + 4) else (lf, lf + 2)
  | some crlf, none => (crlf, crlf + 4)
  | none, some lf => (lf, lf + 2)
  | none, none => (text.length, text.length)

/-- `computeIfAbsent(name, ...).add(value)`: names in the order they first appear. -/
def addHeader (name value : JString) : List (JString × List JString) → List (JString × List JString)
  | [] => [(name, [value])]
  | (n, values) :: rest =>
      if n = name then (n, values ++ [value]) :: rest else (n, values) :: addHeader name value rest

def parseHeaders (headers : List (JString × List JString)) :
    List JString → Except JString (List (JString × List JString))
  | [] => .ok headers
  | line :: rest =>
      if line.isEmpty then parseHeaders headers rest
      else match line.idxOf? colon with
        | none => .error (js "malformed header line: " ++ line)
        | some 0 => .error (js "malformed header line: " ++ line)
        | some at' =>
            let name := line.take at'
            if name ≠ strip name then .error (js "whitespace in header name: " ++ name)
            else parseHeaders (addHeader name (strip (line.drop (at' + 1))) headers) rest

def schemeText (tls : Bool) : JString := if tls then js "https" else js "http"

/-- The port in the URL, left out where it is the scheme's own. -/
def portText (tls : Bool) (port : Int64) : JString :=
  if tls && port == 443 || !tls && port == 80 then [] else colon :: js (toString port)

def urlOf (tls : Bool) (host : JString) (port : Int64) (target : JString) : JString :=
  schemeText tls ++ js "://" ++ host ++ portText tls port ++ target

/-- The request of a request line, its header lines and the body behind them. -/
def requestOf (tls : Bool) (host : JString) (port : Int64) (line : JString)
    (fields : List JString) (body : List UInt8) : Except JString HxRequest :=
  match splitSpaces line with
  | method :: target :: _ =>
      if target.head? ≠ some slash then
        .error (js "request target must be origin-form: " ++ target)
      else match parseHeaders [] fields with
        | .error e => .error e
        | .ok headers => .ok
            { method
              url := urlOf tls host port target
              host
              path := target.takeWhile fun c => c != question
              query := (target.dropWhile fun c => c != question).drop 1
              headers
              body }
  | _ => .error (js "malformed request line: " ++ line)

def parse (header : Header) (body : List UInt8) : Except JString HxRequest :=
  match targetHost header with
  | none => .error (js "send frame has no target_host")
  | some host =>
      let port := targetPort header
      if port < 1 ∨ 65535 < port then
        .error (js "target_port " ++ js (toString port) ++ js " is not a port")
      else
        let text := latin1 body
        match splitLines (text.take (headOf text).1) with
        | line :: fields =>
            if line.isEmpty then .error (js "send body has no request line")
            else requestOf (tlsOf header) host port line fields (body.drop (headOf text).2)
        | [] => .error (js "send body has no request line")

/-! ## The wire -/

def crlf : JString := [cr, lf]

def requestLine (req : HxRequest) : JString :=
  req.method ++ [space] ++ req.path ++
    (if req.query.isEmpty then [] else question :: req.query) ++ js " HTTP/1.1" ++ crlf

def headerText (headers : List (JString × List JString)) : JString :=
  headers.flatMap fun (name, values) => values.flatMap fun v => name ++ js ": " ++ v ++ crlf

def wireBytes (req : HxRequest) : List UInt8 :=
  latin1Bytes (requestLine req ++ headerText req.headers ++ crlf) ++ req.body

/-- `IdentityRegistry.Entry`. -/
structure Entry where
  id : JString
  generation : Int32
  header : JString
  value : JString
  origins : List JString

/-- `String.equalsIgnoreCase`, one character at a time. -/
def equalsIgnoreCase (U : CaseMap) (upper : JChar → JChar) (a b : JString) : Bool :=
  a.length == b.length && (a.zip b).all fun (x, y) =>
    x == y || upper x == upper y ||
      U.toLowerCase (codePoint (upper x)) == U.toLowerCase (codePoint (upper y))

/-- `name: value` as the first header, in place of any under that name. -/
def withHeaderFirst (U : CaseMap) (upper : JChar → JChar) (req : HxRequest)
    (name value : JString) : HxRequest :=
  { req with
    headers := (name, [value]) :: req.headers.filter fun h => !equalsIgnoreCase U upper h.1 name }

/-- A registered range: whose credential it holds, where it starts and where it ends. -/
structure Range where
  identityId : JString
  start : Nat
  stop : Nat
  deriving DecidableEq

/-- The request to issue, its bytes, and the ranges written into them. -/
structure Composed where
  req : HxRequest
  wire : List UInt8
  injected : List Range

/-- `Injected.register` on a set that holds no range yet. -/
def registered (id : JString) (start stop : Nat) : Except JString (List Range) :=
  if id.isEmpty then .error (js "a registered range must name an identity")
  else if stop ≤ start then
    .error (js "not a range: [" ++ numberText start ++ js "," ++ numberText stop ++ js ")")
  else .ok [⟨id, start, stop⟩]

/-- The bytes to put on the wire, or the text of a `RangeError`. -/
def compose (U : CaseMap) (upper : JChar → JChar) (req : HxRequest) :
    Option Entry → Except JString Composed
  | none => .ok ⟨req, wireBytes req, []⟩
  | some ident =>
      let carrying := withHeaderFirst U upper req ident.header ident.value
      let wire := wireBytes carrying
      let value := latin1Bytes ident.value
      let start := (latin1Bytes (requestLine carrying)).length +
        (latin1Bytes (ident.header ++ js ": ")).length
      let stop := start + value.length
      if wire.length < stop ∨ (wire.drop start).take value.length ≠ value then
        .error (js "the range computed for identity " ++ ident.id ++ js " is [" ++
          numberText start ++ js "," ++ numberText stop ++ js ") of " ++
          numberText wire.length ++ js " bytes and those bytes are not the " ++
          js "credential; refusing to issue a request whose redaction range is wrong")
      else match registered ident.id start stop with
        | .error e => .error e
        | .ok injected => .ok ⟨carrying, wire, injected⟩

/-! ## The connection -/

def secureOf (req : HxRequest) : Bool := (js "https://").isPrefixOf req.url

/-- The value of some decimal digits, or nothing where one is not a digit. -/
def decimalOf (D : DigitMap) : JString → Option Nat
  | [] => none
  | s => s.foldl (fun n c => n.bind fun n => (D.digit c).map fun d => n * 10 + d) (some 0)

/-- `Integer.parseInt`, or nothing where it throws. -/
def parseInt (D : DigitMap) (s : JString) : Option Int :=
  let signed := s.head? == some (ch '-') || s.head? == some (ch '+')
  let magnitude := decimalOf D (if signed then s.drop 1 else s)
  if s.head? == some (ch '-') then
    (magnitude.filter fun n => n ≤ 2147483648).map fun n => -(n : Int)
  else (magnitude.filter fun n => n ≤ 2147483647).map fun n => (n : Int)

def portOf (D : DigitMap) (req : HxRequest) : Except JString Int :=
  let tls := secureOf req
  let rest := req.url.drop (if tls then 8 else 7)
  let authority := rest.takeWhile fun c => c != slash
  let own : Int := if tls then 443 else 80
  match lastIndexOf colon authority with
  | none => .ok own
  | some at' =>
      if (lastIndexOf (ch ']') authority).any fun bracket => at' < bracket then .ok own
      else match parseInt D (authority.drop (at' + 1)) with
        | some port => .ok port
        | none => .error (js "no port in " ++ req.url)

end Hx.Send
