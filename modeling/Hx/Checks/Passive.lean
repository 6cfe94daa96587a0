import Hx.Issue.HttpText

/-!
# Three passive checks

A passive check reads what a surface's exchanges stored and answers through
`_http.verdict`. Two of the checks read every response there is;
`security_headers` stops at the first document that lacks something.
-/

namespace Hx.Checks

open Hx.Python Hx.Checks.OpenRedirect Hx.Issue.HttpText

/-- One name for the proof, which Lean would make up one for in each definition below. -/
local instance lawful_text : LawfulBEq (List Char) := inferInstance

/-- `exchange.outcome`. -/
inductive ExchangeOutcome where
  | ok
  | timeout
  | connRefused
  | dnsError
  | tlsError
  | scopeDenied
  | rateLimited
  | bridgeLost
  | truncated
  | statusUnreadable
  deriving DecidableEq

def ExchangeOutcome.text : ExchangeOutcome → String
  | .ok => "ok"
  | .timeout => "timeout"
  | .connRefused => "conn_refused"
  | .dnsError => "dns_error"
  | .tlsError => "tls_error"
  | .scopeDenied => "scope_denied"
  | .rateLimited => "rate_limited"
  | .bridgeLost => "bridge_lost"
  | .truncated => "truncated"
  | .statusUnreadable => "status_unreadable"

/-- The columns of an `ExchangeRow` the passive checks read. -/
structure ExchangeRow where
  id : String
  named : id ≠ ""
  url : String
  outcome : ExchangeOutcome
  respBlob : Option String

theorem ExchangeRow.eq_iff (x y : ExchangeRow) : x = y ↔
    x.id = y.id ∧ x.url = y.url ∧ x.outcome = y.outcome ∧ x.respBlob = y.respBlob := by
  cases x
  cases y
  simp

instance : DecidableEq ExchangeRow := fun x y =>
  decidable_of_iff' _ (ExchangeRow.eq_iff x y)

/-- `BlobStore.get`: nothing where it raises. -/
abbrev Blobs := String → Option Bytes

/-- A response that could be read, in whole or in part. -/
abbrev Entry := ExchangeRow × Bytes

structure Evidence where
  entries : List Entry
  gaps : List String

/-- What `blobs.get` hands back for a row; nothing where there is no blob to ask for. -/
def readable (blobs : Blobs) (row : ExchangeRow) : Option Bytes :=
  match row.respBlob with
  | none => none
  | some digest => if digest = "" then none else blobs digest

/-- What the row's evidence lacks, the outcome before the blob. -/
def gap (blobs : Blobs) (row : ExchangeRow) : Option String :=
  if row.outcome ≠ .ok then some s!"{row.id}: outcome={row.outcome.text}"
  else if row.respBlob = none ∨ row.respBlob = some "" then
    some s!"{row.id}: no response was stored"
  else if readable blobs row = none then some s!"{row.id}: response blob could not be read"
  else none

/-- `_fetch`. -/
def fetch (blobs : Blobs) (rows : List ExchangeRow) : Evidence where
  entries := rows.filterMap fun row => (readable blobs row).map fun raw => (row, raw)
  gaps := rows.filterMap (gap blobs)

def Evidence.map (seen : Evidence) (part : Bytes → Bytes) : Evidence :=
  { seen with entries := seen.entries.map fun entry => (entry.1, part entry.2) }

def bodies (blobs : Blobs) (rows : List ExchangeRow) : Evidence :=
  (fetch blobs rows).map fun raw => (splitHeadBody raw).2

def responses (blobs : Blobs) (rows : List ExchangeRow) : Evidence :=
  (fetch blobs rows).map fun raw => (splitHeadBody raw).1

def unread (gaps : List String) : String :=
  "no response could be read for this surface" ++ detail gaps

def incomplete (gaps : List String) : String :=
  "this surface's evidence is incomplete, so nothing found here separates `tested, clean` " ++
    "from `never reached`" ++ detail gaps

theorem unread_ne (gaps : List String) : unread gaps ≠ "" := by
  intro empty
  have sentence := (String.append_eq_empty_iff.1 empty).1
  simp at sentence

theorem incomplete_ne (gaps : List String) : incomplete gaps ≠ "" := by
  intro empty
  have sentence := (String.append_eq_empty_iff.1 empty).1
  simp at sentence

/-- `_http.verdict`: a candidate wins over a gap, and a gap takes `considered` from it. -/
def Evidence.verdict (seen : Evidence) (candidates : List Candidate)
    (considered : List IssueType) : Verdict :=
  if found : candidates ≠ [] then
    .finding candidates found (if seen.gaps ≠ [] then [] else considered)
  else if seen.entries = [] then .inconclusive (unread seen.gaps) (unread_ne seen.gaps)
  else if seen.gaps ≠ [] then .inconclusive (incomplete seen.gaps) (incomplete_ne seen.gaps)
  else .clean considered

theorem evidenced_row (row : ExchangeRow) : [row.id] ≠ [] ∧ "" ∉ [row.id] :=
  ⟨List.cons_ne_nil _ _, by simpa using row.named.symm⟩

/-- `row.url` starts with `https://`. -/
def https (row : ExchangeRow) : Bool := "https://".toList.isPrefixOf (lower row.url.toList)

/-- `http_text.header_names`. -/
def headerNames (head : Bytes) : List (List Char) :=
  (headerLines head).filterMap fun line =>
    match partition 58 line with
    | (key, some _) => some (strip (latin1 key))
    | (_, none) => none

/-- `" ".join(texts)`. -/
def spaced (texts : List (List Char)) : List Char := List.intercalate [' '] texts

/-! ## Security headers -/

namespace SecurityHeaders

/-- `_DOCUMENT_TYPES`. -/
def documentTypes : List String := ["text/html", "application/xhtml+xml"]

/-- `_HeaderSpec`. -/
structure HeaderSpec where
  issueTypeId : IssueType
  cwe : String
  severity : Severity
  applies : Bool → Bool
  present : List (List Char) → List Char → Bool

def contentTypeOptions : HeaderSpec where
  issueTypeId := ⟨"missing-content-type-options", by decide⟩
  cwe := "CWE-16"
  severity := .low
  applies _ := true
  present names _ := "x-content-type-options".toList ∈ names

/-- Two headers answer the framing question. -/
def frameProtection : HeaderSpec where
  issueTypeId := ⟨"missing-frame-protection", by decide⟩
  cwe := "CWE-1021"
  severity := .medium
  applies _ := true
  present names csp :=
    "x-frame-options".toList ∈ names || contains "frame-ancestors".toList csp

def hsts : HeaderSpec where
  issueTypeId := ⟨"missing-hsts", by decide⟩
  cwe := "CWE-319"
  severity := .low
  applies secure := secure
  present names _ := "strict-transport-security".toList ∈ names

/-- `_HEADERS`. -/
def headers : List HeaderSpec := [contentTypeOptions, frameProtection, hsts]

def isDocument (head : Bytes) : Bool :=
  let ctype := lower (spaced (headerValues head "content-type"))
  documentTypes.any fun t => contains t.toList ctype

def applicable (row : ExchangeRow) : List HeaderSpec :=
  headers.filter fun spec => spec.applies (https row)

def missing (row : ExchangeRow) (head : Bytes) : List HeaderSpec :=
  let names := (headerNames head).map lower
  let csp := spaced (headerValues head "content-security-policy")
  (applicable row).filter fun spec => !spec.present names csp

def candidate (row : ExchangeRow) (spec : HeaderSpec) : Candidate where
  issueTypeId := spec.issueTypeId
  severity := spec.severity
  confidence := .certain
  insertion := none
  exchangeIds := [row.id]
  evidenced := evidenced_row row
  scopeLevel := .surface
  cwe := some spec.cwe

/-- The loop: the candidates, and the types it considered on the way to them. -/
def documents : List Entry → List Candidate × List IssueType
  | [] => ([], [])
  | (row, head) :: rest =>
      if !isDocument head then documents rest
      else
        let considered := (applicable row).map (·.issueTypeId)
        if missing row head ≠ [] then ((missing row head).map (candidate row), considered)
        else ((documents rest).1, considered ++ (documents rest).2)

def onSurface (blobs : Blobs) (rows : List ExchangeRow) : Verdict :=
  let seen := responses blobs rows
  let read := documents seen.entries
  seen.verdict read.1 read.2

end SecurityHeaders

/-! ## Cookie flags -/

namespace CookieFlags

/-- `_SAFE`. -/
def safe (x : UInt8) : Bool :=
  (48 ≤ x && x ≤ 57) || (65 ≤ x && x ≤ 90) || (97 ≤ x && x ≤ 122) || x == 45 || x == 46 ||
  x == 95

/-- `_encode_name`. -/
def encodeName (name : List Char) : String :=
  String.ofList <| (String.ofList name).toUTF8.data.toList.flatMap fun x =>
    if safe x then [Char.ofNat x.toNat]
    else ['%', hexDigit (x.toNat / 16), hexDigit (x.toNat % 16)]

theorem cookie_ne (rest : String) : "cookie-" ++ rest ≠ "" := by
  intro empty
  have sentence := (String.append_eq_empty_iff.1 empty).1
  simp at sentence

/-- `_issue_type`. -/
def issueType (name : List Char) : IssueType :=
  ⟨"cookie-" ++ (encodeName name ++ "-flags"), cookie_ne _⟩

def name (cookie : List Char) : List Char := strip (partition '=' cookie).1

def attrs (cookie : List Char) : List (List Char) :=
  ((cookie.splitOn ';').drop 1).map fun a => lower (partition '=' (strip a)).1

/-- The flags and the attributes that set them. -/
def flags : List (String × String) :=
  [("HttpOnly", "httponly"), ("SameSite", "samesite"), ("Secure", "secure")]

/-- The flags a cookie lacks; `Secure` is asked for over TLS only. -/
def missing (row : ExchangeRow) (cookie : List Char) : List String :=
  (flags.filter fun flag =>
    decide (flag.2.toList ∉ attrs cookie) && (flag.1 != "Secure" || https row)).map (·.1)

def candidate (row : ExchangeRow) (cookie : List Char) : Candidate where
  issueTypeId := issueType (name cookie)
  severity := if "HttpOnly" ∈ missing row cookie then .medium else .low
  confidence := .certain
  insertion := none
  exchangeIds := [row.id]
  evidenced := evidenced_row row
  scopeLevel := .host
  cwe := some (if "HttpOnly" ∈ missing row cookie then "CWE-1004" else "CWE-614")

def setCookies (head : Bytes) : List (List Char) := headerValues head "set-cookie"

/-- The cookies of a response that lack a flag. -/
def flagless (row : ExchangeRow) (head : Bytes) : List (List Char) :=
  (setCookies head).filter fun cookie => missing row cookie ≠ []

def onSurface (blobs : Blobs) (rows : List ExchangeRow) : Verdict :=
  let seen := responses blobs rows
  seen.verdict
    (seen.entries.flatMap fun entry => (flagless entry.1 entry.2).map (candidate entry.1))
    (seen.entries.flatMap fun entry => (setCookies entry.2).map fun c => issueType (name c))

end CookieFlags

/-! ## Secrets -/

/-- A pattern tried at one place, behind the byte before it: the places it may end at. -/
abbrev Pattern := Option UInt8 → Bytes → List (Option UInt8 × Bytes)

namespace Pattern

def isDigit (x : UInt8) : Bool := 48 ≤ x && x ≤ 57

def isUpper (x : UInt8) : Bool := 65 ≤ x && x ≤ 90

def isLower (x : UInt8) : Bool := 97 ≤ x && x ≤ 122

/-- `\w` of a `bytes` pattern. -/
def isWord (x : UInt8) : Bool := isDigit x || isUpper x || isLower x || x == 95

/-- `\b`. -/
def boundary : Pattern := fun before rest =>
  if before.any isWord != rest.head?.any isWord then [(before, rest)] else []

/-- One byte of a class. -/
def one (p : UInt8 → Bool) : Pattern
  | _, [] => []
  | _, x :: rest => if p x then [(some x, rest)] else []

/-- As many of a class as there are, or fewer. -/
def many (p : UInt8 → Bool) : Pattern
  | before, [] => [(before, [])]
  | before, x :: rest => (before, x :: rest) :: if p x then many p (some x) rest else []

/-- One after the other. -/
def seq : List Pattern → Pattern
  | [], before, rest => [(before, rest)]
  | p :: ps, before, rest => (p before rest).flatMap fun place => seq ps place.1 place.2

def text (s : String) : Pattern := seq ((ascii s).map fun x => one (· == x))

def alternatives (ps : List Pattern) : Pattern := fun before rest =>
  ps.flatMap fun p => p before rest

def times (n : Nat) (p : UInt8 → Bool) : Pattern := seq (List.replicate n (one p))

/-- `pattern.search`, behind a byte. -/
def search (p : Pattern) : Option UInt8 → Bytes → Bool
  | before, [] => p before [] != []
  | before, x :: rest => p before (x :: rest) != [] || search p (some x) rest

end Pattern

namespace SecretInResponse

open Pattern

structure Secret where
  pattern : Pattern
  severity : Severity
  cwe : String
  issueTypeId : IssueType

def privateKey : Secret where
  pattern := seq [text "-----BEGIN ",
    alternatives [text "RSA ", text "EC ", text "OPENSSH ", text "PGP ", text ""],
    text "PRIVATE KEY-----"]
  severity := .high
  cwe := "CWE-312"
  issueTypeId := ⟨"private-key-in-response", by decide⟩

def awsAccessKey : Secret where
  pattern := seq [boundary, alternatives [text "AKIA", text "ASIA"],
    times 16 fun x => Pattern.isDigit x || isUpper x, boundary]
  severity := .high
  cwe := "CWE-312"
  issueTypeId := ⟨"aws-access-key-in-response", by decide⟩

def githubToken : Secret where
  pattern := seq [boundary, text "ghp_", times 36 fun x =>
    isUpper x || isLower x || Pattern.isDigit x, boundary]
  severity := .high
  cwe := "CWE-312"
  issueTypeId := ⟨"github-token-in-response", by decide⟩

def slackByte (x : UInt8) : Bool := isUpper x || isLower x || Pattern.isDigit x || x == 45

def slackToken : Secret where
  pattern := seq [boundary, text "xox", one fun x => x ∈ ascii "baprs", text "-",
    times 10 slackByte, many slackByte, boundary]
  severity := .high
  cwe := "CWE-312"
  issueTypeId := ⟨"slack-token-in-response", by decide⟩

/-- `_PATTERNS`. -/
def patterns : List Secret := [privateKey, awsAccessKey, githubToken, slackToken]

/-- `_ISSUE_TYPES`. -/
def issueTypes : List IssueType := patterns.map (·.issueTypeId)

/-- The secrets a body has the shape of. -/
def disclosed (body : Bytes) : List Secret :=
  patterns.filter fun secret => secret.pattern.search none body

def candidate (row : ExchangeRow) (secret : Secret) : Candidate where
  issueTypeId := secret.issueTypeId
  severity := secret.severity
  confidence := .firm
  insertion := none
  exchangeIds := [row.id]
  evidenced := evidenced_row row
  scopeLevel := .surface
  cwe := some secret.cwe

def onSurface (blobs : Blobs) (rows : List ExchangeRow) : Verdict :=
  let seen := bodies blobs rows
  seen.verdict (seen.entries.flatMap fun entry => (disclosed entry.2).map (candidate entry.1))
    issueTypes

end SecretInResponse

end Hx.Checks
