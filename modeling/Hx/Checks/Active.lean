import Hx.Checks.ProbeUtil
import Hx.Python.Url

/-!
# The five checks that answer through `_probe_util.verdict`

Each check is its filter, its loop body and the two sentences it can end in. Four of
them send one probe to a point and look for something in the response;
`sql_behaviour` sends two and compares the responses.
-/

namespace Hx.Checks

open Hx.Python

/-! ## What changed between two responses

`delta.against`: status and length always, new tokens only where both bodies are small
enough to diff. `none` is "not computed" and `some []` is "none found".
-/

/-- A character of `TOKEN`, `[A-Za-z0-9_-]`. -/
def isTokenByte (x : UInt8) : Bool :=
  (48 ≤ x && x ≤ 57) || (65 ≤ x && x ≤ 90) || (97 ≤ x && x ≤ 122) || x == 95 || x == 45

/-- `TOKEN.findall`: the runs of at least six. -/
def tokens (body : Bytes) : List Bytes :=
  (body.splitOnP fun x => !isTokenByte x).filter (6 ≤ ·.length)

/-- The tokens that are not among those seen, each once. -/
def fresh (seen : List Bytes) : List Bytes → List Bytes
  | [] => []
  | t :: rest => if t ∈ seen then fresh seen rest else t :: fresh (t :: seen) rest

def maxTokens : Nat := 20

def maxDiffBytes : Nat := 2 * 1024 * 1024

structure Delta where
  statusChanged : Bool
  lenDelta : Int
  newTokens : Option (List (List Char))
  newTokensTruncated : Bool

def against (baselineStatus : Option Int) (baselineBody : Bytes) (status : Option Int)
    (body : Bytes) : Delta :=
  let statusChanged := decide (baselineStatus ≠ status)
  let lenDelta := (body.length : Int) - baselineBody.length
  if maxDiffBytes < body.length ∨ maxDiffBytes < baselineBody.length then
    ⟨statusChanged, lenDelta, none, false⟩
  else
    let fresh := fresh (tokens baselineBody) (tokens body)
    ⟨statusChanged, lenDelta, some ((fresh.take maxTokens).map latin1),
      decide (maxTokens < fresh.length)⟩

/-! ## The checks -/

/-- The columns of a surface row the checks read. -/
structure Surface where
  pathTemplate : String
  exemplarExchangeId : Option String

/-- `base.Candidate` citing the surface's exemplar, which has to be there. -/
def cite (surface : Surface) (issueType : IssueType) (severity : Severity)
    (confidence : Confidence) (i : Insertion) (cwe payload : String) :
    Except Raised Candidate :=
  match surface.exemplarExchangeId with
  | none => .error .noExchange
  | some id =>
      if named : id = "" then .error .noExchange
      else .ok {
        issueTypeId := issueType
        severity := severity
        confidence := confidence
        insertion := some i
        exchangeIds := [id]
        evidenced := ⟨List.cons_ne_nil _ _, by simpa using Ne.symm named⟩
        cwe := some cwe
        payload := some payload }

/-- What a loop body hands on once it has its candidate. -/
def report (c : Except Raised Candidate) (gaps : List String) :
    Except Raised (Option (Candidate × List String)) :=
  match c with
  | .error raised => .error raised
  | .ok c => .ok (some (c, gaps))

/-- A name filter: whether the lower-cased name has one of the hints in it. -/
def hinted (hints : List String) (name : String) : Bool :=
  hints.any fun hint => contains hint.toList (lower name.toList)

/-- The first entry of a table whose text is in a response. -/
def firstSignature (table : List (String × String)) (r : Response) : Option (String × String) :=
  table.find? fun entry => reflected r entry.1

/-- `_match` and the candidate of a hit; both tables of signatures are read this way. -/
def matchTable (table : List (String × String)) (candidate : Except Raised Candidate)
    (r : Response) : Except Raised (Option (Candidate × List String)) :=
  match firstSignature table r with
  | none => .ok none
  | some _ => report candidate []

namespace ReflectedInput

def issueType : IssueType := ⟨"reflected-input", by decide⟩

def insertionKinds : List InsertionKind := [.query, .pathSegment, .header, .cookie]

def metaChars : String := "<>\"'"

def nothingProbeable : Sentence :=
  ⟨"no insertion point on this surface is one this check probes -- it probes cookie, header, " ++
    "path_segment, query points -- so nothing was sent and this surface was not examined for " ++
    "reflected input", by simp⟩

/-- `_for_insertion`. -/
def forInsertion (path template : String) (i : Insertion) (value : String) :
    Except Raised (Option Request) :=
  match i.kind with
  | .query => .ok (some { path := queryPath path i.name value })
  | .pathSegment =>
      .ok ((substituteSegment path template i.name (quote value)).map fun p => { path := p })
  | .header => .ok (some { path := path, headers := [(i.name, value)] })
  | .cookie => .ok (some { path := path, headers := [("Cookie", s!"{i.name}={value}")] })
  | _ => .error .unknownKind

/-- A reflected marker is a finding; a second request tells whether the wrapped one comes
back intact, and its refusal is a gap the finding survives. -/
def escalate (surface : Surface) (s : Sender) (p : Point) (r : Response) :
    Except Raised (Option (Candidate × List String)) :=
  let marker := p.minted 0
  if !reflected r marker then .ok none
  else
    let wrapped := metaChars ++ p.minted 1 ++ metaChars
    match forInsertion s.path surface.pathTemplate p.insertion wrapped with
    | .error raised => .error raised
    | .ok none => .error .typeError
    | .ok (some q) =>
        match sendOrGap s q p.insertion (p.outcome 1) with
        | .error raised => .error raised
        | .ok (again, gaps) =>
            let unescaped := again.any fun r => reflected r wrapped
            report (cite surface issueType (if unescaped then .medium else .low) .certain
              p.insertion "CWE-79" (if unescaped then wrapped else marker)) gaps

def selects (i : Insertion) : Bool := i.kind ∈ insertionKinds

def examine (surface : Surface) (s : Sender) (p : Point) : Except Raised Reading :=
  match forInsertion s.path surface.pathTemplate p.insertion (p.minted 0) with
  | .error raised => .error raised
  | .ok request => probeOnce s p request (escalate surface s p)

end ReflectedInput

namespace SqlError

def issueType : IssueType := ⟨"sql-error-disclosure", by decide⟩

def insertionKinds : List InsertionKind := [.query, .pathSegment]

def signatures : List (String × String) :=
  [("You have an error in your SQL syntax", "MySQL"),
    ("mysql_fetch_array()", "MySQL (legacy mysql_* PHP API)"),
    ("mysql_fetch_assoc()", "MySQL (legacy mysql_* PHP API)"),
    ("Unclosed quotation mark after the character string", "Microsoft SQL Server"),
    ("Microsoft OLE DB Provider for SQL Server", "Microsoft SQL Server"),
    ("com.microsoft.sqlserver.jdbc.SQLServerException", "Microsoft SQL Server (JDBC driver)"),
    ("PostgreSQL query failed", "PostgreSQL"),
    ("org.postgresql.util.PSQLException", "PostgreSQL (JDBC driver)"),
    ("ORA-01756: quoted string not properly terminated", "Oracle"),
    ("ORA-00933: SQL command not properly ended", "Oracle"),
    ("sqlite3.OperationalError", "SQLite (Python driver)"),
    ("Warning: SQLite3::query()", "SQLite (PHP driver)"),
    ("SQLSTATE[42000]", "generic SQL (PDO/ODBC SQLSTATE)"),
    ("SQLSTATE[HY000]", "generic SQL (PDO/ODBC SQLSTATE)")]

def nothingProbeable : Sentence :=
  ⟨"no insertion point on this surface is one this check probes -- it probes path_segment, " ++
    "query points -- so nothing was sent and this surface was not examined for database error " ++
    "disclosure", by simp⟩

def probeValue (p : Point) : String := p.minted 0 ++ "'"

def matchResponse (surface : Surface) (p : Point) :
    Response → Except Raised (Option (Candidate × List String)) :=
  matchTable signatures
    (cite surface issueType .medium .certain p.insertion "CWE-209" (probeValue p))

def selects (i : Insertion) : Bool := i.kind ∈ insertionKinds

def examine (surface : Surface) (s : Sender) (p : Point) : Except Raised Reading :=
  match probePath s.path surface.pathTemplate p.insertion (probeValue p) with
  | .error raised => .error raised
  | .ok path => probeOnce s p (path.map fun path => { path := path }) (matchResponse surface p)

end SqlError

namespace PathTraversal

def issueType : IssueType := ⟨"path-traversal", by decide⟩

def insertionKinds : List InsertionKind := [.query, .pathSegment]

def fileNameHints : List String :=
  ["file", "path", "filename", "document", "doc", "template", "include", "download",
    "attachment", "image", "img", "src", "resource", "asset", "load", "report"]

def traversalPayload : String := "../../../../../../etc/passwd"

def signatures : List (String × String) :=
  [("root:x:0:0:", "the root account's line"),
    ("root:*:0:0:", "the root account's line (BSD-style shadow marker)"),
    ("daemon:x:1:1:", "the daemon account's line"),
    ("bin:x:2:2:", "the bin account's line"),
    ("nobody:x:65534:", "the nobody account's line")]

def nothingProbeable : Sentence :=
  ⟨"no insertion point on this surface is one this check probes -- it probes a query or " ++
    "path_segment point whose name contains one of file, path, filename, document, doc, " ++
    "template, include, download, attachment, image, img, src, resource, asset, load, report " ++
    "-- so nothing was sent and this surface was not examined for path traversal", by simp⟩

def matchResponse (surface : Surface) (p : Point) :
    Response → Except Raised (Option (Candidate × List String)) :=
  matchTable signatures
    (cite surface issueType .high .certain p.insertion "CWE-22" traversalPayload)

def selects (i : Insertion) : Bool :=
  i.kind ∈ insertionKinds && hinted fileNameHints i.name

/-- `_for_insertion` is `probe_path` under another message. -/
def examine (surface : Surface) (s : Sender) (p : Point) : Except Raised Reading :=
  match probePath s.path surface.pathTemplate p.insertion traversalPayload with
  | .error raised => .error raised
  | .ok path => probeOnce s p (path.map fun path => { path := path }) (matchResponse surface p)

end PathTraversal

namespace OpenRedirect

def issueType : IssueType := ⟨"open-redirect", by decide⟩

def markerHost : String := "hx-open-redirect-probe.test"

def markerUrl : String := "https://hx-open-redirect-probe.test/"

def redirectNameHints : List String :=
  ["redirect", "url", "uri", "return", "next", "dest", "continue", "target", "forward", "goto",
    "link", "callback", "navigate"]

def nothingProbeable : Sentence :=
  ⟨"no insertion point on this surface is one this check probes -- it probes a query parameter " ++
    "whose name contains one of redirect, url, uri, return, next, dest, continue, target, " ++
    "forward, goto, link, callback, navigate -- so nothing was sent and this surface was not " ++
    "examined for open redirect", by simp⟩

/-- `_REDIRECT_STATUSES`. -/
def redirects (status : Option Int) : Bool := status.any fun s => 300 ≤ s && s < 400

/-- `http_text.header_lines`. -/
def headerLines (head : Bytes) : List Bytes :=
  ((head.splitOn 10).drop 1).map fun line =>
    if line.getLast? = some 13 then line.dropLast else line

/-- `http_text.header_values`. -/
def headerValues (head : Bytes) (name : String) : List (List Char) :=
  (headerLines head).filterMap fun line =>
    match partition 58 line with
    | (key, some value) =>
        if lower (strip (latin1 key)) = lower name.toList then some (strip (latin1 value))
        else none
    | (_, none) => none

/-- `_redirect_host`. -/
def redirectHost (bracketed : List Char → Bool) (r : Response) :
    Except Unit (Option (List Char)) :=
  if !redirects r.status then .ok none
  else
    match headerValues r.head "location" with
    | [] => .ok none
    | location :: _ => urlsplitHostname bracketed location

def matchResponse (bracketed : List Char → Bool) (surface : Surface) (p : Point)
    (r : Response) : Except Raised (Option (Candidate × List String)) :=
  match redirectHost bracketed r with
  | .error _ => .error .badUrl
  | .ok host =>
      if host.map lower = some markerHost.toList then
        report (cite surface issueType .medium .certain p.insertion "CWE-601" markerUrl) []
      else .ok none

def selects (i : Insertion) : Bool := i.kind = .query && hinted redirectNameHints i.name

def examine (bracketed : List Char → Bool) (surface : Surface) (s : Sender) (p : Point) :
    Except Raised Reading :=
  probeOnce s p (some { path := queryPath s.path p.insertion.name markerUrl })
    (matchResponse bracketed surface p)

end OpenRedirect

namespace SqlBehaviour

def issueType : IssueType := ⟨"sql-injection-behavioural", by decide⟩

def insertionKinds : List InsertionKind := [.query, .pathSegment]

def minLenDelta : Nat := 32

def nothingProbeable : Sentence :=
  ⟨"no insertion point on this surface is one this check probes -- it probes path_segment, " ++
    "query points -- so nothing was sent and this surface was not examined for behavioural SQL " ++
    "injection", by simp⟩

/-- What `_material` calls a difference. -/
inductive Difference where
  | status
  | length
  | content
  deriving DecidableEq

/-- `_material`: a body that was not compared has no new tokens here. -/
def material (d : Delta) : Option Difference :=
  if d.statusChanged then some .status
  else if minLenDelta ≤ d.lenDelta.natAbs then some .length
  else
    match d.newTokens with
    | some (_ :: _) => some .content
    | _ => none

def bothRefused (i : Insertion) (r : Response) : String :=
  let status := match r.status with
    | some s => s!"{s}"
    | none => "None"
  s!"{i.name}: both probes came back {status} and identical, so nothing here separates " ++
    "`tested, clean` from `never reached` -- an endpoint that refuses every request refuses an " ++
    "unbalanced quote and an escaped one alike"

def compare (surface : Surface) (p : Point) (quoted escaped : Response) :
    Except Raised Reading :=
  match material (against escaped.status escaped.body quoted.status quoted.body) with
  | none =>
      if (unanswered quoted).isSome && (unanswered escaped).isSome then
        .ok ⟨[], [bothRefused p.insertion quoted], true⟩
      else .ok ⟨[], [], true⟩
  | some _ =>
      match cite surface issueType .high .tentative p.insertion "CWE-89"
          (p.minted 0 ++ "'") with
      | .error raised => .error raised
      | .ok c => .ok ⟨[c], [], true⟩

/-- Both halves or neither: a refusal of either probe ends the point. -/
def sendPair (surface : Surface) (s : Sender) (p : Point) (first second : Request) :
    Except Raised Reading :=
  match sendOrGap s first p.insertion (p.outcome 0) with
  | .error raised => .error raised
  | .ok (none, gaps) => .ok ⟨[], gaps, false⟩
  | .ok (some quoted, _) =>
      match sendOrGap s second p.insertion (p.outcome 1) with
      | .error raised => .error raised
      | .ok (none, gaps) => .ok ⟨[], gaps, false⟩
      | .ok (some escaped, _) => compare surface p quoted escaped

def selects (i : Insertion) : Bool := i.kind ∈ insertionKinds

def examine (surface : Surface) (s : Sender) (p : Point) : Except Raised Reading :=
  match probePath s.path surface.pathTemplate p.insertion (p.minted 0 ++ "'") with
  | .error raised => .error raised
  | .ok none => .ok ⟨[], [unbuildable p.insertion], false⟩
  | .ok (some first) =>
      match probePath s.path surface.pathTemplate p.insertion (p.minted 0 ++ "''") with
      | .error raised => .error raised
      | .ok none => .ok ⟨[], [unbuildable p.insertion], false⟩
      | .ok (some second) => sendPair surface s p { path := first } { path := second }

end SqlBehaviour

/-- The checks of the active corpus built on the shared funnel. -/
inductive ActiveCheck where
  | reflectedInput
  | sqlError
  | sqlBehaviour
  | pathTraversal
  | openRedirect
  deriving DecidableEq

namespace ActiveCheck

def selects : ActiveCheck → Insertion → Bool
  | reflectedInput => ReflectedInput.selects
  | sqlError => SqlError.selects
  | sqlBehaviour => SqlBehaviour.selects
  | pathTraversal => PathTraversal.selects
  | openRedirect => OpenRedirect.selects

def issueType : ActiveCheck → IssueType
  | reflectedInput => ReflectedInput.issueType
  | sqlError => SqlError.issueType
  | sqlBehaviour => SqlBehaviour.issueType
  | pathTraversal => PathTraversal.issueType
  | openRedirect => OpenRedirect.issueType

def nothingProbeable : ActiveCheck → Sentence
  | reflectedInput => ReflectedInput.nothingProbeable
  | sqlError => SqlError.nothingProbeable
  | sqlBehaviour => SqlBehaviour.nothingProbeable
  | pathTraversal => PathTraversal.nothingProbeable
  | openRedirect => OpenRedirect.nothingProbeable

/-- The body of the check's loop, past the filter. -/
def examine (c : ActiveCheck) (bracketed : List Char → Bool) (surface : Surface)
    (s : Sender) : Point → Except Raised Reading :=
  match c with
  | reflectedInput => ReflectedInput.examine surface s
  | sqlError => SqlError.examine surface s
  | sqlBehaviour => SqlBehaviour.examine surface s
  | pathTraversal => PathTraversal.examine surface s
  | openRedirect => OpenRedirect.examine bracketed surface s

/-- `probes`. -/
def probes (c : ActiveCheck) (bracketed : List Char → Bool) (surface : Surface) (s : Sender)
    (points : List Point) : Except Raised Verdict :=
  conclude c.selects (c.examine bracketed surface s) c.issueType c.nothingProbeable points

end ActiveCheck

end Hx.Checks
