import Hx.Checks.Base
import Hx.Python.Text

/-!
# What the active checks share

The sender a check is handed, the refusal that ends one point, and the funnel every
check answers through. The environment of a pass is per insertion point: the markers
minted for it and the outcome of each probe sent there.
-/

namespace Hx.Checks

open Hx.Python

/-- A `ProbeResponse`. -/
structure Response where
  status : Option Int
  head : Bytes
  body : Bytes

/-- What `ProbeSender.get` ends in once it has something to send: a whole response, or
`ProbeRefused` with the wire's class. -/
inductive Outcome where
  | response (r : Response)
  | refused (reason : String)

/-- The exceptions a check does not catch. The first three are the sender's. -/
inductive Raised where
  | notOriginForm
  | placeholder
  | notLatin1
  | unknownKind
  | noExchange
  | badUrl
  | typeError
  | nothingExamined
  deriving DecidableEq

structure Request where
  path : String
  headers : List (String × String) := []

/-- A sender bound to one surface. -/
structure Sender where
  host : String
  path : String

def isPlaceholder (segment : List Char) : Bool :=
  segment.head? == some '{' && segment.getLast? == some '}' && 2 < segment.length

/-- `_placeholder_in`: the query string is not examined. -/
def placeholderIn (path : String) : Bool :=
  ((partition '?' path.toList).1.splitOn '/').any isPlaceholder

/-- `_request_bytes` can encode what it builds. -/
def encodable (host : String) (q : Request) : Bool :=
  isLatin1 q.path && isLatin1 host && q.headers.all fun h => isLatin1 h.1 && isLatin1 h.2

/-- What `get` does with a request before it sends it: nothing on the wire said no. -/
def Sender.refusal (s : Sender) (q : Request) : Option Raised :=
  if q.path.toList.head? ≠ some '/' then some .notOriginForm
  else if placeholderIn q.path then some .placeholder
  else if encodable s.host q then none
  else some .notLatin1

def Sender.get (s : Sender) (q : Request) (outcome : Outcome) : Except Raised Outcome :=
  match s.refusal q with
  | some raised => .error raised
  | none => .ok outcome

/-! ## Points -/

/-- An insertion point with what the pass meets there: the markers `canary` mints and
the outcomes of the probes, in the order they are sent. -/
structure Point where
  insertion : Insertion
  minted : Nat → String
  outcome : Nat → Outcome

/-- `substitute_segment`: by index, every segment the template calls `placeholder`. -/
def substituteSegment (path template placeholder value : String) : Option String :=
  let segments := path.splitOn "/"
  let templates := template.splitOn "/"
  if segments.length ≠ templates.length then none
  else if placeholder ∉ templates then none
  else some (String.intercalate "/"
    (List.zipWith (fun s t => if t = placeholder then value else s) segments templates))

/-- The path with one query parameter. -/
def queryPath (path name value : String) : String := s!"{path}?{quote name}={quote value}"

/-- `probe_path`. -/
def probePath (path template : String) (i : Insertion) (value : String) :
    Except Raised (Option String) :=
  match i.kind with
  | .query => .ok (some (queryPath path i.name value))
  | .pathSegment => .ok (substituteSegment path template i.name (quote value))
  | _ => .error .unknownKind

/-- `send_or_gap`: a refusal ends this point and not the check. -/
def sendOrGap (s : Sender) (q : Request) (i : Insertion) (outcome : Outcome) :
    Except Raised (Option Response × List String) :=
  match s.get q outcome with
  | .error raised => .error raised
  | .ok (.response r) => .ok (some r, [])
  | .ok (.refused reason) => .ok (none, [s!"{i.name}: probe refused ({reason})"])

/-- `_AN_ANSWER`. -/
def anAnswer (status : Int) : Bool := 200 ≤ status && status < 300

/-- Why a response cannot be read as a conclusive negative. -/
def unanswered (r : Response) : Option String :=
  match r.status with
  | none => some "no status could be read"
  | some status => if anAnswer status then none else some s!"status {status}"

/-- Whether a marker appears in either half of a response. -/
def reflected (r : Response) (marker : String) : Bool :=
  contains (ascii marker) r.head || contains (ascii marker) r.body

def unbuildable (i : Insertion) : String :=
  s!"{i.name}: no probe could be built for this insertion point"

/-! ## The funnel -/

def gapsShown : Nat := 3

/-- `_http._detail`. -/
def detail (gaps : List String) : String :=
  if gaps.isEmpty then ""
  else
    let hidden := gaps.length - gapsShown
    ": " ++ String.intercalate "; "
      (gaps.take gapsShown ++ if 0 < hidden then [s!"and {hidden} more"] else [])

def gapReason (gaps : List String) : String :=
  "this surface's probes did not all come back as answers, so nothing found here separates " ++
    "`tested, clean` from `never reached`" ++ detail gaps

theorem gapReason_ne (gaps : List String) : gapReason gaps ≠ "" := by
  intro empty
  have sentence := (String.append_eq_empty_iff.1 empty).1
  simp at sentence

/-- A sentence that is there. -/
abbrev Sentence := { s : String // s ≠ "" }

/-- `_probe_util.verdict`: a candidate wins over a gap, a gap over a clean answer, and
clean has to name what it examined. -/
def verdict (candidates : List Candidate) (gaps : List String) (examined : List IssueType)
    (unprobed : Option Sentence) : Except Raised Verdict :=
  if found : candidates ≠ [] then .ok (.finding candidates found [])
  else if gaps ≠ [] then .ok (.inconclusive (gapReason gaps) (gapReason_ne gaps))
  else
    match unprobed with
    | some why => .ok (.inconclusive why.val why.property)
    | none => if examined = [] then .error .nothingExamined else .ok (.clean examined)

/-! ## The loop over the points -/

/-- What one point adds to `candidates` and `gaps`, and whether it sets `probed_any`. -/
structure Reading where
  candidates : List Candidate
  gaps : List String
  probed : Bool

def Reading.none : Reading := ⟨[], [], false⟩

def Reading.add (t r : Reading) : Reading :=
  ⟨t.candidates ++ r.candidates, t.gaps ++ r.gaps, t.probed || r.probed⟩

/-- The loop of a check: `selects` is its kind and name filter, `examine` the rest of the
loop body. -/
def sweep (selects : Insertion → Bool) (examine : Point → Except Raised Reading) :
    List Point → Reading → Except Raised Reading
  | [], t => .ok t
  | p :: rest, t =>
      if selects p.insertion then
        match examine p with
        | .error raised => .error raised
        | .ok r => sweep selects examine rest (t.add r)
      else sweep selects examine rest t

/-- The end of a check. -/
def answer (issueType : IssueType) (unprobed : Sentence) (t : Reading) :
    Except Raised Verdict :=
  if t.probed then verdict t.candidates t.gaps [issueType] none
  else verdict t.candidates t.gaps [] (some unprobed)

/-- The loop and the end of a check. -/
def conclude (selects : Insertion → Bool) (examine : Point → Except Raised Reading)
    (issueType : IssueType) (unprobed : Sentence) (points : List Point) :
    Except Raised Verdict :=
  match sweep selects examine points .none with
  | .error raised => .error raised
  | .ok t => answer issueType unprobed t

/-- What the response of a point comes to: the candidate it shows, with the gaps that
come with it, or else a gap unless it is an answer. -/
def readResponse (i : Insertion) (r : Response) : Option (Candidate × List String) → Reading
  | some (c, more) => ⟨[c], more, true⟩
  | none =>
      match unanswered r with
      | some refusal => ⟨[], [s!"{i.name}: {refusal}"], true⟩
      | none => ⟨[], [], true⟩

/-- A point that takes one request; `find` looks for the issue in its response. -/
def probeOnce (s : Sender) (p : Point) (request : Option Request)
    (find : Response → Except Raised (Option (Candidate × List String))) :
    Except Raised Reading :=
  match request with
  | none => .ok ⟨[], [unbuildable p.insertion], false⟩
  | some q =>
      match sendOrGap s q p.insertion (p.outcome 0) with
      | .error raised => .error raised
      | .ok (none, gaps) => .ok ⟨[], gaps, false⟩
      | .ok (some r, _) =>
          match find r with
          | .error raised => .error raised
          | .ok found => .ok (readResponse p.insertion r found)

end Hx.Checks
