import Hx.Scan.Identity

/-!
# What a pass has in hand

`scan.run` is a program over what it has in hand: the store, its summary, the bracket of
its identity, what was offered for retirement and the findings it has seen. Everything
that is not its own is asked of the environment, which answers by the number of the
question: what a statement raises, what a check did, what a canary came back with. A
group of statements in one transaction is one write, and it is written or it raises.

The log is no part of the program: it keeps what went to the wire, what the checks
returned, and what was said of the identity and retired, newest first.
-/

namespace Hx.Scan

open Hx.Checks Hx.Library Hx.Python Hx.Store

/-! ## What a pass is over -/

structure Origin where
  scheme : String
  host : String
  port : Int
  deriving DecidableEq

/-- A row of the `SELECT` over the surfaces. -/
structure Surface where
  id : String
  method : String
  origin : Origin
  pathTemplate : String
  exemplar : Option String
  deriving DecidableEq

/-- What `run` itself reads of an exchange. -/
structure ExchangeRow where
  id : String
  reqBlob : Option String

/-- `_runner_hook`: which hook the check has, of those the runner calls. -/
inductive Hook where
  | probes
  | onSurface
  | neither
  deriving DecidableEq

structure Check where
  id : String
  version : String
  klass : String
  hook : Hook
  insertionKinds : List InsertionKind

def needsABridge (c : Check) : Bool := c.hook = .probes

inductive VerdictState where
  | clean
  | finding
  | inconclusive
  deriving DecidableEq

/-- A `Verdict` as its constructor leaves it, however it was called. -/
structure Returned where
  state : VerdictState
  candidates : List Candidate := []
  reason : Option String := none
  considered : List IssueType := []
  found : state = .finding → candidates ≠ []
  said : state = .inconclusive → reason ≠ none ∧ reason ≠ some ""

/-- What the three classmethods construct. -/
def Returned.ofVerdict : Verdict → Returned
  | .clean considered => { state := .clean, considered, found := nofun, said := nofun }
  | .finding candidates some_ considered =>
      { state := .finding, candidates, considered, found := fun _ => some_, said := nofun }
  | .inconclusive reason said =>
      { state := .inconclusive, reason := some reason, found := nofun
        said := fun _ => ⟨nofun, fun same => said (Option.some.inj same)⟩ }

def VerdictState.row : VerdictState → RowVerdict
  | clean => .clean
  | finding => .finding
  | inconclusive => .inconclusive

/-- How a check ended. `other` is anything that is no `Verdict`, with the sentence of the
`TypeError`. -/
inductive Ended where
  | verdict (v : Returned)
  | other (text : String)
  | raised (e : Exc)

/-- A call of a check, with what its sender counted. -/
structure Called where
  ended : Ended
  sent : Nat := 0
  refused : Tally := []

/-! ## The environment -/

structure Env where
  texts : Texts
  checks : List Check
  /-- `config.checks` -/
  classes : String → Bool
  passes : Surface → Bool
  bridged : Bool
  identity : Option Resolved
  scanIdentity : Option String
  identities : List Identity
  environ : String → Option Text
  requestPath : Bytes → Except Exc (Option String)
  derive : Bytes → String → Except Exc (List Insertion)
  attributeError : Check → String
  now : Nat → Int
  /-- `time.monotonic() > deadline`, if there is a deadline. -/
  late : Nat → Bool
  surfaces : Nat → Except Exc (List Surface)
  exchanges : Nat → String → Except Exc (List ExchangeRow)
  /-- A corrupt blob is none. -/
  blob : Nat → String → Except Exc (Option Bytes)
  fault : Nat → Option Exc
  probes : Nat → Check → Surface → List Insertion → String → Option String → Called
  onSurface : Nat → Check → Surface → List ExchangeRow → Ended
  command : Nat → List String → Command
  register : Nat → Resolved → List String → Registration
  get : Nat → Origin → String → String → Got

/-- The checks of a pass: those whose class is switched on. -/
def Env.enabled (e : Env) : List Check := e.checks.filter fun c => e.classes c.klass

/-! ## What a pass has in hand -/

namespace Tally

/-- `counts[key] = counts.get(key, 0) + n` -/
def add (key : String) (n : Nat) : Tally → Tally
  | [] => [(key, n)]
  | (k, m) :: rest => if k = key then (k, m + n) :: rest else (k, m) :: add key n rest

def addAll (more : Tally) (t : Tally) : Tally := more.foldl (fun t kn => add kn.1 kn.2 t) t

def total : Tally → Nat
  | [] => 0
  | (_, n) :: rest => n + total rest

/-- Code points decide, as in Python. -/
def before : List Char → List Char → Bool
  | [], _ => true
  | _ :: _, [] => false
  | a :: s, b :: t => decide (a.toNat < b.toNat) || (a.toNat == b.toNat && before s t)

def insert (kn : String × Nat) : Tally → Tally
  | [] => [kn]
  | next :: rest =>
      if before kn.1.toList next.1.toList then kn :: next :: rest else next :: insert kn rest

/-- `sorted(counts.items())` -/
def sorted (t : Tally) : Tally := t.foldr insert []

def line (t : Tally) : String :=
  String.intercalate ", " (t.sorted.map fun kn => s!"{kn.1}={kn.2}")

end Tally

/-- `ScanSummary`. -/
structure Summary where
  surfaces : Nat := 0
  checksRun : Nat := 0
  findings : Nat := 0
  skipped : Nat := 0
  byReason : Tally := []
  refused : Tally := []
  identityState : Option IdentityState := none
  canaryRequests : Nat := 0
  deriving DecidableEq

/-- `_IdentityBracket`. -/
structure Bracket where
  resolved : Resolved
  declared : Identity
  target : Origin
  origins : List String
  window : Window
  due : Bool := false

/-- `_IdentityBracket.note` -/
def Bracket.note (b : Bracket) : Nat → Bracket
  | 0 => b
  | n + 1 =>
      Bracket.note { b with
        window := b.window.noteProbe.2, due := b.due || b.window.noteProbe.1 } n

/-- What an accepted verdict offers for retirement. -/
structure Offer where
  hook : Hook
  surface : String
  check : String
  origin : Origin
  verdict : Returned

/-- What a `ProbeSender` counts. -/
structure Sender where
  sent : Nat := 0
  refused : Tally := []

/-- `probes` is one row's: under which generation, what was sent and what was refused.
`next` is the number of the question that is asked next. -/
inductive Event where
  | canary (origin : Origin) (generation : Nat) (passed : Bool) (sent : Nat) (refused : Tally)
  | probes (row : Nat) (generation : Option Nat) (sent : Nat) (refused : Tally)
  | returned (row : Nat) (surface : Surface) (check : Check) (verdict : Returned) (next : Nat)
  | settled (state : IdentityState) (next : Nat)
  | retired (finding : Finding)

namespace Event

/-- The requests that count as issued. -/
def sent : Event → Nat
  | canary _ _ _ sent _ => sent
  | probes _ _ sent _ => sent
  | returned _ _ _ _ _ => 0
  | settled _ _ => 0
  | retired _ => 0

def refused : Event → Tally
  | canary _ _ _ _ refused => refused
  | probes _ _ _ refused => refused
  | returned _ _ _ _ _ => []
  | settled _ _ => []
  | retired _ => []

/-- A canary that went to an origin, whatever it was answered. -/
def CanaryTo (target : Origin) : Event → Prop
  | canary origin _ _ _ _ => origin = target
  | _ => False

end Event

/-- `exemplar` and `insertions` are read once per surface, and only if something asks. -/
structure Pass where
  store : Engagement
  tick : Nat := 0
  summary : Summary := {}
  bracket : Option Bracket := none
  seen : List String := []
  offered : List Offer := []
  sender : Option Sender := none
  exemplar : Option (Option Bytes) := none
  insertions : Option (List Insertion) := none
  log : List Event := []

namespace Pass

/-- What the sender of the row issued; there need not be one. -/
def sent (p : Pass) : Nat := (p.sender.map Sender.sent).getD 0

def refusals (p : Pass) : Tally := (p.sender.map Sender.refused).getD []

/-- `_spent`: the refusals of a row's sender go into the run's tally, and what it sent
counts towards the next canary. Without a sender both are nothing. -/
def spent (p : Pass) : Pass :=
  { p with
    summary := { p.summary with refused := Tally.addAll p.refusals p.summary.refused }
    bracket := p.bracket.map fun b => b.note p.sent }

/-- A canary was answered. -/
def canaried (p : Pass) (b : Bracket) (got : Got) : Pass :=
  { p with
    summary := { p.summary with
      refused := Tally.addAll got.refusals p.summary.refused
      canaryRequests := p.summary.canaryRequests + got.sent }
    log := .canary b.target b.resolved.generation
      ((canary b.declared.liveness got).toOption.getD false) got.sent got.refusals :: p.log }

/-- A row was opened, and counted. -/
def opened (p : Pass) (runId : Nat) (s : Surface) (c : Check) : Pass :=
  { p with
    store := (p.store.openRow runId s.id c.id c.version).2
    summary := { p.summary with checksRun := p.summary.checksRun + 1 }
    sender := none }

/-- `_skip`. -/
def skipped (p : Pass) (row : Nat) (key reason : String) : Pass :=
  { p with
    store := p.store.closeRow row .skipped reason 0
    summary := { p.summary with
      skipped := p.summary.skipped + 1, byReason := Tally.add key 1 p.summary.byReason } }

/-- A row that was not skipped was closed, with what its sender issued. -/
def closed (p : Pass) (row : Nat) (verdict : RowVerdict) (reason : Option String) : Pass :=
  { p with store := p.store.closeRow row verdict reason p.sent }

/-- A check was driven through its sender. -/
def drove (p : Pass) (row sent : Nat) (refused : Tally) : Pass :=
  { p with
    sender := some ⟨sent, refused⟩
    log := .probes row (p.bracket.map fun b => b.resolved.generation) sent refused :: p.log }

/-- A verdict was accepted, and what it offers is kept. -/
def returned (p : Pass) (row : Nat) (s : Surface) (c : Check) (v : Returned) (next : Nat) : Pass :=
  { p with
    offered := if v.considered = [] then p.offered
      else p.offered ++ [⟨c.hook, s.id, c.id, s.origin, v⟩]
    log := .returned row s c v next :: p.log }

/-- A finding was written, and counted if this run had not seen it. -/
def saw (p : Pass) (key : String) : Pass :=
  { p with
    seen := if p.seen.contains key then p.seen else p.seen ++ [key]
    summary := { p.summary with
      findings := if p.seen.contains key then p.summary.findings else p.summary.findings + 1 } }

end Pass

abbrev Act := Prog Pass Exc

/-! ## Statements -/

section Statements

variable (e : Env)

/-- A question to the environment. -/
def ask {α : Type} (f : Nat → α) : Act α := fun p => (.ok (f p.tick), { p with tick := p.tick + 1 })

def orRaise : Option Exc → Act Unit
  | none => pure ()
  | some exc => .raise exc

def returns {α : Type} : Except Exc α → Act α
  | .ok a => pure a
  | .error exc => .raise exc

/-- One write that hands an id back. -/
def writeId (f : Engagement → Nat × Engagement) : Act Nat := do
  orRaise (← ask e.fault)
  let id ← .gets fun p => (f p.store).1
  Prog.modify fun p => { p with store := (f p.store).2 }
  pure id

def write (f : Engagement → Engagement) : Act Unit := do
  orRaise (← ask e.fault)
  Prog.modify fun p => { p with store := f p.store }

def summarise (f : Summary → Summary) : Act Unit :=
  Prog.modify fun p => { p with summary := f p.summary }

def setBracket (b : Bracket) : Act Unit := Prog.modify fun p => { p with bracket := some b }

end Statements

end Hx.Scan
