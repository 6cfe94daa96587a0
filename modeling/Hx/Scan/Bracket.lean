import Hx.Scan.Pass

/-!
# The identity in force

`_IdentityBracket`: the credential is registered, a canary proves it before the first
probe, one is asked whenever it falls due between two rows, and one at the end. A failing
canary gets a programmatic identity one refresh; what cannot be proved halts the run.
-/

namespace Hx.Scan

open Hx.Checks Hx.Library Hx.Python Hx.Store

section Bracket

variable (e : Env)

/-- `_declaration`. -/
def declaration (id : String) : Except Exc Identity :=
  match e.identities.find? fun i => i.id = id with
  | some identity => .ok identity
  | none =>
      let names := (e.identities.map fun i => (i.id, 0)).foldr Tally.insert []
      let shown := String.intercalate ", " (names.map fun kn => e.texts.repr kn.1)
      .error <| .exception "ValueError" <|
        s!"identity {e.texts.repr id} is not declared in this config, so it has no liveness " ++
        "proof and a run cannot be bracketed by one. Declared: " ++
        if names.isEmpty then "none" else "[" ++ shown ++ "]"

/-- `identity.refresh`. -/
def refresh (identity : Identity) (generation : Nat) : Act Resolved :=
  match identity.refresh with
  | none => .raise (noRefreshCommand e.texts identity)
  | some argv => do
      let ran ← ask fun t => e.command t argv
      returns (minted e.texts identity generation ran)

/-- `_resolve_scan_identity`. -/
def resolveScanIdentity : Act (Option Resolved) :=
  match e.scanIdentity with
  | none => pure none
  | some id => do
      let declared ← returns (declaration e id)
      match declared.strategy with
      | .static => do
          let resolved ← returns (resolve e.texts declared e.environ)
          pure (some resolved)
      | .programmatic => do
          let resolved ← refresh e declared 0
          pure (some resolved)

/-- The credential a pass was handed, or else the one its config names. -/
def passIdentity : Act (Option Resolved) :=
  match e.identity with
  | some r => pure (some r)
  | none => resolveScanIdentity e

/-- `_identity_bracket`. -/
def identityBracket (surfaces : List Surface) : Act (Option Bracket) :=
  if e.bridged && e.enabled.any needsABridge then
    match surfaces.find? e.passes with
    | none => pure none
    | some target => do
        match (← passIdentity e) with
        | none => pure none
        | some r => do
            let declared ← returns (declaration e r.id)
            pure <| some {
              resolved := r, declared, target := target.origin
              origins := if declared.origins = [] then [target.origin.host] else declared.origins
              window := { dueEvery := declared.liveness.everyNProbes } }
  else pure none

/-- `_canary`: whether it passed, and the class it was refused with. -/
def sendCanary (b : Bracket) : Act (Bool × Option String) := do
  let got ← ask fun t => e.get t b.target b.declared.liveness.path b.resolved.id
  Prog.modify fun p => p.canaried b got
  let passed ← returns (canary b.declared.liveness got)
  pure (passed, got.refusals.head?.map (·.1))

def registers (b : Bracket) : Act Unit := do
  let bridge ← ask fun t => e.register t b.resolved b.origins
  orRaise (registerIdentity e.texts b.resolved b.origins bridge)

/-- `_unproved`: what the operator is told, and what is stored. -/
def unproved (b : Bracket) : Option String → String × String
  | some refusal =>
      (s!"the canary to {b.declared.liveness.path} was not answered -- the send path returned " ++
        s!"{refusal}, so nothing came back to compare against the signature this identity is " ++
        "declared to prove itself by",
      s!"its canary was refused {refusal}")
  | none =>
      (s!"{b.declared.liveness.path} answered, but not with the signature this identity is " ++
        "declared to prove itself by",
      "its canary was answered without the declared signature")

/-- `_outcome`. -/
def outcome (b : Bracket) (refreshed : Bool) : String :=
  if refreshed then
    "Its credential was refreshed once and the canary failed again -- section 6's `fails after " ++
      "refresh`, which is a dead session"
  else
    s!"It is a {e.texts.repr b.declared.strategy.word} identity, so section 6 gives it no " ++
      "refresh command to try -- section 6's `fails, static`, which is a dead session"

structure Settled where
  bracket : Bracket
  raw : Bool
  settled : Bool
  refusal : Option String
  refreshed : Bool

/-- The one refresh of `_settle`: a failure of its own kind is a dead session. -/
def renew (b : Bracket) (refusal : Option String) : Act Resolved := do
  match (← Prog.attempt (refresh e b.declared b.resolved.generation)) with
  | .ok resolved => pure resolved
  | .error (.identityError text) => .raise (.identityDead
      (s!"identity {e.texts.repr b.resolved.id} failed its canary and could not be refreshed: " ++
        text)
      (s!"identity {e.texts.repr b.resolved.id} could not be refreshed after " ++
        (unproved b refusal).2))
  | .error exc => .raise exc

/-- `_settle`: the canary, and for a programmatic identity one refresh and one more. -/
def settle (b : Bracket) : Act Settled := do
  let (raw, refusal) ← sendCanary e b
  if raw || b.declared.strategy != .programmatic then
    pure ⟨b, raw, raw, refusal, false⟩
  else do
    let resolved ← renew e b refusal
    setBracket { b with resolved }
    registers e { b with resolved }
    let (settled, refusal) ← sendCanary e { b with resolved }
    pure ⟨{ b with resolved }, raw, settled, refusal, true⟩

def deadAtStart (s : Settled) : Exc :=
  .identityDead
    (s!"identity {e.texts.repr s.bracket.resolved.id} could not be proved live before the " ++
      s!"first probe: {(unproved s.bracket s.refusal).1}. {outcome e s.bracket s.refreshed}. " ++
      "Halting rather than scanning anonymously: an unauthenticated run of an authenticated " ++
      "application answers `clean` about a view none of its users are in")
    (s!"identity {e.texts.repr s.bracket.resolved.id} could not be proved live before the " ++
      s!"first probe: {(unproved s.bracket s.refusal).2}")

def deadMidRun (s : Settled) : Exc :=
  .identityDead
    (s!"identity {e.texts.repr s.bracket.resolved.id} stopped being live during the run: " ++
      s!"{(unproved s.bracket s.refusal).1}. {outcome e s.bracket s.refreshed}. Halting rather " ++
      "than issuing the rest of this run's probes unauthenticated, which would answer `clean` " ++
      "for every surface still to come")
    (s!"identity {e.texts.repr s.bracket.resolved.id} stopped being live during the run: " ++
      (unproved s.bracket s.refusal).2)

/-- `_IdentityBracket.start`. -/
def start (b : Bracket) : Act Unit := do
  registers e b
  let s ← settle e b
  setBracket { s.bracket with window := s.bracket.window.open_ s.settled }
  if s.settled then pure () else .raise (deadAtStart e s)

/-- `_IdentityBracket.canary_if_due`, if there is a bracket. -/
def canaryIfDue : Act Unit := do
  match (← .gets Pass.bracket) with
  | none => pure ()
  | some b =>
      if b.due then do
        setBracket { b with due := false }
        let s ← settle e { b with due := false }
        setBracket { s.bracket with window := s.bracket.window.close s.raw }
        if s.settled then
          setBracket { s.bracket with window := (s.bracket.window.close s.raw).open_ true }
        else .raise (deadMidRun e s)
      else pure ()

/-- `_IdentityBracket.finish`. -/
def finish (b : Bracket) : Act Unit := do
  let (passed, _) ← sendCanary e b
  setBracket { b with window := b.window.close passed }

end Bracket

end Hx.Scan
