import Hx.Tools.Enforced
import Hx.Python.Text

/-!
# The door every tool call goes through

`dispatch` asks its questions in the published order, runs the tool when none of them is answered
no, and writes one row about the call. What a call reads of the world may fail: the halt, the run
behind the row, the tool and the row itself. Only the tool and the row are asked inside a `try`.
-/

namespace Hx.Tools

open Hx.Library

/-! ## Envelopes -/

inductive Outcome where
  | ok
  | empty
  | unavailable
  | refused
  | error
  deriving DecidableEq

inductive Reason where
  | notRegistered | halted | missingWhy | badArgs | runOpen
  | scopeDenied | methodDenied | dangerousDenied | rateLimited
  | budgetExhausted | badFrame | wrongRunKind
  | unmanagedCredential | unknownIdentity | identityOrigin
  | unknownFrame | protocolMismatch | engagementMismatch
  | badConfig | badIdentity | staleGeneration
  | noSession | noRun | notImplemented | identityDead
  | identityUnresolved | transportError | timeout | bridgeLost
  | notConfigured | unreadable
  | internal
  deriving DecidableEq

/-- `REASONS_FOR`. -/
def reasonsFor : Outcome → List Reason
  | .refused =>
      [.notRegistered, .halted, .missingWhy, .badArgs, .runOpen, .scopeDenied, .methodDenied,
        .dangerousDenied, .rateLimited, .budgetExhausted, .badFrame, .wrongRunKind,
        .unmanagedCredential, .unknownIdentity, .identityOrigin, .unknownFrame, .protocolMismatch,
        .engagementMismatch, .badConfig, .badIdentity, .staleGeneration]
  | .unavailable =>
      [.noSession, .noRun, .notImplemented, .identityDead, .identityUnresolved, .transportError,
        .timeout, .bridgeLost, .notConfigured, .unreadable]
  | .error => [.internal]
  | .ok | .empty => []

def Outcome.ran : Outcome → Bool
  | .ok | .empty => true
  | _ => false

/-- What an envelope says of itself: a tool that ran has no reason, and one that did not has one
of its outcome's. -/
def fits (outcome : Outcome) (reason : Option Reason) : Bool :=
  match reason with
  | none => outcome.ran
  | some r => (reasonsFor outcome).contains r

/-- What the `detail` of an envelope is made of. -/
inductive Detail where
  | nameNotText (typeName : String)
  | argumentsNotObject (typeName : String)
  | namesNotText
  | whyNotText (typeName : String)
  | notATool (name : Text)
  | halt (reason : Option Text)
  | needsWhy (name : Text)
  | longName (length : Nat)
  | longWhy (length : Nat)
  | problems (list : List Problem)
  | needsSession (name : Text)
  | said (detail : Option Text)
  | defect (className message : Text)
  deriving DecidableEq

/-- An envelope, which no other outcome and reason can be put in. -/
structure Envelope where
  tool : Text
  outcome : Outcome
  reason : Option Reason
  detail : Option Detail
  result : PyValue
  fits : fits outcome reason = true

namespace Envelope

def refused (tool : Text) (reason : Reason) (detail : Detail)
    (named : (reasonsFor .refused).contains reason = true) : Envelope :=
  ⟨tool, .refused, some reason, some detail, .none, named⟩

def unavailable (tool : Text) (reason : Reason) (detail : Detail)
    (named : (reasonsFor .unavailable).contains reason = true) : Envelope :=
  ⟨tool, .unavailable, some reason, some detail, .none, named⟩

/-- `envelope.failed`. -/
def failed (tool : Text) (detail : Detail) : Envelope :=
  ⟨tool, .error, some .internal, some detail, .none, rfl⟩

end Envelope

/-- Whether a result says that nothing matched: a page by its `total`, anything else by being
empty. -/
def matchedNothing : PyValue → Bool
  | .none => true
  | .str s => s.isEmpty
  | .list xs => xs.isEmpty
  | .dict entries =>
      match getEntry (text "returned") entries, getEntry (text "total") entries with
      | some _, some total => PyValue.equals total (.int 0)
      | _, _ => entries.isEmpty
  | _ => false

/-- `envelope.answered`. -/
def answered (tool : Text) (result : PyValue) : Envelope :=
  if matchedNothing result then ⟨tool, .empty, none, none, result, rfl⟩
  else ⟨tool, .ok, none, none, result, rfl⟩

/-! ## Tools -/

/-- A registered tool, whose schema was accepted when it was registered. -/
structure ToolSpec where
  name : Text
  params : PyObj
  schema : Schema
  checked : checkSchema params (name ++ text ".params") = .ok schema
  needsEgress : Bool
  mutates : Bool

/-- The registry is a table by name. -/
structure Registry where
  tools : List ToolSpec
  named : (tools.map ToolSpec.name).Nodup

def Registry.lookup (r : Registry) (name : Text) : Option ToolSpec :=
  r.tools.find? fun t => t.name == name

/-- `HALT_EXEMPT`. -/
def haltExempt : List Text := [text "run.finish"]

/-- An exception, with what a message says of it. -/
structure Exception where
  className : Text
  message : Text
  deriving DecidableEq

/-- A handler declining, in the closed vocabulary. -/
structure ToolError where
  outcome : Outcome
  reason : Reason
  detail : Option Text
  named : (reasonsFor outcome).contains reason = true

/-- How a handler ends. -/
inductive Ending where
  | returned (result : PyValue)
  | declined (e : ToolError)
  | raised (e : Exception)

/-- The row of a call: what `journal.record` is handed. -/
structure Row where
  runId : Option Text
  actor : Text
  tool : Text
  args : List (DictKey × PyValue)
  why : Option Text
  outcome : Outcome
  reason : Option Reason
  detail : Option Detail
  result : PyValue

/-- What a call reads and does outside this module, over the states of the world. A row is
inserted or it is not. -/
structure Context (σ : Type) where
  halted : σ → Except Exception Bool
  haltReason : σ → Except Exception (Option Text)
  session : σ → Bool
  runId : σ → Except Exception (Option Text)
  handler : Text → List (DictKey × PyValue) → σ → σ × Ending
  insert : Row → σ → σ × Bool
  actor : Text

/-! ## Dispatch -/

/-- What gets out of a call besides its envelope. -/
inductive Escaped where
  | exception (e : Exception)
  | validator (f : Failure)

/-- A call that ended: the tool's calls, the rows that were inserted, and the answer. -/
structure Call (σ : Type) where
  world : σ
  calls : List (Text × List (DictKey × PyValue))
  rows : List Row
  answer : Except Escaped Envelope

/-- A name among the arguments of a row. -/
def DictKey.value : DictKey → PyValue
  | .none => .none
  | .bool b => .bool b
  | .int n => .int n
  | .str s => .str s

/-- `_shape`: the names of the arguments, never their values. -/
def shape (args : List (DictKey × PyValue)) : Except Raised (List (DictKey × PyValue)) :=
  match sortKeys (args.map Prod.fst) with
  | .error e => .error e
  | .ok names => .ok [(.str (text "unvalidated_argument_names"), .list (names.map DictKey.value))]

section Dispatch

variable {σ : Type} (r : Registry) (ctx : Context σ)

/-- The write of `_journalled`. Whatever it raises, the call stands. -/
def journal (s : σ) (tool : Text) (args : Except Raised (List (DictKey × PyValue)))
    (why : Option Text) (env : Envelope) : σ × List Row :=
  match ctx.runId s, args with
  | .ok runId, .ok args =>
      let row : Row :=
        ⟨runId, ctx.actor, tool, args, why, env.outcome, env.reason, env.detail, env.result⟩
      let (s, inserted) := ctx.insert row s
      (s, if inserted then [row] else [])
  | _, _ => (s, [])

/-- `_journalled` of a call that no schema accepted. -/
def journalled (s : σ) (tool : Text) (args : List (DictKey × PyValue)) (why : Option Text)
    (env : Envelope) : Call σ :=
  let (s, rows) := journal ctx s tool (shape args) why env
  ⟨s, [], rows, .ok env⟩

/-- The envelope of a handler's end. -/
def envelopeOf (tool : Text) : Ending → Envelope
  | .returned result => answered tool result
  | .declined e => ⟨tool, e.outcome, some e.reason, some (.said e.detail), .none, e.named⟩
  | .raised e => .failed tool (.defect e.className e.message)

/-- The call of the tool, past every gate. -/
def invoke (s : σ) (name : Text) (args : List (DictKey × PyValue)) (why : Option Text) : Call σ :=
  let (s, ending) := ctx.handler name args s
  let env := envelopeOf name ending
  let (s, rows) := journal ctx s name (.ok args) why env
  ⟨s, [(name, args)], rows, .ok env⟩

/-- `tool.mutates and ctx.halt.halted and name not in HALT_EXEMPT`, and the reason then. -/
def haltGate (s : σ) (tool : ToolSpec) (name : Text) : Except Exception (Option Detail) :=
  if tool.mutates then
    match ctx.halted s with
    | .error e => .error e
    | .ok halted =>
        if halted && !haltExempt.contains name then
          match ctx.haltReason s with
          | .error e => .error e
          | .ok reason => .ok (some (.halt reason))
        else .ok none
  else .ok none

/-- `not (why or "").strip()`. -/
def isBlank (why : Option Text) : Bool :=
  (why.getD []).all fun c => Python.isSpace (Char.ofNat c.val)

/-- The gates below the halt, up to the tool. -/
def admitted (s : σ) (tool : ToolSpec) (name : Text) (args : List (DictKey × PyValue))
    (why : Option Text) : Call σ :=
  if tool.mutates && isBlank why then
    journalled ctx s name args why (.refused name .missingWhy (.needsWhy name) rfl)
  else if 64 < name.length then
    journalled ctx s name args why (.refused name .badArgs (.longName name.length) rfl)
  else if 500 < (why.getD []).length then
    journalled ctx s name args why (.refused name .badArgs (.longWhy (why.getD []).length) rfl)
  else
    match PyObj.validate tool.params (.dict args) (text "args") with
    | .error e => ⟨s, [], [], .error (.validator e)⟩
    | .ok (problem :: problems) =>
        journalled ctx s name args why
          (.refused name .badArgs (.problems (problem :: problems)) rfl)
    | .ok [] =>
        if tool.needsEgress && !ctx.session s then
          let env := Envelope.unavailable name .noSession (.needsSession name) rfl
          let (s, rows) := journal ctx s name (.ok args) why env
          ⟨s, [], rows, .ok env⟩
        else invoke ctx s name args why

/-- `dispatch`, past the call-shape guards. -/
def decideCall (s : σ) (name : Text) (args : List (DictKey × PyValue)) (why : Option Text) :
    Call σ :=
  match r.lookup name with
  | none => journalled ctx s name args why (.refused name .notRegistered (.notATool name) rfl)
  | some tool =>
      match haltGate ctx s tool name with
      | .error e => ⟨s, [], [], .error (.exception e)⟩
      | .ok (some detail) => journalled ctx s name args why (.refused name .halted detail rfl)
      | .ok none => admitted ctx s tool name args why

/-- The arguments as a dict, if they are one. -/
def argumentsOf : PyValue → Option (List (DictKey × PyValue))
  | .none => some []
  | .dict entries => some entries
  | _ => none

/-- The reason as it is journalled, and nothing for one that is not text. -/
def safeWhy : PyValue → Option Text
  | .str why => some why
  | _ => none

def isReason : PyValue → Bool
  | .none | .str _ => true
  | _ => false

/-- The name a row carries for a call without one. -/
def placeholder (name : PyValue) : Text := text "<" ++ text name.typeName ++ text ">"

def dispatch (s : σ) (name args why : PyValue) : Call σ :=
  match name with
  | .str name =>
      match argumentsOf args with
      | none => journalled ctx s name [] (safeWhy why)
          (.refused name .badArgs (.argumentsNotObject args.typeName) rfl)
      | some entries =>
          if !(entries.map Prod.fst).all DictKey.isText then
            journalled ctx s name [] (safeWhy why) (.refused name .badArgs .namesNotText rfl)
          else if !isReason why then
            journalled ctx s name entries (safeWhy why)
              (.refused name .badArgs (.whyNotText why.typeName) rfl)
          else decideCall r ctx s name entries (safeWhy why)
  | name => journalled ctx s (placeholder name) [] (safeWhy why)
      (.refused (placeholder name) .badArgs (.nameNotText name.typeName) rfl)

end Dispatch

/-! ## The decision order -/

inductive Rule where
  | notRegistered
  | halted
  | missingWhy
  | badArgs
  | noSession
  deriving DecidableEq

/-- `DECISION_ORDER`. -/
def decisionOrder : List Rule := [.notRegistered, .halted, .missingWhy, .badArgs, .noSession]

def Rule.reason : Rule → Reason
  | .notRegistered => .notRegistered
  | .halted => .halted
  | .missingWhy => .missingWhy
  | .badArgs => .badArgs
  | .noSession => .noSession

/-- A missing session is no refusal: nothing was decided. -/
def Rule.outcome : Rule → Outcome
  | .noSession => .unavailable
  | _ => .refused

/-- The first rule of the order that is violated. -/
def FirstViolated (violated : Rule → Prop) (rule : Rule) : Prop :=
  ∃ before after, decisionOrder = before ++ rule :: after ∧ violated rule ∧
    ∀ earlier ∈ before, ¬ violated earlier

section Decision

variable {σ : Type} (r : Registry) (ctx : Context σ) (s : σ)

/-- What a well-shaped call violates. -/
def Violates (name : Text) (args : List (DictKey × PyValue)) (why : Option Text) : Rule → Prop
  | .notRegistered => r.lookup name = none
  | .halted => ∃ tool, r.lookup name = some tool ∧ tool.mutates = true ∧
      ctx.halted s = .ok true ∧ name ∉ haltExempt
  | .missingWhy => ∃ tool, r.lookup name = some tool ∧ tool.mutates = true ∧ isBlank why = true
  | .badArgs => ∃ tool, r.lookup name = some tool ∧
      (64 < name.length ∨ 500 < (why.getD []).length ∨ ¬ Conforms tool.schema (.dict args))
  | .noSession => ∃ tool, r.lookup name = some tool ∧ tool.needsEgress = true ∧
      ctx.session s = false

/-- The guards on the shape of a call. -/
structure Shaped (name args why : PyValue) (called : Text) (entries : List (DictKey × PyValue)) :
    Prop where
  name : name = .str called
  args : argumentsOf args = some entries
  keys : (entries.map Prod.fst).all DictKey.isText = true
  why : isReason why = true

/-- An envelope came back, one row at most was written, and the tool ran once at most. -/
structure Answered (call : Call σ) (env : Envelope) : Prop where
  answer : call.answer = .ok env
  rows : call.rows.length ≤ 1
  calls : call.calls.length ≤ 1

/-- The first violated rule is the answer, or none is and the tool ran. -/
def Decided (call : Call σ) (env : Envelope) (violated : Rule → Prop) (name : Text)
    (args : List (DictKey × PyValue)) : Prop :=
  (∃ rule, FirstViolated violated rule ∧ env.reason = some rule.reason ∧
      env.outcome = rule.outcome ∧ call.calls = []) ∨
    ((∀ rule, ¬ violated rule) ∧ call.calls = [(name, args)])

variable {r ctx s}

theorem journal_length (tool : Text) (args : Except Raised (List (DictKey × PyValue)))
    (why : Option Text) (env : Envelope) : (journal ctx s tool args why env).2.length ≤ 1 := by
  unfold journal
  split
  · dsimp only
    split <;> simp
  · simp

theorem journalled_answered (tool : Text) (args : List (DictKey × PyValue)) (why : Option Text)
    (env : Envelope) : Answered (journalled ctx s tool args why env) env :=
  ⟨rfl, journal_length tool (shape args) why env, Nat.zero_le 1⟩

theorem invoke_answered (name : Text) (args : List (DictKey × PyValue)) (why : Option Text) :
    ∃ env, Answered (invoke ctx s name args why) env :=
  ⟨_, rfl, journal_length name (.ok args) why _, Nat.le_refl 1⟩

/-- A call that a rule ends is refused with it. -/
theorem journalled_decided {violated : Rule → Prop} {rule : Rule} {tool : Text}
    {args : List (DictKey × PyValue)} {why : Option Text} {env : Envelope} {name : Text}
    {called : List (DictKey × PyValue)} (first : FirstViolated violated rule)
    (hreason : env.reason = some rule.reason) (houtcome : env.outcome = rule.outcome) :
    ∃ env', Answered (journalled ctx s tool args why env) env' ∧
      Decided (journalled ctx s tool args why env) env' violated name called :=
  ⟨env, journalled_answered tool args why env, .inl ⟨rule, first, hreason, houtcome, rfl⟩⟩

section Gates

variable {name : Text} {args : List (DictKey × PyValue)} {why : Option Text} {tool : ToolSpec}
  (hlookup : r.lookup name = some tool)
include hlookup

theorem registered : ¬ Violates r ctx s name args why .notRegistered := by
  simp [Violates, hlookup]

theorem first_missingWhy (hhalt : ¬ Violates r ctx s name args why .halted)
    (h : (tool.mutates && isBlank why) = true) :
    FirstViolated (Violates r ctx s name args why) .missingWhy := by
  obtain ⟨hm, hb⟩ := Bool.and_eq_true_iff.mp h
  refine ⟨[.notRegistered, .halted], [.badArgs, .noSession], rfl, ⟨tool, hlookup, hm, hb⟩, ?_⟩
  simp [registered hlookup, hhalt]

theorem not_missingWhy (h : (tool.mutates && isBlank why) ≠ true) :
    ¬ Violates r ctx s name args why .missingWhy := by
  intro ⟨tool', hlookup', hm, hb⟩
  cases hlookup.symm.trans hlookup'
  exact h (Bool.and_eq_true_iff.mpr ⟨hm, hb⟩)

theorem first_badArgs (hhalt : ¬ Violates r ctx s name args why .halted)
    (hwhy : ¬ Violates r ctx s name args why .missingWhy)
    (h : 64 < name.length ∨ 500 < (why.getD []).length ∨ ¬ Conforms tool.schema (.dict args)) :
    FirstViolated (Violates r ctx s name args why) .badArgs := by
  refine ⟨[.notRegistered, .halted, .missingWhy], [.noSession], rfl, ⟨tool, hlookup, h⟩, ?_⟩
  simp [registered hlookup, hhalt, hwhy]

theorem not_badArgs (hn : ¬ 64 < name.length) (hw : ¬ 500 < (why.getD []).length)
    (hc : Conforms tool.schema (.dict args)) : ¬ Violates r ctx s name args why .badArgs := by
  intro ⟨tool', hlookup', h⟩
  cases hlookup.symm.trans hlookup'
  exact h.elim hn fun h => h.elim hw fun h => h hc

theorem first_noSession (hhalt : ¬ Violates r ctx s name args why .halted)
    (hwhy : ¬ Violates r ctx s name args why .missingWhy)
    (hargs : ¬ Violates r ctx s name args why .badArgs)
    (h : (tool.needsEgress && !ctx.session s) = true) :
    FirstViolated (Violates r ctx s name args why) .noSession := by
  obtain ⟨he, hs⟩ := Bool.and_eq_true_iff.mp h
  refine ⟨[.notRegistered, .halted, .missingWhy, .badArgs], [], rfl,
    ⟨tool, hlookup, he, by simpa using hs⟩, ?_⟩
  simp [registered hlookup, hhalt, hwhy, hargs]

theorem not_noSession (h : (tool.needsEgress && !ctx.session s) ≠ true) :
    ¬ Violates r ctx s name args why .noSession := by
  intro ⟨tool', hlookup', he, hs⟩
  cases hlookup.symm.trans hlookup'
  exact h (Bool.and_eq_true_iff.mpr ⟨he, by simp [hs]⟩)

/-- The gates below the halt. -/
theorem admitted_decided (hhalt : ¬ Violates r ctx s name args why .halted)
    (answers : Answerable tool.schema (.dict args)) :
    ∃ env, Answered (admitted ctx s tool name args why) env ∧
      Decided (admitted ctx s tool name args why) env (Violates r ctx s name args why) name args := by
  unfold admitted
  split
  next h => exact journalled_decided (first_missingWhy hlookup hhalt h) rfl rfl
  next h =>
    have hwhy : ¬ Violates r ctx s name args why .missingWhy := not_missingWhy hlookup h
    split
    next hlong => exact journalled_decided (first_badArgs hlookup hhalt hwhy (.inl hlong)) rfl rfl
    next hshort =>
      split
      next hlong =>
        exact journalled_decided (first_badArgs hlookup hhalt hwhy (.inr (.inl hlong))) rfl rfl
      next hbrief =>
        obtain ⟨problems, hv⟩ := (validate_answers tool.schema (.dict args) (text "args")).mpr answers
        have hdict : PyObj.validate tool.params (.dict args) (text "args") = .ok problems := by
          rw [validate_checked _ _ _ tool.checked, raising_eq_ok]
          exact hv
        rw [hdict]
        cases problems with
        | cons problem problems =>
            have hc : ¬ Conforms tool.schema (.dict args) := by
              rw [← validate_nil_iff _ _ (text "args"), hv]
              simp
            exact journalled_decided (first_badArgs hlookup hhalt hwhy (.inr (.inr hc))) rfl rfl
        | nil =>
            have hc := (validate_nil_iff _ _ (text "args")).mp hv
            have hargs : ¬ Violates r ctx s name args why .badArgs :=
              not_badArgs hlookup hshort hbrief hc
            simp only
            split
            next h =>
              refine ⟨_, ⟨rfl, journal_length name (.ok args) why _, Nat.zero_le 1⟩,
                .inl ⟨.noSession, first_noSession hlookup hhalt hwhy hargs h, rfl, rfl, rfl⟩⟩
            next h =>
              obtain ⟨env, henv⟩ : ∃ env, Answered (invoke ctx s name args why) env :=
                invoke_answered name args why
              refine ⟨env, henv, .inr ⟨fun rule => ?_, rfl⟩⟩
              cases rule with
              | notRegistered => exact registered hlookup
              | halted => exact hhalt
              | missingWhy => exact hwhy
              | badArgs => exact hargs
              | noSession => exact not_noSession hlookup h

end Gates

/-- The halt answers whenever it is read. -/
structure HaltAnswers (ctx : Context σ) : Prop where
  halted : ∀ s, ∃ b, ctx.halted s = .ok b
  reason : ∀ s, ∃ reason, ctx.haltReason s = .ok reason

/-- The halt gate stops what violates its rule. -/
theorem haltGate_spec (halt : HaltAnswers ctx) {tool : ToolSpec} {name : Text}
    (hlookup : r.lookup name = some tool) (args : List (DictKey × PyValue)) (why : Option Text) :
    (haltGate ctx s tool name = .ok none ∧ ¬ Violates r ctx s name args why .halted) ∨
      ((∃ detail, haltGate ctx s tool name = .ok (some detail)) ∧
        Violates r ctx s name args why .halted) := by
  have only (h : ¬ (tool.mutates = true ∧ ctx.halted s = .ok true ∧ name ∉ haltExempt)) :
      ¬ Violates r ctx s name args why .halted := by
    intro ⟨tool', hlookup', hv⟩
    cases hlookup.symm.trans hlookup'
    exact h hv
  obtain ⟨b, hb⟩ := halt.halted s
  obtain ⟨reason, hreason⟩ := halt.reason s
  unfold haltGate
  rw [hb, hreason]
  by_cases hm : tool.mutates = true
  · by_cases h : (b && !haltExempt.contains name) = true
    · obtain ⟨rfl, hname⟩ := Bool.and_eq_true_iff.mp h
      refine .inr ⟨⟨.halt reason, by simp only [hm, h, if_true]⟩, tool, hlookup, hm, hb, ?_⟩
      simpa using hname
    · refine .inl ⟨by simp only [hm, h, if_true]; rfl, only fun ⟨_, hb', hname⟩ => h ?_⟩
      cases hb.symm.trans hb'
      simpa using hname
  · exact .inl ⟨if_neg hm, only fun h => hm h.1⟩

theorem decideCall_decided (halt : HaltAnswers ctx) {name : Text}
    {args : List (DictKey × PyValue)} (why : Option Text)
    (answers : ∀ tool, r.lookup name = some tool → Answerable tool.schema (.dict args)) :
    ∃ env, Answered (decideCall r ctx s name args why) env ∧
      Decided (decideCall r ctx s name args why) env (Violates r ctx s name args why) name args := by
  unfold decideCall
  cases hlookup : r.lookup name with
  | none =>
      have first : FirstViolated (Violates r ctx s name args why) .notRegistered :=
        ⟨[], [.halted, .missingWhy, .badArgs, .noSession], rfl, hlookup, by simp⟩
      exact journalled_decided first rfl rfl
  | some tool =>
      obtain ⟨hgate, hhalt⟩ | ⟨⟨detail, hgate⟩, hhalt⟩ :=
        haltGate_spec (s := s) halt hlookup args why
      · simp only [hgate]
        exact admitted_decided hlookup hhalt (answers tool hlookup)
      · have first : FirstViolated (Violates r ctx s name args why) .halted := by
          refine ⟨[.notRegistered], [.missingWhy, .badArgs, .noSession], rfl, hhalt, ?_⟩
          simp [registered hlookup]
        simp only [hgate]
        exact journalled_decided first rfl rfl

/-! ## Rows -/

/-- The same names and, where the schema of the tool looks, values that differ in their leaves
alone, of a kind that fails it. -/
structure Twins (r : Registry) (name : Text) (args args' : List (DictKey × PyValue)) : Prop where
  names : (args.map Prod.fst).Perm (args'.map Prod.fst)
  alike : ∀ tool, r.lookup name = some tool →
    Alike tool.schema (.dict args) (.dict args') ∧ ¬ Conforms tool.schema (.dict args)

theorem shape_perm {args args' : List (DictKey × PyValue)}
    (h : (args.map Prod.fst).Perm (args'.map Prod.fst)) : shape args = shape args' := by
  unfold shape
  rw [sortKeys_perm h]

theorem journalled_perm {args args' : List (DictKey × PyValue)}
    (h : (args.map Prod.fst).Perm (args'.map Prod.fst)) (tool : Text) (why : Option Text)
    (env : Envelope) : journalled ctx s tool args why env = journalled ctx s tool args' why env := by
  unfold journalled
  rw [shape_perm h]

/-- A call that fails validation is settled by its names and by what its values break. -/
theorem decideCall_twins {name : Text} {args args' : List (DictKey × PyValue)}
    (h : Twins r name args args') (why : Option Text) :
    decideCall r ctx s name args why = decideCall r ctx s name args' why := by
  have write (env : Envelope) : journalled ctx s name args why env =
      journalled ctx s name args' why env := journalled_perm h.names name why env
  unfold decideCall
  cases hlookup : r.lookup name with
  | none => exact write _
  | some tool =>
      obtain ⟨alike, fails⟩ := h.alike tool hlookup
      have hread := validate_checked _ _ _ tool.checked
      have hsame : PyObj.validate tool.params (.dict args') (text "args") =
          PyObj.validate tool.params (.dict args) (text "args") := by
        rw [hread, hread, validate_alike alike]
      have hnil : PyObj.validate tool.params (.dict args) (text "args") ≠ .ok [] := by
        rw [hread, ne_eq, raising_eq_ok, validate_nil_iff]
        exact fails
      simp only [admitted, hsame, write]
      cases hv : PyObj.validate tool.params (.dict args) (text "args") with
      | error e => rfl
      | ok problems =>
          cases problems with
          | nil => exact absurd hv hnil
          | cons problem problems => rfl

theorem dispatch_shaped {name args why : PyValue} {called : Text}
    {entries : List (DictKey × PyValue)} (h : Shaped name args why called entries) :
    dispatch r ctx s name args why = decideCall r ctx s called entries (safeWhy why) := by
  rw [h.name]
  simp only [dispatch, h.args, h.keys, h.why, Bool.not_true, Bool.false_eq_true, if_false]

/-- A call of another shape is refused before it is looked up. -/
theorem dispatch_misshapen {name args why : PyValue}
    (h : ∀ called entries, ¬ Shaped name args why called entries) :
    ∃ env, Answered (dispatch r ctx s name args why) env ∧ env.reason = some .badArgs ∧
      env.outcome = .refused ∧ (dispatch r ctx s name args why).calls = [] := by
  cases name with
  | str called =>
      cases hargs : argumentsOf args with
      | none =>
          simp only [dispatch, hargs]
          exact ⟨_, journalled_answered _ _ _ _, rfl, rfl, rfl⟩
      | some entries =>
          simp only [dispatch, hargs]
          split
          · exact ⟨_, journalled_answered _ _ _ _, rfl, rfl, rfl⟩
          next hkeys =>
            split
            · exact ⟨_, journalled_answered _ _ _ _, rfl, rfl, rfl⟩
            next hwhy =>
              have shaped : Shaped (.str called) args why called entries :=
                ⟨rfl, hargs, by simpa using hkeys, by simpa using hwhy⟩
              exact absurd shaped (h called entries)
  | _ => exact ⟨_, journalled_answered _ _ _ _, rfl, rfl, rfl⟩

end Decision

/-- Where the halt answers and the arguments are ones that validation answers, every call comes
back as an envelope with one row at most; past the guards on its shape the first violated rule is
its reason, and the tool runs once when there is none. Two calls that fail validation and differ
in the leaves of their arguments alone write the same row. -/
theorem dispatch_settles {σ : Type} (r : Registry) (ctx : Context σ) (halt : HaltAnswers ctx)
    (s : σ) (name args why : PyValue)
    (answers : ∀ called entries tool, Shaped name args why called entries →
      r.lookup called = some tool → Answerable tool.schema (.dict entries)) :
    (∃ env, Answered (dispatch r ctx s name args why) env ∧
      (∀ called entries, Shaped name args why called entries →
        Decided (dispatch r ctx s name args why) env
          (Violates r ctx s called entries (safeWhy why)) called entries) ∧
      ((∀ called entries, ¬ Shaped name args why called entries) →
        env.reason = some .badArgs ∧ env.outcome = .refused ∧
          (dispatch r ctx s name args why).calls = [])) ∧
    ∀ called entries args' entries', Shaped name args why called entries →
      Shaped name args' why called entries' → Twins r called entries entries' →
        (dispatch r ctx s name args' why).rows = (dispatch r ctx s name args why).rows := by
  constructor
  · by_cases shaped : ∃ called entries, Shaped name args why called entries
    · obtain ⟨called, entries, h⟩ := shaped
      obtain ⟨env, henv, hdecided⟩ := decideCall_decided (s := s) halt (safeWhy why)
        fun tool => answers called entries tool h
      rw [← dispatch_shaped h] at henv hdecided
      refine ⟨env, henv, fun called' entries' h' => ?_, fun hno => absurd h (hno called entries)⟩
      cases h.name.symm.trans h'.name
      cases h.args.symm.trans h'.args
      exact hdecided
    · have hno (called : Text) (entries : List (DictKey × PyValue)) :
          ¬ Shaped name args why called entries := fun h => shaped ⟨called, entries, h⟩
      obtain ⟨env, henv, hrefused⟩ := dispatch_misshapen (r := r) hno
      exact ⟨env, henv, fun called entries h => absurd h (hno called entries), fun _ => hrefused⟩
  · intro called entries args' entries' h h' twins
    rw [dispatch_shaped h, dispatch_shaped h', decideCall_twins twins]

/-! ## A tool with one argument -/

def countParams : PyObj :=
  .dict [(.str (text "type"), .str (text "object")),
    (.str (text "additionalProperties"), .bool false),
    (.str (text "properties"), .dict
      [(.str (text "count"), .dict [(.str (text "type"), .str (text "integer"))])])]

def countSchema : Schema := .object [(text "count", .integer none none none)] []

theorem countParams_checked :
    checkSchema countParams (text "crawl.run" ++ text ".params") = .ok countSchema := rfl

def counting : Registry where
  tools := [⟨text "crawl.run", countParams, countSchema, countParams_checked, false, true⟩]
  named := List.nodup_singleton (text "crawl.run")

/-- A world where everything answers but the halt, which does when it is told to. -/
def world (halted : Except Exception Bool) : Context Unit where
  halted := fun _ => halted
  haltReason := fun _ => .ok none
  session := fun _ => true
  runId := fun _ => .ok none
  handler := fun _ _ s => (s, .returned .none)
  insert := fun _ s => (s, true)
  actor := text "agent"

def counted (v : PyValue) : PyValue := .dict [(.str (text "count"), v)]

def broken : Exception := ⟨text "OSError", text "halt"⟩

/-- `dispatch` of the tool, where the halt answers so. -/
def run (halted : Except Exception Bool) (v : PyValue) : Call Unit :=
  dispatch counting (world halted) () (.str (text "crawl.run")) (counted v) (.str (text "go"))

/-- Two calls that fail validation and differ only in a value are told apart by its type, and a
halt that cannot be read gets out of the call. -/
theorem row_names_type :
    ¬ Conforms countSchema (counted .none) ∧ ¬ Conforms countSchema (counted (.str (text "3"))) ∧
      (run (.ok false) .none).rows.map Row.detail ≠
        (run (.ok false) (.str (text "3"))).rows.map Row.detail ∧
      (run (.error broken) .none).answer = .error (.exception broken) := by
  refine ⟨?_, ?_, by decide, rfl⟩
  · rw [← validate_nil_iff countSchema _ (text "args")]
    rintro ⟨⟩
  · rw [← validate_nil_iff countSchema _ (text "args")]
    rintro ⟨⟩

/-- A call without arguments, all the way. -/
theorem no_arguments_settle :
    (∃ env, Answered (dispatch counting (world (.ok false)) () (.str (text "crawl.run")) .none
        (.str (text "go"))) env) := by
  have answers : Answerable countSchema (.dict []) :=
    .object rfl (by simp [unknownKeys]) fun p _ v hv => by cases hv
  obtain ⟨⟨env, henv, _⟩, _⟩ := dispatch_settles counting (world (.ok false))
    ⟨fun _ => ⟨false, rfl⟩, fun _ => ⟨none, rfl⟩⟩ () (.str (text "crawl.run")) .none
    (.str (text "go")) fun called entries tool h hlookup => by
      cases h.args
      have mem := List.mem_of_find?_eq_some hlookup
      simp only [counting, List.mem_singleton] at mem
      rw [mem]
      exact answers
  exact ⟨env, henv⟩

end Hx.Tools
