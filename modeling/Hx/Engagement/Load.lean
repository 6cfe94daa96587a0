import Hx.Identity.Origins
import Hx.Library.Fallible
import Hx.Library.Pieces

/-!
# Loading a configuration

`load_text` reads the tree `yaml.safe_load` makes of a text, field by field, and refuses what it
does not know with a `ConfigError`. A `Config` holds what passed: its fields carry what the loader
has checked of them. Keys of a mapping are any scalars; the message that lists the declared
identities sorts them.
-/

namespace Hx.Engagement

open Hx.Library Hx.Identity

/-! ## Trees -/

/-- The scalars `safe_load` makes. A float is its bits, a point in time a number of
microseconds, with its offset if it has one. -/
inductive Scalar where
  | null
  | bool (b : Bool)
  | int (n : ℤ)
  | float (bits : UInt64)
  | str (s : Text)
  | bytes (b : List UInt8)
  | date (day : ℤ)
  | datetime (moment : ℤ)
  | aware (moment offset : ℤ)
  deriving DecidableEq

inductive Value where
  | scalar (s : Scalar)
  | list (items : List Value)
  | dict (items : List (Scalar × Value))

/-- A mapping, in the order of its keys. -/
abbrev Dict := List (Scalar × Value)

/-- `key in raw` and `raw[key]`. -/
def lookup (d : Dict) (key : String) : Option Value :=
  (d.find? fun entry => entry.1 = .str (text key)).map (·.2)

/-- `raw.get(key)`. -/
def get (d : Dict) (key : String) : Value := (lookup d key).getD (.scalar .null)

/-- What `or {}` replaces. -/
def falsy : Value → Bool
  | .scalar .null => true
  | .scalar (.bool b) => !b
  | .scalar (.int n) => n = 0
  | .scalar (.float bits) => bits = 0 ∨ bits = 0x8000000000000000
  | .scalar (.str s) => s.isEmpty
  | .scalar (.bytes b) => b.isEmpty
  | .scalar _ => false
  | .list items => items.isEmpty
  | .dict items => items.isEmpty

/-- The YAML library, on texts of some type, and the texts Python makes of values: `repr`, the
name of a type, `str` of a name, and `repr` of names once they are sorted. -/
structure Runtime (τ : Type) where
  load : τ → Except String Value
  dump : Value → τ
  undo : ∀ v, load (dump v) = .ok v
  repr : Value → String
  typeName : Value → String
  spell : Scalar → String
  sorted : List Scalar → String
  lowering : Lowering

inductive Raised where
  | configError (message : String)
  | typeError

abbrev Load := Except Raised

def refuse {α : Type} (message : String) : Load α := .error (.configError message)

/-! ## What is declared -/

/-- A text that is more than blanks. -/
abbrev NonBlank := { s : Text // strip s ≠ [] }

abbrev Positive := { n : ℤ // 1 ≤ n }

inductive Profile where
  | production
  | staging

def Profile.text : Profile → String
  | .production => "production"
  | .staging => "staging"

/-- The keys of `DEFAULT_CHECKS`. -/
inductive CheckClass where
  | passive
  | activeSafe
  | activeTiming
  | activeMutate
  | activeDos
  deriving DecidableEq

def CheckClass.text : CheckClass → String
  | .passive => "passive"
  | .activeSafe => "active_safe"
  | .activeTiming => "active_timing"
  | .activeMutate => "active_mutate"
  | .activeDos => "active_dos"

def checkClasses : List CheckClass :=
  [.passive, .activeSafe, .activeTiming, .activeMutate, .activeDos]

/-- `Config.checks`: which classes are on. -/
structure Checks where
  passive : Bool := true
  activeSafe : Bool := true
  activeTiming : Bool := true
  activeMutate : Bool := false
  activeDos : Bool := false

def Checks.set (checks : Checks) (b : Bool) : CheckClass → Checks
  | .passive => { checks with passive := b }
  | .activeSafe => { checks with activeSafe := b }
  | .activeTiming => { checks with activeTiming := b }
  | .activeMutate => { checks with activeMutate := b }
  | .activeDos => { checks with activeDos := b }

inductive Strategy where
  | static
  | programmatic
  deriving DecidableEq

def Strategy.text : Strategy → String
  | .static => "static"
  | .programmatic => "programmatic"

/-- `CREDENTIAL_HEADERS`. -/
inductive Header where
  | cookie
  | authorization
  | proxyAuthorization

def Header.text : Header → String
  | .cookie => "Cookie"
  | .authorization => "Authorization"
  | .proxyAuthorization => "Proxy-Authorization"

structure Liveness where
  path : Text
  rooted : path.head? = some (chr 47)
  expectBody : NonBlank
  expectAbsent : Option NonBlank
  everyNProbes : Positive

/-- `Refresh`, whose `value_from` is always `stdout`. -/
structure Refresh where
  command : List Text
  some_ : command ≠ []

/-- An entry of `origins` as it is kept: its ends stripped, and it names a host. -/
structure Origin (L : Lowering) where
  text : Text
  stripped : strip text = text
  some_ : text ≠ []
  host : originHost L text ≠ [] ∧ (originHost L text).all isOriginHostChar = true

/-- An identity under its name, which may be any scalar. -/
structure Identity (L : Lowering) where
  id : Scalar
  strategy : Strategy
  header : Header
  valueFromEnv : Option NonBlank
  liveness : Liveness
  refresh : Option Refresh
  origins : List (Origin L)
  named : strategy = .static → valueFromEnv ≠ none
  renewed : refresh.isSome = true ↔ strategy = .programmatic

structure Config (L : Lowering) where
  name : NonBlank
  client : NonBlank
  safetyProfile : Profile
  scopeInclude : List NonBlank
  scopeExclude : List NonBlank
  renderAllow : List NonBlank
  dangerousPaths : List NonBlank
  checks : Checks
  rateLimitRps : Positive
  rateBurst : Option Positive
  maxRequests : Positive
  maxConcurrency : Positive
  identities : List (Identity L)
  scanIdentity : Option Text
  preserveSegments : List NonBlank
  slugThreshold : Positive
  included : scopeInclude ≠ []
  declared : ∀ name, scanIdentity = some name → .str name ∈ identities.map Identity.id

/-! ## The readers -/

theorem one_le_two : (1 : ℤ) ≤ 2 := by decide

theorem one_le_five : (1 : ℤ) ≤ 5 := by decide

theorem one_le_twelve : (1 : ℤ) ≤ 12 := by decide

theorem one_le_twentyFive : (1 : ℤ) ≤ 25 := by decide

theorem one_le_twoThousand : (1 : ℤ) ≤ 2000 := by decide

section Readers

variable {τ : Type} (R : Runtime τ)

/-- `_mapping`. -/
def mapping (d : Dict) (key : String) : Load Dict :=
  match get d key with
  | .scalar .null => .ok []
  | .dict items => .ok items
  | v => refuse s!"{key} must be a mapping, got {R.typeName v}"

def strings : List Value → Option (List Text)
  | [] => some []
  | .scalar (.str s) :: rest => (strings rest).map (s :: ·)
  | _ :: _ => none

/-- `check_entries`, from an index on. -/
def checkEntries (key : String) : ℕ → List Text → Load (List NonBlank)
  | _, [] => .ok []
  | i, x :: rest =>
      if h : strip x ≠ [] then (checkEntries key (i + 1) rest).map (⟨x, h⟩ :: ·)
      else refuse s!"{key}[{i}] is blank; remove the entry or give it a value"

/-- `_string_list`. -/
def stringList (d : Dict) (key : String) (default_ : List NonBlank) : Load (List NonBlank) :=
  match get d key with
  | .scalar .null => .ok default_
  | .list items =>
      match strings items with
      | none => refuse s!"every entry in {key} must be a string"
      | some texts => checkEntries key 0 texts
  | v => refuse s!"{key} must be a list, got {R.typeName v}"

/-- `_positive_int`. -/
def positiveInt (d : Dict) (key : String) (default_ : Positive) : Load Positive :=
  match lookup d key with
  | none => .ok default_
  | some (.scalar (.int n)) =>
      if h : 1 ≤ n then .ok ⟨n, h⟩
      else refuse s!"{key} must be an integer >= 1, got {R.repr (.scalar (.int n))}"
  | some v => refuse s!"{key} must be an integer >= 1, got {R.repr v}"

/-- `name` and `client`. -/
def required (d : Dict) (key : String) : Load NonBlank :=
  let refusal := s!"config key '{key}' must be a non-empty string, got {R.repr (get d key)} " ++
    s!"({R.typeName (get d key)})"
  match get d key with
  | .scalar (.str s) => if h : strip s ≠ [] then .ok ⟨s, h⟩ else refuse refusal
  | _ => refuse refusal

def profile (d : Dict) : Load Profile :=
  match (lookup d "safety_profile").getD (.scalar (.str (text "production"))) with
  | .scalar (.str s) =>
      if s = text "production" then .ok .production
      else if s = text "staging" then .ok .staging
      else refuse ("safety_profile must be one of ('production', 'staging'), got " ++
        R.repr (.scalar (.str s)))
  | v => refuse ("safety_profile must be one of ('production', 'staging'), got " ++ R.repr v)

def classOf (key : Scalar) : Option CheckClass :=
  checkClasses.find? fun c => key = .str (text c.text)

/-- One turn of the loop over `checks`. -/
def setCheck (checks : Checks) (entry : Scalar × Value) : Load Checks :=
  match classOf entry.1, entry.2 with
  | none, _ => refuse (s!"checks.{R.spell entry.1} is not a valid check class. Valid classes are: " ++
      ", ".intercalate (checkClasses.map CheckClass.text))
  | some c, .scalar (.bool b) => .ok (checks.set b c)
  | some c, v => refuse s!"checks.{c.text} must be a boolean, got {R.typeName v}"

end Readers

/-! ## Identities -/

section Identities

variable {τ : Type} (R : Runtime τ) (name : Scalar)

def strategyOf : Value → Option Strategy
  | .scalar (.str s) =>
      if s = text "static" then some .static
      else if s = text "programmatic" then some .programmatic else none
  | _ => none

def headerOf : Value → Option Header
  | .scalar (.str s) =>
      if s = text "Cookie" then some .cookie
      else if s = text "Authorization" then some .authorization
      else if s = text "Proxy-Authorization" then some .proxyAuthorization else none
  | _ => none

/-- A text that is more than blanks, or nothing. -/
def optional (v : Value) (refusal : String) : Load (Option NonBlank) :=
  match v with
  | .scalar .null => .ok none
  | .scalar (.str s) => if h : strip s ≠ [] then .ok (some ⟨s, h⟩) else refuse refusal
  | _ => refuse refusal

def liveness (raw : Dict) : Load Liveness := do
  let live ← mapping R raw "liveness"
  if live = [] then
    refuse (s!"identities.{R.spell name} has no liveness block. An identity that cannot prove it " ++
      "is live can never be `proven`, and traffic issued under it is indistinguishable from " ++
      "anonymous traffic")
  else
    let expect ← optional (get live "expect_body") (unread name)
    match expect with
    | none => refuse (unread name)
    | some expect =>
        match get live "path" with
        | .scalar (.str path) =>
            if rooted : path.head? = some (chr 47) then do
              let absent ← optional (get live "expect_absent")
                (s!"identities.{R.spell name}.liveness.expect_absent, when given, must be a " ++
                  "non-empty string")
              let every ← positiveInt R live "every_n_probes" ⟨25, one_le_twentyFive⟩
              return ⟨path, rooted, expect, absent, every⟩
            else refuse (unrooted name (.scalar (.str path)))
        | v => refuse (unrooted name v)
where
  unread (name : Scalar) : String :=
    s!"identities.{R.spell name}.liveness.expect_body is required and must be a non-empty " ++
      "string: a signature only an AUTHENTICATED response carries. A status code is not one -- " ++
      "a 200 login page has one too, and accepting that is the exact defect this declaration " ++
      "exists to close"
  unrooted (name : Scalar) (v : Value) : String :=
    s!"identities.{R.spell name}.liveness.path must be an origin-form path starting with '/', " ++
      s!"got {R.repr v}"

/-- The command of a `refresh` block that is not empty. -/
def refreshOf (raw : Dict) : Load Refresh :=
  match get raw "command" with
  | .list items =>
      if items = [] then refuse (notAList name)
      else
        match strings items with
        | none => refuse
            s!"every entry in identities.{R.spell name}.refresh.command must be a string"
        | some command =>
            if some_ : command ≠ [] then
              match (lookup raw "value_from").getD (.scalar (.str (text "stdout"))) with
              | .scalar (.str s) =>
                  if s = text "stdout" then .ok ⟨command, some_⟩
                  else refuse (notStdout name (.scalar (.str s)))
              | v => refuse (notStdout name v)
            else refuse (notAList name)
  | _ => refuse (notAList name)
where
  notAList (name : Scalar) : String :=
    s!"identities.{R.spell name}.refresh.command must be a non-empty list of arguments, never a " ++
      "string: it is executed without a shell, and a string would invite one"
  notStdout (name : Scalar) (v : Value) : String :=
    s!"identities.{R.spell name}.refresh.value_from must be 'stdout', got {R.repr v}"

theorem originHost_strip (L : Lowering) (entry : Text) :
    originHost L (strip entry) = originHost L entry := by
  have twice : strip (strip entry) = strip entry := ends_idempotent isSpace entry
  rw [originHost, originHost, twice]

/-- An entry of `origins`. -/
def originOf : Value → Load (Origin R.lowering)
  | .scalar (.str entry) =>
      if some_ : strip entry ≠ [] then
        if host : originHost R.lowering entry ≠ [] ∧
            (originHost R.lowering entry).all isOriginHostChar = true then
          .ok ⟨strip entry, ends_idempotent isSpace entry, some_,
            (originHost_strip R.lowering entry).symm ▸ host⟩
        else refuse (s!"identities.{R.spell name}.origins entry {R.repr (.scalar (.str entry))} " ++
          "names no host the send path can match. An origin is a host (`api.acme.test`) or a " ++
          "URL prefix (`https://api.acme.test/`); the extension reads everything after '://' " ++
          "and before the first '/', ':' or '?' and compares it to the host it is about to " ++
          s!"connect to, and {R.repr (.scalar (.str (originHost R.lowering entry)))} can " ++
          "never equal one. A glob is not an origin -- it would bound the credential to nothing " ++
          "and refuse every probe")
      else refuse (blank (.scalar (.str entry)))
  | v => refuse (blank v)
where
  blank (v : Value) : String :=
    s!"every entry in identities.{R.spell name}.origins must be a non-empty string, got {R.repr v}"

/-- `_origins`. -/
def originsOf (raw : Dict) : Load (List (Origin R.lowering)) :=
  match lookup raw "origins" with
  | none => .ok []
  | some (.list (entry :: rest)) => (entry :: rest).mapM (originOf R name)
  | some _ => refuse (s!"identities.{R.spell name}.origins must be a non-empty list of hosts or " ++
      "URL prefixes when given; omit the key entirely to bound the credential to the one host " ++
      "the liveness canary proves, which is the default and the safe answer")

theorem static_renewed : (none : Option Refresh).isSome = true ↔ Strategy.static = .programmatic := by
  decide

theorem programmatic_renewed (refresh : Refresh) :
    (some refresh).isSome = true ↔ Strategy.programmatic = .programmatic :=
  ⟨fun _ => rfl, fun _ => rfl⟩

/-- `_identity`. -/
def identity (v : Value) : Load (Identity R.lowering) :=
  match v with
  | .dict raw =>
      match strategyOf (get raw "strategy") with
      | none => refuse (s!"identities.{R.spell name}.strategy must be one of ('static', " ++
          "'programmatic'), got " ++ R.repr (get raw "strategy"))
      | some strategy => do
          let inject ← mapping R raw "inject"
          match headerOf (get inject "header") with
          | none => refuse (s!"identities.{R.spell name}.inject.header must be one of ('Cookie', " ++
              "'Authorization', 'Proxy-Authorization'), got " ++ R.repr (get inject "header"))
          | some header => do
              let env ← optional (get inject "value_from_env")
                (s!"identities.{R.spell name}.inject.value_from_env must be a non-empty string " ++
                  "naming an environment variable when given; a credential may not be written here")
              if named : strategy = .static → env ≠ none then do
                let live ← liveness R name raw
                let raw_ ← mapping R raw "refresh"
                match strategy, named, raw_ with
                | .static, named, [] => do
                    let origins ← originsOf R name raw
                    return ⟨name, .static, header, env, live, none, origins, named, static_renewed⟩
                | .static, _, _ :: _ =>
                    refuse (s!"identities.{R.spell name} is static and may not declare refresh: " ++
                      "there is no command to re-run, and a static credential that expired is a " ++
                      "dead session, not a refreshable one")
                | .programmatic, _, [] =>
                    refuse s!"identities.{R.spell name} is programmatic and must declare refresh"
                | .programmatic, named, _ :: _ => do
                    let refresh ← refreshOf R name raw_
                    let origins ← originsOf R name raw
                    return ⟨name, .programmatic, header, env, live, some refresh, origins, named,
                      programmatic_renewed refresh⟩
              else refuse (s!"identities.{R.spell name}.inject.value_from_env is required for a " ++
                "static identity: it is the only source of the credential a static identity has, " ++
                "and the config must name where the secret comes from without ever holding it")
  | _ => refuse s!"identities.{R.spell name} must be a mapping"

end Identities

/-! ## The whole -/

section Whole

variable {τ : Type} (R : Runtime τ)

/-- What `sorted` compares: numbers, texts, byte strings, dates and the two kinds of points in
time, each among themselves. -/
def sortClass : Scalar → ℕ
  | .null => 0
  | .bool _ => 1
  | .int _ => 1
  | .float _ => 1
  | .str _ => 2
  | .bytes _ => 3
  | .date _ => 4
  | .datetime _ => 5
  | .aware _ _ => 6

/-- Names that `sorted` puts in order. It raises a `TypeError` on others. -/
def Sortable (names : List Scalar) : Prop :=
  names.length ≤ 1 ∨ ∀ a ∈ names, ∀ b ∈ names, sortClass a = sortClass b ∧ sortClass a ≠ 0

instance (names : List Scalar) : Decidable (Sortable names) :=
  inferInstanceAs (Decidable (_ ∨ _))

/-- What is read of a document before its `scan_identity`. -/
structure Front (L : Lowering) where
  name : NonBlank
  client : NonBlank
  profile : Profile
  include_ : List NonBlank
  checks : Checks
  identities : List (Identity L)
  included : include_ ≠ []

def front (d : Dict) : Load (Front R.lowering) := do
  let name ← required R d "name"
  let client ← required R d "client"
  let profile ← profile R d
  let scope ← mapping R d "scope"
  let include_ ← stringList R scope "include" []
  if included : include_ ≠ [] then do
    let raw ← mapping R d "checks"
    let checks ← raw.foldlM (setCheck R) {}
    let declared ← mapping R d "identities"
    let identities ← declared.mapM fun entry => identity R entry.1 entry.2
    return ⟨name, client, profile, include_, checks, identities, included⟩
  else refuse "scope.include must list at least one target pattern"

theorem none_declared (names : List Scalar) :
    ∀ name, (none : Option Text) = some name → .str name ∈ names := by
  intro name same
  contradiction

theorem some_declared {names : List Scalar} {s : Text} (there : .str s ∈ names) :
    ∀ name, some s = some name → .str name ∈ names := by
  rintro _ ⟨⟩
  exact there

/-- `scan_identity`, against the names that are declared. -/
def scanIdentity (d : Dict) (names : List Scalar) :
    Load { found : Option Text // ∀ name, found = some name → .str name ∈ names } :=
  match get d "scan_identity" with
  | .scalar .null => .ok ⟨none, none_declared names⟩
  | .scalar (.str s) =>
      if there : .str s ∈ names then .ok ⟨some s, some_declared there⟩
      else if Sortable names then
        refuse (s!"scan_identity names {R.repr (.scalar (.str s))}, which is not a declared " ++
          "identity. Declared: " ++ if names = [] then "none" else R.sorted names)
      else .error .typeError
  | v => refuse s!"scan_identity must be a string, got {R.typeName v}"

/-- `DEFAULT_DANGEROUS_PATHS`, and the default of `preserve_segments`. -/
def dangerousPaths : List String :=
  ["*/logout*", "*/signout*", "*/password*", "*/change-password*", "*/reset*", "*/delete*",
    "*/purge*", "*/deactivate*", "*/close-account*"]

def preserveSegments : List String := ["api", "v1", "v2", "v3"]

/-- Texts none of which is blank. -/
def nonBlank (texts : List String) : List NonBlank :=
  texts.filterMap fun t => if h : strip (text t) ≠ [] then some ⟨text t, h⟩ else none

/-- `rate_burst`, if it is there. -/
def rateBurst (d : Dict) : Load (Option Positive) :=
  match get d "rate_burst" with
  | .scalar .null => .ok none
  | _ => (positiveInt R d "rate_burst" ⟨5, one_le_five⟩).map some

/-- The mapping at the root. -/
def loadDict (d : Dict) : Load (Config R.lowering) := do
  let f ← front R d
  let scan ← scanIdentity R d (f.identities.map Identity.id)
  let scope ← mapping R d "scope"
  let exclude ← stringList R scope "exclude" []
  let renderAllow ← stringList R d "render_allow" []
  let dangerous ← stringList R d "dangerous_paths" (nonBlank dangerousPaths)
  let rate ← positiveInt R d "rate_limit_rps" ⟨5, one_le_five⟩
  let burst ← rateBurst R d
  let requests ← positiveInt R d "max_requests" ⟨2000, one_le_twoThousand⟩
  let concurrency ← positiveInt R d "max_concurrency" ⟨2, one_le_two⟩
  let preserve ← stringList R d "preserve_segments" (nonBlank preserveSegments)
  let slug ← positiveInt R d "slug_threshold" ⟨12, one_le_twelve⟩
  return {
    name := f.name, client := f.client, safetyProfile := f.profile
    scopeInclude := f.include_, scopeExclude := exclude
    renderAllow := renderAllow, dangerousPaths := dangerous, checks := f.checks
    rateLimitRps := rate, rateBurst := burst, maxRequests := requests, maxConcurrency := concurrency
    identities := f.identities, scanIdentity := scan.1
    preserveSegments := preserve, slugThreshold := slug
    included := f.included, declared := scan.2 }

/-- `load_text`. -/
def loadText (t : τ) : Load (Config R.lowering) :=
  match R.load t with
  | .error problem => refuse s!"invalid YAML: {problem}"
  | .ok v =>
      if falsy v then loadDict R []
      else
        match v with
        | .dict d => loadDict R d
        | _ => refuse "config root must be a mapping"

end Whole

/-! ## The writer -/

section Writer

variable {L : Lowering}

def str (s : String) : Scalar := .str (text s)

def textValue (s : Text) : Value := .scalar (.str s)

def intValue (n : Positive) : Value := .scalar (.int n.1)

def listValue (items : List NonBlank) : Value := .list (items.map fun s => textValue s.1)

/-- A key that is written only where there is something under it. -/
def keyed (key : String) (v : Option Value) : Dict := (v.map fun v => (str key, v)).toList

/-- `_identity_yaml`. -/
def identityYaml (i : Identity L) : Value :=
  .dict (
    [(str "strategy", textValue (text i.strategy.text)),
      (str "inject", .dict ((str "header", textValue (text i.header.text)) ::
        keyed "value_from_env" (i.valueFromEnv.map fun s => textValue s.1))),
      (str "liveness", .dict (
        [(str "path", textValue i.liveness.path),
          (str "expect_body", textValue i.liveness.expectBody.1),
          (str "every_n_probes", intValue i.liveness.everyNProbes)] ++
        keyed "expect_absent" (i.liveness.expectAbsent.map fun s => textValue s.1)))] ++
    keyed "refresh" (i.refresh.map fun r => .dict
      [(str "command", .list (r.command.map textValue)),
        (str "value_from", textValue (text "stdout"))]) ++
    keyed "origins" (if i.origins = [] then none
      else some (.list (i.origins.map fun o => textValue o.text))))

def checksYaml (checks : Checks) : Value :=
  .dict [(str "passive", .scalar (.bool checks.passive)),
    (str "active_safe", .scalar (.bool checks.activeSafe)),
    (str "active_timing", .scalar (.bool checks.activeTiming)),
    (str "active_mutate", .scalar (.bool checks.activeMutate)),
    (str "active_dos", .scalar (.bool checks.activeDos))]

/-- The mapping `dumps` writes. -/
def dumped (c : Config L) : Dict :=
  [(str "name", textValue c.name.1),
    (str "client", textValue c.client.1),
    (str "safety_profile", textValue (text c.safetyProfile.text)),
    (str "scope", .dict [(str "include", listValue c.scopeInclude),
      (str "exclude", listValue c.scopeExclude)]),
    (str "render_allow", listValue c.renderAllow),
    (str "dangerous_paths", listValue c.dangerousPaths),
    (str "checks", checksYaml c.checks),
    (str "rate_limit_rps", intValue c.rateLimitRps),
    (str "rate_burst", (c.rateBurst.map intValue).getD (.scalar .null)),
    (str "max_requests", intValue c.maxRequests),
    (str "max_concurrency", intValue c.maxConcurrency),
    (str "identities", .dict (c.identities.map fun i => (i.id, identityYaml i))),
    (str "scan_identity", (c.scanIdentity.map textValue).getD (.scalar .null)),
    (str "preserve_segments", listValue c.preserveSegments),
    (str "slug_threshold", intValue c.slugThreshold)]

/-- `dumps`. -/
def dumps {τ : Type} (R : Runtime τ) (c : Config R.lowering) : τ := R.dump (.dict (dumped c))

end Writer

end Hx.Engagement
