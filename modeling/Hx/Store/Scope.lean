import Hx.Library.Lowering
import Hx.Library.Transition

/-!
# The scope of record

An engagement keeps its scope twice: as the rows of `scope_version`, which are only ever appended,
and as the text of `config.yaml`, which anybody can edit. Recording a version is two steps, the row
and then the file, and a crash can fall between any two steps. `open_` takes the row with the latest
clock reading for the scope of record, whatever order the rows were appended in.
-/

namespace Hx.Store

open Hx.Library

/-! ## What is on disk -/

/-- A row of `scope_version`: what was recorded, its text, and the clock then. -/
structure ScopeVersion (Config : Type) where
  config : Config
  yaml : Text
  effectiveFromUs : Int

/-- `hx.db`. Rows are listed in `rowid` order. -/
structure Database (Config : Type) where
  userVersion : Nat
  engagements : Nat
  versions : List (ScopeVersion Config)

/-- The directory of an engagement, and `config.yaml` and `hx.db` in it. -/
structure Disk (Config : Type) where
  root : Bool
  file : Option Text
  db : Option (Database Config)

/-- `SCHEMA_VERSION`. -/
def schemaVersion : Nat := 9

/-- What `read_text` makes of a file: every line ends in a line feed. -/
def readText : Text → Text
  | [] => []
  | [c] => [if c.val = 13 then chr 10 else c]
  | c :: d :: rest =>
      if c.val = 13 ∧ d.val = 10 then chr 10 :: readText rest
      else (if c.val = 13 then chr 10 else c) :: readText (d :: rest)

theorem readText_of_plain {s : Text} (plain : ∀ c ∈ s, c.val ≠ 13) : readText s = s := by
  induction s with
  | nil => rfl
  | cons c rest ih =>
      rw [List.forall_mem_cons] at plain
      cases rest with
      | nil => rw [readText, if_neg plain.1]
      | cons d rest =>
          rw [readText, if_neg fun h => plain.1 h.1, if_neg plain.1, ih plain.2]

/-- `ORDER BY effective_from_us DESC, rowid DESC LIMIT 1`. -/
def latestVersion {Config : Type} : List (ScopeVersion Config) → Option (ScopeVersion Config)
  | [] => none
  | v :: rest =>
      match latestVersion rest with
      | none => some v
      | some best => if best.effectiveFromUs < v.effectiveFromUs then some v else some best

section Scope

variable {Config : Type} (dumps : Config → Text) (load : Text → Option Config)

/-- `open_`: the configuration of the engagement it returns. -/
def open_ (d : Disk Config) : Option Config :=
  match d.db with
  | none => none
  | some db =>
      if db.userVersion ≠ schemaVersion then none
      else if db.engagements ≠ 1 then none
      else
        match d.file with
        | none => none
        | some file =>
            match load (readText file) with
            | none => none
            | some config =>
                match latestVersion db.versions with
                | none => some config
                | some v => if readText file ≠ v.yaml then none else some config

/-! ## What happens to it -/

/-- Where the one writer stands: inside `create`, and what it has written, or inside
`record_scope_version`, past the row. -/
inductive Stage (Config : Type) where
  | idle
  | rooted (config : Config)
  | written (config : Config)
  | connected (config : Config)
  | prepared (config : Config)
  | recorded
  | appended (config : Config)

structure Site (Config : Type) where
  disk : Disk Config
  stage : Stage Config

/-- What happens next. A crash leaves the disk as it is; `create` clears up after an exception. -/
inductive Act (Config : Type) where
  | madeRoot (config : Config)
  | wroteConfig
  | connected
  | initSchema
  | createdRows (now : Int)
  | created
  | appended (config : Config) (now : Int)
  | replaced
  | crashed
  | cleared
  | edited (file : Option Text)

/-- `_record_scope`. -/
def recordScope (config : Config) (now : Int) (versions : List (ScopeVersion Config)) :
    List (ScopeVersion Config) := versions ++ [⟨config, dumps config, now⟩]

inductive Move : Site Config → Act Config → Site Config → Prop where
  | madeRoot {d : Disk Config} (config : Config) (absent : d.root = false) :
      Move ⟨d, .idle⟩ (.madeRoot config) ⟨{ d with root := true }, .rooted config⟩
  | wroteConfig {d : Disk Config} {config : Config} :
      Move ⟨d, .rooted config⟩ .wroteConfig
        ⟨{ d with file := some (dumps config) }, .written config⟩
  | connected {d : Disk Config} {config : Config} :
      Move ⟨d, .written config⟩ .connected ⟨{ d with db := some ⟨0, 0, []⟩ }, .connected config⟩
  | initSchema {d : Disk Config} {db : Database Config} {config : Config}
      (there : d.db = some db) :
      Move ⟨d, .connected config⟩ .initSchema
        ⟨{ d with db := some { db with userVersion := schemaVersion } }, .prepared config⟩
  | createdRows {d : Disk Config} {db : Database Config} {config : Config} (now : Int)
      (there : d.db = some db) :
      Move ⟨d, .prepared config⟩ (.createdRows now)
        ⟨{ d with db := some { db with
            engagements := db.engagements + 1
            versions := recordScope dumps config now db.versions } }, .recorded⟩
  | created {d : Disk Config} : Move ⟨d, .recorded⟩ .created ⟨d, .idle⟩
  | appended {d : Disk Config} {db : Database Config} (config : Config) (now : Int)
      (there : d.db = some db) (one : db.engagements = 1) :
      Move ⟨d, .idle⟩ (.appended config now)
        ⟨{ d with db := some { db with versions := recordScope dumps config now db.versions } },
          .appended config⟩
  | replaced {d : Disk Config} {config : Config} :
      Move ⟨d, .appended config⟩ .replaced ⟨{ d with file := some (dumps config) }, .idle⟩
  | crashed {d : Disk Config} {stage : Stage Config} : Move ⟨d, stage⟩ .crashed ⟨d, .idle⟩
  | cleared {d : Disk Config} {stage : Stage Config} (inside : stage ≠ .idle)
      (creating : ∀ config, stage ≠ .appended config) :
      Move ⟨d, stage⟩ .cleared ⟨⟨false, none, none⟩, .idle⟩
  | edited {d : Disk Config} {stage : Stage Config} (file : Option Text) (there : d.root = true) :
      Move ⟨d, stage⟩ (.edited file) ⟨{ d with file := file }, stage⟩

/-- All sequences of these, from an empty place. -/
def engagement : System (Site Config) (Act Config) where
  init s := s = ⟨⟨false, none, none⟩, .idle⟩
  step := Move dumps

/-! ## The clock and the text -/

/-- A version that is recorded at a clock reading no earlier than those on file, with a configuration
whose text reads back as it was written and loads as it was. -/
structure Dated (d : Disk Config) (config : Config) (now : Int) : Prop where
  plain : readText (dumps config) = dumps config
  loads : load (dumps config) = some config
  later : ∀ db, d.db = some db → ∀ v ∈ db.versions, v.effectiveFromUs ≤ now

/-- Every version that the act records is dated. -/
def Ordered (s : Site Config) : Act Config → Prop
  | .createdRows now => ∀ config, s.stage = .prepared config → Dated dumps load s.disk config now
  | .appended config now => Dated dumps load s.disk config now
  | _ => True

/-- `open_` returns an engagement exactly when `config.yaml` reads as the row that was appended
last, with the configuration of that row. -/
def InForce (d : Disk Config) : Prop :=
  ∀ config, open_ load d = some config ↔
    ∃ db v, d.db = some db ∧ db.versions.getLast? = some v ∧
      d.file.map readText = some v.yaml ∧ config = v.config

/-- What is kept of the rows. -/
structure Rows (db : Database Config) : Prop where
  loads : ∀ v ∈ db.versions, load v.yaml = some v.config
  ordered : db.versions.Pairwise fun v w => v.effectiveFromUs ≤ w.effectiveFromUs
  whole : db.versions ≠ [] → db.userVersion = schemaVersion ∧ db.engagements = 1
  empty : db.versions = [] → db.engagements = 0

/-- What is kept by every act. -/
structure Kept (s : Site Config) : Prop where
  rows : ∀ db, s.disk.db = some db → Rows load db
  connected : ∀ config, s.stage = .connected config →
    ∃ db, s.disk.db = some db ∧ db.versions = []
  prepared : ∀ config, s.stage = .prepared config →
    ∃ db, s.disk.db = some db ∧ db.versions = [] ∧ db.userVersion = schemaVersion
  appended : ∀ config, s.stage = .appended config →
    readText (dumps config) = dumps config ∧
      ∃ db v, s.disk.db = some db ∧ db.versions.getLast? = some v ∧ v.yaml = dumps config

variable {dumps load}

theorem latestVersion_eq_getLast {versions : List (ScopeVersion Config)}
    (ordered : versions.Pairwise fun v w => v.effectiveFromUs ≤ w.effectiveFromUs) :
    latestVersion versions = versions.getLast? := by
  induction versions with
  | nil => rfl
  | cons v rest ih =>
      rw [List.pairwise_cons] at ordered
      rw [latestVersion, ih ordered.2]
      cases hlast : rest.getLast? with
      | none =>
          rw [List.getLast?_eq_none_iff] at hlast
          rw [hlast]
          rfl
      | some best =>
          have hle := ordered.1 best (List.mem_of_getLast? hlast)
          have : ¬ best.effectiveFromUs < v.effectiveFromUs := by omega
          simp only [this, if_false]
          rw [List.getLast?_cons, hlast]
          rfl

/-- A file that does not read as the latest row is refused. -/
theorem open_eq_none {d : Disk Config} {db : Database Config} {v : ScopeVersion Config}
    (hdb : d.db = some db) (hv : latestVersion db.versions = some v)
    (diverges : ∀ file, d.file = some file → readText file ≠ v.yaml) : open_ load d = none := by
  unfold open_
  rw [hdb]
  simp only
  split
  · rfl
  · split
    · rfl
    · cases hfile : d.file with
      | none => rfl
      | some file =>
          simp only
          cases load (readText file) with
          | none => rfl
          | some config =>
              simp only [hv]
              rw [if_pos (diverges file hfile)]

theorem Kept.inForce {s : Site Config} (kept : Kept dumps load s) : InForce load s.disk := by
  intro config
  unfold open_
  cases hdb : s.disk.db with
  | none => simp
  | some db =>
      have rows := kept.rows db hdb
      simp only [Option.some.injEq]
      rw [latestVersion_eq_getLast rows.ordered]
      cases hlast : db.versions.getLast? with
      | none =>
          have := rows.empty (List.getLast?_eq_none_iff.mp hlast)
          simp [this, hlast]
      | some v =>
          have hmem := List.mem_of_getLast? hlast
          obtain ⟨hversion, hone⟩ := rows.whole (List.ne_nil_of_mem hmem)
          have hload := rows.loads v hmem
          cases hfile : s.disk.file with
          | none => simp [hversion, hone]
          | some file =>
              by_cases heq : readText file = v.yaml
              · simp [hversion, hone, heq, hload, hlast, eq_comm]
              · cases hread : load (readText file) with
                | none => simp [hversion, hone, heq, hread, hlast]
                | some config' => simp [hversion, hone, heq, hread, hlast]

theorem rows_recordScope {db : Database Config} (rows : Rows load db) {config : Config} {now : Int}
    {d : Disk Config} (hdb : d.db = some db) (dated : Dated dumps load d config now)
    {userVersion engagements : Nat} (hversion : userVersion = schemaVersion)
    (hone : engagements = 1) :
    Rows load ⟨userVersion, engagements, recordScope dumps config now db.versions⟩ where
  loads := by
    intro v hv
    obtain hv | hv := List.mem_append.mp hv
    · exact rows.loads v hv
    · cases List.mem_singleton.mp hv
      exact dated.loads
  ordered := by
    refine List.pairwise_append.mpr ⟨rows.ordered, List.pairwise_singleton _ _, ?_⟩
    intro v hv w hw
    cases List.mem_singleton.mp hw
    exact dated.later db hdb v hv
  whole := fun _ => ⟨hversion, hone⟩
  empty := fun h => absurd h (by simp [recordScope])

/-- Every dated act keeps what is kept. -/
theorem Kept.move {s t : Site Config} {a : Act Config} (kept : Kept dumps load s)
    (h : Move dumps s a t) (ordered : Ordered dumps load s a) : Kept dumps load t := by
  cases h with
  | madeRoot config absent =>
      exact ⟨kept.rows, by simp, by simp, by simp⟩
  | wroteConfig =>
      exact ⟨kept.rows, by simp, by simp, by simp⟩
  | connected =>
      refine ⟨fun db hdb => ?_, fun _ _ => ⟨_, rfl, rfl⟩, by simp, by simp⟩
      cases hdb
      exact ⟨by simp, List.Pairwise.nil, fun h => absurd rfl h, fun _ => rfl⟩
  | @initSchema d db config there =>
      obtain ⟨db', hdb', hempty⟩ := kept.connected config rfl
      cases there.symm.trans hdb'
      have rows := kept.rows db there
      refine ⟨fun db' hdb => ?_, by simp, fun _ _ => ⟨_, rfl, hempty, rfl⟩, by simp⟩
      cases hdb
      exact ⟨rows.loads, rows.ordered, fun h => absurd hempty h, rows.empty⟩
  | @createdRows d db config now there =>
      obtain ⟨db', hdb', hempty, hversion⟩ := kept.prepared config rfl
      cases there.symm.trans hdb'
      have rows := kept.rows db there
      refine ⟨fun db' hdb => ?_, by simp, by simp, by simp⟩
      cases hdb
      exact rows_recordScope rows there (ordered config rfl) hversion (by rw [rows.empty hempty])
  | created => exact ⟨kept.rows, by simp, by simp, by simp⟩
  | @appended d db config now there one =>
      have rows := kept.rows db there
      have hwhole : db.userVersion = schemaVersion := by
        refine (rows.whole fun hempty => ?_).1
        rw [rows.empty hempty] at one
        cases one
      refine ⟨fun db' hdb => ?_, by simp, by simp, fun config' hstage => ?_⟩
      · cases hdb
        exact rows_recordScope rows there ordered hwhole one
      · cases hstage
        exact ⟨ordered.plain, _, _, rfl, List.getLast?_concat, rfl⟩
  | replaced => exact ⟨kept.rows, by simp, by simp, by simp⟩
  | crashed => exact ⟨kept.rows, by simp, by simp, by simp⟩
  | cleared => exact ⟨by simp, by simp, by simp, by simp⟩
  | edited file there => exact ⟨kept.rows, kept.connected, kept.prepared, kept.appended⟩

theorem kept_start : Kept dumps load ⟨⟨false, none, none⟩, .idle⟩ :=
  ⟨by simp, by simp, by simp, by simp⟩

theorem kept_of_history {past : List (Act Config)} {s : Site Config}
    (h : ((engagement dumps).restrict (Ordered dumps load)).History past s) :
    Kept dumps load s := by
  induction h with
  | start hs => exact hs ▸ kept_start
  | step _ st ih => exact ih.move st.1 st.2

variable (dumps load)

/-- Where every version is recorded at a clock reading no earlier than those on file, with a
configuration that its text gives back: the scope in force is the row appended last, in every state
of every run, and a version that was recorded to its end opens. -/
theorem scope_in_force_is_of_record {past : List (Act Config)} {s : Site Config}
    (h : ((engagement dumps).restrict (Ordered dumps load)).History past s) :
    InForce load s.disk ∧ (past.head? = some .replaced → (open_ load s.disk).isSome = true) := by
  refine ⟨(kept_of_history h).inForce, fun hlast => ?_⟩
  cases h with
  | start => cases hlast
  | @step past s' _ a before st =>
      cases hlast
      obtain ⟨move, _⟩ := st
      cases move with
      | @replaced d config =>
          have kept := kept_of_history before
          obtain ⟨hplain, db, v, hdb, hv, hyaml⟩ := kept.appended config rfl
          have inForce := (kept.move (.replaced) trivial).inForce
          rw [Option.isSome_iff_exists]
          refine ⟨v.config, (inForce v.config).mpr ⟨db, v, hdb, hv, ?_, rfl⟩⟩
          rw [hyaml, Option.map_some, hplain]

end Scope

/-! ## An engagement with two limits -/

/-- Two configurations of one engagement. -/
inductive Declared where
  | narrow
  | wide
  deriving DecidableEq

namespace Declared

def rate : Declared → String
  | .narrow => "5"
  | .wide => "50"

def beforeRate : Text :=
  text "name: acme\nclient: Acme\nsafety_profile: production\nscope:\n  include:\n" ++
    text "  - app.example\n  exclude: []\nrender_allow: []\ndangerous_paths: []\nchecks:\n" ++
    text "  passive: true\n  active_safe: true\n  active_timing: true\n" ++
    text "  active_mutate: false\n  active_dos: false\nrate_limit_rps: "

def afterRate : Text :=
  text "\nrate_burst: null\nmax_requests: 2000\nmax_concurrency: 2\nidentities: \x7b\x7d\n" ++
    text "scan_identity: null\npreserve_segments: []\nslug_threshold: 12\n"

/-- The text of each. -/
def dumps (c : Declared) : Text := beforeRate ++ text c.rate ++ afterRate

/-- And back. -/
def load (file : Text) : Option Declared :=
  if file = dumps .narrow then some .narrow
  else if file = dumps .wide then some .wide
  else none

theorem readText_dumps (c : Declared) : readText c.dumps = c.dumps := by
  refine readText_of_plain fun x hx => ?_
  have before : beforeRate.all (fun x => x.val ≠ 13) = true := by
    simp only [beforeRate, List.all_append, Bool.and_eq_true]
    exact ⟨⟨⟨by decide, by decide⟩, by decide⟩, by decide⟩
  have after : afterRate.all (fun x => x.val ≠ 13) = true := by
    simp only [afterRate, List.all_append, Bool.and_eq_true]
    exact ⟨by decide, by decide⟩
  have rate : (text c.rate).all (fun x => x.val ≠ 13) = true := by cases c <;> decide
  rw [List.all_eq_true] at before after rate
  simp only [dumps, List.mem_append] at hx
  obtain (hx | hx) | hx := hx
  · exact of_decide_eq_true (before x hx)
  · exact of_decide_eq_true (rate x hx)
  · exact of_decide_eq_true (after x hx)

theorem dumps_ne : dumps .wide ≠ dumps .narrow := by
  intro h
  have hlength := congrArg List.length h
  simp only [dumps, List.length_append] at hlength
  have hwide : (text (rate .wide)).length = 2 := rfl
  have hnarrow : (text (rate .narrow)).length = 1 := rfl
  omega

theorem load_dumps (c : Declared) : load c.dumps = some c := by
  cases c with
  | narrow => rw [load, if_pos rfl]
  | wide => rw [load, if_neg dumps_ne, if_pos rfl]

/-- Both versions of an engagement that is created and then widened, at two clock readings. -/
def versions (first second : Int) : List (ScopeVersion Declared) :=
  [⟨.narrow, dumps .narrow, first⟩, ⟨.wide, dumps .wide, second⟩]

def widened (first second : Int) : Site Declared :=
  ⟨⟨true, some (dumps .wide), some ⟨schemaVersion, 1, versions first second⟩⟩, .idle⟩

def created (first : Int) : Site Declared :=
  ⟨⟨true, some (dumps .narrow), some ⟨schemaVersion, 1, [⟨.narrow, dumps .narrow, first⟩]⟩⟩, .idle⟩

def creation (first : Int) : List (Act Declared) :=
  [.created, .createdRows first, .initSchema, .connected, .wroteConfig, .madeRoot .narrow]

def widening (first second : Int) : List (Act Declared) :=
  .replaced :: .appended .wide second :: creation first

theorem creation_history (first : Int) :
    (engagement dumps).History (creation first) (created first) := by
  have start : (engagement dumps).History [] ⟨⟨false, none, none⟩, .idle⟩ := .start rfl
  have rooted := start.step (Move.madeRoot .narrow rfl)
  have written := rooted.step Move.wroteConfig
  have connected := written.step Move.connected
  have prepared := connected.step (Move.initSchema rfl)
  have recorded := prepared.step (Move.createdRows first rfl)
  exact recorded.step Move.created

theorem widening_history (first second : Int) :
    (engagement dumps).History (widening first second) (widened first second) := by
  have appended := (creation_history first).step (Move.appended .wide second rfl rfl)
  exact appended.step Move.replaced

end Declared

open Declared in
/-- The clock stepped back between the two versions, and the engagement no longer opens. -/
theorem backward_clock_refuses :
    (engagement dumps).History (widening 10 5) (widened 10 5) ∧
      (widened 10 5).disk.file = (versions 10 5).getLast?.map (·.yaml) ∧
      open_ load (widened 10 5).disk = none := by
  refine ⟨widening_history 10 5, rfl, open_eq_none rfl rfl fun file hfile => ?_⟩
  cases hfile
  rw [readText_dumps]
  exact dumps_ne

open Declared in
/-- The same engagement, widened at a later reading. -/
theorem widened_opens : InForce load (widened 10 20).disk := by
  have dated (d : Disk Declared) (c : Declared) (now : Int)
      (later : ∀ db, d.db = some db → ∀ v ∈ db.versions, v.effectiveFromUs ≤ now) :
      Dated dumps load d c now := ⟨readText_dumps c, load_dumps c, later⟩
  have start : ((engagement dumps).restrict (Ordered dumps load)).History []
    ⟨⟨false, none, none⟩, .idle⟩ := .start rfl
  have rooted := start.step ⟨Move.madeRoot .narrow rfl, trivial⟩
  have written := rooted.step ⟨Move.wroteConfig, trivial⟩
  have connected := written.step ⟨Move.connected, trivial⟩
  have prepared := connected.step ⟨Move.initSchema rfl, trivial⟩
  have recorded := prepared.step ⟨Move.createdRows 10 rfl, fun c _ => dated _ c 10 fun db hdb => by
    cases hdb
    simp⟩
  have created := recorded.step ⟨Move.created, trivial⟩
  have appended := created.step ⟨Move.appended .wide 20 rfl rfl, dated _ _ 20 fun db hdb => by
    cases hdb
    simp [recordScope]⟩
  have replaced := appended.step ⟨Move.replaced, trivial⟩
  exact (scope_in_force_is_of_record dumps load replaced).1

end Hx.Store
