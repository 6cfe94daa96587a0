import Hx.Checks.Passive

/-!
# What a passive check has examined

A verdict that considers an issue type retires its findings. The two checks that read every
response report each type a readable response shows, in whatever order the exchanges come.
`security_headers` considers every type that applies and reports those of the first document
that lacks something: that is enough where all such documents lack the same.
-/

namespace Hx.Checks

open Hx.Python Hx.Checks.OpenRedirect Hx.Issue.HttpText

inductive PassiveCheck where
  | securityHeaders
  | cookieFlags
  | secretInResponse
  deriving DecidableEq

namespace PassiveCheck

def onSurface : PassiveCheck → Blobs → List ExchangeRow → Verdict
  | .securityHeaders => SecurityHeaders.onSurface
  | .cookieFlags => CookieFlags.onSurface
  | .secretInResponse => SecretInResponse.onSurface

/-- The issues one response shows by the check's own test. -/
def shows : PassiveCheck → ExchangeRow → Bytes → List IssueType
  | .securityHeaders, row, raw =>
      let head := (splitHeadBody raw).1
      if SecurityHeaders.isDocument head then
        (SecurityHeaders.missing row head).map (·.issueTypeId)
      else []
  | .cookieFlags, row, raw =>
      (CookieFlags.flagless row (splitHeadBody raw).1).map fun c =>
        CookieFlags.issueType (CookieFlags.name c)
  | .secretInResponse, _, raw =>
      (SecretInResponse.disclosed (splitHeadBody raw).2).map (·.issueTypeId)

end PassiveCheck

/-- The issue types of a verdict's candidates. -/
def Verdict.types (v : Verdict) : List IssueType := v.candidates.map (·.issueTypeId)

/-- An exchange that was answered and whose response is there to be read. -/
def Whole (blobs : Blobs) (row : ExchangeRow) : Prop :=
  row.outcome = .ok ∧ ∃ raw, readable blobs row = some raw

/-- What a check owes for a surface's exchanges: a readable response that shows an issue it
considered is in the verdict, clean was read whole and shows nothing, and the order of the
exchanges is not in what is reported. -/
structure Examines (c : PassiveCheck) (blobs : Blobs) (rows : List ExchangeRow) : Prop where
  reflected : ∀ t ∈ (c.onSurface blobs rows).considered, ∀ row ∈ rows, ∀ raw,
    readable blobs row = some raw → t ∈ c.shows row raw → t ∈ (c.onSurface blobs rows).types
  clean : ∀ considered, c.onSurface blobs rows = .clean considered → ∀ row ∈ rows,
    Whole blobs row ∧ ∀ raw, readable blobs row = some raw → c.shows row raw = []
  ordered : ∀ rows', rows.Perm rows' → ∀ t,
    t ∈ (c.onSurface blobs rows).types ↔ t ∈ (c.onSurface blobs rows').types

/-- Every two readable responses that show something show the same. -/
def Alike (c : PassiveCheck) (blobs : Blobs) (rows : List ExchangeRow) : Prop :=
  ∀ row ∈ rows, ∀ raw, readable blobs row = some raw → c.shows row raw ≠ [] →
    ∀ row' ∈ rows, ∀ raw', readable blobs row' = some raw' → c.shows row' raw' ≠ [] →
      ∀ t, t ∈ c.shows row raw ↔ t ∈ c.shows row' raw'

/-! ## The evidence -/

section Evidence

variable {blobs : Blobs} {rows : List ExchangeRow} {row : ExchangeRow} {raw : Bytes}

theorem gap_eq_none : gap blobs row = none ↔ Whole blobs row := by
  rw [gap]
  constructor
  · intro gapless
    split at gapless
    · contradiction
    · rename_i outcome
      split at gapless
      · contradiction
      · split at gapless
        · contradiction
        · rename_i read
          exact ⟨not_not.1 outcome, Option.ne_none_iff_exists'.1 read⟩
  · rintro ⟨outcome, raw, read⟩
    have stored : ¬ (row.respBlob = none ∨ row.respBlob = some "") := by
      rintro (none_ | empty)
      · rw [readable, none_] at read
        contradiction
      · rw [readable, empty] at read
        contradiction
    rw [if_neg (not_not.2 outcome), if_neg stored,
      if_neg (Option.ne_none_iff_exists'.2 ⟨raw, read⟩)]

theorem mem_entries :
    (row, raw) ∈ (fetch blobs rows).entries ↔ row ∈ rows ∧ readable blobs row = some raw := by
  show (row, raw) ∈ rows.filterMap _ ↔ _
  rw [List.mem_filterMap]
  constructor
  · rintro ⟨row', mem, entry⟩
    obtain ⟨raw', read, same⟩ := Option.map_eq_some_iff.1 entry
    cases same
    exact ⟨mem, read⟩
  · rintro ⟨mem, read⟩
    exact ⟨row, mem, by rw [read]; rfl⟩

theorem whole_of_gapless (gapless : (fetch blobs rows).gaps = []) (mem : row ∈ rows) :
    Whole blobs row := by
  refine gap_eq_none.1 ?_
  cases found : gap blobs row with
  | none => rfl
  | some text =>
      have there : text ∈ (fetch blobs rows).gaps := List.mem_filterMap.2 ⟨row, mem, found⟩
      rw [gapless] at there
      contradiction

end Evidence

/-! ## The funnel -/

section Funnel

variable {seen : Evidence} {candidates : List Candidate} {considered : List IssueType}

theorem candidates_verdict : (seen.verdict candidates considered).candidates = candidates := by
  rw [Evidence.verdict]
  split
  · rfl
  · rename_i none_
    have empty := not_not.1 none_
    split
    · exact empty.symm
    · split
      · exact empty.symm
      · exact empty.symm

theorem types_verdict :
    (seen.verdict candidates considered).types = candidates.map (·.issueTypeId) := by
  rw [Verdict.types, candidates_verdict]

theorem clean_verdict {types : List IssueType}
    (clean : seen.verdict candidates considered = .clean types) :
    candidates = [] ∧ seen.gaps = [] := by
  rw [Evidence.verdict] at clean
  split at clean
  · contradiction
  · rename_i none_
    split at clean
    · contradiction
    · split at clean
      · contradiction
      · rename_i gapless
        exact ⟨not_not.1 none_, not_not.1 gapless⟩

end Funnel

/-! ## The checks that read everything -/

section Whole

variable {c : PassiveCheck} {blobs : Blobs} {rows : List ExchangeRow}

/-- The types a check reports are those the readable responses show. -/
def Complete (c : PassiveCheck) (blobs : Blobs) (rows : List ExchangeRow) : Prop :=
  ∀ t, t ∈ (c.onSurface blobs rows).types ↔
    ∃ row ∈ rows, ∃ raw, readable blobs row = some raw ∧ t ∈ c.shows row raw

/-- A check whose loop files what it found in each response, one candidate after another. -/
theorem mem_types_of_map (part : Bytes → Bytes) {α : Type} (found : ExchangeRow → Bytes → List α)
    (candidate : ExchangeRow → α → Candidate) (type : α → IssueType)
    (considered : List IssueType) (named : ∀ row a, (candidate row a).issueTypeId = type a)
    (t : IssueType) :
    t ∈ (((fetch blobs rows).map part).verdict (((fetch blobs rows).map part).entries.flatMap
        fun entry => (found entry.1 entry.2).map (candidate entry.1)) considered).types ↔
      ∃ row ∈ rows, ∃ raw, readable blobs row = some raw ∧
        t ∈ (found row (part raw)).map type := by
  rw [types_verdict, List.mem_map]
  constructor
  · rintro ⟨made, filed, rfl⟩
    obtain ⟨entry, seen, filed⟩ := List.mem_flatMap.1 filed
    obtain ⟨⟨row, raw⟩, fetched, rfl⟩ := List.mem_map.1 seen
    obtain ⟨a, shown, rfl⟩ := List.mem_map.1 filed
    obtain ⟨mem, read⟩ := mem_entries.1 fetched
    exact ⟨row, mem, raw, read, List.mem_map.2 ⟨a, shown, (named row a).symm⟩⟩
  · rintro ⟨row, mem, raw, read, shown⟩
    obtain ⟨a, there, rfl⟩ := List.mem_map.1 shown
    refine ⟨candidate row a, List.mem_flatMap.2 ⟨(row, part raw), ?_, ?_⟩, named row a⟩
    · exact List.mem_map.2 ⟨(row, raw), mem_entries.2 ⟨mem, read⟩, rfl⟩
    · exact List.mem_map.2 ⟨a, there, rfl⟩

theorem complete_cookieFlags : Complete .cookieFlags blobs rows := fun t =>
  mem_types_of_map _ CookieFlags.flagless CookieFlags.candidate
    (fun c => CookieFlags.issueType (CookieFlags.name c)) _ (fun _ _ => rfl) t

theorem complete_secretInResponse : Complete .secretInResponse blobs rows := fun t =>
  mem_types_of_map _ (fun _ => SecretInResponse.disclosed) SecretInResponse.candidate
    (fun secret => secret.issueTypeId) _ (fun _ _ => rfl) t

/-- Every check calls a surface clean on whole exchanges only. -/
theorem whole_of_clean {considered : List IssueType}
    (clean : c.onSurface blobs rows = .clean considered) :
    (c.onSurface blobs rows).types = [] ∧ ∀ row ∈ rows, Whole blobs row := by
  have none_ : (c.onSurface blobs rows).types = [] := by
    rw [clean]
    rfl
  have gapless : (fetch blobs rows).gaps = [] := by
    cases c with
    | securityHeaders => exact (clean_verdict clean).2
    | cookieFlags => exact (clean_verdict clean).2
    | secretInResponse => exact (clean_verdict clean).2
  exact ⟨none_, fun _ mem => whole_of_gapless gapless mem⟩

/-- Who reports all there is, in every order, has examined what it considered. -/
theorem examines_of_complete (complete : ∀ rows', rows.Perm rows' → Complete c blobs rows') :
    Examines c blobs rows where
  reflected t _ row mem raw read shown :=
    (complete rows (.refl _) t).2 ⟨row, mem, raw, read, shown⟩
  clean considered clean := by
    obtain ⟨none_, whole⟩ := whole_of_clean clean
    intro row mem
    refine ⟨whole row mem, fun raw read => List.eq_nil_iff_forall_not_mem.2 fun t shown => ?_⟩
    have reported := (complete rows (.refl _) t).2 ⟨row, mem, raw, read, shown⟩
    rw [none_] at reported
    contradiction
  ordered rows' perm t := by
    rw [complete rows (.refl _) t, complete rows' perm t]
    simp only [perm.mem_iff]

end Whole

/-! ## The check that stops -/

section Stops

open PassiveCheck

variable {blobs : Blobs} {rows : List ExchangeRow}

theorem documents_types (seen : List Entry) :
    (SecurityHeaders.documents (seen.map fun entry => (entry.1, (splitHeadBody entry.2).1))).1.map
        (·.issueTypeId) =
      ((seen.map fun entry =>
        PassiveCheck.shows .securityHeaders entry.1 entry.2).find? (· ≠ [])).getD [] := by
  induction seen with
  | nil => rfl
  | cons entry seen ih =>
      rw [List.map_cons, SecurityHeaders.documents, List.map_cons, List.find?_cons,
        PassiveCheck.shows]
      cases document : SecurityHeaders.isDocument (splitHeadBody entry.2).1 with
      | false => simpa using ih
      | true =>
          by_cases lacks : SecurityHeaders.missing entry.1 (splitHeadBody entry.2).1 = []
          · simpa [lacks] using ih
          · simp [lacks, Function.comp_def, SecurityHeaders.candidate]

/-- What the documents report is what the first response that shows something shows. -/
theorem types_securityHeaders : (SecurityHeaders.onSurface blobs rows).types =
    (((fetch blobs rows).entries.map fun entry =>
      PassiveCheck.shows .securityHeaders entry.1 entry.2).find?
      (· ≠ [])).getD [] := by
  rw [SecurityHeaders.onSurface, types_verdict, ← documents_types]
  rfl

theorem Alike.perm {c : PassiveCheck} {rows' : List ExchangeRow} (alike : Alike c blobs rows)
    (perm : rows.Perm rows') : Alike c blobs rows' := fun row mem raw read some_ row' mem' =>
  alike row (perm.mem_iff.2 mem) raw read some_ row' (perm.mem_iff.2 mem')

theorem complete_of_alike (alike : Alike .securityHeaders blobs rows) :
    Complete .securityHeaders blobs rows := by
  intro t
  rw [onSurface, types_securityHeaders]
  cases first : ((fetch blobs rows).entries.map fun entry =>
      PassiveCheck.shows .securityHeaders entry.1 entry.2).find? (· ≠ []) with
  | none =>
      constructor
      · exact fun mem => absurd mem List.not_mem_nil
      · rintro ⟨row, mem, raw, read, shown⟩
        have quiet := List.find?_eq_none.1 first _
          (List.mem_map_of_mem (mem_entries.2 ⟨mem, read⟩))
        simp only [decide_eq_true_eq, not_not] at quiet
        exact absurd shown (quiet ▸ List.not_mem_nil)
  | some types =>
      obtain ⟨⟨row, raw⟩, seen, rfl⟩ := List.mem_map.1 (List.mem_of_find?_eq_some first)
      obtain ⟨mem, read⟩ := mem_entries.1 seen
      have lacks : PassiveCheck.shows .securityHeaders row raw ≠ [] := by
        simpa using List.find?_some first
      constructor
      · exact fun shown => ⟨row, mem, raw, read, shown⟩
      · rintro ⟨row', mem', raw', read', shown⟩
        exact (alike row mem raw read lacks row' mem' raw' read'
          (List.ne_nil_of_mem shown) t).2 shown

/-- Read first, a response that shows something is all that is reported. -/
theorem types_of_first {row : ExchangeRow} {raw : Bytes} (read : readable blobs row = some raw)
    (lacks : PassiveCheck.shows .securityHeaders row raw ≠ []) :
    (onSurface .securityHeaders blobs (row :: rows)).types =
      PassiveCheck.shows .securityHeaders row raw := by
  have entries :
      (fetch blobs (row :: rows)).entries = (row, raw) :: (fetch blobs rows).entries := by
    simp only [fetch, List.filterMap_cons, read, Option.map_some]
  rw [onSurface, types_securityHeaders, entries, List.map_cons, List.find?_cons]
  simp only [decide_eq_true lacks, Option.getD_some]

theorem alike_of_ordered (ordered : ∀ rows', rows.Perm rows' → ∀ t,
      t ∈ (onSurface .securityHeaders blobs rows).types ↔
        t ∈ (onSurface .securityHeaders blobs rows').types) :
    Alike .securityHeaders blobs rows := by
  intro row mem raw read lacks row' mem' raw' read' lacks' t
  have one := ordered _ (List.perm_cons_erase mem) t
  have other := ordered _ (List.perm_cons_erase mem') t
  rw [types_of_first read lacks] at one
  rw [types_of_first read' lacks'] at other
  exact one.symm.trans other

end Stops

/-- The two checks that read everything have always examined what they considered;
`security_headers` has where all the documents that lack something lack the same. -/
theorem examines_iff (c : PassiveCheck) (blobs : Blobs) (rows : List ExchangeRow) :
    Examines c blobs rows ↔ (c = .securityHeaders → Alike .securityHeaders blobs rows) := by
  cases c with
  | securityHeaders =>
      constructor
      · exact fun examines _ => alike_of_ordered examines.ordered
      · intro alike
        exact examines_of_complete fun rows' perm => complete_of_alike ((alike rfl).perm perm)
  | cookieFlags =>
      have examines : Examines .cookieFlags blobs rows :=
        examines_of_complete fun _ _ => complete_cookieFlags
      exact ⟨fun _ => PassiveCheck.noConfusion, fun _ => examines⟩
  | secretInResponse =>
      have examines : Examines .secretInResponse blobs rows :=
        examines_of_complete fun _ _ => complete_secretInResponse
      exact ⟨fun _ => PassiveCheck.noConfusion, fun _ => examines⟩

/-! ## Two documents -/

/-- A document that carries `Strict-Transport-Security` and lacks the rest. -/
def strictDocument : Bytes :=
  ascii "HTTP/1.1 200 OK\nContent-Type:text/html\nStrict-Transport-Security:1\n\n"

/-- A document that lacks all there is. -/
def bareDocument : Bytes := ascii "HTTP/1.1 200 OK\nContent-Type:text/html\n\n"

def documentBlobs : Blobs := fun digest =>
  if digest = "a" then some strictDocument else if digest = "b" then some bareDocument else none

theorem a_ne : "a" ≠ "" := by decide

theorem b_ne : "b" ≠ "" := by decide

def strictRow : ExchangeRow := ⟨"a", a_ne, "https://h/", .ok, some "a"⟩

def bareRow : ExchangeRow := ⟨"b", b_ne, "https://h/", .ok, some "b"⟩

theorem hsts_forgotten :
    SecurityHeaders.hsts.issueTypeId ∈ (PassiveCheck.onSurface .securityHeaders documentBlobs
        [strictRow, bareRow]).considered ∧
      SecurityHeaders.hsts.issueTypeId ∉ (PassiveCheck.onSurface .securityHeaders documentBlobs
        [strictRow, bareRow]).types := by
  decide +kernel

theorem hsts_shown : SecurityHeaders.hsts.issueTypeId ∈
    PassiveCheck.shows .securityHeaders bareRow bareDocument := by
  decide +kernel

/-- The second document lacks a header the first one carries: the check says it looked for it
and reports nothing. -/
theorem second_document_unread :
    ¬ ∀ (c : PassiveCheck) (blobs : Blobs) (rows : List ExchangeRow), Examines c blobs rows := by
  intro all
  have examines := all .securityHeaders documentBlobs [strictRow, bareRow]
  have second : bareRow ∈ [strictRow, bareRow] := List.mem_cons_of_mem _ List.mem_cons_self
  exact hsts_forgotten.2
    (examines.reflected _ hsts_forgotten.1 bareRow second bareDocument rfl hsts_shown)

end Hx.Checks
