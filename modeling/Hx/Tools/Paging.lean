import Mathlib.Data.List.Lex
import Mathlib.Data.List.Sort
import Mathlib.Data.Nat.Digits.Defs
import Mathlib.Data.Prod.Lex
import Hx.Library.Decimal
import Hx.Library.Lowering

/-!
# Lists that are handed out in pages

`surface.query` and `finding.query` order the rows that match and hand out as many as are asked
for, with a cursor that says how many were handed out before. Whoever passes the cursor back asks
again, and the engagement may have changed meanwhile.
-/

namespace Hx.Tools.Paging

open Hx.Library

/-! ## Pages and cursors -/

/-- `ToolRefused("bad_args", …)`, "… is not a cursor from this tool" and "… names an offset further
than any real engagement reaches", and what `page` and `int` raise. -/
inductive Exc where
  | notACursor (cursor : Text)
  | tooFar (cursor : Text)
  | limitOut (limit : ℤ)
  | tooManyDigits
  deriving DecidableEq

/-- The counts of a facet's values, in no particular order. -/
abbrev Facet := List (Text × ℕ)

structure Page (α : Type) where
  rows : List α
  returned : ℕ
  total : ℕ
  truncated : Bool
  nextCursor : Option Text
  facets : List (String × Facet)

def defaultLimit : ℤ := 50

def maxLimit : ℤ := 500

def cursorPrefix : Text := text "o-"

def maxOffset : ℕ := 1000000000

section

variable {α : Type}

/-- `page`. -/
def page (rows : List α) (total : ℕ) (limit : ℤ) (cursorOf : α → Text)
    (facets : List (String × Facet)) : Except Exc (Page α) :=
  if 1 ≤ limit ∧ limit ≤ maxLimit then
    let kept := rows.take limit.toNat
    let truncated := decide (limit < (rows.length : ℤ))
    .ok {
      rows := kept
      returned := kept.length
      total
      truncated
      nextCursor := if truncated then kept.getLast?.map cursorOf else none
      facets }
  else .error (.limitOut limit)

end

def isDigit (c : Fin 0x110000) : Bool := 0x30 ≤ c.val && c.val ≤ 0x39

/-- `int(digits)`, which reads no more than 4300 digits. -/
def intOf (digits : Text) : Except Exc ℕ :=
  if 4300 < digits.length then .error .tooManyDigits
  else .ok (digits.foldl (fun v d => v * 10 + (d.val - 48)) 0)

/-- `parse_offset`. -/
def parseOffset : Option Text → Except Exc ℕ
  | none => .ok 0
  | some cursor =>
      let digits := cursor.drop cursorPrefix.length
      if !cursorPrefix.isPrefixOf cursor || digits.isEmpty || !digits.all isDigit then
        .error (.notACursor cursor)
      else
        match intOf digits with
        | .error e => .error e
        | .ok offset => if maxOffset < offset then .error (.tooFar cursor) else .ok offset

/-- `f"{CURSOR_PREFIX}{offset}"`. -/
def cursorAt (offset : ℕ) : Text := cursorPrefix ++ (decimal offset).map chr

/-- `LIMIT`, which is none if it is negative. -/
def sqlLimit {α : Type} (limit : ℤ) (rows : List α) : List α :=
  if limit < 0 then rows else rows.take limit.toNat

/-- What the two queries do with the rows they found, in order. -/
def offsetPage {α : Type} (found : List α) (facets : List (String × Facet)) (limit : Option ℤ)
    (cursor : Option Text) : Except Exc (Page α) :=
  let limit := limit.getD defaultLimit
  match parseOffset cursor with
  | .error e => .error e
  | .ok offset =>
      page (sqlLimit (limit + 1) (found.drop offset)) found.length limit
        (fun _ => cursorAt (offset + limit.toNat)) facets

/-- `ORDER BY` a key. -/
def ordered {α κ : Type} [LinearOrder κ] (key : α → κ) (rows : List α) : List α :=
  rows.insertionSort fun a b => key a ≤ key b

/-- `SELECT column, COUNT(*) … GROUP BY column`. -/
def countBy {α : Type} (column : α → Text) (rows : List α) : Facet :=
  (rows.map column).dedup.map fun value => (value, rows.countP fun row => column row = value)

/-! ## The two queries -/

inductive Kind where
  | idempotentRead
  | stateChanging
  | unknown
  deriving DecidableEq

def Kind.name : Kind → Text
  | .idempotentRead => text "idempotent_read"
  | .stateChanging => text "state_changing"
  | .unknown => text "unknown"

inductive DiscoveredBy where
  | proxy
  | crawl
  | imported
  | agent
  deriving DecidableEq

/-- A row of `surface`, as far as `query` reads it. -/
structure Surface where
  id : Text
  engagementId : Text
  method : Text
  scheme : Text
  host : Text
  port : ℤ
  pathTemplate : Text
  queryKeySet : Text
  kind : Kind
  discoveredBy : DiscoveredBy
  firstSeenRun : Option Text
  lastSeenRun : Option Text

inductive Severity where
  | critical
  | high
  | medium
  | low
  | info
  deriving DecidableEq

def Severity.name : Severity → Text
  | .critical => text "Critical"
  | .high => text "High"
  | .medium => text "Medium"
  | .low => text "Low"
  | .info => text "Info"

def Severity.rank : Severity → ℕ
  | .critical => 0
  | .high => 1
  | .medium => 2
  | .low => 3
  | .info => 4

inductive Status where
  | new
  | triaged
  | confirmed
  | falsePositive
  | reported
  deriving DecidableEq

inductive CreatedBy where
  | agent
  | human
  | check
  deriving DecidableEq

/-- A row of `finding`, as far as `query` reads it. -/
structure Finding where
  id : Text
  engagementId : Text
  title : Text
  issueTypeId : Option Text
  severity : Severity
  confidence : Text
  status : Status
  createdBy : CreatedBy
  host : Option Text
  surfaceId : Option Text
  checkId : Option Text
  cwe : Option Text
  deriving DecidableEq

/-- The tables, with their primary keys, and the surfaces that a `check_run` names. -/
structure Tables where
  surfaces : List Surface
  findings : List Finding
  tested : List Text
  surfaceIds : (surfaces.map Surface.id).Nodup
  findingIds : (findings.map Finding.id).Nodup

/-- `_ORDER`. -/
def Surface.order (s : Surface) : Bool ×ₗ Text ×ₗ Text ×ₗ Text ×ₗ Text :=
  toLex (s.kind != .stateChanging,
    toLex (s.host, toLex (s.pathTemplate, toLex (s.method, s.id))))

/-- `ORDER BY CASE severity … END, id`. -/
def Finding.order (f : Finding) : ℕ ×ₗ Text := toLex (f.severity.rank, f.id)

structure SurfaceFilter where
  host : Option Text
  method : Option Text
  kind : Option Kind
  discoveredBy : Option DiscoveredBy
  untested : Bool

structure FindingFilter where
  severity : Option Severity
  status : Option Status
  host : Option Text
  surfaceId : Option Text
  createdBy : Option CreatedBy

/-- The rows of `surface` that match. -/
def surfaceRows (engagement : Text) (filter : SurfaceFilter) (db : Tables) : List Surface :=
  db.surfaces.filter fun s =>
    s.engagementId = engagement && filter.host.all (· = s.host) &&
    filter.method.all (· = s.method) && filter.kind.all (· = s.kind) &&
    filter.discoveredBy.all (· = s.discoveredBy) &&
    (!filter.untested || !db.tested.contains s.id)

/-- The rows of `finding` that match; a column that is null equals nothing. -/
def findingRows (engagement : Text) (filter : FindingFilter) (db : Tables) : List Finding :=
  db.findings.filter fun f =>
    f.engagementId = engagement && filter.severity.all (· = f.severity) &&
    filter.status.all (· = f.status) && filter.host.all (fun h => f.host = some h) &&
    filter.surfaceId.all (fun s => f.surfaceId = some s) &&
    filter.createdBy.all (· = f.createdBy)

/-- `surface.query`. -/
def surfaceQuery (engagement : Text) (filter : SurfaceFilter) (limit : Option ℤ) (db : Tables)
    (cursor : Option Text) : Except Exc (Page Surface) :=
  let rows := surfaceRows engagement filter db
  offsetPage (ordered Surface.order rows)
    [("host", countBy Surface.host rows), ("kind", countBy (fun s => s.kind.name) rows)]
    limit cursor

/-- `finding.query`. -/
def findingQuery (engagement : Text) (filter : FindingFilter) (limit : Option ℤ) (db : Tables)
    (cursor : Option Text) : Except Exc (Page Finding) :=
  let rows := findingRows engagement filter db
  offsetPage (ordered Finding.order rows)
    [("severity", countBy (fun f => f.severity.name) rows)] limit cursor

/-- Asking until there is no more, each time with the cursor of the page before: the states the
queries found, and the pages. -/
inductive Followed {σ α : Type} (ask : σ → Option Text → Except Exc (Page α)) :
    List σ → Option Text → List (Page α) → Prop where
  | last {s : σ} {cursor : Option Text} {p : Page α} (answered : ask s cursor = .ok p)
      (ended : p.nextCursor = none) : Followed ask [s] cursor [p]
  | more {s : σ} {cursor : Option Text} {p : Page α} {next : Text} {later : List σ}
      {pages : List (Page α)} (answered : ask s cursor = .ok p)
      (goes : p.nextCursor = some next) (rest : Followed ask later (some next) pages) :
      Followed ask (s :: later) cursor (p :: pages)

/-! ## What a cursor says -/

theorem val_chr_of_digit {d : ℕ} (bounds : 48 ≤ d ∧ d ≤ 57) : (chr d).val = d := by
  rw [val_chr]
  omega

theorem intOf_decimal (n : ℕ) : intOf ((decimal n).map chr) =
    if 4300 < (decimal n).length then .error .tooManyDigits else .ok n := by
  rw [intOf, List.length_map, List.foldl_map]
  have value : (decimal n).foldl (fun v d => v * 10 + ((chr d).val - 48)) 0 = n := by
    refine Eq.trans (List.foldl_ext _ _ _ fun v d mem => ?_) (value_decimal n)
    rw [val_chr_of_digit (decimal_bounds mem)]
  rw [value]

theorem parseOffset_digits (n : ℕ) : parseOffset (some (cursorAt n)) =
    match intOf ((decimal n).map chr) with
    | .error e => .error e
    | .ok offset => if maxOffset < offset then .error (.tooFar (cursorAt n)) else .ok offset := by
  have digits : (cursorAt n).drop cursorPrefix.length = (decimal n).map chr :=
    List.drop_left ..
  have starts : cursorPrefix.isPrefixOf (cursorAt n) = true :=
    List.isPrefixOf_iff_prefix.2 ⟨_, rfl⟩
  have all : ((decimal n).map chr).all isDigit = true := by
    rw [List.all_map, List.all_eq_true]
    intro d mem
    have bounds := decimal_bounds mem
    simp only [Function.comp_apply, isDigit, val_chr_of_digit bounds, Bool.and_eq_true,
      decide_eq_true_eq]
    exact bounds
  have some_ : ((decimal n).map chr).isEmpty = false := by
    rw [List.isEmpty_eq_false_iff, Ne, List.map_eq_nil_iff]
    exact decimal_ne_nil n
  rw [parseOffset]
  simp only [digits, starts, all, some_]
  rfl

/-- A cursor is read back as what it was made of. -/
theorem parseOffset_cursorAt {n : ℕ} (near : n ≤ maxOffset) :
    parseOffset (some (cursorAt n)) = .ok n := by
  have short : ¬ 4300 < (decimal n).length := by
    rw [decimal, List.length_map, Nat.not_lt]
    refine le_trans (Nat.toDigits_length 10 n 10 (by decide) ?_) (by decide)
    exact lt_of_le_of_lt near (by decide)
  rw [parseOffset_digits, intOf_decimal, if_neg short]
  exact if_neg (Nat.not_lt.2 near)

/-- Whatever a cursor is read as is what it was made of. -/
theorem eq_of_parseOffset {n offset : ℕ} (read : parseOffset (some (cursorAt n)) = .ok offset) :
    offset = n := by
  rw [parseOffset_digits, intOf_decimal] at read
  split at read
  · cases read
  · rename_i value
    split at value
    · cases value
    · cases value
      split at read
      · cases read
      · exact (Except.ok.inj read).symm

/-! ## One page -/

section Pages

variable {α κ σ : Type} {found : List α} {facets : List (String × Facet)} {limit : Option ℤ}
  {cursor : Option Text} {offset : ℕ} {p : Page α}

/-- As many rows as are asked for. -/
def asked (limit : Option ℤ) : ℕ := (limit.getD defaultLimit).toNat

/-- The page behind an offset. -/
def pageAt (found : List α) (facets : List (String × Facet)) (limit offset : ℕ) : Page α where
  rows := (found.drop offset).take limit
  returned := ((found.drop offset).take limit).length
  total := found.length
  truncated := decide (offset + limit < found.length)
  nextCursor := if offset + limit < found.length then some (cursorAt (offset + limit)) else none
  facets := facets

theorem offsetPage_of (low : 1 ≤ limit.getD defaultLimit)
    (high : limit.getD defaultLimit ≤ maxLimit) (read : parseOffset cursor = .ok offset) :
    offsetPage found facets limit cursor = .ok (pageAt found facets (asked limit) offset) := by
  obtain ⟨l, is⟩ := Int.eq_ofNat_of_zero_le (le_trans Int.one_nonneg low)
  have pos : 1 ≤ l := by omega
  rw [offsetPage, read, asked, is]
  have within : 1 ≤ (l : ℤ) ∧ (l : ℤ) ≤ maxLimit := is ▸ ⟨low, high⟩
  have taken : sqlLimit ((l : ℤ) + 1) (found.drop offset) = (found.drop offset).take (l + 1) :=
    if_neg (by omega)
  simp only [taken, Int.toNat_natCast, page]
  rw [if_pos within]
  have kept : ((found.drop offset).take (l + 1)).take l = (found.drop offset).take l := by
    rw [List.take_take, Nat.min_eq_left (Nat.le_succ l)]
  have more : ((l : ℤ) < ((found.drop offset).take (l + 1)).length) ↔
      offset + l < found.length := by
    rw [List.length_take, List.length_drop]
    omega
  simp only [kept, more]
  by_cases goes : offset + l < found.length
  · have some_ : (found.drop offset).take l ≠ [] := by
      intro none_
      have lengths := congrArg List.length none_
      rw [List.length_take, List.length_drop, List.length_nil] at lengths
      omega
    have last := List.getLast?_eq_some_getLast some_
    simp only [pageAt, goes, last, decide_true, if_true, Option.map_some]
  · simp only [pageAt, goes, decide_false, if_false, Bool.false_eq_true]

/-- What is answered is the page behind what the cursor says. -/
theorem offsetPage_ok (answered : offsetPage found facets limit cursor = .ok p) :
    ∃ offset, parseOffset cursor = .ok offset ∧ 1 ≤ asked limit ∧
      p = pageAt found facets (asked limit) offset := by
  cases read : parseOffset cursor with
  | error e =>
      rw [offsetPage, read] at answered
      cases answered
  | ok offset =>
      by_cases bounds : 1 ≤ limit.getD defaultLimit ∧ limit.getD defaultLimit ≤ maxLimit
      · rw [offsetPage_of bounds.1 bounds.2 read] at answered
        have pos : 1 ≤ asked limit := by
          rw [asked]
          omega
        exact ⟨offset, rfl, pos, (Except.ok.inj answered).symm⟩
      · rw [offsetPage, read] at answered
        simp only [page, if_neg bounds] at answered
        cases answered

/-! ## All pages -/

section Order

variable [LinearOrder κ] {key : α → κ} {rows rows' : List α}

theorem mem_ordered {a : α} : a ∈ ordered key rows ↔ a ∈ rows := List.mem_insertionSort _

theorem keys_ordered (distinct : (rows.map key).Nodup) :
    ((ordered key rows).map key).Pairwise (· < ·) := by
  have sorted : ((ordered key rows).map key).Pairwise (· ≤ ·) := by
    have total : Std.Total fun a b => key a ≤ key b := ⟨fun a b => le_total (key a) (key b)⟩
    have trans : IsTrans α fun a b => key a ≤ key b := ⟨fun a b c => le_trans⟩
    rw [List.pairwise_map]
    exact List.pairwise_insertionSort _ rows
  have nodup : ((ordered key rows).map key).Nodup :=
    ((List.perm_insertionSort _ rows).map key).nodup_iff.2 distinct
  exact sorted.imp₂ (fun _ _ le ne => lt_of_le_of_ne le ne) nodup

/-- Rows that only come in between leave the order of the others. -/
theorem keys_sublist (distinct : (rows.map key).Nodup) (distinct' : (rows'.map key).Nodup)
    (grows : ∀ a ∈ rows, ∃ b ∈ rows', key b = key a) :
    ((ordered key rows).map key).Sublist ((ordered key rows').map key) := by
  have sorted := keys_ordered distinct
  refine List.sublist_of_subperm_of_pairwise (r := (· < ·)) ?_ sorted (keys_ordered distinct')
  refine List.subperm_of_subset sorted.nodup fun k mem => ?_
  obtain ⟨a, inside, rfl⟩ := List.mem_map.1 mem
  obtain ⟨b, inside', same⟩ := grows a (mem_ordered.1 inside)
  exact same ▸ List.mem_map_of_mem (mem_ordered.2 inside')

end Order

/-- Of what was behind the cursor nothing is missed, as long as rows only come in between. -/
theorem Followed.covers {key : α → κ} {found : σ → List α} {facets : σ → List (String × Facet)}
    {states : List σ} {pages : List (Page α)}
    (followed : Followed (fun s => offsetPage (found s) (facets s) limit) states cursor pages)
    (grows : states.IsChain fun s t => ((found s).map key).Sublist ((found t).map key))
    (read : parseOffset cursor = .ok offset) :
    ∀ s ∈ states.head?, ∀ k ∈ ((found s).map key).drop offset,
      ∃ p ∈ pages, ∃ a ∈ p.rows, key a = k := by
  induction followed generalizing offset with
  | @last s cursor p answered ended =>
      intro s' is k mem
      cases is
      obtain ⟨offset', read', -, rfl⟩ := offsetPage_ok answered
      cases read.symm.trans read'
      refine ⟨_, List.mem_singleton_self _, ?_⟩
      have all : (found s).length ≤ offset + asked limit := by
        by_contra more
        rw [Nat.not_le] at more
        exact nomatch (if_pos more).symm.trans ended
      rw [← List.map_drop] at mem
      obtain ⟨a, inside, rfl⟩ := List.mem_map.1 mem
      refine ⟨a, ?_, rfl⟩
      rw [pageAt, List.take_of_length_le]
      · exact inside
      · rw [List.length_drop]
        omega
  | @more s cursor p next later pages answered goes rest ih =>
      intro s' is k mem
      cases is
      obtain ⟨offset', read', -, rfl⟩ := offsetPage_ok answered
      cases read.symm.trans read'
      have further : next = cursorAt (offset + asked limit) := by
        simp only [pageAt] at goes
        split at goes
        · exact (Option.some.inj goes).symm
        · cases goes
      have halves := List.take_append_drop (asked limit) (((found s).map key).drop offset)
      rw [← halves, List.mem_append] at mem
      rcases mem with here | after
      · rw [← List.map_drop, ← List.map_take] at here
        obtain ⟨a, inside, rfl⟩ := List.mem_map.1 here
        exact ⟨_, List.mem_cons_self, a, inside, rfl⟩
      · rw [List.drop_drop] at after
        obtain ⟨t, states, rfl⟩ : ∃ t states, later = t :: states := by
          cases rest with
          | last => exact ⟨_, _, rfl⟩
          | more => exact ⟨_, _, rfl⟩
        obtain ⟨step, chain⟩ := List.isChain_cons_cons.1 grows
        obtain ⟨next_, reads⟩ : ∃ next_, parseOffset (some next) = .ok next_ := by
          cases rest with
          | last answered ended => exact ⟨_, (offsetPage_ok answered).choose_spec.1⟩
          | more answered goes rest => exact ⟨_, (offsetPage_ok answered).choose_spec.1⟩
        have at_ : next_ = offset + asked limit := eq_of_parseOffset (further ▸ reads)
        obtain ⟨p, inside, found_⟩ :=
          ih chain reads t rfl k ((step.drop next_).subset (at_ ▸ after))
        exact ⟨p, List.mem_cons_of_mem _ inside, found_⟩

/-- Over rows that stay as they are the pages are all of them, once and in order. -/
theorem exists_followed (low : 1 ≤ limit.getD defaultLimit)
    (high : limit.getD defaultLimit ≤ maxLimit) (found : σ → List α)
    (facets : σ → List (String × Facet)) {s : σ} (fits : (found s).length ≤ maxOffset)
    (read : parseOffset cursor = .ok offset) : ∃ n pages,
      Followed (fun s => offsetPage (found s) (facets s) limit) (List.replicate n s) cursor pages ∧
      pages.flatMap Page.rows = (found s).drop offset := by
  have pos : 1 ≤ asked limit := by
    rw [asked]
    omega
  induction left : (found s).length - offset using Nat.strong_induction_on
    generalizing cursor offset with
  | _ left ih =>
      have answered : offsetPage (found s) (facets s) limit cursor = .ok _ :=
        offsetPage_of low high read
      by_cases goes : offset + asked limit < (found s).length
      · have reads := parseOffset_cursorAt (goes.le.trans fits)
        obtain ⟨n, pages, rest, rows⟩ := ih _ (by omega) reads rfl
        refine ⟨n + 1, _, .more answered (if_pos goes) rest, ?_⟩
        rw [List.flatMap_cons, rows, pageAt, ← List.drop_drop, List.take_append_drop]
      · refine ⟨1, _, .last answered (if_neg goes), ?_⟩
        rw [List.flatMap_singleton, pageAt, List.take_of_length_le]
        rw [List.length_drop]
        omega

end Pages

/-! ## Both queries -/

variable {engagement : Text} {limit : Option ℤ} {dbs : List Tables}

theorem nodup_map_of_id {α κ : Type} {id : α → Text} {key : α → κ} {rows : List α}
    (ids : (rows.map id).Nodup) (told : ∀ a b, key a = key b → id a = id b)
    (p : α → Bool) : ((rows.filter p).map key).Nodup := by
  refine List.Nodup.map_on ?_ (ids.of_map.filter p)
  intro a inside b inside' same
  exact List.inj_on_of_nodup_map ids (List.mem_of_mem_filter inside)
    (List.mem_of_mem_filter inside') (told a b same)

theorem length_ordered_filter {α κ : Type} [LinearOrder κ] {key : α → κ} {rows : List α}
    (p : α → Bool) : (ordered key (rows.filter p)).length ≤ rows.length :=
  (List.length_insertionSort _ _).trans_le (List.length_filter_le p rows)

theorem Surface.id_of_order {s t : Surface} (same : s.order = t.order) : s.id = t.id :=
  congrArg (fun key => (ofLex (ofLex (ofLex (ofLex key).2).2).2).2) same

theorem Finding.id_of_order {f g : Finding} (same : f.order = g.order) : f.id = g.id :=
  congrArg (fun key => (ofLex key).2) same

/-- Whoever follows the cursors of a table that does not change gets every row that matches, once
and in order, and comes to an end. -/
theorem listed_once (low : 1 ≤ limit.getD defaultLimit)
    (high : limit.getD defaultLimit ≤ maxLimit) (db : Tables)
    (fits : db.surfaces.length ≤ maxOffset ∧ db.findings.length ≤ maxOffset) :
    (∀ filter, ∃ n pages,
      Followed (surfaceQuery engagement filter limit) (List.replicate n db) none pages ∧
      pages.flatMap Page.rows = ordered Surface.order (surfaceRows engagement filter db)) ∧
    ∀ filter, ∃ n pages,
      Followed (findingQuery engagement filter limit) (List.replicate n db) none pages ∧
      pages.flatMap Page.rows = ordered Finding.order (findingRows engagement filter db) := by
  have start : parseOffset none = .ok 0 := rfl
  refine ⟨fun filter => ?_, fun filter => ?_⟩
  · refine exists_followed low high
      (fun db => ordered Surface.order (surfaceRows engagement filter db)) _ ?_ start
    exact (length_ordered_filter _).trans fits.1
  · refine exists_followed low high
      (fun db => ordered Finding.order (findingRows engagement filter db)) _ ?_ start
    exact (length_ordered_filter _).trans fits.2

/-- Whatever matched when somebody began to follow the cursors is on one of the pages, if what
matches goes on to match and keeps its place in the order while other rows come in. -/
theorem none_missed :
    (∀ filter pages, Followed (surfaceQuery engagement filter limit) dbs none pages →
      dbs.IsChain (fun db db' => ∀ s ∈ surfaceRows engagement filter db,
        ∃ t ∈ surfaceRows engagement filter db', t.order = s.order) →
      ∀ db ∈ dbs.head?, ∀ s ∈ surfaceRows engagement filter db,
        ∃ p ∈ pages, ∃ t ∈ p.rows, t.id = s.id) ∧
    ∀ filter pages, Followed (findingQuery engagement filter limit) dbs none pages →
      dbs.IsChain (fun db db' => ∀ f ∈ findingRows engagement filter db,
        ∃ g ∈ findingRows engagement filter db', g.order = f.order) →
      ∀ db ∈ dbs.head?, ∀ f ∈ findingRows engagement filter db,
        ∃ p ∈ pages, ∃ g ∈ p.rows, g.id = f.id := by
  refine ⟨fun filter pages followed grows db first s inside => ?_,
    fun filter pages followed grows db first f inside => ?_⟩
  · have distinct (db : Tables) : ((surfaceRows engagement filter db).map Surface.order).Nodup :=
      nodup_map_of_id db.surfaceIds (fun _ _ => Surface.id_of_order) _
    have kept := grows.imp fun db db' => keys_sublist (distinct db) (distinct db')
    obtain ⟨p, on, t, there, same⟩ := Followed.covers followed kept rfl db first s.order
      (List.mem_map_of_mem (mem_ordered.2 inside))
    exact ⟨p, on, t, there, Surface.id_of_order same⟩
  · have distinct (db : Tables) : ((findingRows engagement filter db).map Finding.order).Nodup :=
      nodup_map_of_id db.findingIds (fun _ _ => Finding.id_of_order) _
    have kept := grows.imp fun db db' => keys_sublist (distinct db) (distinct db')
    obtain ⟨p, on, g, there, same⟩ := Followed.covers followed kept rfl db first f.order
      (List.mem_map_of_mem (mem_ordered.2 inside))
    exact ⟨p, on, g, there, Finding.id_of_order same⟩

/-- A finding of an engagement, by its id. -/
def filed (id : String) (severity : Severity) : Finding where
  id := text id
  engagementId := []
  title := []
  issueTypeId := none
  severity := severity
  confidence := text "Firm"
  status := .new
  createdBy := .check
  host := none
  surfaceId := none
  checkId := none
  cwe := none

/-- Two findings, and a third that comes in before the second. -/
def before : Tables where
  surfaces := []
  findings := [filed "a" .high, filed "b" .low]
  tested := []
  surfaceIds := by decide
  findingIds := by decide

def after : Tables where
  surfaces := []
  findings := [filed "a" .high, filed "b" .low, filed "c" .critical]
  tested := []
  surfaceIds := by decide
  findingIds := by decide

def everything : FindingFilter := ⟨none, none, none, none, none⟩

theorem third_listed : ∃ n pages,
    Followed (findingQuery [] everything (some 1)) (List.replicate n after) none pages ∧
      pages.flatMap Page.rows = [filed "c" .critical, filed "a" .high, filed "b" .low] := by
  have low : 1 ≤ (some (1 : ℤ)).getD defaultLimit := by decide
  obtain ⟨n, pages, followed, rows⟩ := (listed_once low (by decide) after (by decide)).2 everything
  exact ⟨n, pages, followed, rows⟩

theorem second_not_missed : ∃ pages,
    Followed (findingQuery [] everything (some 1)) [before, after, after] none pages ∧
      ∃ p ∈ pages, ∃ g ∈ p.rows, g.id = text "b" := by
  have answered {db : Tables} {cursor : Option Text} {offset : ℕ}
      (read : parseOffset cursor = .ok offset) :
      findingQuery [] everything (some 1) db cursor =
        .ok (pageAt (ordered Finding.order (findingRows [] everything db)) _ 1 offset) :=
    offsetPage_of (by decide) (by decide) read
  have cursor {n : ℕ} (near : n ≤ maxOffset) := parseOffset_cursorAt near
  have third : Followed (findingQuery [] everything (some 1)) [after] (some (cursorAt 2)) _ :=
    .last (answered (cursor (by decide))) rfl
  have second : Followed (findingQuery [] everything (some 1)) [after, after]
      (some (cursorAt 1)) _ :=
    .more (answered (cursor (by decide))) rfl third
  have followed : Followed (findingQuery [] everything (some 1)) [before, after, after] none _ :=
    .more (answered rfl) rfl second
  have came : ∀ f ∈ findingRows [] everything before,
      ∃ g ∈ findingRows [] everything after, g.order = f.order := by decide
  have stayed : ∀ f ∈ findingRows [] everything after,
      ∃ g ∈ findingRows [] everything after, g.order = f.order := fun f there => ⟨f, there, rfl⟩
  refine ⟨_, followed, none_missed.2 everything _ followed ?_ before rfl (filed "b" .low)
    (by decide)⟩
  exact .cons_cons came (.cons_cons stayed (.singleton after))

end Hx.Tools.Paging
