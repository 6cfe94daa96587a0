import Hx.Library.Message
import Hx.Library.Occurrences
import Hx.Python.Text

/-!
# `http.grep`

A literal is looked for in the bytes stored for some exchanges. Every match is counted, and one
page of them and one more is kept as rows. An exchange with nothing to read is reported; one of
which a part could be read is not, and where the other part failed its check nobody is told.
-/

namespace Hx.Tools.Grep

open Hx.Python (Bytes latin1)
open Hx.Library

/-! ## What the call meets -/

/-- `PARTS`. -/
inductive PartChoice where
  | request
  | response
  | both
  deriving DecidableEq

inductive Part where
  | request
  | response
  deriving DecidableEq

/-- The columns of a row of `exchange` that are read. -/
structure BlobRow where
  reqBlob : Option String
  respBlob : Option String
  respLen : Option ℕ

/-- The database, the blob store, and the text of a `UnicodeEncodeError`. `get` gives nothing
where it raises `CorruptBlob`: no file, another length, another digest. -/
structure World where
  row : String → Option BlobRow
  get : String → Option ℕ → Option Bytes
  encodeError : List Char → String

/-- The arguments of a call. -/
structure Ask where
  exchangeIds : List String
  pattern : List Char
  part : PartChoice
  contextBytes : ℕ
  ignoreCase : Bool

structure Row where
  exchangeId : String
  part : Part
  offset : ℕ
  before : List Char
  match_ : List Char
  after : List Char
  deriving DecidableEq

/-- What `envelope.page` makes, whose cursor is always `None` here. -/
structure Page where
  rows : List Row
  returned : ℕ
  total : ℕ
  truncated : Bool
  unreadable : List String
  searched : ℕ
  deriving DecidableEq

/-- A page, or one of the two exceptions with its reason and its detail. -/
inductive Answer where
  | page (page : Page)
  | refused (reason detail : String)
  | unavailable (reason detail : String)
  deriving DecidableEq

/-- `MAX_LIMIT`. -/
def maxLimit : ℕ := 500

/-- `MAX_EXCHANGES`. -/
def maxExchanges : ℕ := 50

/-! ## The search -/

/-- A stored digest, unless it is `NULL` or empty. -/
def digestOf (blob : Option String) : Option String := blob.filter (· ≠ "")

/-- The parts of a row that are asked for and stored: a digest, and a length to expect. -/
def stored (choice : PartChoice) (row : BlobRow) : List (Part × String × Option ℕ) :=
  (if choice = .request ∨ choice = .both then
    (digestOf row.reqBlob).toList.map fun digest => (.request, digest, none)
  else []) ++
  if choice = .response ∨ choice = .both then
    (digestOf row.respBlob).toList.map fun digest => (.response, digest, row.respLen)
  else []

/-- `_blobs_for`. -/
def blobsFor (world : World) (choice : PartChoice) (id : String) : Option (List (Part × Bytes)) :=
  match world.row id with
  | none => none
  | some row =>
      let out := (stored choice row).filterMap fun part =>
        (world.get part.2.1 part.2.2).map fun data => (part.1, data)
      if out = [] then none else some out

/-- `page`, of a limit that it takes. -/
def page (rows : List Row) (total limit : ℕ) (unreadable : List String) (searched : ℕ) : Page where
  rows := rows.take limit
  returned := (rows.take limit).length
  total := total
  truncated := limit < rows.length
  unreadable := unreadable
  searched := searched

namespace Ask

variable (ask : Ask)

/-- `data.lower()` where case is ignored. -/
def folded (data : Bytes) : Bytes := if ask.ignoreCase then data.map Message.lower else data

/-- The needle. -/
def needle : Bytes := ask.folded (ask.pattern.map fun c => UInt8.ofNat c.toNat)

/-- The row of a match. -/
def rowAt (id : String) (part : Part) (data : Bytes) (offset : ℕ) : Row where
  exchangeId := id
  part := part
  offset := offset
  before := latin1 ((data.take offset).drop (offset - ask.contextBytes))
  match_ := latin1 ((data.take (offset + ask.needle.length)).drop offset)
  after := latin1 ((data.take (min data.length (offset + ask.needle.length + ask.contextBytes))).drop
    (offset + ask.needle.length))

end Ask

/-- The variables of the loop. -/
structure Tally where
  rows : List Row
  total : ℕ
  unreadable : List String
  anyReadable : Bool

/-- A match is counted, and kept while the rows are no more than a page. -/
def Tally.note (t : Tally) (row : Row) : Tally :=
  { t with
    total := t.total + 1
    rows := if t.rows.length ≤ maxLimit then t.rows ++ [row] else t.rows }

section Loop

variable (ask : Ask) (world : World)

/-- The `while` loop over one part, from the place last found. -/
def scan (id : String) (part : Part) (data : Bytes) : ℕ → Option ℕ → Tally → Tally
  | 0, _, t => t
  | _ + 1, none, t => t
  | fuel + 1, some offset, t =>
      scan id part data fuel
        (findFrom ask.needle (ask.folded data) (offset + ask.needle.length))
        (t.note (ask.rowAt id part data offset))

def scanPart (id : String) (t : Tally) (part : Part × Bytes) : Tally :=
  scan ask id part.1 part.2 (part.2.length + 1) (findFrom ask.needle (ask.folded part.2) 0) t

def scanExchange (t : Tally) (id : String) : Tally :=
  match blobsFor world ask.part id with
  | none => { t with unreadable := t.unreadable ++ [id] }
  | some found => found.foldl (scanPart ask id) { t with anyReadable := true }

/-- The loop over the exchanges. -/
def tally : Tally := ask.exchangeIds.foldl (scanExchange ask world) ⟨[], 0, [], false⟩

def tooMany (count : ℕ) : String :=
  s!"{count} exchanges is more than the {maxExchanges} one grep reads into memory at once. " ++
    "Split the call."

def noneReadable (count : ℕ) : String :=
  s!"none of the {count} requested exchange(s) could be read -- surface.detail lists what this " ++
    "engagement actually holds."

/-- `grep`. -/
def grep : Answer :=
  if ask.pattern.any fun c => 256 ≤ c.toNat then .refused "bad_args" (world.encodeError ask.pattern)
  else if maxExchanges < ask.exchangeIds.length then
    .refused "bad_args" (tooMany ask.exchangeIds.length)
  else if ask.exchangeIds ≠ [] ∧ (tally ask world).anyReadable = false then
    .unavailable "unreadable" (noneReadable ask.exchangeIds.length)
  else
    .page (page (tally ask world).rows (tally ask world).total maxLimit
      (tally ask world).unreadable ask.exchangeIds.length)

end Loop

/-! ## What a call owes -/

/-- The parts of an exchange that are asked for and stored. -/
def parts (world : World) (choice : PartChoice) (id : String) : List (Part × String × Option ℕ) :=
  (world.row id).toList.flatMap (stored choice)

/-- Those of them that can be read. -/
def readable (world : World) (choice : PartChoice) (id : String) : List (Part × Bytes) :=
  (parts world choice id).filterMap fun part =>
    (world.get part.2.1 part.2.2).map fun data => (part.1, data)

/-- The rows of the matches in some exchanges, in order. -/
def matchRows (ask : Ask) (world : World) (offsets : Bytes → List ℕ) (ids : List String) :
    List Row :=
  ids.flatMap fun id => (readable world ask.part id).flatMap fun part =>
    (offsets part.2).map (ask.rowAt id part.1 part.2)

/-- Every match is counted, the first page of them shown, and every part named that could not
be read. -/
structure Told (ask : Ask) (world : World) (offsets : Bytes → List ℕ) (page : Page) : Prop where
  total : page.total = (matchRows ask world offsets ask.exchangeIds).length
  rows : page.rows = (matchRows ask world offsets ask.exchangeIds).take (min page.total maxLimit)
  truncated : page.truncated = true ↔ maxLimit < page.total
  reported : ∀ id ∈ ask.exchangeIds, ∀ part ∈ parts world ask.part id,
    world.get part.2.1 part.2.2 = none → id ∈ page.unreadable

/-- A page tells all, and no page is where some exchanges are asked for and none can be read. -/
def Answers (ask : Ask) (world : World) (offsets : Bytes → List ℕ) : Answer → Prop
  | .page page => Told ask world offsets page
  | .unavailable _ _ =>
      ask.exchangeIds ≠ [] ∧ ∀ id ∈ ask.exchangeIds, readable world ask.part id = []
  | .refused _ _ => False

/-- The answer is right by the places of the needle from left to right. -/
def Exact (ask : Ask) (world : World) (answer : Answer) : Prop :=
  ∀ offsets : Bytes → List ℕ,
    (∀ data, LeftToRight ask.needle (ask.folded data) 0 (offsets data)) →
      Answers ask world offsets answer

/-- An exchange of which a part can be read has no other part that cannot. -/
def Whole (ask : Ask) (world : World) : Prop :=
  ∀ id ∈ ask.exchangeIds, readable world ask.part id ≠ [] →
    ∀ part ∈ parts world ask.part id, world.get part.2.1 part.2.2 ≠ none

/-! ## The loop -/

/-- What the loop has counted and kept of some rows. -/
structure Holds (done : List Row) (t : Tally) : Prop where
  total : t.total = done.length
  rows : t.rows = done.take (maxLimit + 1)

theorem Holds.note {done : List Row} {t : Tally} (holds : Holds done t) (row : Row) :
    Holds (done ++ [row]) (t.note row) := by
  constructor
  · simp [Tally.note, holds.total]
  · have kept : t.rows.length = min (maxLimit + 1) done.length := by
      rw [holds.rows, List.length_take]
    show (if t.rows.length ≤ maxLimit then t.rows ++ [row] else t.rows) = _
    by_cases room : t.rows.length ≤ maxLimit
    · have short : done.length ≤ maxLimit := by omega
      have whole : t.rows = done := by
        rw [holds.rows]
        exact List.take_of_length_le (by omega)
      rw [if_pos room, whole]
      exact (List.take_of_length_le (by simpa using short)).symm
    · have full : maxLimit + 1 ≤ done.length := by omega
      rw [if_neg room, holds.rows]
      exact (List.take_append_of_le_length full).symm

theorem Holds.foldl {done : List Row} {t : Tally} (holds : Holds done t) (rows : List Row) :
    Holds (done ++ rows) (rows.foldl Tally.note t) := by
  induction rows generalizing done t with
  | nil => simpa using holds
  | cons row rows ih =>
      have more := ih (holds.note row)
      rwa [List.append_assoc, List.singleton_append] at more

/-- The notes leave what could be read as it was. -/
theorem notes_same (rows : List Row) (t : Tally) :
    (rows.foldl Tally.note t).unreadable = t.unreadable ∧
      (rows.foldl Tally.note t).anyReadable = t.anyReadable := by
  induction rows generalizing t with
  | nil => exact ⟨rfl, rfl⟩
  | cons row rows ih => exact ih (t.note row)

section Loop

variable (ask : Ask) (world : World)

/-- The places the search finds in a part. -/
def found (data : Bytes) : List ℕ :=
  places ask.needle (ask.folded data) (data.length + 1)
    (findFrom ask.needle (ask.folded data) 0)

theorem scan_eq (id : String) (part : Part) (data : Bytes) : ∀ (fuel : ℕ) (from_ : Option ℕ)
    (t : Tally), scan ask id part data fuel from_ t =
      ((places ask.needle (ask.folded data) fuel from_).map (ask.rowAt id part data)).foldl
        Tally.note t
  | 0, _, _ => rfl
  | _ + 1, none, _ => rfl
  | fuel + 1, some offset, t => scan_eq id part data fuel _ (t.note (ask.rowAt id part data offset))

theorem scanParts_eq (id : String) (some_ : List (Part × Bytes)) (t : Tally) :
    some_.foldl (scanPart ask id) t =
      (some_.flatMap fun part => (found ask part.2).map (ask.rowAt id part.1 part.2)).foldl
        Tally.note t := by
  induction some_ generalizing t with
  | nil => rfl
  | cons part some_ ih =>
      rw [List.foldl_cons, ih, List.flatMap_cons, List.foldl_append, scanPart, scan_eq]
      rfl

theorem blobsFor_eq (id : String) : blobsFor world ask.part id =
    if readable world ask.part id = [] then none else some (readable world ask.part id) := by
  rw [blobsFor, readable, parts]
  cases world.row id with
  | none => rfl
  | some row =>
      rw [Option.toList_some, List.flatMap_singleton]

/-- The loop's variables, once some exchanges are done. -/
structure Done (ids : List String) (t : Tally) : Prop where
  holds : Holds (matchRows ask world (found ask) ids) t
  unreadable : t.unreadable = ids.filter fun id => readable world ask.part id = []
  anyReadable : t.anyReadable = ids.any fun id => readable world ask.part id ≠ []

theorem Done.step {ids : List String} {t : Tally} (done : Done ask world ids t) (id : String) :
    Done ask world (ids ++ [id]) (scanExchange ask world t id) := by
  have rows : matchRows ask world (found ask) (ids ++ [id]) =
      matchRows ask world (found ask) ids ++ (readable world ask.part id).flatMap fun part =>
        (found ask part.2).map (ask.rowAt id part.1 part.2) := by
    rw [matchRows, List.flatMap_append, List.flatMap_singleton]
    rfl
  rw [scanExchange, blobsFor_eq]
  by_cases empty : readable world ask.part id = []
  · rw [if_pos empty]
    refine ⟨?_, ?_, ?_⟩
    · rw [rows, empty, List.flatMap_nil, List.append_nil]
      exact ⟨done.holds.total, done.holds.rows⟩
    · simp [done.unreadable, empty]
    · simp [done.anyReadable, empty]
  · rw [if_neg empty]
    dsimp only
    rw [scanParts_eq]
    obtain ⟨unreadable, anyReadable⟩ := notes_same ((readable world ask.part id).flatMap
      fun part => (found ask part.2).map (ask.rowAt id part.1 part.2))
      { t with anyReadable := true }
    refine ⟨?_, ?_, ?_⟩
    · rw [rows]
      have before : Holds (matchRows ask world (found ask) ids) { t with anyReadable := true } :=
        ⟨done.holds.total, done.holds.rows⟩
      exact before.foldl _
    · rw [unreadable]
      simp [done.unreadable, empty]
    · rw [anyReadable]
      simp [empty]

theorem done_tally : Done ask world ask.exchangeIds (tally ask world) := by
  rw [tally]
  induction ask.exchangeIds using List.reverseRecOn with
  | nil => exact ⟨⟨rfl, rfl⟩, rfl, rfl⟩
  | append_singleton ids id ih =>
      rw [List.foldl_append]
      exact ih.step ask world id

/-! ## The answer -/

theorem needle_ne_nil (some_ : ask.pattern ≠ []) : ask.needle ≠ [] := by
  intro empty
  have short := congrArg List.length empty
  rw [Ask.needle, Ask.folded] at short
  split at short
  · rw [List.length_map, List.length_map] at short
    exact some_ (List.length_eq_zero_iff.1 short)
  · rw [List.length_map] at short
    exact some_ (List.length_eq_zero_iff.1 short)

theorem length_folded (data : Bytes) : (ask.folded data).length = data.length := by
  rw [Ask.folded]
  split
  · exact List.length_map _
  · rfl

theorem found_leftToRight (some_ : ask.pattern ≠ []) (data : Bytes) :
    LeftToRight ask.needle (ask.folded data) 0 (found ask data) := by
  refine places_leftToRight (needle_ne_nil ask some_) _ ?_
  rw [length_folded, Nat.zero_add]
  exact Nat.lt_succ_self _

/-- The page of a call that could read something, or was asked for nothing. -/
def pageOf : Page :=
  page (tally ask world).rows (tally ask world).total maxLimit (tally ask world).unreadable
    ask.exchangeIds.length

theorem told_iff : Told ask world (found ask) (pageOf ask world) ↔ Whole ask world := by
  have done := done_tally ask world
  constructor
  · intro told id asked some_ part mem lost
    have named := told.reported id asked part mem lost
    have unreadable : id ∈ (tally ask world).unreadable := named
    rw [done.unreadable] at unreadable
    exact some_ (of_decide_eq_true (List.mem_filter.1 unreadable).2)
  · intro whole
    constructor
    · exact done.holds.total
    · show (tally ask world).rows.take maxLimit = _
      have bound : min (tally ask world).total maxLimit =
          min maxLimit (matchRows ask world (found ask) ask.exchangeIds).length := by
        rw [done.holds.total, Nat.min_comm]
      rw [done.holds.rows, List.take_take, Nat.min_eq_left (Nat.le_succ _)]
      show _ = List.take (min (tally ask world).total maxLimit) _
      rw [bound, ← List.take_eq_take_min]
    · show decide (maxLimit < (tally ask world).rows.length) = true ↔ _ < (tally ask world).total
      rw [decide_eq_true_iff, done.holds.rows, List.length_take, done.holds.total]
      omega
    · intro id asked part mem lost
      show id ∈ (tally ask world).unreadable
      rw [done.unreadable]
      refine List.mem_filter.2 ⟨asked, decide_eq_true ?_⟩
      by_contra some_
      exact whole id asked some_ part mem lost

end Loop

/-- A call's answer is exact exactly where no exchange can be read in part. -/
theorem exact_iff_whole (ask : Ask) (world : World) (some_ : ask.pattern ≠ [])
    (latin : ∀ c ∈ ask.pattern, c.toNat < 256) (few : ask.exchangeIds.length ≤ maxExchanges) :
    Exact ask world (grep ask world) ↔ Whole ask world := by
  have places := found_leftToRight ask some_
  have plain : ¬ (ask.pattern.any fun c => 256 ≤ c.toNat) = true := by
    simpa using latin
  rw [grep, if_neg plain, if_neg (Nat.not_lt.2 few)]
  split
  · rename_i none_
    have empty : ∀ id ∈ ask.exchangeIds, readable world ask.part id = [] := by
      have all := none_.2
      rw [(done_tally ask world).anyReadable] at all
      simpa using all
    exact ⟨fun _ id asked some_ => absurd (empty id asked) some_,
      fun _ offsets _ => ⟨none_.1, empty⟩⟩
  · rw [← told_iff]
    constructor
    · exact fun exact_ => exact_ (found ask) places
    · intro told offsets others
      have same : offsets = found ask := funext fun data => (others data).unique (places data)
      rw [same]
      exact told

/-! ## Half an exchange -/

/-- One exchange whose request is stored, and whose response failed its check. -/
def halfRead : World where
  row := fun id => if id = "x-1" then some ⟨some "aa", some "bb", some 4⟩ else none
  get := fun digest _ => if digest = "aa" then some [71, 69, 84] else none
  encodeError := fun _ => ""

def bothHalves : Ask := ⟨["x-1"], "needle".toList, .both, 64, false⟩

theorem half_unreported : ¬ ∀ (ask : Ask) (world : World), ask.pattern ≠ [] →
    (∀ c ∈ ask.pattern, c.toNat < 256) → ask.exchangeIds.length ≤ maxExchanges →
      Exact ask world (grep ask world) := by
  intro all
  have exact_ := all bothHalves halfRead (by decide)
    (fun c mem => of_decide_eq_true (List.all_eq_true.1 (by decide :
      bothHalves.pattern.all (fun c => decide (c.toNat < 256)) = true) c mem)) (by decide)
  have answer : grep bothHalves halfRead = .page ⟨[], 0, 0, false, [], 1⟩ := by decide
  rw [answer] at exact_
  have told := exact_ (found bothHalves) (found_leftToRight bothHalves (by decide))
  have lost := told.reported "x-1" (by decide) (.response, "bb", some 4) (by decide) (by decide)
  contradiction

/-- The same exchange, asked for its request only. -/
def requestHalf : Ask := ⟨["x-1"], "E".toList, .request, 64, false⟩

theorem exact_requestHalf : Exact requestHalf halfRead (grep requestHalf halfRead) ↔
    Whole requestHalf halfRead :=
  exact_iff_whole requestHalf halfRead (by decide)
    (fun c mem => of_decide_eq_true (List.all_eq_true.1 (by decide :
      requestHalf.pattern.all (fun c => decide (c.toNat < 256)) = true) c mem)) (by decide)

end Hx.Tools.Grep
