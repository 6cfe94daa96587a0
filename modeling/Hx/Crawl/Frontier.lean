import Hx.Crawl.Normalise
import Hx.Library.Transition
import Mathlib

/-!
# The crawl

The frontier holds what was accepted and not visited yet. `next` tests the budgets before it looks
whether anything is left, so a crawl that used up a budget with its last page names that budget
although it visited all it accepted.
-/

namespace Hx.Crawl

open Hx.Library

structure Budget (T : Type) where
  maxPages : Int
  maxSeconds : T
  maxRequests : Int

/-- What `exhausted` names. -/
inductive Exhausted where
  | maxPages
  | maxRequests
  | maxSeconds
  deriving DecidableEq

/-- The clock is the sequence of its readings, and `readings` of them were used. -/
structure Frontier (T : Type) where
  budget : Budget T
  started : T
  readings : Nat
  queue : List Text
  seen : List Text
  origins : List Text
  requests : Nat
  visited : Nat
  exhausted : Option Exhausted

section Frontier

variable {T : Type} [Sub T] [LE T] [DecidableLE T]
variable (U : Urllib) (L : Lowering)

/-- The origins of the seeds that have one, unless an address of theirs is not split. -/
def originsOf : List Text → Option (List Text)
  | [] => some []
  | seed :: rest =>
      match originOf U L seed with
      | none => none
      | some origin => (originsOf rest).map fun origins => origin.toList ++ origins

namespace Frontier

/-- `_enqueue`. -/
def enqueue (f : Frontier T) (url : Text) : Option (Frontier T × Bool) :=
  match normalise U L url with
  | none => some (f, false)
  | some n =>
      match originOf U L n with
      | none => none
      | some origin =>
          if onSeed f.origins origin = false then some (f, false)
          else if f.seen.contains n then some (f, false)
          else some ({ f with seen := f.seen ++ [n], queue := f.queue ++ [n] }, true)

def offer (f : Frontier T) : List Text → Option (Frontier T × Nat)
  | [] => some (f, 0)
  | url :: urls =>
      match f.enqueue U L url with
      | none => none
      | some (f, new) => (offer f urls).map fun p => (p.1, new.toNat + p.2)

/-- `__init__`. -/
def init (clock : Nat → T) (seeds : List Text) (budget : Budget T) : Option (Frontier T) :=
  match originsOf U L seeds with
  | none => none
  | some origins =>
      (offer U L ⟨budget, clock 0, 1, [], [], origins, 0, 0, none⟩ seeds).map Prod.fst

def noteRequests (f : Frontier T) (n : Nat) : Frontier T := { f with requests := f.requests + n }

def next (clock : Nat → T) (f : Frontier T) : Option Text × Frontier T :=
  if f.budget.maxPages ≤ f.visited then (none, { f with exhausted := some .maxPages })
  else if f.budget.maxRequests ≤ f.requests then (none, { f with exhausted := some .maxRequests })
  else
    let at_ := clock f.readings
    let f := { f with readings := f.readings + 1 }
    if f.budget.maxSeconds ≤ at_ - f.started then (none, { f with exhausted := some .maxSeconds })
    else match f.queue with
      | [] => (none, f)
      | url :: rest => (some url, { f with visited := f.visited + 1, queue := rest })

/-- A budget is used up. -/
def Spent (clock : Nat → T) (f : Frontier T) : Prop :=
  f.budget.maxPages ≤ f.visited ∨ f.budget.maxRequests ≤ f.requests ∨
    f.budget.maxSeconds ≤ clock f.readings - f.started

end Frontier

end Frontier

/-! ## The loop -/

/-- The variables of `crawl`, and the addresses it visited. -/
structure Progress (T : Type) where
  origins : List Text
  frontier : Frontier T
  rendered : Nat
  degraded : Nat
  failed : Nat
  capped : Nat
  loadFailed : Nat
  requests : Nat
  dropped : List Text
  pages : List Text

structure CrawlSummary where
  pages : Nat
  rendered : Nat
  degraded : Nat
  failed : Nat
  capped : Nat
  requests : Nat
  droppedHosts : List Text
  truncatedBy : Option Exhausted
  loadFailed : Nat

/-- What one turn of the loop comes to. -/
inductive Turn (T : Type) where
  | stopped (c : Progress T)
  | raised
  | went (c : Progress T)

inductive Finish (T : Type) where
  | raised
  | finished (c : Progress T)

namespace Progress

variable {T : Type}

/-- What the loop adds up of a page. -/
def count (c : Progress T) (result : PageResult) : Progress T :=
  { c with
    rendered := c.rendered + (if result.state = .rendered then 1 else 0)
    degraded := c.degraded + (if result.state = .degraded then 1 else 0)
    failed := c.failed + (if result.state = .failed then 1 else 0)
    capped := c.capped + (if result.capped then 1 else 0)
    loadFailed := c.loadFailed + (if result.loadErrors.isEmpty then 0 else 1)
    requests := c.requests + result.requests
    dropped := c.dropped ++ result.droppedHosts }

def summary (c : Progress T) : CrawlSummary :=
  ⟨c.frontier.visited, c.rendered, c.degraded, c.failed, c.capped, c.requests,
    sorted c.dropped.dedup, c.frontier.exhausted, c.loadFailed⟩

end Progress

section Loop

variable {T : Type} [Sub T] [LE T] [DecidableLE T]
variable (U : Urllib) (L : Lowering) (visit : List Text → Text → PageResult × List Text)
variable (clock : Nat → T)

/-- What `crawl` sets up before its loop. -/
def begun (seeds : List Text) (budget : Budget T) : Option (Progress T) :=
  match originsOf U L seeds with
  | none => none
  | some origins =>
      (Frontier.init U L clock seeds budget).map fun f =>
        ⟨origins, f, 0, 0, 0, 0, 0, 0, [], []⟩

def turn (c : Progress T) : Turn T :=
  match c.frontier.next clock with
  | (none, f) => .stopped { c with frontier := f }
  | (some url, f) =>
      let answer := visit c.origins url
      match (f.noteRequests answer.1.requests).offer U L answer.2 with
      | none => .raised
      | some (f, _) => .went { c.count answer.1 with frontier := f, pages := c.pages ++ [url] }

def loop : Nat → Progress T → Option (Finish T)
  | 0, _ => none
  | fuel + 1, c =>
      match turn U L visit clock c with
      | .stopped c => some (.finished c)
      | .raised => some .raised
      | .went c => loop fuel c

/-- `crawl`: every turn but the last visits a page, and the last one visits none. -/
def crawl (seeds : List Text) (budget : Budget T) : Option (Finish T) :=
  match begun U L clock seeds budget with
  | none => some .raised
  | some c => loop U L visit clock (budget.maxPages.toNat + 1) c

/-- The states in which the loop asks for the next page. -/
def turns (seeds : List Text) (budget : Budget T) : System (Progress T) Unit where
  init c := begun U L clock seeds budget = some c
  step c _ c' := turn U L visit clock c = .went c'

/-- What a crawl owes whoever reads its summary. -/
structure HonestCrawl (seeds : List Text) (budget : Budget T) (c : Progress T) : Prop where
  normal : ∀ url ∈ c.pages, ∃ raw, normalise U L raw = some url
  once : c.pages.Nodup
  seeded : ∀ url ∈ c.pages, ∃ origin, originOf U L url = some (some origin) ∧
    ∃ seed ∈ seeds, originOf U L seed = some (some origin)
  bounded : c.pages.length ≤ budget.maxPages.toNat
  counted : c.summary.pages = c.pages.length
  told : c.summary.truncatedBy ≠ none ↔ ∃ url ∈ c.frontier.seen, url ∉ c.pages
  complete : (∀ url ∈ c.frontier.seen, url ∈ c.pages) → c.summary.truncatedBy = none

/-- The normal form of an address is asked for its origin, and there the address is split again. -/
def Offerable (url : Text) : Prop := ∀ n, normalise U L url = some n → originOf U L n ≠ none

/-- No address raises, and no budget is used up when nothing is left to visit. -/
structure Untroubled (seeds : List Text) (budget : Budget T) : Prop where
  seeds_ : ∀ seed ∈ seeds, originOf U L seed ≠ none ∧ Offerable U L seed
  links : ∀ c, (turns U L visit clock seeds budget).Reachable c → ¬ c.frontier.Spent clock →
    ∀ url ∈ c.frontier.queue.head?, ∀ link ∈ (visit c.origins url).2, Offerable U L link
  unspent : ∀ c, (turns U L visit clock seeds budget).Reachable c → c.frontier.queue = [] →
    ¬ c.frontier.Spent clock

end Loop

/-! ## What the frontier keeps -/

section Keeping

variable {T : Type} {U : Urllib} {L : Lowering}

theorem originsOf_eq_none_iff {seeds : List Text} :
    originsOf U L seeds = none ↔ ∃ seed ∈ seeds, originOf U L seed = none := by
  induction seeds with
  | nil => simp [originsOf]
  | cons seed rest ih =>
      rw [originsOf, List.exists_mem_cons_iff]
      cases originOf U L seed with
      | none => exact iff_of_true rfl (.inl rfl)
      | some origin =>
          rw [Option.map_eq_none_iff, ih]
          exact (or_iff_right nofun).symm

theorem mem_originsOf {seeds origins : List Text} (h : originsOf U L seeds = some origins)
    {origin : Text} :
    origin ∈ origins ↔ ∃ seed ∈ seeds, originOf U L seed = some (some origin) := by
  induction seeds generalizing origins with
  | nil =>
      obtain rfl := Option.some.inj h
      simp
  | cons seed rest ih =>
      rw [originsOf] at h
      rw [List.exists_mem_cons_iff]
      cases found : originOf U L seed with
      | none =>
          rw [found] at h
          cases h
      | some first =>
          rw [found] at h
          obtain ⟨others, behind, rfl⟩ := Option.map_eq_some_iff.1 h
          rw [List.mem_append, ih behind, Option.mem_toList, Option.some.injEq]

theorem onSeed_iff {origins : List Text} {origin : Option Text} :
    onSeed origins origin = true ↔ ∃ o ∈ origins, origin = some o := by
  cases origin with
  | none => simp [onSeed]
  | some o => simp [onSeed]

/-- The frontier of a crawl that visited `pages` and may go on. -/
structure Kept (U : Urllib) (L : Lowering) (budget : Budget T) (origins : List Text)
    (f : Frontier T) (pages : List Text) : Prop where
  budget_ : f.budget = budget
  origins_ : f.origins = origins
  seen : f.seen = pages ++ f.queue
  nodup : f.seen.Nodup
  normal : ∀ url ∈ f.seen, ∃ raw, normalise U L raw = some url
  seeded : ∀ url ∈ f.seen, ∃ origin ∈ origins, originOf U L url = some (some origin)
  visited : f.visited = pages.length
  bounded : f.visited ≤ budget.maxPages.toNat
  going : f.exhausted = none

variable {budget : Budget T} {origins pages : List Text} {f f' : Frontier T}

theorem enqueue_eq_none_iff {url : Text} :
    f.enqueue U L url = none ↔ ¬ Offerable U L url := by
  rw [Frontier.enqueue, Offerable]
  cases normalise U L url with
  | none => exact iff_of_false (Option.some_ne_none _) fun no => no nofun
  | some n =>
      cases found : originOf U L n with
      | none =>
          refine iff_of_true ?_ fun answers => answers n rfl found
          dsimp only
          rw [found]
      | some origin =>
          refine iff_of_false ?_ fun no => no ?_
          · dsimp only
            rw [found]
            dsimp only
            split_ifs
            all_goals exact not_false
          · intro m same
            obtain rfl := Option.some.inj same
            rw [found]
            exact Option.some_ne_none _

theorem enqueue_kept {url : Text} {new : Bool} (h : f.enqueue U L url = some (f', new))
    (kept : Kept U L budget origins f pages) : Kept U L budget origins f' pages := by
  rw [Frontier.enqueue] at h
  cases form : normalise U L url with
  | none =>
      rw [form] at h
      obtain ⟨rfl, -⟩ := Prod.mk.inj (Option.some.inj h)
      exact kept
  | some n =>
      rw [form] at h
      dsimp only at h
      cases found : originOf U L n with
      | none =>
          rw [found] at h
          cases h
      | some origin =>
          rw [found] at h
          dsimp only at h
          split_ifs at h with foreign old
          · obtain ⟨rfl, -⟩ := Prod.mk.inj (Option.some.inj h)
            exact kept
          · obtain ⟨rfl, -⟩ := Prod.mk.inj (Option.some.inj h)
            exact kept
          · obtain ⟨rfl, -⟩ := Prod.mk.inj (Option.some.inj h)
            obtain ⟨o, mem, rfl⟩ := onSeed_iff.1 (Bool.eq_true_of_not_eq_false foreign)
            have fresh : n ∉ f.seen := fun mem => old (List.contains_iff_mem.2 mem)
            exact
              { kept with
                seen := by rw [← List.append_assoc, ← kept.seen]
                nodup := List.nodup_append_comm.1 (List.nodup_cons.2 ⟨fresh, kept.nodup⟩)
                normal := List.forall_mem_append.2
                  ⟨kept.normal, List.forall_mem_singleton.2 ⟨url, form⟩⟩
                seeded := List.forall_mem_append.2
                  ⟨kept.seeded, List.forall_mem_singleton.2 ⟨o, kept.origins_ ▸ mem, found⟩⟩ }

theorem offer_eq_none_iff {urls : List Text} :
    f.offer U L urls = none ↔ ∃ url ∈ urls, ¬ Offerable U L url := by
  induction urls generalizing f with
  | nil => simp [Frontier.offer]
  | cons url urls ih =>
      rw [Frontier.offer, List.exists_mem_cons_iff, ← enqueue_eq_none_iff (f := f)]
      cases f.enqueue U L url with
      | none => exact iff_of_true rfl (.inl rfl)
      | some p =>
          rw [Option.map_eq_none_iff, ih]
          exact (or_iff_right nofun).symm

theorem offer_kept {urls : List Text} {new : Nat} (h : f.offer U L urls = some (f', new))
    (kept : Kept U L budget origins f pages) : Kept U L budget origins f' pages := by
  induction urls generalizing f new with
  | nil =>
      obtain ⟨rfl, -⟩ := Prod.mk.inj (Option.some.inj h)
      exact kept
  | cons url urls ih =>
      rw [Frontier.offer] at h
      cases first : f.enqueue U L url with
      | none =>
          rw [first] at h
          cases h
      | some p =>
          rw [first] at h
          obtain ⟨q, others, same⟩ := Option.map_eq_some_iff.1 h
          obtain ⟨rfl, -⟩ := Prod.mk.inj same
          exact ih others (enqueue_kept first kept)

/-- What `next` does: it names a budget, or finds nothing, or takes the page at the front. -/
theorem next_cases [Sub T] [LE T] [DecidableLE T] (clock : Nat → T) (f : Frontier T) :
    (f.Spent clock ∧ ∃ why n,
      f.next clock = (none, { f with exhausted := some why, readings := n })) ∨
    (¬ f.Spent clock ∧ f.queue = [] ∧
      f.next clock = (none, { f with readings := f.readings + 1 })) ∨
    (¬ f.Spent clock ∧ ∃ url rest, f.queue = url :: rest ∧ f.next clock =
      (some url, { f with
        readings := f.readings + 1, visited := f.visited + 1, queue := rest })) := by
  by_cases pages : f.budget.maxPages ≤ f.visited
  · exact .inl ⟨.inl pages, .maxPages, f.readings, if_pos pages⟩
  by_cases requests : f.budget.maxRequests ≤ f.requests
  · refine .inl ⟨.inr (.inl requests), .maxRequests, f.readings, ?_⟩
    rw [Frontier.next, if_neg pages, if_pos requests]
  by_cases seconds : f.budget.maxSeconds ≤ clock f.readings - f.started
  · refine .inl ⟨.inr (.inr seconds), .maxSeconds, f.readings + 1, ?_⟩
    rw [Frontier.next, if_neg pages, if_neg requests]
    exact if_pos seconds
  have left : ¬ f.Spent clock := not_or.2 ⟨pages, not_or.2 ⟨requests, seconds⟩⟩
  refine .inr ?_
  rw [Frontier.next, if_neg pages, if_neg requests]
  cases waiting : f.queue with
  | nil => exact .inl ⟨left, rfl, if_neg seconds⟩
  | cons url rest => exact .inr ⟨left, url, rest, rfl, if_neg seconds⟩

end Keeping

/-! ## What the loop keeps -/

section Running

variable {T : Type} [Sub T] [LE T] [DecidableLE T] {U : Urllib} {L : Lowering}
variable {visit : List Text → Text → PageResult × List Text} {clock : Nat → T}
variable {seeds : List Text} {budget : Budget T} {c d : Progress T}

/-- A crawl that may go on. -/
def KeptCrawl (U : Urllib) (L : Lowering) (seeds : List Text) (budget : Budget T)
    (c : Progress T) : Prop :=
  ∃ origins, originsOf U L seeds = some origins ∧ Kept U L budget origins c.frontier c.pages

omit [Sub T] [LE T] [DecidableLE T] in
theorem begun_kept (h : begun U L clock seeds budget = some c) :
    KeptCrawl U L seeds budget c ∧ c.frontier.visited = 0 := by
  rw [begun] at h
  cases found : originsOf U L seeds with
  | none =>
      rw [found] at h
      cases h
  | some origins =>
      rw [found] at h
      obtain ⟨f, opened, rfl⟩ := Option.map_eq_some_iff.1 h
      rw [Frontier.init, found] at opened
      obtain ⟨p, offered, rfl⟩ := Option.map_eq_some_iff.1 opened
      have kept : Kept U L budget origins p.1 [] := offer_kept offered
        { budget_ := rfl, origins_ := rfl, seen := rfl, nodup := List.nodup_nil
          normal := fun _ mem => absurd mem List.not_mem_nil
          seeded := fun _ mem => absurd mem List.not_mem_nil
          visited := rfl, bounded := Nat.zero_le _, going := rfl }
      exact ⟨⟨origins, found, kept⟩, kept.visited⟩

omit [Sub T] [LE T] [DecidableLE T] in
theorem begun_eq_none_iff :
    begun U L clock seeds budget = none ↔
      ∃ seed ∈ seeds, ¬ (originOf U L seed ≠ none ∧ Offerable U L seed) := by
  have parts (seed : Text) : ¬ (originOf U L seed ≠ none ∧ Offerable U L seed) ↔
      originOf U L seed = none ∨ ¬ Offerable U L seed := by
    rw [not_and_or, not_not]
  simp only [parts, and_or_left, exists_or]
  rw [← originsOf_eq_none_iff, begun]
  cases found : originsOf U L seeds with
  | none => exact iff_of_true rfl (.inl rfl)
  | some origins =>
      dsimp only
      rw [Option.map_eq_none_iff, Frontier.init, found]
      dsimp only
      rw [Option.map_eq_none_iff, offer_eq_none_iff]
      exact (or_iff_right (Option.some_ne_none _)).symm

/-- One turn: the loop stops for a budget or for want of pages, or a page is visited. -/
theorem turn_cases (visit : List Text → Text → PageResult × List Text) (clock : Nat → T)
    (kept : KeptCrawl U L seeds budget c) :
    (c.frontier.Spent clock ∧ ∃ why n, turn U L visit clock c =
      .stopped { c with frontier := { c.frontier with exhausted := some why, readings := n } }) ∨
    (¬ c.frontier.Spent clock ∧ c.frontier.queue = [] ∧ turn U L visit clock c =
      .stopped { c with frontier := { c.frontier with readings := c.frontier.readings + 1 } }) ∨
    (¬ c.frontier.Spent clock ∧ ∃ url ∈ c.frontier.queue.head?,
      ((turn U L visit clock c = .raised ∧
          ∃ link ∈ (visit c.origins url).2, ¬ Offerable U L link) ∨
        ((∀ link ∈ (visit c.origins url).2, Offerable U L link) ∧
          ∃ c', turn U L visit clock c = .went c' ∧ KeptCrawl U L seeds budget c' ∧
            c'.frontier.visited = c.frontier.visited + 1))) := by
  obtain ⟨origins, found, kept⟩ := kept
  rcases next_cases clock c.frontier with
    ⟨spent, why, n, is⟩ | ⟨left, empty, is⟩ | ⟨left, url, rest, waiting, is⟩
  · refine .inl ⟨spent, why, n, ?_⟩
    rw [turn, is]
  · refine .inr (.inl ⟨left, empty, ?_⟩)
    rw [turn, is]
  · refine .inr (.inr ⟨left, url, ?_, ?_⟩)
    · rw [waiting]
      rfl
    rw [turn, is]
    dsimp only
    have room : c.frontier.visited + 1 ≤ budget.maxPages.toNat := by
      have under := (not_or.1 left).1
      rw [kept.budget_] at under
      omega
    have taken : Kept U L budget origins
        ({ c.frontier with
          readings := c.frontier.readings + 1
          visited := c.frontier.visited + 1
          queue := rest }.noteRequests (visit c.origins url).1.requests) (c.pages ++ [url]) :=
      { kept with
        seen := by
          rw [List.append_assoc]
          exact kept.seen.trans (by rw [waiting]; rfl)
        visited := by
          rw [List.length_append]
          exact congrArg (· + 1) kept.visited
        bounded := room }
    cases offered : Frontier.offer U L _ (visit c.origins url).2 with
    | none => exact .inl ⟨rfl, offer_eq_none_iff.1 offered⟩
    | some p =>
        refine .inr ⟨?_, _, rfl, ⟨origins, found, offer_kept offered taken⟩, ?_⟩
        · intro link mem
          by_contra no
          rw [offer_eq_none_iff.2 ⟨link, mem, no⟩] at offered
          cases offered
        · have counted := (offer_kept offered taken).visited
          rw [List.length_append, ← kept.visited] at counted
          exact counted

theorem went_kept (kept : KeptCrawl U L seeds budget c) (went : turn U L visit clock c = .went d) :
    KeptCrawl U L seeds budget d ∧ d.frontier.visited = c.frontier.visited + 1 := by
  rcases turn_cases visit clock kept with
    ⟨-, _, _, is⟩ | ⟨-, -, is⟩ | ⟨-, url, -, ⟨is, -⟩ | ⟨-, e, is, kept', more⟩⟩
  · cases went.symm.trans is
  · cases went.symm.trans is
  · cases went.symm.trans is
  · obtain rfl := Turn.went.inj (went.symm.trans is)
    exact ⟨kept', more⟩

/-- Every state in which a page is asked for is one the crawl passes through with turns left. -/
theorem reachable_kept (reached : (turns U L visit clock seeds budget).Reachable c) :
    KeptCrawl U L seeds budget c ∧ ∃ fuel, budget.maxPages.toNat < c.frontier.visited + fuel ∧
      crawl U L visit clock seeds budget = loop U L visit clock fuel c := by
  refine reached.invariant (P := fun c => KeptCrawl U L seeds budget c ∧
    ∃ fuel, budget.maxPages.toNat < c.frontier.visited + fuel ∧
      crawl U L visit clock seeds budget = loop U L visit clock fuel c) ?_ ?_
  · intro c start
    obtain ⟨kept, zero⟩ := begun_kept start
    refine ⟨kept, budget.maxPages.toNat + 1, by omega, ?_⟩
    rw [crawl, show begun U L clock seeds budget = some c from start]
  · rintro c ⟨⟩ c' ⟨kept, fuel, enough, same⟩ went
    obtain ⟨kept', more⟩ := went_kept kept went
    obtain ⟨_, _, keeps⟩ := kept
    have bounded := keeps.bounded
    obtain ⟨fuel, rfl⟩ : ∃ n, fuel = n + 1 := ⟨fuel - 1, by omega⟩
    refine ⟨kept', fuel, by omega, ?_⟩
    rw [same, loop, show turn U L visit clock c = .went c' from went]

/-- What the last turn comes to is what the crawl comes to. -/
theorem crawl_of_last (reached : (turns U L visit clock seeds budget).Reachable c) :
    (∀ d, turn U L visit clock c = .stopped d →
      crawl U L visit clock seeds budget = some (.finished d)) ∧
    (turn U L visit clock c = .raised → crawl U L visit clock seeds budget = some .raised) := by
  obtain ⟨⟨_, _, kept⟩, fuel, enough, same⟩ := reachable_kept reached
  have bounded := kept.bounded
  obtain ⟨fuel, rfl⟩ : ∃ n, fuel = n + 1 := ⟨fuel - 1, by omega⟩
  constructor
  · intro d is
    rw [same, loop, is]
  · intro is
    rw [same, loop, is]

/-- Every visit uses up a page of the budget, so there is a last turn. -/
theorem exists_last (reached : (turns U L visit clock seeds budget).Reachable c) :
    ∃ last, (turns U L visit clock seeds budget).Reachable last ∧
      ∀ d, turn U L visit clock last ≠ .went d := by
  generalize size : budget.maxPages.toNat - c.frontier.visited = n
  induction n generalizing c with
  | zero =>
      refine ⟨c, reached, fun d is => ?_⟩
      obtain ⟨⟨_, _, keeps⟩, more⟩ := went_kept (reachable_kept reached).1 is
      have bounded := keeps.bounded
      omega
  | succ n ih =>
      by_cases on : ∃ d, turn U L visit clock c = .went d
      · obtain ⟨d, is⟩ := on
        obtain ⟨-, more⟩ := went_kept (reachable_kept reached).1 is
        exact ih (reached.step (a := ()) is) (by omega)
      · exact ⟨c, reached, fun d is => on ⟨d, is⟩⟩

/-- The summary is honest unless the last page was taken as a budget ran out. -/
theorem honest_iff (kept : KeptCrawl U L seeds budget c)
    (stopped : turn U L visit clock c = .stopped d) :
    HonestCrawl U L seeds budget d ↔ (c.frontier.queue = [] → ¬ c.frontier.Spent clock) := by
  obtain ⟨origins, found, kept⟩ := kept
  have whole (f : Frontier T) (seen : f.seen = c.frontier.seen)
      (visited : f.visited = c.frontier.visited)
      (told : f.exhausted ≠ none ↔ ∃ url ∈ f.seen, url ∉ c.pages) :
      HonestCrawl U L seeds budget { c with frontier := f } :=
    { normal := fun url mem => kept.normal url (kept.seen ▸ List.mem_append_left _ mem)
      once := (List.nodup_append.1 (kept.seen ▸ kept.nodup)).1
      seeded := by
        intro url mem
        obtain ⟨origin, on, is⟩ := kept.seeded url (kept.seen ▸ List.mem_append_left _ mem)
        exact ⟨origin, is, (mem_originsOf found).1 on⟩
      bounded := kept.visited ▸ kept.bounded
      counted := visited.trans kept.visited
      told := told
      complete := by
        intro every
        by_contra named
        obtain ⟨url, mem, missed⟩ := told.1 named
        exact missed (every url mem) }
  have left : (∃ url ∈ c.frontier.seen, url ∉ c.pages) ↔ c.frontier.queue ≠ [] := by
    rw [kept.seen]
    constructor
    · rintro ⟨url, mem, missed⟩ empty
      rw [empty, List.append_nil] at mem
      exact missed mem
    · intro waiting
      obtain ⟨url, mem⟩ := List.exists_mem_of_ne_nil _ waiting
      refine ⟨url, List.mem_append_right _ mem, fun visited => ?_⟩
      exact (List.nodup_append.1 (kept.seen ▸ kept.nodup)).2.2 url visited url mem rfl
  rcases turn_cases visit clock ⟨origins, found, kept⟩ with
    ⟨spent, why, n, is⟩ | ⟨unspent, empty, is⟩ | ⟨-, url, -, ⟨is, -⟩ | ⟨-, e, is, -, -⟩⟩
  · obtain rfl := Turn.stopped.inj (stopped.symm.trans is)
    constructor
    · intro honest empty _
      exact left.1 (honest.told.1 (Option.some_ne_none why)) empty
    · intro unspent
      exact whole _ rfl rfl
        (iff_of_true (Option.some_ne_none why) (left.2 fun empty => unspent empty spent))
  · obtain rfl := Turn.stopped.inj (stopped.symm.trans is)
    refine iff_of_true (whole _ rfl rfl ?_) fun _ => unspent
    exact iff_of_false (fun named => named kept.going) fun missed => left.1 missed empty
  · cases stopped.symm.trans is
  · cases stopped.symm.trans is

/-- The turns are determined, so what is asked of every one can be told from the crawl. -/
theorem untroubled_of_honest (is : crawl U L visit clock seeds budget = some (.finished d))
    (honest : HonestCrawl U L seeds budget d) : Untroubled U L visit clock seeds budget := by
  refine ⟨?_, ?_, ?_⟩
  · by_contra no
    simp only [not_forall] at no
    obtain ⟨seed, mem, no⟩ := no
    rw [crawl, begun_eq_none_iff.2 ⟨seed, mem, no⟩] at is
    cases is
  · intro c' reached' unspent url front link mem
    obtain ⟨kept', -⟩ := reachable_kept reached'
    rcases turn_cases visit clock kept' with
      ⟨spent, -⟩ | ⟨-, empty, -⟩ | ⟨-, url', front', ⟨raised, -⟩ | ⟨offerable, -⟩⟩
    · exact absurd spent unspent
    · rw [empty] at front
      cases front
    · cases is.symm.trans ((crawl_of_last reached').2 raised)
    · obtain rfl := Option.some.inj (Eq.trans (Eq.symm front) front')
      exact offerable link mem
  · intro c' reached' empty spent
    obtain ⟨kept', -⟩ := reachable_kept reached'
    rcases turn_cases visit clock kept' with
      ⟨-, why, n, stopped⟩ | ⟨unspent, -⟩ | ⟨unspent, -⟩
    · have same := is.symm.trans ((crawl_of_last reached').1 _ stopped)
      obtain rfl := Finish.finished.inj (Option.some.inj same)
      exact (honest_iff kept' stopped).1 honest empty spent
    · exact unspent spent
    · exact unspent spent

/-- A crawl always ends. It ends with a summary that is honest exactly if no address raises and no
budget is used up when there is nothing left to visit. -/
theorem crawl_honest_iff (U : Urllib) (L : Lowering)
    (visit : List Text → Text → PageResult × List Text) (clock : Nat → T) (seeds : List Text)
    (budget : Budget T) :
    (∃ e, crawl U L visit clock seeds budget = some e) ∧
      ((∃ c, crawl U L visit clock seeds budget = some (.finished c) ∧
          HonestCrawl U L seeds budget c) ↔
        Untroubled U L visit clock seeds budget) := by
  have told : (∃ c, crawl U L visit clock seeds budget = some (.finished c) ∧
      HonestCrawl U L seeds budget c) → Untroubled U L visit clock seeds budget :=
    fun ⟨_, is, honest⟩ => untroubled_of_honest is honest
  cases start : begun U L clock seeds budget with
  | none =>
      refine ⟨⟨.raised, by rw [crawl, start]⟩, told, fun calm => ?_⟩
      obtain ⟨seed, mem, no⟩ := begun_eq_none_iff.1 start
      exact absurd (calm.seeds_ seed mem) no
  | some c =>
      have begins : (turns U L visit clock seeds budget).Reachable c := .init start
      obtain ⟨last, reached, stays⟩ := exists_last begins
      obtain ⟨kept, -⟩ := reachable_kept reached
      obtain ⟨ends, raises⟩ := crawl_of_last reached
      cases is : turn U L visit clock last with
      | stopped d =>
          refine ⟨⟨_, ends d is⟩, told, fun calm => ⟨d, ends d is, ?_⟩⟩
          exact (honest_iff kept is).2 (calm.unspent last reached)
      | raised =>
          refine ⟨⟨_, raises is⟩, told, fun calm => ?_⟩
          rcases turn_cases visit clock kept with
            ⟨-, why, n, stopped⟩ | ⟨-, -, stopped⟩ |
              ⟨unspent, url, front, ⟨-, bad⟩ | ⟨-, e, went, -⟩⟩
          · cases is.symm.trans stopped
          · cases is.symm.trans stopped
          · obtain ⟨link, mem, no⟩ := bad
            exact absurd (calm.links last reached unspent url front link mem) no
          · cases is.symm.trans went
      | went d => exact absurd is (stays d)

end Running

/-! ## One page and a budget of one page -/

def onePage (_ : List Text) (_ : Text) : PageResult × List Text :=
  (⟨.rendered, 1, [], [], false, []⟩, [])

/-- The page was visited and nothing is left, and still the summary names the budget. -/
theorem last_page_names_budget :
    (∃ c, crawl asciiUrllib unchanged onePage (fun _ => 0) [text "https://h.test/"]
          (⟨1, 60, 100⟩ : Budget Int) = some (.finished c) ∧
        c.summary.truncatedBy = some .maxPages ∧ c.frontier.seen = c.pages) ∧
      ¬ ∃ c, crawl asciiUrllib unchanged onePage (fun _ => 0) [text "https://h.test/"]
          (⟨1, 60, 100⟩ : Budget Int) = some (.finished c) ∧
        HonestCrawl asciiUrllib unchanged [text "https://h.test/"] ⟨1, 60, 100⟩ c := by
  have told : ∃ c, crawl asciiUrllib unchanged onePage (fun _ => 0) [text "https://h.test/"]
      (⟨1, 60, 100⟩ : Budget Int) = some (.finished c) ∧
        c.summary.truncatedBy = some .maxPages ∧ c.frontier.seen = c.pages :=
    ⟨_, rfl, rfl, rfl⟩
  refine ⟨told, ?_⟩
  obtain ⟨c, is, named, every⟩ := told
  rintro ⟨d, is', honest⟩
  obtain rfl := Finish.finished.inj (Option.some.inj (is.symm.trans is'))
  have none_ := honest.complete fun url mem => every ▸ mem
  rw [named] at none_
  cases none_

end Hx.Crawl
