import Mathlib.Data.List.Basic
import Mathlib.Tactic.SplitIfs

/-!
# Nested transactions

`transaction` groups the statements of a block. The outermost block of a connection begins and
commits, one inside it sets a savepoint and releases it; whether a block is outermost is read off
a marker kept beside the connection. A control statement may itself raise: at the end of a block
its `else` branch lets that pass, its `except` branch swallows it, and neither looks at what is
left of the transaction.
-/

namespace Hx.Store.Transaction

variable {D : Type}

/-! ## The connection -/

/-- A connection in autocommit mode: what is durable, what its statements see, whether a
transaction is open, its savepoints, the newest first, and how many names `uuid4` has given;
and whether its `id` is in `_OPEN_TRANSACTIONS`. -/
structure Conn (D : Type) where
  disk : D
  now : D
  inTransaction : Bool
  savepoints : List (ℕ × D)
  names : ℕ
  marked : Bool

/-- What a call leaves, and whether it raised. A statement that raises does nothing. -/
abbrev Left (D : Type) := Conn D × Bool

namespace Conn

variable (s : Conn D)

/-- A statement that writes. -/
def execute (effect : D → D) : Conn D :=
  if s.inTransaction then { s with now := effect s.now }
  else { s with now := effect s.now, disk := effect s.now }

/-- `BEGIN`, which raises inside a transaction. -/
def begin_ (raises : Bool) : Left D :=
  if raises || s.inTransaction then (s, true) else ({ s with inTransaction := true }, false)

/-- `COMMIT`, which raises outside of one. -/
def commit (raises : Bool) : Left D :=
  if raises || !s.inTransaction then (s, true)
  else ({ s with disk := s.now, inTransaction := false, savepoints := [] }, false)

/-- `ROLLBACK`. -/
def rollback (raises : Bool) : Left D :=
  if raises || !s.inTransaction then (s, true)
  else ({ s with now := s.disk, inTransaction := false, savepoints := [] }, false)

/-- `SAVEPOINT`, inside a transaction. -/
def savepoint (raises : Bool) (name : ℕ) : Left D :=
  if raises then (s, true) else ({ s with savepoints := (name, s.now) :: s.savepoints }, false)

/-- The savepoints from the newest of that name on. -/
def from_ (name : ℕ) : List (ℕ × D) := s.savepoints.dropWhile (·.1 ≠ name)

/-- `RELEASE SAVEPOINT`, which raises where there is none of that name. -/
def release (raises : Bool) (name : ℕ) : Left D :=
  match s.from_ name with
  | [] => (s, true)
  | _ :: older => if raises then (s, true) else ({ s with savepoints := older }, false)

/-- `ROLLBACK TO SAVEPOINT`, which keeps the savepoint. -/
def rollbackTo (raises : Bool) (name : ℕ) : Left D :=
  match s.from_ name with
  | [] => (s, true)
  | saved :: older =>
      if raises then (s, true) else ({ s with now := saved.2, savepoints := saved :: older }, false)

end Conn

/-! ## `transaction` -/

/-- Which control statements of a block raise: `BEGIN` or `SAVEPOINT`, `COMMIT` or the `RELEASE`
behind a body that returned, `ROLLBACK` or `ROLLBACK TO`, and the `RELEASE` behind that. -/
structure Faults where
  start : Bool
  finish : Bool
  undo : Bool
  drop : Bool

/-- The outermost block. -/
def outermost (f : Faults) (body : Conn D → Left D) (s : Conn D) : Left D :=
  match { s with marked := true }.begin_ f.start with
  | (s, true) => ({ s with marked := false }, true)
  | (s, false) =>
      match body s with
      | (s, true) => ({ (s.rollback f.undo).1 with marked := false }, true)
      | (s, false) => ({ (s.commit f.finish).1 with marked := false }, (s.commit f.finish).2)

/-- A block inside another. -/
def nested (f : Faults) (body : Conn D → Left D) (s : Conn D) : Left D :=
  match { s with names := s.names + 1 }.savepoint f.start s.names with
  | (s, true) => (s, true)
  | (t, false) =>
      match body t with
      | (t, true) =>
          match t.rollbackTo f.undo s.names with
          | (t, true) => (t, true)
          | (t, false) => ((t.release f.drop s.names).1, true)
      | (t, false) => t.release f.finish s.names

/-- `with transaction(conn)` around a body. -/
def transaction (f : Faults) (body : Conn D → Left D) (s : Conn D) : Left D :=
  if s.marked then nested f body s else outermost f body s

/-! ## Trees of blocks -/

/-- What stands in a body: a statement, or whatever else may raise there; or a block, and
whether what it raises is caught around it. -/
inductive Item (D : Type) where
  | statement (effect : D → D) (raises : Bool)
  | block (faults : Faults) (caught : Bool) (body : List (Item D))

mutual

def runItem : Item D → Conn D → Left D
  | .statement effect raises, s => if raises then (s, true) else (s.execute effect, false)
  | .block f caught body, s =>
      ((transaction f (runItems body) s).1, (transaction f (runItems body) s).2 && !caught)

def runItems : List (Item D) → Conn D → Left D
  | [], s => (s, false)
  | item :: rest, s =>
      match runItem item s with
      | (s, true) => (s, true)
      | (s, false) => runItems rest s

end

/-- The state a block's body starts in, if it does. -/
def entered (f : Faults) (s : Conn D) : Option (Conn D) :=
  if s.marked then
    if f.start then none
    else some { s with names := s.names + 1, savepoints := (s.names, s.now) :: s.savepoints }
  else if f.start || s.inTransaction then none
  else some { s with marked := true, inTransaction := true }

mutual

/-- A property of each block that a run comes to, and of the state it comes there in. -/
def alongItem (P : Faults → List (Item D) → Conn D → Prop) : Item D → Conn D → Prop
  | .statement _ _, _ => True
  | .block f _ body, s => P f body s ∧ ∀ e, entered f s = some e → along P body e

def along (P : Faults → List (Item D) → Conn D → Prop) : List (Item D) → Conn D → Prop
  | [], _ => True
  | item :: rest, s =>
      alongItem P item s ∧ ((runItem item s).2 = false → along P rest (runItem item s).1)

end

/-! ## All or nothing -/

/-- The next transaction begins, is durable and returns. -/
def Works (s : Conn D) : Prop :=
  ∀ effects : List (D → D),
    (transaction ⟨false, false, false, false⟩
      (runItems (effects.map fun effect => .statement effect false)) s).2 = false ∧
    (transaction ⟨false, false, false, false⟩
      (runItems (effects.map fun effect => .statement effect false)) s).1.disk =
        effects.foldl (fun d effect => effect d) s.now

/-- A block that raises leaves the data as it found them, one that returns leaves them as its
body did; and behind an outermost block no transaction is open, the next one works, and what it
returned with is durable. -/
structure Atomic (f : Faults) (body : List (Item D)) (s : Conn D) : Prop where
  nothing : (transaction f (runItems body) s).2 = true →
    (transaction f (runItems body) s).1.now = s.now
  all : (transaction f (runItems body) s).2 = false → ∃ e, entered f s = some e ∧
    (runItems body e).2 = false ∧ (transaction f (runItems body) s).1.now = (runItems body e).1.now
  durable : s.marked = false → (transaction f (runItems body) s).1.disk =
    (transaction f (runItems body) s).1.now
  closed : s.marked = false → (transaction f (runItems body) s).1.inTransaction = false ∧
    Works (transaction f (runItems body) s).1

/-- No `COMMIT` and no `ROLLBACK` raises, and a `RELEASE` behind a body that returned or a
`ROLLBACK TO` raises only where the body has left the data as they were. -/
def Harmless (f : Faults) (body : List (Item D)) (s : Conn D) : Prop :=
  ∀ e, entered f s = some e → (if (runItems body e).2 then f.undo else f.finish) = true →
    s.marked = true ∧ (runItems body e).1.now = s.now

/-! ## Inside a transaction -/

/-- What a body leaves as it was: the transaction is the same one, nothing is durable of it, and
the savepoints it adds have new names. -/
structure Kept (s t : Conn D) : Prop where
  inTransaction : t.inTransaction = true
  marked : t.marked = true
  disk : t.disk = s.disk
  names : s.names ≤ t.names
  savepoints : ∃ left, t.savepoints = left ++ s.savepoints ∧ ∀ saved ∈ left, s.names ≤ saved.1

theorem Kept.trans {s t u : Conn D} (first : Kept s t) (second : Kept t u) : Kept s u := by
  obtain ⟨early, before, old⟩ := first.savepoints
  obtain ⟨late, after, new⟩ := second.savepoints
  refine ⟨second.inTransaction, second.marked, second.disk.trans first.disk,
    Nat.le_trans first.names second.names, late ++ early, ?_, ?_⟩
  · rw [after, before, List.append_assoc]
  · intro saved mem
    obtain mem | mem := List.mem_append.1 mem
    · exact Nat.le_trans first.names (new saved mem)
    · exact old saved mem

/-- The state in which a nested body starts. -/
def push (s : Conn D) : Conn D :=
  { s with names := s.names + 1, savepoints := (s.names, s.now) :: s.savepoints }

section Nested

variable {f : Faults} {body : Conn D → Left D} {s t : Conn D}

theorem from_kept (kept : Kept (push s) t) :
    t.from_ s.names = (s.names, s.now) :: s.savepoints := by
  obtain ⟨left, stack, new⟩ := kept.savepoints
  have passes : ∀ saved ∈ left, decide (saved.1 ≠ s.names) = true := by
    intro saved mem
    have later : s.names + 1 ≤ saved.1 := new saved mem
    exact decide_eq_true (Nat.ne_of_gt later)
  rw [Conn.from_, stack, List.dropWhile_append_of_pos passes]
  exact List.dropWhile_cons_of_neg (by simp)

/-- What is left of a nested block once its savepoint is dealt with. -/
theorem Kept.settle (kept : Kept (push s) t) (now : D) {stack : List (ℕ × D)}
    (own : stack = s.savepoints ∨ stack = (s.names, s.now) :: s.savepoints) :
    Kept s { t with now := now, savepoints := stack } := by
  refine ⟨kept.inTransaction, kept.marked, kept.disk, Nat.le_trans (Nat.le_succ _) kept.names, ?_⟩
  obtain rfl | rfl := own
  · exact ⟨[], rfl, fun saved mem => absurd mem List.not_mem_nil⟩
  · refine ⟨[(s.names, s.now)], rfl, fun saved mem => ?_⟩
    exact (List.mem_singleton.1 mem) ▸ Nat.le_refl _

theorem Kept.below (kept : Kept (push s) t) : Kept s t := by
  obtain ⟨left, stack, new⟩ := kept.savepoints
  refine ⟨kept.inTransaction, kept.marked, kept.disk, Nat.le_trans (Nat.le_succ _) kept.names,
    left ++ [(s.names, s.now)], ?_, ?_⟩
  · rw [stack, List.append_assoc]
    rfl
  · intro saved mem
    obtain mem | mem := List.mem_append.1 mem
    · exact Nat.le_trans (Nat.le_succ _) (new saved mem)
    · exact (List.mem_singleton.1 mem) ▸ Nat.le_refl _

/-- A nested block, by what raises. -/
theorem nested_eq (kept : Kept (push s) (body (push s)).1) : nested f body s =
    if f.start then ({ s with names := s.names + 1 }, true)
    else if (body (push s)).2 then
      if f.undo then ((body (push s)).1, true)
      else ({ (body (push s)).1 with
        now := s.now
        savepoints := if f.drop then (s.names, s.now) :: s.savepoints else s.savepoints }, true)
    else if f.finish then ((body (push s)).1, true)
    else ({ (body (push s)).1 with savepoints := s.savepoints }, false) := by
  have own := from_kept kept
  rw [nested, Conn.savepoint]
  cases f.start with
  | true => rfl
  | false =>
      show (match body (push s) with
        | (t, true) =>
            match t.rollbackTo f.undo s.names with
            | (t, true) => (t, true)
            | (t, false) => ((t.release f.drop s.names).1, true)
        | (t, false) => t.release f.finish s.names) = _
      cases ran : body (push s) with
      | mk t raised =>
          rw [ran] at own
          cases raised with
          | true =>
              dsimp only at own ⊢
              rw [Conn.rollbackTo, own]
              cases f.undo with
              | true => rfl
              | false =>
                  have still : Conn.from_ { t with
                      now := s.now, savepoints := (s.names, s.now) :: s.savepoints } s.names =
                    (s.names, s.now) :: s.savepoints := List.dropWhile_cons_of_neg (by simp)
                  simp only [Bool.false_eq_true, if_false, if_true, Conn.release, still]
                  cases f.drop <;> rfl
          | false =>
              dsimp only at own ⊢
              rw [Conn.release, own]
              cases f.finish <;> rfl

theorem kept_nested (kept : Kept (push s) (body (push s)).1)
    (inside : s.inTransaction = true ∧ s.marked = true) : Kept s (nested f body s).1 := by
  rw [nested_eq kept]
  split_ifs
  · exact ⟨inside.1, inside.2, rfl, Nat.le_succ _, [], rfl,
      fun saved mem => absurd mem List.not_mem_nil⟩
  · exact kept.below
  · exact kept.settle s.now (.inr rfl)
  · exact kept.settle s.now (.inl rfl)
  · exact kept.below
  · exact kept.settle _ (.inl rfl)

end Nested

/-- A statement changes the data alone. -/
theorem kept_data {s : Conn D} (open_ : s.inTransaction = true) (marked : s.marked = true)
    (now : D) : Kept s { s with now := now } :=
  ⟨open_, marked, rfl, Nat.le_refl _, [], rfl, fun _ mem => absurd mem List.not_mem_nil⟩

mutual

/-- A body leaves the transaction it runs in. -/
theorem kept_item : ∀ (item : Item D) {s : Conn D}, s.inTransaction = true → s.marked = true →
    Kept s (runItem item s).1
  | .statement effect raises, s, open_, marked => by
      have same : Kept s s := kept_data open_ marked s.now
      rw [runItem]
      cases raises with
      | true => exact same
      | false =>
          have wrote : s.execute effect = { s with now := effect s.now } := if_pos open_
          show Kept s (s.execute effect)
          rw [wrote]
          exact kept_data open_ marked (effect s.now)
  | .block f caught body, s, open_, marked => by
      rw [runItem]
      show Kept s (transaction f (runItems body) s).1
      rw [transaction, if_pos marked]
      exact kept_nested (kept_items body open_ marked) ⟨open_, marked⟩

theorem kept_items : ∀ (items : List (Item D)) {s : Conn D}, s.inTransaction = true →
    s.marked = true → Kept s (runItems items s).1
  | [], s, open_, marked => by
      rw [runItems]
      exact kept_data open_ marked s.now
  | item :: rest, s, open_, marked => by
      have first := kept_item item open_ marked
      rw [runItems]
      cases ran : runItem item s with
      | mk t raised =>
          rw [ran] at first
          cases raised with
          | true => exact first
          | false => exact first.trans (kept_items rest first.inTransaction first.marked)

end

section Ends

variable {f : Faults} {body : List (Item D)} {s e : Conn D}

/-- A block whose body is not entered raises nothing at its end. -/
theorem harmless_of_none (start : entered f s = none) : Harmless f body s := by
  intro e enters
  rw [start] at enters
  contradiction

theorem harmless_of_quiet (start : entered f s = some e)
    (quiet : (if (runItems body e).2 then f.undo else f.finish) = false) : Harmless f body s := by
  intro e' enters raises
  obtain rfl := Option.some.inj (start.symm.trans enters)
  exact absurd (quiet.symm.trans raises) Bool.noConfusion

/-- A nested block that raises, with the data as they were. -/
theorem atomic_of_undone (marked : s.marked = true)
    (raised : (transaction f (runItems body) s).2 = true)
    (same : (transaction f (runItems body) s).1.now = s.now) : Atomic f body s := by
  have inside : s.marked ≠ false := by
    rw [marked]
    exact Bool.noConfusion
  exact ⟨fun _ => same, fun returned => absurd (raised.symm.trans returned) Bool.noConfusion,
    fun outer => absurd outer inside, fun outer => absurd outer inside⟩

/-- A nested block whose end raises leaves the data as its body did. -/
theorem atomic_iff_of_stuck (marked : s.marked = true) (start : entered f s = some e)
    (raises : (if (runItems body e).2 then f.undo else f.finish) = true)
    (raised : (transaction f (runItems body) s).2 = true)
    (left : (transaction f (runItems body) s).1.now = (runItems body e).1.now) :
    Atomic f body s ↔ Harmless f body s := by
  constructor
  · intro atomic e' enters _
    obtain rfl := Option.some.inj (start.symm.trans enters)
    exact ⟨marked, left.symm.trans (atomic.nothing raised)⟩
  · intro harmless
    exact atomic_of_undone marked raised (left.trans (harmless e start raises).2)

/-- An outermost block that leaves its transaction open. -/
theorem atomic_iff_of_open (free : s.marked = false) (start : entered f s = some e)
    (raises : (if (runItems body e).2 then f.undo else f.finish) = true)
    (open_ : (transaction f (runItems body) s).1.inTransaction = true) :
    Atomic f body s ↔ Harmless f body s := by
  refine iff_of_false (fun atomic => ?_) fun harmless => ?_
  · exact absurd (open_.symm.trans (atomic.closed free).1) Bool.noConfusion
  · exact absurd (free.symm.trans (harmless e start raises).1) Bool.noConfusion

end Ends

/-- A nested block is all or nothing exactly where what raises at its end is harmless. -/
theorem atomic_nested (f : Faults) (body : List (Item D)) {s : Conn D}
    (open_ : s.inTransaction = true) (marked : s.marked = true) :
    Atomic f body s ↔ Harmless f body s := by
  have kept : Kept (push s) (runItems body (push s)).1 := kept_items body open_ marked
  have left : transaction f (runItems body) s = nested f (runItems body) s := if_pos marked
  have start : entered f s = if f.start then none else some (push s) := if_pos marked
  have inside : s.marked ≠ false := by
    rw [marked]
    exact Bool.noConfusion
  rw [nested_eq kept] at left
  generalize (if f.drop then (s.names, s.now) :: s.savepoints else s.savepoints) = stack at left
  split_ifs at left start with started raised undone finished
  · exact iff_of_true (atomic_of_undone marked (by rw [left]) (by rw [left]))
      (harmless_of_none start)
  · exact atomic_iff_of_stuck marked start (by rw [if_pos raised, undone]) (by rw [left])
      (by rw [left])
  · refine iff_of_true (atomic_of_undone marked (by rw [left]) (by rw [left]))
      (harmless_of_quiet start ?_)
    rw [if_pos raised]
    exact Bool.eq_false_iff.2 undone
  · exact atomic_iff_of_stuck marked start (by rw [if_neg raised, finished]) (by rw [left])
      (by rw [left])
  · refine iff_of_true ⟨fun failed => ?_, fun _ => ?_, fun outer => absurd outer inside,
      fun outer => absurd outer inside⟩ (harmless_of_quiet start ?_)
    · rw [left] at failed
      contradiction
    · rw [left]
      exact ⟨push s, start, by simpa using raised, rfl⟩
    · rw [if_neg raised]
      exact Bool.eq_false_iff.2 finished

mutual

theorem along_item : ∀ (item : Item D) {s : Conn D}, s.inTransaction = true → s.marked = true →
    (alongItem Atomic item s ↔ alongItem Harmless item s)
  | .statement _ _, _, _, _ => Iff.rfl
  | .block f caught body, s, open_, marked => by
      have start : entered f s = if f.start then none else some (push s) := if_pos marked
      rw [alongItem, alongItem]
      refine and_congr (atomic_nested f body open_ marked) ?_
      refine forall_congr' fun e => imp_congr_right fun enters => ?_
      rw [start] at enters
      split at enters
      · contradiction
      · obtain rfl := Option.some.inj enters
        exact along_items body open_ marked

theorem along_items : ∀ (items : List (Item D)) {s : Conn D}, s.inTransaction = true →
    s.marked = true → (along Atomic items s ↔ along Harmless items s)
  | [], _, _, _ => Iff.rfl
  | item :: rest, s, open_, marked => by
      have kept := kept_item item open_ marked
      rw [along, along]
      exact and_congr (along_item item open_ marked)
        (imp_congr_right fun _ => along_items rest kept.inTransaction kept.marked)

end

/-! ## The outermost block -/

/-- The state in which an outermost body starts. -/
def opened (s : Conn D) : Conn D := { s with marked := true, inTransaction := true }

theorem rollback_inside {t : Conn D} (open_ : t.inTransaction = true) (raises : Bool) :
    t.rollback raises = if raises then (t, true)
      else ({ t with now := t.disk, inTransaction := false, savepoints := [] }, false) := by
  rw [Conn.rollback, open_, Bool.not_true, Bool.or_false]

theorem commit_inside {t : Conn D} (open_ : t.inTransaction = true) (raises : Bool) :
    t.commit raises = if raises then (t, true)
      else ({ t with disk := t.now, inTransaction := false, savepoints := [] }, false) := by
  rw [Conn.commit, open_, Bool.not_true, Bool.or_false]

/-- An outermost block, by what raises. -/
theorem outermost_eq {f : Faults} {body : Conn D → Left D} {s : Conn D}
    (closed : s.inTransaction = false) (kept : Kept (opened s) (body (opened s)).1) :
    outermost f body s =
      if f.start then ({ s with marked := false }, true)
      else if (body (opened s)).2 then
        if f.undo then ({ (body (opened s)).1 with marked := false }, true)
        else ({ (body (opened s)).1 with
          now := s.disk, inTransaction := false, savepoints := [], marked := false }, true)
      else if f.finish then ({ (body (opened s)).1 with marked := false }, true)
      else ({ (body (opened s)).1 with
        disk := (body (opened s)).1.now, inTransaction := false, savepoints := [], marked := false },
          false) := by
  have still := kept.inTransaction
  have disk : (body (opened s)).1.disk = s.disk := kept.disk
  rw [outermost, Conn.begin_]
  cases f.start with
  | true => rfl
  | false =>
      rw [closed]
      show (match body (opened s) with
        | (t, true) => ({ (t.rollback f.undo).1 with marked := false }, true)
        | (t, false) => ({ (t.commit f.finish).1 with marked := false }, (t.commit f.finish).2)) = _
      cases ran : body (opened s) with
      | mk t raised =>
          rw [ran] at still disk
          dsimp only at still disk
          cases raised with
          | true =>
              dsimp only
              rw [rollback_inside still]
              cases f.undo with
              | true => rfl
              | false =>
                  show ({ t with
                    now := t.disk, inTransaction := false, savepoints := [], marked := false },
                      true) = _
                  rw [disk]
                  rfl
          | false =>
              dsimp only
              rw [commit_inside still]
              cases f.finish <;> rfl

theorem run_statements (effects : List (D → D)) : ∀ {s : Conn D}, s.inTransaction = true →
    runItems (effects.map fun effect => .statement effect false) s =
      ({ s with now := effects.foldl (fun d effect => effect d) s.now }, false) := by
  induction effects with
  | nil =>
      intro s _
      rfl
  | cons effect effects ih =>
      intro s open_
      have wrote : runItem (.statement effect false) s =
          ({ s with now := effect s.now }, false) := by
        rw [runItem, Conn.execute, if_pos open_]
        rfl
      rw [List.map_cons, runItems, wrote]
      exact ih open_

theorem works_of_closed {s : Conn D} (closed : s.inTransaction = false) (free : s.marked = false) :
    Works s := by
  intro effects
  have ran := run_statements effects (s := opened s) rfl
  have kept : Kept (opened s)
      (runItems (effects.map fun effect => .statement effect false) (opened s)).1 :=
    kept_items _ rfl rfl
  have left : transaction ⟨false, false, false, false⟩
      (runItems (effects.map fun effect => .statement effect false)) s = _ :=
    (if_neg (by rw [free]; exact Bool.noConfusion)).trans (outermost_eq closed kept)
  rw [left, ran]
  exact ⟨rfl, rfl⟩

/-- A connection between transactions: everything its statements see is durable. -/
structure Idle (s : Conn D) : Prop where
  closed : s.inTransaction = false
  free : s.marked = false
  durable : s.disk = s.now

theorem atomic_outermost (f : Faults) (body : List (Item D)) {s : Conn D} (idle : Idle s) :
    Atomic f body s ↔ Harmless f body s := by
  have outer : ¬ s.marked = true := by
    rw [idle.free]
    exact Bool.noConfusion
  have kept : Kept (opened s) (runItems body (opened s)).1 := kept_items body rfl rfl
  have left : transaction f (runItems body) s = outermost f (runItems body) s := if_neg outer
  have start : entered f s = if f.start then none else some (opened s) := by
    rw [entered, if_neg outer, idle.closed, Bool.or_false]
    rfl
  rw [outermost_eq idle.closed kept] at left
  split_ifs at left start with started raised undone finished
  · refine iff_of_true ⟨fun _ => ?_, fun returned => ?_, fun _ => ?_, fun _ => ?_⟩
      (harmless_of_none start)
    · rw [left]
    · rw [left] at returned
      contradiction
    · rw [left]
      exact idle.durable
    · rw [left]
      exact ⟨idle.closed, works_of_closed idle.closed rfl⟩
  · exact atomic_iff_of_open idle.free start (by rw [if_pos raised, undone])
      (by rw [left]; exact kept.inTransaction)
  · refine iff_of_true ⟨fun _ => ?_, fun returned => ?_, fun _ => ?_, fun _ => ?_⟩
      (harmless_of_quiet start ?_)
    · rw [left]
      exact idle.durable
    · rw [left] at returned
      contradiction
    · rw [left]
      exact kept.disk
    · rw [left]
      exact ⟨rfl, works_of_closed rfl rfl⟩
    · rw [if_pos raised]
      exact Bool.eq_false_iff.2 undone
  · exact atomic_iff_of_open idle.free start (by rw [if_neg raised, finished])
      (by rw [left]; exact kept.inTransaction)
  · refine iff_of_true ⟨fun failed => ?_, fun _ => ?_, fun _ => ?_, fun _ => ?_⟩
      (harmless_of_quiet start ?_)
    · rw [left] at failed
      contradiction
    · rw [left]
      exact ⟨opened s, start, by simpa using raised, rfl⟩
    · rw [left]
    · rw [left]
      exact ⟨rfl, works_of_closed rfl rfl⟩
    · rw [if_neg raised]
      exact Bool.eq_false_iff.2 finished

/-- A connection as `connect` opens it, or as a transaction leaves it. -/
def between (data : D) (names : ℕ) : Conn D := ⟨data, data, false, [], names, false⟩

/-- Every block of a tree is all or nothing exactly where what raises at the end of each of them
is harmless. -/
theorem atomic_iff_harmless (f : Faults) (caught : Bool) (body : List (Item D)) (data : D)
    (names : ℕ) : alongItem Atomic (.block f caught body) (between data names) ↔
      alongItem Harmless (.block f caught body) (between data names) := by
  have idle : Idle (between data names) := ⟨rfl, rfl, rfl⟩
  rw [alongItem, alongItem]
  refine and_congr (atomic_outermost f body idle) ?_
  refine forall_congr' fun e => imp_congr_right fun enters => ?_
  have start : entered f (between data names) =
      if f.start then none else some (opened (between data names)) := by
    rw [entered, between]
    cases f.start <;> rfl
  rw [start] at enters
  split at enters
  · contradiction
  · obtain rfl := Option.some.inj enters
    exact along_items body rfl rfl

/-- A `COMMIT` that finds the database busy leaves the transaction open. -/
theorem busy_commit_stays_open : ¬ ∀ (f : Faults) (caught : Bool) (body : List (Item ℕ))
    (data names : ℕ), alongItem Atomic (.block f caught body) (between data names) := by
  intro all
  have every := all ⟨false, true, false, false⟩ false [.statement (· + 1) false] 0 0
  rw [alongItem] at every
  have closed := (every.1.closed rfl).1
  contradiction

end Hx.Store.Transaction
