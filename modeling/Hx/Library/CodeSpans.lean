import Mathlib.Data.List.Basic
import Mathlib.Tactic.SplitIfs

/-!
# Code spans, as Markdown reads them

A run of ticks opens a span and the next run of the same length closes it. Of what stands between
them one space is taken off either end, where there is one at both and not all of it is spaces.
-/

namespace Hx.Library.CodeSpan

universe u

variable {α : Type u} [DecidableEq α] (tick space : α)

/-- What stands before the next run of so many ticks, and what follows the run; so many ticks stand
directly before. -/
def closeAt (n : ℕ) : ℕ → List α → Option (List α × List α)
  | run, [] => if run = n then some ([], []) else none
  | run, c :: s =>
      if c = tick then closeAt n (run + 1) s
      else if run = n then some ([], c :: s)
      else (closeAt n 0 s).map fun found => (List.replicate run tick ++ c :: found.1, found.2)

/-- A space at both ends. -/
def Spaced (s : List α) : Prop :=
  s.head? = some space ∧ s.getLast? = some space ∧ ∃ c ∈ s, c ≠ space

instance (s : List α) : Decidable (Spaced space s) := inferInstanceAs (Decidable (_ ∧ _))

def stripped (s : List α) : List α := if Spaced space s then (s.drop 1).dropLast else s

/-- The content of the span at the front, and what follows it. -/
def codeSpan (s : List α) : Option (List α × List α) :=
  let n := (s.takeWhile fun c => c == tick).length
  if n = 0 then none
  else (closeAt tick n 0 (s.drop n)).map fun found => (stripped space found.1, found.2)

/-- Every run of ticks is shorter, also the one that so many ticks directly before begin. -/
def RunsBelow (n : ℕ) : ℕ → List α → Prop
  | run, [] => run < n
  | run, c :: s => if c = tick then RunsBelow n (run + 1) s else run < n ∧ RunsBelow n 0 s

variable {tick space} {n run : ℕ} {s : List α} {c : α}

theorem closeAt_tick (s : List α) :
    closeAt tick n run (tick :: s) = closeAt tick n (run + 1) s := if_pos rfl

theorem closeAt_other (other : c ≠ tick) (open_ : run ≠ n) (s : List α) :
    closeAt tick n run (c :: s) = (closeAt tick n 0 s).map fun found =>
      (List.replicate run tick ++ c :: found.1, found.2) := by
  rw [closeAt, if_neg other, if_neg open_]

theorem closeAt_replicate (k : ℕ) (whole : run + k = n) :
    closeAt tick n run (List.replicate k tick) = some ([], []) := by
  induction k generalizing run with
  | zero => exact if_pos whole
  | succ k ih =>
      rw [List.replicate_succ, closeAt_tick]
      exact ih (by omega)

/-- Content whose runs are shorter, and that does not end in one, stands whole before the run that
closes the span. -/
theorem closeAt_append (below : RunsBelow tick n run s) (last : s.getLast? ≠ some tick)
    (begun : s = [] → run = 0) :
    closeAt tick n run (s ++ List.replicate n tick) =
      some (List.replicate run tick ++ s, []) := by
  induction s generalizing run with
  | nil =>
      rw [begun rfl]
      exact closeAt_replicate n (Nat.zero_add n)
  | cons c s ih =>
      rw [List.cons_append]
      by_cases isTick : c = tick
      · subst isTick
        have some_ : s ≠ [] := by
          rintro rfl
          exact last rfl
        have later : s.getLast? ≠ some c := by
          rw [List.getLast?_cons_of_ne_nil some_] at last
          exact last
        rw [RunsBelow, if_pos rfl] at below
        rw [closeAt_tick, ih below later fun empty => absurd empty some_, List.replicate_succ',
          List.append_assoc]
        rfl
      · rw [RunsBelow, if_neg isTick] at below
        have later : s.getLast? ≠ some tick := by
          cases s with
          | nil => exact (Option.some_ne_none tick).symm
          | cons d s =>
              rw [List.getLast?_cons_cons] at last
              exact last
        rw [closeAt_other isTick (Nat.ne_of_lt below.1), ih below.2 later fun _ => rfl]
        rfl

theorem takeWhile_run (first : s.head? ≠ some tick) (n : ℕ) :
    (List.replicate n tick ++ s).takeWhile (fun c => c == tick) = List.replicate n tick := by
  induction n with
  | zero =>
      cases s with
      | nil => rfl
      | cons c s =>
          have other : c ≠ tick := fun same => first (congrArg some same)
          exact List.takeWhile_cons_of_neg (by simpa using other)
  | succ n ih =>
      rw [List.replicate_succ, List.cons_append, List.takeWhile_cons_of_pos (by simp), ih]

/-- Content between two runs that are longer than any in it, and that touches neither, is the
content of one span. -/
theorem codeSpan_fenced (below : RunsBelow tick n 0 s) (first : s.head? ≠ some tick)
    (last : s.getLast? ≠ some tick) (some_ : s ≠ []) (fence : n ≠ 0) :
    codeSpan tick space (List.replicate n tick ++ (s ++ List.replicate n tick)) =
      some (stripped space s, []) := by
  have front : (s ++ List.replicate n tick).head? ≠ some tick := by
    rw [List.head?_append_of_ne_nil _ some_]
    exact first
  rw [codeSpan, takeWhile_run front, List.length_replicate, if_neg fence, List.drop_left'
    (List.length_replicate), closeAt_append below last fun _ => rfl]
  rfl

/-- Spaces change no run. -/
theorem RunsBelow.append_space (below : RunsBelow tick n run s) (other : c ≠ tick) (fence : n ≠ 0) :
    RunsBelow tick n run (s ++ [c]) := by
  induction s generalizing run with
  | nil =>
      rw [List.nil_append, RunsBelow, if_neg other]
      exact ⟨below, Nat.pos_of_ne_zero fence⟩
  | cons d s ih =>
      rw [List.cons_append, RunsBelow]
      rw [RunsBelow] at below
      split_ifs at below ⊢
      · exact ih below
      · exact ⟨below.1, ih below.2⟩

end Hx.Library.CodeSpan
