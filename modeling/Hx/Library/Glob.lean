import Mathlib.Data.List.Basic
import Mathlib.Tactic.Ring

/-!
# Globs with one saved backtrack point

A pattern is a word in which one letter, `star`, stands for any run of letters.
`Matches` is the declarative meaning. `search` is the usual iterative matcher: it
keeps a single backtrack point, the latest star and the text where that star began,
and gives up only when there is none left to move.

One point is enough because a later star absorbs what an earlier one could still
have tried: see `Matches.of_later`.
-/

namespace Hx.Library.Glob

universe u

variable {α : Type u} (star : α)

/-- The letters of the pattern in order, each star replaced by some run. -/
inductive Matches : List α → List α → Prop where
  | nil : Matches [] []
  | letter {c : α} {p t : List α} : c ≠ star → Matches p t → Matches (c :: p) (c :: t)
  | skip {p t : List α} : Matches p t → Matches (star :: p) t
  | take {c : α} {p t : List α} : Matches (star :: p) t → Matches (star :: p) (c :: t)

variable {star} {p q t u v w : List α} {c : α}

/-- A star takes any run in front of what the rest of the pattern matches. -/
theorem Matches.of_suffix (h : Matches star p t) (w : List α) :
    Matches star (star :: p) (w ++ t) := by
  induction w with
  | nil => exact .skip h
  | cons c w ih => exact .take ih

theorem matches_star_iff :
    Matches star (star :: p) t ↔ ∃ w v, t = w ++ v ∧ Matches star p v := by
  constructor
  · intro h
    generalize same : star :: p = pattern at h
    induction h with
    | nil => cases same
    | letter other _ _ =>
        cases same
        exact absurd rfl other
    | skip h _ =>
        cases same
        exact ⟨[], _, rfl, h⟩
    | @take c p' t' h ih =>
        obtain ⟨w, v, rfl, rest⟩ := ih same
        exact ⟨c :: w, v, rfl, rest⟩
  · rintro ⟨w, v, rfl, h⟩
    exact h.of_suffix w

theorem matches_letter_iff (other : c ≠ star) :
    Matches star (c :: p) t ↔ ∃ t', t = c :: t' ∧ Matches star p t' := by
  constructor
  · intro h
    cases h with
    | letter _ h => exact ⟨_, rfl, h⟩
    | skip h => exact absurd rfl other
    | take h => exact absurd rfl other
  · rintro ⟨t', rfl, h⟩
    exact .letter other h

theorem matches_nil_iff : Matches star [] t ↔ t = [] := by
  constructor
  · intro h
    cases h
    rfl
  · rintro rfl
    exact .nil

/-- A pattern without a star matches itself alone. -/
theorem matches_literal (literal : star ∉ w) : Matches star (w ++ p) t ↔
    ∃ t', t = w ++ t' ∧ Matches star p t' := by
  induction w generalizing t with
  | nil => simp
  | cons c w ih =>
      have other : c ≠ star := fun same => literal (same ▸ .head _)
      have rest : star ∉ w := fun among => literal (.tail _ among)
      rw [List.cons_append, matches_letter_iff other]
      constructor
      · rintro ⟨t', rfl, h⟩
        obtain ⟨t'', rfl, after⟩ := (ih rest).1 h
        exact ⟨t'', rfl, after⟩
      · rintro ⟨t', rfl, h⟩
        exact ⟨w ++ t', rfl, (ih rest).2 ⟨t', rfl, h⟩⟩

theorem matches_literal_iff (literal : star ∉ p) : Matches star p t ↔ t = p := by
  have split := matches_literal (p := []) (t := t) literal
  rw [List.append_nil] at split
  rw [split]
  constructor
  · rintro ⟨t', rfl, h⟩
    rw [matches_nil_iff.1 h, List.append_nil]
  · rintro rfl
    exact ⟨[], (List.append_nil _).symm, .nil⟩

/-- A pattern that ends in a star matches every continuation of what it matches. -/
theorem Matches.append (h : Matches star (p ++ [star]) t) (w : List α) :
    Matches star (p ++ [star]) (t ++ w) := by
  generalize same : p ++ [star] = pattern at h ⊢
  induction h generalizing p with
  | nil => simp at same
  | @letter c rest t other h ih =>
      cases p with
      | nil => exact absurd (List.cons.inj same).1.symm other
      | cons c' p =>
          obtain ⟨rfl, tail⟩ := List.cons.inj same
          exact .letter other (ih tail)
  | @skip rest t h ih =>
      cases p with
      | nil =>
          obtain rfl := (List.cons.inj same).2
          obtain rfl := matches_nil_iff.1 h
          simpa using Matches.of_suffix Matches.nil w
      | cons c' p => exact .skip (ih (List.cons.inj same).2)
  | take h ih => exact .take (ih same)

/-- What an earlier star could still try, a later star tries as well: the literals `w`
between them were matched at the earliest place. -/
theorem Matches.of_later (literal : star ∉ w) (at' : c :: u = w ++ t)
    (h : Matches star (star :: (w ++ star :: p)) u) : Matches star (star :: p) t := by
  obtain ⟨before, v, rfl, found⟩ := matches_star_iff.1 h
  obtain ⟨v', rfl, after⟩ := (matches_literal literal).1 found
  obtain ⟨run, v'', rfl, rest⟩ := matches_star_iff.1 after
  have length := congrArg List.length at'
  have tail : t = (c :: (before ++ w)).drop w.length ++ (run ++ v'') := by
    have dropped := congrArg (List.drop w.length) at'
    rw [List.drop_left] at dropped
    rw [← dropped, ← List.append_assoc before w, ← List.cons_append, List.drop_append_of_le_length]
    simp only [List.length_cons, List.length_append]
    omega
  rw [tail, ← List.append_assoc]
  exact rest.of_suffix _

/-- A pattern matches the empty text when it is all stars. -/
theorem matches_nil_text : Matches star p [] ↔ ∀ c ∈ p, c = star := by
  induction p with
  | nil => exact ⟨nofun, fun _ => .nil⟩
  | cons c p ih =>
      rw [List.forall_mem_cons, ← ih]
      constructor
      · intro h
        cases h with
        | skip h => exact ⟨rfl, h⟩
      · rintro ⟨rfl, h⟩
        exact .skip h

/-! ## A pattern with its stars replaced -/

section Filled

variable [DecidableEq α]

/-- The letters of the pattern in order, each star replaced by the next of some runs. -/
def filled (star : α) : List α → List (List α) → List α
  | [], _ => []
  | c :: p, runs =>
      if c = star then runs.headD [] ++ filled star p runs.tail else c :: filled star p runs

theorem filled_star (w : List α) (runs : List (List α)) :
    filled star (star :: p) (w :: runs) = w ++ filled star p runs := if_pos rfl

theorem filled_letter (other : c ≠ star) (runs : List (List α)) :
    filled star (c :: p) runs = c :: filled star p runs := if_neg other

/-- A pattern matches exactly what its stars can be replaced to make of it. -/
theorem matches_iff_filled :
    Matches star p t ↔ ∃ runs, runs.length = p.count star ∧ t = filled star p runs := by
  induction p generalizing t with
  | nil =>
      rw [matches_nil_iff]
      exact ⟨fun empty => ⟨[], rfl, empty⟩, fun ⟨_, _, empty⟩ => empty⟩
  | cons c p ih =>
      by_cases other : c = star
      · subst other
        rw [matches_star_iff, List.count_cons_self]
        constructor
        · rintro ⟨w, v, rfl, h⟩
          obtain ⟨runs, length, rfl⟩ := ih.1 h
          exact ⟨w :: runs, congrArg (· + 1) length, (filled_star w runs).symm⟩
        · rintro ⟨runs, length, rfl⟩
          obtain _ | ⟨w, runs⟩ := runs
          · cases length
          · exact ⟨w, _, filled_star w runs, ih.2 ⟨runs, Nat.succ.inj length, rfl⟩⟩
      · rw [matches_letter_iff other, List.count_cons_of_ne other]
        constructor
        · rintro ⟨t', rfl, h⟩
          obtain ⟨runs, length, rfl⟩ := ih.1 h
          exact ⟨runs, length, (filled_letter other runs).symm⟩
        · rintro ⟨runs, length, rfl⟩
          exact ⟨_, filled_letter other runs, ih.2 ⟨runs, length, rfl⟩⟩

end Filled

/-! ## The backtrack point

The pattern after the latest star, and the text that star began at. -/

/-- The backtrack point lies behind the literals matched since it was set. -/
def Behind (star : α) (p t : List α) : Option (List α × List α) → Prop
  | none => True
  | some (q, m) => ∃ w, star ∉ w ∧ q = w ++ p ∧ m = w ++ t

/-- What is left to match, here or from the backtrack point. -/
def Left (star : α) (p t : List α) (saved : Option (List α × List α)) : Prop :=
  Matches star p t ∨ ∃ q c u, saved = some (q, c :: u) ∧ Matches star (star :: q) u

variable {saved : Option (List α × List α)}

theorem Behind.letter (behind : Behind star (c :: p) (c :: t) saved) (other : c ≠ star) :
    Behind star p t saved := by
  match saved, behind with
  | none, _ => trivial
  | some (q, m), ⟨w, literal, hq, hm⟩ =>
      refine ⟨w ++ [c], ?_, by simp [hq], by simp [hm]⟩
      simpa [Ne.symm other] using literal

/-- The backtrack point moves on by one letter of the text. -/
theorem Left.back (stuck : ¬ Matches star p t) : Left star p t saved ↔
    ∃ q d m, saved = some (q, d :: m) ∧ Left star q m (some (q, m)) := by
  constructor
  · rintro (here | ⟨q, d, m, rfl, h⟩)
    · exact absurd here stuck
    · refine ⟨q, d, m, rfl, ?_⟩
      cases h with
      | letter other _ => exact absurd rfl other
      | skip h => exact .inl h
      | take h => exact .inr ⟨q, _, _, rfl, h⟩
  · rintro ⟨q, d, m, rfl, here | ⟨q', d', m', same, h⟩⟩
    · exact .inr ⟨q, d, m, rfl, .skip here⟩
    · cases same
      exact .inr ⟨q, d, d' :: m', rfl, .take h⟩

/-- A new star replaces the backtrack point and loses nothing. -/
theorem Left.save (behind : Behind star (star :: p) t saved) :
    Left star (star :: p) t saved ↔ Left star p t (some (p, t)) := by
  constructor
  · intro h
    have here : Matches star (star :: p) t := by
      obtain here | ⟨q, c, u, rfl, h⟩ := h
      · exact here
      · obtain ⟨w, literal, rfl, at'⟩ := behind
        exact h.of_later literal at'
    cases here with
    | letter other _ => exact absurd rfl other
    | skip rest => exact .inl rest
    | take rest => exact .inr ⟨p, _, _, rfl, rest⟩
  · rintro (here | ⟨q, c, u, same, h⟩)
    · exact .inl (.skip here)
    · cases same
      exact .inl (.take h)

/-- At the end of the text the backtrack point is of no use: the literals behind it are
longer than what it has left. -/
theorem Left.at_end (behind : Behind star p [] saved) :
    Left star p [] saved ↔ Matches star p [] := by
  constructor
  · rintro (here | ⟨q, c, u, rfl, h⟩)
    · exact here
    · obtain ⟨w, literal, rfl, at'⟩ := behind
      obtain ⟨before, v, rfl, found⟩ := matches_star_iff.1 h
      obtain ⟨v', rfl, -⟩ := (matches_literal literal).1 found
      have lengths := congrArg List.length at'
      simp only [List.length_cons, List.length_append, List.length_nil] at lengths
      omega
  · exact .inl

/-- A letter of the pattern that is the next of the text is matched for good. -/
theorem Left.letter (other : c ≠ star) :
    Left star (c :: p) (c :: t) saved ↔ Left star p t saved := by
  unfold Left
  rw [matches_letter_iff other]
  simp

/-! ## The matcher -/

/-- The fuel covers the moves of the backtrack point, for texts no longer than `n`. -/
def Covers (n fuel : Nat) (p t : List α) : Option (List α × List α) → Prop
  | none => t.length ≤ n ∧ p.length * (n + 1) ^ 2 + t.length < fuel
  | some (q, m) => t.length ≤ n ∧ m.length ≤ n ∧
      q.length * (n + 1) ^ 2 + m.length * (n + 1) + t.length < fuel

variable {n fuel : Nat}

theorem Covers.save (behind : Behind star (star :: p) t saved)
    (h : Covers n (fuel + 1) (star :: p) t saved) : Covers n fuel p t (some (p, t)) := by
  have room : p.length * (n + 1) ^ 2 + t.length * (n + 1) + t.length <
      (p.length + 1) * (n + 1) ^ 2 + t.length ∧ t.length ≤ n := by
    have short : t.length ≤ n := by
      cases saved with
      | none => exact h.1
      | some point => exact h.1
    have moves : t.length * (n + 1) ≤ n * (n + 1) := Nat.mul_le_mul_right _ short
    have square : (n + 1) ^ 2 = n * (n + 1) + n + 1 := by ring
    have next : (p.length + 1) * (n + 1) ^ 2 = p.length * (n + 1) ^ 2 + (n + 1) ^ 2 := by ring
    omega
  cases saved with
  | none =>
      have budget := h.2
      simp only [List.length_cons] at budget
      exact ⟨room.2, room.2, by omega⟩
  | some point =>
      obtain ⟨w, -, longer, -⟩ := behind
      have grown : (p.length + 1) * (n + 1) ^ 2 ≤ point.1.length * (n + 1) ^ 2 := by
        refine Nat.mul_le_mul_right _ ?_
        rw [longer]
        simp only [List.length_append, List.length_cons]
        omega
      have budget := h.2.2
      exact ⟨room.2, room.2, by omega⟩

theorem Covers.back {d : α} {m : List α} (h : Covers n (fuel + 1) p t (some (q, d :: m))) :
    Covers n fuel q m (some (q, m)) := by
  obtain ⟨-, short, budget⟩ := h
  simp only [List.length_cons] at short budget
  have moves : (m.length + 1) * (n + 1) = m.length * (n + 1) + n + 1 := by ring
  exact ⟨by omega, by omega, by omega⟩

theorem Covers.letter {d : α} (h : Covers n (fuel + 1) (c :: p) (d :: t) saved) :
    Covers n fuel p t saved := by
  cases saved with
  | none =>
      obtain ⟨short, budget⟩ := h
      simp only [List.length_cons] at short budget
      have less : p.length * (n + 1) ^ 2 ≤ (p.length + 1) * (n + 1) ^ 2 :=
        Nat.mul_le_mul_right _ (Nat.le_succ _)
      exact ⟨by omega, by omega⟩
  | some point =>
      obtain ⟨short, room, budget⟩ := h
      simp only [List.length_cons] at short budget
      exact ⟨by omega, room, by omega⟩

theorem Covers.pos (h : Covers n fuel p t saved) : 0 < fuel := by
  cases saved with
  | none => exact Nat.lt_of_le_of_lt (Nat.zero_le _) h.2
  | some point => exact Nat.lt_of_le_of_lt (Nat.zero_le _) h.2.2

variable [DecidableEq α]

/-- Go on behind the latest star, with one more letter given to it. -/
def backtrack (next : List α → List α → Option (List α × List α) → Bool) :
    Option (List α × List α) → Bool
  | some (q, _ :: m) => next q m (some (q, m))
  | _ => false

/-- What the matcher does with the pattern and the text that are left. -/
def search (star : α) : Nat → List α → List α → Option (List α × List α) → Bool
  | 0, _, _, _ => false
  | _ + 1, p, [], _ => p.all (· == star)
  | fuel + 1, x :: p, c :: t, saved =>
      if x = star then search star fuel p (c :: t) (some (p, c :: t))
      else if x = c then search star fuel p t saved
      else backtrack (search star fuel) saved
  | fuel + 1, [], _ :: _, saved => backtrack (search star fuel) saved

/-- Enough for every run of `search` on a pattern and a text of these lengths. -/
def fuelFor (p t : List α) : Nat := p.length * (t.length + 1) ^ 2 + t.length + 1

def globMatches (star : α) (p t : List α) : Bool := search star (fuelFor p t) p t none

/-- The matcher finds what is left to match. -/
theorem search_iff (behind : Behind star p t saved) (covers : Covers n fuel p t saved) :
    search star fuel p t saved = true ↔ Left star p t saved := by
  induction fuel generalizing p t saved with
  | zero => exact absurd covers.pos (Nat.lt_irrefl 0)
  | succ fuel ih =>
      -- The branch of the source that moves the backtrack point.
      have back : ∀ {p t}, Covers n (fuel + 1) p t saved → ¬ Matches star p t →
          (backtrack (search star fuel) saved = true ↔ Left star p t saved) := by
        intro p t covers stuck
        rw [Left.back stuck]
        obtain _ | ⟨q, _ | ⟨d, m⟩⟩ := saved
        · simp [backtrack]
        · simp [backtrack]
        · have nowhere : Behind star q m (some (q, m)) := ⟨[], by simp⟩
          have moved := ih nowhere covers.back
          simp [backtrack, moved]
      cases t with
      | nil =>
          rw [Left.at_end behind, matches_nil_text]
          cases p <;> simp [search]
      | cons c t =>
          cases p with
          | nil =>
              refine back covers fun h => ?_
              cases matches_nil_iff.1 h
          | cons x p =>
              unfold search
              split
              · rename_i same
                subst same
                rw [Left.save behind]
                exact ih ⟨[], by simp⟩ (covers.save behind)
              · rename_i other
                split
                · rename_i same
                  subst same
                  rw [Left.letter other]
                  exact ih (behind.letter other) covers.letter
                · rename_i differ
                  refine back covers fun h => ?_
                  obtain ⟨t', same, -⟩ := (matches_letter_iff other).1 h
                  exact differ (List.cons.inj same).1.symm

omit [DecidableEq α] in
theorem covers_of_fuelFor (enough : fuelFor p t ≤ fuel) : Covers t.length fuel p t none := by
  refine ⟨Nat.le_refl _, ?_⟩
  unfold fuelFor at enough
  omega

/-- Whatever the fuel, if it is enough. -/
theorem search_none_iff (enough : fuelFor p t ≤ fuel) :
    search star fuel p t none = true ↔ Matches star p t := by
  have nowhere : Behind star p t none := trivial
  rw [search_iff nowhere (covers_of_fuelFor enough), Left]
  simp

theorem globMatches_iff : globMatches star p t = true ↔ Matches star p t :=
  search_none_iff (Nat.le_refl _)

end Hx.Library.Glob
