import Hx.Policy.Readings

/-!
# The loop of `glob`

The source keeps four numbers: where it stands in the pattern and in the text, where the latest
star is, and where in the text that star began. A cursor of them is a state of the matcher on what
is left of both, so the loop ends, with the answer of the matcher.
-/

namespace Hx.Policy.GlobLoop

open Hx.Java Hx.Library Hx.Library.Glob

/-- `p`, `t`, `star` and `mark`. A `star` of -1 is none. -/
structure Cursor where
  p : ℕ
  t : ℕ
  star : Option ℕ
  mark : ℕ

/-- What a turn of the loop comes to. -/
inductive Turn where
  | on (c : Cursor)
  | answered (b : Bool)

def start : Cursor := ⟨0, 0, none, 0⟩

variable (pattern text : JString)

/-- Behind the text: the stars that are left are passed, and nothing may follow them. -/
def atEnd (p : ℕ) : Bool :=
  p + ((pattern.drop p).takeWhile fun c => c == star).length == pattern.length

def turn (c : Cursor) : Turn :=
  if c.t < text.length then
    if c.p < pattern.length ∧ pattern[c.p]? = some star then .on ⟨c.p + 1, c.t, some c.p, c.t⟩
    else if c.p < pattern.length ∧ pattern[c.p]? = text[c.t]? then
      .on { c with p := c.p + 1, t := c.t + 1 }
    else c.star.elim (.answered false) fun s => .on ⟨s + 1, c.mark + 1, some s, c.mark + 1⟩
  else .answered (atEnd pattern c.p)

/-- The loop, if it answers within so many turns. -/
def loop : ℕ → Cursor → Option Bool
  | 0, _ => none
  | n + 1, c =>
      match turn pattern text c with
      | .on c => loop n c
      | .answered b => some b

/-! ## The matcher in it -/

/-- The backtrack point: the pattern behind the latest star, and the text that star began at. -/
def saved (c : Cursor) : Option (JString × JString) :=
  c.star.map fun s => (pattern.drop (s + 1), text.drop c.mark)

/-- The numbers are within the pattern. -/
structure Within (c : Cursor) : Prop where
  p : c.p ≤ pattern.length
  star : ∀ s, c.star = some s → s < pattern.length

variable {pattern text} {c : Cursor} {n fuel : ℕ}

theorem atEnd_eq {p : ℕ} (within : p ≤ pattern.length) :
    atEnd pattern p = (pattern.drop p).all (· == star) := by
  have length : (pattern.drop p).length = pattern.length - p := List.length_drop
  have whole : (pattern.drop p).takeWhile (fun c => c == star) ++
      (pattern.drop p).dropWhile (fun c => c == star) = pattern.drop p :=
    List.takeWhile_append_dropWhile
  have lengths := congrArg List.length whole
  rw [List.length_append, length] at lengths
  rw [atEnd, Bool.eq_iff_iff, beq_iff_eq, List.all_eq_true, ← List.dropWhile_eq_nil_iff,
    ← List.length_eq_zero_iff]
  omega

theorem turn_star (inside : c.t < text.length) (there : c.p < pattern.length)
    (isStar : pattern[c.p] = star) :
    turn pattern text c = .on ⟨c.p + 1, c.t, some c.p, c.t⟩ := by
  have letter : pattern[c.p]? = some star :=
    (List.getElem?_eq_getElem there).trans (congrArg some isStar)
  rw [turn, if_pos inside, if_pos ⟨there, letter⟩]

theorem turn_plain (inside : c.t < text.length)
    (plain : ∀ there : c.p < pattern.length, pattern[c.p] ≠ star) :
    turn pattern text c =
      if c.p < pattern.length ∧ pattern[c.p]? = text[c.t]? then
        .on { c with p := c.p + 1, t := c.t + 1 }
      else c.star.elim (.answered false) fun s => .on ⟨s + 1, c.mark + 1, some s, c.mark + 1⟩ := by
  rw [turn, if_pos inside, if_neg]
  rintro ⟨there, letter⟩
  rw [List.getElem?_eq_getElem there] at letter
  exact plain there (Option.some.inj letter)

theorem turn_letter (inside : c.t < text.length) (there : c.p < pattern.length)
    (plain : pattern[c.p] ≠ star) (same : pattern[c.p] = text[c.t]) :
    turn pattern text c = .on { c with p := c.p + 1, t := c.t + 1 } := by
  have letter : pattern[c.p]? = text[c.t]? := by
    rw [List.getElem?_eq_getElem there, List.getElem?_eq_getElem inside, same]
  rw [turn_plain inside fun _ => plain, if_pos ⟨there, letter⟩]

theorem turn_stuck (inside : c.t < text.length)
    (differs : ∀ there : c.p < pattern.length, pattern[c.p] ≠ star ∧ pattern[c.p] ≠ text[c.t]) :
    turn pattern text c =
      c.star.elim (.answered false) fun s => .on ⟨s + 1, c.mark + 1, some s, c.mark + 1⟩ := by
  rw [turn_plain inside fun there => (differs there).1, if_neg]
  rintro ⟨there, letter⟩
  rw [List.getElem?_eq_getElem there, List.getElem?_eq_getElem inside] at letter
  exact (differs there).2 (Option.some.inj letter)

/-- A turn that moves the backtrack point, or has none to move. -/
theorem loop_back (behind : Behind star (pattern.drop c.p) (text.drop c.t) (saved pattern text c))
    (inside : c.t < text.length)
    (next : ∀ s, c.star = some s → text.drop c.mark ≠ [] →
      loop pattern text fuel ⟨s + 1, c.mark + 1, some s, c.mark + 1⟩ =
        some (search star fuel (pattern.drop (s + 1)) (text.drop (c.mark + 1))
          (some (pattern.drop (s + 1), text.drop (c.mark + 1)))))
    (stuck : turn pattern text c =
      c.star.elim (.answered false) fun s => .on ⟨s + 1, c.mark + 1, some s, c.mark + 1⟩) :
    loop pattern text (fuel + 1) c =
      some (backtrack (search star fuel) (saved pattern text c)) := by
  rw [loop, stuck]
  cases latest : c.star with
  | none =>
      rw [saved, latest]
      rfl
  | some s =>
      have point : saved pattern text c = some (pattern.drop (s + 1), text.drop c.mark) := by
        rw [saved, latest]
        rfl
      rw [point] at behind ⊢
      obtain ⟨w, -, -, left⟩ := behind
      have some_ : text.drop c.mark ≠ [] := by
        rw [left]
        refine List.append_ne_nil_of_right_ne_nil _ fun none_ => ?_
        exact absurd (List.drop_eq_nil_iff.1 none_) (Nat.not_le.2 inside)
      have marked : c.mark < text.length := by
        by_contra far
        exact some_ (List.drop_eq_nil_iff.2 (Nat.not_lt.1 far))
      show loop pattern text fuel ⟨s + 1, c.mark + 1, some s, c.mark + 1⟩ = _
      rw [next s latest some_]
      rw [List.drop_eq_getElem_cons marked]
      rfl

/-- The loop is the matcher on what is left of the pattern and of the text. -/
theorem loop_eq (within : Within pattern c)
    (behind : Behind star (pattern.drop c.p) (text.drop c.t) (saved pattern text c))
    (covers : Covers n fuel (pattern.drop c.p) (text.drop c.t) (saved pattern text c)) :
    loop pattern text fuel c =
      some (search star fuel (pattern.drop c.p) (text.drop c.t) (saved pattern text c)) := by
  induction fuel generalizing c with
  | zero => exact absurd covers.pos (Nat.lt_irrefl 0)
  | succ fuel ih =>
      by_cases inside : c.t < text.length
      · have rest := List.drop_eq_getElem_cons inside
        have next (s : ℕ) (latest : c.star = some s) (some_ : text.drop c.mark ≠ []) :
            loop pattern text fuel ⟨s + 1, c.mark + 1, some s, c.mark + 1⟩ =
              some (search star fuel (pattern.drop (s + 1)) (text.drop (c.mark + 1))
                (some (pattern.drop (s + 1), text.drop (c.mark + 1)))) := by
          have marked : c.mark < text.length := by
            by_contra far
            exact some_ (List.drop_eq_nil_iff.2 (Nat.not_lt.1 far))
          have point : saved pattern text c =
              some (pattern.drop (s + 1), text[c.mark] :: text.drop (c.mark + 1)) := by
            rw [saved, latest, ← List.drop_eq_getElem_cons marked]
            rfl
          have below := within.star s latest
          rw [point] at covers
          refine ih ⟨below, ?_⟩ ⟨[], List.not_mem_nil, rfl, rfl⟩ covers.back
          rintro _ ⟨⟩
          exact below
        by_cases there : c.p < pattern.length
        · have first := List.drop_eq_getElem_cons there
          by_cases isStar : pattern[c.p] = star
          · have point : saved pattern text ⟨c.p + 1, c.t, some c.p, c.t⟩ =
                some (pattern.drop (c.p + 1), text.drop c.t) := rfl
            rw [first, isStar] at behind covers
            have after := ih (c := ⟨c.p + 1, c.t, some c.p, c.t⟩)
              ⟨there, fun s same => Option.some.inj same ▸ there⟩
              (point ▸ ⟨[], List.not_mem_nil, rfl, rfl⟩) (point ▸ covers.save behind)
            rw [loop, turn_star inside there isStar, first, rest, search, if_pos isStar, ← rest]
            exact after
          · by_cases same : pattern[c.p] = text[c.t]
            · have after := ih (c := { c with p := c.p + 1, t := c.t + 1 })
                ⟨there, within.star⟩ ?_ ?_
              · rw [loop, turn_letter inside there isStar same, first, rest, search,
                  if_neg isStar, if_pos same]
                exact after
              · rw [first, rest, same] at behind
                exact Behind.letter behind fun bad => isStar (same.trans bad)
              · rw [first, rest] at covers
                exact covers.letter
            · rw [loop_back behind inside next (turn_stuck inside fun _ => ⟨isStar, same⟩), first,
                rest, search, if_neg isStar, if_neg same]
        · have none_ : pattern.drop c.p = [] := List.drop_eq_nil_iff.2 (Nat.not_lt.1 there)
          rw [loop_back behind inside next (turn_stuck inside fun no => absurd no there), none_,
            rest, search]
      · have none_ : text.drop c.t = [] := List.drop_eq_nil_iff.2 (Nat.not_lt.1 inside)
        rw [loop, turn, if_neg inside, none_, search, atEnd_eq within.p]

/-- The loop ends, whatever the pattern and the text, with what `glob` is; and that is whether the
text is the pattern with each star replaced by some string. -/
theorem glob_loop_iff (pattern text : JString) :
    (∃ enough, ∀ turns, enough ≤ turns →
      loop pattern text turns start = some (glob pattern text)) ∧
      (glob pattern text = true ↔ ∃ runs : List JString, runs.length = pattern.count star ∧
        text = filled star pattern runs) := by
  refine ⟨⟨fuelFor pattern text, fun turns enough => ?_⟩,
    globMatches_iff.trans matches_iff_filled⟩
  have within : Within pattern start := by
    refine ⟨Nat.zero_le _, fun s same => ?_⟩
    contradiction
  have looped : loop pattern text turns start = some (search star turns pattern text none) :=
    loop_eq within trivial (covers_of_fuelFor enough)
  have answer : search star turns pattern text none = glob pattern text := by
    rw [Bool.eq_iff_iff, search_none_iff enough]
    exact globMatches_iff.symm
  exact looped.trans (congrArg some answer)

end Hx.Policy.GlobLoop
