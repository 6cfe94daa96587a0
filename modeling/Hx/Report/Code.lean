import Hx.Library.CodeSpans
import Hx.Library.Lowering

/-!
# Code spans in the report

`_flat` puts a text on one line, and `_code` fences it with one backtick more than its longest run
has. A space is put at either end where a backtick would touch the fence, for the reader to take
off again; a text that has spaces at its ends is not given any, and loses its own.
-/

namespace Hx.Report

open Hx.Library Hx.Library.CodeSpan

def lineFeed : Fin 0x110000 := chr 10

def carriageReturn : Fin 0x110000 := chr 13

def space : Fin 0x110000 := chr 32

def tick : Fin 0x110000 := chr 96

/-! ## One line -/

/-- `replace("\r\n", " ")`. -/
def joinedEnds : Text → Text
  | [] => []
  | [c] => [c]
  | c :: d :: s =>
      if c = carriageReturn ∧ d = lineFeed then space :: joinedEnds s
      else c :: joinedEnds (d :: s)

/-- `replace` of one character by a space. -/
def blanked (old c : Fin 0x110000) : Fin 0x110000 := if c = old then space else c

/-- `_flat` of a string, or of nothing. -/
def flat : Option Text → Text
  | none => []
  | some s => ((joinedEnds s).map (blanked lineFeed)).map (blanked carriageReturn)

/-! ## The fence -/

/-- The loop over the text: the run that is going on, and the longest so far. -/
def longestFrom : ℕ → ℕ → Text → ℕ
  | _, longest, [] => longest
  | run, longest, c :: s =>
      let run := if c = tick then run + 1 else 0
      longestFrom run (max longest run) s

def fence (s : Text) : Text := List.replicate (longestFrom 0 0 s + 1) tick

def pad (s : Text) : Text :=
  if s = [] ∨ s.head? = some tick ∨ s.getLast? = some tick then [space] else []

/-- `_code`. -/
def code (value : Option Text) : Text :=
  fence (flat value) ++ pad (flat value) ++ flat value ++ pad (flat value) ++ fence (flat value)

/-! ## What the reader makes of it -/

/-- A character that is a space on the line. -/
def IsBlank (c : Fin 0x110000) : Prop := c = space ∨ c = lineFeed ∨ c = carriageReturn

instance (c : Fin 0x110000) : Decidable (IsBlank c) := inferInstanceAs (Decidable (_ ∨ _))

/-- A text that is not empty, and that has no blanks at both ends, or nothing but blanks. -/
def Tight (s : Text) : Prop :=
  s ≠ [] ∧ ¬ ((∃ c, s.head? = some c ∧ IsBlank c) ∧ (∃ c, s.getLast? = some c ∧ IsBlank c) ∧
    ∃ c ∈ s, ¬ IsBlank c)

variable {s : Text} {run longest : ℕ}

theorem longest_le (run longest : ℕ) (s : Text) : longest ≤ longestFrom run longest s := by
  induction s generalizing run longest with
  | nil => exact Nat.le_refl _
  | cons c s ih => exact (Nat.le_max_left _ _).trans (ih _ _)

/-- No run is longer than the longest. -/
theorem runsBelow_longest (begun : run ≤ longest) (s : Text) :
    RunsBelow tick (longestFrom run longest s + 1) run s := by
  induction s generalizing run longest with
  | nil => exact Nat.lt_succ_of_le begun
  | cons c s ih =>
      have within := ih (Nat.le_max_right longest (if c = tick then run + 1 else 0))
      rw [RunsBelow, longestFrom]
      by_cases isTick : c = tick
      · rw [if_pos isTick]
        rw [if_pos isTick] at within ⊢
        exact within
      · rw [if_neg isTick]
        rw [if_neg isTick] at within ⊢
        have least := longest_le 0 (max longest 0) s
        exact ⟨by omega, within⟩

theorem space_ne_tick : space ≠ tick := by decide

/-- The reader finds one span, with the text and what was put at its ends. -/
theorem codeSpan_code (value : Option Text) : codeSpan tick space (code value) =
    some (stripped space (pad (flat value) ++ flat value ++ pad (flat value)), []) := by
  have below := runsBelow_longest (Nat.le_refl 0) (flat value)
  rw [code]
  generalize flat value = s at below ⊢
  have fenced : longestFrom 0 0 s + 1 ≠ 0 := Nat.succ_ne_zero _
  have whole : fence s ++ pad s ++ s ++ pad s ++ fence s =
      List.replicate (longestFrom 0 0 s + 1) tick ++
        (pad s ++ s ++ pad s ++ List.replicate (longestFrom 0 0 s + 1) tick) := by
    simp only [fence, List.append_assoc]
  rw [whole]
  by_cases padded : s = [] ∨ s.head? = some tick ∨ s.getLast? = some tick
  · have first : ([space] ++ s ++ [space]).head? ≠ some tick := fun same =>
      space_ne_tick (Option.some.inj same)
    have last : ([space] ++ s ++ [space]).getLast? ≠ some tick := by
      rw [List.getLast?_append_of_ne_nil _ (List.cons_ne_nil _ _)]
      exact fun same => space_ne_tick (Option.some.inj same)
    have spaced : RunsBelow tick (longestFrom 0 0 s + 1) 0 ([space] ++ s ++ [space]) := by
      rw [List.append_assoc, List.singleton_append, RunsBelow, if_neg space_ne_tick]
      exact ⟨Nat.succ_pos _, below.append_space space_ne_tick fenced⟩
    rw [pad, if_pos padded]
    exact codeSpan_fenced spaced first last (List.cons_ne_nil _ _) fenced
  · rw [not_or, not_or] at padded
    have bare : pad s ++ s ++ pad s = s := by
      rw [pad, if_neg (not_or.2 ⟨padded.1, not_or.2 padded.2⟩), List.nil_append, List.append_nil]
    rw [bare]
    exact codeSpan_fenced below padded.2.1 padded.2.2 padded.1 fenced

theorem stripped_spaced (some_ : ∃ c ∈ s, c ≠ space) :
    stripped space ([space] ++ s ++ [space]) = s := by
  obtain ⟨c, mem, other⟩ := some_
  have spaced : Spaced space ([space] ++ s ++ [space]) := by
    refine ⟨rfl, ?_, c, ?_, other⟩
    · rw [List.getLast?_append_of_ne_nil _ (List.cons_ne_nil _ _)]
      rfl
    · exact List.mem_append_left _ (List.mem_append_right _ mem)
  rw [stripped, if_pos spaced]
  exact List.dropLast_concat

theorem stripped_ne (spaced : Spaced space s) : stripped space s ≠ s := by
  obtain ⟨c, mem, -⟩ := spaced.2.2
  have positive := List.length_pos_of_mem mem
  intro same
  have lengths := congrArg List.length same
  rw [stripped, if_pos spaced, List.length_dropLast, List.length_drop] at lengths
  omega

/-- The text comes back unless it is empty or has spaces at both its ends. -/
theorem stripped_pad (s : Text) :
    stripped space (pad s ++ s ++ pad s) = s ↔ s ≠ [] ∧ ¬ Spaced space s := by
  by_cases empty : s = []
  · subst empty
    exact iff_of_false (by decide) fun both => both.1 rfl
  by_cases padded : s.head? = some tick ∨ s.getLast? = some tick
  · have ticked : ∃ c ∈ s, c ≠ space := by
      refine ⟨tick, ?_, space_ne_tick.symm⟩
      cases padded with
      | inl first => exact List.mem_of_head? first
      | inr last => exact List.mem_of_getLast? last
    have unspaced : ¬ Spaced space s := by
      rintro ⟨first, last, -⟩
      cases padded with
      | inl other => exact space_ne_tick (Option.some.inj (first.symm.trans other))
      | inr other => exact space_ne_tick (Option.some.inj (last.symm.trans other))
    rw [pad, if_pos (.inr padded)]
    exact iff_of_true (stripped_spaced ticked) ⟨empty, unspaced⟩
  · rw [pad, if_neg (not_or.2 ⟨empty, padded⟩), List.nil_append, List.append_nil]
    by_cases spaced : Spaced space s
    · exact iff_of_false (stripped_ne spaced) fun both => both.2 spaced
    · exact iff_of_true (if_neg spaced) ⟨empty, spaced⟩

/-! ## The ends of the line -/

/-- What a character is on the line. -/
def onLine (c : Fin 0x110000) : Fin 0x110000 := blanked carriageReturn (blanked lineFeed c)

theorem onLine_eq_space {c : Fin 0x110000} : onLine c = space ↔ IsBlank c := by
  have apart : space ≠ carriageReturn := by decide
  rw [onLine, blanked, blanked, IsBlank]
  by_cases feed : c = lineFeed
  · rw [if_pos feed, if_neg apart]
    exact iff_of_true rfl (.inr (.inl feed))
  · rw [if_neg feed]
    by_cases ends : c = carriageReturn
    · rw [if_pos ends]
      exact iff_of_true rfl (.inr (.inr ends))
    · rw [if_neg ends]
      exact ⟨.inl, fun blank => blank.resolve_right (not_or.2 ⟨feed, ends⟩)⟩

theorem flat_some (s : Text) : flat (some s) = (joinedEnds s).map onLine := List.map_map

theorem head_joinedEnds (s : Text) : (joinedEnds s).head?.map onLine = s.head?.map onLine := by
  cases s with
  | nil => rfl
  | cons c s =>
      cases s with
      | nil => rfl
      | cons d s =>
          rw [joinedEnds]
          split_ifs with ends
          · rw [ends.1]
            rfl
          · rfl

theorem joinedEnds_eq_nil : joinedEnds s = [] ↔ s = [] := by
  cases s with
  | nil => exact Iff.rfl
  | cons c s =>
      refine iff_of_false ?_ (List.cons_ne_nil _ _)
      cases s with
      | nil => exact List.cons_ne_nil _ _
      | cons d s =>
          rw [joinedEnds]
          split
          · exact List.cons_ne_nil _ _
          · exact List.cons_ne_nil _ _

theorem last_joinedEnds (s : Text) : (joinedEnds s).getLast?.map onLine = s.getLast?.map onLine := by
  induction s using joinedEnds.induct with
  | case1 => rfl
  | case2 c => rfl
  | case3 c d s ends ih =>
      rw [joinedEnds, if_pos ends, List.getLast?_cons_cons]
      by_cases empty : s = []
      · rw [empty, ends.2]
        decide
      · have joined : joinedEnds s ≠ [] := fun none_ => empty (joinedEnds_eq_nil.1 none_)
        rw [List.getLast?_cons_of_ne_nil joined, List.getLast?_cons_of_ne_nil empty, ih]
  | case4 c d s apart ih =>
      have joined : joinedEnds (d :: s) ≠ [] := fun none_ =>
        List.cons_ne_nil _ _ (joinedEnds_eq_nil.1 none_)
      rw [joinedEnds, if_neg apart, List.getLast?_cons_of_ne_nil joined, List.getLast?_cons_cons, ih]

theorem exists_joinedEnds (s : Text) :
    (∃ c ∈ joinedEnds s, ¬ IsBlank c) ↔ ∃ c ∈ s, ¬ IsBlank c := by
  induction s using joinedEnds.induct with
  | case1 => exact Iff.rfl
  | case2 c => exact Iff.rfl
  | case3 c d s ends ih =>
      have blanks : IsBlank space ∧ IsBlank carriageReturn ∧ IsBlank lineFeed := by decide
      rw [joinedEnds, if_pos ends]
      simp only [List.mem_cons, exists_eq_or_imp, ih]
      rw [ends.1, ends.2]
      constructor
      · rintro (bad | rest)
        · exact absurd blanks.1 bad
        · exact .inr (.inr rest)
      · rintro (bad | bad | rest)
        · exact absurd blanks.2.1 bad
        · exact absurd blanks.2.2 bad
        · exact .inr rest
  | case4 c d s apart ih =>
      rw [joinedEnds, if_neg apart]
      simp only [List.mem_cons, exists_eq_or_imp, ih]

theorem mapped_eq_space {c? : Option (Fin 0x110000)} :
    c?.map onLine = some space ↔ ∃ c, c? = some c ∧ IsBlank c := by
  rw [Option.map_eq_some_iff]
  exact exists_congr fun c => and_congr_right fun _ => onLine_eq_space

theorem spaced_flat : Spaced space (flat (some s)) ↔
    (∃ c, s.head? = some c ∧ IsBlank c) ∧ (∃ c, s.getLast? = some c ∧ IsBlank c) ∧
      ∃ c ∈ s, ¬ IsBlank c := by
  rw [Spaced, flat_some, List.head?_map, List.getLast?_map, head_joinedEnds, last_joinedEnds,
    mapped_eq_space, mapped_eq_space, ← exists_joinedEnds]
  refine and_congr_right fun _ => and_congr_right fun _ => ?_
  constructor
  · rintro ⟨_, mem, other⟩
    obtain ⟨c, inside, rfl⟩ := List.mem_map.1 mem
    exact ⟨c, inside, fun blank => other (onLine_eq_space.2 blank)⟩
  · rintro ⟨c, inside, other⟩
    exact ⟨onLine c, List.mem_map_of_mem inside, fun same => other (onLine_eq_space.1 same)⟩

/-- A code span carries its text exactly when the text is not empty and has no blanks at both ends
of something else. -/
theorem carries_iff_tight (s : Text) :
    codeSpan tick space (code (some s)) = some (flat (some s), []) ↔ Tight s := by
  have empty : flat (some s) = [] ↔ s = [] := by
    rw [flat_some, List.map_eq_nil_iff, joinedEnds_eq_nil]
  rw [codeSpan_code, Option.some_inj, Prod.mk.injEq, and_iff_left rfl, stripped_pad, Tight,
    spaced_flat, ne_eq, ne_eq, empty]

/-- A letter with a space on either side loses both. -/
theorem spacedLetter_stripped :
    ¬ ∀ s : Text, codeSpan tick space (code (some s)) = some (flat (some s), []) := by
  intro all
  exact absurd (all (text " a ")) (by decide)

end Hx.Report
