import Hx.Policy.Named

/-!
# The readings of a name that is spelt alike

What is read of the name as it is typed, and of the name as it is escaped, stays in a handful
of strings: the name or its escapes, their case fold, the case folded bytes, and the case fold
of the characters and of what they fit to.
-/

namespace Hx.Policy

open Hx.Java Hx.Library

variable {U : CaseMap} {s t : JString} {c : CodePoint} {d : JChar} {name : Text}
variable {f g : CodePoint → JString} {upperHex : Bool}

/-! ## The case fold, and the case fold of the best fit -/

/-- The case folded rendering. -/
def lowered (U : CaseMap) (f : CodePoint → JString) (name : Text) : JString :=
  name.flatMap fun c => lower U (f c)

/-- The case folded letters that a rendering fits to. -/
def lettered (U : CaseMap) (f : CodePoint → JString) (name : Text) : JString :=
  name.flatMap fun c => lower U (foldBestFitLetters (f c))

namespace Whole

variable (whole : Whole U f) (scalars : Scalars name)

include whole scalars

theorem lower : lower U (name.flatMap f) = lowered U f name :=
  lower_flatMap fun c mem => whole.heads c (scalars c mem)

/-- Fitting letters, a block keeps what it starts with or starts with ASCII. -/
theorem heads_letters : ∀ c ∈ name, (foldBestFitLetters (f c)).head?.any isLowSurrogate = false ∧
    foldBestFitLetters (f c) ≠ [] := by
  intro c mem
  obtain ⟨own, some_⟩ := whole.heads c (scalars c mem)
  obtain ⟨d, v, block⟩ := List.exists_cons_of_ne_nil some_
  rw [block] at own
  rw [block, foldBestFitLetters_eq]
  refine ⟨?_, List.cons_ne_nil _ _⟩
  show isLowSurrogate (fitLetter d) = false
  obtain same | ⟨-, small⟩ := fitLetter_cases d
  · rw [same]
    exact own
  · rw [Bool.eq_false_iff, ne_eq, isLowSurrogate_iff]
    omega

theorem lower_letters :
    Java.lower U (foldBestFitLetters (name.flatMap f)) = lettered U f name := by
  have cut : foldBestFitLetters (name.flatMap f) =
      name.flatMap fun c => foldBestFitLetters (f c) := List.map_flatMap
  rw [cut, lower_flatMap (whole.heads_letters scalars)]
  rfl

theorem formed_letters : ∀ c ∈ name, WellFormed (foldBestFitLetters (f c)) := by
  intro c mem
  have scalar := scalars c mem
  by_cases small : c.val < 0x10000
  · rw [whole.single c small, units_small small, foldBestFitLetters_eq, List.map_singleton]
    refine wellFormed_of_plain fun d inside => ?_
    rw [List.mem_singleton.1 inside]
    obtain same | ⟨-, ascii⟩ := fitLetter_cases (Fin.ofNat 65536 c.val)
    · rw [isScalar_iff] at scalar
      rw [same, val_unit small]
      exact scalar
    · omega
  · rw [foldBestFitLetters_eq, map_of_fixed fun d inside =>
      fitLetter_of_fixed ((whole.fixed c scalar small).1 d inside)]
    exact whole.formed c scalar

theorem lower_lowered (law : FoldsUnicode U) :
    Java.lower U (lowered U f name) = lowered U f name := by
  rw [← whole.lower scalars]
  exact lower_lower law (wellFormed_flatMap (fun c mem => whole.heads c (scalars c mem))
    fun c mem => whole.formed c (scalars c mem))

theorem lower_lettered (law : FoldsUnicode U) :
    Java.lower U (lettered U f name) = lettered U f name := by
  have cut : lettered U f name = Java.lower U (name.flatMap fun c => foldBestFitLetters (f c)) :=
    (lower_flatMap (whole.heads_letters scalars)).symm
  rw [cut]
  exact lower_lower law (wellFormed_flatMap (whole.heads_letters scalars)
    (whole.formed_letters scalars))

/-! ## No byte sequence -/

theorem unread_lowered (folded : foldOverlongUtf8 (lowered U units name) = lowered U units name) :
    foldOverlongUtf8 (lowered U f name) = lowered U f name := by
  refine unread_flatMap (fun c mem => ?_) folded
  by_cases small : c.val < 0x10000
  · exact .inl (by rw [whole.single c small])
  · exact .inr (whole.closed c (scalars c mem) small).1

theorem unread_lettered (folded : foldOverlongUtf8 (lowered U units name) = lowered U units name) :
    foldOverlongUtf8 (lettered U f name) = lettered U f name := by
  refine unread_flatMap (fun c mem => ?_) folded
  by_cases small : c.val < 0x10000
  · rw [whole.single c small, units_small small, foldBestFitLetters_eq, List.map_singleton]
    obtain same | ⟨-, ascii⟩ := fitLetter_cases (Fin.ofNat 65536 c.val)
    · rw [same]
      exact .inl rfl
    · refine .inr ?_
      rw [lower_cons_ascii ascii]
      have bound := lowerAscii_lt ascii
      refine closed_ascii ?_
      rw [val_unit (by omega)]
      exact bound
  · refine .inr ?_
    rw [foldBestFitLetters_eq, map_of_fixed fun d inside =>
      fitLetter_of_fixed ((whole.fixed c (scalars c mem) small).1 d inside)]
    exact (whole.closed c (scalars c mem) small).1

end Whole

/-! ## The best fit of a case folded name -/

/-- Two renderings by blocks of the same lengths that agree, agree in every block. -/
theorem flatMap_inj (lengths : ∀ c ∈ name, (f c).length = (g c).length)
    (same : name.flatMap f = name.flatMap g) : ∀ c ∈ name, f c = g c := by
  induction name with
  | nil => exact nofun
  | cons c name ih =>
      obtain ⟨own, later⟩ := List.forall_mem_cons.1 lengths
      rw [List.flatMap_cons, List.flatMap_cons] at same
      obtain ⟨first, rest⟩ := List.append_inj same own
      exact List.forall_mem_cons.2 ⟨first, ih later rest⟩

/-- What the best fit of a case folded character is: itself, for all of them, or for all of
them, once case folded, what the character as it is typed fits to. -/
def FitsAlike (U : CaseMap) (name : Text) : Prop :=
  (∀ c ∈ name, foldBestFit (lower U (units c)) = lower U (units c)) ∨
    ∀ c ∈ name, lower U (foldBestFit (lower U (units c))) = lower U (foldBestFitLetters (units c))

theorem DirectoryName.foldBestFit_units (named : DirectoryName name) (mem : c ∈ name) :
    foldBestFit (units c) = foldBestFitLetters (units c) := by
  rw [foldBestFit, foldBestFitLetters_eq]
  refine List.map_congr_left fun d inside => ?_
  rw [fitLetter]
  obtain same | letter := named.letters d (List.mem_flatMap.2 ⟨c, mem, inside⟩)
  · rw [same, ite_self]
  · rw [letter, if_pos rfl]

theorem DirectoryName.foldBestFit (named : DirectoryName name) :
    foldBestFit (utf16 name) = foldBestFitLetters (utf16 name) := by
  have one : ∀ p : JString → JString, p = Policy.foldBestFit ∨ p = foldBestFitLetters →
      p (utf16 name) = name.flatMap fun c => p (units c) := by
    rintro p (rfl | rfl)
    · exact List.map_flatMap
    · exact List.map_flatMap
  rw [one _ (.inl rfl), one _ (.inr rfl)]
  exact List.flatMap_congr fun c mem => named.foldBestFit_units mem

theorem foldBestFit_flatMap (f : CodePoint → JString) (name : Text) :
    foldBestFit (name.flatMap f) = name.flatMap fun c => foldBestFit (f c) := List.map_flatMap

/-- A character whose best fit has a best fit that case folds to it fits to itself. -/
theorem bestFit_of_lower (same : lower U [bestFit d] = [d]) : bestFit d = d := by
  obtain fixed | ⟨⟨wide, -⟩, small⟩ := bestFit_cases d
  · exact fixed
  · rw [lower_cons_ascii small] at same
    have bound := lowerAscii_lt small
    have val := congrArg Fin.val (List.cons.inj same).1
    rw [val_unit (by omega)] at val
    omega

theorem exists_unit (small : c.val < 0x10000) : ∃ d, lower U (units c) = [d] := by
  have plane := U.plane c
  rw [lower_units, units_small (by omega)]
  exact ⟨_, rfl⟩

/-- A best fit makes no surrogate. -/
theorem head_foldBestFit (own : s.head?.any isLowSurrogate = false ∧ s ≠ []) :
    (foldBestFit s).head?.any isLowSurrogate = false ∧ foldBestFit s ≠ [] := by
  obtain ⟨head, some_⟩ := own
  obtain ⟨d, v, rfl⟩ := List.exists_cons_of_ne_nil some_
  refine ⟨?_, List.cons_ne_nil _ _⟩
  show isLowSurrogate (bestFit d) = false
  obtain same | ⟨-, small⟩ := bestFit_cases d
  · rw [same]
    exact head
  · rw [Bool.eq_false_iff, ne_eq, isLowSurrogate_iff]
    omega

theorem fitsAlike_iff (law : FoldsUnicode U) (named : DirectoryName name) : FitsAlike U name ↔
    foldBestFit (lower U (utf16 name)) = lower U (utf16 name) ∨
      lower U (foldBestFit (lower U (utf16 name))) = lower U (foldBestFit (utf16 name)) := by
  have scalars := named.scalars
  have low : lower U (utf16 name) = name.flatMap fun c => lower U (units c) :=
    (whole_units U).lower scalars
  have letters : lower U (foldBestFit (utf16 name)) =
      name.flatMap fun c => lower U (foldBestFitLetters (units c)) := by
    rw [named.foldBestFit]
    exact (whole_units U).lower_letters scalars
  have heads : ∀ c ∈ name, (foldBestFit (lower U (units c))).head?.any isLowSurrogate = false ∧
      foldBestFit (lower U (units c)) ≠ [] := by
    intro c mem
    refine head_foldBestFit ?_
    rw [lower_units]
    exact head_units (law.scalar c (scalars c mem))
  rw [letters, low, foldBestFit_flatMap, lower_flatMap heads, FitsAlike]
  refine or_congr ⟨List.flatMap_congr, flatMap_inj fun c _ => ?_⟩
    ⟨List.flatMap_congr, flatMap_inj fun c _ => ?_⟩
  · rw [length_foldBestFit]
  · rw [length_lower, length_foldBestFit, length_lower, length_lower, length_foldBestFitLetters]

namespace Whole

variable (whole : Whole U f) (scalars : Scalars name)

include whole scalars

/-- The best fit of what is case folded, case folded again, is no third string. -/
theorem fit_lowered (law : FoldsUnicode U) (fits : FitsAlike U name) :
    Java.lower U (foldBestFit (lowered U f name)) = lowered U f name ∨
      Java.lower U (foldBestFit (lowered U f name)) = lettered U f name := by
  have fixed : ∀ c ∈ name, ¬ c.val < 0x10000 →
      foldBestFit (Java.lower U (f c)) = Java.lower U (f c) ∧ foldBestFitLetters (f c) = f c := by
    intro c mem large
    obtain ⟨plain, folded⟩ := whole.fixed c (scalars c mem) large
    exact ⟨map_of_fixed folded, map_of_fixed fun d inside => fitLetter_of_fixed (plain d inside)⟩
  obtain none_ | all := fits
  · have same : foldBestFit (lowered U f name) = lowered U f name := by
      rw [lowered, foldBestFit_flatMap]
      refine List.flatMap_congr fun c mem => ?_
      by_cases small : c.val < 0x10000
      · rw [whole.single c small]
        exact none_ c mem
      · exact (fixed c mem small).1
    rw [same]
    exact .inl (whole.lower_lowered scalars law)
  · have heads : ∀ c ∈ name,
        (foldBestFit (Java.lower U (f c))).head?.any isLowSurrogate = false ∧
          foldBestFit (Java.lower U (f c)) ≠ [] := by
      intro c mem
      have scalar := scalars c mem
      by_cases small : c.val < 0x10000
      · refine head_foldBestFit ?_
        rw [whole.single c small, lower_units]
        exact head_units (law.scalar c scalar)
      · rw [(fixed c mem small).1]
        obtain ⟨closed, head⟩ := whole.closed c scalar small
        exact ⟨head, closed.nonempty⟩
    right
    rw [lowered, foldBestFit_flatMap, lower_flatMap heads, lettered]
    refine List.flatMap_congr fun c mem => ?_
    by_cases small : c.val < 0x10000
    · rw [whole.single c small]
      exact all c mem
    · rw [(fixed c mem small).1, (fixed c mem small).2]
      exact lower_lower law (whole.formed c (scalars c mem))

/-- What was fitted has no best fit but itself. -/
theorem fit_lettered (fits : FitsAlike U name) :
    foldBestFit (lettered U f name) = lettered U f name := by
  rw [lettered, foldBestFit_flatMap]
  refine List.flatMap_congr fun c mem => ?_
  by_cases small : c.val < 0x10000
  · rw [whole.single c small]
    obtain ⟨d, one⟩ := exists_unit (U := U) small
    have unit : units c = [Fin.ofNat 65536 c.val] := units_small small
    have letters : foldBestFitLetters (units c) = [fitLetter (Fin.ofNat 65536 c.val)] := by
      rw [unit]
      rfl
    obtain same | ⟨-, ascii⟩ := fitLetter_cases (Fin.ofNat 65536 c.val)
    · have kept : foldBestFitLetters (units c) = units c := by rw [letters, same, unit]
      rw [kept]
      obtain none_ | all := fits
      · exact none_ c mem
      · have own := all c mem
        rw [kept, one] at own
        rw [one]
        exact congrArg (fun e => [e]) (bestFit_of_lower own)
    · have bound := lowerAscii_lt ascii
      rw [letters, lower_cons_ascii ascii]
      refine congrArg (fun e => [e]) (bestFit_latin ?_)
      rw [val_unit (by omega)]
      omega
  · obtain ⟨plain, folded⟩ := whole.fixed c (scalars c mem) small
    rw [foldBestFitLetters_eq, map_of_fixed fun d inside => fitLetter_of_fixed (plain d inside)]
    exact map_of_fixed folded

end Whole

/-! ## What a case folded name is read as -/

/-- What holds no escape and no byte sequence is read as itself or as its best fit. -/
theorem read_plain (plain : percent ∉ s) (same : foldOverlongUtf8 s = s) (decoding : Decoding)
    (folding : Folding) : folding.read (decoding.read s) = s ∨
      folding.read (decoding.read s) = foldBestFit s := by
  have decoded : decoding.read s = s := by
    cases decoding with
    | undecoded => rfl
    | decoded => exact rounds_plain false _ plain
    | separatorsInert => exact rounds_plain true _ plain
  rw [decoded]
  cases folding with
  | unfolded => exact .inl rfl
  | utf8 => exact .inl same
  | bestFit =>
      right
      rw [Folding.read, same]

theorem isInert_fitLetter (inert : isInert d = true) : isInert (fitLetter d) = true := by
  obtain same | ⟨letter, -⟩ := fitLetter_cases d
  · rw [same]
    exact inert
  · rw [isInert_iff]
    simp only [isLetterOrDigit, Bool.or_eq_true, Bool.and_eq_true, decide_eq_true_eq] at letter
    omega

theorem Renders.letters (renders : Renders f name) :
    Renders (fun c => foldBestFitLetters (f c)) name := by
  have stays : ∀ e : JChar, e.val < 0x80 → fitLetter e = e := fun e small =>
    fitLetter_of_fixed (bestFit_latin (by omega))
  exact renders.map (stays slash (by decide)) (stays dot (by decide))
    fun _ _ _ _ inert => isInert_fitLetter inert

/-- A character is inert if its case fold is. -/
theorem isInert_of_lower (small : d.val < 0x80) (inert : ∀ e ∈ lower U [d], isInert e = true) :
    isInert d = true := by
  have bound := lowerAscii_lt small
  have own := inert (Fin.ofNat 65536 (lowerAscii d.val)) (by
    rw [lower_cons_ascii small]
    exact .head _)
  rw [isInert_iff, val_unit (by omega), lowerAscii] at own
  rw [isInert_iff]
  split at own <;> omega

theorem Renders.fits (renders : Renders f name) (whole : Whole U f) (scalars : Scalars name)
    (typed : Renders units name) (fits : FitsAlike U name) :
    Renders (fun c => foldBestFit (Java.lower U (f c))) name := by
  have stays : ∀ e : JChar, e.val < 0x80 → bestFit e = e := fun e small =>
    bestFit_latin (by omega)
  refine renders.lower.map (stays slash (by decide)) (stays dot (by decide))
    fun c mem d inside inert => ?_
  by_cases small : c.val < 0x10000
  · rw [whole.single c small] at inside
    obtain fixed | ⟨⟨wide, -⟩, ascii⟩ := bestFit_cases d
    · rw [fixed]
      exact inert
    · obtain none_ | all := fits
      · have same := none_ c mem
        obtain ⟨e, one⟩ := exists_unit (U := U) small
        rw [one, List.mem_singleton] at inside
        rw [one, ← inside] at same
        rw [(List.cons.inj (show [bestFit d] = [d] from same)).1]
        exact inert
      · -- The best fit case folds to what the character fits to, which is inert.
        refine isInert_of_lower (U := U) ascii fun e folded => ?_
        obtain ⟨x, one⟩ := exists_unit (U := U) small
        have own := all c mem
        rw [one, List.mem_singleton] at inside
        rw [one, ← inside] at own
        rw [show Java.lower U [bestFit d] = _ from own] at folded
        have beyond : 0x80 ≤ c.val := by
          by_contra narrow
          have own := lower_units_ascii (U := U) (c := c) (by omega)
          have bound := lowerAscii_lt (show c.val < 0x80 by omega)
          rw [one, List.cons.injEq, ← inside] at own
          rw [own.1, val_unit (by omega)] at wide
          omega
        have letters := (typed.letters.lower (U := U)).others c mem (by omega) (by omega)
        exact letters.2 e folded
  · rw [(whole.fixed c (scalars c mem) small).2 d inside]
    exact inert

/-- The case fold of a name and that of its letters are read as nothing else. -/
theorem closedUnder_folded (law : FoldsUnicode U) (named : DirectoryName name)
    (alike : SpelledAlike U name) (whole : Whole U f) (renders : Renders f name)
    (plain : percent ∉ name.flatMap f) :
    ClosedUnder U [lowered U f name, lettered U f name] := by
  have scalars := named.scalars
  have typed := named.renders alike.spaceless
  have fits : FitsAlike U name := (fitsAlike_iff law named).2 alike.fitted
  have folded : foldOverlongUtf8 (lowered U units name) = lowered U units name := by
    rw [← (whole_units U).lower scalars]
    exact alike.folded
  have low : percent.val < 0x41 := by decide
  have plainLow : percent ∉ lowered U f name := by
    rw [← whole.lower scalars, mem_lower_iff_low low]
    exact plain
  have plainLetters : percent ∉ lettered U f name := by
    rw [← whole.lower_letters scalars, mem_lower_iff_low low, foldBestFitLetters_eq]
    intro mem
    obtain ⟨d, inside, same⟩ := List.mem_map.1 mem
    obtain fixed | ⟨letter, -⟩ := fitLetter_cases d
    · exact plain ((fixed.symm.trans same) ▸ inside)
    · rw [same] at letter
      exact absurd letter (by decide)
  have steadyLow : Steady (lowered U f name) := renders.lower.steady typed named.steady
  have steadyLetters : Steady (lettered U f name) :=
    renders.letters.lower.steady typed named.steady
  have steadyFit : Steady (foldBestFit (lowered U f name)) := by
    rw [lowered, foldBestFit_flatMap]
    exact (renders.fits whole scalars typed fits).steady typed named.steady
  have fixed := whole.fit_lettered scalars fits
  have reads : ∀ s ∈ [lowered U f name, lettered U f name],
      ∀ (decoding : Decoding) (folding : Folding),
        Steady (folding.read (decoding.read s)) ∧
          lower U (folding.read (decoding.read s)) ∈ [lowered U f name, lettered U f name] := by
    intro s mem decoding folding
    obtain rfl | mem := List.mem_cons.1 mem
    · obtain same | same := read_plain plainLow (whole.unread_lowered scalars folded) decoding
        folding
      · rw [same, whole.lower_lowered scalars law]
        exact ⟨steadyLow, .head _⟩
      · rw [same]
        refine ⟨steadyFit, ?_⟩
        obtain again | letters := whole.fit_lowered scalars law fits
        · rw [again]
          exact .head _
        · rw [letters]
          exact .tail _ (.head _)
    · obtain rfl := List.mem_singleton.1 mem
      obtain same | same := read_plain plainLetters (whole.unread_lettered scalars folded) decoding
        folding
      · rw [same, whole.lower_lettered scalars law]
        exact ⟨steadyLetters, .tail _ (.head _)⟩
      · rw [same, fixed, whole.lower_lettered scalars law]
        exact ⟨steadyLetters, .tail _ (.head _)⟩
  exact ⟨fun s mem decoding folding => (reads s mem decoding folding).1,
    fun s mem decoding folding => (reads s mem decoding folding).2⟩

/-- A closed set with one more directory that is read as nothing outside it. -/
theorem ClosedUnder.cons {dirs : List JString} (closed : ClosedUnder U dirs)
    (reads : ∀ (decoding : Decoding) (folding : Folding),
      Steady (folding.read (decoding.read s)) ∧
        lower U (folding.read (decoding.read s)) ∈ s :: dirs) : ClosedUnder U (s :: dirs) where
  steady d mem decoding folding := by
    obtain rfl | mem := List.mem_cons.1 mem
    · exact (reads decoding folding).1
    · exact closed.steady d mem decoding folding
  closed d mem decoding folding := by
    obtain rfl | mem := List.mem_cons.1 mem
    · exact (reads decoding folding).2
    · exact .tail _ (closed.closed d mem decoding folding)

/-! ## The name as it is typed -/

def typedDirs (U : CaseMap) (name : Text) : List JString :=
  [utf16 name, lowered U units name, lettered U units name]

theorem closedUnder_typed (law : FoldsUnicode U) (named : DirectoryName name)
    (alike : SpelledAlike U name) : ClosedUnder U (typedDirs U name) := by
  have scalars := named.scalars
  have typed := named.renders alike.spaceless
  have whole := whole_units U
  have plain : percent ∉ utf16 name := fun mem => (named.plain percent mem).2.2.1 rfl
  have steadyLetters : Steady (foldBestFitLetters (utf16 name)) := by
    have cut : foldBestFitLetters (utf16 name) =
        name.flatMap fun c => foldBestFitLetters (units c) := List.map_flatMap
    rw [cut]
    exact typed.letters.steady typed named.steady
  refine (closedUnder_folded law named alike whole typed plain).cons fun decoding folding => ?_
  obtain same | same := read_plain plain alike.typed decoding folding
  · rw [same, utf16, whole.lower scalars]
    exact ⟨named.steady, .tail _ (.head _)⟩
  · rw [same, named.foldBestFit]
    refine ⟨steadyLetters, .tail _ (.tail _ ?_)⟩
    rw [utf16, whole.lower_letters scalars]
    exact .head _

end Hx.Policy
