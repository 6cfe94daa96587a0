import Hx.Policy.Respelling

/-!
# What an include's spellings authorise

An include without a `*` names one resource as long as none of its spellings has one.
A spelling has more stars than the path half exactly when the path half carries an
escape of a star: as `%2a` in some round of decoding, or as an overlong form in what
decoding leaves.
-/

namespace Hx.Policy

open Hx.Java Hx.Library Hx.Bridge

variable {U : CaseMap} {s : JString} {rule : Rule} {n : Nat}

/-! ## Spellings -/

theorem stars_of_mem_addLetterFold {m : JString} (h : m ∈ addLetterFold U s) :
    stars m = stars s := by
  simp only [addLetterFold] at h
  split_ifs at h
  · cases h
  · obtain rfl | h := List.mem_cons.1 h
    · rw [stars_lower, stars_foldBestFitLetters]
    · obtain rfl := List.mem_singleton.1 h
      exact stars_foldBestFitLetters s
  · obtain rfl := List.mem_singleton.1 h
    rw [stars_lower, stars_foldBestFitLetters]

theorem stars_of_mem_addSpelling {m : JString} (h : m ∈ addSpelling U s) :
    stars m = stars s := by
  obtain rfl | h := List.mem_cons.1 h
  · exact stars_lower s
  · obtain h | h := List.mem_append.1 h
    · split at h
      · rw [List.mem_singleton.1 h]
      · cases h
    · exact stars_of_mem_addLetterFold h

/-- What one string contributes has its stars, or those of what it decodes to. -/
theorem stars_addSpellings (same : stars s ≤ n)
    (decodes : decodeToFixedPoint s = s ∨ stars (foldOverlongUtf8 (decodeToFixedPoint s)) ≤ n)
    {m : JString} (h : m ∈ addSpellings U s) : stars m ≤ n := by
  unfold addSpellings at h
  obtain rfl | h := List.mem_cons.1 h
  · exact same
  obtain rfl | h := List.mem_cons.1 h
  · rwa [stars_lower]
  obtain h | h := List.mem_append.1 h
  · rwa [stars_of_mem_addLetterFold h]
  split at h
  · cases h
  · rename_i changes
    have utf8 := decodes.resolve_left changes
    have decoded : stars (decodeToFixedPoint s) ≤ n := by
      rw [stars_foldOverlongUtf8] at utf8
      omega
    obtain h | h := List.mem_append.1 h
    · obtain h | h := List.mem_append.1 h
      · rwa [stars_of_mem_addSpelling h]
      · split at h
        · cases h
        · rwa [stars_of_mem_addSpelling h]
    · split at h
      · cases h
      · rwa [stars_of_mem_addSpelling h, stars_decodeSeparatorsInert]

/-- The decoded form, and that form read as UTF-8, are among the spellings. -/
theorem stars_decoded_le (changes : decodeToFixedPoint s ≠ s)
    (all : ∀ m ∈ addSpellings U s, stars m ≤ n) :
    stars (foldOverlongUtf8 (decodeToFixedPoint s)) ≤ n := by
  have lowered : ∀ d, lower U d ∈ addSpelling U d := fun d => .head _
  by_cases same : foldOverlongUtf8 (decodeToFixedPoint s) = decodeToFixedPoint s
  · rw [same, ← stars_lower (U := U)]
    apply all
    simp [addSpellings, changes, lowered]
  · rw [← stars_lower (U := U)]
    apply all
    simp [addSpellings, changes, same, lowered]

/-! ## Encoded spellings -/

/-- An encoded spelling decodes to no more stars than the string, and to those it was typed
with where the string itself does not decode. -/
theorem stars_encoded (upperHex : Bool) (s : JString) :
    let utf8 := foldOverlongUtf8 (decodeToFixedPoint (percentEncodeUtf8 upperHex s))
    stars utf8 ≤ stars (foldOverlongUtf8 (decodeToFixedPoint s)) ∧
      (decodeToFixedPoint s = s → stars utf8 = stars s) := by
  have respelt := (respelt_decodeToFixedPoint upperHex s).overlongStars_le
  simp only [stars_foldOverlongUtf8, stars_decode_percentEncodeUtf8]
  constructor
  · exact Nat.add_le_add_left respelt.1 _
  · intro fixed
    rw [respelt.2 (fun c kept => kept (decodeOnce_of_fixed fixed)), fixed]
    rfl

/-! ## Exactly the spellings without a new star -/

/-- The path half carries no star that it does not show: it does not decode at all, or no
round of decoding meets an escaped star and what is left reads as no overlong one. -/
def StarsAsTyped (s : JString) : Prop :=
  decodeToFixedPoint s = s ∨ NoStarEscaped s ∧ overlongStars (decodeToFixedPoint s) = 0

theorem starsAsTyped_iff :
    StarsAsTyped s ↔
      decodeToFixedPoint s = s ∨ stars (foldOverlongUtf8 (decodeToFixedPoint s)) ≤ stars s := by
  have grows := stars_decodeToFixedPoint s
  rw [StarsAsTyped, ← grows.2, stars_foldOverlongUtf8]
  refine or_congr_right ?_
  have least := grows.1
  constructor
  · rintro ⟨same, none_⟩
    omega
  · intro bounded
    constructor <;> omega

theorem stars_spellingReadings (U : CaseMap) (s : JString) :
    (∀ m ∈ spellingReadings U s, stars m ≤ stars s) ↔ StarsAsTyped s := by
  rw [starsAsTyped_iff]
  constructor
  · intro all
    by_cases changes : decodeToFixedPoint s = s
    · exact .inl changes
    · refine .inr (stars_decoded_le (U := U) changes fun m among => all m ?_)
      exact List.mem_append_left _ among
  · intro typed m among
    have encoded : ∀ upperHex, ∀ m ∈ addSpellings U (percentEncodeUtf8 upperHex s),
        stars m ≤ stars s := by
      intro upperHex m among
      refine stars_addSpellings (stars_percentEncodeUtf8 upperHex s).le (.inr ?_) among
      obtain ⟨fewer, fixed⟩ := stars_encoded upperHex s
      obtain same | bounded := typed
      · exact (fixed same).le
      · exact Nat.le_trans fewer bounded
    obtain among | among := List.mem_append.1 among
    · exact stars_addSpellings (Nat.le_refl _) typed among
    · split at among
      · cases among
      · obtain among | among := List.mem_append.1 among
        · exact encoded false m among
        · exact encoded true m among

/-! ## What an include authorises -/

/-- No spelling of the path half has a star the operator did not type. -/
def NoNewStar (rule : Rule) : Prop := ∀ m ∈ rule.globReadings, stars m ≤ stars rule.pathGlob

/-- A rule without a star allows a target only if every reading of its path is, as it
stands, one of the rule's spellings. -/
def OneResource (U : CaseMap) (rule : Rule) : Prop :=
  stars rule.pathGlob = 0 → ∀ t, rule.allows t (pathReadings U t) = true →
    ∀ reading ∈ pathReadings U t, reading ∈ rule.globReadings

theorem NoNewStar.oneResource (no : NoNewStar rule) : OneResource U rule := by
  intro literal t allowed reading among
  simp only [Rule.allows, Bool.and_eq_true, List.all_eq_true, List.any_eq_true] at allowed
  obtain ⟨spelling, spelled, matched⟩ := allowed.2 reading among
  have plain : star ∉ spelling := stars_eq_zero.1 (by
    have fewer := no spelling spelled
    omega)
  have same := (Glob.matches_literal_iff plain).1 (Glob.globMatches_iff.1 matched)
  exact same ▸ spelled

/-- An include authorises nothing but what was typed exactly when its path half carries no
star that it does not show. -/
theorem include_authorises_iff (U : CaseMap) (pattern : JString) :
    (∀ rule, Rule.forInclude U pattern = .ok rule → NoNewStar rule ∧ OneResource U rule) ↔
      ∀ rule, Rule.forInclude U pattern = .ok rule → StarsAsTyped rule.pathGlob := by
  refine forall₂_congr fun rule parsed => ?_
  have spellings : rule.globReadings = spellingReadings U rule.pathGlob :=
    (Rule.parse_ok parsed).1
  rw [← stars_spellingReadings U, ← spellings]
  exact ⟨fun h => h.1, fun no => ⟨no, NoNewStar.oneResource no⟩⟩

/-- An include whose path half ends in an escaped star allows a path beside it. -/
theorem escaped_star_authorises :
    (decideBeforeGate basicCase (getUnder "/a/secret") (including "http://h.test/a/%2a")).allowed =
      true ∧
    ¬ ∀ rule, Rule.forInclude basicCase (js "http://h.test/a/%2a") = .ok rule →
      NoNewStar rule ∧ OneResource basicCase rule := by
  refine ⟨by decide, fun sound => ?_⟩
  have glob : (Rule.forInclude basicCase (js "http://h.test/a/%2a")).toOption.map Rule.pathGlob =
      some (js "/a/%2a") := by decide
  cases parsed : Rule.forInclude basicCase (js "http://h.test/a/%2a") with
  | error e => simp [parsed, Except.toOption] at glob
  | ok rule =>
      have typed : rule.pathGlob = js "/a/%2a" := by
        simpa [parsed, Except.toOption] using glob
      have made : js "/a/*" ∈ spellingReadings basicCase (js "/a/%2a") := by decide
      rw [← typed, ← show rule.globReadings = spellingReadings basicCase rule.pathGlob from
        (Rule.parse_ok parsed).1] at made
      have fewer := (sound rule parsed).1 _ made
      rw [typed] at fewer
      exact absurd fewer (by decide)

end Hx.Policy
