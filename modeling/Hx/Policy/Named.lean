import Hx.Policy.FoldedNames

/-!
# Directories whose readings are spellings

`DirectoryName` is a name that no segment transform changes and no best fit gives structure.
`SpelledAlike` is when everything a request below it is read as is one of the spellings of the
name: nothing in it is escaped that an include is not spelt with, nothing in it reads as UTF-8
before or after the case fold, the fold changes no best fit, and the bytes of its characters
are taken apart by the case fold all together or not at all.
-/

namespace Hx.Policy

open Hx.Java Hx.Library

variable {U : CaseMap} {s t : JString} {c : CodePoint} {d : JChar} {name : Text}
variable {f g : CodePoint → JString} {upperHex : Bool}

structure DirectoryName (name : Text) : Prop where
  scalars : Scalars name
  plain : ∀ d ∈ utf16 name, d ≠ semicolon ∧ d ≠ backslash ∧ d ≠ percent ∧ d ≠ nul ∧ d ≠ star
  named : ∀ segment ∈ segments (utf16 name), ∃ d, segment.getLast? = some d ∧ d ≠ dot ∧ d ≠ space
  letters : ∀ d ∈ utf16 name, bestFit d = d ∨ isLetterOrDigit (bestFit d) = true

structure SpelledAlike (U : CaseMap) (name : Text) : Prop where
  spaceless : space ∉ utf16 name
  typed : foldOverlongUtf8 (utf16 name) = utf16 name
  folded : foldOverlongUtf8 (lower U (utf16 name)) = lower U (utf16 name)
  fitted : foldBestFit (lower U (utf16 name)) = lower U (utf16 name) ∨
    lower U (foldBestFit (lower U (utf16 name))) = lower U (foldBestFit (utf16 name))
  leads : ¬ ((∃ c ∈ name, capitalLead c = true) ∧
    ∃ c ∈ name, (0x80 ≤ c.val ∧ c.val < 0x10000) ∧ capitalLead c = false)

theorem DirectoryName.steady (named : DirectoryName name) : Steady (utf16 name) where
  plain d mem := by
    obtain ⟨semi, reverse, -, null, -⟩ := named.plain d mem
    exact ⟨semi, reverse, null⟩
  named := named.named

/-- A name without spaces is rendered by its own characters. -/
theorem DirectoryName.renders (named : DirectoryName name) (spaceless : space ∉ utf16 name) :
    Renders units name where
  slashes c _ cut := by
    rw [units_small (by omega), cut]
    rfl
  dots c _ single := by
    rw [units_small (by omega), single]
    rfl
  others c mem uncut undotted := by
    refine ⟨(head_units (named.scalars c mem)).2, fun d inside => ?_⟩
    have among : d ∈ utf16 name := List.mem_flatMap.2 ⟨c, mem, inside⟩
    obtain ⟨semi, reverse, -, null, -⟩ := named.plain d among
    have blank : d ≠ space := fun same => spaceless (same ▸ among)
    have solidus : d ≠ slash := by
      rintro rfl
      have val : slash.val = 0x2f := by decide
      obtain ⟨-, same⟩ | ⟨-, high, -⟩ := mem_units inside
      · exact uncut (same ▸ val)
      · omega
    have period : d ≠ dot := by
      rintro rfl
      have val : dot.val = 0x2e := by decide
      obtain ⟨-, same⟩ | ⟨-, high, -⟩ := mem_units inside
      · exact undotted (same ▸ val)
      · omega
    simp [isInert, solidus, period, blank, semi, reverse, null]

/-! ## Characters that the case fold neither makes nor loses -/

theorem mem_units_toLowerCase (low : d.val < 0x41) :
    d ∈ units (U.toLowerCase c) ↔ d ∈ units c := by
  have plane := U.plane c
  by_cases small : c.val < 0x10000
  · rw [units_small small, units_small (by omega), List.mem_singleton, List.mem_singleton,
      Fin.ext_iff, Fin.ext_iff, val_unit small, val_unit (by omega)]
    by_cases ascii : c.val < 0x80
    · rw [U.ascii c ascii, lowerAscii]
      split_ifs <;> omega
    · have letters := U.letters c (by omega)
      omega
  · constructor
    · intro mem
      obtain ⟨inside, -⟩ | ⟨-, high, -⟩ := mem_units mem <;> omega
    · intro mem
      obtain ⟨inside, -⟩ | ⟨-, high, -⟩ := mem_units mem <;> omega

theorem mem_lower_iff_low (low : d.val < 0x41) : d ∈ lower U s ↔ d ∈ s := by
  induction s using lower.induct with
  | case1 => rfl
  | case2 e => rw [lower, mem_units_toLowerCase low, units_codePoint]
  | case3 high half s pair ih =>
      rw [lower, if_pos pair]
      rw [Bool.and_eq_true] at pair
      rw [List.mem_append, mem_units_toLowerCase low, units_pairPoint pair.1 pair.2, ih,
        ← List.mem_append]
      rfl
  | case4 high half s single ih =>
      rw [lower, if_neg single, List.mem_append, mem_units_toLowerCase low, units_codePoint, ih,
        ← List.mem_append]
      rfl

/-! ## Renderings of what is read -/

/-- A rendering that spells the characters of one unit as they are, and the others in blocks
that neither fold reads. -/
structure Whole (U : CaseMap) (f : CodePoint → JString) : Prop where
  single : ∀ c, c.val < 0x10000 → f c = units c
  heads : ∀ c, isScalar c = true → (f c).head?.any isLowSurrogate = false ∧ f c ≠ []
  closed : ∀ c, isScalar c = true → ¬ c.val < 0x10000 →
    Closed (lower U (f c)) ∧ (lower U (f c)).head?.any isLowSurrogate = false
  fixed : ∀ c, isScalar c = true → ¬ c.val < 0x10000 →
    (∀ d ∈ f c, bestFit d = d) ∧ ∀ d ∈ lower U (f c), bestFit d = d
  formed : ∀ c, isScalar c = true → WellFormed (f c)

theorem whole_units (U : CaseMap) : Whole U units where
  single _ _ := rfl
  heads _ scalar := head_units scalar
  closed c _ large := by
    have plane := U.plane c
    rw [lower_units]
    refine ⟨closed_surrogates ?_ fun d mem => ?_, (head_units (isScalar_iff.2 (by omega))).1⟩
    · rw [units_large (by omega)]
      exact List.cons_ne_nil _ _
    · obtain ⟨small, -⟩ | ⟨-, high, -⟩ := mem_units mem <;> omega
  fixed c _ large := by
    have plane := U.plane c
    rw [lower_units]
    constructor
    · intro d mem
      obtain ⟨small, -⟩ | ⟨-, high, low⟩ := mem_units mem
      · omega
      · exact bestFit_surrogate high low
    · intro d mem
      obtain ⟨small, -⟩ | ⟨-, high, low⟩ := mem_units mem
      · omega
      · exact bestFit_surrogate high low
  formed c scalar := by
    have whole := wellFormed_utf16 (scalars_cons.2 ⟨scalar, fun c mem => absurd mem List.not_mem_nil⟩)
    rw [utf16_cons, utf16_nil, List.append_nil] at whole
    exact whole

/-- The bytes of a character of four, case folded or not. -/
theorem lower_bytes_four (law : FoldsLatin U) (scalar : isScalar c = true)
    (large : ¬ c.val < 0x10000) : lower U (bytes c) = bytes c ∧ Closed (bytes c) := by
  obtain ⟨lead, more, whole, bounds, tail, -, short, reads⟩ := exists_sequence (by omega) scalar
  have high : 0xe0 ≤ lead := by
    by_contra small
    have narrow := (short (by omega)).2
    omega
  have shift : latinShift lead = lead := if_neg (by omega)
  have own : bytes c = byteText (lead :: more) := by rw [bytes_wide (by omega), whole]
  have all : ∀ n ∈ lead :: more, 0x80 ≤ n ∧ n < 0x100 := by
    rw [← whole]
    exact utf8Bytes_bounds (by omega) scalar
  have same : (lead :: more).map latinShift = lead :: more := by
    rw [List.map_cons, shift]
    congr 1
    conv_rhs => rw [← List.map_id more]
    refine List.map_congr_left fun n mem => if_neg ?_
    have inside := tail n mem
    omega
  rw [own, lower_byteText law all, same]
  refine ⟨rfl, closed_four bounds tail fun rest => ?_⟩
  rw [reads, if_neg large]

theorem bytes_bounds (wide : 0x80 ≤ c.val) (scalar : isScalar c = true) :
    ∀ d ∈ bytes c, 0x80 ≤ d.val ∧ d.val < 0x100 := by
  intro d mem
  rw [bytes_wide wide] at mem
  obtain ⟨n, byte, rfl⟩ := List.mem_map.1 mem
  have bounds := utf8Bytes_bounds wide scalar n byte
  rw [val_byte bounds.2]
  exact bounds

theorem head_bytes (wide : 0x80 ≤ c.val) (scalar : isScalar c = true) :
    (bytes c).head?.any isLowSurrogate = false ∧ bytes c ≠ [] := by
  have bounds := bytes_bounds wide scalar
  obtain ⟨d, v, block⟩ := List.exists_cons_of_ne_nil (isInert_bytes wide scalar).1
  rw [block] at bounds ⊢
  refine ⟨?_, List.cons_ne_nil d v⟩
  have own := bounds d (.head _)
  show isLowSurrogate d = false
  rw [Bool.eq_false_iff, ne_eq, isLowSurrogate_iff]
  omega

theorem reread_four (large : ¬ c.val < 0x10000) : reread c = bytes c := by
  rw [reread, if_neg large, bytes_wide (by omega)]

theorem whole_reread (law : FoldsLatin U) : Whole U reread where
  single _ small := if_pos small
  heads c scalar := by
    by_cases small : c.val < 0x10000
    · rw [reread, if_pos small]
      exact head_units scalar
    · rw [reread_four small]
      exact head_bytes (by omega) scalar
  closed c scalar large := by
    rw [reread_four large, (lower_bytes_four law scalar large).1]
    exact ⟨(lower_bytes_four law scalar large).2, (head_bytes (by omega) scalar).1⟩
  fixed c scalar large := by
    rw [reread_four large, (lower_bytes_four law scalar large).1, and_self]
    exact fun d mem => bestFit_latin (bytes_bounds (by omega) scalar d mem).2
  formed c scalar := by
    by_cases small : c.val < 0x10000
    · rw [reread, if_pos small]
      exact (whole_units U).formed c scalar
    · rw [reread_four small]
      refine wellFormed_of_plain fun d mem => ?_
      have own := bytes_bounds (by omega) scalar d mem
      omega

theorem wellFormed_flatMap
    (heads : ∀ c ∈ name, (f c).head?.any isLowSurrogate = false ∧ f c ≠ [])
    (formed : ∀ c ∈ name, WellFormed (f c)) : WellFormed (name.flatMap f) := by
  induction name with
  | nil => rfl
  | cons c name ih =>
      obtain ⟨-, later⟩ := List.forall_mem_cons.1 heads
      rw [List.flatMap_cons, WellFormed, points_append (head_flatMap later), utf16_append,
        formed c (.head _), ih later fun e mem => formed e (.tail _ mem)]

end Hx.Policy
