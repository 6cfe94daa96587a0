import Hx.Policy.Renderings

/-!
# Renderings that keep the segments

A rendering that keeps the slashes and the dots of a name, and makes nothing else that a
segment transform reads, keeps a directory steady, whatever its characters become.
-/

namespace Hx.Policy

open Hx.Java Hx.Library

variable {U : CaseMap} {s t : JString} {c : CodePoint} {d : JChar} {name : Text}
variable {f g : CodePoint → JString} {upperHex : Bool}

/-- A character that no segment transform reads. -/
def isInert (d : JChar) : Bool :=
  d != slash && d != dot && d != space && d != semicolon && d != backslash && d != nul

/-- A rendering that makes nothing of a name that is read by segments, but for the slashes and
the dots the name has. -/
structure Renders (f : CodePoint → JString) (name : Text) : Prop where
  slashes : ∀ c ∈ name, c.val = 0x2f → f c = [slash]
  dots : ∀ c ∈ name, c.val = 0x2e → f c = [dot]
  others : ∀ c ∈ name, c.val ≠ 0x2f → c.val ≠ 0x2e → f c ≠ [] ∧ ∀ d ∈ f c, isInert d = true

theorem isInert_iff : isInert d = true ↔ d.val ≠ 0x2f ∧ d.val ≠ 0x2e ∧ d.val ≠ 0x20 ∧
    d.val ≠ 0x3b ∧ d.val ≠ 0x5c ∧ d.val ≠ 0 := by
  have solidus : slash.val = 0x2f := by decide
  have period : dot.val = 0x2e := by decide
  have blank : space.val = 0x20 := by decide
  have semi : semicolon.val = 0x3b := by decide
  have reverse : backslash.val = 0x5c := by decide
  have null : nul.val = 0 := by decide
  simp only [isInert, Bool.and_eq_true, bne_iff_ne, ne_eq, Fin.ext_iff, solidus, period, blank,
    semi, reverse, null, and_assoc]

theorem isInert_wide (wide : 0x80 ≤ d.val) : isInert d = true := by
  rw [isInert_iff]
  omega

/-! ## Segments of a rendered name -/

/-- A name is cut where its rendering is. -/
theorem segments_flatMap (renders : Renders f name) :
    segments (name.flatMap f) = (name.splitOn (chr 0x2f)).map fun part => part.flatMap f := by
  induction name with
  | nil => rfl
  | cons c name ih =>
      have later : Renders f name :=
        ⟨fun e mem => renders.slashes e (.tail _ mem), fun e mem => renders.dots e (.tail _ mem),
          fun e mem => renders.others e (.tail _ mem)⟩
      have own : c.val = 0x2f ↔ (c == chr 0x2f) = true := by
        rw [beq_iff_eq, Fin.ext_iff, val_chr]
      rw [List.flatMap_cons, List.splitOn_cons_eq_if_modifyHead]
      by_cases cut : c.val = 0x2f
      · rw [renders.slashes c (.head _) cut, List.singleton_append, segments_slash, ih later,
          if_pos (own.1 cut)]
        rfl
      · have clean : slash ∉ f c := by
          by_cases single : c.val = 0x2e
          · rw [renders.dots c (.head _) single]
            decide
          · intro mem
            have inert := (renders.others c (.head _) cut single).2 slash mem
            exact absurd inert (by decide)
        rw [if_neg (mt own.2 cut)]
        obtain ⟨first, parts, whole⟩ := List.exists_cons_of_ne_nil
          (List.splitOn_ne_nil (chr 0x2f) name)
        have tail := ih later
        rw [whole, List.map_cons] at tail
        have front : ∀ u : JString, slash ∉ u → segments (u ++ name.flatMap f) =
            (u ++ first.flatMap f) :: parts.map fun part => part.flatMap f := by
          intro u none_
          induction u with
          | nil => exact tail
          | cons d u more =>
              rw [List.mem_cons, not_or] at none_
              have other : (d == slash) = false := beq_eq_false_iff_ne.2 (Ne.symm none_.1)
              have rest := more none_.2
              rw [segments] at rest
              rw [segments, List.cons_append, List.splitOn_cons_eq_if_modifyHead, other, rest]
              rfl
        rw [whole, front _ clean, List.modifyHead_cons, List.map_cons, List.flatMap_cons]

/-- A rendering of a name that is steady as it is typed is steady. -/
theorem Renders.steady (renders : Renders f name) (typed : Renders units name)
    (steady : Steady (utf16 name)) : Steady (name.flatMap f) where
  plain := by
    intro d mem
    obtain ⟨c, among, inside⟩ := List.mem_flatMap.1 mem
    by_cases cut : c.val = 0x2f
    · rw [renders.slashes c among cut, List.mem_singleton] at inside
      rw [inside]
      decide
    · by_cases single : c.val = 0x2e
      · rw [renders.dots c among single, List.mem_singleton] at inside
        rw [inside]
        decide
      · have inert := (renders.others c among cut single).2 d inside
        simp only [isInert, Bool.and_eq_true, bne_iff_ne, ne_eq] at inert
        exact ⟨inert.1.1.2, inert.1.2, inert.2⟩
  named := by
    intro segment mem
    rw [segments_flatMap renders] at mem
    obtain ⟨part, among, rfl⟩ := List.mem_map.1 mem
    have typed_ : part.flatMap units ∈ segments (utf16 name) := by
      rw [utf16, segments_flatMap typed]
      exact List.mem_map_of_mem among
    obtain ⟨d, last, notDot, -⟩ := steady.named _ typed_
    obtain rfl | ⟨front, c, rfl⟩ := List.eq_nil_or_concat' part
    · cases last
    · have inside := (mem_splitOn among).2 c (List.mem_append_right _ (.head _))
      have uncut : c.val ≠ 0x2f := by
        intro same
        have own := (mem_splitOn among).1
        rw [show c = chr 0x2f from Fin.ext same] at own
        exact own (List.mem_append_right _ (.head _))
      have undotted : c.val ≠ 0x2e := by
        intro same
        rw [List.flatMap_append, List.flatMap_singleton, typed.dots c inside same,
          List.getLast?_concat] at last
        exact notDot (Option.some.inj last).symm
      obtain ⟨some_, inert⟩ := renders.others c inside uncut undotted
      obtain ⟨x, y, block⟩ := (List.eq_nil_or_concat' (f c)).resolve_left some_
      have own := inert y (block ▸ List.mem_append_right _ (.head _))
      simp only [isInert, Bool.and_eq_true, bne_iff_ne, ne_eq] at own
      refine ⟨y, ?_, own.1.1.1.1.2, own.1.1.1.2⟩
      rw [List.flatMap_append, List.flatMap_singleton, block, ← List.append_assoc,
        List.getLast?_concat]

/-- Two renderings of one name have its slashes. -/
theorem Renders.count (one : Renders f name) (two : Renders g name) :
    (name.flatMap f).count slash = (name.flatMap g).count slash := by
  have same : ∀ {f : CodePoint → JString}, Renders f name →
      ∀ c ∈ name, (f c).count slash = if c.val = 0x2f then 1 else 0 := by
    intro f renders c mem
    by_cases cut : c.val = 0x2f
    · rw [renders.slashes c mem cut, if_pos cut]
      rfl
    · rw [if_neg cut, List.count_eq_zero]
      by_cases single : c.val = 0x2e
      · rw [renders.dots c mem single]
        decide
      · intro inside
        exact absurd ((renders.others c mem cut single).2 slash inside) (by decide)
  rw [List.count_flatMap, List.count_flatMap]
  congr 1
  refine List.map_congr_left fun c mem => ?_
  show (f c).count slash = (g c).count slash
  rw [same one c mem, same two c mem]

/-! ## What a fold makes of inert characters -/

theorem isInert_units_toLowerCase (inert : ∀ d ∈ units c, isInert d = true) :
    ∀ d ∈ units (U.toLowerCase c), isInert d = true := by
  intro d mem
  have plane := U.plane c
  obtain ⟨small, val⟩ | ⟨-, high, -⟩ := mem_units mem
  · have unit : c.val < 0x10000 := by omega
    have own : Fin.ofNat 65536 c.val ∈ units c := by
      rw [units_small unit]
      exact .head _
    have inside := isInert_iff.1 (inert _ own)
    rw [val_unit unit] at inside
    rw [isInert_iff, val]
    by_cases ascii : c.val < 0x80
    · rw [U.ascii c ascii, lowerAscii]
      split_ifs <;> omega
    · have letters := U.letters c (by omega)
      omega
  · exact isInert_wide (by omega)

theorem isInert_lower (inert : ∀ d ∈ s, isInert d = true) : ∀ d ∈ lower U s, isInert d = true := by
  have one : ∀ e : JChar, isInert e = true →
      ∀ d ∈ units (U.toLowerCase (codePoint e)), isInert d = true := by
    intro e own
    refine isInert_units_toLowerCase fun d mem => ?_
    rw [units_codePoint, List.mem_singleton] at mem
    rw [mem]
    exact own
  induction s using lower.induct with
  | case1 => exact fun d mem => absurd mem List.not_mem_nil
  | case2 e =>
      rw [lower]
      exact one e (inert e (.head _))
  | case3 high low s pair ih =>
      rw [lower, if_pos pair]
      rw [Bool.and_eq_true] at pair
      intro d mem
      obtain mem | mem := List.mem_append.1 mem
      · refine isInert_units_toLowerCase (fun x inside => ?_) d mem
        rw [units_pairPoint pair.1 pair.2] at inside
        refine inert x ?_
        obtain rfl | inside := List.mem_cons.1 inside
        · exact .head _
        · exact .tail _ (List.mem_cons.2 (.inl (List.mem_singleton.1 inside)))
      · exact ih (fun x inside => inert x (.tail _ (.tail _ inside))) d mem
  | case4 high low s single ih =>
      rw [lower, if_neg single]
      intro d mem
      obtain mem | mem := List.mem_append.1 mem
      · exact one high (inert high (.head _)) d mem
      · exact ih (fun x inside => inert x (.tail _ inside)) d mem

theorem Renders.lower (renders : Renders f name) : Renders (fun c => lower U (f c)) name where
  slashes c mem cut := by
    have small : slash.val < 0x80 := by decide
    have own := lower_cons_ascii (U := U) small []
    rw [renders.slashes c mem cut, own]
    rfl
  dots c mem single := by
    have small : dot.val < 0x80 := by decide
    have own := lower_cons_ascii (U := U) small []
    rw [renders.dots c mem single, own]
    rfl
  others c mem uncut undotted := by
    obtain ⟨some_, inert⟩ := renders.others c mem uncut undotted
    refine ⟨fun empty => some_ ?_, isInert_lower inert⟩
    rw [← List.length_eq_zero_iff, ← length_lower (U := U), empty]
    rfl

/-- A rendering that is as typed on ASCII, or case folded there, has only to be looked at
beyond it. -/
theorem Renders.of_ascii (typed : Renders units name)
    (ascii : ∀ c, c.val < 0x80 → f c = units c ∨ f c = Java.lower U (units c))
    (wide : ∀ c ∈ name, 0x80 ≤ c.val → f c ≠ [] ∧ ∀ d ∈ f c, isInert d = true) :
    Renders f name where
  slashes c mem cut := by
    obtain same | same := ascii c (by omega)
    · exact same.trans (typed.slashes c mem cut)
    · exact same.trans ((typed.lower (U := U)).slashes c mem cut)
  dots c mem single := by
    obtain same | same := ascii c (by omega)
    · exact same.trans (typed.dots c mem single)
    · exact same.trans ((typed.lower (U := U)).dots c mem single)
  others c mem uncut undotted := by
    by_cases small : c.val < 0x80
    · obtain same | same := ascii c small
      · rw [same]
        exact typed.others c mem uncut undotted
      · rw [same]
        exact (typed.lower (U := U)).others c mem uncut undotted
    · exact wide c mem (by omega)

/-- Characters may be replaced by inert ones. -/
theorem Renders.map (renders : Renders f name) {p : JChar → JChar} (solidus : p slash = slash)
    (period : p dot = dot) (inert : ∀ c ∈ name, ∀ d ∈ f c, isInert d = true → isInert (p d) = true) :
    Renders (fun c => (f c).map p) name where
  slashes c mem cut := by rw [renders.slashes c mem cut, List.map_singleton, solidus]
  dots c mem single := by rw [renders.dots c mem single, List.map_singleton, period]
  others c mem uncut undotted := by
    obtain ⟨some_, own⟩ := renders.others c mem uncut undotted
    refine ⟨fun empty => some_ (List.map_eq_nil_iff.1 empty), fun d among => ?_⟩
    obtain ⟨e, inside, rfl⟩ := List.mem_map.1 among
    exact inert c mem e inside (own e inside)

theorem Renders.escaped (typed : Renders units name) : Renders (escaped upperHex) name := by
  refine typed.of_ascii (U := basicCase) (fun c small => .inl (if_pos small)) fun c _ wide => ?_
  have digits : ∀ (upperHex : Bool) (n : Fin 16), isInert (hexChar upperHex n.val) = true := by
    decide
  rw [Policy.escaped, if_neg (by omega)]
  constructor
  · intro empty
    obtain ⟨n, more, whole⟩ := List.exists_cons_of_ne_nil (utf8Bytes_ne_nil c.val)
    rw [whole] at empty
    cases empty
  · intro d mem
    obtain ⟨n, byte, inside⟩ := List.mem_flatMap.1 mem
    have small := utf8Bytes_lt c.isLt byte
    simp only [percentByte, List.mem_cons, List.not_mem_nil, or_false] at inside
    obtain rfl | rfl | rfl := inside
    · decide
    · exact digits upperHex ⟨n / 16, by omega⟩
    · exact digits upperHex ⟨n % 16, by omega⟩

theorem isInert_bytes (wide : 0x80 ≤ c.val) (scalar : isScalar c = true) :
    bytes c ≠ [] ∧ ∀ d ∈ bytes c, isInert d = true := by
  rw [bytes_wide wide]
  constructor
  · exact fun empty => utf8Bytes_ne_nil c.val (List.map_eq_nil_iff.1 empty)
  · intro d mem
    obtain ⟨n, byte, rfl⟩ := List.mem_map.1 mem
    have bounds := utf8Bytes_bounds wide scalar n byte
    refine isInert_wide ?_
    rw [val_byte bounds.2]
    exact bounds.1

theorem Renders.bytes (typed : Renders units name) (scalars : Scalars name) :
    Renders bytes name :=
  typed.of_ascii (U := basicCase) (fun _ small => .inl (if_pos small)) fun c mem wide =>
    isInert_bytes wide (scalars c mem)

theorem isInert_reread (wide : 0x80 ≤ c.val) (scalar : isScalar c = true) :
    reread c ≠ [] ∧ ∀ d ∈ reread c, isInert d = true := by
  by_cases small : c.val < 0x10000
  · rw [reread, if_pos small, units_small small]
    refine ⟨List.cons_ne_nil _ _, fun d mem => ?_⟩
    rw [List.mem_singleton.1 mem]
    refine isInert_wide ?_
    rw [val_unit small]
    exact wide
  · rw [reread, if_neg small, ← bytes_wide wide]
    exact isInert_bytes wide scalar

theorem Renders.reread (typed : Renders units name) (scalars : Scalars name) :
    Renders reread name := by
  refine typed.of_ascii (U := basicCase) (fun c small => .inl (if_pos (by omega)))
    fun c mem wide => ?_
  exact isInert_reread wide (scalars c mem)

end Hx.Policy
