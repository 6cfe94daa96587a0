import Hx.Policy.Names

/-!
# Names that the folds leave alone

Reading a case folded name as UTF-8 again, and taking its best fit again, changes nothing where
it changed nothing in the name as it is typed: the characters of four bytes, which are not
read, and those that were fitted to ASCII are in no byte sequence.
-/

namespace Hx.Policy

open Hx.Java Hx.Library

variable {U : CaseMap} {s t : JString} {c : CodePoint} {d : JChar} {name : Text}
variable {f g : CodePoint → JString}

/-- The table is Unicode's on Latin-1, and makes no surrogate of a character. -/
structure FoldsUnicode (U : CaseMap) : Prop where
  latin : FoldsLatin U
  scalar : ∀ c, isScalar c = true → isScalar (U.toLowerCase c) = true

/-! ## The case fold is idempotent on texts -/

theorem lower_units (c : CodePoint) : lower U (units c) = units (U.toLowerCase c) := by
  by_cases small : c.val < 0x10000
  · have val : (Fin.ofNat 65536 c.val : JChar).val = c.val := val_unit small
    have point : codePoint (Fin.ofNat 65536 c.val) = c := Fin.ext val
    rw [units_small small, lower, point]
  · obtain ⟨high, low, halves, isHigh, isLow, point⟩ := exists_pair small
    rw [halves, lower, isHigh, isLow, Bool.and_self, if_pos rfl, point, lower, List.append_nil]

theorem head_units (scalar : isScalar c = true) :
    (units c).head?.any isLowSurrogate = false ∧ units c ≠ [] := by
  rw [isScalar_iff] at scalar
  by_cases small : c.val < 0x10000
  · have val : (Fin.ofNat 65536 c.val : JChar).val = c.val := val_unit small
    rw [units_small small]
    refine ⟨?_, List.cons_ne_nil _ _⟩
    show isLowSurrogate _ = false
    rw [Bool.eq_false_iff, ne_eq, isLowSurrogate_iff, val]
    omega
  · obtain ⟨high, low, halves, isHigh, isLow, -⟩ := exists_pair small
    rw [halves]
    refine ⟨?_, List.cons_ne_nil _ _⟩
    show isLowSurrogate high = false
    rw [isHighSurrogate_iff] at isHigh
    rw [Bool.eq_false_iff, ne_eq, isLowSurrogate_iff]
    omega

theorem lower_utf16 (scalars : Scalars name) :
    lower U (utf16 name) = utf16 (name.map U.toLowerCase) := by
  rw [utf16, lower_flatMap fun c mem => head_units (scalars c mem), utf16, List.flatMap_map]
  exact List.flatMap_congr fun c _ => lower_units c

theorem lower_lower (law : FoldsUnicode U) (whole : WellFormed s) :
    lower U (lower U s) = lower U s := by
  have scalars := scalars_points s
  have folded : Scalars ((points s).map U.toLowerCase) := by
    intro c mem
    obtain ⟨e, among, rfl⟩ := List.mem_map.1 mem
    exact law.scalar e (scalars e among)
  rw [← whole, lower_utf16 scalars, lower_utf16 folded, List.map_map]
  congr 1
  exact List.map_congr_left fun c _ => U.idempotent c

/-- Without surrogates there are none outside a pair. -/
theorem wellFormed_of_plain (plain : ∀ d ∈ s, d.val < 0xd800 ∨ 0xe000 ≤ d.val) :
    WellFormed s := by
  induction s with
  | nil => rfl
  | cons d s ih =>
      obtain ⟨own, later⟩ := List.forall_mem_cons.1 plain
      have no_high : isHighSurrogate d = false := by
        rw [Bool.eq_false_iff, ne_eq, isHighSurrogate_iff]
        omega
      have no_low : isLowSurrogate d = false := by
        rw [Bool.eq_false_iff, ne_eq, isLowSurrogate_iff]
        omega
      rw [WellFormed, points_cons (.inl no_high), utf16_cons, single, no_high, no_low]
      show units (codePoint d) ++ utf16 (points s) = d :: s
      rw [units_codePoint, ih later]
      rfl

/-! ## The best fit of a character -/

/-- The table's characters are no surrogates and lie above Latin-1, and what they fit to is
ASCII. -/
theorem bestFitTable_bounds : ∀ p ∈ bestFitTable,
    (0x100 ≤ p.1 ∧ (p.1 < 0xd800 ∨ 0xe000 ≤ p.1)) ∧ p.2 < 0x80 := by
  decide +kernel

theorem bestFit_cases (d : JChar) : bestFit d = d ∨
    (0x100 ≤ d.val ∧ (d.val < 0xd800 ∨ 0xe000 ≤ d.val)) ∧ (bestFit d).val < 0x80 := by
  rw [bestFit]
  by_cases outside : d.val < 0x0100 ∨ 0xff61 < d.val
  · rw [if_pos outside]
    exact .inl rfl
  · rw [if_neg outside]
    cases found : bestFitTable.lookup d.val with
    | none => exact .inl rfl
    | some fit =>
        obtain ⟨front, rest, whole, -⟩ := List.lookup_eq_some_iff.1 found
        have mem : (d.val, fit) ∈ bestFitTable := by
          rw [whole]
          exact List.mem_append_right _ (.head _)
        have bounds := bestFitTable_bounds _ mem
        refine .inr ⟨bounds.1, ?_⟩
        show (Fin.ofNat 65536 fit : JChar).val < 0x80
        rw [val_byte (by omega)]
        exact bounds.2

theorem bestFit_surrogate (high : 0xd800 ≤ d.val) (low : d.val ≤ 0xdfff) : bestFit d = d := by
  obtain same | ⟨bounds, -⟩ := bestFit_cases d
  · exact same
  · omega

/-- The letter or digit a character fits to. -/
def fitLetter (d : JChar) : JChar := if isLetterOrDigit (bestFit d) then bestFit d else d

theorem fitLetter_of_fixed (fixed : bestFit d = d) : fitLetter d = d := by
  rw [fitLetter, fixed, ite_self]

theorem fitLetter_cases (d : JChar) : fitLetter d = d ∨
    isLetterOrDigit (fitLetter d) = true ∧ (fitLetter d).val < 0x80 := by
  rw [fitLetter]
  cases letter : isLetterOrDigit (bestFit d) with
  | false => exact .inl rfl
  | true =>
      refine .inr ⟨letter, ?_⟩
      rw [if_pos rfl]
      simp only [isLetterOrDigit, Bool.or_eq_true, Bool.and_eq_true, decide_eq_true_eq] at letter
      omega

theorem foldBestFitLetters_eq (s : JString) : foldBestFitLetters s = s.map fitLetter := rfl

theorem map_of_fixed {p : JChar → JChar} (fixed : ∀ d ∈ s, p d = d) : s.map p = s := by
  conv_rhs => rw [← List.map_id s]
  exact List.map_congr_left fixed

/-! ## Blocks that no byte sequence reaches into or out of -/

/-- A block that starts no byte sequence, and goes on with none. -/
structure Closed (v : JString) : Prop where
  nonempty : v ≠ []
  stops : ∀ d ∈ v.head?, ¬ isContinuation d
  starts : ∀ w d u rest, v = w ++ d :: u → sequenceAt d (u ++ rest) = none

theorem closed_of_alone (nonempty : s ≠ []) (alone : ∀ d ∈ s, extraBytes d = 0 ∧
    ¬ isContinuation d) : Closed s where
  nonempty := nonempty
  stops d mem := (alone d (List.mem_of_head? mem)).2
  starts w d u rest whole := by
    have mem : d ∈ s := by
      rw [whole]
      exact List.mem_append_right _ (.head _)
    simp [sequenceAt, (alone d mem).1]

theorem closed_ascii (small : d.val < 0x80) : Closed [d] := by
  refine closed_of_alone (List.cons_ne_nil _ _) fun e mem => ?_
  rw [List.mem_singleton.1 mem, isContinuation]
  refine ⟨?_, by omega⟩
  simp only [extraBytes]
  split_ifs <;> omega

theorem closed_surrogates (nonempty : s ≠ []) (wide : ∀ d ∈ s, 0x100 ≤ d.val) : Closed s := by
  refine closed_of_alone nonempty fun d mem => ?_
  have bound := wide d mem
  rw [isContinuation]
  refine ⟨?_, by omega⟩
  simp only [extraBytes]
  split_ifs <;> omega

/-- A sequence of four bytes is closed: what it spells is no code unit. -/
theorem closed_four {lead : Nat} {more : List Nat} (bound : 0xc2 ≤ lead ∧ lead ≤ 0xf4)
    (tail : ∀ n ∈ more, 0x80 ≤ n ∧ n ≤ 0xbf)
    (unread : ∀ rest, sequenceAt (Fin.ofNat 65536 lead) (byteText more ++ rest) = none) :
    Closed (byteText (lead :: more)) where
  nonempty := List.cons_ne_nil _ _
  stops d mem := by
    obtain rfl := Option.some.inj mem
    rw [isContinuation, val_byte (by omega)]
    omega
  starts w d u rest whole := by
    cases w with
    | nil =>
        obtain ⟨rfl, rfl⟩ := List.cons.inj whole
        exact unread rest
    | cons e w =>
        have mem : d ∈ byteText more := by
          rw [byteText, List.map_cons, List.cons_append] at whole
          rw [byteText, (List.cons.inj whole).2]
          exact List.mem_append_right _ (.head _)
        exact sequenceAt_continuation (continuation_byteText tail d mem) _

/-! ## Names without a byte sequence -/

theorem length_foldUtf8From_add_le (skip : Nat) (s : JString) (inside : skip ≤ s.length) :
    (foldUtf8From skip s).length + skip ≤ s.length := by
  induction s generalizing skip with
  | nil =>
      obtain rfl := Nat.le_zero.1 inside
      exact Nat.le_refl _
  | cons d s ih =>
      cases skip with
      | succ skip =>
          rw [List.length_cons] at inside
          have rest := ih skip (by omega)
          simp only [foldUtf8From, List.length_cons]
          omega
      | zero => exact length_foldUtf8From_le 0 (d :: s)

/-- What reads as itself starts with no byte sequence. -/
theorem unread_cons : foldOverlongUtf8 (d :: s) = d :: s ↔
    sequenceAt d s = none ∧ foldOverlongUtf8 s = s := by
  constructor
  · intro same
    cases found : sequenceAt d s with
    | none =>
        rw [foldOverlongUtf8_keep found] at same
        exact ⟨rfl, (List.cons.inj same).2⟩
    | some p =>
        obtain ⟨folded, extra⟩ := p
        obtain ⟨-, some_, long, -⟩ := of_sequenceAt found
        have fewer := length_foldUtf8From_add_le extra s long
        have lengths := congrArg List.length same
        simp only [foldOverlongUtf8, foldUtf8From, found, List.length_cons] at lengths
        omega
  · rintro ⟨none_, same⟩
    rw [foldOverlongUtf8_keep none_, same]

theorem unread_append {u rest : JString}
    (none_ : ∀ w d v, u = w ++ d :: v → sequenceAt d (v ++ rest) = none)
    (same : foldOverlongUtf8 rest = rest) : foldOverlongUtf8 (u ++ rest) = u ++ rest := by
  induction u with
  | nil => exact same
  | cons d u ih =>
      refine unread_cons.2 ⟨none_ [] d u rfl, ih fun w e v whole => ?_⟩
      exact none_ (d :: w) e v (congrArg (d :: ·) whole)

theorem unread_of_append {u rest : JString} (same : foldOverlongUtf8 (u ++ rest) = u ++ rest) :
    (∀ w d v, u = w ++ d :: v → sequenceAt d (v ++ rest) = none) ∧
      foldOverlongUtf8 rest = rest := by
  induction u with
  | nil => exact ⟨fun w d v whole => absurd whole (by simp), same⟩
  | cons e u ih =>
      obtain ⟨first, later⟩ := unread_cons.1 same
      obtain ⟨inner, tail⟩ := ih later
      refine ⟨fun w d v whole => ?_, tail⟩
      cases w with
      | nil =>
          obtain ⟨rfl, rfl⟩ := List.cons.inj whole
          exact first
      | cons x w => exact inner w d v (List.cons.inj whole).2

/-- The rest of a sequence in one rendering is there in the other, where they differ in closed
blocks alone. -/
theorem take_flatMap (blocks : ∀ c ∈ name, g c = f c ∨ Closed (g c)) {n : Nat}
    (long : n ≤ (name.flatMap g).length)
    (all : ∀ d ∈ (name.flatMap g).take n, isContinuation d) :
    n ≤ (name.flatMap f).length ∧ (name.flatMap f).take n = (name.flatMap g).take n := by
  induction name generalizing n with
  | nil => exact ⟨long, rfl⟩
  | cons c name ih =>
      obtain ⟨own, later⟩ := List.forall_mem_cons.1 blocks
      rw [List.flatMap_cons] at long all
      rw [List.flatMap_cons, List.flatMap_cons]
      obtain same | closed := own
      · rw [same] at long all ⊢
        rw [List.length_append] at long
        rw [List.take_append] at all
        have rest := ih later (n := n - (f c).length) (by omega)
          fun d mem => all d (List.mem_append_right _ mem)
        rw [List.length_append, List.take_append, List.take_append, rest.2]
        exact ⟨by omega, rfl⟩
      · cases n with
        | zero => simp
        | succ n =>
            obtain ⟨d, v, block⟩ := List.exists_cons_of_ne_nil closed.nonempty
            have stop := closed.stops d (by rw [block]; rfl)
            rw [block] at all
            exact absurd (all d (.head _)) stop

/-- A rendering has no byte sequence where one has none that differs in closed blocks. -/
theorem unread_flatMap (blocks : ∀ c ∈ name, g c = f c ∨ Closed (g c))
    (same : foldOverlongUtf8 (name.flatMap f) = name.flatMap f) :
    foldOverlongUtf8 (name.flatMap g) = name.flatMap g := by
  induction name with
  | nil => rfl
  | cons c name ih =>
      obtain ⟨own, later⟩ := List.forall_mem_cons.1 blocks
      rw [List.flatMap_cons] at same ⊢
      obtain ⟨inner, tail⟩ := unread_of_append same
      refine unread_append (fun w d v whole => ?_) (ih later tail)
      obtain equal | closed := own
      · have none_ := inner w d v (equal ▸ whole)
        rw [Option.eq_none_iff_forall_ne_some]
        rintro ⟨folded, extra⟩ found
        obtain ⟨announced, some_, long, all⟩ := of_sequenceAt found
        rw [List.length_append] at long
        rw [List.take_append] at all
        have rest := take_flatMap later (n := extra - v.length) (by omega)
          fun e mem => all e (List.mem_append_right _ mem)
        have agree : sequenceAt d (v ++ name.flatMap f) = sequenceAt d (v ++ name.flatMap g) := by
          have taken : (v ++ name.flatMap f).take extra = (v ++ name.flatMap g).take extra := by
            rw [List.take_append, List.take_append, rest.2]
          simp only [sequenceAt, announced, taken]
          rw [if_neg (by rw [List.length_append]; omega),
            if_neg (by rw [List.length_append]; omega)]
        rw [agree, found] at none_
        cases none_
      · exact closed.starts w d v _ whole

end Hx.Policy
