import Hx.Java.Utf16
import Hx.Policy.Directories

/-!
# A directory's name, one character at a time

A name is a text, and each way it is written or read renders one character after another: as
it is typed, as escapes, as the bytes those decode to, and as those bytes are read as UTF-8.
Case folding the bytes takes some of them apart: the lead byte of a two-byte character is
mostly a Latin-1 capital, and its lower case announces more bytes than follow.
-/

namespace Hx.Policy

open Hx.Java Hx.Library

variable {U : CaseMap} {s t rest : JString} {c : CodePoint} {name : Text} {upperHex : Bool}

/-! ## The case fold of Latin-1 -/

/-- The lower case of a character of the upper half of Latin-1. -/
def latinShift (n : Nat) : Nat := if 0xc0 ≤ n ∧ n ≤ 0xde ∧ n ≠ 0xd7 then n + 0x20 else n

/-- The table is Unicode's where Latin-1 has characters beyond ASCII. -/
def FoldsLatin (U : CaseMap) : Prop := ∀ c : CodePoint, 0x80 ≤ c.val → c.val < 0x100 →
  (U.toLowerCase c).val = latinShift c.val

theorem foldsLatin_latinCase : FoldsLatin latinCase := by
  intro c wide narrow
  show latinLower c.val = latinShift c.val
  simp only [latinLower, latinShift, basicLower, lowerAscii]
  split_ifs <;> omega

/-! ## The case fold, one block at a time -/

theorem lower_single {d : JChar} (alone : isHighSurrogate d = false) (s : JString) :
    lower U (d :: s) = units (U.toLowerCase (codePoint d)) ++ lower U s := by
  cases s with
  | nil => simp [lower]
  | cons e s => rw [lower, alone, Bool.false_and, if_neg Bool.false_ne_true]

/-- A string may be cut in front of what is no low surrogate. -/
theorem lower_append (cut : t.head?.any isLowSurrogate = false) (s : JString) :
    lower U (s ++ t) = lower U s ++ lower U t := by
  induction s using lower.induct with
  | case1 => simp [lower]
  | case2 d =>
      cases t with
      | nil => simp [lower]
      | cons e t =>
          have apart : isLowSurrogate e = false := cut
          simp [lower, apart]
  | case3 high low s pair ih =>
      rw [List.cons_append, List.cons_append, lower, if_pos pair, ih, lower, if_pos pair,
        List.append_assoc]
  | case4 high low s single ih =>
      rw [List.cons_append] at ih
      rw [List.cons_append, List.cons_append, lower, if_neg single, ih, lower, if_neg single,
        List.append_assoc]

/-- Blocks none of which starts with the second half of a pair do not together. -/
theorem head_flatMap {f : CodePoint → JString}
    (heads : ∀ c ∈ name, (f c).head?.any isLowSurrogate = false ∧ f c ≠ []) :
    (name.flatMap f).head?.any isLowSurrogate = false := by
  cases name with
  | nil => rfl
  | cons c name =>
      obtain ⟨own, some_⟩ := heads c (.head _)
      obtain ⟨d, v, block⟩ := List.exists_cons_of_ne_nil some_
      rw [block] at own
      rw [List.flatMap_cons, block]
      exact own

/-- They are folded one at a time. -/
theorem lower_flatMap {f : CodePoint → JString}
    (heads : ∀ c ∈ name, (f c).head?.any isLowSurrogate = false ∧ f c ≠ []) :
    lower U (name.flatMap f) = name.flatMap fun c => lower U (f c) := by
  induction name with
  | nil => rfl
  | cons c name ih =>
      obtain ⟨-, later⟩ := List.forall_mem_cons.1 heads
      rw [List.flatMap_cons, List.flatMap_cons, lower_append (head_flatMap later), ih later]

theorem length_units_toLowerCase (c : CodePoint) :
    (units (U.toLowerCase c)).length = (units c).length := by
  have plane := U.plane c
  have bound := c.isLt
  by_cases small : c.val < 0x10000
  · rw [units_small small, units_small (by omega), List.length_singleton, List.length_singleton]
  · rw [units_large small, units_large (by omega)]
    simp only [List.length_cons]

theorem length_lower (s : JString) : (lower U s).length = s.length := by
  induction s using lower.induct with
  | case1 => rfl
  | case2 d =>
      rw [lower, length_units_toLowerCase, units_codePoint]
  | case3 high low s pair ih =>
      rw [Bool.and_eq_true] at pair
      rw [lower, if_pos (Bool.and_eq_true_iff.2 pair), List.length_append,
        length_units_toLowerCase, units_pairPoint pair.1 pair.2, ih]
      simp only [List.length_cons, List.length_nil]
      omega
  | case4 high low s single ih =>
      rw [lower, if_neg single, List.length_append, length_units_toLowerCase, units_codePoint, ih]
      simp only [List.length_cons, List.length_nil]
      omega

/-! ## Renderings of a character -/

/-- The escapes of the characters beyond ASCII. -/
def escaped (upperHex : Bool) (c : CodePoint) : JString :=
  if c.val < 0x80 then units c else (utf8Bytes c.val).flatMap (percentByte upperHex)

/-- What the escapes decode to. -/
def bytes (c : CodePoint) : JString :=
  if c.val < 0x80 then units c else byteText (utf8Bytes c.val)

/-- What the bytes are read as: a character of four bytes is not read. -/
def reread (c : CodePoint) : JString :=
  if c.val < 0x10000 then units c else byteText (utf8Bytes c.val)

/-- The lead byte of the character's UTF-8 is a Latin-1 capital. -/
def capitalLead (c : CodePoint) : Bool :=
  (utf8Bytes c.val).head?.any fun lead => 0xc0 ≤ lead && lead ≤ 0xde && lead != 0xd7

/-- What the case folded bytes are read as. -/
def refolded (U : CaseMap) (c : CodePoint) : JString :=
  if c.val < 0x80 ∨ capitalLead c = true then lower U (bytes c) else reread c

/-! ## Byte sequences -/

/-- The sequence of a character beyond ASCII, and what it reads as. -/
theorem exists_sequence (wide : 0x80 ≤ c.val) (scalar : isScalar c = true) : ∃ lead more,
    utf8Bytes c.val = lead :: more ∧ (0xc2 ≤ lead ∧ lead ≤ 0xf4) ∧
    (∀ n ∈ more, 0x80 ≤ n ∧ n ≤ 0xbf) ∧ more ≠ [] ∧
    (lead < 0xe0 → more.length = 1 ∧ c.val < 0x800) ∧
    ∀ rest, sequenceAt (Fin.ofNat 65536 lead) (byteText more ++ rest) =
      if c.val < 0x10000 then some (Fin.ofNat 65536 c.val, more.length) else none := by
  have bound := c.isLt
  have reads : ∀ (lead : Nat) (more : List Nat), lead < 0x100 →
      extraBytes (Fin.ofNat 65536 lead) = more.length → more ≠ [] →
      continuation (lead % 2 ^ (6 - more.length)) (byteText more) = some c.val →
      ∀ rest, sequenceAt (Fin.ofNat 65536 lead) (byteText more ++ rest) =
        if c.val < 0x10000 then some (Fin.ofNat 65536 c.val, more.length) else none := by
    intro lead more small announced some_ spells rest
    have length : (byteText more).length = more.length := List.length_map _
    have taken : (byteText more ++ rest).take more.length = byteText more := by
      rw [← length, List.take_left]
    have long : ¬ (more.length = 0 ∨ (byteText more ++ rest).length < more.length) := by
      refine not_or.2 ⟨fun empty => some_ (List.length_eq_zero_iff.1 empty), ?_⟩
      rw [List.length_append, length]
      omega
    simp only [sequenceAt, announced, val_byte small, taken, spells, if_neg long]
    by_cases unit : c.val < 0x10000
    · rw [if_pos unit, if_neg (by omega)]
    · rw [if_neg unit, if_pos (by omega)]
  rw [isScalar_iff] at scalar
  by_cases two : c.val < 0x800
  · refine ⟨0xc0 + c.val / 64, [0x80 + c.val % 64], ?_, by omega, ?_, List.cons_ne_nil _ _,
      fun _ => ⟨rfl, two⟩, reads _ _ (by omega) ?_ (List.cons_ne_nil _ _) ?_⟩
    · rw [utf8Bytes, if_neg (by omega), if_pos two]
    · simp only [List.mem_singleton, forall_eq]
      omega
    · rw [extraBytes_byte (by omega), if_neg (by omega), if_neg (by omega), if_pos (by omega)]
      rfl
    · show continuation _ [_] = _
      rw [continuation_cons (by omega) (by omega), continuation]
      simp only [List.length_singleton, Option.some.injEq]
      omega
  · by_cases three : c.val < 0x10000
    · refine ⟨0xe0 + c.val / 4096, [0x80 + c.val / 64 % 64, 0x80 + c.val % 64], ?_, by omega, ?_,
        List.cons_ne_nil _ _, fun small => by omega,
        reads _ _ (by omega) ?_ (List.cons_ne_nil _ _) ?_⟩
      · rw [utf8Bytes, if_neg (by omega), if_neg two, if_neg (by omega), if_pos three]
      · simp only [List.mem_cons, List.not_mem_nil, or_false, forall_eq_or_imp, forall_eq]
        omega
      · rw [extraBytes_byte (by omega), if_neg (by omega), if_pos (by omega)]
        rfl
      · show continuation _ [_, _] = _
        rw [continuation_cons (by omega) (by omega), continuation_cons (by omega) (by omega),
          continuation]
        simp only [List.length_cons, List.length_nil, Option.some.injEq]
        omega
    · refine ⟨0xf0 + c.val / 262144,
        [0x80 + c.val / 4096 % 64, 0x80 + c.val / 64 % 64, 0x80 + c.val % 64], ?_, by omega, ?_,
        List.cons_ne_nil _ _, fun small => by omega,
        reads _ _ (by omega) ?_ (List.cons_ne_nil _ _) ?_⟩
      · rw [utf8Bytes, if_neg (by omega), if_neg two, if_neg (by omega), if_neg three]
      · simp only [List.mem_cons, List.not_mem_nil, or_false, forall_eq_or_imp, forall_eq]
        omega
      · rw [extraBytes_byte (by omega), if_pos (by omega)]
        rfl
      · show continuation _ [_, _, _] = _
        rw [continuation_cons (by omega) (by omega), continuation_cons (by omega) (by omega),
          continuation_cons (by omega) (by omega), continuation]
        simp only [List.length_cons, List.length_nil, Option.some.injEq]
        omega

theorem foldUtf8From_skip (u rest : JString) :
    foldUtf8From u.length (u ++ rest) = foldOverlongUtf8 rest := by
  induction u with
  | nil => rfl
  | cons d u ih => exact ih

theorem sequenceAt_continuation {d : JChar} (h : isContinuation d) (rest : JString) :
    sequenceAt d rest = none := by
  simp [sequenceAt, extraBytes_continuation h]

/-- Continuation bytes that nothing announced are copied. -/
theorem foldOverlongUtf8_continuations {u : JString} (all : ∀ d ∈ u, isContinuation d)
    (rest : JString) : foldOverlongUtf8 (u ++ rest) = u ++ foldOverlongUtf8 rest := by
  induction u with
  | nil => rfl
  | cons d u ih =>
      obtain ⟨first, later⟩ := List.forall_mem_cons.1 all
      show foldUtf8From 0 (d :: (u ++ rest)) = _
      rw [foldUtf8From, sequenceAt_continuation first]
      exact congrArg (d :: ·) (ih later)

theorem foldOverlongUtf8_keep {d : JChar} (none_ : sequenceAt d rest = none) :
    foldOverlongUtf8 (d :: rest) = d :: foldOverlongUtf8 rest := by
  rw [foldOverlongUtf8, foldUtf8From, none_]
  rfl

theorem continuation_byteText {more : List Nat} (all : ∀ n ∈ more, 0x80 ≤ n ∧ n ≤ 0xbf) :
    ∀ d ∈ byteText more, isContinuation d := by
  intro d mem
  obtain ⟨n, among, rfl⟩ := List.mem_map.1 mem
  have bounds := all n among
  rw [isContinuation, val_byte (by omega)]
  exact bounds

/-- The bytes of a character are read as the character, whatever follows. -/
theorem foldOverlongUtf8_bytes (scalar : isScalar c = true) (rest : JString) :
    foldOverlongUtf8 (bytes c ++ rest) = reread c ++ foldOverlongUtf8 rest := by
  by_cases wide : 0x80 ≤ c.val
  · obtain ⟨lead, more, whole, -, tail, -, -, reads⟩ := exists_sequence wide scalar
    have own : bytes c = Fin.ofNat 65536 lead :: byteText more := by
      rw [bytes, if_neg (by omega), whole]
      rfl
    have length : (byteText more).length = more.length := List.length_map _
    by_cases unit : c.val < 0x10000
    · rw [own, reread, if_pos unit, units_small unit, List.cons_append, foldOverlongUtf8,
        foldUtf8From, reads, if_pos unit]
      show _ :: foldUtf8From more.length (byteText more ++ rest) = _
      rw [← length, foldUtf8From_skip]
      rfl
    · have none_ : sequenceAt (Fin.ofNat 65536 lead) (byteText more ++ rest) = none := by
        rw [reads, if_neg unit]
      rw [own, List.cons_append, foldOverlongUtf8_keep none_,
        foldOverlongUtf8_continuations (continuation_byteText tail), reread, if_neg unit, whole]
      rfl
  · have small : c.val < 0x10000 := by omega
    have ascii : (Fin.ofNat 65536 c.val : JChar).val < 0x80 := by
      rw [val_byte (by omega)]
      omega
    rw [bytes, reread, if_pos (by omega), if_pos small, units_small small, List.singleton_append,
      foldOverlongUtf8_keep (sequenceAt_ascii ascii _)]
    rfl

theorem foldOverlongUtf8_flatMap_bytes (scalars : Scalars name) :
    foldOverlongUtf8 (name.flatMap bytes) = name.flatMap reread := by
  induction name with
  | nil => rfl
  | cons c name ih =>
      obtain ⟨scalar, scalars⟩ := scalars_cons.1 scalars
      rw [List.flatMap_cons, foldOverlongUtf8_bytes scalar, ih scalars]
      rfl

/-! ## The case folded bytes -/

theorem lower_units_ascii (small : c.val < 0x80) :
    lower U (units c) = [Fin.ofNat 65536 (lowerAscii c.val)] := by
  have val : (Fin.ofNat 65536 c.val : JChar).val = c.val := val_byte (by omega)
  have ascii : (Fin.ofNat 65536 c.val : JChar).val < 0x80 := by
    rw [val]
    exact small
  rw [units_small (by omega), lower_cons_ascii ascii, val]
  rfl

theorem lower_byteText (law : FoldsLatin U) {ns : List Nat}
    (all : ∀ n ∈ ns, 0x80 ≤ n ∧ n < 0x100) :
    lower U (byteText ns) = byteText (ns.map latinShift) := by
  induction ns with
  | nil => rfl
  | cons n ns ih =>
      obtain ⟨⟨wide, narrow⟩, later⟩ := List.forall_mem_cons.1 all
      have val : (Fin.ofNat 65536 n : JChar).val = n := val_byte narrow
      have alone : isHighSurrogate (Fin.ofNat 65536 n) = false := by
        rw [Bool.eq_false_iff, ne_eq, isHighSurrogate_iff, val]
        omega
      have point : (codePoint (Fin.ofNat 65536 n)).val = n := val
      have shifted := law (codePoint (Fin.ofNat 65536 n)) (by omega) (by omega)
      have bound : latinShift n < 0x10000 := by
        rw [latinShift]
        split_ifs <;> omega
      rw [point] at shifted
      have own := lower_single (U := U) alone (byteText ns)
      rw [units_small (by omega), shifted, ih later] at own
      exact own

theorem bytes_wide (wide : 0x80 ≤ c.val) : bytes c = byteText (utf8Bytes c.val) :=
  if_neg (by omega)

/-- The fold of the bytes, with the lead byte set apart. -/
theorem exists_lower_bytes (law : FoldsLatin U) (wide : 0x80 ≤ c.val)
    (scalar : isScalar c = true) : ∃ lead more, utf8Bytes c.val = lead :: more ∧
      (0xc2 ≤ lead ∧ lead ≤ 0xf4) ∧ (∀ n ∈ more, 0x80 ≤ n ∧ n ≤ 0xbf) ∧
      (lead < 0xe0 → more.length = 1) ∧
      lower U (bytes c) = Fin.ofNat 65536 (latinShift lead) :: byteText more := by
  obtain ⟨lead, more, whole, bounds, tail, -, short, -⟩ := exists_sequence wide scalar
  have all : ∀ n ∈ lead :: more, 0x80 ≤ n ∧ n < 0x100 := by
    refine List.forall_mem_cons.2 ⟨by omega, fun n mem => ?_⟩
    have inside := tail n mem
    omega
  have same : more.map latinShift = more := by
    conv_rhs => rw [← List.map_id more]
    refine List.map_congr_left fun n mem => if_neg ?_
    have inside := tail n mem
    omega
  refine ⟨lead, more, whole, bounds, tail, fun small => (short small).1, ?_⟩
  rw [bytes_wide wide, whole, lower_byteText law all, List.map_cons, same]
  rfl

theorem latinShift_bounds {n : Nat} (low : 0xc2 ≤ n) (high : n ≤ 0xf4) :
    0xc2 ≤ latinShift n ∧ latinShift n < 0x100 := by
  rw [latinShift]
  split_ifs <;> omega

/-- The case folded bytes are read again where the lead byte was no capital; where it was, what
follows is too short for what it announces now. -/
theorem foldOverlongUtf8_lowered (law : FoldsLatin U) (scalar : isScalar c = true)
    (stop : ∀ d ∈ rest.head?, ¬ isContinuation d) :
    foldOverlongUtf8 (lower U (bytes c) ++ rest) = refolded U c ++ foldOverlongUtf8 rest := by
  by_cases wide : 0x80 ≤ c.val
  · obtain ⟨lead, more, whole, bounds, tail, short, own⟩ := exists_lower_bytes law wide scalar
    cases capital : capitalLead c with
    | false =>
        have kept : latinShift lead = lead := by
          refine if_neg fun inside => ?_
          rw [capitalLead, whole] at capital
          simp [inside] at capital
        have same : lower U (bytes c) = bytes c := by
          rw [own, kept, bytes_wide wide, whole]
          rfl
        have other : ¬ (c.val < 0x80 ∨ capitalLead c = true) := by
          rw [capital]
          simp only [Bool.false_eq_true, or_false]
          omega
        rw [same, refolded, if_neg other]
        exact foldOverlongUtf8_bytes scalar rest
    | true =>
        have upper : 0xc0 ≤ lead ∧ lead ≤ 0xde ∧ lead ≠ 0xd7 := by
          rw [capitalLead, whole] at capital
          simpa [and_assoc] using capital
        obtain ⟨n, rfl⟩ := List.length_eq_one_iff.1 (short (by omega))
        have shift : latinShift lead = lead + 0x20 := if_pos upper
        have none_ : sequenceAt (Fin.ofNat 65536 (lead + 0x20)) (byteText [n] ++ rest) = none := by
          rw [Option.eq_none_iff_forall_ne_some]
          rintro ⟨folded, extra⟩ found
          obtain ⟨announced, some_, long, all⟩ := of_sequenceAt found
          have two : 2 ≤ extra := by
            rw [extraBytes_byte (by omega)] at announced
            split_ifs at announced <;> omega
          cases rest with
          | nil =>
              simp only [List.append_nil, byteText, List.map_cons, List.map_nil,
                List.length_singleton] at long
              omega
          | cons d rest =>
              obtain ⟨m, rfl⟩ : ∃ m, extra = m + 2 := ⟨extra - 2, by omega⟩
              exact stop d rfl (all d (by simp [byteText]))
        have cont : ∀ d ∈ byteText [n], isContinuation d := continuation_byteText tail
        rw [refolded, if_pos (.inr capital), own, shift, List.cons_append,
          foldOverlongUtf8_keep none_, foldOverlongUtf8_continuations cont]
        rfl
  · have small : c.val < 0x80 := by omega
    have ascii : (Fin.ofNat 65536 (lowerAscii c.val) : JChar).val < 0x80 := by
      have bound := lowerAscii_lt small
      rw [val_byte (by omega)]
      exact bound
    rw [refolded, if_pos (.inl small), bytes, if_pos small, lower_units_ascii small,
      List.singleton_append, foldOverlongUtf8_keep (sequenceAt_ascii ascii _)]
    rfl

/-- No block of case folded bytes starts as the rest of a sequence does. -/
theorem head_lowered (law : FoldsLatin U) (scalars : Scalars name) :
    ∀ d ∈ (name.flatMap fun c => lower U (bytes c)).head?, ¬ isContinuation d := by
  cases name with
  | nil => exact nofun
  | cons c name =>
      obtain ⟨scalar, -⟩ := scalars_cons.1 scalars
      intro d mem
      rw [List.flatMap_cons] at mem
      by_cases wide : 0x80 ≤ c.val
      · obtain ⟨lead, more, -, bounds, -, -, own⟩ := exists_lower_bytes law wide scalar
        have high := latinShift_bounds bounds.1 bounds.2
        rw [own] at mem
        obtain rfl := Option.some.inj mem
        rw [isContinuation, val_byte high.2]
        omega
      · have small : c.val < 0x80 := by omega
        have bound := lowerAscii_lt small
        rw [bytes, if_pos small, lower_units_ascii small] at mem
        obtain rfl := Option.some.inj mem
        rw [isContinuation, val_byte (by omega)]
        omega

theorem foldOverlongUtf8_flatMap_lowered (law : FoldsLatin U) (scalars : Scalars name) :
    foldOverlongUtf8 (name.flatMap fun c => lower U (bytes c)) = name.flatMap (refolded U) := by
  induction name with
  | nil => rfl
  | cons c name ih =>
      obtain ⟨scalar, scalars⟩ := scalars_cons.1 scalars
      rw [List.flatMap_cons, foldOverlongUtf8_lowered law scalar (head_lowered law scalars),
        ih scalars]
      rfl

/-! ## Escapes -/

theorem percentEncodeUtf8_single {d : JChar} (alone : isHighSurrogate d = false) (s : JString) :
    percentEncodeUtf8 upperHex (d :: s) =
      (if d.val < 0x80 then [d] else (utf8Bytes d.val).flatMap (percentByte upperHex)) ++
        percentEncodeUtf8 upperHex s := by
  cases s with
  | nil => simp [percentEncodeUtf8]
  | cons e s =>
      rw [percentEncodeUtf8, alone, Bool.false_and, if_neg Bool.false_ne_true]
      split
      · rfl
      · rfl

/-- Encoding renders the characters of a text as their escapes. -/
theorem percentEncodeUtf8_utf16 (upperHex : Bool) (scalars : Scalars name) :
    percentEncodeUtf8 upperHex (utf16 name) = name.flatMap (escaped upperHex) := by
  induction name with
  | nil => rfl
  | cons c name ih =>
      obtain ⟨scalar, scalars⟩ := scalars_cons.1 scalars
      rw [isScalar_iff] at scalar
      rw [utf16_cons, List.flatMap_cons, ← ih scalars, escaped]
      by_cases small : c.val < 0x10000
      · have val : (Fin.ofNat 65536 c.val : JChar).val = c.val := val_unit small
        have alone : isHighSurrogate (Fin.ofNat 65536 c.val) = false := by
          rw [Bool.eq_false_iff, ne_eq, isHighSurrogate_iff, val]
          omega
        rw [units_small small, List.singleton_append, percentEncodeUtf8_single alone, val]
      · obtain ⟨high, low, halves, isHigh, isLow, point⟩ := exists_pair small
        have wide : ¬ high.val < 0x80 := by
          rw [isHighSurrogate_iff] at isHigh
          omega
        rw [halves, List.cons_append, List.singleton_append, percentEncodeUtf8, if_neg wide, isHigh,
          isLow, Bool.and_self, if_pos rfl, point, if_neg (by omega)]

/-- Whatever is left inert, an escaped byte beyond ASCII is decoded. -/
theorem decodeOnce_wideByte (i : Bool) {byte : Nat} (wide : 0x80 ≤ byte) (narrow : byte < 0x100)
    (rest : JString) : decodeOnce i (percentByte upperHex byte ++ rest) =
      Fin.ofNat 65536 byte :: decodeOnce i rest := by
  have val : (Fin.ofNat 65536 byte : JChar).val = byte := val_byte narrow
  have solidus : (Fin.ofNat 65536 byte : JChar) ≠ slash := by
    intro same
    have bound : slash.val < 0x80 := by decide
    rw [← same, val] at bound
    omega
  have reverse : (Fin.ofNat 65536 byte : JChar) ≠ backslash := by
    intro same
    have bound : backslash.val < 0x80 := by decide
    rw [← same, val] at bound
    omega
  have found : escape i percent (hexChar upperHex (byte / 16)) (hexChar upperHex (byte % 16)) =
      some (Fin.ofNat 65536 byte) := by
    rw [escape, if_pos rfl, hexDigit_hexChar upperHex (by omega),
      hexDigit_hexChar upperHex (by omega)]
    simp only [show byte / 16 * 16 + byte % 16 = byte by omega,
      beq_eq_false_iff_ne.2 solidus, beq_eq_false_iff_ne.2 reverse, Bool.or_self, Bool.and_false,
      Bool.false_eq_true, if_false]
  rw [percentByte, List.cons_append, List.cons_append, List.cons_append, List.nil_append, decodeOnce,
    found]

theorem utf8Bytes_bounds (wide : 0x80 ≤ c.val) (scalar : isScalar c = true) :
    ∀ n ∈ utf8Bytes c.val, 0x80 ≤ n ∧ n < 0x100 := by
  obtain ⟨lead, more, whole, bounds, tail, -⟩ := exists_sequence wide scalar
  rw [whole]
  refine List.forall_mem_cons.2 ⟨by omega, fun n mem => ?_⟩
  have inside := tail n mem
  omega

theorem decodeOnce_escaped (i : Bool) (plain : c.val ≠ 0x25) (scalar : isScalar c = true)
    (rest : JString) :
    decodeOnce i (escaped upperHex c ++ rest) = bytes c ++ decodeOnce i rest := by
  rw [escaped, bytes]
  by_cases small : c.val < 0x80
  · have other : (Fin.ofNat 65536 c.val : JChar) ≠ percent := by
      rw [ne_eq, Fin.ext_iff, percent_val, val_byte (by omega)]
      exact plain
    rw [if_pos small, if_pos small, units_small (by omega), List.singleton_append,
      decodeOnce_copy other]
    rfl
  · have all := utf8Bytes_bounds (by omega) scalar
    rw [if_neg small, if_neg small]
    generalize utf8Bytes c.val = ns at all ⊢
    induction ns with
    | nil => rfl
    | cons byte more ih =>
        obtain ⟨first, later⟩ := List.forall_mem_cons.1 all
        rw [List.flatMap_cons, List.append_assoc, decodeOnce_wideByte i first.1 first.2, ih later]
        rfl

theorem rounds_plain (i : Bool) (n : Nat) (plain : percent ∉ s) :
    rounds (decodeOnce i) n s = s := by
  have fixed : decodeOnce i s = s := by
    have whole := decodeOnce_append (i := i) (fun d mem same => plain (same ▸ mem)) []
    rw [List.append_nil] at whole
    rw [whole]
    exact List.append_nil s
  rw [rounds_eq, Function.iterate_fixed fixed]

theorem bytes_plain (plain : ∀ c ∈ name, c.val ≠ 0x25) (scalars : Scalars name) :
    percent ∉ name.flatMap bytes := by
  intro mem
  obtain ⟨c, among, inside⟩ := List.mem_flatMap.1 mem
  rw [bytes] at inside
  split at inside
  · rw [units_small (by omega), List.mem_singleton, Fin.ext_iff, percent_val,
      val_byte (by omega)] at inside
    exact plain c among inside.symm
  · obtain ⟨n, byte, same⟩ := List.mem_map.1 inside
    have bounds := utf8Bytes_bounds (by omega) (scalars c among) n byte
    rw [Fin.ext_iff, percent_val, val_byte bounds.2] at same
    omega

/-- One round decodes the escapes. -/
theorem decodeOnce_escaped_name (i : Bool) (plain : ∀ c ∈ name, c.val ≠ 0x25)
    (scalars : Scalars name) :
    decodeOnce i (name.flatMap (escaped upperHex)) = name.flatMap bytes := by
  induction name with
  | nil => rfl
  | cons c name ih =>
      obtain ⟨scalar, scalars⟩ := scalars_cons.1 scalars
      obtain ⟨first, later⟩ := List.forall_mem_cons.1 plain
      rw [List.flatMap_cons, decodeOnce_escaped i first scalar, ih later scalars]
      rfl

/-- One round decodes the escapes, and leaves none. -/
theorem rounds_escaped_name (i : Bool) (n : Nat) (plain : ∀ c ∈ name, c.val ≠ 0x25)
    (scalars : Scalars name) :
    rounds (decodeOnce i) (n + 1) (name.flatMap (escaped upperHex)) = name.flatMap bytes := by
  rw [rounds_eq, Function.iterate_succ_apply, decodeOnce_escaped_name i plain scalars, ← rounds_eq,
    rounds_plain i n (bytes_plain plain scalars)]

/-! ## What is escaped is read back -/

theorem reread_codePoint (d : JChar) : reread (codePoint d) = [d] := by
  have unit : (codePoint d).val < 0x10000 := d.isLt
  rw [reread, if_pos unit, units_codePoint]

/-- A string without a half of a pair, and its text. -/
theorem utf16_codePoints (s : JString) : utf16 (s.map codePoint) = s := by
  induction s with
  | nil => rfl
  | cons d s ih =>
      rw [List.map_cons, utf16_cons, units_codePoint, ih]
      rfl

theorem scalars_codePoints
    (single : ∀ d ∈ s, isHighSurrogate d = false ∧ isLowSurrogate d = false) :
    Scalars (s.map codePoint) := by
  intro c mem
  obtain ⟨d, inside, rfl⟩ := List.mem_map.1 mem
  obtain ⟨high, low⟩ := single d inside
  have val : (codePoint d).val = d.val := rfl
  rw [Bool.eq_false_iff, ne_eq, isHighSurrogate_iff] at high
  rw [Bool.eq_false_iff, ne_eq, isLowSurrogate_iff] at low
  rw [isScalar_iff, val]
  omega

/-- A string of characters of the basic plane, none a percent sign, is read back from its escapes:
no byte of one character is taken for a part of the next. -/
theorem foldOverlongUtf8_decodeOnce_percentEncodeUtf8 (upperHex : Bool) (s : JString)
    (single : ∀ d ∈ s, isHighSurrogate d = false ∧ isLowSurrogate d = false)
    (plain : percent ∉ s) :
    foldOverlongUtf8 (decodeOnce false (percentEncodeUtf8 upperHex s)) = s := by
  have scalars := scalars_codePoints single
  have unescaped : ∀ c ∈ s.map codePoint, c.val ≠ 0x25 := by
    intro c mem same
    obtain ⟨d, inside, rfl⟩ := List.mem_map.1 mem
    exact plain (Fin.ext (percent_val.trans same.symm) ▸ inside)
  have text : percentEncodeUtf8 upperHex s = (s.map codePoint).flatMap (escaped upperHex) := by
    rw [← percentEncodeUtf8_utf16 upperHex scalars, utf16_codePoints]
  rw [text, decodeOnce_escaped_name false unescaped scalars, foldOverlongUtf8_flatMap_bytes scalars,
    List.flatMap_map]
  simp only [reread_codePoint]
  exact List.flatMap_singleton' s

theorem foldOverlongUtf8_euro :
    foldOverlongUtf8 (decodeOnce false (percentEncodeUtf8 true [0x61, 0xe9, 0x20ac])) =
      [0x61, 0xe9, 0x20ac] := by
  refine foldOverlongUtf8_decodeOnce_percentEncodeUtf8 true [0x61, 0xe9, 0x20ac] ?_ ?_
  · intro d mem
    simp only [List.mem_cons, List.not_mem_nil, or_false] at mem
    rcases mem with rfl | rfl | rfl
    all_goals exact ⟨rfl, rfl⟩
  · simp [percent, ch]

end Hx.Policy
