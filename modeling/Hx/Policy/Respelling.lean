import Hx.Policy.Stars

/-!
# Decoding two spellings side by side

`Respelt` relates two strings that differ in blocks one of them spells another way. A
round of decoding keeps such a relation when no block takes part in an escape that it is
not the whole of. Two instances: a decoded separator against the escape left inert, and
a character against the bytes of its UTF-8.
-/

namespace Hx.Policy

open Hx.Java Hx.Library

variable {U : CaseMap} {s t u v : JString} {c a b d : JChar} {i j upperHex : Bool}

inductive Respelt (Kept : JChar → Prop) (Block : JString → JString → Prop) :
    JString → JString → Prop where
  | nil : Respelt Kept Block [] []
  | keep {c : JChar} {s t : JString} : Kept c → Respelt Kept Block s t →
      Respelt Kept Block (c :: s) (c :: t)
  | block {u v s t : JString} : Block u v → Respelt Kept Block s t →
      Respelt Kept Block (u ++ s) (v ++ t)

variable {Kept : JChar → Prop} {Block Block' : JString → JString → Prop}

/-- A block starts with no hex digit, so that no escape in front of it reaches into it. -/
def Headed (u : JString) : Prop := ∃ c rest, u = c :: rest ∧ hexDigit c = none

theorem Headed.not_hexDigit {n : Nat} {rest : JString} (headed : Headed u)
    (same : u ++ s = c :: rest) (digit : hexDigit c = some n) : False := by
  obtain ⟨x, u', rfl, other⟩ := headed
  obtain ⟨rfl, -⟩ := List.cons.inj (show x :: (u' ++ s) = c :: rest from same)
  rw [other] at digit
  cases digit

theorem Respelt.refl (kept : ∀ c ∈ s, Kept c) : Respelt Kept Block s s := by
  induction s with
  | nil => exact .nil
  | cons c s ih => exact .keep (kept c (.head _)) (ih fun d among => kept d (.tail _ among))

/-- A hex digit on one side is the same digit on the other. -/
theorem Respelt.digit_left {n : Nat} (heads : ∀ {u v}, Block u v → Headed u ∧ Headed v)
    (digit : hexDigit c = some n) (h : Respelt Kept Block (c :: s) t) :
    ∃ t', t = c :: t' ∧ Respelt Kept Block s t' := by
  generalize whole : c :: s = left at h
  cases h with
  | nil => cases whole
  | keep kept h =>
      cases whole
      exact ⟨_, rfl, h⟩
  | block among h => exact ((heads among).1.not_hexDigit whole.symm digit).elim

theorem Respelt.digit_right {n : Nat} (heads : ∀ {u v}, Block u v → Headed u ∧ Headed v)
    (digit : hexDigit c = some n) (h : Respelt Kept Block s (c :: t)) :
    ∃ s', s = c :: s' ∧ Respelt Kept Block s' t := by
  generalize whole : c :: t = right at h
  cases h with
  | nil => cases whole
  | keep kept h =>
      cases whole
      exact ⟨_, rfl, h⟩
  | block among h => exact ((heads among).2.not_hexDigit whole.symm digit).elim

/-- What one round on each side makes of the blocks: the right side decodes no more than
the left, and an escape that only the left decodes becomes a block. -/
structure Rounds (i j : Bool) (Block Block' : JString → JString → Prop) : Prop where
  heads : ∀ {u v}, Block u v → Headed u ∧ Headed v
  blocks : ∀ {u v}, Block u v → ∃ v', Block' u v' ∧
    (∀ rest, decodeOnce i (u ++ rest) = u ++ decodeOnce i rest) ∧
    ∀ rest, decodeOnce j (v ++ rest) = v' ++ decodeOnce j rest
  fewer : ∀ {c a b d}, escape j c a b = some d → escape i c a b = some d
  inert : ∀ {c a b d}, escape i c a b = some d → escape j c a b = none → Block' [d] [c, a, b]

/-- A round keeps the relation. Where it decodes anything, anything may have been made. -/
theorem Respelt.decodeOnce (rounds : Rounds i j Block Block') (h : Respelt Kept Block s t)
    (free : decodeOnce i s ≠ s → ∀ d, Kept d) :
    Respelt Kept Block' (decodeOnce i s) (decodeOnce j t) := by
  induction length : s.length using Nat.strong_induction_on generalizing s t with
  | _ n ih =>
      subst length
      cases h with
      | nil => exact .nil
      | @block u v s t among h =>
          obtain ⟨v', among', left, right⟩ := rounds.blocks among
          obtain ⟨x, u', rfl, -⟩ := (rounds.heads among).1
          have shorter : s.length < (x :: u' ++ s).length := by
            rw [List.length_append, List.length_cons]
            omega
          rw [left, right]
          refine .block among' (ih s.length shorter h (fun changes => free ?_) rfl)
          rw [left]
          exact fun same => changes (List.append_cancel_left same)
      | @keep c s t kept h =>
          obtain ⟨a, b, rest, d, rfl, found, decoded⟩ | ⟨none_, copied⟩ := decodeOnce_cons i c s
          · obtain ⟨-, ⟨hi, first⟩, lo, second⟩ := of_escape found
            obtain ⟨t₁, rfl, h₁⟩ := h.digit_left rounds.heads first
            obtain ⟨t₂, rfl, h₂⟩ := h₁.digit_left rounds.heads second
            have shorter : Policy.decodeOnce i (c :: a :: b :: rest) ≠ c :: a :: b :: rest := by
              intro same
              have fewer := length_decodeOnce_le i rest
              rw [decoded] at same
              have lengths := congrArg List.length same
              simp only [List.length_cons] at lengths
              omega
            have after := ih rest.length (by simp only [List.length_cons]; omega) h₂ (fun _ => free shorter) rfl
            rw [decoded]
            cases found' : escape j c a b with
            | some d' =>
                obtain rfl : d' = d := Option.some.inj ((rounds.fewer found').symm.trans found)
                simp only [Policy.decodeOnce, found']
                exact .keep (free shorter d') after
            | none =>
                have right : Policy.decodeOnce j (c :: a :: b :: t₂) =
                    [c, a, b] ++ Policy.decodeOnce j t₂ := by
                  rw [Policy.decodeOnce, found']
                  show c :: Policy.decodeOnce j (a :: b :: t₂) = _
                  rw [decodeOnce_copy (ne_percent_of_hexDigit first),
                    decodeOnce_copy (ne_percent_of_hexDigit second)]
                  rfl
                rw [right]
                exact .block (rounds.inert found found') after
          · have right : Policy.decodeOnce j (c :: t) = c :: Policy.decodeOnce j t := by
              obtain ⟨a, b, rest, d, rfl, found, -⟩ | ⟨-, copied⟩ := decodeOnce_cons j c t
              · obtain ⟨-, ⟨hi, first⟩, lo, second⟩ := of_escape found
                obtain ⟨s₁, rfl, h₁⟩ := h.digit_right rounds.heads first
                obtain ⟨s₂, rfl, -⟩ := h₁.digit_right rounds.heads second
                have found' := rounds.fewer found
                rw [none_ a b s₂ rfl] at found'
                cases found'
              · exact copied
            rw [copied, right]
            refine .keep kept (ih s.length (by simp) h (fun changes => free ?_) rfl)
            rw [copied]
            exact fun same => changes (List.cons.inj same).2

/-- A string without an escape's lead is copied. -/
theorem decodeOnce_append (plain : ∀ c ∈ u, c ≠ percent) (rest : JString) :
    decodeOnce i (u ++ rest) = u ++ decodeOnce i rest := by
  induction u with
  | nil => rfl
  | cons c u ih =>
      rw [List.cons_append, decodeOnce_copy (plain c (.head _)),
        ih fun d among => plain d (.tail _ among)]
      rfl

/-! ## Separators left inert -/

/-- A separator, and an escape of it. -/
def InertBlock (u v : JString) : Prop :=
  ∃ sep a b, (sep = slash ∨ sep = backslash) ∧ u = [sep] ∧ v = [percent, a, b] ∧
    escape false percent a b = some sep

theorem escape_inert {sep : JChar} (separator : sep = slash ∨ sep = backslash)
    (found : escape false percent a b = some sep) : escape true percent a b = none := by
  obtain ⟨-, ⟨hi, first⟩, lo, second⟩ := of_escape found
  simp only [escape, first, second, if_true, Bool.false_and, Bool.false_eq_true, if_false,
    Option.some.injEq] at found ⊢
  rw [found]
  obtain rfl | rfl := separator <;> rfl

theorem rounds_inert : Rounds false true InertBlock InertBlock where
  heads := by
    rintro _ _ ⟨sep, a, b, separator, rfl, rfl, -⟩
    refine ⟨⟨sep, [], rfl, ?_⟩, ⟨percent, [a, b], rfl, hexDigit_percent⟩⟩
    obtain rfl | rfl := separator <;> decide
  blocks := by
    rintro _ _ ⟨sep, a, b, separator, rfl, rfl, found⟩
    refine ⟨_, ⟨sep, a, b, separator, rfl, rfl, found⟩, ?_, ?_⟩
    · refine decodeOnce_append fun c among => ?_
      obtain rfl := List.mem_singleton.1 among
      obtain rfl | rfl := separator <;> decide
    · intro rest
      obtain ⟨-, ⟨hi, first⟩, lo, second⟩ := of_escape found
      show decodeOnce true (percent :: a :: b :: rest) = _
      rw [decodeOnce, escape_inert separator found]
      show percent :: decodeOnce true (a :: b :: rest) = _
      rw [decodeOnce_copy (ne_percent_of_hexDigit first),
        decodeOnce_copy (ne_percent_of_hexDigit second)]
      rfl
  fewer := by
    intro c a b d found
    obtain ⟨rfl, ⟨hi, first⟩, lo, second⟩ := of_escape found
    simp only [escape, first, second, if_true] at found ⊢
    split at found
    · cases found
    · simpa using found
  inert := by
    intro c a b d found none_
    obtain ⟨rfl, ⟨hi, first⟩, lo, second⟩ := of_escape found
    refine ⟨d, a, b, ?_, rfl, rfl, found⟩
    simp only [escape, first, second, if_true, Bool.false_and, Bool.false_eq_true, if_false,
      Option.some.injEq] at found none_
    rw [found] at none_
    split at none_
    · rename_i separator
      simpa using separator
    · cases none_

theorem Respelt.iterate_inert (n : Nat) : Respelt (fun _ => True) InertBlock
    ((Policy.decodeOnce false)^[n] s) ((Policy.decodeOnce true)^[n] s) := by
  induction n with
  | zero => exact .refl fun _ _ => trivial
  | succ n ih =>
      rw [Function.iterate_succ_apply', Function.iterate_succ_apply']
      exact ih.decodeOnce rounds_inert fun _ _ => trivial

theorem Respelt.stars_eq (blocks : ∀ {u v}, Block u v → stars u = stars v)
    (h : Respelt Kept Block s t) : stars s = stars t := by
  induction h with
  | nil => rfl
  | keep _ _ ih => rw [stars_cons, stars_cons, ih]
  | block among _ ih => rw [stars_append, stars_append, ih, blocks among]

/-- Leaving the separators inert changes no star. -/
theorem stars_decodeSeparatorsInert (s : JString) :
    stars (decodeSeparatorsInert s) = stars (decodeToFixedPoint s) := by
  rw [decodeSeparatorsInert, decodeToFixedPoint, rounds_eq, rounds_eq]
  refine (Respelt.stars_eq ?_ (Respelt.iterate_inert maxDecodeRounds)).symm
  rintro _ _ ⟨sep, a, b, separator, rfl, rfl, found⟩
  obtain ⟨-, ⟨hi, first⟩, lo, second⟩ := of_escape found
  have lead : percent ≠ star := by decide
  have other : sep ≠ star := by obtain rfl | rfl := separator <;> decide
  simp [stars_cons, lead, other, ne_star_of_hexDigit first, ne_star_of_hexDigit second]

/-! ## Characters and their bytes -/

/-- Characters above ASCII, and the bytes of their UTF-8. -/
def Spelled (u : JString) (bytes : List Nat) : Prop :=
  ∃ cp, 0x80 ≤ cp ∧ cp < 0x110000 ∧ bytes = utf8Bytes cp ∧ u ≠ [] ∧ ∀ c ∈ u, 0x80 ≤ c.val

def byteText (bytes : List Nat) : JString := bytes.map (Fin.ofNat 65536)

def EscapedBlock (upperHex : Bool) (u v : JString) : Prop :=
  ∃ bytes, Spelled u bytes ∧ v = bytes.flatMap (percentByte upperHex)

def ByteBlock (u v : JString) : Prop := ∃ bytes, Spelled u bytes ∧ v = byteText bytes

theorem hexDigit_none_of_wide (wide : 0x80 ≤ c.val) : hexDigit c = none := by
  unfold hexDigit
  rw [if_neg (by omega), if_neg (by omega), if_neg (by omega)]

theorem percent_val : percent.val = 0x25 := by decide

theorem ne_percent_of_wide (wide : 0x80 ≤ c.val) : c ≠ percent := by
  rintro rfl
  rw [percent_val] at wide
  omega

/-- A byte of a character above ASCII: of a sequence, or the `?` of an unpaired surrogate. -/
theorem utf8Bytes_wide {cp b : Nat} (wide : 0x80 ≤ cp) (bound : cp < 0x110000)
    (h : b ∈ utf8Bytes cp) : b = 0x3f ∨ 0x80 ≤ b ∧ b < 0x100 := by
  unfold utf8Bytes at h
  split_ifs at h <;> simp only [List.mem_cons, List.not_mem_nil, or_false] at h <;> omega

theorem utf8Bytes_ne_nil (cp : Nat) : utf8Bytes cp ≠ [] := by
  unfold utf8Bytes
  split_ifs <;> simp

theorem hexDigit_hexChar (upperHex : Bool) {n : Nat} (small : n < 16) :
    hexDigit (hexChar upperHex n) = some n := by
  have digits : ∀ (upperHex : Bool) (n : Fin 16), hexDigit (hexChar upperHex n) = some n.val := by
    decide
  exact digits upperHex ⟨n, small⟩

/-- An escaped byte decodes to the byte. -/
theorem decodeOnce_percentByte {byte : Nat} (small : byte < 0x100) (rest : JString) :
    decodeOnce false (percentByte upperHex byte ++ rest) =
      Fin.ofNat 65536 byte :: decodeOnce false rest := by
  have found : escape false percent (hexChar upperHex (byte / 16)) (hexChar upperHex (byte % 16)) =
      some (Fin.ofNat 65536 byte) := by
    rw [escape, if_pos rfl, hexDigit_hexChar upperHex (by omega),
      hexDigit_hexChar upperHex (by omega)]
    simp only [Bool.false_and, Bool.false_eq_true, if_false]
    rw [show byte / 16 * 16 + byte % 16 = byte by omega]
  simp [percentByte, decodeOnce, found]

theorem decodeOnce_percentBytes {bytes : List Nat} (small : ∀ b ∈ bytes, b < 0x100)
    (rest : JString) : decodeOnce false (bytes.flatMap (percentByte upperHex) ++ rest) =
      byteText bytes ++ decodeOnce false rest := by
  induction bytes with
  | nil => rfl
  | cons byte bytes ih =>
      rw [List.flatMap_cons, List.append_assoc, decodeOnce_percentByte (small byte (.head _)),
        ih fun b among => small b (.tail _ among)]
      rfl

theorem byteText_copied {cp : Nat} (wide : 0x80 ≤ cp) (bound : cp < 0x110000) :
    ∀ c ∈ byteText (utf8Bytes cp), c ≠ percent ∧ hexDigit c = none := by
  intro c among
  obtain ⟨byte, listed, rfl⟩ := List.mem_map.1 among
  obtain rfl | high := utf8Bytes_wide wide bound listed
  · decide
  · have value : (Fin.ofNat 65536 byte : JChar).val = byte := Nat.mod_eq_of_lt (by omega)
    have above : 0x80 ≤ (Fin.ofNat 65536 byte : JChar).val := by omega
    exact ⟨ne_percent_of_wide above, hexDigit_none_of_wide above⟩

theorem Spelled.headed {bytes : List Nat} (spelled : Spelled u bytes) : Headed u := by
  obtain ⟨cp, -, -, -, nonempty, high⟩ := spelled
  obtain ⟨c, rest, rfl⟩ := List.exists_cons_of_ne_nil nonempty
  exact ⟨c, rest, rfl, hexDigit_none_of_wide (high c (.head _))⟩

theorem Spelled.copied {bytes : List Nat} (spelled : Spelled u bytes) (rest : JString) :
    decodeOnce i (u ++ rest) = u ++ decodeOnce i rest := by
  obtain ⟨cp, -, -, -, -, high⟩ := spelled
  exact decodeOnce_append (fun c among => ne_percent_of_wide (high c among)) rest

/-- The first round makes the bytes of the escapes. -/
theorem rounds_escaped : Rounds false false (EscapedBlock upperHex) ByteBlock where
  heads := by
    rintro _ _ ⟨bytes, spelled, rfl⟩
    refine ⟨spelled.headed, ?_⟩
    obtain ⟨cp, wide, bound, rfl, -, -⟩ := spelled
    obtain ⟨byte, rest, same⟩ := List.exists_cons_of_ne_nil (utf8Bytes_ne_nil cp)
    rw [same]
    exact ⟨percent, _, rfl, hexDigit_percent⟩
  blocks := by
    rintro _ _ ⟨bytes, spelled, rfl⟩
    refine ⟨_, ⟨bytes, spelled, rfl⟩, spelled.copied, decodeOnce_percentBytes ?_⟩
    obtain ⟨cp, wide, bound, rfl, -, -⟩ := spelled
    exact fun b among => utf8Bytes_lt bound among
  fewer := id
  inert := by
    intro c a b d found none_
    rw [found] at none_
    cases none_

/-- Later rounds copy the bytes. -/
theorem rounds_bytes : Rounds false false ByteBlock ByteBlock where
  heads := by
    rintro _ _ ⟨bytes, spelled, rfl⟩
    refine ⟨spelled.headed, ?_⟩
    obtain ⟨cp, wide, bound, rfl, -, -⟩ := spelled
    obtain ⟨byte, rest, same⟩ := List.exists_cons_of_ne_nil (utf8Bytes_ne_nil cp)
    have copied := (byteText_copied wide bound (Fin.ofNat 65536 byte) (by simp [byteText, same])).2
    rw [same]
    exact ⟨_, _, rfl, copied⟩
  blocks := by
    rintro _ _ ⟨bytes, spelled, rfl⟩
    refine ⟨_, ⟨bytes, spelled, rfl⟩, spelled.copied, decodeOnce_append ?_⟩
    obtain ⟨cp, wide, bound, rfl, -, -⟩ := spelled
    exact fun c among => (byteText_copied wide bound c among).1
  fewer := id
  inert := by
    intro c a b d found none_
    rw [found] at none_
    cases none_

/-- Encoding replaces the characters above ASCII and keeps the rest. -/
theorem respelt_percentEncodeUtf8 (kept : ∀ c : JChar, c.val < 0x80 → Kept c) (s : JString) :
    Respelt Kept (EscapedBlock upperHex) s (percentEncodeUtf8 upperHex s) := by
  have one : ∀ c : JChar, ¬ c.val < 0x80 → EscapedBlock upperHex [c]
      ((utf8Bytes c.val).flatMap (percentByte upperHex)) := by
    intro c large
    refine ⟨_, ⟨c.val, by omega, by omega, rfl, by simp, ?_⟩, rfl⟩
    intro d among
    obtain rfl := List.mem_singleton.1 among
    omega
  induction s using percentEncodeUtf8.induct with
  | case1 => exact .nil
  | case2 c small =>
      rw [percentEncodeUtf8, if_pos small]
      exact .keep (kept c small) .nil
  | case3 c large =>
      rw [percentEncodeUtf8, if_neg large]
      simpa using Respelt.block (one c large) Respelt.nil
  | case4 c next rest small ih =>
      rw [percentEncodeUtf8, if_pos small]
      exact .keep (kept c small) ih
  | case5 c next rest large pair ih =>
      rw [percentEncodeUtf8, if_neg large, if_pos pair]
      show Respelt _ _ ([c, next] ++ rest) _
      refine .block ⟨_, ⟨_, ?_, (pairPoint c next).isLt, rfl, by simp, ?_⟩, rfl⟩ ih
      · simp only [isHighSurrogate, isLowSurrogate, Bool.and_eq_true, decide_eq_true_eq] at pair
        simp only [pairPoint, Fin.val_ofNat]
        omega
      · simp only [isHighSurrogate, isLowSurrogate, Bool.and_eq_true, decide_eq_true_eq] at pair
        simp only [List.mem_cons, List.not_mem_nil, or_false, forall_eq_or_imp, forall_eq]
        omega
  | case6 c next rest large single ih =>
      rw [percentEncodeUtf8, if_neg large, if_neg single]
      exact .block (one c large) ih

/-- A string that decoding leaves alone keeps no character of its own above ASCII once its
encoded spelling is decoded. -/
def KeptOf (s : JString) (c : JChar) : Prop := decodeOnce false s = s → c.val < 0x80

/-- Decoding a string and decoding its encoded spelling differ in the bytes alone. -/
theorem respelt_decodeToFixedPoint (upperHex : Bool) (s : JString) :
    Respelt (KeptOf s) ByteBlock (decodeToFixedPoint s)
      (decodeToFixedPoint (percentEncodeUtf8 upperHex s)) := by
  have free : ∀ n, decodeOnce false ((decodeOnce false)^[n] s) ≠ (decodeOnce false)^[n] s →
      ∀ d, KeptOf s d := by
    intro n changes d fixed
    rw [Function.iterate_fixed fixed] at changes
    exact absurd fixed changes
  have later : ∀ n, Respelt (KeptOf s) ByteBlock ((decodeOnce false)^[n + 1] s)
      ((decodeOnce false)^[n + 1] (percentEncodeUtf8 upperHex s)) := by
    intro n
    induction n with
    | zero =>
        exact (respelt_percentEncodeUtf8 (fun c small _ => small) s).decodeOnce rounds_escaped
          (free 0)
    | succ n ih =>
        rw [Function.iterate_succ_apply', Function.iterate_succ_apply' _ (n + 1)]
        exact ih.decodeOnce rounds_bytes (free (n + 1))
  rw [decodeToFixedPoint, decodeToFixedPoint, rounds_eq, rounds_eq]
  exact later 15

/-! ## Stars of the two spellings -/

theorem Spelled.stars_bytes {bytes : List Nat} (spelled : Spelled u bytes) :
    stars u = 0 ∧ stars (byteText bytes) = 0 := by
  obtain ⟨cp, wide, bound, rfl, -, high⟩ := spelled
  rw [stars_eq_zero, stars_eq_zero]
  constructor
  · intro among
    have above := high star among
    rw [star_val] at above
    omega
  · intro among
    obtain ⟨byte, among, same⟩ := List.mem_map.1 among
    rw [eq_star_iff, Fin.val_ofNat] at same
    obtain rfl | above := utf8Bytes_wide wide bound among <;> omega

theorem stars_decode_percentEncodeUtf8 (upperHex : Bool) (s : JString) :
    stars (decodeToFixedPoint (percentEncodeUtf8 upperHex s)) = stars (decodeToFixedPoint s) := by
  refine ((respelt_decodeToFixedPoint upperHex s).stars_eq ?_).symm
  rintro _ _ ⟨bytes, spelled, rfl⟩
  rw [spelled.stars_bytes.1, spelled.stars_bytes.2]

theorem val_byte {n : Nat} (small : n < 0x100) : (Fin.ofNat 65536 n : JChar).val = n :=
  Nat.mod_eq_of_lt (by omega)

/-- A byte that starts no star is read past. -/
theorem overlongStars_copy {rest : JString} (other : readsStar c rest = false) :
    overlongStars (c :: rest) = overlongStars rest := by
  simp [overlongStars, other]

theorem readsStar_continuation {n : Nat} (low : 0x80 ≤ n) (high : n ≤ 0xbf) (rest : JString) :
    readsStar (Fin.ofNat 65536 n) rest = false := by
  refine readsStar_of_extraBytes (extraBytes_continuation ?_) rest
  rw [isContinuation, val_byte (by omega)]
  exact ⟨low, high⟩

theorem extraBytes_byte {n : Nat} (small : n < 0x100) : extraBytes (Fin.ofNat 65536 n) =
    if 0xf0 ≤ n ∧ n ≤ 0xf7 then 3 else if 0xe0 ≤ n ∧ n ≤ 0xef then 2
    else if 0xc0 ≤ n ∧ n ≤ 0xdf then 1 else 0 := by
  rw [extraBytes, val_byte small]

theorem continuation_cons {cp n : Nat} (low : 0x80 ≤ n) (high : n ≤ 0xbf) (rest : JString) :
    continuation cp (Fin.ofNat 65536 n :: rest) = continuation (cp * 64 + n % 64) rest := by
  rw [continuation, val_byte (by omega), if_neg (by omega)]

/-- A sequence that spells a character above ASCII is no star. -/
theorem readsStar_sequence {n cp : Nat} {tail : JString} (small : n < 0x100)
    (announced : extraBytes (Fin.ofNat 65536 n) = tail.length)
    (spells : continuation (n % 2 ^ (6 - tail.length)) tail = some cp) (wide : 0x80 ≤ cp)
    (rest : JString) : readsStar (Fin.ofNat 65536 n) (tail ++ rest) = false := by
  have unread : cp < 0x10000 → (Fin.ofNat 65536 cp : JChar) ≠ star := by
    intro unit
    rw [Ne, eq_star_iff, Fin.val_ofNat, Nat.mod_eq_of_lt unit]
    omega
  simp only [readsStar, sequenceAt, announced, val_byte small, List.take_left, spells]
  split
  · rfl
  · split
    · rfl
    · rename_i unit
      simpa using unread (by omega)

/-- The bytes of a character above ASCII read back as that character, so none of them
starts an overlong star, and none continues a sequence in front of them. -/
theorem byteText_utf8 {cp : Nat} (wide : 0x80 ≤ cp) (bound : cp < 0x110000) (rest : JString) :
    overlongStars (byteText (utf8Bytes cp) ++ rest) = overlongStars rest ∧
      ∃ c tail, byteText (utf8Bytes cp) = c :: tail ∧ ¬ isContinuation c := by
  have reads : ∀ (lead : Nat) (more : List Nat), lead < 0x100 → (∀ n ∈ more, 0x80 ≤ n ∧ n ≤ 0xbf) →
      extraBytes (Fin.ofNat 65536 lead) = more.length →
      continuation (lead % 2 ^ (6 - more.length)) (byteText more) = some cp →
      overlongStars (byteText (lead :: more) ++ rest) = overlongStars rest := by
    intro lead more small tail announced spells
    have length : (byteText more).length = more.length := List.length_map _
    have past : overlongStars (byteText more ++ rest) = overlongStars rest := by
      clear announced spells length
      induction more with
      | nil => rfl
      | cons n more ih =>
          have byte := tail n (.head _)
          exact (overlongStars_copy (readsStar_continuation byte.1 byte.2 _)).trans
            (ih fun m among => tail m (.tail _ among))
    rw [← length] at announced spells
    exact (overlongStars_copy (readsStar_sequence small announced spells wide rest)).trans past
  have starts : ∀ (lead : Nat) (more : List Nat), lead < 0x80 ∨ 0xbf < lead → lead < 0x100 →
      ∃ c tail, byteText (lead :: more) = c :: tail ∧ ¬ isContinuation c := by
    intro lead more outside small
    refine ⟨_, _, rfl, ?_⟩
    rw [isContinuation, val_byte small]
    omega
  unfold utf8Bytes
  rw [if_neg (by omega)]
  split_ifs with two surrogate three
  · refine ⟨reads _ _ (by omega) ?_ ?_ ?_, starts _ _ (by omega) (by omega)⟩
    · simp only [List.mem_singleton, forall_eq]
      omega
    · rw [extraBytes_byte (by omega), if_neg (by omega), if_neg (by omega), if_pos (by omega)]
      rfl
    · show continuation _ [_] = _
      rw [continuation_cons (by omega) (by omega), continuation]
      simp only [List.length_singleton, Option.some.injEq]
      omega
  · refine ⟨?_, starts 0x3f [] (by omega) (by omega)⟩
    exact overlongStars_copy (readsStar_of_extraBytes (by decide) rest)
  · refine ⟨reads _ _ (by omega) ?_ ?_ ?_, starts _ _ (by omega) (by omega)⟩
    · simp only [List.mem_cons, List.not_mem_nil, or_false, forall_eq_or_imp, forall_eq]
      omega
    · rw [extraBytes_byte (by omega), if_neg (by omega), if_pos (by omega)]
      rfl
    · show continuation _ [_, _] = _
      rw [continuation_cons (by omega) (by omega), continuation_cons (by omega) (by omega),
        continuation]
      simp only [List.length_cons, List.length_nil, Option.some.injEq]
      omega
  · refine ⟨reads _ _ (by omega) ?_ ?_ ?_, starts _ _ (by omega) (by omega)⟩
    · simp only [List.mem_cons, List.not_mem_nil, or_false, forall_eq_or_imp, forall_eq]
      omega
    · rw [extraBytes_byte (by omega), if_pos (by omega)]
      rfl
    · show continuation _ [_, _, _] = _
      rw [continuation_cons (by omega) (by omega), continuation_cons (by omega) (by omega),
        continuation_cons (by omega) (by omega), continuation]
      simp only [List.length_cons, List.length_nil, Option.some.injEq]
      omega

/-- Continuation bytes at the front are not of a block. -/
theorem Respelt.take {n : Nat} (h : Respelt Kept ByteBlock s t) (long : n ≤ t.length)
    (bytes : ∀ b ∈ t.take n, isContinuation b) : n ≤ s.length ∧ s.take n = t.take n := by
  induction h generalizing n with
  | nil => exact ⟨long, rfl⟩
  | keep kept h ih =>
      cases n with
      | zero => simp
      | succ n =>
          obtain ⟨long', same⟩ := ih (by simpa using long) fun b among => bytes b (by simp [among])
          simpa [same] using long'
  | block among h ih =>
      cases n with
      | zero => simp
      | succ n =>
          obtain ⟨_, ⟨cp, wide, bound, rfl, -, -⟩, rfl⟩ := among
          obtain ⟨c, tail, text, other⟩ := (byteText_utf8 wide bound []).2
          exact absurd (bytes c (by simp [text])) other

theorem Respelt.readsStar (h : Respelt Kept ByteBlock s t) (reads : readsStar c t = true) :
    Policy.readsStar c s = true := by
  unfold Policy.readsStar at reads ⊢
  cases found : sequenceAt c t with
  | none => simp [found] at reads
  | some p =>
      obtain ⟨d, extra⟩ := p
      obtain ⟨announced, some_, long, bytes⟩ := of_sequenceAt found
      obtain ⟨long', same⟩ := h.take long bytes
      have found' : sequenceAt c s = sequenceAt c t := by
        simp only [sequenceAt, announced, same]
        rw [if_neg (by omega), if_neg (by omega)]
      rw [found', found]
      simpa [found] using reads

theorem overlongStars_append_le (u s : JString) : overlongStars s ≤ overlongStars (u ++ s) := by
  induction u with
  | nil => exact Nat.le_refl _
  | cons c u ih =>
      rw [List.cons_append, overlongStars]
      omega

/-- The encoded spelling reads as no more stars; and as none where all it keeps is ASCII. -/
theorem Respelt.overlongStars_le (h : Respelt Kept ByteBlock s t) :
    overlongStars t ≤ overlongStars s ∧
      ((∀ c, Kept c → c.val < 0x80) → overlongStars t = 0) := by
  induction h with
  | nil => exact ⟨Nat.le_refl _, fun _ => rfl⟩
  | @keep c s t kept h ih =>
      constructor
      · rw [overlongStars, overlongStars]
        cases reads : Policy.readsStar c t with
        | false => simpa using Nat.le_trans ih.1 (Nat.le_add_right _ _)
        | true => simpa [h.readsStar reads] using ih.1
      · intro ascii
        have small := ascii c kept
        have alone : extraBytes c = 0 := by
          unfold extraBytes
          split_ifs <;> omega
        rw [overlongStars, ih.2 ascii, readsStar_of_extraBytes alone]
        rfl
  | @block u v s t among h ih =>
      obtain ⟨_, ⟨cp, wide, bound, rfl, -, -⟩, rfl⟩ := among
      rw [(byteText_utf8 wide bound t).1]
      exact ⟨Nat.le_trans ih.1 (overlongStars_append_le u s), ih.2⟩

end Hx.Policy
