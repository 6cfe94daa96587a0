import Hx.Policy.Verdict

/-!
# Where stars come from

A spelling is used as a glob, so a `*` that decoding manufactures authorises a family of
paths the operator did not type. Case folding, the letter fold and encoding make no star.
Decoding makes one of each `%2a`, and reading bytes as UTF-8 one of each overlong form.
-/

namespace Hx.Policy

open Hx.Java Hx.Library

variable {U : CaseMap} {s : JString}

/-- How many metacharacters a glob holds. -/
def stars (s : JString) : Nat := s.count star

@[simp] theorem stars_nil : stars [] = 0 := rfl

@[simp] theorem stars_append (a b : JString) : stars (a ++ b) = stars a + stars b :=
  List.count_append

theorem stars_cons (c : JChar) (s : JString) :
    stars (c :: s) = stars s + if c = star then 1 else 0 := by
  simp [stars, List.count_cons]

theorem stars_eq_zero : stars s = 0 ↔ star ∉ s := List.count_eq_zero

theorem star_val : star.val = 0x2a := by decide

theorem eq_star_iff {c : JChar} : c = star ↔ c.val = 0x2a := by
  rw [← star_val]
  exact Fin.ext_iff

/-! ## Folds make no star -/

theorem stars_units (cp : CodePoint) : stars (units cp) = if cp.val = 0x2a then 1 else 0 := by
  have bound := cp.isLt
  unfold units
  split
  · rw [stars_cons, stars_nil]
    simp only [eq_star_iff, Fin.val_ofNat]
    rw [Nat.mod_eq_of_lt (by omega)]
    simp
  · rw [stars_cons, stars_cons, stars_nil]
    simp only [eq_star_iff, Fin.val_ofNat]
    rw [if_neg (by omega), if_neg (by omega), if_neg (by omega)]

/-- The simple lower-case mapping makes no star and loses none. -/
theorem toLowerCase_star (cp : CodePoint) :
    (U.toLowerCase cp).val = 0x2a ↔ cp.val = 0x2a := by
  by_cases small : cp.val < 0x80
  · rw [U.ascii cp small, lowerAscii]
    split <;> omega
  · have letters := U.letters cp (by omega)
    omega

theorem stars_units_toLowerCase (c : JChar) :
    stars (units (U.toLowerCase (codePoint c))) = if c = star then 1 else 0 := by
  simp only [stars_units, toLowerCase_star, eq_star_iff]
  rfl

theorem stars_lower (s : JString) : stars (lower U s) = stars s := by
  induction s using lower.induct with
  | case1 => rfl
  | case2 c =>
      rw [lower, stars_units_toLowerCase, stars_cons, stars_nil, Nat.zero_add]
  | case3 high low rest pair ih =>
      simp only [isHighSurrogate, isLowSurrogate, Bool.and_eq_true, decide_eq_true_eq] at pair
      have supplementary : ¬ (pairPoint high low).val = 0x2a := by
        simp only [pairPoint, Fin.val_ofNat]
        omega
      rw [lower, if_pos (by simpa [isHighSurrogate, isLowSurrogate] using pair), stars_append, ih,
        stars_units, if_neg (toLowerCase_star _ |>.not.2 supplementary), stars_cons, stars_cons,
        if_neg (by rw [eq_star_iff]; omega), if_neg (by rw [eq_star_iff]; omega)]
      omega
  | case4 high low rest single ih =>
      rw [lower, if_neg single, stars_append, ih, stars_units_toLowerCase, stars_cons high,
        Nat.add_comm]

theorem stars_foldBestFitLetters (s : JString) : stars (foldBestFitLetters s) = stars s := by
  induction s with
  | nil => rfl
  | cons c s ih =>
      have kept : (if isLetterOrDigit (bestFit c) then bestFit c else c) = star ↔ c = star := by
        split
        · rename_i letter
          constructor
          · intro fits
            rw [fits] at letter
            exact absurd letter (by decide)
          · rintro rfl
            exact absurd letter (by decide)
        · exact Iff.rfl
      have folded : foldBestFitLetters (c :: s) =
          (if isLetterOrDigit (bestFit c) then bestFit c else c) :: foldBestFitLetters s := rfl
      rw [folded, stars_cons, stars_cons, ih]
      simp only [kept]

theorem stars_percentByte (upperHex : Bool) {b : Nat} (byte : b < 0x100) :
    stars (percentByte upperHex b) = 0 := by
  have digit : ∀ n, n < 16 → hexChar upperHex n ≠ star := by
    intro n small
    rw [Ne, eq_star_iff]
    unfold hexChar
    split
    · simp only [Fin.val_ofNat]
      omega
    · cases upperHex <;> simp only [Fin.val_ofNat] <;> simp <;> omega
  have high := digit (b / 16) (by omega)
  have low := digit (b % 16) (by omega)
  have lead : percent ≠ star := by decide
  simp [percentByte, stars_cons, high, low, lead]

theorem utf8Bytes_lt {cp b : Nat} (bound : cp < 0x110000) (h : b ∈ utf8Bytes cp) : b < 0x100 := by
  unfold utf8Bytes at h
  split_ifs at h <;> simp only [List.mem_cons, List.not_mem_nil, or_false] at h <;> omega

theorem stars_escaped (upperHex : Bool) {cp : Nat} (bound : cp < 0x110000) :
    stars ((utf8Bytes cp).flatMap (percentByte upperHex)) = 0 := by
  rw [stars_eq_zero, List.mem_flatMap]
  rintro ⟨b, byte, among⟩
  exact stars_eq_zero.1 (stars_percentByte upperHex (utf8Bytes_lt bound byte)) among

/-- Encoding copies the stars and makes none. -/
theorem stars_percentEncodeUtf8 (upperHex : Bool) (s : JString) :
    stars (percentEncodeUtf8 upperHex s) = stars s := by
  have wide : ∀ c : JChar, ¬ c.val < 0x80 → c ≠ star := by
    intro c large
    rw [Ne, eq_star_iff]
    omega
  have bound : ∀ c : JChar, c.val < 0x110000 := fun c => by omega
  induction s using percentEncodeUtf8.induct with
  | case1 => rfl
  | case2 c small => simp [percentEncodeUtf8, small]
  | case3 c large =>
      rw [percentEncodeUtf8, if_neg large, stars_escaped upperHex (bound c), stars_cons, stars_nil,
        if_neg (wide c large)]
  | case4 c next rest small ih =>
      rw [percentEncodeUtf8, if_pos small, stars_cons, ih, stars_cons c]
  | case5 c next rest large pair ih =>
      have low : next ≠ star := by
        simp only [isHighSurrogate, isLowSurrogate, Bool.and_eq_true, decide_eq_true_eq] at pair
        rw [Ne, eq_star_iff]
        omega
      rw [percentEncodeUtf8, if_neg large, if_pos pair, stars_append,
        stars_escaped upperHex (pairPoint c next).isLt, ih, stars_cons, stars_cons,
        if_neg (wide c large), if_neg low]
      omega
  | case6 c next rest large single ih =>
      rw [percentEncodeUtf8, if_neg large, if_neg single, stars_append,
        stars_escaped upperHex (bound c), ih, stars_cons c, if_neg (wide c large)]
      omega

/-! ## What decoding makes -/

theorem hexDigit_percent : hexDigit percent = none := by decide

/-- The characters of an escape. -/
theorem of_escape {inert : Bool} {c a b d : JChar} (h : escape inert c a b = some d) :
    c = percent ∧ (∃ hi, hexDigit a = some hi) ∧ ∃ lo, hexDigit b = some lo := by
  unfold escape at h
  split at h
  · split at h
    · exact ⟨‹_›, ⟨_, ‹_›⟩, ⟨_, ‹_›⟩⟩
    · cases h
  · cases h

theorem ne_percent_of_hexDigit {a : JChar} {n : Nat} (h : hexDigit a = some n) : a ≠ percent := by
  rintro rfl
  rw [hexDigit_percent] at h
  cases h

theorem ne_star_of_hexDigit {a : JChar} {n : Nat} (h : hexDigit a = some n) : a ≠ star := by
  rintro rfl
  have none_ : hexDigit star = none := by decide
  rw [none_] at h
  cases h

/-- The first character is copied unless an escape starts there. -/
theorem decodeOnce_cons (inert : Bool) (c : JChar) (s : JString) :
    (∃ a b rest d, s = a :: b :: rest ∧ escape inert c a b = some d ∧
      decodeOnce inert (c :: s) = d :: decodeOnce inert rest) ∨
    ((∀ a b rest, s = a :: b :: rest → escape inert c a b = none) ∧
      decodeOnce inert (c :: s) = c :: decodeOnce inert s) := by
  match s with
  | [] => exact .inr ⟨nofun, rfl⟩
  | [a] => exact .inr ⟨nofun, rfl⟩
  | a :: b :: rest =>
      cases found : escape inert c a b with
      | some d => exact .inl ⟨a, b, rest, d, rfl, found, by simp [decodeOnce, found]⟩
      | none =>
          refine .inr ⟨?_, by simp [decodeOnce, found]⟩
          rintro a' b' rest' same
          cases same
          exact found

theorem decodeOnce_copy {c : JChar} (plain : c ≠ percent) (inert : Bool) (s : JString) :
    decodeOnce inert (c :: s) = c :: decodeOnce inert s := by
  obtain ⟨a, b, rest, d, rfl, found, -⟩ | ⟨-, copied⟩ := decodeOnce_cons inert c s
  · exact absurd (of_escape found).1 plain
  · exact copied

/-- Some escape in the string is one of a star. -/
def escapesStar : JString → Bool
  | c :: a :: b :: rest => escape false c a b == some star || escapesStar (a :: b :: rest)
  | _ => false

theorem escapesStar_copy {c : JChar} (plain : c ≠ percent) (s : JString) :
    escapesStar (c :: s) = escapesStar s := by
  match s with
  | [] => rfl
  | [a] => rfl
  | a :: b :: rest =>
      have none_ : escape false c a b = none := by simp [escape, plain]
      simp [escapesStar, none_]

/-- A round keeps every star, and makes one of each escaped star. -/
theorem stars_decodeOnce (s : JString) : stars s ≤ stars (decodeOnce false s) ∧
    (stars (decodeOnce false s) = stars s ↔ escapesStar s = false) := by
  induction s using decodeOnce.induct false with
  | case1 c a b rest d found ih =>
      obtain ⟨rfl, ⟨hi, first⟩, lo, second⟩ := of_escape found
      have lead : percent ≠ star := by decide
      have consumed : stars (percent :: a :: b :: rest) = stars rest := by
        simp [stars_cons, lead, ne_star_of_hexDigit first, ne_star_of_hexDigit second]
      have onward : escapesStar (percent :: a :: b :: rest) =
          (d == star || escapesStar rest) := by
        rw [escapesStar, found, escapesStar_copy (ne_percent_of_hexDigit first),
          escapesStar_copy (ne_percent_of_hexDigit second)]
        rfl
      simp only [decodeOnce, found]
      rw [consumed, onward, stars_cons]
      by_cases made : d = star
      · simp only [made, if_true, beq_self_eq_true, Bool.true_or, Bool.true_eq_false, iff_false]
        omega
      · simpa [made] using ih
  | case2 c a b rest missing ih =>
      simp only [decodeOnce, missing]
      rw [stars_cons c (decodeOnce _ _), stars_cons c (a :: b :: rest)]
      have onward : escapesStar (c :: a :: b :: rest) = escapesStar (a :: b :: rest) := by
        simp [escapesStar, missing]
      rw [onward]
      constructor
      · omega
      · rw [← ih.2]
        omega
  | case3 short other =>
      have unchanged : decodeOnce false short = short := by
        rw [decodeOnce]
        exact other
      have none_ : escapesStar short = false := by
        rw [escapesStar]
        exact other
      simp [unchanged, none_]

theorem rounds_eq (once : JString → JString) (n : Nat) (s : JString) :
    rounds once n s = once^[n] s := by
  induction n generalizing s with
  | zero => rfl
  | succ n ih =>
      rw [rounds, Function.iterate_succ_apply]
      split
      · rename_i fixed
        rw [fixed, Function.iterate_fixed fixed]
      · exact ih _

/-- No round of decoding meets an escaped star. -/
def NoStarEscaped (s : JString) : Prop :=
  ∀ k < maxDecodeRounds, escapesStar ((decodeOnce false)^[k] s) = false

theorem stars_iterate (n : Nat) (s : JString) : stars s ≤ stars ((decodeOnce false)^[n] s) ∧
    (stars ((decodeOnce false)^[n] s) = stars s ↔
      ∀ k < n, escapesStar ((decodeOnce false)^[k] s) = false) := by
  induction n with
  | zero => simp
  | succ n ih =>
      obtain ⟨grows, exact_⟩ := stars_decodeOnce ((decodeOnce false)^[n] s)
      rw [Function.iterate_succ_apply', Nat.forall_lt_succ_right, ← ih.2, ← exact_]
      constructor
      · exact Nat.le_trans ih.1 grows
      · constructor <;> omega

theorem stars_decodeToFixedPoint (s : JString) : stars s ≤ stars (decodeToFixedPoint s) ∧
    (stars (decodeToFixedPoint s) = stars s ↔ NoStarEscaped s) := by
  rw [decodeToFixedPoint, rounds_eq]
  exact stars_iterate maxDecodeRounds s

/-! ## What reading as UTF-8 makes -/

def isContinuation (c : JChar) : Prop := 0x80 ≤ c.val ∧ c.val ≤ 0xbf

theorem extraBytes_continuation {c : JChar} (h : isContinuation c) : extraBytes c = 0 := by
  obtain ⟨low, high⟩ := h
  simp only [extraBytes]
  split_ifs <;> omega

theorem of_continuation {cp n : Nat} {s : JString} (h : continuation cp s = some n) :
    ∀ b ∈ s, isContinuation b := by
  induction s generalizing cp with
  | nil => simp
  | cons b s ih =>
      unfold continuation at h
      split at h
      · cases h
      · rename_i inside
        refine List.forall_mem_cons.2 ⟨?_, ih h⟩
        unfold isContinuation
        omega

/-- A sequence is a lead byte and its continuation bytes. -/
theorem of_sequenceAt {c d : JChar} {rest : JString} {extra : Nat}
    (h : sequenceAt c rest = some (d, extra)) :
    extraBytes c = extra ∧ extra ≠ 0 ∧ extra ≤ rest.length ∧
      ∀ b ∈ rest.take extra, isContinuation b := by
  simp only [sequenceAt] at h
  split at h
  · cases h
  · rename_i announced
    split at h
    · rename_i cp whole
      split at h
      · cases h
      · cases h
        refine ⟨rfl, ?_, ?_, of_continuation whole⟩ <;> omega
    · cases h

/-- The sequence that starts here is one of a star. -/
def readsStar (c : JChar) (rest : JString) : Bool := (sequenceAt c rest).any fun p => p.1 == star

/-- How many overlong forms of a star a string holds. -/
def overlongStars : JString → Nat
  | [] => 0
  | c :: rest => overlongStars rest + if readsStar c rest then 1 else 0

theorem readsStar_of_extraBytes {c : JChar} (alone : extraBytes c = 0) (rest : JString) :
    readsStar c rest = false := by
  simp [readsStar, sequenceAt, alone]

theorem stars_foldUtf8From (skip : Nat) (s : JString)
    (skipped : ∀ c ∈ s.take skip, isContinuation c) :
    stars (foldUtf8From skip s) = stars s + overlongStars s := by
  induction s generalizing skip with
  | nil => cases skip <;> rfl
  | cons c s ih =>
      cases skip with
      | succ skip =>
          have byte : isContinuation c := skipped c (by simp)
          have later : ∀ b ∈ s.take skip, isContinuation b :=
            fun b among => skipped b (by simp [among])
          have other : c ≠ star := by
            rw [Ne, eq_star_iff]
            unfold isContinuation at byte
            omega
          rw [foldUtf8From, ih skip later, stars_cons, if_neg other, overlongStars,
            readsStar_of_extraBytes (extraBytes_continuation byte)]
          rfl
      | zero =>
          cases found : sequenceAt c s with
          | none =>
              simp only [foldUtf8From, found, overlongStars, readsStar, stars_cons]
              rw [ih 0 (by simp)]
              simp
              omega
          | some p =>
              obtain ⟨d, extra⟩ := p
              obtain ⟨announced, some_, -, bytes⟩ := of_sequenceAt found
              have lead : c ≠ star := by
                rintro rfl
                exact some_ (announced.symm.trans (by decide))
              simp only [foldUtf8From, found, overlongStars, readsStar, stars_cons, lead]
              rw [ih extra bytes]
              simp
              omega

/-- Reading as UTF-8 keeps every star, and makes one of each overlong form. -/
theorem stars_foldOverlongUtf8 (s : JString) :
    stars (foldOverlongUtf8 s) = stars s + overlongStars s :=
  stars_foldUtf8From 0 s (by simp)

end Hx.Policy
