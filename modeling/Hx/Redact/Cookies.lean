import Hx.Redact.Response

/-!
# What a cookie's value leaves behind

Two responses that differ in the values of the cookies they set, or in folds of these, are
redacted to the same bytes. All else in a head is kept, and so is what follows the heads.
-/

namespace Hx.Redact

/-! ## The heads of a response -/

/-- Lines of one head at one place; `c` is whether a fold here continues a cookie. -/
inductive Fields (R : Bool → Bytes → Bytes → Prop) : Bool → List Bytes → List Bytes → Prop
  | finished (c : Bool) : Fields R c [] []
  | line {c : Bool} {line line' : Bytes} {lines lines' : List Bytes}
      (some_ : contentOf line ≠ []) (alike : R c line line')
      (next : Fields R (cookieAfter c line) lines lines') :
      Fields R c (line :: lines) (line' :: lines')

/-- Lines of a response, head by head. Empty lines may stand before a head, and an empty line
ends it; the one that ends the first head that is not interim is followed by the body. -/
inductive Heads (R : Bool → Bytes → Bytes → Prop) : List Bytes → List Bytes → Prop
  | finished : Heads R [] []
  | empty {e : Bytes} {lines lines' : List Bytes} (empty : contentOf e = [])
      (next : Heads R lines lines') : Heads R (e :: lines) (e :: lines')
  | cut {line line' : Bytes} {lines lines' : List Bytes}
      (head : Fields R false (line :: lines) (line' :: lines')) :
      Heads R (line :: lines) (line' :: lines')
  | interim {line line' e : Bytes} {lines lines' rest rest' : List Bytes}
      (head : Fields R false (line :: lines) (line' :: lines')) (status : opensInterim line = true)
      (empty : contentOf e = []) (next : Heads R rest rest') :
      Heads R (line :: lines ++ e :: rest) (line' :: lines' ++ e :: rest')
  | final {line line' e : Bytes} {lines lines' : List Bytes} (body : List Bytes)
      (head : Fields R false (line :: lines) (line' :: lines'))
      (status : opensInterim line = false) (empty : contentOf e = []) :
      Heads R (line :: lines ++ e :: body) (line' :: lines' ++ e :: body)

/-- A field that sets a cookie: its name, blanks, a pair and the attributes. -/
def pairField (name blanks pair attributes : Bytes) : Bytes :=
  name ++ 58 :: (blanks ++ (pair ++ attributes))

/-- What stands around a pair in its field, and the end `e` of the line. -/
structure PairLine (name blanks pair attributes e : Bytes) : Prop where
  colon : 58 ∉ name
  named : isSetCookieName name = true
  blank : ∀ b ∈ blanks, isBlank b = true
  starts : ∀ b, pair.head? = some b → isBlank b = false
  plain : 59 ∉ pair
  behind : attributes = [] ∨ ∃ rest, attributes = 59 :: rest
  content : contentOf (pairField name blanks pair attributes ++ e) =
    pairField name blanks pair attributes

/-- Two lines of two heads at one place, alike but for the value of a cookie or a fold of it. -/
inductive CookiesAlike (c : Bool) : Bytes → Bytes → Prop
  | same (line : Bytes) : CookiesAlike c line line
  | value {name blanks cookie v v' attributes e : Bytes}
      (parts : PairLine name blanks (cookie ++ 61 :: v) attributes e) (named : 61 ∉ cookie)
      (value : v ≠ []) (value' : v' ≠ [] ∧ ∀ b ∈ v', b ∉ [13, 10, 59]) :
      CookiesAlike c (pairField name blanks (cookie ++ 61 :: v) attributes ++ e)
        (pairField name blanks (cookie ++ 61 :: v') attributes ++ e)
  | fold {blanks v v' e : Bytes} (continues : c = true) (some_ : blanks ≠ [])
      (blank : ∀ b ∈ blanks, isBlank b = true)
      (content : contentOf (blanks ++ (v ++ e)) = blanks ++ v)
      (starts : ∀ b, v.head? = some b → isBlank b = false) (value' : FieldValue v') :
      CookiesAlike c (blanks ++ (v ++ e)) (blanks ++ (v' ++ e))

/-- What becomes of a line of a head: only a cookie's value and the folds of a cookie go. -/
inductive LineKept (c : Bool) : Bytes → Bytes → Prop
  | line {line : Bytes} (fold : isFold line = true → c = false)
      (field : isFold line = false → isSetCookie (contentOf line) = false) : LineKept c line line
  | value {name blanks cookie v attributes e : Bytes}
      (parts : PairLine name blanks (cookie ++ 61 :: v) attributes e) (named : 61 ∉ cookie)
      (value : v ≠ []) :
      LineKept c (pairField name blanks (cookie ++ 61 :: v) attributes ++ e)
        (pairField name blanks (cookie ++ 61 :: observedCookie) attributes ++ e)
  | deletion {name blanks cookie attributes e : Bytes}
      (parts : PairLine name blanks (cookie ++ [61]) attributes e) (named : 61 ∉ cookie) :
      LineKept c (pairField name blanks (cookie ++ [61]) attributes ++ e)
        (pairField name blanks (cookie ++ [61]) attributes ++ e)
  | unnamed {name blanks pair attributes e : Bytes}
      (parts : PairLine name blanks pair attributes e) (unnamed : 61 ∉ pair) :
      LineKept c (pairField name blanks pair attributes ++ e)
        (pairField name blanks observedCookie attributes ++ e)
  | fold {blanks v e : Bytes} (continues : c = true) (some_ : blanks ≠ [])
      (blank : ∀ b ∈ blanks, isBlank b = true)
      (content : contentOf (blanks ++ (v ++ e)) = blanks ++ v)
      (starts : ∀ b, v.head? = some b → isBlank b = false) :
      LineKept c (blanks ++ (v ++ e)) (blanks ++ (observedCookie ++ e))

/-! ## A field that sets a cookie -/

section Field

variable {name blanks pair cookie v v' attributes e line : Bytes}

/-- What follows the blanks of a field does not begin with one. -/
theorem takeWhile_blanks_append (blank : ∀ b ∈ blanks, isBlank b = true)
    (starts : ∀ b, v.head? = some b → isBlank b = false) :
    (blanks ++ v).takeWhile isBlank = blanks ∧ (blanks ++ v).dropWhile isBlank = v := by
  rw [List.takeWhile_append_of_pos blank, List.dropWhile_append_of_pos blank]
  cases v with
  | nil => exact ⟨List.append_nil _, rfl⟩
  | cons b v =>
      rw [List.takeWhile_cons, List.dropWhile_cons, starts b rfl]
      exact ⟨List.append_nil _, rfl⟩

/-- A pair ends where its attributes begin. -/
theorem takeWhile_pair (plain : 59 ∉ pair)
    (behind : attributes = [] ∨ ∃ rest, attributes = 59 :: rest) :
    (pair ++ attributes).takeWhile (fun b => b != 59) = pair ∧
      (pair ++ attributes).dropWhile (fun b => b != 59) = attributes := by
  have inside : ∀ b ∈ pair, (b != 59) = true := fun b mem => bne_iff_ne.2 fun same =>
    plain (same ▸ mem)
  rw [List.takeWhile_append_of_pos inside, List.dropWhile_append_of_pos inside]
  obtain rfl | ⟨rest, rfl⟩ := behind
  · exact ⟨List.append_nil _, rfl⟩
  · exact ⟨List.append_nil _, rfl⟩

namespace PairLine

theorem starts_all (h : PairLine name blanks pair attributes e) :
    ∀ b, (pair ++ attributes).head? = some b → isBlank b = false := by
  intro b head
  cases pair with
  | cons c pair => exact h.starts b head
  | nil =>
      obtain rfl | ⟨rest, rfl⟩ := h.behind
      · contradiction
      · cases head
        rfl

theorem isFold_eq (h : PairLine name blanks pair attributes e) (t : Bytes) :
    isFold (name ++ t) = false := by
  obtain ⟨b, rest, rfl, first⟩ := head_of_setCookieName h.named
  exact isBlank_of_lower first

theorem isSetCookie_eq (h : PairLine name blanks pair attributes e) (t : Bytes) :
    isSetCookie (name ++ 58 :: t) = true := by
  have named := h.named
  obtain ⟨b, rest, rfl, -⟩ := head_of_setCookieName h.named
  have first : ((b :: rest) ++ 58 :: t).take (rest.length + 1) = b :: rest := List.take_left' rfl
  rw [isSetCookie, idxOf?_first h.colon, List.length_cons]
  simp only [first, named]

theorem redactSetCookie_eq (h : PairLine name blanks pair attributes e) :
    redactSetCookie (pairField name blanks pair attributes ++ e) =
      pairField name blanks (redactPair pair) attributes ++ e := by
  have drops : (pairField name blanks pair attributes).drop (name.length + 1) =
      blanks ++ (pair ++ attributes) := by
    rw [pairField, ← List.drop_drop, List.drop_left]
    rfl
  have takes : (pairField name blanks pair attributes).take (name.length + 1) = name ++ [58] := by
    have first : pairField name blanks pair attributes =
        (name ++ [58]) ++ (blanks ++ (pair ++ attributes)) := by
      rw [pairField, List.append_assoc]
      rfl
    have length : (name ++ [58]).length = name.length + 1 := List.length_append
    rw [first, ← length, List.take_left]
  have colon : (pairField name blanks pair attributes).idxOf 58 = name.length :=
    idxOf_colon h.colon
  obtain ⟨taken, dropped⟩ := takeWhile_blanks_append h.blank h.starts_all
  obtain ⟨own, rest⟩ := takeWhile_pair h.plain h.behind
  rw [redactSetCookie, h.content]
  simp only [colon, drops, takes, taken, dropped, own, rest, List.drop_left]
  simp only [pairField, List.append_assoc, List.cons_append, List.nil_append]

end PairLine

theorem redactPair_named (named : 61 ∉ cookie) (value : v ≠ []) :
    redactPair (cookie ++ 61 :: v) = cookie ++ 61 :: observedCookie := by
  have at' : (cookie ++ 61 :: v).idxOf? 61 = some cookie.length := idxOf?_first named
  have longer : cookie.length + 1 ≠ (cookie ++ 61 :: v).length := by
    have positive := List.length_pos_of_ne_nil value
    rw [List.length_append, List.length_cons]
    omega
  have takes : (cookie ++ 61 :: v).take (cookie.length + 1) = cookie ++ [61] := by
    have first : cookie ++ 61 :: v = (cookie ++ [61]) ++ v := by
      rw [List.append_assoc]
      rfl
    have length : (cookie ++ [61]).length = cookie.length + 1 := List.length_append
    rw [first, ← length, List.take_left]
  rw [redactPair, at']
  simp only [if_neg longer, takes, List.append_assoc]
  rfl

theorem redactPair_deletion (named : 61 ∉ cookie) :
    redactPair (cookie ++ [61]) = cookie ++ [61] := by
  have at' : (cookie ++ [61]).idxOf? 61 = some cookie.length := idxOf?_first named
  have whole : cookie.length + 1 = (cookie ++ [61]).length := by
    rw [List.length_append, List.length_singleton]
  rw [redactPair, at']
  exact if_pos whole

theorem redactPair_unnamed (unnamed : 61 ∉ pair) : redactPair pair = observedCookie := by
  have none_ : pair.idxOf? 61 = none := List.idxOf?_eq_none_iff.2 unnamed
  rw [redactPair, none_]

/-- What is written before the attributes or the end of a line does not move these. -/
theorem contentOf_replace {pre : Bytes}
    (content : contentOf (pre ++ v ++ attributes ++ e) = pre ++ v ++ attributes)
    (behind : attributes = [] ∨ ∃ rest, attributes = 59 :: rest)
    (last : v' ≠ []) (plain : ∀ b ∈ v', b ≠ 13 ∧ b ≠ 10) :
    contentOf (pre ++ v' ++ attributes ++ e) = pre ++ v' ++ attributes := by
  obtain rfl | ⟨rest, rfl⟩ := behind
  · obtain ⟨e', ends, whole⟩ := contentOf_cases (pre ++ v ++ [] ++ e)
    rw [content] at whole
    rw [List.append_cancel_left whole, List.append_nil]
    obtain ⟨init, b, rfl⟩ := (List.eq_nil_or_concat v').resolve_left last
    have own := plain b (by simp)
    refine contentOf_append ?_ ends
    rw [List.concat_eq_append, ← List.append_assoc, List.getLast?_concat]
    exact ⟨fun same => own.1 (Option.some.inj same), fun same => own.2 (Option.some.inj same)⟩
  · have split_ : ∀ w, contentOf (pre ++ w ++ 59 :: rest ++ e) =
        pre ++ w ++ 59 :: contentOf (rest ++ e) := by
      intro w
      have parts : pre ++ w ++ 59 :: rest ++ e = (pre ++ w ++ [59]) ++ (rest ++ e) := by
        simp only [List.append_assoc, List.cons_append, List.nil_append]
      rw [parts, contentOf_append_left, List.append_assoc (pre ++ w)]
      · rfl
      · rw [List.getLast?_concat]
        decide
    rw [split_] at content
    rw [split_, (List.cons.inj (List.append_cancel_left content)).2]

namespace PairLine

theorem redactHeadLine_eq (h : PairLine name blanks pair attributes e) (c : Bool) :
    redactHeadLine c (pairField name blanks pair attributes ++ e) =
      pairField name blanks (redactPair pair) attributes ++ e := by
  have fold : isFold (pairField name blanks pair attributes ++ e) = false := by
    rw [pairField, List.append_assoc]
    exact h.isFold_eq _
  have field : isSetCookie (pairField name blanks pair attributes) = true := h.isSetCookie_eq _
  rw [redactHeadLine, fold, h.content, field, ← h.redactSetCookie_eq]
  rfl

theorem cookieAfter_eq (h : PairLine name blanks pair attributes e) (c : Bool) :
    cookieAfter c (pairField name blanks pair attributes ++ e) = true := by
  have fold : isFold (pairField name blanks pair attributes ++ e) = false := by
    rw [pairField, List.append_assoc]
    exact h.isFold_eq _
  rw [cookieAfter, fold, h.content]
  exact h.isSetCookie_eq _

theorem ne_nil (h : PairLine name blanks pair attributes e) :
    contentOf (pairField name blanks pair attributes ++ e) ≠ [] := by
  rw [h.content]
  exact List.append_ne_nil_of_right_ne_nil _ (List.cons_ne_nil _ _)

theorem opensInterim_eq (h : PairLine name blanks pair attributes e) :
    opensInterim (pairField name blanks pair attributes ++ e) = false := by
  rw [opensInterim]
  cases status : startsWithHttpName (contentOf (pairField name blanks pair attributes ++ e)) with
  | false => rfl
  | true =>
      have other := (field_of_status status).2
      rw [h.content] at other
      exact absurd (h.isSetCookie_eq _) (ne_true_of_eq_false other)

/-- Another value stands in the same place. -/
theorem with_value (h : PairLine name blanks (cookie ++ 61 :: v) attributes e)
    (value : ∀ b ∈ v', b ∉ [13, 10, 59]) (some_ : v' ≠ []) :
    PairLine name blanks (cookie ++ 61 :: v') attributes e where
  colon := h.colon
  named := h.named
  blank := h.blank
  starts b head := by
    cases cookie with
    | nil => exact h.starts b head
    | cons c cookie => exact h.starts b head
  plain mem := by
    obtain inside | here | later := (List.mem_append.1 mem).imp_right List.mem_cons.1
    · exact h.plain (List.mem_append_left _ inside)
    · contradiction
    · exact value 59 later (by decide)
  behind := h.behind
  content := by
    have parts : ∀ w, pairField name blanks (cookie ++ 61 :: w) attributes =
        (name ++ 58 :: (blanks ++ (cookie ++ [61]))) ++ w ++ attributes := by
      intro w
      simp only [pairField, List.append_assoc, List.cons_append, List.nil_append]
    have content := h.content
    rw [parts] at content ⊢
    exact contentOf_replace content h.behind some_ fun b mem =>
      ⟨fun cr => value b mem (by rw [cr]; decide), fun lf => value b mem (by rw [lf]; decide)⟩

end PairLine

/-! ## A fold of a cookie -/

theorem redactHeadLine_fold (some_ : blanks ≠ []) (blank : ∀ b ∈ blanks, isBlank b = true)
    (content : contentOf (blanks ++ (v ++ e)) = blanks ++ v)
    (starts : ∀ b, v.head? = some b → isBlank b = false) :
    redactHeadLine true (blanks ++ (v ++ e)) = blanks ++ (observedCookie ++ e) := by
  have fold : isFold (blanks ++ (v ++ e)) = true := isFold_fold some_ blank
  have taken := (takeWhile_blanks_append blank starts).1
  have behind : (blanks ++ (v ++ e)).drop (blanks ++ v).length = e := by
    rw [← List.append_assoc, List.drop_left]
  rw [redactHeadLine, fold, if_pos rfl, if_pos rfl, redactCookieFold, content, taken, behind,
    List.append_assoc]

/-- Another text stands in the same fold. -/
theorem contentOf_fold_replace (some_ : blanks ≠ []) (blank : ∀ b ∈ blanks, isBlank b = true)
    (content : contentOf (blanks ++ (v ++ e)) = blanks ++ v) (value' : FieldValue v') :
    contentOf (blanks ++ (v' ++ e)) = blanks ++ v' := by
  obtain ⟨e', ends, whole⟩ := contentOf_cases (blanks ++ (v ++ e))
  rw [content, ← List.append_assoc] at whole
  rw [List.append_cancel_left whole]
  exact contentOf_fold some_ blank value' ends

/-! ## Two lines at one place -/

/-- What the run over a head takes from a line is the same for both. -/
structure SameStep (c : Bool) (line line' : Bytes) : Prop where
  some_ : contentOf line' ≠ []
  out : redactHeadLine c line' = redactHeadLine c line
  after : cookieAfter c line' = cookieAfter c line
  opens : c = false → opensInterim line' = opensInterim line

theorem CookiesAlike.sameStep {c : Bool} {line line' : Bytes} (alike : CookiesAlike c line line')
    (some_ : contentOf line ≠ []) : SameStep c line line' := by
  cases alike with
  | same => exact ⟨some_, rfl, rfl, fun _ => rfl⟩
  | @value name blanks cookie v v' attributes e parts named value value' =>
      have parts' := parts.with_value value'.2 value'.1
      refine ⟨parts'.ne_nil, ?_, ?_, fun _ => ?_⟩
      · rw [parts.redactHeadLine_eq, parts'.redactHeadLine_eq, redactPair_named named value,
          redactPair_named named value'.1]
      · rw [parts.cookieAfter_eq, parts'.cookieAfter_eq]
      · rw [parts.opensInterim_eq, parts'.opensInterim_eq]
  | @fold blanks v v' e continues nonempty blank content starts value' =>
      have content' := contentOf_fold_replace nonempty blank content value'
      have fold : ∀ t, isFold (blanks ++ t) = true := fun _ => isFold_fold nonempty blank
      subst continues
      refine ⟨?_, ?_, ?_, fun other => absurd other.symm Bool.false_ne_true⟩
      · rw [content']
        exact List.append_ne_nil_of_left_ne_nil nonempty _
      · rw [redactHeadLine_fold nonempty blank content starts,
          redactHeadLine_fold nonempty blank content' value'.starts]
      · rw [cookieAfter, cookieAfter, fold, fold, if_pos rfl, if_pos rfl]

end Field

/-! ## Two runs -/

section Runs

variable {R : Bool → Bytes → Bytes → Prop} {c i : Bool} {line line' : Bytes}
  {lines lines' rest rest' : List Bytes}

/-- Alike heads leave the same bytes, whatever comes behind them. -/
theorem redactHeads_fields
    (step : ∀ {c line line'}, R c line line' → contentOf line ≠ [] → SameStep c line line')
    (alike : Fields R c lines lines')
    (behind : ∀ c, redactHeads false i c rest = redactHeads false i c rest') :
    redactHeads false i c (lines ++ rest) = redactHeads false i c (lines' ++ rest') := by
  induction alike with
  | finished c => exact behind c
  | @line c line line' lines lines' some_ alike _ ih =>
      have same := step alike some_
      rw [List.cons_append, List.cons_append, redactHeads_line some_, redactHeads_line same.some_,
        same.out, same.after, ih]

theorem Fields.head
    (step : ∀ {c line line'}, R c line line' → contentOf line ≠ [] → SameStep c line line')
    (alike : Fields R false (line :: lines) (line' :: lines')) :
    contentOf line ≠ [] ∧ contentOf line' ≠ [] ∧ opensInterim line' = opensInterim line := by
  cases alike with
  | line some_ alike _ =>
      have same := step alike some_
      exact ⟨some_, same.some_, same.opens rfl⟩

/-- One head, from its first line on. -/
theorem redactHeads_head
    (step : ∀ {c line line'}, R c line line' → contentOf line ≠ [] → SameStep c line line')
    (alike : Fields R false (line :: lines) (line' :: lines'))
    (behind : ∀ c, redactHeads false (opensInterim line) c rest =
      redactHeads false (opensInterim line) c rest') :
    redactHeads true false false (line :: lines ++ rest) =
      redactHeads true false false (line' :: lines' ++ rest') := by
  obtain ⟨some_, some', opens⟩ := alike.head step
  have run := redactHeads_fields step alike behind
  rw [List.cons_append, List.cons_append, redactHeads_first some_, redactHeads_first some', opens]
  exact run

theorem redactHeads_eq
    (step : ∀ {c line line'}, R c line line' → contentOf line ≠ [] → SameStep c line line')
    (alike : Heads R lines lines') :
    redactHeads true false false lines = redactHeads true false false lines' := by
  induction alike with
  | finished => rfl
  | empty empty _ ih => rw [redactHeads_empty empty, redactHeads_empty empty, ih]
  | @cut line line' lines lines' head =>
      have run : redactHeads true false false (line :: lines ++ []) =
          redactHeads true false false (line' :: lines' ++ []) :=
        redactHeads_head step head fun _ => rfl
      rwa [List.append_nil, List.append_nil] at run
  | interim head status empty _ ih =>
      refine redactHeads_head step head fun c => ?_
      rw [status, redactHeads_next empty, redactHeads_next empty, ih]
  | final body head status empty =>
      refine redactHeads_head step head fun c => ?_
      rfl

/-! ## What is kept -/

theorem dropWhile_starts {f : UInt8 → Bool} {t : Bytes} :
    ∀ b, (t.dropWhile f).head? = some b → f b = false := by
  intro b head
  have first := List.head?_dropWhile_not f t
  rw [head] at first
  exact first

/-- A field that sets a cookie has a name and a value. -/
theorem exists_setCookie {content : Bytes} (field : isSetCookie content = true) :
    ∃ name value, content = name ++ 58 :: value ∧ 58 ∉ name ∧ isSetCookieName name = true := by
  have colon : 58 ∈ content := by
    apply by_contra
    intro plain
    have none_ : content.idxOf? 58 = none := List.idxOf?_eq_none_iff.2 plain
    rw [isSetCookie, none_] at field
    contradiction
  obtain ⟨name, value, rfl, plain⟩ := List.eq_append_cons_of_mem colon
  refine ⟨name, value, rfl, plain, ?_⟩
  rw [isSetCookie, idxOf?_first plain] at field
  cases name with
  | nil => contradiction
  | cons b name =>
      have first : ((b :: name) ++ 58 :: value).take (name.length + 1) = b :: name :=
        List.take_left' rfl
      rw [List.length_cons] at field
      simp only [first] at field
      exact field

/-- A line that sets a cookie has all the parts of one. -/
theorem exists_pairLine (field : isSetCookie (contentOf line) = true) :
    ∃ name blanks pair attributes e, PairLine name blanks pair attributes e ∧
      line = pairField name blanks pair attributes ++ e := by
  obtain ⟨name, value, content, colon, named⟩ := exists_setCookie field
  obtain ⟨e, -, whole⟩ := contentOf_cases line
  have parts : contentOf line = pairField name (value.takeWhile isBlank)
      ((value.dropWhile isBlank).takeWhile fun b => b != 59)
      ((value.dropWhile isBlank).dropWhile fun b => b != 59) := by
    rw [pairField, List.takeWhile_append_dropWhile, List.takeWhile_append_dropWhile]
    exact content
  rw [parts] at whole
  refine ⟨name, _, _, _, e, ⟨colon, named, ?_, ?_, ?_, ?_, ?_⟩, whole⟩
  · exact fun b mem => List.mem_takeWhile_imp mem
  · intro b head
    have first : (value.dropWhile isBlank).head? = some b := by
      cases rest : value.dropWhile isBlank with
      | nil =>
          rw [rest] at head
          contradiction
      | cons d rest' =>
          rw [rest, List.takeWhile_cons] at head
          split at head
          · exact head
          · contradiction
    exact dropWhile_starts b first
  · exact fun mem => absurd (List.mem_takeWhile_imp mem) (by decide)
  · cases rest : (value.dropWhile isBlank).dropWhile fun b => b != 59 with
    | nil => exact .inl rfl
    | cons d rest' =>
        have stops := dropWhile_starts d (congrArg List.head? rest)
        rw [bne_eq_false_iff_eq.1 stops]
        exact .inr ⟨rest', rfl⟩
  · rw [← whole]
    exact parts

/-- A fold has blanks at its front. -/
theorem exists_fold (fold : isFold line = true) :
    ∃ blanks v e, blanks ≠ [] ∧ (∀ b ∈ blanks, isBlank b = true) ∧
      (∀ b, v.head? = some b → isBlank b = false) ∧ contentOf line = blanks ++ v ∧
      line = blanks ++ (v ++ e) := by
  obtain ⟨e, ends, whole⟩ := contentOf_cases line
  refine ⟨(contentOf line).takeWhile isBlank, (contentOf line).dropWhile isBlank, e, ?_,
    fun b mem => List.mem_takeWhile_imp mem, dropWhile_starts, ?_, ?_⟩
  · cases content : contentOf line with
    | nil =>
        rw [content, List.nil_append] at whole
        rw [whole] at fold
        obtain rfl | rfl | rfl | rfl := ends
        · contradiction
        · contradiction
        · contradiction
        · contradiction
    | cons b rest =>
        rw [whole, content] at fold
        have blank : isBlank b = true := fold
        rw [List.takeWhile_cons, blank]
        exact List.cons_ne_nil _ _
  · exact List.takeWhile_append_dropWhile.symm
  · rw [← List.append_assoc, List.takeWhile_append_dropWhile]
    exact whole

theorem lineKept (c : Bool) (line : Bytes) : LineKept c line (redactHeadLine c line) := by
  cases fold : isFold line with
  | true =>
      cases c with
      | false =>
          have same : redactHeadLine false line = line := by
            rw [redactHeadLine, fold]
            rfl
          rw [same]
          exact .line (fun _ => rfl) fun field => absurd (fold.symm.trans field) (by decide)
      | true =>
          obtain ⟨blanks, v, e, some_, blank, starts, content, rfl⟩ := exists_fold fold
          rw [redactHeadLine_fold some_ blank content starts]
          exact .fold rfl some_ blank content starts
  | false =>
      cases field : isSetCookie (contentOf line) with
      | false =>
          have same : redactHeadLine c line = line := by
            rw [redactHeadLine, fold, field]
            rfl
          rw [same]
          exact .line (fun fold' => absurd (fold.symm.trans fold') (by decide)) fun _ => field
      | true =>
          obtain ⟨name, blanks, pair, attributes, e, parts, rfl⟩ := exists_pairLine field
          rw [parts.redactHeadLine_eq]
          by_cases named : 61 ∈ pair
          · obtain ⟨cookie, v, rfl, plain⟩ := List.eq_append_cons_of_mem named
            by_cases some_ : v = []
            · subst some_
              rw [redactPair_deletion plain]
              exact .deletion parts plain
            · rw [redactPair_named plain some_]
              exact .value parts plain some_
          · rw [redactPair_unnamed named]
            exact .unnamed parts named

/-- The lines of a head are kept one by one. -/
theorem exists_fields (c : Bool) (some_ : ∀ line ∈ lines, contentOf line ≠ []) :
    ∃ outs c', Fields LineKept c lines outs ∧ ∀ i rest,
      redactHeads false i c (lines ++ rest) = outs.flatten ++ redactHeads false i c' rest := by
  induction lines generalizing c with
  | nil => exact ⟨[], c, .finished c, fun _ _ => rfl⟩
  | cons line lines ih =>
      obtain ⟨outs, c', fields, run⟩ := ih (cookieAfter c line) fun l mem =>
        some_ l (List.mem_cons_of_mem _ mem)
      have own := some_ line List.mem_cons_self
      refine ⟨redactHeadLine c line :: outs, c', .line own (lineKept c line) fields,
        fun i rest => ?_⟩
      rw [List.cons_append, redactHeads_line own, run, List.flatten_cons, List.append_assoc]

/-- One head, from its first line on, and what comes behind it. -/
theorem exists_head (some_ : ∀ l ∈ line :: lines, contentOf l ≠ []) :
    ∃ out outs c', Fields LineKept false (line :: lines) (out :: outs) ∧ ∀ rest,
      redactHeads true false false (line :: lines ++ rest) =
        (out :: outs).flatten ++ redactHeads false (opensInterim line) c' rest := by
  obtain ⟨outs, c', fields, run⟩ := exists_fields false some_
  cases fields with
  | @line _ _ out _ outs own alike next =>
      refine ⟨out, outs, c', .line own alike next, fun rest => ?_⟩
      rw [List.cons_append, redactHeads_first own]
      exact run (opensInterim line) rest

/-- Lines are a head, and an empty line behind it if anything is. -/
theorem split_head (some_ : contentOf line ≠ []) (lines : List Bytes) :
    ∃ own rest, lines = own ++ rest ∧ (∀ l ∈ line :: own, contentOf l ≠ []) ∧
      (rest = [] ∨ ∃ e body, rest = e :: body ∧ contentOf e = [] ∧ body.length < lines.length) := by
  have parts : lines = _ ++ _ :=
    (List.takeWhile_append_dropWhile (p := fun l => decide (contentOf l ≠ []))).symm
  refine ⟨_, _, parts, ?_, ?_⟩
  · intro l mem
    obtain rfl | inside := List.mem_cons.1 mem
    · exact some_
    · have kept := List.mem_takeWhile_imp inside
      exact of_decide_eq_true kept
  · cases behind : lines.dropWhile fun l => decide (contentOf l ≠ []) with
    | nil => exact .inl rfl
    | cons e body =>
        have stops := List.head?_dropWhile_not (fun l => decide (contentOf l ≠ [])) lines
        rw [behind] at stops
        refine .inr ⟨e, body, rfl, Decidable.not_not.1 (of_decide_eq_false stops), ?_⟩
        rw [behind] at parts
        have long := congrArg List.length parts
        rw [List.length_append, List.length_cons] at long
        omega

theorem exists_heads (n : ℕ) : ∀ lines : List Bytes, lines.length < n →
    ∃ outs, Heads LineKept lines outs ∧ redactHeads true false false lines = outs.flatten := by
  induction n with
  | zero => exact fun _ short => absurd short (Nat.not_lt_zero _)
  | succ n ih =>
      intro lines short
      cases lines with
      | nil => exact ⟨[], .finished, rfl⟩
      | cons line lines =>
          rw [List.length_cons] at short
          by_cases empty : contentOf line = []
          · obtain ⟨outs, heads, run⟩ := ih lines (by omega)
            refine ⟨line :: outs, .empty empty heads, ?_⟩
            rw [redactHeads_empty empty, run, List.flatten_cons]
          · obtain ⟨own, rest, rfl, some_, behind⟩ := split_head empty lines
            obtain ⟨out, outs, c', fields, run⟩ := exists_head some_
            obtain rfl | ⟨e, body, rfl, blank, shorter⟩ := behind
            · refine ⟨out :: outs, ?_, ?_⟩
              · rw [List.append_nil]
                exact .cut fields
              · rw [← List.cons_append, run]
                exact List.append_nil _
            · rw [← List.cons_append]
              cases status : opensInterim line with
              | true =>
                  obtain ⟨later, heads, next⟩ := ih body (by omega)
                  refine ⟨out :: outs ++ e :: later, .interim fields status blank heads, ?_⟩
                  rw [run, status, redactHeads_next blank, next, List.flatten_append]
                  rfl
              | false =>
                  refine ⟨out :: outs ++ e :: body, .final body fields status blank, ?_⟩
                  rw [run, status, redactHeads_over blank, List.flatten_append]

/-- The lines of a response with an interim head; each head sets a cookie, one is folded. -/
def answeredLines (sid theme fold : String) : List Bytes :=
  [usAscii "HTTP/1.1 103 Early Hints\r\n",
    pairField (usAscii "Set-Cookie") (usAscii " ") (usAscii "sid" ++ 61 :: usAscii sid) [] ++
      [13, 10]] ++
    [10] :: ([usAscii "HTTP/1.1 200 OK\r\n",
      pairField (usAscii "set-cookie") [] (usAscii "theme" ++ 61 :: usAscii theme)
        (usAscii "; Path=/") ++ [10],
      usAscii "\t" ++ (usAscii fold ++ [10])] ++ [13, 10] :: [usAscii "Set-Cookie: a=b"])

def answered (sid theme fold : String) : Bytes := (answeredLines sid theme fold).flatten

end Runs

end Hx.Redact
