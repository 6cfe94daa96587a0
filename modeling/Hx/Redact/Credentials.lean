import Hx.Redact.Observed

/-!
# What a credential header's value leaves behind

Two requests that differ in the values of credential headers alone, or in folds of them, are
redacted to the same bytes.
-/

namespace Hx.Redact

/-- No CR or LF, and no blank at the front. -/
structure FieldValue (v : Bytes) : Prop where
  plain : ∀ b ∈ v, b ≠ 13 ∧ b ≠ 10
  starts : ∀ b, v.head? = some b → isBlank b = false

/-- How a line ends. The last one may end with the request. -/
def LineEnd (e : Bytes) : Prop := e = [] ∨ e = [13] ∨ e = [10] ∨ e = [13, 10]

/-- Which credential a field name is: its case does not count, nor what blanks follow it. -/
def credentialName (name : Bytes) : Option ℕ :=
  credentialHeaders.findIdx? fun wanted => asciiEqualsIgnoreCase wanted (name.rdropWhile isOws)

/-- Two lines of two heads at one place; `credential` is whether a fold here continues a
credential header. -/
inductive LinesAlike (credential : Bool) : Bytes → Bytes → Prop
  | same (line : Bytes) : LinesAlike credential line line
  | field {name blanks v v' e : Bytes} (colon : 58 ∉ name)
      (named : (credentialName name).isSome = true) (blank : ∀ b ∈ blanks, isBlank b = true)
      (value : FieldValue v) (value' : FieldValue v') (ends : LineEnd e) :
      LinesAlike credential (name ++ 58 :: (blanks ++ (v ++ e)))
        (name ++ 58 :: (blanks ++ (v' ++ e)))
  | fold {blanks v v' e : Bytes} (continues : credential = true) (some_ : blanks ≠ [])
      (blank : ∀ b ∈ blanks, isBlank b = true) (value : FieldValue v) (value' : FieldValue v')
      (ends : LineEnd e) :
      LinesAlike credential (blanks ++ (v ++ e)) (blanks ++ (v' ++ e))

/-- Whether a fold after the line continues a credential header. -/
def continuesAfter (credential : Bool) (line : Bytes) : Bool :=
  if isFold line then credential else (credentialOf (contentOf line)).isSome

/-- The lines of two heads, and of what follows them. -/
inductive HeadsAlike : Bool → List Bytes → List Bytes → Prop
  | rest {credential : Bool} (lines : List Bytes) : HeadsAlike credential lines lines
  | line {credential : Bool} {line line' : Bytes} {lines lines' : List Bytes}
      (some_ : contentOf line ≠ []) (alike : LinesAlike credential line line')
      (next : HeadsAlike (continuesAfter credential line) lines lines') :
      HeadsAlike credential (line :: lines) (line' :: lines')

/-- The requests are byte for byte the same but for the values of credential headers, and of
folds of these. Empty lines may stand before the head. -/
def SameButCredentials (raw raw' : Bytes) : Prop :=
  ∃ empty lines lines', linesOf raw = empty ++ lines ∧ linesOf raw' = empty ++ lines' ∧
    (∀ line ∈ empty, contentOf line = []) ∧ HeadsAlike false lines lines'

/-! ## Lines and their content -/

section Lines

variable {t e v v' name blanks line line' : Bytes}

theorem chop_of_ne {b : UInt8} (other : t.getLast? ≠ some b) : chop b t = t := if_neg other

theorem chop_concat {b : UInt8} : chop b (t ++ [b]) = t := by
  rw [chop, if_pos List.getLast?_concat, List.dropLast_concat]

theorem chop_append {b : UInt8} (last : t.getLast? ≠ some b) :
    chop b (t ++ e) = t ++ chop b e := by
  rcases List.eq_nil_or_concat e with rfl | ⟨init, c, rfl⟩
  · have none_ : chop b [] = [] := rfl
    rw [none_, List.append_nil, chop_of_ne last]
  · rw [List.concat_eq_append, ← List.append_assoc, chop, chop, List.getLast?_concat,
      List.getLast?_concat, List.dropLast_concat, List.dropLast_concat]
    split
    · rfl
    · exact List.append_assoc _ _ _

theorem contentOf_append_left (last : t.getLast? ≠ some 13 ∧ t.getLast? ≠ some 10) :
    contentOf (t ++ e) = t ++ contentOf e := by
  rw [contentOf, chop_append last.2, chop_append last.1, contentOf]

theorem chop_cases (b : UInt8) (line : Bytes) : line = chop b line ∨ line = chop b line ++ [b] := by
  rw [chop]
  by_cases last : line.getLast? = some b
  · rw [if_pos last]
    exact .inr (List.dropLast_append_getLast? b last).symm
  · rw [if_neg last]
    exact .inl rfl

/-- A line is its content and its end. -/
theorem contentOf_cases (line : Bytes) : ∃ e, LineEnd e ∧ line = contentOf line ++ e := by
  obtain none_ | lf := chop_cases 10 line
  · obtain none' | cr := chop_cases 13 (chop 10 line)
    · exact ⟨[], .inl rfl, (none_.trans none').trans (List.append_nil _).symm⟩
    · exact ⟨[13], .inr (.inl rfl), none_.trans cr⟩
  · obtain none' | cr := chop_cases 13 (chop 10 line)
    · exact ⟨[10], .inr (.inr (.inl rfl)), lf.trans (congrArg (· ++ [10]) none')⟩
    · refine ⟨[13, 10], .inr (.inr (.inr rfl)), ?_⟩
      rw [contentOf]
      calc line = chop 10 line ++ [10] := lf
        _ = (chop 13 (chop 10 line) ++ [13]) ++ [10] := congrArg (· ++ [10]) cr
        _ = chop 13 (chop 10 line) ++ [13, 10] := List.append_assoc _ _ _

/-- A terminator comes off a text that does not end in CR or LF. -/
theorem contentOf_append (last : t.getLast? ≠ some 13 ∧ t.getLast? ≠ some 10)
    (ends : LineEnd e) : contentOf (t ++ e) = t := by
  rcases ends with rfl | rfl | rfl | rfl
  · rw [List.append_nil, contentOf, chop_of_ne last.2, chop_of_ne last.1]
  · have cr : (t ++ [13]).getLast? ≠ some 10 := by
      rw [List.getLast?_concat]
      decide
    rw [contentOf, chop_of_ne cr, chop_concat]
  · rw [contentOf, chop_concat, chop_of_ne last.1]
  · have both : t ++ [13, 10] = (t ++ [13]) ++ [10] := by
      rw [List.append_assoc]
      rfl
    rw [contentOf, both, chop_concat, chop_concat]

/-- A value ends in neither CR nor LF, and what stands before an empty one does not. -/
theorem last_append_value (value : FieldValue v)
    (last : t.getLast? ≠ some 13 ∧ t.getLast? ≠ some 10) :
    (t ++ v).getLast? ≠ some 13 ∧ (t ++ v).getLast? ≠ some 10 := by
  rcases List.eq_nil_or_concat v with rfl | ⟨init, b, rfl⟩
  · rw [List.append_nil]
    exact last
  · have plain := value.plain b (by
      rw [List.concat_eq_append]
      exact List.mem_append_right _ List.mem_cons_self)
    rw [List.concat_eq_append, ← List.append_assoc, List.getLast?_concat]
    exact ⟨fun same => plain.1 (Option.some.inj same), fun same => plain.2 (Option.some.inj same)⟩

theorem last_append_blank (blank : ∀ b ∈ blanks, isBlank b = true)
    (last : t.getLast? ≠ some 13 ∧ t.getLast? ≠ some 10) :
    (t ++ blanks).getLast? ≠ some 13 ∧ (t ++ blanks).getLast? ≠ some 10 := by
  rcases List.eq_nil_or_concat blanks with rfl | ⟨init, b, rfl⟩
  · rw [List.append_nil]
    exact last
  · have own := blank b (by
      rw [List.concat_eq_append]
      exact List.mem_append_right _ List.mem_cons_self)
    rw [List.concat_eq_append, ← List.append_assoc, List.getLast?_concat]
    constructor
    · intro same
      rw [Option.some.inj same] at own
      contradiction
    · intro same
      rw [Option.some.inj same] at own
      contradiction

theorem takeWhile_blanks (blank : ∀ b ∈ blanks, isBlank b = true) (value : FieldValue v) :
    (blanks ++ v).takeWhile isBlank = blanks := by
  rw [List.takeWhile_append_of_pos blank]
  cases v with
  | nil => exact List.append_nil _
  | cons b v =>
      rw [List.takeWhile_cons, value.starts b rfl]
      exact List.append_nil _

/-! ## A fold -/

/-- What a fold is: blanks, a value and an end. -/
theorem contentOf_fold (some_ : blanks ≠ []) (blank : ∀ b ∈ blanks, isBlank b = true)
    (value : FieldValue v) (ends : LineEnd e) :
    contentOf (blanks ++ (v ++ e)) = blanks ++ v := by
  have last : blanks.getLast? ≠ some 13 ∧ blanks.getLast? ≠ some 10 := by
    rcases List.eq_nil_or_concat blanks with rfl | ⟨init, b, rfl⟩
    · exact absurd rfl some_
    · rw [← List.nil_append (init.concat b)]
      exact last_append_blank blank (by decide)
  rw [← List.append_assoc]
  exact contentOf_append (last_append_value value last) ends

theorem isFold_fold (some_ : blanks ≠ []) (blank : ∀ b ∈ blanks, isBlank b = true) :
    isFold (blanks ++ t) = true := by
  obtain ⟨b, rest, rfl⟩ := List.exists_cons_of_ne_nil some_
  exact blank b List.mem_cons_self

theorem redactFold_fold (k : ℕ) (some_ : blanks ≠ []) (blank : ∀ b ∈ blanks, isBlank b = true)
    (value : FieldValue v) (ends : LineEnd e) :
    redactFold (some k) (blanks ++ (v ++ e)) = blanks ++ placeholder k ++ e := by
  rw [redactFold, contentOf_fold some_ blank value ends, takeWhile_blanks blank value,
    ← List.append_assoc blanks v e, List.drop_left]

/-! ## A field -/

theorem contentOf_field (blank : ∀ b ∈ blanks, isBlank b = true) (value : FieldValue v)
    (ends : LineEnd e) :
    contentOf (name ++ 58 :: (blanks ++ (v ++ e))) = name ++ 58 :: (blanks ++ v) := by
  have colon : (name ++ [58]).getLast? ≠ some 13 ∧ (name ++ [58]).getLast? ≠ some 10 := by
    rw [List.getLast?_concat]
    decide
  have last := last_append_value value (last_append_blank blank colon)
  have whole := contentOf_append last ends
  simp only [List.append_assoc, List.cons_append, List.nil_append] at whole
  exact whole

theorem idxOf_colon (colon : 58 ∉ name) : (name ++ 58 :: t).idxOf 58 = name.length := by
  rw [List.idxOf_append_of_notMem colon, List.idxOf_cons_self, Nat.add_zero]

theorem idxOf?_first {a : UInt8} (plain : a ∉ t) : (t ++ a :: e).idxOf? a = some t.length := by
  induction t with
  | nil => rw [List.nil_append, List.idxOf?_cons, beq_self_eq_true, if_pos rfl, List.length_nil]
  | cons b t ih =>
      have other : (b == a) = false := beq_eq_false_iff_ne.2 fun same =>
        plain (same ▸ List.mem_cons_self)
      rw [List.cons_append, List.idxOf?_cons, other, ih fun mem =>
        plain (List.mem_cons_of_mem _ mem)]
      rfl

theorem first_letters : ∀ wanted ∈ credentialHeaders,
    ∃ b, (usAscii wanted).head? = some b ∧ 97 ≤ b := by
  intro wanted listed
  rw [credentialHeaders] at listed
  simp only [List.mem_cons, List.not_mem_nil, or_false] at listed
  rcases listed with rfl | rfl | rfl
  · exact ⟨97, rfl, by decide⟩
  · exact ⟨99, rfl, by decide⟩
  · exact ⟨112, rfl, by decide⟩

/-- A credential's name is not empty and does not start with a blank. -/
theorem head_of_credentialName (named : (credentialName name).isSome = true) :
    ∃ b rest, name = b :: rest ∧ isBlank b = false := by
  rw [credentialName, List.findIdx?_isSome] at named
  obtain ⟨wanted, listed, same⟩ := List.any_eq_true.1 named
  obtain ⟨first, letter⟩ := first_letters wanted listed
  rw [← beq_iff_eq.1 same, List.head?_map] at letter
  obtain ⟨⟨b, head, rfl⟩, least⟩ : (∃ b, (name.rdropWhile isOws).head? = some b ∧
      asciiLower b = first) ∧ 97 ≤ first := ⟨Option.map_eq_some_iff.1 letter.1, letter.2⟩
  obtain ⟨tail, whole⟩ := List.rdropWhile_prefix isOws (l := name)
  cases name with
  | nil => cases head
  | cons d rest =>
      have same' : d = b := by
        cases trimmed : (d :: rest).rdropWhile isOws with
        | nil =>
            rw [trimmed] at head
            cases head
        | cons x xs =>
            rw [trimmed] at head whole
            cases head
            exact (List.cons.inj whole).1.symm
      refine ⟨d, rest, rfl, ?_⟩
      rw [same']
      cases blank : isBlank b with
      | false => rfl
      | true =>
          have either : b = 32 ∨ b = 9 := by
            simpa [isBlank] using blank
          rcases either with rfl | rfl
          · exact absurd least (by decide)
          · exact absurd least (by decide)

/-- No credential header has a `?` in its name. -/
theorem credentialName_of_question (mem : 63 ∈ name) :
    credentialName name = none := by
  have trimmed : 63 ∈ name.rdropWhile isOws := by
    have whole : name.rdropWhile isOws ++ name.rtakeWhile isOws = name :=
      List.rdropWhile_append_rtakeWhile
    rw [← whole] at mem
    obtain kept | dropped := List.mem_append.1 mem
    · exact kept
    · exact absurd (List.mem_rtakeWhile_imp dropped) (by decide)
  have letters : ∀ wanted ∈ credentialHeaders, 63 ∉ usAscii wanted := by decide
  rw [credentialName, List.findIdx?_eq_none_iff]
  intro wanted listed
  refine beq_eq_false_iff_ne.2 ?_
  intro same
  refine letters wanted listed ?_
  rw [← same]
  exact List.mem_map_of_mem trimmed

theorem credentialOf_colon (t : Bytes) (colon : 58 ∉ name) :
    credentialOf (name ++ 58 :: t) = if name = [] then none else credentialName name := by
  rw [credentialOf, idxOf?_first colon]
  cases name with
  | nil => rfl
  | cons b name =>
      have first : ((b :: name) ++ 58 :: t).take (name.length + 1) = b :: name :=
        List.take_left' rfl
      rw [List.length_cons, if_neg (List.cons_ne_nil _ _)]
      simp only [first]
      rfl

theorem credentialOf_none {content : Bytes} (plain : 58 ∉ content) :
    credentialOf content = none := by
  have none_ : content.idxOf? 58 = none := List.idxOf?_eq_none_iff.2 plain
  rw [credentialOf, none_]

/-- A credential field has a name and a value. -/
theorem exists_credential {content : Bytes} {k : ℕ} (named : credentialOf content = some k) :
    ∃ name value, content = name ++ 58 :: value ∧ 58 ∉ name ∧ credentialName name = some k := by
  by_cases colon : 58 ∈ content
  · obtain ⟨name, value, rfl, plain⟩ := List.eq_append_cons_of_mem colon
    rw [credentialOf_colon value plain] at named
    split at named
    · contradiction
    · exact ⟨name, value, rfl, plain, named⟩
  · rw [credentialOf_none colon] at named
    contradiction

theorem credentialOf_field (colon : 58 ∉ name) (named : (credentialName name).isSome = true) :
    credentialOf (name ++ 58 :: t) = credentialName name := by
  obtain ⟨b, rest, rfl, _⟩ := head_of_credentialName named
  rw [credentialOf_colon t colon, if_neg (List.cons_ne_nil _ _)]

theorem isFold_field (named : (credentialName name).isSome = true) :
    isFold (name ++ t) = false := by
  obtain ⟨b, rest, rfl, starts⟩ := head_of_credentialName named
  exact starts

theorem redactField_field (k : ℕ) (colon : 58 ∉ name) (blank : ∀ b ∈ blanks, isBlank b = true)
    (value : FieldValue v) (ends : LineEnd e) :
    redactField k (name ++ 58 :: (blanks ++ (v ++ e))) =
      name ++ 58 :: (blanks ++ (placeholder k ++ e)) := by
  have parts : name ++ 58 :: (blanks ++ (v ++ e)) = (name ++ 58 :: (blanks ++ v)) ++ e := by
    simp only [List.append_assoc, List.cons_append]
  have drops : (name ++ 58 :: (blanks ++ v)).drop (name.length + 1) = blanks ++ v := by
    rw [← List.drop_drop, List.drop_left]
    rfl
  have takes : ((name ++ 58 :: (blanks ++ v)) ++ e).take (name.length + 1) = name ++ [58] := by
    have first : (name ++ 58 :: (blanks ++ v)) ++ e = (name ++ [58]) ++ ((blanks ++ v) ++ e) := by
      simp only [List.append_assoc, List.cons_append, List.nil_append]
    have length : (name ++ [58]).length = name.length + 1 := List.length_append
    rw [first, ← length, List.take_left]
  rw [redactField, contentOf_field blank value ends, idxOf_colon colon, parts, takes, drops,
    takeWhile_blanks blank value, List.drop_left]
  simp only [List.append_assoc, List.cons_append, List.nil_append]

end Lines

/-! ## Two runs -/

section Runs

variable {c first targetDone : Bool} {credential : Option ℕ} {line line' : Bytes}
  {lines lines' : List Bytes}

theorem redactLines_fold (some_ : contentOf line ≠ []) (fold : isFold line = true) :
    redactLines first targetDone credential (line :: lines) =
      redactFold credential line ++ redactLines false true credential lines := by
  rw [redactLines, if_neg some_, if_pos fold]

theorem redactLines_field {k : ℕ} (some_ : contentOf line ≠ []) (field : isFold line = false)
    (named : credentialOf (contentOf line) = some k) :
    redactLines first targetDone credential (line :: lines) =
      redactField k line ++ redactLines false true (some k) lines := by
  have other : ¬ isFold line = true := by
    rw [field]
    exact Bool.false_ne_true
  rw [redactLines, if_neg some_, if_neg other, named]

theorem redactLines_other (some_ : contentOf line ≠ []) (field : isFold line = false)
    (plain : credentialOf (contentOf line) = none) :
    redactLines first targetDone credential (line :: lines) =
      (if targetDone then line else redactTarget line) ++ redactLines false true none lines := by
  have other : ¬ isFold line = true := by
    rw [field]
    exact Bool.false_ne_true
  rw [redactLines, if_neg some_, if_neg other, plain]

/-- From the same state, alike lines leave the same bytes. -/
theorem redactLines_eq (alike : HeadsAlike c lines lines') (state : credential.isSome = c) :
    redactLines first targetDone credential lines =
      redactLines first targetDone credential lines' := by
  induction alike generalizing first targetDone credential with
  | rest lines => rfl
  | @line c line line' lines lines' some_ alike _ ih =>
      cases alike with
      | same =>
          cases fold : isFold line with
          | true =>
              have after : continuesAfter c line = c := if_pos fold
              rw [redactLines_fold some_ fold, redactLines_fold some_ fold,
                ih (state.trans after.symm)]
          | false =>
              have after : continuesAfter c line = (credentialOf (contentOf line)).isSome := by
                rw [continuesAfter, fold]
                rfl
              cases named : credentialOf (contentOf line) with
              | none =>
                  rw [named] at after
                  rw [redactLines_other some_ fold named, redactLines_other some_ fold named,
                    ih after.symm]
              | some k =>
                  rw [named] at after
                  rw [redactLines_field some_ fold named, redactLines_field some_ fold named,
                    ih after.symm]
      | @field name blanks v v' e colon named blank value value' ends =>
          obtain ⟨k, known⟩ := Option.isSome_iff_exists.1 named
          have content : contentOf (name ++ 58 :: (blanks ++ (v ++ e))) =
              name ++ 58 :: (blanks ++ v) := contentOf_field blank value ends
          have content' : contentOf (name ++ 58 :: (blanks ++ (v' ++ e))) =
              name ++ 58 :: (blanks ++ v') := contentOf_field blank value' ends
          have nonempty : ∀ t : Bytes, name ++ 58 :: t ≠ [] := fun t =>
            List.append_ne_nil_of_right_ne_nil _ (List.cons_ne_nil _ _)
          have which : ∀ t : Bytes, credentialOf (name ++ 58 :: t) = some k := fun t =>
            (credentialOf_field colon named).trans known
          have after : continuesAfter c (name ++ 58 :: (blanks ++ (v ++ e))) = true := by
            rw [continuesAfter, isFold_field named, content, which]
            rfl
          have next : redactLines false true (some k) lines =
              redactLines false true (some k) lines' := ih after.symm
          rw [redactLines_field some_ (isFold_field named) (by rw [content]; exact which _),
            redactLines_field (by rw [content']; exact nonempty _) (isFold_field named)
              (by rw [content']; exact which _),
            redactField_field k colon blank value ends,
            redactField_field k colon blank value' ends, next]
      | @fold blanks v v' e continues some_' blank value value' ends =>
          obtain ⟨k, rfl⟩ := Option.isSome_iff_exists.1 (state.trans continues)
          have fold : ∀ t : Bytes, isFold (blanks ++ t) = true := fun _ =>
            isFold_fold some_' blank
          have after : continuesAfter c (blanks ++ (v ++ e)) = c := if_pos (fold _)
          have nonempty : contentOf (blanks ++ (v' ++ e)) ≠ [] := by
            rw [contentOf_fold some_' blank value' ends]
            exact List.append_ne_nil_of_left_ne_nil some_' _
          rw [redactLines_fold some_ (fold _), redactLines_fold nonempty (fold _),
            redactFold_fold k some_' blank value ends,
            redactFold_fold k some_' blank value' ends, ih (state.trans after.symm)]

theorem redactLines_empty (empty : ∀ line ∈ lines, contentOf line = []) :
    redactLines true targetDone credential (lines ++ lines') =
      lines.flatten ++ redactLines true targetDone credential lines' := by
  induction lines with
  | nil => rfl
  | cons line lines ih =>
      rw [List.cons_append, redactLines, if_pos (empty line List.mem_cons_self), if_pos rfl,
        ih fun l mem => empty l (List.mem_cons_of_mem _ mem), List.flatten_cons,
        List.append_assoc]

theorem redactObservedRequest_eq {raw raw' : Bytes} (same : SameButCredentials raw raw') :
    redactObservedRequest raw = redactObservedRequest raw' := by
  obtain ⟨empty, lines, lines', parts, parts', blank, alike⟩ := same
  rw [redactObservedRequest, redactObservedRequest, parts, parts', redactLines_empty blank,
    redactLines_empty blank, redactLines_eq alike rfl]

/-! ## The body -/

theorem flatten_linesOf (raw : Bytes) : (linesOf raw).flatten = raw := by
  induction raw with
  | nil => rfl
  | cons b rest ih =>
      rw [linesOf]
      split
      · rw [List.flatten_cons, ih]
        rfl
      · split
        · rename_i none_
          rw [none_] at ih
          rw [← ih]
          rfl
        · rename_i line lines some_
          rw [some_] at ih
          rw [← ih]
          rfl

theorem linesOf_ne_nil {raw : Bytes} (some_ : raw ≠ []) : linesOf raw ≠ [] := by
  intro none_
  have whole := flatten_linesOf raw
  rw [none_] at whole
  exact some_ whole.symm

/-- What ends in LF is a number of lines. -/
theorem linesOf_append {raw rest : Bytes} (ends : raw = [] ∨ raw.getLast? = some 10) :
    linesOf (raw ++ rest) = linesOf raw ++ linesOf rest := by
  induction raw with
  | nil => rfl
  | cons b raw ih =>
      have last : (b :: raw).getLast? = some 10 := ends.resolve_left (List.cons_ne_nil _ _)
      rw [List.cons_append, linesOf, linesOf]
      by_cases lf : b = 10
      · rw [if_pos lf, if_pos lf, List.cons_append]
        rcases List.eq_nil_or_concat raw with rfl | ⟨init, x, rfl⟩
        · rfl
        · rw [ih (.inr ?_)]
          rw [List.concat_eq_append, ← List.cons_append, List.getLast?_concat] at last
          rw [List.concat_eq_append, List.getLast?_concat, last]
      · rw [if_neg lf, if_neg lf]
        cases raw with
        | nil => exact absurd (Option.some.inj last) lf
        | cons x raw =>
            obtain ⟨line, lines, parts⟩ :=
              List.exists_cons_of_ne_nil (linesOf_ne_nil (List.cons_ne_nil x raw))
            rw [ih (.inr last), parts]
            rfl

theorem linesOf_empty_cons {e body : Bytes} (ends : e = [10] ∨ e = [13, 10]) :
    linesOf (e ++ body) = e :: linesOf body := by
  have last : e.getLast? = some 10 := by
    rcases ends with rfl | rfl
    · rfl
    · rfl
  have one : linesOf e = [e] := by
    rcases ends with rfl | rfl
    · rfl
    · rfl
  rw [linesOf_append (.inr last), one]
  rfl

theorem linesOf_single {t : Bytes} (some_ : t ≠ []) (plain : 10 ∉ t) : linesOf t = [t] := by
  induction t with
  | nil => exact absurd rfl some_
  | cons b t ih =>
      have other : b ≠ 10 := fun same => plain (same ▸ List.mem_cons_self)
      rw [linesOf, if_neg other]
      cases t with
      | nil => rfl
      | cons x t =>
          rw [ih (List.cons_ne_nil _ _) fun mem => plain (List.mem_cons_of_mem _ mem)]

theorem linesOf_ended {t : Bytes} (plain : 10 ∉ t) : linesOf (t ++ [10]) = [t ++ [10]] := by
  induction t with
  | nil => rfl
  | cons b t ih =>
      have other : b ≠ 10 := fun same => plain (same ▸ List.mem_cons_self)
      rw [List.cons_append, linesOf, if_neg other,
        ih fun mem => plain (List.mem_cons_of_mem _ mem)]

theorem contentOf_empty {e : Bytes} (ends : e = [10] ∨ e = [13, 10]) : contentOf e = [] := by
  rcases ends with rfl | rfl
  · rfl
  · rfl

/-- A line that is not empty is redacted on its own. -/
theorem redactLines_step (first targetDone : Bool) (credential : Option ℕ)
    (some_ : contentOf line ≠ []) :
    ∃ out next, ∀ rest, redactLines first targetDone credential (line :: rest) =
      out ++ redactLines false true next rest := by
  cases fold : isFold line with
  | true => exact ⟨_, credential, fun _ => redactLines_fold some_ fold⟩
  | false =>
      cases named : credentialOf (contentOf line) with
      | none => exact ⟨_, none, fun _ => redactLines_other some_ fold named⟩
      | some k => exact ⟨_, some k, fun _ => redactLines_field some_ fold named⟩

theorem redactLines_over (empty : contentOf line = []) :
    redactLines false targetDone credential (line :: lines) = (line :: lines).flatten := by
  rw [redactLines, if_pos empty]
  rfl

/-- Once the head has begun, its lines are redacted up to the first empty one. -/
theorem redactLines_append (some_ : ∀ line ∈ lines, contentOf line ≠ [])
    (empty : contentOf line' = []) :
    redactLines false targetDone credential (lines ++ line' :: lines') =
      redactLines false targetDone credential lines ++ (line' :: lines').flatten := by
  induction lines generalizing targetDone credential with
  | nil => exact redactLines_over empty
  | cons line lines ih =>
      obtain ⟨out, next, step⟩ :=
        redactLines_step false targetDone credential (some_ line List.mem_cons_self)
      rw [List.cons_append, step, step, ih fun l mem => some_ l (List.mem_cons_of_mem _ mem),
        List.append_assoc]

/-- A head: it may begin with empty lines, and it has lines that are not empty. -/
structure IsHead (head : Bytes) : Prop where
  ends : head.getLast? = some 10
  lines : ∃ empty line lines, linesOf head = empty ++ line :: lines ∧
    (∀ l ∈ empty, contentOf l = []) ∧ ∀ l ∈ line :: lines, contentOf l ≠ []

theorem redactObservedRequest_append {head e : Bytes} (body : Bytes) (isHead : IsHead head)
    (ends : e = [10] ∨ e = [13, 10]) :
    redactObservedRequest (head ++ (e ++ body)) =
      redactObservedRequest head ++ (e ++ body) := by
  obtain ⟨empty, line, lines, parts, blank, some_⟩ := isHead.lines
  obtain ⟨out, next, step⟩ := redactLines_step true false none (some_ line List.mem_cons_self)
  have rest : (e :: linesOf body).flatten = e ++ body := by
    rw [List.flatten_cons, flatten_linesOf]
  rw [redactObservedRequest, redactObservedRequest, linesOf_append (.inr isHead.ends),
    linesOf_empty_cons ends, parts, List.append_assoc, redactLines_empty blank,
    redactLines_empty blank, List.cons_append, step, step,
    redactLines_append (fun l mem => some_ l (List.mem_cons_of_mem _ mem)) (contentOf_empty ends),
    rest]
  simp only [List.append_assoc]

/-- Nothing that is stored depends on a credential header's value, and what follows the head
is stored as it came. -/
theorem redaction_noninterference :
    (∀ raw raw', SameButCredentials raw raw' →
      redactObservedRequest raw = redactObservedRequest raw') ∧
    ∀ head e body, IsHead head → e = [10] ∨ e = [13, 10] →
      redactObservedRequest (head ++ (e ++ body)) =
        redactObservedRequest head ++ (e ++ body) :=
  ⟨fun _ _ same => redactObservedRequest_eq same,
    fun _ _ body isHead ends => redactObservedRequest_append body isHead ends⟩

/-- The lines of a request with a folded cookie. -/
def browsedLines (sid fold : String) : List Bytes :=
  [usAscii "GET / HTTP/1.1\r\n",
    usAscii "Cookie" ++ 58 :: (usAscii " " ++ (usAscii sid ++ [13, 10])),
    usAscii "\t" ++ (usAscii fold ++ [13, 10])]

def browsed (sid fold : String) : Bytes := (browsedLines sid fold).flatten

theorem browsed_alike :
    redactObservedRequest (browsed "sid=1; a" "b") = redactObservedRequest (browsed "" "theme=c") ∧
    redactObservedRequest (browsed "sid=1; a" "b" ++ ([13, 10] ++ usAscii "Cookie: c")) =
      redactObservedRequest (browsed "sid=1; a" "b") ++ ([13, 10] ++ usAscii "Cookie: c") := by
  have value : ∀ text, ((usAscii text).all fun b => b ≠ 13 ∧ b ≠ 10) = true →
      (usAscii text).head?.all (fun b => !isBlank b) = true → FieldValue (usAscii text) := by
    intro text plain starts
    refine ⟨List.all_iff_forall_prop.1 plain, ?_⟩
    intro b head
    rw [head] at starts
    exact (Bool.not_eq_true' _).mp starts
  have first : linesOf (browsed "sid=1; a" "b") = browsedLines "sid=1; a" "b" := by decide
  have second : linesOf (browsed "" "theme=c") = browsedLines "" "theme=c" := by decide
  have some_ : ∀ line ∈ browsedLines "sid=1; a" "b", contentOf line ≠ [] :=
    List.all_iff_forall_prop.1 (by decide)
  have alike : HeadsAlike false (browsedLines "sid=1; a" "b") (browsedLines "" "theme=c") := by
    refine .line (some_ _ List.mem_cons_self) (.same _) ?_
    refine .line (some_ _ (List.mem_cons_of_mem _ List.mem_cons_self))
      (.field (by decide) (by decide) (List.all_eq_true.1 (by decide))
        (value _ (by decide) (by decide)) (value _ (by decide) (by decide))
        (.inr (.inr (.inr rfl)))) ?_
    refine .line (some_ _ (List.mem_cons_of_mem _ (List.mem_cons_of_mem _ List.mem_cons_self)))
      (.fold (by decide) (by decide) (List.all_eq_true.1 (by decide))
        (value _ (by decide) (by decide)) (value _ (by decide) (by decide))
        (.inr (.inr (.inr rfl)))) (.rest [])
  refine ⟨redaction_noninterference.1 _ _ ⟨[], _, _, first, second, fun _ mem =>
    absurd mem List.not_mem_nil, alike⟩, redaction_noninterference.2 _ _ _ ⟨?_, ?_⟩ (.inr rfl)⟩
  · decide
  · exact ⟨[], _, _, first, fun _ mem => absurd mem List.not_mem_nil, some_⟩

end Runs

end Hx.Redact
