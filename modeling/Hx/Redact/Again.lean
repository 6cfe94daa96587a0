import Hx.Redact.Kept
import Hx.Redact.Settled

/-!
# Evidence that is redacted again

A response is not changed when it is redacted a second time. Of an observed request all but the
first line is kept, and the first line is kept too if it was settled.
-/

namespace Hx.Redact

open Hx.Library

/-! ## The ends of a target -/

namespace Vocabulary

variable {α : Type} {V : Vocabulary α} {s x y : List α} {a b : α}

/-- What stands before the first `:` and the first `?` is kept, and the letter behind it. -/
theorem exists_redact_front (plain : ∀ c ∈ x, V.code c ≠ 58 ∧ V.code c ≠ 63) :
    ∃ z, V.redact (x ++ a :: y) = x ++ a :: z := by
  have later : ∀ c ∈ V.sorted (V.userinfoCuts (x ++ a :: y) ++
      V.credentialParamCuts (x ++ a :: y)), (x ++ [a]).length ≤ c.start := by
    intro c mem
    have length : (x ++ [a]).length = x.length + 1 := by
      rw [List.length_append]
      rfl
    obtain user | param := List.mem_append.1 (mem_sorted.1 mem)
    · obtain none_ | ⟨scheme, k, found, -, one⟩ := V.userinfoCuts_cases (x ++ a :: y)
      · rw [none_] at user
        contradiction
      · rw [one, List.mem_singleton] at user
        have far : x.length ≤ scheme := by
          obtain ⟨u, sch, v, parts, rfl, spelled, -⟩ := exists_scheme found
          obtain ⟨as, rfl, -⟩ | ⟨bs, rfl, same⟩ := List.append_eq_append_iff.1 parts
          · rw [List.length_append]
            exact Nat.le_add_right _ _
          · cases bs with
            | nil => rw [List.append_nil]
            | cons d bs =>
                obtain ⟨c, rest, begins, colon⟩ := exists_colon spelled v
                rw [begins] at same
                have inside := (plain d (List.mem_append_right _ List.mem_cons_self)).1
                rw [(List.cons.inj same).1] at colon
                exact absurd colon inside
        rw [user, length]
        show x.length + 1 ≤ scheme + 3
        omega
    · have none_ : x.findIdx? (fun c => V.code c == 63) = none :=
        List.findIdx?_eq_none_iff.2 fun c mem => beq_eq_false_iff_ne.2 (plain c mem).2
      rw [credentialParamCuts, List.findIdx?_append, none_, Option.none_or] at param
      cases found : (a :: y).findIdx? fun c => V.code c == 63 with
      | none =>
          rw [found] at param
          contradiction
      | some q =>
          rw [found] at param
          have bounds : q + x.length + 1 < c.start := (isValue_of_mem param).bounds.1
          omega
  have parts : x ++ a :: y = (x ++ [a]) ++ y := by
    rw [List.append_assoc]
    rfl
  refine ⟨Cut.apply (x ++ a :: y) (x ++ [a]).length (V.sorted (V.userinfoCuts (x ++ a :: y) ++
    V.credentialParamCuts (x ++ a :: y))), ?_⟩
  rw [redact_eq, Cut.apply_from (Nat.zero_le _) later, List.drop_zero, Nat.sub_zero]
  nth_rewrite 1 [parts]
  rw [List.take_left, List.append_assoc]
  rfl

theorem head?_redact (s : List α) : (V.redact s).head? = s.head? := by
  cases s with
  | nil =>
      rw [redact_of_self]
      intro c mem
      have bounds := inOrder_bounds mem
      contradiction
  | cons a y =>
      have none_ : ∀ c ∈ ([] : List α), V.code c ≠ 58 ∧ V.code c ≠ 63 := fun c mem =>
        absurd mem List.not_mem_nil
      obtain ⟨z, whole⟩ := exists_redact_front (a := a) (y := y) none_
      rw [List.nil_append, List.nil_append] at whole
      rw [whole]
      rfl

/-- A text ends as it did, or with a placeholder. -/
theorem getLast?_redact (inert : Inert V) (last : (V.redact s).getLast? = some b) :
    s.getLast? = some b ∨ b ∈ V.userinfo ∨ b ∈ V.param := by
  rw [redact_eq] at last
  have some_ : ∀ c ∈ V.sorted (V.userinfoCuts s ++ V.credentialParamCuts s), c.text ≠ [] := by
    intro c mem
    obtain user | param := text_of_mem (mem_sorted.1 mem)
    · rw [user]
      exact V.userinfo_ne_nil
    · obtain ⟨d, ends, -⟩ := inert.last
      rw [param]
      rintro empty
      rw [empty] at ends
      contradiction
  obtain kept | ⟨cut, listed, text⟩ := Cut.getLast?_apply some_ last
  · exact .inl kept
  · obtain user | param := text_of_mem (mem_sorted.1 listed)
    · exact .inr (.inl (user ▸ text))
    · exact .inr (.inr (param ▸ text))

end Vocabulary

/-! ## One line of a request -/

section Line

variable {line t t' e : Bytes} {k : ℕ}

theorem getLast?_of_chop {b : UInt8} (same : chop b t = t) : t.getLast? ≠ some b := by
  intro last
  have shorter := congrArg List.length same
  rw [chop, if_pos last, List.length_dropLast] at shorter
  have some_ : t ≠ [] := by
    rintro rfl
    contradiction
  have positive := List.length_pos_iff.2 some_
  omega

/-- What ends like the content of a line, or not like a line, is the content with its end. -/
theorem contentOf_ends (ends : LineEnd e) (same : contentOf (t ++ e) = t)
    (last : ∀ b, t'.getLast? = some b → t.getLast? = some b ∨ b ≠ 13 ∧ b ≠ 10) :
    contentOf (t' ++ e) = t' := by
  have other : ∀ b, b = 13 ∨ b = 10 → t.getLast? ≠ some b → t'.getLast? ≠ some b := by
    rintro b either plain ends
    obtain same | ⟨cr, lf⟩ := last b ends
    · exact plain same
    · exact either.elim cr lf
  obtain rfl | rfl | rfl | rfl := ends
  · rw [List.append_nil] at same ⊢
    have prefix_ := chop_isPrefix 13 (chop 10 t)
    have lf : chop 10 t = t := by
      apply (chop_isPrefix 10 t).eq_of_length_le
      have longer := prefix_.length_le
      rw [← contentOf, same] at longer
      exact longer
    have cr : chop 13 t = t := by
      rw [contentOf, lf] at same
      exact same
    rw [contentOf, chop_of_ne (other 10 (.inr rfl) (getLast?_of_chop lf)),
      chop_of_ne (other 13 (.inl rfl) (getLast?_of_chop cr))]
  · have cr : (t' ++ [13]).getLast? ≠ some 10 := by
      rw [List.getLast?_concat]
      decide
    rw [contentOf, chop_of_ne cr, chop_concat]
  · rw [contentOf, chop_concat] at same ⊢
    exact chop_of_ne (other 13 (.inl rfl) (getLast?_of_chop same))
  · have both : t' ++ [13, 10] = (t' ++ [13]) ++ [10] := by
      rw [List.append_assoc]
      rfl
    rw [contentOf, both, chop_concat, chop_concat]

theorem inert_redactor : Vocabulary.Inert redactor where
  userinfo := List.all_iff_forall_prop.1 (by decide)
  param := List.all_iff_forall_prop.1 (by decide)
  last := ⟨125, by decide, by decide⟩

theorem placeholders_plain {b : UInt8} (mem : b ∈ observedUserinfo ∨ b ∈ observedParam) :
    b ≠ 13 ∧ b ≠ 10 := by
  have all : ∀ b ∈ observedUserinfo ++ observedParam, b ≠ 13 ∧ b ≠ 10 :=
    List.all_iff_forall_prop.1 (by decide)
  exact all b (List.mem_append.2 mem)

/-- The line that is redacted as a target keeps its end. -/
theorem kept_target (some_ : contentOf line ≠ []) :
    ∃ e, Kept line (redactTarget line) (redactTarget (contentOf line)) e := by
  obtain ⟨e, ends, whole⟩ := contentOf_cases line
  have inside : ∀ b ∈ e, b = 13 ∨ b = 10 := by
    obtain rfl | rfl | rfl | rfl := ends
    · exact List.forall_mem_nil _
    · exact List.all_iff_forall_prop.1 (by decide)
    · exact List.all_iff_forall_prop.1 (by decide)
    · exact List.all_iff_forall_prop.1 (by decide)
  have out : redactTarget (contentOf line ++ e) = redactTarget (contentOf line) ++ e := by
    apply Vocabulary.redact_append_plain
    · intro b head
      obtain rfl | rfl := inside b (List.mem_of_head? head)
      · rfl
      · rfl
    · intro b mem
      obtain rfl | rfl := inside b mem
      · decide
      · decide
  have last : ∀ b, (redactTarget (contentOf line)).getLast? = some b →
      (contentOf line).getLast? = some b ∨ b ≠ 13 ∧ b ≠ 10 := fun b found =>
    (Vocabulary.getLast?_redact inert_redactor found).imp_right placeholders_plain
  have content : contentOf (contentOf line ++ e) = contentOf line := by rw [← whole]
  refine ⟨e, ?_, whole, ?_, ?_, ?_, ?_⟩
  · rw [← out, ← whole]
  · rw [whole, out, ← whole]
    exact contentOf_ends ends content last
  · intro none_
    have head := Vocabulary.head?_redact (V := redactor) (contentOf line)
    have empty : redactor.redact (contentOf line) = [] := none_
    rw [empty] at head
    exact some_ (List.head?_eq_none_iff.1 head.symm)
  · intro clean mem
    obtain kept | placeholder := Vocabulary.mem_redact mem
    · exact clean kept
    · exact (placeholders_plain placeholder).2 rfl
  · intro other ends
    obtain same | plain := last 13 ends
    · exact other same
    · exact plain.1 rfl

theorem codes_of_bytes {b : UInt8} (other : (b == 58 || b == 63) = false) :
    redactor.code b ≠ 58 ∧ redactor.code b ≠ 63 := by
  rw [Bool.or_eq_false_iff, beq_eq_false_iff_ne, beq_eq_false_iff_ne] at other
  exact ⟨fun same => other.1 (UInt8.toNat_inj.1 same), fun same => other.2 (UInt8.toNat_inj.1 same)⟩

/-- It is a fold or a credential field no more than it was. -/
theorem credentialOf_target (plain : credentialOf t = none) :
    credentialOf (redactTarget t) = none := by
  obtain none_ | ⟨x, a, y, rfl, here, before⟩ :=
    exists_first (fun b : UInt8 => b == 58 || b == 63) t
  · have same : redactTarget t = t := by
      have colons : ∀ b ∈ t, redactor.code b ≠ 58 ∧ redactor.code b ≠ 63 := by
        intro b mem
        exact codes_of_bytes (none_ b mem)
      have user : redactor.userinfoCuts t = [] := Vocabulary.userinfoCuts_of_none
        (Vocabulary.schemeAt_eq_none fun b mem => (colons b mem).1)
      have params : t.findIdx? (fun b => redactor.code b == 63) = none :=
        List.findIdx?_eq_none_iff.2 fun b mem => beq_eq_false_iff_ne.2 (colons b mem).2
      rw [redactTarget, Vocabulary.redact, user, Vocabulary.credentialParamCuts, params]
      rfl
    rw [same, plain]
  · have front : ∀ b ∈ x, redactor.code b ≠ 58 ∧ redactor.code b ≠ 63 := fun b mem =>
      codes_of_bytes (before b mem)
    have colon : 58 ∉ x := fun mem => (front 58 mem).1 rfl
    obtain ⟨z, whole⟩ := Vocabulary.exists_redact_front (a := a) (y := y) front
    rw [redactTarget, whole]
    rw [Bool.or_eq_true, beq_iff_eq, beq_iff_eq] at here
    obtain rfl | rfl := here
    · rw [credentialOf_colon _ colon] at plain ⊢
      exact plain
    · cases named : credentialOf (x ++ 63 :: z) with
      | none => rfl
      | some k =>
          obtain ⟨name, value, parts, -, known⟩ := exists_credential named
          have question : 63 ∈ name := by
            obtain ⟨as, rfl, same⟩ | ⟨bs, rfl, same⟩ := List.append_eq_append_iff.1 parts
            · cases as with
              | nil => exact absurd (List.cons.inj same).1 (by decide)
              | cons b as =>
                  rw [← (List.cons.inj same).1]
                  exact List.mem_append_right _ List.mem_cons_self
            · cases bs with
              | nil => exact absurd (List.cons.inj same).1 (by decide)
              | cons b bs =>
                  rw [(List.cons.inj same).1] at colon
                  exact absurd (List.mem_append_right _ List.mem_cons_self) colon
          rw [credentialName_of_question question] at known
          contradiction

/-! ## A credential header and its folds -/

theorem credential_lt (named : credentialOf t = some k) : k < credentialHeaders.length := by
  obtain ⟨name, value, -, -, known⟩ := exists_credential named
  exact (List.findIdx?_eq_some_iff_getElem.1 known).1

theorem placeholder_spec (small : k < credentialHeaders.length) :
    FieldValue (placeholder k) ∧ placeholder k ≠ [] ∧ 10 ∉ placeholder k ∧
      (placeholder k).getLast? = some 125 := by
  have cases_ : k = 0 ∨ k = 1 ∨ k = 2 := by
    have three : credentialHeaders.length = 3 := rfl
    omega
  obtain rfl | rfl | rfl := cases_
  · exact ⟨⟨List.all_iff_forall_prop.1 (by decide), by rintro b ⟨⟩; decide⟩, by decide, by decide,
      by decide⟩
  · exact ⟨⟨List.all_iff_forall_prop.1 (by decide), by rintro b ⟨⟩; decide⟩, by decide, by decide,
      by decide⟩
  · exact ⟨⟨List.all_iff_forall_prop.1 (by decide), by rintro b ⟨⟩; decide⟩, by decide, by decide,
      by decide⟩

theorem kept_fold (small : k < credentialHeaders.length) (fold : isFold line = true) :
    (∃ text e, Kept line (redactFold (some k) line) text e) ∧
      isFold (redactFold (some k) line) = true ∧
        redactFold (some k) (redactFold (some k) line) = redactFold (some k) line := by
  obtain ⟨blanks, v, e, some_, blank, starts, content, rfl⟩ := exists_fold fold
  obtain ⟨e', ends, whole⟩ := contentOf_cases (blanks ++ (v ++ e))
  rw [content, ← List.append_assoc] at whole
  obtain rfl := List.append_cancel_left whole
  obtain ⟨value, nonempty, plain, last⟩ := placeholder_spec small
  have out : redactFold (some k) (blanks ++ (v ++ e)) = blanks ++ (placeholder k ++ e) := by
    have behind : (blanks ++ (v ++ e)).drop (blanks ++ v).length = e := by
      rw [← List.append_assoc, List.drop_left]
    rw [redactFold, content]
    simp only [(takeWhile_blanks_append blank starts).1, behind, List.append_assoc]
  rw [out]
  refine ⟨⟨blanks ++ placeholder k, e, (List.append_assoc _ _ _).symm, ?_,
    contentOf_fold some_ blank value ends, List.append_ne_nil_of_left_ne_nil some_ _, ?_, ?_⟩,
    isFold_fold some_ blank, ?_⟩
  · rw [content, List.append_assoc]
  · intro clean mem
    rw [content] at clean
    obtain inside | inside := List.mem_append.1 mem
    · exact clean (List.mem_append_left _ inside)
    · exact plain inside
  · rw [List.getLast?_append, last, Option.some_or]
    exact fun _ => by decide
  · rw [redactFold_fold k some_ blank value ends, List.append_assoc]

theorem kept_field (named : credentialOf (contentOf line) = some k) :
    (∃ text e, Kept line (redactField k line) text e) ∧ isFold (redactField k line) = false ∧
      credentialOf (contentOf (redactField k line)) = some k ∧
        redactField k (redactField k line) = redactField k line := by
  obtain ⟨name, value, content, colon, known⟩ := exists_credential named
  obtain ⟨e, ends, whole⟩ := contentOf_cases line
  have isName : (credentialName name).isSome = true := by rw [known]; rfl
  obtain ⟨isValue, nonempty, plain, last⟩ := placeholder_spec (credential_lt named)
  have blank : ∀ b ∈ value.takeWhile isBlank, isBlank b = true := fun b mem =>
    List.mem_takeWhile_imp mem
  have out : redactField k line =
      name ++ 58 :: (value.takeWhile isBlank ++ (placeholder k ++ e)) := by
    have length : (name ++ [58]).length = name.length + 1 := List.length_append
    have parts : name ++ 58 :: value = (name ++ [58]) ++ value := by
      rw [List.append_assoc]
      rfl
    have takes : line.take (name.length + 1) = name ++ [58] := by
      rw [whole, content, parts, ← length, List.append_assoc, List.take_left]
    have drops : (name ++ 58 :: value).drop (name.length + 1) = value := by
      rw [parts, ← length, List.drop_left]
    have tail : line.drop (name ++ 58 :: value).length = e := by
      rw [whole, content, List.drop_left]
    rw [redactField, content, idxOf_colon colon, takes, drops, tail]
    simp only [List.append_assoc, List.cons_append, List.nil_append]
  have content' : contentOf (name ++ 58 :: (value.takeWhile isBlank ++ (placeholder k ++ e))) =
      name ++ 58 :: (value.takeWhile isBlank ++ placeholder k) :=
    contentOf_field blank isValue ends
  rw [out]
  refine ⟨⟨name ++ 58 :: (value.takeWhile isBlank ++ placeholder k), e, ?_, whole, content', ?_,
    ?_, ?_⟩, isFold_field isName, ?_, redactField_field k colon blank isValue ends⟩
  · simp only [List.append_assoc, List.cons_append]
  · exact List.append_ne_nil_of_right_ne_nil _ (List.cons_ne_nil _ _)
  · intro clean mem
    rw [content] at clean
    simp only [List.mem_append, List.mem_cons, not_or] at clean mem
    obtain inside | same | inside | inside := mem
    · exact clean.1 inside
    · exact clean.2.1 same
    · exact clean.2.2 ((List.takeWhile_prefix isBlank).subset inside)
    · exact plain inside
  · simp only [List.getLast?_append, List.getLast?_cons, last, Option.some_or, Option.getD_some]
    exact fun _ => by decide
  · rw [content', credentialOf_field colon isName, known]

end Line

/-! ## A second run over a request -/

section Runs

variable {line out : Bytes} {lines outs rest : List Bytes} {credential : Option ℕ}

/-- The line that is redacted as a target: the first that is not empty, unless it is a fold or
a credential header. -/
def targetLine (raw : Bytes) : Option Bytes :=
  ((linesOf raw).find? fun line => decide (contentOf line ≠ [])).filter fun line =>
    !isFold line && (credentialOf (contentOf line)).isNone

/-- Each line is kept, or is what it was. -/
abbrev Stay (lines outs : List Bytes) : Prop :=
  List.Forall₂ (fun line out => line = out ∨ ∃ text e, Kept line out text e) lines outs

theorem stay_refl (lines : List Bytes) : Stay lines lines :=
  List.forall₂_same.2 fun _ _ => .inl rfl

theorem Kept.ne_nil {text e : Bytes} (kept : Kept line out text e) : contentOf out ≠ [] :=
  fun none_ => kept.some_ (kept.content.symm.trans none_)

theorem exists_fold_again (small : ∀ k, credential = some k → k < credentialHeaders.length)
    (some_ : contentOf line ≠ []) (fold : isFold line = true) :
    ∃ out, (line = out ∨ ∃ text e, Kept line out text e) ∧ contentOf out ≠ [] ∧
      isFold out = true ∧ redactFold credential line = out ∧ redactFold credential out = out := by
  cases credential with
  | none => exact ⟨line, .inl rfl, some_, fold, rfl, rfl⟩
  | some k =>
      obtain ⟨⟨text, e, kept⟩, fold', again⟩ := kept_fold (small k rfl) fold
      exact ⟨_, .inr ⟨text, e, kept⟩, kept.ne_nil, fold', rfl, again⟩

/-- Behind the first line every line of the head becomes one that is kept by a second run. -/
theorem exists_lines_again (small : ∀ k, credential = some k → k < credentialHeaders.length)
    (lines : List Bytes) :
    ∃ outs, Stay lines outs ∧ redactLines false true credential lines = outs.flatten ∧
      redactLines false true credential outs = outs.flatten := by
  induction lines generalizing credential with
  | nil => exact ⟨[], .nil, rfl, rfl⟩
  | cons line lines ih =>
      by_cases empty : contentOf line = []
      · exact ⟨line :: lines, stay_refl _, redactLines_over empty, redactLines_over empty⟩
      · cases fold : isFold line with
        | true =>
            obtain ⟨outs, stay, run, again⟩ := ih small
            obtain ⟨out, own, some_, fold', once, twice⟩ := exists_fold_again small empty fold
            refine ⟨out :: outs, .cons own stay, ?_, ?_⟩
            · rw [redactLines_fold empty fold, once, run, List.flatten_cons]
            · rw [redactLines_fold some_ fold', twice, again, List.flatten_cons]
        | false =>
            cases named : credentialOf (contentOf line) with
            | none =>
                have next : ∀ j, (none : Option ℕ) = some j → j < credentialHeaders.length :=
                  fun j same => absurd same.symm (Option.some_ne_none j)
                obtain ⟨outs, stay, run, again⟩ := ih next
                refine ⟨line :: outs, .cons (.inl rfl) stay, ?_, ?_⟩
                · rw [redactLines_other empty fold named, run]
                  rfl
                · rw [redactLines_other empty fold named, again]
                  rfl
            | some k =>
                obtain ⟨⟨text, e, kept⟩, field, named', twice⟩ := kept_field named
                have next : ∀ j, some k = some j → j < credentialHeaders.length := by
                  rintro j ⟨⟩
                  exact credential_lt named
                obtain ⟨outs, stay, run, again⟩ := ih next
                refine ⟨redactField k line :: outs, .cons (.inr ⟨text, e, kept⟩) stay, ?_, ?_⟩
                · rw [redactLines_field empty fold named, run, List.flatten_cons]
                · rw [redactLines_field kept.ne_nil field named', twice, again, List.flatten_cons]

/-- The lines of a request: empty ones, and then the first line of its head. -/
theorem lines_cases (lines : List Bytes) : (∀ line ∈ lines, contentOf line = []) ∨
    ∃ empty line rest, lines = empty ++ line :: rest ∧ (∀ l ∈ empty, contentOf l = []) ∧
      contentOf line ≠ [] := by
  obtain none_ | ⟨empty, line, rest, parts, here, before⟩ :=
    exists_first (fun line => decide (contentOf line ≠ [])) lines
  · exact .inl fun line mem => Decidable.not_not.1 (of_decide_eq_false (none_ line mem))
  · exact .inr ⟨empty, line, rest, parts,
      fun l mem => Decidable.not_not.1 (of_decide_eq_false (before l mem)), of_decide_eq_true here⟩

theorem targetLine_of_first {raw : Bytes} {empty : List Bytes}
    (parts : linesOf raw = empty ++ line :: rest) (before : ∀ l ∈ empty, contentOf l = [])
    (some_ : contentOf line ≠ []) : targetLine raw =
      if (!isFold line && (credentialOf (contentOf line)).isNone) = true then some line
      else none := by
  have skipped : empty.find? (fun line => decide (contentOf line ≠ [])) = none := by
    apply List.find?_eq_none.2
    intro l mem
    rw [decide_eq_true_iff]
    exact not_not_intro (before l mem)
  rw [targetLine, parts, List.find?_append, skipped, Option.none_or, List.find?_cons,
    decide_eq_true some_]
  exact Option.filter_some

/-- What is stored, in lines: a second run begins with the same empty lines. -/
theorem redactObservedRequest_flatten {raw : Bytes} {empty lines' : List Bytes}
    (parts : linesOf raw = empty ++ lines) (before : ∀ l ∈ empty, contentOf l = [])
    (stay : Stay lines lines') :
    redactObservedRequest ((empty ++ lines').flatten) =
      empty.flatten ++ redactLines true false none lines' := by
  have stay' : Stay (empty ++ lines) (empty ++ lines') := List.rel_append (stay_refl empty) stay
  have lined := lined_linesOf raw
  rw [parts] at lined
  rw [redactObservedRequest, linesOf_flatten (lined.of_kept stay'), redactLines_empty before]

/-- A second run can change the target line alone. -/
theorem redactObservedRequest_again (raw : Bytes) :
    (targetLine raw = none →
      redactObservedRequest (redactObservedRequest raw) = redactObservedRequest raw) ∧
    ∀ line, targetLine raw = some line → ∃ before behind,
      redactObservedRequest raw = before ++ (redactTarget line ++ behind) ∧
      redactObservedRequest (redactObservedRequest raw) =
        before ++ (redactTarget (redactTarget line) ++ behind) := by
  obtain empty | ⟨empty, line, rest, parts, before, some_⟩ := lines_cases (linesOf raw)
  · have none_ : targetLine raw = none := by
      have nowhere : (linesOf raw).find? (fun line => decide (contentOf line ≠ [])) = none := by
        apply List.find?_eq_none.2
        intro l mem
        rw [decide_eq_true_iff]
        exact not_not_intro (empty l mem)
      rw [targetLine, nowhere]
      rfl
    have once : redactObservedRequest raw = raw := by
      have run : redactLines true false none (linesOf raw ++ []) =
          (linesOf raw).flatten ++ redactLines true false none [] := redactLines_empty empty
      rw [List.append_nil] at run
      rw [redactObservedRequest, run, flatten_linesOf]
      exact List.append_nil raw
    refine ⟨fun _ => by rw [once, once], fun line found => ?_⟩
    rw [none_] at found
    contradiction
  · have none_ : ∀ j, (none : Option ℕ) = some j → j < credentialHeaders.length :=
      fun j same => absurd same.symm (Option.some_ne_none j)
    have once : redactObservedRequest raw =
        empty.flatten ++ redactLines true false none (line :: rest) := by
      rw [redactObservedRequest, parts, redactLines_empty before]
    rw [targetLine_of_first parts before some_]
    cases fold : isFold line with
    | true =>
        obtain ⟨outs, stay, run, again⟩ := exists_lines_again none_ rest
        have first : redactFold none line = line := rfl
        have out : redactObservedRequest raw = (empty ++ line :: outs).flatten := by
          rw [once, redactLines_fold some_ fold, run, first, List.flatten_append, List.flatten_cons]
        refine ⟨fun _ => ?_, fun _ found => absurd found (by simp)⟩
        rw [out, redactObservedRequest_flatten parts before (.cons (.inl rfl) stay),
          redactLines_fold some_ fold, again, first, List.flatten_append, List.flatten_cons]
    | false =>
        cases named : credentialOf (contentOf line) with
        | some k =>
            obtain ⟨⟨text, e, kept⟩, field, named', twice⟩ := kept_field named
            have next : ∀ j, some k = some j → j < credentialHeaders.length := by
              rintro j ⟨⟩
              exact credential_lt named
            obtain ⟨outs, stay, run, again⟩ := exists_lines_again next rest
            have out : redactObservedRequest raw =
                (empty ++ redactField k line :: outs).flatten := by
              rw [once, redactLines_field some_ fold named, run, List.flatten_append,
                List.flatten_cons]
            refine ⟨fun _ => ?_, fun _ found => absurd found (by simp)⟩
            rw [out, redactObservedRequest_flatten parts before (.cons (.inr ⟨text, e, kept⟩) stay),
              redactLines_field kept.ne_nil field named', twice, again, List.flatten_append,
              List.flatten_cons]
        | none =>
            obtain ⟨outs, stay, run, again⟩ := exists_lines_again none_ rest
            obtain ⟨e, kept⟩ := kept_target some_
            have out : redactObservedRequest raw =
                (empty ++ redactTarget line :: outs).flatten := by
              rw [once, redactLines_other some_ fold named, run, List.flatten_append,
                List.flatten_cons]
              rfl
            have fold' : isFold (redactTarget line) = false := by
              have head := Vocabulary.head?_redact (V := redactor) line
              rw [isFold, redactTarget, head]
              exact fold
            have named' : credentialOf (contentOf (redactTarget line)) = none := by
              rw [kept.content]
              exact credentialOf_target named
            refine ⟨fun found => absurd found (by simp), fun other found => ?_⟩
            obtain rfl : line = other := by simpa using found
            refine ⟨empty.flatten, outs.flatten, ?_, ?_⟩
            · rw [out, List.flatten_append, List.flatten_cons]
            · rw [out, redactObservedRequest_flatten parts before
                (.cons (.inr ⟨_, e, kept⟩) stay), redactLines_other kept.ne_nil fold' named', again]
              rfl

end Runs

/-! ## A second run over a response -/

section Responses

variable {c : Bool} {line out : Bytes} {lines outs : List Bytes}

/-- A line that has been redacted is kept by a second run. -/
theorem LineKept.sameStep (kept : LineKept c line out) (some_ : contentOf line ≠ []) :
    SameStep c line out := by
  have value : FieldValue observedCookie :=
    ⟨fun b mem => ⟨fun cr => observedCookie_plain b mem (by rw [cr]; decide),
      fun lf => observedCookie_plain b mem (by rw [lf]; decide)⟩, by rintro b ⟨⟩; decide⟩
  have nonempty : observedCookie ≠ [] := by decide
  cases kept with
  | line fold field => exact ⟨some_, rfl, rfl, fun _ => rfl⟩
  | @value name blanks cookie v attributes e parts named value =>
      have alike : CookiesAlike c _ _ :=
        .value parts named value ⟨nonempty, observedCookie_plain⟩
      exact alike.sameStep some_
  | deletion parts named => exact ⟨some_, rfl, rfl, fun _ => rfl⟩
  | @unnamed name blanks pair attributes e parts unnamed =>
      have parts' : PairLine name blanks observedCookie attributes e := by
        refine ⟨parts.colon, parts.named, parts.blank, value.starts, by decide, parts.behind, ?_⟩
        have whole : ∀ p, pairField name blanks p attributes =
            name ++ 58 :: blanks ++ p ++ attributes := by
          intro p
          simp only [pairField, List.append_assoc, List.cons_append]
        have content := parts.content
        rw [whole] at content ⊢
        exact contentOf_replace content parts.behind nonempty value.plain
      refine ⟨parts'.ne_nil, ?_, ?_, fun _ => ?_⟩
      · rw [parts.redactHeadLine_eq, parts'.redactHeadLine_eq, redactPair_unnamed unnamed,
          redactPair_unnamed (by decide)]
      · rw [parts.cookieAfter_eq, parts'.cookieAfter_eq]
      · rw [parts.opensInterim_eq, parts'.opensInterim_eq]
  | fold continues some' blank content starts =>
      have alike : CookiesAlike c _ _ := .fold continues some' blank content starts value
      exact alike.sameStep some_

theorem Fields.stay (kept : Fields LineKept c lines outs) : Stay lines outs := by
  induction kept with
  | finished c => exact .nil
  | line some_ alike _ ih => exact .cons (.inr (exists_kept alike some_)) ih

theorem Heads.stay (kept : Heads LineKept lines outs) : Stay lines outs := by
  induction kept with
  | finished => exact .nil
  | empty _ _ ih => exact .cons (.inl rfl) ih
  | cut head => exact head.stay
  | interim head _ _ _ ih => exact List.rel_append head.stay (.cons (.inl rfl) ih)
  | final body head _ _ => exact List.rel_append head.stay (stay_refl _)

theorem redactResponse_again (raw : Bytes) :
    redactResponse (redactResponse raw) = redactResponse raw := by
  obtain ⟨outs, heads, run⟩ := exists_heads _ (linesOf raw) (Nat.lt_succ_self _)
  have lined : Lined outs := (lined_linesOf raw).of_kept heads.stay
  have again : redactHeads true false false outs =
      redactHeads true false false (linesOf raw) :=
    (redactHeads_eq LineKept.sameStep heads).symm
  calc redactResponse (redactResponse raw)
      _ = redactHeads true false false (linesOf outs.flatten) := by rw [redactResponse, redactResponse, run]
      _ = redactHeads true false false (linesOf raw) := by rw [linesOf_flatten lined, again]

end Responses

/-- A request whose first URI has a userinfo, and whose token is no URI. -/
def signedIn : Bytes :=
  usAscii "GET /?to=http://u:p@h/&token=a%2Fb HTTP/1.1\r\nCookie: sid=1\r\n\r\n"

end Hx.Redact
