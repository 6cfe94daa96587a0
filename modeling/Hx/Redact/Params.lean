import Hx.Python.Text
import Hx.Redact.Credentials
import Hx.Redact.Places

/-!
# What a credential parameter's value leaves behind

The extension redacts the parameters of a request line, the store those of a url. In both,
the value of a parameter decides nothing exactly in a quiet place.
-/

namespace Hx.Redact

open Hx.Library

/-! ## The store -/

/-- `name.lower() in CREDENTIAL_PARAMS`. -/
def isCredentialParamText (name : List Char) : Bool :=
  credentialParams.any fun wanted => Python.lower name == wanted.toList

theorem letters_of_params_text : ∀ wanted ∈ credentialParams, ∀ c ∈ wanted.toList,
    97 ≤ c.toNat ∨ c.toNat = 95 ∨ 45 = c.toNat := by
  have all : credentialParams.all (fun wanted => wanted.toList.all fun c =>
      97 ≤ c.toNat ∨ c.toNat = 95 ∨ 45 = c.toNat) = true := by decide
  exact fun wanted listed => List.all_iff_forall_prop.1 (List.all_eq_true.1 all wanted listed)

theorem lowerChar_of_sign {c : Char} (small : c.toNat < 65) : Python.lowerChar c = [c] := by
  have kelvin : c ≠ '\u212a' := by
    rintro rfl
    exact absurd small (by decide)
  have dotted : c ≠ '\u0130' := by
    rintro rfl
    exact absurd small (by decide)
  have capital : ¬ ('A' ≤ c ∧ c ≤ 'Z') := fun range =>
    Nat.not_lt.2 (UInt32.le_iff_toNat_le.1 range.1) small
  rw [Python.lowerChar, if_neg kelvin, if_neg dotted, if_neg capital]

theorem isCredentialParamText_plain (name : List Char) (named : isCredentialParamText name = true) :
    ∀ c ∈ name, c.toNat ∉ [9, 10, 13, 32, 35, 38, 47, 58, 61, 63, 64] := by
  intro c mem sign
  simp only [List.mem_cons, List.not_mem_nil, or_false] at sign
  obtain ⟨wanted, listed, same⟩ := List.any_eq_true.1 named
  have among : c ∈ wanted.toList := by
    rw [← beq_iff_eq.1 same, Python.lower, List.mem_flatMap]
    refine ⟨c, mem, ?_⟩
    rw [lowerChar_of_sign (by omega)]
    exact List.mem_cons_self
  have letter := letters_of_params_text wanted listed c among
  omega

def observedUserinfoText : List Char := "\x7b\x7bobserved:userinfo\x7d\x7d".toList

theorem observedUserinfoText_plain :
    ∀ c ∈ observedUserinfoText, c.toNat ≠ 38 ∧ c.toNat ≠ 61 :=
  List.all_iff_forall_prop.1 (by decide)

theorem toNat_charOfNat {n : ℕ} (low : n < 128) : (Char.ofNat n).toNat = n := by
  have valid : n.isValidChar := .inl (by omega)
  rw [Char.ofNat, dif_pos valid]
  rfl

/-- `<` of two cuts, which are tuples. -/
def tupleBefore (c d : Cut Char) : Bool :=
  c.start < d.start || (c.start == d.start && decide (c.stop ≤ d.stop))

theorem tupleBefore_ordered {c d : Cut Char} (less : c.start < d.start) : tupleBefore c d = true :=
  Bool.or_eq_true_iff.2 (.inl (decide_eq_true less))

theorem tupleBefore_strict {c d : Cut Char} (le : tupleBefore c d = true) : c.start ≤ d.start := by
  simp only [tupleBefore, Bool.or_eq_true, Bool.and_eq_true, decide_eq_true_eq, beq_iff_eq] at le
  omega

theorem tupleBefore_shift (n : ℕ) (c d : Cut Char) :
    tupleBefore (c.shift n) (d.shift n) = tupleBefore c d := by
  simp only [tupleBefore, Cut.shift, Nat.add_lt_add_iff_left, Nat.add_le_add_iff_left,
    Nat.add_left_cancel_iff, BEq.beq]

theorem observedUserinfoText_ne_nil : observedUserinfoText ≠ [] := List.cons_ne_nil _ _

/-- Characters as letters of a url; cuts are sorted as tuples. -/
def records : Vocabulary Char where
  code c := c.toNat
  ofCode := Char.ofNat
  userinfo := observedUserinfoText
  param := "\x7b\x7bobserved:param\x7d\x7d".toList
  isCredentialParam := isCredentialParamText
  before := tupleBefore
  code_ofCode _ low := toNat_charOfNat low
  userinfo_ne_nil := observedUserinfoText_ne_nil
  userinfo_plain := observedUserinfoText_plain
  name_plain := isCredentialParamText_plain
  ordered _ _ := tupleBefore_ordered
  strict _ _ := tupleBefore_strict
  before_shift := tupleBefore_shift

/-- `redact_url`. -/
def redactUrl (url : List Char) : List Char := records.redact url

/-! ## The extension -/

/-- A request with the value of a credential parameter left open in its first line. Empty
lines may stand before it. -/
structure RequestPlace where
  empty : List Bytes
  line : Place redactor
  rest : Bytes
  empties : ∀ e ∈ empty, e = [10] ∨ e = [13, 10]
  pre_line : 10 ∉ line.pre
  after_line : (∃ after, line.after = after ++ [10] ∧ 10 ∉ after) ∨ 10 ∉ line.after ∧ rest = []

namespace RequestPlace

variable (r : RequestPlace)

def fill (v : Bytes) : Bytes := r.empty.flatten ++ (r.line.fill v ++ r.rest)

/-- The first line is no fold, and it is a credential field or the parameter's place in it is
quiet. -/
def Quiet : Prop :=
  isFold r.line.pre = false ∧ ((credentialOf r.line.pre).isSome = true ∨ r.line.Quiet)

variable {r} {v : Bytes}

theorem plain_value (value : Value redactor v) : ∀ b ∈ v, b ≠ 10 ∧ b ≠ 13 := by
  intro b mem
  have inside := (value.plain b mem).2
  constructor
  · rintro rfl
    exact absurd inside (by decide)
  · rintro rfl
    exact absurd inside (by decide)

theorem linesOf_empties {empty : List Bytes} (empties : ∀ e ∈ empty, e = [10] ∨ e = [13, 10])
    (t : Bytes) : linesOf (empty.flatten ++ t) = empty ++ linesOf t := by
  induction empty with
  | nil => rfl
  | cons e empty ih =>
      rw [List.flatten_cons, List.append_assoc, linesOf_empty_cons (empties e List.mem_cons_self),
        ih fun f mem => empties f (List.mem_cons_of_mem _ mem)]
      rfl

theorem linesOf_fill (value : Value redactor v) :
    linesOf (r.fill v) = r.empty ++ r.line.fill v :: linesOf r.rest := by
  have plain : 10 ∉ r.line.pre ++ v := by
    intro mem
    rcases List.mem_append.1 mem with before | own
    · exact r.pre_line before
    · exact (plain_value value 10 own).1 rfl
  have text : r.line.fill v = (r.line.pre ++ v) ++ r.line.after := (List.append_assoc _ _ _).symm
  rw [fill, linesOf_empties r.empties, text]
  rcases r.after_line with ⟨after, ended, clean⟩ | ⟨clean, none_⟩
  · have clean' : 10 ∉ (r.line.pre ++ v) ++ after := fun mem =>
      (List.mem_append.1 mem).elim plain clean
    have last : (((r.line.pre ++ v) ++ after) ++ [10]).getLast? = some 10 := List.getLast?_concat
    rw [ended, ← List.append_assoc, linesOf_append (.inr last), linesOf_ended clean']
    rfl
  · have clean' : 10 ∉ (r.line.pre ++ v) ++ r.line.after := fun mem =>
      (List.mem_append.1 mem).elim plain clean
    have some_ : (r.line.pre ++ v) ++ r.line.after ≠ [] :=
      List.append_ne_nil_of_left_ne_nil (List.append_ne_nil_of_right_ne_nil _ value.ne_nil) _
    rw [none_, List.append_nil, linesOf_single some_ clean']
    rfl

/-! ## The first line -/

/-- What stands after the value keeps its own content. -/
theorem contentOf_fill (value : Value redactor v) :
    contentOf (r.line.fill v) = (r.line.pre ++ v) ++ contentOf r.line.after := by
  have text : r.line.fill v = (r.line.pre ++ v) ++ r.line.after := (List.append_assoc _ _ _).symm
  have last : (r.line.pre ++ v).getLast? ≠ some 10 ∧ (r.line.pre ++ v).getLast? ≠ some 13 := by
    rcases List.eq_nil_or_concat v with rfl | ⟨init, b, rfl⟩
    · exact absurd rfl value.ne_nil
    · have plain := plain_value value b (by
        rw [List.concat_eq_append]
        exact List.mem_append_right _ List.mem_cons_self)
      rw [List.concat_eq_append, ← List.append_assoc, List.getLast?_concat]
      exact ⟨fun same => plain.1 (Option.some.inj same), fun same => plain.2 (Option.some.inj same)⟩
  rw [text, contentOf, chop_append last.1, chop_append last.2, contentOf]

theorem question_mem_pre (r : RequestPlace) : 63 ∈ r.line.pre :=
  List.mem_append_right _ List.mem_cons_self

theorem isFold_fill (v : Bytes) : isFold (r.line.fill v) = isFold r.line.pre := by
  obtain ⟨b, rest, parts⟩ := List.exists_cons_of_ne_nil (List.ne_nil_of_mem (question_mem_pre r))
  rw [Place.fill, parts]
  rfl

/-- Whether the line is a credential field is settled before the value. -/
theorem credentialOf_fill (value : Value redactor v) :
    credentialOf (contentOf (r.line.fill v)) = credentialOf r.line.pre := by
  rw [contentOf_fill value]
  by_cases colon : 58 ∈ r.line.pre
  · obtain ⟨name, rest, parts, plain⟩ := List.eq_append_cons_of_mem colon
    rw [parts, List.append_assoc, List.append_assoc, List.cons_append, credentialOf_colon _ plain,
      credentialOf_colon _ plain]
  · rw [credentialOf_none colon]
    by_cases later : 58 ∈ v ++ contentOf r.line.after
    · obtain ⟨name, rest, parts, plain⟩ := List.eq_append_cons_of_mem later
      have plain' : 58 ∉ r.line.pre ++ name := fun mem =>
        (List.mem_append.1 mem).elim colon plain
      rw [List.append_assoc, parts, ← List.append_assoc, credentialOf_colon _ plain',
        credentialName_of_question (List.mem_append_left _ (question_mem_pre r)), ite_self]
    · refine credentialOf_none fun mem => ?_
      rw [List.append_assoc] at mem
      exact (List.mem_append.1 mem).elim colon later

/-- A credential field goes whole, and a parameter in it. -/
theorem exists_redactField {k : ℕ} (named : credentialOf r.line.pre = some k) :
    ∃ out, ∀ v, Value redactor v → redactField k (r.line.fill v) = out := by
  obtain ⟨name, rest, parts, plain, known⟩ := exists_credential named
  have later : ∃ b ∈ rest, isBlank b = false := by
    have mem := question_mem_pre r
    rw [parts] at mem
    rcases List.mem_append.1 mem with before | after
    · rw [credentialName_of_question before] at known
      exact absurd known.symm (Option.some_ne_none k)
    · exact ⟨63, (List.mem_cons.1 after).resolve_left (by decide), rfl⟩
  refine ⟨name ++ [58] ++ rest.takeWhile isBlank ++ placeholder k ++
    r.line.after.drop (contentOf r.line.after).length, ?_⟩
  intro v value
  have content : contentOf (r.line.fill v) =
      name ++ 58 :: (rest ++ (v ++ contentOf r.line.after)) := by
    rw [contentOf_fill value, parts]
    simp only [List.append_assoc, List.cons_append]
  have text : r.line.fill v = (name ++ [58]) ++ (rest ++ (v ++ r.line.after)) := by
    rw [Place.fill, parts]
    simp only [List.append_assoc, List.cons_append, List.nil_append]
  have length : (name ++ [58]).length = name.length + 1 := List.length_append
  have takes : (r.line.fill v).take (name.length + 1) = name ++ [58] := by
    rw [text, ← length, List.take_left]
  have drops : (name ++ 58 :: (rest ++ (v ++ contentOf r.line.after))).drop (name.length + 1) =
      rest ++ (v ++ contentOf r.line.after) := by
    rw [← List.drop_drop, List.drop_left]
    rfl
  have tail : (r.line.fill v).drop (name ++ 58 :: (rest ++ (v ++ contentOf r.line.after))).length =
      r.line.after.drop (contentOf r.line.after).length := by
    have whole : r.line.fill v = (name ++ 58 :: (rest ++ v)) ++ r.line.after := by
      rw [text]
      simp only [List.append_assoc, List.cons_append, List.nil_append]
    have lengths : (name ++ 58 :: (rest ++ (v ++ contentOf r.line.after))).length =
        (name ++ 58 :: (rest ++ v)).length + (contentOf r.line.after).length := by
      simp only [List.length_append, List.length_cons]
      omega
    rw [whole, lengths, ← List.drop_drop, List.drop_left]
  rw [redactField, content, idxOf_colon plain, takes, drops, tail,
    Vocabulary.takeWhile_append_of_stops later]

/-! ## The request -/

theorem redactObservedRequest_fill (value : Value redactor v) :
    redactObservedRequest (r.fill v) =
      r.empty.flatten ++ redactLines true false none (r.line.fill v :: linesOf r.rest) := by
  have blank : ∀ e ∈ r.empty, contentOf e = [] := fun e mem => contentOf_empty (r.empties e mem)
  rw [redactObservedRequest, linesOf_fill value, redactLines_empty blank]

theorem content_ne_nil (value : Value redactor v) : contentOf (r.line.fill v) ≠ [] := by
  rw [contentOf_fill value]
  exact List.append_ne_nil_of_left_ne_nil (List.append_ne_nil_of_right_ne_nil _ value.ne_nil) _

/-- What the value of a parameter of the first line leaves behind. -/
theorem alike_iff (r : RequestPlace) :
    (∀ v v', Value redactor v → Value redactor v' →
      redactObservedRequest (r.fill v) = redactObservedRequest (r.fill v')) ↔ r.Quiet := by
  have letter : ∀ n, n = 97 ∨ n = 98 → Value redactor [n] := by
    rintro n (rfl | rfl)
    · exact ⟨List.cons_ne_nil _ _, List.all_iff_forall_prop.1 (by decide)⟩
    · exact ⟨List.cons_ne_nil _ _, List.all_iff_forall_prop.1 (by decide)⟩
  cases fold : isFold r.line.pre with
  | true =>
      have loud : ¬ r.Quiet := fun quiet => Bool.false_ne_true (quiet.1.symm.trans fold)
      have kept : ∀ v, Value redactor v → redactObservedRequest (r.fill v) =
          r.empty.flatten ++ (r.line.fill v ++ redactLines false true none (linesOf r.rest)) := by
        intro v value
        rw [redactObservedRequest_fill value,
          redactLines_fold (content_ne_nil value) ((isFold_fill v).trans fold)]
        rfl
      refine iff_of_false ?_ loud
      intro alike
      have same := alike [97] [98] (letter 97 (.inl rfl)) (letter 98 (.inr rfl))
      rw [kept _ (letter 97 (.inl rfl)), kept _ (letter 98 (.inr rfl))] at same
      have lines := List.append_cancel_right (List.append_cancel_left same)
      have values := List.append_cancel_right (List.append_cancel_left lines)
      contradiction
  | false =>
      cases named : credentialOf r.line.pre with
      | some k =>
          have quiet : r.Quiet := ⟨fold, .inl (by rw [named]; rfl)⟩
          obtain ⟨out, redacted⟩ := exists_redactField named
          refine iff_of_true ?_ quiet
          intro v v' value value'
          rw [redactObservedRequest_fill value, redactObservedRequest_fill value',
            redactLines_field (content_ne_nil value) ((isFold_fill v).trans fold)
              ((credentialOf_fill value).trans named),
            redactLines_field (content_ne_nil value') ((isFold_fill v').trans fold)
              ((credentialOf_fill value').trans named), redacted v value, redacted v' value']
      | none =>
          have quiet : r.Quiet ↔ r.line.Quiet := by
            rw [Quiet, fold, named]
            exact ⟨fun both => both.2.resolve_left Bool.false_ne_true, fun own => ⟨rfl, .inr own⟩⟩
          have target : ∀ v, Value redactor v → redactObservedRequest (r.fill v) =
              r.empty.flatten ++ (redactor.redact (r.line.fill v) ++
                redactLines false true none (linesOf r.rest)) := by
            intro v value
            rw [redactObservedRequest_fill value,
              redactLines_other (content_ne_nil value) ((isFold_fill v).trans fold)
                ((credentialOf_fill value).trans named)]
            rfl
          rw [quiet, ← Place.redact_alike_iff]
          constructor
          · intro alike v v' value value'
            have same := alike v v' value value'
            rw [target v value, target v' value'] at same
            exact List.append_cancel_right (List.append_cancel_left same)
          · intro alike v v' value value'
            rw [target v value, target v' value', alike v v' value value']

end RequestPlace

/-- A request line and a url are redacted alike, whatever value a credential parameter has,
exactly where the parameter's place is quiet. -/
theorem params_alike_iff (r : RequestPlace) (x : Place records) :
    ((∀ v v', Value redactor v → Value redactor v' →
      redactObservedRequest (r.fill v) = redactObservedRequest (r.fill v')) ↔ r.Quiet) ∧
    ((∀ v v', Value records v → Value records v' →
      redactUrl (x.fill v) = redactUrl (x.fill v')) ↔ x.Quiet) :=
  ⟨r.alike_iff, x.redact_alike_iff⟩

/-- A redirect before the password: the authority of its URI runs into the password. -/
def redirecting : Place records where
  front := "/".toList
  before := "to=http://h&".toList
  name := "password".toList
  after := "#top".toList
  front_plain := List.all_iff_forall_prop.1 (by decide)
  before_inside := List.all_iff_forall_prop.1 (by decide)
  before_ends := .inr ⟨"to=http://h".toList, rfl⟩
  named := by decide
  after_starts := by
    intro c head
    cases head
    decide

def redirectingLine : RequestPlace where
  empty := []
  line :=
    { front := usAscii "GET /"
      before := usAscii "to=http://h&"
      name := usAscii "password"
      after := usAscii " HTTP/1.1\r\n"
      front_plain := List.all_iff_forall_prop.1 (by decide)
      before_inside := List.all_iff_forall_prop.1 (by decide)
      before_ends := .inr ⟨usAscii "to=http://h", rfl⟩
      named := by decide
      after_starts := by
        intro c head
        cases head
        decide }
  rest := []
  empties _ mem := absurd mem List.not_mem_nil
  pre_line := by decide
  after_line := .inl ⟨usAscii " HTTP/1.1\r", rfl, by decide⟩

/-- What follows an `@` of the password is stored. -/
theorem redirect_leaks :
    (∃ v v', Value redactor v ∧ Value redactor v' ∧
      redactObservedRequest (redirectingLine.fill v) ≠
        redactObservedRequest (redirectingLine.fill v')) ∧
    ∃ v v', Value records v ∧ Value records v' ∧
      redactUrl (redirecting.fill v) ≠ redactUrl (redirecting.fill v') := by
  have bytes : ∀ text, usAscii text ≠ [] → ((usAscii text).all fun c =>
      redactor.code c ≠ 38 ∧ redactor.endsQuery c = false) = true →
        Value redactor (usAscii text) :=
    fun _ some_ all => ⟨some_, List.all_iff_forall_prop.1 all⟩
  have chars : ∀ text : List Char, text ≠ [] → (text.all fun c =>
      records.code c ≠ 38 ∧ records.endsQuery c = false) = true → Value records text :=
    fun _ some_ all => ⟨some_, List.all_iff_forall_prop.1 all⟩
  refine ⟨⟨usAscii "abc@tail", usAscii "abc@hide", bytes _ ?_ ?_, bytes _ ?_ ?_, ?_⟩,
    "abc@tail".toList, "abc@hide".toList, chars _ ?_ ?_, chars _ ?_ ?_, ?_⟩
  all_goals decide

end Hx.Redact
