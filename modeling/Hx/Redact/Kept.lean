import Hx.Redact.Cookies

/-!
# Lines that keep their place

A redacted line has an end like the one it had, and a content that is not empty. The lines of
what has been redacted are the redacted lines.
-/

namespace Hx.Redact

variable {name blanks pair pair' attributes line out e : Bytes} {c : Bool}

theorem observedCookie_plain : ∀ b ∈ observedCookie, b ∉ [13, 10, 59] :=
  List.all_iff_forall_prop.1 (by decide)

theorem observedCookie_last : observedCookie.getLast? = some 125 := by decide

/-- A line as the redaction leaves it: its content, and the end it had. -/
structure Kept (line out text e : Bytes) : Prop where
  out_eq : out = text ++ e
  line_eq : line = contentOf line ++ e
  content : contentOf out = text
  some_ : text ≠ []
  plain : 10 ∉ contentOf line → 10 ∉ text
  last : (contentOf line).getLast? ≠ some 13 → text.getLast? ≠ some 13

/-- Another pair in a field is no other line. -/
theorem kept_pair (parts : PairLine name blanks pair attributes e)
    (content : contentOf (pairField name blanks pair' attributes ++ e) =
      pairField name blanks pair' attributes)
    (plain : 10 ∉ pair → 10 ∉ pair') (last : pair'.getLast? = some 125) :
    Kept (pairField name blanks pair attributes ++ e) (pairField name blanks pair' attributes ++ e)
      (pairField name blanks pair' attributes) e where
  out_eq := rfl
  line_eq := by rw [parts.content]
  content := content
  some_ := List.append_ne_nil_of_right_ne_nil _ (List.cons_ne_nil _ _)
  plain clean mem := by
    rw [parts.content, pairField] at clean
    rw [pairField] at mem
    simp only [List.mem_append, List.mem_cons, not_or] at clean mem
    obtain named | colon | blank | pair | behind := mem
    · exact clean.1 named
    · exact clean.2.1 colon
    · exact clean.2.2.1 blank
    · exact plain clean.2.2.2.1 pair
    · exact clean.2.2.2.2 behind
  last ends := by
    have whole : ∀ p, pairField name blanks p attributes =
        name ++ 58 :: (blanks ++ p) ++ attributes := by
      intro p
      simp only [pairField, List.append_assoc, List.cons_append]
    rw [parts.content, whole, List.getLast?_append] at ends
    rw [whole, List.getLast?_append]
    cases behind : attributes.getLast? with
    | some b =>
        rw [behind] at ends
        exact ends
    | none =>
        have tail : (58 :: (blanks ++ pair')).getLast? = some 125 := by
          rw [List.getLast?_cons, List.getLast?_append, last]
          rfl
        rw [Option.none_or, List.getLast?_append, tail, Option.some_or]
        decide

theorem exists_kept (kept : LineKept c line out) (some_ : contentOf line ≠ []) :
    ∃ text e, Kept line out text e := by
  cases kept with
  | line fold field =>
      obtain ⟨e, -, whole⟩ := contentOf_cases line
      exact ⟨contentOf line, e, whole, whole, rfl, some_, id, id⟩
  | @value name blanks cookie v attributes e parts named value =>
      have some' : observedCookie ≠ [] := by decide
      have parts' := parts.with_value observedCookie_plain some'
      refine ⟨_, e, kept_pair parts parts'.content ?_ ?_⟩
      · simp only [List.mem_append, List.mem_cons, not_or]
        exact fun clean => ⟨clean.1, by decide, fun mem => observedCookie_plain 10 mem (by decide)⟩
      · rw [List.getLast?_append, List.getLast?_cons, observedCookie_last]
        rfl
  | @deletion name blanks cookie attributes e parts named =>
      exact ⟨_, e, rfl, by rw [parts.content], parts.content, fun none_ =>
        some_ (parts.content.trans none_), fun clean => by rwa [parts.content] at clean,
        fun clean => by rwa [parts.content] at clean⟩
  | @unnamed name blanks pair attributes e parts unnamed =>
      refine ⟨_, e, kept_pair parts ?_ ?_ observedCookie_last⟩
      · have whole : ∀ p, pairField name blanks p attributes =
            name ++ 58 :: blanks ++ p ++ attributes := by
          intro p
          simp only [pairField, List.append_assoc, List.cons_append]
        have content := parts.content
        rw [whole] at content ⊢
        exact contentOf_replace content parts.behind (by decide) fun b mem =>
          ⟨fun cr => observedCookie_plain b mem (by rw [cr]; decide),
            fun lf => observedCookie_plain b mem (by rw [lf]; decide)⟩
      · exact fun _ mem => observedCookie_plain 10 mem (by decide)
  | @fold blanks v e continues nonempty blank content starts =>
      have value : FieldValue observedCookie :=
        ⟨fun b mem => ⟨fun cr => observedCookie_plain b mem (by rw [cr]; decide),
          fun lf => observedCookie_plain b mem (by rw [lf]; decide)⟩, by rintro b ⟨⟩; decide⟩
      refine ⟨blanks ++ observedCookie, e, (List.append_assoc _ _ _).symm, ?_,
        contentOf_fold_replace nonempty blank content value,
        List.append_ne_nil_of_left_ne_nil nonempty _, ?_, ?_⟩
      · rw [content, List.append_assoc]
      · intro clean mem
        rw [content] at clean
        obtain inside | inside := List.mem_append.1 mem
        · exact clean (List.mem_append_left _ inside)
        · exact observedCookie_plain 10 inside (by decide)
      · rw [List.getLast?_append, observedCookie_last]
        rw [Option.some_or]
        exact fun _ => by decide

/-! ## The lines of what is left -/

/-- Lines end in LF and have no other; the last one may have none at all. -/
inductive Lined : List Bytes → Prop
  | nil : Lined []
  | last {t : Bytes} (some_ : t ≠ []) (plain : 10 ∉ t) : Lined [t]
  | line {t : Bytes} {lines : List Bytes} (plain : 10 ∉ t) (next : Lined lines) :
      Lined ((t ++ [10]) :: lines)

theorem lined_linesOf (raw : Bytes) : Lined (linesOf raw) := by
  induction raw with
  | nil => exact .nil
  | cons b raw ih =>
      rw [linesOf]
      by_cases lf : b = 10
      · rw [if_pos lf, lf]
        exact .line List.not_mem_nil ih
      · rw [if_neg lf]
        have plain : ∀ t : Bytes, 10 ∉ t → 10 ∉ b :: t := fun t clean mem =>
          (List.mem_cons.1 mem).elim (fun same => lf same.symm) clean
        generalize linesOf raw = lines at ih ⊢
        cases ih with
        | nil => exact .last (List.cons_ne_nil _ _) (plain [] List.not_mem_nil)
        | @last t some_ clean => exact .last (List.cons_ne_nil _ _) (plain t clean)
        | @line t lines clean next => exact .line (plain t clean) next

theorem linesOf_flatten {lines : List Bytes} (lined : Lined lines) :
    linesOf lines.flatten = lines := by
  induction lined with
  | nil => rfl
  | @last t some_ plain =>
      rw [List.flatten_cons, List.flatten_nil, List.append_nil, linesOf_single some_ plain]
  | @line t lines plain next ih =>
      rw [List.flatten_cons, linesOf_append (.inr List.getLast?_concat), linesOf_ended plain, ih]
      rfl

theorem mem_contentOf {b : UInt8} (mem : b ∈ contentOf line) : b ∈ line :=
  (contentOf_isPrefix line).subset mem

theorem lf_notMem_contentOf {t : Bytes} (plain : 10 ∉ t) : 10 ∉ contentOf (t ++ [10]) := by
  rw [contentOf, chop_concat]
  exact fun mem => plain ((chop_isPrefix 13 t).subset mem)

/-- A kept line is a line where the one it was is. -/
theorem Kept.lined {text : Bytes} {rest outs : List Bytes} (kept : Kept line out text e)
    (lined : Lined (line :: rest)) (next : Lined rest → Lined outs) (last : rest = [] → outs = []) :
    Lined (out :: outs) := by
  cases lined with
  | last some_ plain =>
      rw [last rfl]
      have clean := kept.plain fun mem => plain (mem_contentOf mem)
      have tail : 10 ∉ e := fun mem => plain (kept.line_eq ▸ List.mem_append_right _ mem)
      rw [kept.out_eq]
      refine .last (List.append_ne_nil_of_left_ne_nil kept.some_ _) ?_
      exact fun mem => (List.mem_append.1 mem).elim clean tail
  | @line t _ plain next' =>
      have inside := lf_notMem_contentOf plain
      have clean := kept.plain inside
      obtain rfl | ⟨init, b, rfl⟩ := List.eq_nil_or_concat e
      · have whole := kept.line_eq
        rw [List.append_nil] at whole
        rw [← whole] at inside
        exact absurd (List.mem_append_right _ List.mem_cons_self) inside
      · have whole := kept.line_eq
        rw [List.concat_eq_append, ← List.append_assoc] at whole
        obtain ⟨own, ends⟩ := List.append_inj' whole rfl
        have init_plain : 10 ∉ init := fun mem => plain (own ▸ List.mem_append_right _ mem)
        rw [kept.out_eq, List.concat_eq_append, ← ends, ← List.append_assoc]
        refine .line ?_ (next next')
        exact fun mem => (List.mem_append.1 mem).elim clean init_plain

/-- Lines of which each is kept, or is what it was. -/
theorem Lined.of_kept {lines outs : List Bytes} (lined : Lined lines)
    (kept : List.Forall₂ (fun line out => line = out ∨ ∃ text e, Kept line out text e) lines outs) :
    Lined outs := by
  induction kept with
  | nil => exact .nil
  | @cons line out lines outs own rest ih =>
      have last : lines = [] → outs = [] := by
        rintro rfl
        exact List.forall₂_nil_left_iff.1 rest
      obtain rfl | ⟨text, e, kept⟩ := own
      · cases lined with
        | last some_ plain =>
            rw [last rfl]
            exact .last some_ plain
        | line plain next => exact .line plain (ih next)
      · exact kept.lined lined ih last

end Hx.Redact
