import Hx.Send.Connection

/-!
# The wire parsed again

`parse` reads the bytes of a request it accepted back as that request. The fields it keeps have
names and values that are stripped and of one line, so each is a line of its own on the wire; no
such line is empty, so the head ends where `wireBytes` ends it.
-/

namespace Hx.Send

open Hx.Java Hx.Bridge Hx.Policy

/-! ## The fields of an accepted request -/

/-- A line of ISO-8859-1 text without blanks around it. -/
structure Trimmed (s : JString) : Prop where
  unbroken : lf ∉ s
  stripped : strip s = s
  text : ∀ c ∈ s, c.val < 0x100

/-- A field name that is read back from a line. -/
structure FieldName (name : JString) : Prop extends Trimmed name where
  named : name ≠ []
  plain : colon ∉ name

/-- The fields as they are kept: a name once, with at least one value. -/
structure Fields (headers : List (JString × List JString)) : Prop where
  names : ∀ h ∈ headers, FieldName h.1
  values : ∀ h ∈ headers, h.2 ≠ [] ∧ ∀ v ∈ h.2, Trimmed v
  distinct : (headers.map Prod.fst).Nodup

section Strip

variable {s : JString} {c : JChar}

theorem mem_of_mem_strip (h : c ∈ strip s) : c ∈ s :=
  (List.dropWhile_sublist _).subset ((List.rdropWhile_prefix _ _).subset h)

theorem strip_strip : strip (strip s) = strip s := Library.ends_idempotent isWhitespace s

theorem strip_space (s : JString) : strip (space :: s) = strip s := by
  rw [strip, List.dropWhile_cons_of_pos (by decide), strip]

end Strip

section Fields

variable {headers : List (JString × List JString)} {name value : JString} {values : List JString}

theorem addHeader_new (new : name ∉ headers.map Prod.fst) :
    addHeader name value headers = headers ++ [(name, [value])] := by
  induction headers with
  | nil => rfl
  | cons h headers ih =>
      rw [List.map_cons, List.mem_cons, not_or] at new
      obtain ⟨n, values⟩ := h
      rw [addHeader, if_neg (Ne.symm new.1), ih new.2, List.cons_append]

theorem addHeader_last (new : name ∉ headers.map Prod.fst) :
    addHeader name value (headers ++ [(name, values)]) =
      headers ++ [(name, values ++ [value])] := by
  induction headers with
  | nil => rw [List.nil_append, addHeader, if_pos rfl, List.nil_append]
  | cons h headers ih =>
      rw [List.map_cons, List.mem_cons, not_or] at new
      obtain ⟨n, values⟩ := h
      rw [List.cons_append, addHeader, if_neg (Ne.symm new.1), ih new.2, List.cons_append]

/-- A further value joins the field of its name, or is the first of a new one. -/
theorem mem_addHeader {h : JString × List JString} (among : h ∈ addHeader name value headers) :
    h ∈ headers ∨ h.1 = name ∧ ∃ values, h.2 = values ++ [value] ∧
      (values = [] ∨ (name, values) ∈ headers) := by
  induction headers with
  | nil =>
      obtain rfl := List.mem_singleton.1 among
      exact Or.inr ⟨rfl, [], rfl, Or.inl rfl⟩
  | cons first headers ih =>
      obtain ⟨n, values⟩ := first
      rw [addHeader] at among
      split at among
      · rename_i same
        obtain rfl | among := List.mem_cons.1 among
        · exact Or.inr ⟨same, values, rfl, Or.inr (same ▸ List.mem_cons_self)⟩
        · exact Or.inl (List.mem_cons_of_mem _ among)
      · obtain rfl | among := List.mem_cons.1 among
        · exact Or.inl List.mem_cons_self
        · obtain old | ⟨named, values, ends, before⟩ := ih among
          · exact Or.inl (List.mem_cons_of_mem _ old)
          · exact Or.inr ⟨named, values, ends, before.imp_right (List.mem_cons_of_mem _)⟩

theorem map_fst_addHeader :
    (addHeader name value headers).map Prod.fst =
      if name ∈ headers.map Prod.fst then headers.map Prod.fst
      else headers.map Prod.fst ++ [name] := by
  induction headers with
  | nil => rfl
  | cons h headers ih =>
      obtain ⟨n, values⟩ := h
      rw [addHeader]
      by_cases same : n = name
      · rw [if_pos same, if_pos (same ▸ List.mem_cons_self)]
        rfl
      · rw [if_neg same, List.map_cons, ih]
        by_cases listed : name ∈ headers.map Prod.fst
        · have known : name ∈ ((n, values) :: headers).map Prod.fst :=
            List.mem_cons_of_mem _ listed
          rw [if_pos listed, if_pos known]
          rfl
        · have new : name ∉ ((n, values) :: headers).map Prod.fst := fun mem =>
            (List.mem_cons.1 mem).elim (fun own => same own.symm) listed
          rw [if_neg listed, if_neg new]
          rfl

theorem Fields.add (fields : Fields headers) (first : FieldName name) (last : Trimmed value) :
    Fields (addHeader name value headers) := by
  refine ⟨fun h among => ?_, fun h among => ?_, ?_⟩
  · obtain old | ⟨named, -⟩ := mem_addHeader among
    · exact fields.names h old
    · exact named ▸ first
  · obtain old | ⟨-, values, ends, before⟩ := mem_addHeader among
    · exact fields.values h old
    · rw [ends]
      refine ⟨List.append_ne_nil_of_right_ne_nil _ (List.cons_ne_nil _ _), fun v mem => ?_⟩
      obtain mem | mem := List.mem_append.1 mem
      · obtain rfl | listed := before
        · exact absurd mem List.not_mem_nil
        · exact (fields.values _ listed).2 v mem
      · exact List.mem_singleton.1 mem ▸ last
  · rw [map_fst_addHeader]
    split
    · exact fields.distinct
    · rename_i new
      rw [List.nodup_append]
      refine ⟨fields.distinct, List.nodup_singleton _, fun a memA b memB same => ?_⟩
      exact new (List.mem_singleton.1 memB ▸ same ▸ memA)

theorem take_of_idxOf? {c : JChar} {s : JString} {i : ℕ} (found : s.idxOf? c = some i) :
    i < s.length ∧ c ∉ s.take i := by
  obtain ⟨within, -, first⟩ := List.idxOf?_eq_some_iff.1 found
  refine ⟨within, fun mem => ?_⟩
  obtain ⟨j, short, same⟩ := List.mem_take_iff_getElem.1 mem
  exact first j (Nat.lt_of_lt_of_le short (Nat.min_le_left _ _)) same

/-- What is made of header lines are such fields. -/
theorem parseHeaders_fields {lines : List JString} {parsed : List (JString × List JString)}
    (fields : Fields headers) (clean : ∀ line ∈ lines, lf ∉ line ∧ ∀ c ∈ line, c.val < 0x100)
    (h : parseHeaders headers lines = .ok parsed) : Fields parsed := by
  induction lines generalizing headers with
  | nil =>
      cases h
      exact fields
  | cons line lines ih =>
      have rest := fun l mem => clean l (List.mem_cons_of_mem line mem)
      obtain ⟨unbroken, text⟩ := clean line List.mem_cons_self
      rw [parseHeaders] at h
      split at h
      · exact ih fields rest h
      split at h
      · cases h
      · cases h
      · rename_i at' positive found
        dsimp only at h
        split at h
        · cases h
        · rename_i stripped
          have short := List.take_subset at' line
          have later : ∀ c ∈ strip (line.drop (at' + 1)), c ∈ line := fun c mem =>
            List.mem_of_mem_drop (mem_of_mem_strip mem)
          obtain ⟨within, first⟩ := take_of_idxOf? found
          have name : FieldName (line.take at') :=
            { unbroken := fun mem => unbroken (short mem)
              stripped := (not_not.1 stripped).symm
              text := fun c mem => text c (short mem)
              named := fun none_ => ?_
              plain := first }
          have value : Trimmed (strip (line.drop (at' + 1))) :=
            ⟨fun mem => unbroken (later lf mem), strip_strip, fun c mem => text c (later c mem)⟩
          · exact ih (fields.add name value) rest h
          · obtain zero | empty := List.take_eq_nil_iff.1 none_
            · exact positive zero
            · exact absurd within (empty ▸ Nat.not_lt_zero _)

/-! ## The fields as lines -/

/-- A field as it is written. -/
def fieldLine (name value : JString) : JString := name ++ js ": " ++ value

def fieldLines (headers : List (JString × List JString)) : List JString :=
  headers.flatMap fun (name, values) => values.map (fieldLine name)

theorem headerText_eq (headers : List (JString × List JString)) :
    headerText headers = (fieldLines headers).flatMap (· ++ crlf) := by
  rw [headerText, fieldLines, List.flatMap_assoc]
  refine List.flatMap_congr fun h _ => ?_
  rw [List.flatMap_map]
  rfl

/-- A line is read as the field it was written for. -/
theorem parseHeaders_line (first : FieldName name) (last : Trimmed value) (rest : List JString) :
    parseHeaders headers (fieldLine name value :: rest) =
      parseHeaders (addHeader name value headers) rest := by
  have shape : fieldLine name value = name ++ colon :: (space :: value) := by
    rw [fieldLine, List.append_assoc]
    rfl
  have found : (fieldLine name value).idxOf? colon = some name.length := by
    rw [shape, idxOf?_append first.plain]
  have whole : ¬ (fieldLine name value).isEmpty = true := by
    rw [shape, List.isEmpty_iff]
    exact List.append_ne_nil_of_left_ne_nil first.named _
  have name_ : (fieldLine name value).take name.length = name := by
    rw [shape, List.take_left]
  have value_ : strip ((fieldLine name value).drop (name.length + 1)) = value := by
    rw [shape, ← List.drop_drop, List.drop_left, List.drop_one, List.tail_cons, strip_space]
    exact last.stripped
  obtain ⟨n, length⟩ := Nat.exists_eq_succ_of_ne_zero fun none_ =>
    first.named (List.eq_nil_of_length_eq_zero none_)
  rw [length] at found name_ value_
  rw [parseHeaders, if_neg whole, found]
  show (if _ then _ else _) = _
  rw [name_, value_, if_neg (not_not.2 first.stripped.symm)]

theorem parseHeaders_values (first : FieldName name) (last : ∀ v ∈ values, Trimmed v)
    (new : name ∉ headers.map Prod.fst) (known : List JString) (rest : List JString) :
    parseHeaders (headers ++ [(name, known)]) (values.map (fieldLine name) ++ rest) =
      parseHeaders (headers ++ [(name, known ++ values)]) rest := by
  induction values generalizing known with
  | nil => rw [List.map_nil, List.nil_append, List.append_nil]
  | cons v values ih =>
      rw [List.map_cons, List.cons_append, parseHeaders_line first (last v List.mem_cons_self),
        addHeader_last new, ih fun v mem => last v (List.mem_cons_of_mem _ mem), List.append_assoc]
      rfl

/-- The lines of some fields are read as these fields. -/
theorem parseHeaders_fieldLines {known : List (JString × List JString)} (fields : Fields headers)
    (new : ∀ h ∈ headers, h.1 ∉ known.map Prod.fst) :
    parseHeaders known (fieldLines headers) = .ok (known ++ headers) := by
  induction headers generalizing known with
  | nil =>
      rw [List.append_nil]
      rfl
  | cons h headers ih =>
      obtain ⟨name, values⟩ := h
      obtain ⟨some_, trimmed⟩ := fields.values _ List.mem_cons_self
      have first : FieldName name := fields.names _ List.mem_cons_self
      have own : name ∉ known.map Prod.fst := new _ List.mem_cons_self
      have distinct := fields.distinct
      rw [List.map_cons, List.nodup_cons] at distinct
      have rest : Fields headers :=
        ⟨fun h mem => fields.names h (List.mem_cons_of_mem _ mem),
          fun h mem => fields.values h (List.mem_cons_of_mem _ mem), distinct.2⟩
      obtain ⟨v, more, rfl⟩ := List.exists_cons_of_ne_nil some_
      have later : ∀ h ∈ headers, h.1 ∉ (known ++ [(name, v :: more)]).map Prod.fst := by
        intro h mem listed
        rw [List.map_append, List.mem_append] at listed
        obtain listed | listed := listed
        · exact new h (List.mem_cons_of_mem _ mem) listed
        · have same : h.1 = name := List.mem_singleton.1 listed
          exact distinct.1 (List.mem_map.2 ⟨h, mem, same⟩)
      have lines : fieldLines ((name, v :: more) :: headers) =
          fieldLine name v :: (more.map (fieldLine name) ++ fieldLines headers) := by
        rw [fieldLines, List.flatMap_cons]
        rfl
      rw [lines, parseHeaders_line first (trimmed v List.mem_cons_self), addHeader_new own,
        parseHeaders_values first (fun v mem => trimmed v (List.mem_cons_of_mem _ mem)) own,
        List.singleton_append, ih rest later, List.append_assoc]
      rfl

theorem mem_fieldLines {line : JString} (fields : Fields headers) (h : line ∈ fieldLines headers) :
    line ≠ [] ∧ lf ∉ line ∧ ∀ c ∈ line, c.val < 0x100 := by
  obtain ⟨⟨name, values⟩, among, h⟩ := List.mem_flatMap.1 h
  obtain ⟨v, mem, rfl⟩ := List.mem_map.1 h
  have first : FieldName name := fields.names _ among
  have last : Trimmed v := (fields.values _ among).2 v mem
  have mid : ∀ c ∈ js ": ", c.val < 0x100 ∧ c ≠ lf := by
    have all : (js ": ").all (fun c => c.val < 0x100 ∧ c ≠ lf) = true := by decide
    simpa only [List.all_eq_true, decide_eq_true_eq] using all
  rw [fieldLine, List.append_assoc]
  refine ⟨List.append_ne_nil_of_left_ne_nil first.named _, fun broken => ?_, fun c mem => ?_⟩
  · obtain inside | inside := List.mem_append.1 broken
    · exact first.unbroken inside
    · obtain inside | inside := List.mem_append.1 inside
      · exact (mid lf inside).2 rfl
      · exact last.unbroken inside
  · obtain inside | inside := List.mem_append.1 mem
    · exact first.text c inside
    · obtain inside | inside := List.mem_append.1 inside
      · exact (mid c inside).1
      · exact last.text c inside

end Fields

/-! ## Where the head ends -/

/-- Lines with their ends between them. -/
def joined : List JString → JString
  | [] => []
  | [line] => line
  | line :: lines => line ++ crlf ++ joined lines

section Joined

variable {line rest : JString} {lines : List JString}

theorem joined_cons (some_ : lines ≠ []) :
    joined (line :: lines) = line ++ crlf ++ joined lines := by
  cases lines with
  | nil => exact absurd rfl some_
  | cons next lines => rfl

theorem joined_append_crlf (some_ : lines ≠ []) :
    joined lines ++ crlf = lines.flatMap (· ++ crlf) := by
  induction lines with
  | nil => exact absurd rfl some_
  | cons line lines ih =>
      by_cases last : lines = []
      · rw [last, List.flatMap_cons, List.flatMap_nil, List.append_nil]
        rfl
      · rw [joined_cons last, List.append_assoc, ih last, List.flatMap_cons]

theorem splitLines_line (clean : lf ∉ line) : splitLines line = [line] := by
  induction line with
  | nil => rfl
  | cons c line ih =>
      have other : c ≠ lf := fun same => clean (same ▸ .head _)
      have unpaired : line.head? ≠ some lf := fun same => clean (.tail _ (List.mem_of_head? same))
      rw [splitLines, if_neg other, if_neg fun paired => unpaired paired.2,
        ih fun among => clean (.tail _ among)]
      rfl

/-- Lines that are joined are split again. -/
theorem splitLines_joined (some_ : lines ≠ []) (clean : ∀ line ∈ lines, lf ∉ line) :
    splitLines (joined lines) = lines := by
  induction lines with
  | nil => exact absurd rfl some_
  | cons line lines ih =>
      have first := clean line List.mem_cons_self
      by_cases last : lines = []
      · rw [last]
        exact splitLines_line first
      · rw [joined_cons last, splitLines_append first,
          ih last fun line mem => clean line (List.mem_cons_of_mem _ mem)]

/-- Text that does not start with an LF is not what has one in its second place. -/
theorem indexOf_not_second {a c : JChar} {more text : JString} (plain : text.head? ≠ some lf) :
    indexOf (a :: lf :: more) (c :: text) = (indexOf (a :: lf :: more) text).map (· + 1) := by
  have no : (a :: lf :: more).isPrefixOf (c :: text) = false := by
    cases text with
    | nil => exact Bool.and_false _
    | cons d text =>
        have other : (lf == d) = false := beq_eq_false_iff_ne.2 fun same => plain (same ▸ rfl)
        show (a == c && (lf == d && _)) = false
        rw [other, Bool.false_and, Bool.and_false]
  rw [indexOf, if_neg (Bool.eq_false_iff.1 no)]

/-- What is sought in a line is sought behind it. -/
theorem indexOf_behind {a : JChar} {more text : JString} (clean : lf ∉ line)
    (plain : text.head? ≠ some lf) :
    indexOf (a :: lf :: more) (line ++ text) =
      (indexOf (a :: lf :: more) text).map (· + line.length) := by
  induction line with
  | nil => exact Option.map_id'.symm
  | cons c line ih =>
      have next : (line ++ text).head? ≠ some lf := by
        cases line with
        | nil => exact plain
        | cons d line => exact fun same => clean (.tail _ (Option.some.inj same ▸ .head _))
      rw [List.cons_append, indexOf_not_second next, ih fun among => clean (.tail _ among),
        Option.map_map]
      rfl

theorem head?_crlf (rest : JString) : (crlf ++ rest).head? ≠ some lf :=
  fun same => absurd (Option.some.inj same) (by decide)

/-- The end of a line is not taken for that of the head where another line follows. -/
theorem indexOf_crlf_line (clean : lf ∉ line) (full : ¬ crlf <+: rest) :
    indexOf [cr, lf, cr, lf] (line ++ (crlf ++ rest)) =
      (indexOf [cr, lf, cr, lf] rest).map (· + (line.length + 2)) := by
  have no : [cr, lf, cr, lf].isPrefixOf (cr :: lf :: rest) = false := by
    refine Bool.eq_false_iff.2 fun yes => full ?_
    exact (List.prefix_append_right_inj crlf).1 (List.isPrefixOf_iff_prefix.1 yes)
  have second : [cr, lf, cr, lf].isPrefixOf (lf :: rest) = false := rfl
  have skipped : indexOf [cr, lf, cr, lf] (crlf ++ rest) =
      (indexOf [cr, lf, cr, lf] rest).map (· + 2) := by
    show indexOf [cr, lf, cr, lf] (cr :: lf :: rest) = _
    rw [indexOf, if_neg (Bool.eq_false_iff.1 no), indexOf, if_neg (Bool.eq_false_iff.1 second),
      Option.map_map]
    rfl
  rw [indexOf_behind clean (head?_crlf rest), skipped, Option.map_map]
  refine congrArg (fun f => Option.map f _) (funext fun k => ?_)
  show k + 2 + line.length = k + (line.length + 2)
  omega

theorem indexOf_crlf_last (clean : lf ∉ line) :
    indexOf [cr, lf, cr, lf] (line ++ (crlf ++ (crlf ++ rest))) = some line.length := by
  have found : indexOf [cr, lf, cr, lf] (crlf ++ (crlf ++ rest)) = some 0 := by
    show indexOf [cr, lf, cr, lf] (cr :: lf :: cr :: lf :: rest) = _
    rw [indexOf]
    rfl
  rw [indexOf_behind clean (head?_crlf _), found]
  exact congrArg some (Nat.zero_add _)

theorem indexOf_lf_line (clean : lf ∉ line) (plain : rest.head? ≠ some lf) :
    indexOf [lf, lf] (line ++ (crlf ++ rest)) =
      (indexOf [lf, lf] rest).map (· + (line.length + 2)) := by
  have skipped : indexOf [lf, lf] (crlf ++ rest) = (indexOf [lf, lf] rest).map (· + 2) := by
    have first : [lf, lf].isPrefixOf (cr :: lf :: rest) = false := rfl
    show indexOf [lf, lf] (cr :: lf :: rest) = _
    rw [indexOf, if_neg (Bool.eq_false_iff.1 first), indexOf_not_second plain, Option.map_map]
    rfl
  rw [indexOf_behind clean (head?_crlf rest), skipped, Option.map_map]
  refine congrArg (fun f => Option.map f _) (funext fun k => ?_)
  show k + 2 + line.length = k + (line.length + 2)
  omega

/-- A line with characters does not start as an empty one or as what ends it. -/
theorem full_line (clean : lf ∉ line) (full : line ≠ []) (rest : JString) :
    ¬ crlf <+: line ++ (crlf ++ rest) ∧ (line ++ (crlf ++ rest)).head? ≠ some lf := by
  cases line with
  | nil => exact absurd rfl full
  | cons c line =>
      constructor
      · rintro ⟨text, same⟩
        have second : lf :: text = line ++ (crlf ++ rest) := (List.cons.inj same).2
        cases line with
        | nil => exact absurd (List.cons.inj second).1 (by decide)
        | cons d line => exact clean (.tail _ ((List.cons.inj second).1 ▸ .head _))
      · exact fun same => clean (Option.some.inj same ▸ .head _)

/-- The head that some lines make ends behind the last of them. -/
theorem headOf_joined (some_ : lines ≠ []) (clean : ∀ line ∈ lines, lf ∉ line)
    (full : ∀ line ∈ lines.tail, line ≠ []) (rest : JString) :
    headOf (joined lines ++ (crlf ++ (crlf ++ rest))) =
      ((joined lines).length, (joined lines).length + 4) := by
  have places : indexOf [cr, lf, cr, lf] (joined lines ++ (crlf ++ (crlf ++ rest))) =
        some (joined lines).length ∧
      indexOf [lf, lf] (joined lines ++ (crlf ++ (crlf ++ rest))) =
        (indexOf [lf, lf] (crlf ++ rest)).map (· + ((joined lines).length + 2)) := by
    induction lines with
    | nil => exact absurd rfl some_
    | cons line lines ih =>
        have first := clean line List.mem_cons_self
        cases lines with
        | nil => exact ⟨indexOf_crlf_last first, indexOf_lf_line first (head?_crlf rest)⟩
        | cons next lines =>
            have later : ∀ line ∈ (next :: lines).tail, line ≠ [] := fun l mem =>
              full l (List.mem_cons_of_mem _ mem)
            obtain ⟨four, two⟩ := ih (List.cons_ne_nil _ _)
              (fun l mem => clean l (List.mem_cons_of_mem _ mem)) later
            have shape : joined (line :: next :: lines) ++ (crlf ++ (crlf ++ rest)) =
                line ++ (crlf ++ (joined (next :: lines) ++ (crlf ++ (crlf ++ rest)))) := by
              rw [joined_cons (List.cons_ne_nil _ _), List.append_assoc, List.append_assoc]
            have starts : ∃ text, joined (next :: lines) ++ (crlf ++ (crlf ++ rest)) =
                next ++ (crlf ++ text) := by
              cases lines with
              | nil => exact ⟨_, rfl⟩
              | cons after lines =>
                  refine ⟨joined (after :: lines) ++ (crlf ++ (crlf ++ rest)), ?_⟩
                  rw [joined_cons (List.cons_ne_nil _ _), List.append_assoc, List.append_assoc]
            obtain ⟨text, starts⟩ := starts
            obtain ⟨notEmpty, notLf⟩ := full_line
              (clean next (List.mem_cons_of_mem _ List.mem_cons_self))
              (full next List.mem_cons_self) text
            rw [← starts] at notEmpty notLf
            have size : (joined (line :: next :: lines)).length =
                (joined (next :: lines)).length + (line.length + 2) := by
              rw [joined_cons (List.cons_ne_nil _ _), List.length_append, List.length_append,
                Nat.add_comm]
              rfl
            rw [shape, size, indexOf_crlf_line first notEmpty, four,
              indexOf_lf_line first notLf, two, Option.map_map]
            refine ⟨rfl, congrArg (fun f => Option.map f _) (funext fun k => ?_)⟩
            show k + _ + _ = _
            omega
  obtain ⟨four, two⟩ := places
  rw [headOf, four, two]
  cases indexOf [lf, lf] (crlf ++ rest) with
  | none => rfl
  | some k =>
      refine if_pos ?_
      show (joined lines).length ≤ k + ((joined lines).length + 2)
      omega

end Joined

/-! ## The request that is read back -/

section Reparse

variable {header : Header} {body : List UInt8} {req : HxRequest}

/-- The fields of an accepted request. -/
theorem parse_fields (h : parse header body = .ok req) : Fields req.headers := by
  unfold parse at h
  split at h
  · cases h
  · dsimp only at h
    split at h
    · cases h
    · split at h
      · rename_i line fields lines
        split at h
        · cases h
        · unfold requestOf at h
          split at h
          · split at h
            · cases h
            · split at h
              · cases h
              · rename_i headers parsed
                cases h
                refine parseHeaders_fields ⟨List.forall_mem_nil _, List.forall_mem_nil _,
                  List.nodup_nil⟩ (fun l mem => ?_) parsed
                have listed : l ∈ splitLines ((latin1 body).take (headOf (latin1 body)).1) := by
                  rw [lines]
                  exact .tail _ mem
                obtain ⟨unbroken, inside⟩ := mem_splitLines listed
                exact ⟨unbroken, fun c among =>
                  latin1_lt (List.mem_of_mem_take (inside c among))⟩
          · cases h
      · cases h

/-- The text of the wire: the lines of the head, an empty one and the body. -/
theorem latin1_wireBytes (method : Token req.method) (target : Token (targetText req))
    (fields : Fields req.headers) :
    latin1 (wireBytes req) =
        joined (lineText req :: fieldLines req.headers) ++ (crlf ++ (crlf ++ latin1 req.body)) ∧
      (wireBytes req).drop ((joined (lineText req :: fieldLines req.headers)).length + 4) =
        req.body := by
  have head : requestLine req ++ headerText req.headers ++ crlf =
      joined (lineText req :: fieldLines req.headers) ++ (crlf ++ crlf) := by
    have lines := joined_append_crlf (List.cons_ne_nil (lineText req) (fieldLines req.headers))
    rw [List.flatMap_cons, ← headerText_eq, ← requestLine_eq] at lines
    rw [← lines, List.append_assoc]
  have ends : ∀ c ∈ crlf, c.val < 0x100 := by
    have all : crlf.all (fun c => c.val < 0x100) = true := by decide
    simpa only [List.all_eq_true, decide_eq_true_eq] using all
  have text : ∀ c ∈ requestLine req ++ headerText req.headers ++ crlf, c.val < 0x100 := by
    intro c among
    rw [requestLine_eq, headerText_eq] at among
    simp only [List.mem_append, List.mem_flatMap] at among
    obtain ((among | among) | ⟨line, mem, among | among⟩) | among := among
    · exact lineText_lt method target c among
    · exact ends c among
    · exact (mem_fieldLines fields mem).2.2 c among
    · exact ends c among
    · exact ends c among
  have bytes : wireBytes req =
      (requestLine req ++ headerText req.headers ++ crlf).map latin1Byte ++ req.body := by
    have whole := latin1Bytes_append text []
    rw [List.append_nil, latin1Bytes, List.append_nil] at whole
    rw [wireBytes, whole]
  constructor
  · rw [bytes, latin1_append, latin1_map_latin1Byte text, head]
    simp only [List.append_assoc]
  · have size : ((requestLine req ++ headerText req.headers ++ crlf).map latin1Byte).length =
        (joined (lineText req :: fieldLines req.headers)).length + 4 := by
      rw [List.length_map, head, List.length_append]
      rfl
    rw [bytes, ← size, List.drop_left]

theorem head?_targetText {target : JString} (parsed : Parsed header req target) :
    (targetText req).head? = some slash := by
  obtain ⟨rest, rfl⟩ : ∃ rest, target = slash :: rest := by
    cases target with
    | nil => cases parsed.origin
    | cons c rest => exact ⟨rest, congrArg (· :: rest) (Option.some.inj parsed.origin)⟩
  rw [targetText, parsed.path, List.takeWhile_cons_of_pos (by decide)]
  rfl

/-- The bytes an accepted request is issued with are accepted as the same request: its method,
path, query, fields in their order and body. Its URL is the same but for a `?` with nothing behind
it. -/
theorem parse_wireBytes (h : parse header body = .ok req) :
    ∃ again, parse header (wireBytes req) = .ok again ∧
      again.method = req.method ∧ again.path = req.path ∧ again.query = req.query ∧
      again.headers = req.headers ∧ again.body = req.body ∧ again.host = req.host ∧
      again.url = urlOf (tlsOf header) req.host (targetPort header) (targetText req) := by
  obtain ⟨target, parsed⟩ := parse_ok h
  obtain ⟨token, path, query⟩ := parsed.target_text
  have fields := parse_fields h
  obtain ⟨text, rest⟩ := latin1_wireBytes parsed.method token fields
  have clean : ∀ line ∈ lineText req :: fieldLines req.headers, lf ∉ line :=
    List.forall_mem_cons.2 ⟨lf_not_mem_lineText parsed.method token, fun line mem =>
      (mem_fieldLines fields mem).2.1⟩
  have some_ : lineText req :: fieldLines req.headers ≠ [] := List.cons_ne_nil _ _
  have head := headOf_joined some_ clean (fun line mem => (mem_fieldLines fields mem).1)
    (latin1 req.body)
  have lines : splitLines ((latin1 (wireBytes req)).take (headOf (latin1 (wireBytes req))).1) =
      lineText req :: fieldLines req.headers := by
    rw [text, head, List.take_left, splitLines_joined some_ clean]
  have line : ¬ (lineText req).isEmpty = true := by
    rw [List.isEmpty_iff, lineText]
    exact List.append_ne_nil_of_right_ne_nil _ (List.cons_ne_nil _ _)
  have read : requestOf (tlsOf header) req.host (targetPort header) (lineText req)
      (fieldLines req.headers) req.body = .ok
        { req with url := urlOf (tlsOf header) req.host (targetPort header) (targetText req) } := by
    have known : parseHeaders [] (fieldLines req.headers) = .ok req.headers :=
      parseHeaders_fieldLines fields fun _ _ => List.not_mem_nil
    rw [requestOf, lineText, splitSpaces_line parsed.method.1 token.1]
    dsimp only
    rw [if_neg (not_not.2 (head?_targetText parsed)), known, path, query]
  refine ⟨{ req with url := urlOf (tlsOf header) req.host (targetPort header) (targetText req) },
    ?_, rfl, rfl, rfl, rfl, rfl, rfl, rfl⟩
  have behind : (wireBytes req).drop (headOf (latin1 (wireBytes req))).2 = req.body := by
    rw [text, head]
    exact rest
  rw [parse, parsed.host]
  dsimp only
  rw [if_neg parsed.port, lines]
  dsimp only
  rw [if_neg line, behind]
  exact read

/-- A frame with LFs alone, an empty query and blanks around a value. -/
def looseHeader : Header := [(js "target_host", .string (js "shop.test"))]

def looseBody : List UInt8 :=
  latin1Bytes (js "GET /? HTTP/1.1" ++ [lf] ++ js "A:  1 " ++ [lf] ++ js "B:" ++ [lf] ++
    js "A: 2" ++ [lf, lf] ++ js "hi")

theorem loose_again : ∃ req again, parse looseHeader looseBody = .ok req ∧
    parse looseHeader (wireBytes req) = .ok again ∧ again.path = req.path ∧
      again.headers = req.headers ∧ again.body = req.body := by
  cases parsed : parse looseHeader looseBody with
  | error text =>
      have fine : (parse looseHeader looseBody).isOk = true := by decide +kernel
      rw [parsed] at fine
      contradiction
  | ok req =>
      obtain ⟨again, read, -, path, -, headers, body, -⟩ := parse_wireBytes parsed
      exact ⟨req, again, rfl, read, path, headers, body⟩

end Reparse

end Hx.Send
