import Hx.Redact.Kept
import Hx.Send.Classified

/-!
# Where a stored response's body begins

The extension reads a response head by head, the checks read it as one head and a body. On
what the extension stores the two agree exactly when no interim head comes first and the empty
line ends as the line before it does.
-/

namespace Hx.Issue.Boundary

open Hx.Redact Hx.Issue.HttpText Hx.Send.Status

/-- CRLF or a bare LF. -/
def ending (crlf : Bool) : Bytes := if crlf then [13, 10] else [10]

/-- A line of a head and how it ends. -/
structure Line where
  text : Bytes
  crlf : Bool
  some_ : text ≠ []
  plain : 10 ∉ text
  last : text.getLast? ≠ some 13

namespace Line

def bytes (l : Line) : Bytes := l.text ++ ending l.crlf

/-- The line up to its LF. -/
def raw (l : Line) : Bytes := l.text ++ if l.crlf then [13] else []

variable (l : Line)

theorem bytes_eq : l.bytes = l.raw ++ [10] := by
  rw [bytes, raw, ending, List.append_assoc]
  cases l.crlf with
  | true => rfl
  | false => rfl

theorem plain_raw : 10 ∉ l.raw := by
  rw [raw]
  intro mem
  obtain inside | cr := List.mem_append.1 mem
  · exact l.plain inside
  · cases crlf : l.crlf with
    | true =>
        rw [crlf] at cr
        contradiction
    | false =>
        rw [crlf] at cr
        contradiction

theorem strip1_text : strip1 l.text = l.text := if_neg l.last

theorem strip1_raw : strip1 l.raw = l.text := by
  rw [raw]
  cases l.crlf with
  | true => rw [strip1, if_pos rfl, List.getLast?_concat, if_pos rfl, List.dropLast_concat]
  | false => rw [if_neg Bool.false_ne_true, List.append_nil, l.strip1_text]

theorem lastBytes : l.bytes.getLast? = some 10 := by
  rw [bytes_eq, List.getLast?_concat]

theorem linesOf_bytes : Redact.linesOf l.bytes = [l.bytes] := by
  rw [bytes_eq, linesOf_ended l.plain_raw]

theorem contentOf_bytes : contentOf l.bytes = l.text := by
  apply contentOf_append
  · refine ⟨l.last, fun lf => l.plain (List.mem_of_getLast? lf)⟩
  · cases crlf : l.crlf with
    | true => exact .inr (.inr (.inr rfl))
    | false => exact .inr (.inr (.inl rfl))

end Line

/-! ## Status lines and heads -/

/-- `HTTP/` version, a space, three digits, and a reason behind a blank. -/
structure Status where
  version : Bytes
  hundreds : Fin 10
  tens : Fin 10
  ones : Fin 10
  reason : Bytes
  crlf : Bool
  version_plain : ∀ b ∈ version, b ∉ [10, 13, 32]
  reason_plain : 10 ∉ reason
  reason_blank : reason.head?.all isBlank = true
  reason_last : reason.getLast? ≠ some 13

namespace Status

def digit (n : Fin 10) : UInt8 := UInt8.ofNat (48 + n.val)

def code (s : Status) : ℕ := s.hundreds.val * 100 + s.tens.val * 10 + s.ones.val

def text (s : Status) : Bytes :=
  usAscii "HTTP/" ++ s.version ++ 32 :: digit s.hundreds :: digit s.tens :: digit s.ones :: s.reason

variable (s : Status)

theorem digit_plain : ∀ n : Fin 10, digit n ≠ 10 ∧ digit n ≠ 13 ∧ digit n ≠ 32 ∧
    Redact.isDigit (digit n) = true ∧ (digit n = 49 ↔ n = 1) := by decide

theorem digit_inj : ∀ n m : Fin 10, digit n = digit m → n = m := by decide

/-- The version ends at the first space. -/
theorem blank_notMem : 32 ∉ usAscii "HTTP/" ++ s.version := by
  intro mem
  obtain inside | inside := List.mem_append.1 mem
  · exact absurd inside (by decide)
  · exact s.version_plain 32 inside (by decide)

def line : Line where
  text := s.text
  crlf := s.crlf
  some_ := List.cons_ne_nil _ _
  plain mem := by
    obtain version | digits := List.mem_append.1 mem
    · obtain name | inside := List.mem_append.1 version
      · exact absurd name (by decide)
      · exact s.version_plain 10 inside (by decide)
    · simp only [List.mem_cons] at digits
      obtain blank | first | second | third | reason := digits
      · exact absurd blank (by decide)
      · exact (digit_plain s.hundreds).1 first.symm
      · exact (digit_plain s.tens).1 second.symm
      · exact (digit_plain s.ones).1 third.symm
      · exact s.reason_plain reason
  last := by
    have parts : s.text = (usAscii "HTTP/" ++ s.version ++
        [32, digit s.hundreds, digit s.tens, digit s.ones]) ++ s.reason := by
      simp only [text, List.append_assoc, List.cons_append, List.nil_append]
    rw [parts, List.getLast?_append]
    cases last : s.reason.getLast? with
    | none =>
        rw [Option.none_or, List.getLast?_append]
        exact fun same => (digit_plain s.ones).2.1 (Option.some.inj same)
    | some b =>
        intro same
        exact s.reason_last (last.trans same)

/-- A status line tells its code. -/
theorem code_of_text {s t : Status} (same : s.text = t.text) : s.code = t.code := by
  have first : ∀ s : Status, s.text.idxOf? 32 = some (usAscii "HTTP/" ++ s.version).length :=
    fun s => idxOf?_first s.blank_notMem
  have lengths : (usAscii "HTTP/" ++ s.version).length = (usAscii "HTTP/" ++ t.version).length := by
    have both := first s
    rw [same, first t] at both
    exact (Option.some.inj both).symm
  have digits := List.append_inj_right same lengths
  simp only [List.cons.injEq] at digits
  obtain ⟨-, hundreds, tens, ones, -⟩ := digits
  rw [code, code, digit_inj _ _ hundreds, digit_inj _ _ tens, digit_inj _ _ ones]

end Status

/-- A head: its status line, its fields, and how its empty line ends. -/
structure Head where
  status : Status
  fields : List Line
  crlf : Bool

namespace Head

def lines (h : Head) : List Line := h.status.line :: h.fields

def bytes (h : Head) : Bytes := (h.lines.map Line.bytes).flatten ++ ending h.crlf

/-- The last line of the head. -/
def lastLine (h : Head) : Line := h.lines.getLast (List.cons_ne_nil _ _)

end Head

/-- A response: interim heads, the final head and a body. -/
structure Response where
  interims : List Head
  final : Head
  body : Bytes
  few : interims.length < maxInterimHeads
  interim : ∀ h ∈ interims, isProvisional h.status.code
  isFinal : ¬ isProvisional final.status.code

namespace Response

def bytes (r : Response) : Bytes := (r.interims.map Head.bytes).flatten ++ (r.final.bytes ++ r.body)

/-- The status that is reported: the one of the first head. -/
def reported (r : Response) : ℕ := ((r.interims.head?.getD r.final).status).code

end Response

/-! ## What is stored -/

namespace Line

theorem kept (c : Bool) (l : Line) :
    ∃ text e, Kept l.bytes (redactHeadLine c l.bytes) text e :=
  exists_kept (lineKept c l.bytes) (l.contentOf_bytes ▸ l.some_)

/-- A line as it is stored. -/
def stored (c : Bool) (l : Line) : Line where
  text := contentOf (redactHeadLine c l.bytes)
  crlf := l.crlf
  some_ := by
    obtain ⟨text, e, kept⟩ := l.kept c
    rw [kept.content]
    exact kept.some_
  plain := by
    obtain ⟨text, e, kept⟩ := l.kept c
    rw [kept.content]
    exact kept.plain (l.contentOf_bytes ▸ l.plain)
  last := by
    obtain ⟨text, e, kept⟩ := l.kept c
    rw [kept.content]
    exact kept.last (l.contentOf_bytes ▸ l.last)

theorem bytes_stored (c : Bool) (l : Line) : (l.stored c).bytes = redactHeadLine c l.bytes := by
  obtain ⟨text, e, kept⟩ := l.kept c
  have ends : ending l.crlf = e := by
    have whole := kept.line_eq
    rw [l.contentOf_bytes] at whole
    exact List.append_cancel_left whole
  have content : (l.stored c).text = text := kept.content
  show (l.stored c).text ++ ending l.crlf = _
  rw [content, ends, kept.out_eq]

end Line

/-- The lines of a head as they are stored; `c` is whether a fold here continues a cookie. -/
def storedLines : Bool → List Line → List Line
  | _, [] => []
  | c, l :: ls => l.stored c :: storedLines (cookieAfter c l.bytes) ls

def bytesOf (ls : List Line) : Bytes := (ls.map Line.bytes).flatten

theorem bytesOf_cons (l : Line) (ls : List Line) : bytesOf (l :: ls) = l.bytes ++ bytesOf ls :=
  List.flatten_cons

theorem linesOf_bytesOf (ls : List Line) (rest : Bytes) :
    Redact.linesOf (bytesOf ls ++ rest) = ls.map Line.bytes ++ Redact.linesOf rest := by
  induction ls with
  | nil => rfl
  | cons l ls ih =>
      rw [bytesOf_cons, List.append_assoc, linesOf_append (.inr l.lastBytes), l.linesOf_bytes, ih]
      rfl

theorem ending_cases (crlf : Bool) : ending crlf = [10] ∨ ending crlf = [13, 10] := by
  cases crlf with
  | true => exact .inr rfl
  | false => exact .inl rfl

theorem linesOf_ending (crlf : Bool) (rest : Bytes) :
    Redact.linesOf (ending crlf ++ rest) = ending crlf :: Redact.linesOf rest :=
  linesOf_empty_cons (ending_cases crlf)

theorem contentOf_ending (crlf : Bool) : contentOf (ending crlf) = [] :=
  contentOf_empty (ending_cases crlf)

/-- A head is stored line by line. -/
theorem redactHeads_lines (i c : Bool) (ls : List Line) :
    ∃ c', ∀ rest, redactHeads false i c (ls.map Line.bytes ++ rest) =
      bytesOf (storedLines c ls) ++ redactHeads false i c' rest := by
  induction ls generalizing c with
  | nil => exact ⟨c, fun _ => rfl⟩
  | cons l ls ih =>
      obtain ⟨c', run⟩ := ih (cookieAfter c l.bytes)
      refine ⟨c', fun rest => ?_⟩
      have some_ : contentOf l.bytes ≠ [] := l.contentOf_bytes ▸ l.some_
      rw [List.map_cons, List.cons_append, redactHeads_line some_, run, storedLines, bytesOf_cons,
        l.bytes_stored, List.append_assoc]

/-- What is stored behind the final head. Behind a switch of protocols the redaction goes on. -/
def storedBody (h : Head) (body : Bytes) : Bytes :=
  if opensInterim h.status.line.bytes then redactResponse body else body

def storedHead (h : Head) : List Line := storedLines false h.lines

theorem redactResponse_head (h : Head) (rest : Bytes) :
    redactResponse (h.bytes ++ rest) =
      bytesOf (storedHead h) ++ (ending h.crlf ++ storedBody h rest) := by
  have lines : Redact.linesOf (h.bytes ++ rest) =
      h.status.line.bytes :: (h.fields.map Line.bytes ++ ending h.crlf :: Redact.linesOf rest) := by
    have parts : h.bytes ++ rest = bytesOf h.lines ++ (ending h.crlf ++ rest) :=
      List.append_assoc _ _ _
    rw [parts, linesOf_bytesOf, linesOf_ending]
    rfl
  have some_ : contentOf h.status.line.bytes ≠ [] :=
    h.status.line.contentOf_bytes ▸ h.status.line.some_
  obtain ⟨c', run⟩ := redactHeads_lines (opensInterim h.status.line.bytes) false h.lines
  have behind : redactHeads false (opensInterim h.status.line.bytes) c'
      (ending h.crlf :: Redact.linesOf rest) = ending h.crlf ++ storedBody h rest := by
    rw [storedBody]
    cases opensInterim h.status.line.bytes with
    | true => exact redactHeads_next (contentOf_ending _)
    | false =>
        rw [redactHeads_over (contentOf_ending _), List.flatten_cons, flatten_linesOf]
        rfl
  rw [redactResponse, lines, redactHeads_first some_, storedHead, ← behind]
  exact run _

/-- The first line of a head is stored as it came. -/
theorem text_stored_status (s : Status) : (s.line.stored false).text = s.text := by
  have content : contentOf s.line.bytes = s.text := s.line.contentOf_bytes
  have status : startsWithHttpName (contentOf s.line.bytes) = true := content ▸ rfl
  obtain ⟨fold, field⟩ := field_of_status status
  have same : redactHeadLine false s.line.bytes = s.line.bytes := by
    rw [redactHeadLine, fold, field]
    rfl
  show contentOf (redactHeadLine false s.line.bytes) = s.text
  rw [same, content]

/-! ## What is read -/

section Read

variable {l : Line} {ls : List Line} {crlf : Bool} {rest body : Bytes}

/-- What follows a line is no empty line, if it is a line. -/
theorem behind_line (l l' : Line) (rest : Bytes) :
    (l'.bytes ++ rest).head? ≠ some 10 ∧ closes l.raw (l'.bytes ++ rest) = false := by
  obtain ⟨b, t, parts⟩ := List.exists_cons_of_ne_nil l'.some_
  have bytes : l'.bytes ++ rest = b :: (t ++ (ending l'.crlf ++ rest)) := by
    rw [Line.bytes, parts, List.append_assoc]
    rfl
  have plain := l'.plain
  have last := l'.last
  rw [parts] at plain last
  constructor
  · rw [bytes, List.head?_cons]
    exact fun same => plain (Option.some.inj same ▸ List.mem_cons_self)
  · rw [closes, bytes]
    cases t with
    | nil =>
        have other : b ≠ 13 := fun same => last (same ▸ rfl)
        have none_ : [13, 10].isPrefixOf (b :: ([] ++ (ending l'.crlf ++ rest))) = false := by
          rw [List.isPrefixOf, beq_eq_false_iff_ne.2 other.symm, Bool.false_and]
        rw [none_, Bool.and_false]
    | cons d t =>
        have other : d ≠ 10 := fun same => plain (by simp [same])
        have none_ : [13, 10].isPrefixOf (b :: (d :: t ++ (ending l'.crlf ++ rest))) = false := by
          rw [List.cons_append, List.isPrefixOf, List.isPrefixOf, beq_eq_false_iff_ne.2 other.symm,
            Bool.false_and, Bool.and_false]
        rw [none_, Bool.and_false]

theorem bytes_append (l : Line) (rest : Bytes) : l.bytes ++ rest = l.raw ++ 10 :: rest := by
  rw [l.bytes_eq, List.append_assoc]
  rfl

/-- An LF behind a line ends the head. -/
theorem headLines_lf (l : Line) (body : Bytes) :
    headLines (l.raw ++ 10 :: 10 :: body) = [l.text] := by
  rw [headLines, splitHeadBody_lf l.plain_raw, List.splitOn_eq_singleton l.plain_raw]
  exact congrArg (· :: []) l.strip1_raw

theorem dropLast_raw (cr : l.raw.getLast? = some 13) : l.raw.dropLast = l.text := by
  rw [Line.raw] at cr ⊢
  cases crlf : l.crlf with
  | true => rw [if_pos rfl, List.dropLast_concat]
  | false =>
      rw [crlf, if_neg Bool.false_ne_true, List.append_nil] at cr
      exact absurd cr l.last

/-- So does a CRLF behind a line with a CR at its end. -/
theorem headLines_crlf (l : Line) (cr : l.raw.getLast? = some 13) (body : Bytes) :
    headLines (l.raw ++ 10 :: 13 :: 10 :: body) = [l.text] := by
  rw [headLines, splitHeadBody_crlf l.plain_raw cr, dropLast_raw cr,
    List.splitOn_eq_singleton l.plain]
  exact congrArg (· :: []) l.strip1_text

theorem headLines_ne_nil (t : Bytes) : headLines t ≠ [] := by
  rw [headLines]
  exact fun none_ => List.splitOn_ne_nil _ _ (List.map_eq_nil_iff.1 none_)

/-- The last line of a head and the empty line behind it. -/
theorem read_last (l : Line) (crlf : Bool) (body : Bytes) :
    (l.crlf = true ∨ crlf = false →
      headLines (l.bytes ++ (ending crlf ++ body)) = [l.text] ∧
        (splitHeadBody (l.bytes ++ (ending crlf ++ body))).2 = body) ∧
      (¬ (l.crlf = true ∨ crlf = false) →
        1 < (headLines (l.bytes ++ (ending crlf ++ body))).length) := by
  rw [bytes_append]
  cases crlf with
  | false =>
      refine ⟨fun _ => ⟨headLines_lf l body, ?_⟩, fun odd => absurd (.inr rfl) odd⟩
      exact congrArg Prod.snd (splitHeadBody_lf l.plain_raw body)
  | true =>
      cases own : l.crlf with
      | true =>
          have cr : l.raw.getLast? = some 13 := by
            rw [Line.raw, own, if_pos rfl, List.getLast?_concat]
          refine ⟨fun _ => ⟨headLines_crlf l cr body, ?_⟩, fun odd => absurd (.inl rfl) odd⟩
          exact congrArg Prod.snd (splitHeadBody_crlf l.plain_raw cr body)
      | false =>
          have open_ : closes l.raw (ending true ++ body) = false := by
            have raw : l.raw = l.text := by
              rw [Line.raw, own, if_neg Bool.false_ne_true, List.append_nil]
            rw [closes, raw, beq_eq_false_iff_ne.2 l.last, Bool.false_and]
          refine ⟨fun ends => absurd ends (by decide), fun _ => ?_⟩
          rw [headLines_line l.plain_raw (by rintro ⟨⟩) open_, List.length_cons]
          exact Nat.succ_lt_succ (List.length_pos_of_ne_nil (headLines_ne_nil _))

theorem read_lines (ls : List Line) (l : Line) (crlf : Bool) (body : Bytes) :
    (((l :: ls).getLast (List.cons_ne_nil _ _)).crlf = true ∨ crlf = false →
      headLines (bytesOf (l :: ls) ++ (ending crlf ++ body)) = (l :: ls).map Line.text ∧
        (splitHeadBody (bytesOf (l :: ls) ++ (ending crlf ++ body))).2 = body) ∧
      (¬ (((l :: ls).getLast (List.cons_ne_nil _ _)).crlf = true ∨ crlf = false) →
        (l :: ls).length < (headLines (bytesOf (l :: ls) ++ (ending crlf ++ body))).length) := by
  induction ls generalizing l with
  | nil =>
      have one : bytesOf [l] = l.bytes := List.append_nil _
      rw [one]
      exact read_last l crlf body
  | cons l' ls ih =>
      obtain ⟨regular, mixed⟩ := ih l'
      have parts : bytesOf (l :: l' :: ls) ++ (ending crlf ++ body) =
          l.raw ++ 10 :: (bytesOf (l' :: ls) ++ (ending crlf ++ body)) := by
        rw [bytesOf_cons, List.append_assoc, bytes_append]
      have next := behind_line l l' (bytesOf ls ++ (ending crlf ++ body))
      rw [← List.append_assoc, ← bytesOf_cons] at next
      rw [parts, headLines_line l.plain_raw next.1 next.2,
        splitHeadBody_line l.plain_raw next.1 next.2, l.strip1_raw, List.getLast_cons_cons]
      refine ⟨fun ends => ?_, fun odd => ?_⟩
      · obtain ⟨lines, rest⟩ := regular ends
        exact ⟨by rw [lines]; rfl, rest⟩
      · exact Nat.succ_lt_succ (mixed odd)

/-- The first line that is read is the first line there is. -/
theorem head_headLines (l : Line) (rest : Bytes) :
    (headLines (l.bytes ++ rest)).head? = some l.text := by
  rw [bytes_append]
  by_cases lf : rest.head? = some 10
  · obtain ⟨body, rfl⟩ := List.head?_eq_some_iff.1 lf
    rw [headLines_lf]
    rfl
  · cases close : closes l.raw rest with
    | true =>
        obtain ⟨cr, starts⟩ := Bool.and_eq_true_iff.1 close
        obtain ⟨body, rfl⟩ := List.isPrefixOf_iff_prefix.1 starts
        rw [List.cons_append, List.singleton_append, headLines_crlf l (beq_iff_eq.1 cr)]
        rfl
    | false =>
        rw [headLines_line l.plain_raw lf close, l.strip1_raw]
        rfl

end Read

/-- What is read of the stored response is the final head, whose status was reported, and what
was stored behind it. -/
structure OneBoundary (r : Response) : Prop where
  lines : headLines (redactResponse r.bytes) = (storedHead r.final).map Line.text
  body : (splitHeadBody (redactResponse r.bytes)).2 = storedBody r.final r.body
  status : scanStatus r.bytes r.reported = ⟨r.final.status.code, false⟩

theorem getLast_crlf (c : Bool) (l : Line) (ls : List Line) :
    ∃ l' ls', storedLines c (l :: ls) = l' :: ls' ∧
      ((l' :: ls').getLast (List.cons_ne_nil _ _)).crlf =
        ((l :: ls).getLast (List.cons_ne_nil _ _)).crlf := by
  induction ls generalizing c l with
  | nil => exact ⟨l.stored c, [], rfl, rfl⟩
  | cons l₂ ls ih =>
      obtain ⟨l', ls', parts, ends⟩ := ih (cookieAfter c l.bytes) l₂
      refine ⟨l.stored c, l' :: ls', ?_, ?_⟩
      · rw [storedLines, parts]
      · rw [List.getLast_cons_cons, List.getLast_cons_cons, ends]

theorem head_storedHead (h : Head) :
    ((storedHead h).map Line.text).head? = some h.status.text :=
  congrArg some (text_stored_status h.status)

/-- Where no interim head comes first, the stored head is read line by line. -/
theorem read_final (h : Head) (body : Bytes) :
    (h.lastLine.crlf = true ∨ h.crlf = false →
      headLines (redactResponse (h.bytes ++ body)) = (storedHead h).map Line.text ∧
        (splitHeadBody (redactResponse (h.bytes ++ body))).2 = storedBody h body) ∧
      (¬ (h.lastLine.crlf = true ∨ h.crlf = false) →
        headLines (redactResponse (h.bytes ++ body)) ≠ (storedHead h).map Line.text) := by
  obtain ⟨l', ls', parts, ends⟩ := getLast_crlf false h.status.line h.fields
  have stored : storedHead h = l' :: ls' := parts
  obtain ⟨regular, mixed⟩ := read_lines ls' l' h.crlf (storedBody h body)
  rw [ends] at regular mixed
  rw [redactResponse_head, stored]
  refine ⟨regular, fun odd same => ?_⟩
  have longer := mixed odd
  rw [same, List.length_map] at longer
  exact Nat.lt_irrefl _ longer

/-- The first line that is read of a stored response is its first status line. -/
theorem head_read (h : Head) (rest : Bytes) :
    (headLines (redactResponse (h.bytes ++ rest))).head? = some h.status.text := by
  have stored : storedHead h = h.status.line.stored false ::
      storedLines (cookieAfter false h.status.line.bytes) h.fields := rfl
  rw [redactResponse_head, stored, bytesOf_cons, List.append_assoc, head_headLines,
    text_stored_status]

/-- The checks read the final head and its body exactly when no interim head comes first and
the empty line is no CRLF behind a bare LF. -/
theorem one_boundary_iff (r : Response) :
    OneBoundary r ↔ r.interims = [] ∧ (r.final.lastLine.crlf = true ∨ r.final.crlf = false) := by
  cases interims : r.interims with
  | cons h rest =>
      refine ⟨fun one => ?_, fun ends => absurd ends.1 (List.cons_ne_nil _ _)⟩
      have bytes : r.bytes =
          h.bytes ++ ((rest.map Head.bytes).flatten ++ (r.final.bytes ++ r.body)) := by
        rw [Response.bytes, interims, List.map_cons, List.flatten_cons, List.append_assoc]
      have first := head_read h ((rest.map Head.bytes).flatten ++ (r.final.bytes ++ r.body))
      rw [← bytes, one.lines, head_storedHead] at first
      have codes := Status.code_of_text (Option.some.inj first)
      have interim := r.interim h (interims ▸ List.mem_cons_self)
      rw [← codes] at interim
      exact absurd interim r.isFinal
  | nil =>
      have bytes : r.bytes = r.final.bytes ++ r.body := by
        rw [Response.bytes, interims]
        rfl
      obtain ⟨regular, mixed⟩ := read_final r.final r.body
      rw [← bytes] at regular mixed
      constructor
      · intro one
        refine ⟨rfl, ?_⟩
        by_contra odd
        exact mixed odd one.lines
      · rintro ⟨-, ends⟩
        have reported : r.reported = r.final.status.code := by
          rw [Response.reported, interims]
          rfl
        refine ⟨(regular ends).1, (regular ends).2, ?_⟩
        rw [reported, scanStatus, if_neg r.isFinal]

/-- `103 Early Hints`. -/
def earlyHints : Head where
  status := ⟨usAscii "1.1", 1, 0, 3, usAscii " Early Hints", true,
    List.all_iff_forall_prop.1 (by decide), by decide, by decide, by decide⟩
  fields := []
  crlf := true

def forbidden (last crlf : Bool) : Head where
  status := ⟨usAscii "1.1", 4, 0, 3, usAscii " Forbidden", true,
    List.all_iff_forall_prop.1 (by decide), by decide, by decide, by decide⟩
  fields := [⟨usAscii "Content-Type: text/html", last, by decide, by decide, by decide⟩]
  crlf := crlf

def hintedResponse : Response where
  interims := [earlyHints]
  final := forbidden true true
  body := usAscii "<p>no"
  few := by decide
  interim := by decide
  isFinal := by decide

def mixedResponse : Response where
  interims := []
  final := forbidden false true
  body := usAscii "<p>no"
  few := by decide
  interim := by decide
  isFinal := by decide

/-- Of a response with an interim head the checks read that head, and the rest as its body; an
empty line that ends with CRLF behind a bare LF is not seen. -/
theorem boundary_missed : ¬ OneBoundary hintedResponse ∧ ¬ OneBoundary mixedResponse ∧
    headLines (redactResponse hintedResponse.bytes) = [usAscii "HTTP/1.1 103 Early Hints"] ∧
    (splitHeadBody (redactResponse mixedResponse.bytes)).2 = [] := by
  have hinted : headLines (redactResponse hintedResponse.bytes) =
      [usAscii "HTTP/1.1 103 Early Hints"] := by decide +kernel
  have mixed : (splitHeadBody (redactResponse mixedResponse.bytes)).2 = [] := by decide
  have stored : (storedHead hintedResponse.final).map Line.text =
      [usAscii "HTTP/1.1 403 Forbidden", usAscii "Content-Type: text/html"] := by decide
  have body : storedBody mixedResponse.final mixedResponse.body = usAscii "<p>no" := by
    decide
  refine ⟨fun one => ?_, fun one => ?_, hinted, mixed⟩
  · have lines := one.lines
    rw [hinted, stored] at lines
    exact absurd lines (by decide)
  · have both := one.body
    rw [mixed, body] at both
    exact absurd both (by decide)

end Hx.Issue.Boundary
