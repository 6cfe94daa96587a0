import Mathlib.Data.List.DropRight
import Mathlib.Data.Nat.Digits.Defs

/-!
# The grammar of a request message

A strict reading of RFC 9112: a request line, field lines whose names are tokens right before
their colons, an empty line, and as many bytes of body as the one `Content-Length` counts.
A message that is transfer-coded, or that counts its body twice, is not read at all.
-/

namespace Hx.Library.Message

/-! ## Characters -/

def isDigit (b : UInt8) : Bool := 48 ≤ b && b ≤ 57

def isAlpha (b : UInt8) : Bool := (65 ≤ b && b ≤ 90) || (97 ≤ b && b ≤ 122)

def isHexDigit (b : UInt8) : Bool := isDigit b || (65 ≤ b && b ≤ 70) || (97 ≤ b && b ≤ 102)

/-- `tchar`. -/
def isTokenByte (b : UInt8) : Bool :=
  isDigit b || isAlpha b || [33, 35, 36, 37, 38, 39, 42, 43, 45, 46, 94, 95, 96, 124, 126].contains b

def isToken (t : List UInt8) : Bool := !t.isEmpty && t.all isTokenByte

/-- A character of a path or query that stands for itself: `pchar` without escapes, `/` and
`?`. -/
def isTargetByte (b : UInt8) : Bool :=
  isDigit b || isAlpha b ||
    [33, 36, 38, 39, 40, 41, 42, 43, 44, 45, 46, 47, 58, 59, 61, 63, 64, 95, 126].contains b

/-- Characters that stand for themselves, and whole percent escapes. -/
def isTargetText : List UInt8 → Bool
  | [] => true
  | b :: rest =>
      if b = 37 then
        match rest with
        | high :: low :: rest => isHexDigit high && isHexDigit low && isTargetText rest
        | _ => false
      else isTargetByte b && isTargetText rest

/-- `origin-form`. -/
def isOriginForm (t : List UInt8) : Bool := t.head? == some 47 && isTargetText t

def isBlank (b : UInt8) : Bool := b == 32 || b == 9

/-- Visible characters, `obs-text` and blanks. -/
def isFieldByte (b : UInt8) : Bool := isBlank b || (33 ≤ b && b ≤ 126) || 128 ≤ b

def lower (b : UInt8) : UInt8 := if 65 ≤ b && b ≤ 90 then b + 32 else b

/-! ## Parts of a message -/

structure Field where
  name : List UInt8
  value : List UInt8
  deriving DecidableEq

def Field.isNamed (name : List UInt8) (f : Field) : Bool := f.name.map lower == name

/-- `host`, `content-length`, `transfer-encoding`. -/
def hostName : List UInt8 := [104, 111, 115, 116]

def contentLengthName : List UInt8 :=
  [99, 111, 110, 116, 101, 110, 116, 45, 108, 101, 110, 103, 116, 104]

def transferEncodingName : List UInt8 :=
  [116, 114, 97, 110, 115, 102, 101, 114, 45, 101, 110, 99, 111, 100, 105, 110, 103]

structure Request where
  method : List UInt8
  target : List UInt8
  fields : List Field
  body : List UInt8
  deriving DecidableEq

def Request.named (r : Request) (name : List UInt8) : List Field :=
  r.fields.filter (Field.isNamed name)

/-- Without blanks at its ends. -/
def trim (v : List UInt8) : List UInt8 := (v.dropWhile isBlank).rdropWhile isBlank

/-! ## Reading -/

/-- The lines up to the first empty one, and what follows it; `line` is the beginning of the
first of them, backwards. -/
def headLines (line : List UInt8) : List UInt8 → Option (List (List UInt8) × List UInt8)
  | [] => none
  | [_] => none
  | b :: c :: rest =>
      if b = 13 ∧ c = 10 then
        if line = [] then some ([], rest)
        else (headLines [] rest).map fun (lines, body) => (line.reverse :: lines, body)
      else headLines (b :: line) (c :: rest)

/-- `HTTP/` and two digits with a point between them. -/
def isVersion (v : List UInt8) : Bool :=
  v.length == 8 && v.take 5 == [72, 84, 84, 80, 47] && (v.drop 5).head?.any isDigit &&
    (v.drop 6).head? == some 46 && (v.drop 7).head?.any isDigit

def parseRequestLine (line : List UInt8) : Option (List UInt8 × List UInt8) :=
  match line.splitOn 32 with
  | [method, target, version] =>
      if isToken method && isOriginForm target && isVersion version then some (method, target)
      else none
  | _ => none

def parseField (line : List UInt8) : Option Field :=
  match line.idxOf? 58 with
  | none => none
  | some colon =>
      if isToken (line.take colon) && (trim (line.drop (colon + 1))).all isFieldByte then
        some ⟨line.take colon, trim (line.drop (colon + 1))⟩
      else none

/-- The value of some digits. -/
def decimal (digits : List UInt8) : ℕ := digits.foldl (fun n b => 10 * n + (b.toNat - 48)) 0

/-- How long the body is. -/
def bodyLength (fields : List Field) : Option ℕ :=
  match fields.filter (Field.isNamed transferEncodingName) with
  | [] =>
      match fields.filter (Field.isNamed contentLengthName) with
      | [] => some 0
      | [f] => if f.value ≠ [] ∧ f.value.all isDigit then some (decimal f.value) else none
      | _ => none
  | _ => none

/-- One message and what is left over. -/
def parse (bytes : List UInt8) : Option (Request × List UInt8) :=
  match headLines [] bytes with
  | some (line :: lines, rest) =>
      match parseRequestLine line, lines.mapM parseField with
      | some (method, target), some fields =>
          match bodyLength fields with
          | some n =>
              if n ≤ rest.length then some (⟨method, target, fields, rest.take n⟩, rest.drop n)
              else none
          | none => none
      | _, _ => none
  | _ => none

/-! ## What is read -/

variable {bytes rest line l : List UInt8} {lines : List (List UInt8)} {r : Request} {f : Field}
  {fields : List Field}

/-- A field line that is read has a token for a name. -/
theorem parseField_ok (read : parseField line = some f) :
    isToken f.name = true ∧ f.value.all isFieldByte = true := by
  rw [parseField] at read
  split at read
  · contradiction
  · split at read
    · rename_i clean
      cases read
      exact Bool.and_eq_true_iff.1 clean
    · contradiction

theorem parseRequestLine_ok {method target : List UInt8}
    (read : parseRequestLine line = some (method, target)) :
    isToken method = true ∧ isOriginForm target = true := by
  rw [parseRequestLine] at read
  split at read
  · split at read
    · rename_i clean
      cases read
      exact Bool.and_eq_true_iff.1 (Bool.and_eq_true_iff.1 clean).1
    · contradiction
  · contradiction

theorem mem_of_mapM (read : lines.mapM parseField = some fields) :
    ∀ f ∈ fields, ∃ line ∈ lines, parseField line = some f := by
  induction lines generalizing fields with
  | nil =>
      cases read
      exact fun _ mem => absurd mem List.not_mem_nil
  | cons line lines ih =>
      rw [List.mapM_cons] at read
      obtain ⟨f, first, read⟩ := Option.bind_eq_some_iff.1 read
      obtain ⟨rest, later, read⟩ := Option.bind_eq_some_iff.1 read
      cases read
      intro g mem
      rcases List.mem_cons.1 mem with rfl | among
      · exact ⟨line, List.mem_cons_self, first⟩
      · obtain ⟨line', among', parsed⟩ := ih later g among
        exact ⟨line', List.mem_cons_of_mem _ among', parsed⟩

theorem bodyLength_ok {n : ℕ} (counted : bodyLength fields = some n) :
    fields.filter (Field.isNamed transferEncodingName) = [] ∧
      ((fields.filter (Field.isNamed contentLengthName) = [] ∧ n = 0) ∨
        ∃ f, fields.filter (Field.isNamed contentLengthName) = [f] ∧ f.value ≠ [] ∧
          f.value.all isDigit = true ∧ n = decimal f.value) := by
  rw [bodyLength] at counted
  split at counted
  · rename_i uncoded
    refine ⟨uncoded, ?_⟩
    split at counted
    · rename_i none_
      cases counted
      exact .inl ⟨none_, rfl⟩
    · rename_i f one
      split at counted
      · rename_i digits
        cases counted
        exact .inr ⟨f, one, digits.1, digits.2, rfl⟩
      · contradiction
    · contradiction
  · contradiction

/-- What a message that is read satisfies. -/
structure Read (r : Request) : Prop where
  method : isToken r.method = true
  target : isOriginForm r.target = true
  fields : ∀ f ∈ r.fields, isToken f.name = true ∧ f.value.all isFieldByte = true
  length : bodyLength r.fields = some r.body.length

theorem read_of_parse (read : parse bytes = some (r, rest)) : Read r := by
  rw [parse] at read
  split at read
  · split at read
    · rename_i first fields_
      split at read
      · rename_i n counted
        split at read
        · rename_i enough
          cases read
          have body := List.length_take_of_le enough
          refine ⟨(parseRequestLine_ok first).1, (parseRequestLine_ok first).2, ?_, ?_⟩
          · intro f mem
            obtain ⟨_, _, parsed⟩ := mem_of_mapM fields_ f mem
            exact parseField_ok parsed
          · rw [body]
            exact counted
        · contradiction
      · contradiction
    · contradiction
  · contradiction

/-! ## Writing -/

def crlf : List UInt8 := [13, 10]

theorem headLines_cons {b : UInt8} (line : List UInt8) (more : rest ≠ [])
    (plain : ¬ (b = 13 ∧ rest.head? = some 10)) :
    headLines line (b :: rest) = headLines (b :: line) rest := by
  cases rest with
  | nil => exact absurd rfl more
  | cons c rest =>
      have other : ¬ (b = 13 ∧ c = 10) := fun both => plain ⟨both.1, congrArg some both.2⟩
      rw [headLines, if_neg other]

/-- A line that is not empty is read up to its end. -/
theorem headLines_line (plain : 10 ∉ l) (some_ : line ≠ [] ∨ l ≠ []) :
    headLines line (l ++ (crlf ++ rest)) =
      (headLines [] rest).map fun (lines, body) => ((line.reverse ++ l) :: lines, body) := by
  induction l generalizing line with
  | nil =>
      have begun : line ≠ [] := some_.resolve_right fun ne => ne rfl
      have here : headLines line (13 :: 10 :: rest) =
          (headLines [] rest).map fun (lines, body) => (line.reverse :: lines, body) := by
        rw [headLines, if_pos ⟨rfl, rfl⟩, if_neg begun]
      rw [List.append_nil]
      exact here
  | cons b l ih =>
      have plain' : 10 ∉ l := fun mem => plain (List.mem_cons_of_mem _ mem)
      have more : l ++ (crlf ++ rest) ≠ [] :=
        List.append_ne_nil_of_right_ne_nil _ (List.cons_ne_nil _ _)
      have other : ¬ (b = 13 ∧ (l ++ (crlf ++ rest)).head? = some 10) := by
        rintro ⟨_, head⟩
        cases l with
        | nil => exact absurd (Option.some.inj head) (by decide)
        | cons c l => exact plain' (Option.some.inj head ▸ List.mem_cons_self)
      rw [List.cons_append, headLines_cons line more other,
        ih plain' (.inl (List.cons_ne_nil _ _)), List.reverse_cons]
      simp only [List.append_assoc, List.singleton_append]

/-- Lines, each with its end, and an empty one. -/
def writeHead : List (List UInt8) → List UInt8
  | [] => crlf
  | line :: lines => line ++ (crlf ++ writeHead lines)

theorem headLines_writeHead (plain : ∀ line ∈ lines, line ≠ [] ∧ 10 ∉ line) :
    headLines [] (writeHead lines ++ rest) = some (lines, rest) := by
  induction lines with
  | nil => rfl
  | cons line lines ih =>
      obtain ⟨some_, clean⟩ := plain line List.mem_cons_self
      have next := ih fun l mem => plain l (List.mem_cons_of_mem _ mem)
      rw [writeHead, List.append_assoc, List.append_assoc, headLines_line clean (.inr some_), next]
      rfl

theorem plain_token {t : List UInt8} (token : isToken t = true) :
    32 ∉ t ∧ 10 ∉ t ∧ 58 ∉ t := by
  have all := List.all_eq_true.1 (Bool.and_eq_true_iff.1 token).2
  exact ⟨fun mem => absurd (all _ mem) (by decide), fun mem => absurd (all _ mem) (by decide),
    fun mem => absurd (all _ mem) (by decide)⟩

theorem plain_targetText {t : List UInt8} (text : isTargetText t = true) :
    ∀ b ∈ t, isTargetByte b = true ∨ b = 37 ∨ isHexDigit b = true := by
  induction t using isTargetText.induct with
  | case1 => exact fun _ mem => absurd mem List.not_mem_nil
  | case2 high low rest ih =>
      rw [isTargetText, if_pos rfl] at text
      obtain ⟨digits, later⟩ := Bool.and_eq_true_iff.1 text
      obtain ⟨first, second⟩ := Bool.and_eq_true_iff.1 digits
      refine List.forall_mem_cons.2 ⟨.inr (.inl rfl), List.forall_mem_cons.2
        ⟨.inr (.inr first), List.forall_mem_cons.2 ⟨.inr (.inr second), ih later⟩⟩⟩
  | case3 rest short =>
      rw [isTargetText.eq_def] at text
      simp only [if_true] at text
      contradiction
  | case4 b rest other ih =>
      rw [isTargetText.eq_def] at text
      simp only [if_neg other] at text
      obtain ⟨first, later⟩ := Bool.and_eq_true_iff.1 text
      exact List.forall_mem_cons.2 ⟨.inl first, ih later⟩

theorem plain_originForm {t : List UInt8} (origin : isOriginForm t = true) :
    32 ∉ t ∧ 10 ∉ t := by
  have all := plain_targetText (Bool.and_eq_true_iff.1 origin).2
  exact ⟨fun mem => absurd (all _ mem) (by decide), fun mem => absurd (all _ mem) (by decide)⟩

/-- `HTTP/1.1`. -/
def version : List UInt8 := [72, 84, 84, 80, 47, 49, 46, 49]

theorem parseRequestLine_write {method target : List UInt8} (isMethod : isToken method = true)
    (isTarget : isOriginForm target = true) :
    parseRequestLine (method ++ 32 :: (target ++ 32 :: version)) = some (method, target) := by
  have last : version.splitOn 32 = [version] := List.splitOn_eq_singleton (by decide)
  have known : isVersion version = true := by decide
  rw [parseRequestLine, List.splitOn_append_cons_self_of_not_mem (plain_token isMethod).1,
    List.splitOn_append_cons_self_of_not_mem (plain_originForm isTarget).1, last]
  simp only [isMethod, isTarget, known, Bool.and_self, if_true]

theorem idxOf?_write {name : List UInt8} (plain : 58 ∉ name) (value : List UInt8) :
    (name ++ 58 :: value).idxOf? 58 = some name.length := by
  induction name with
  | nil => rfl
  | cons b name ih =>
      have other : (b == 58) = false := beq_eq_false_iff_ne.2 fun same =>
        plain (same ▸ List.mem_cons_self)
      rw [List.cons_append, List.idxOf?_cons, other,
        ih fun mem => plain (List.mem_cons_of_mem _ mem)]
      rfl

theorem mem_trim {v : List UInt8} {b : UInt8} (mem : b ∈ trim v) : b ∈ v :=
  (List.dropWhile_suffix isBlank).subset ((List.rdropWhile_prefix isBlank _).subset mem)

/-- What is trimmed off is blank. -/
theorem mem_of_trim {v : List UInt8} {b : UInt8} (mem : b ∈ v) :
    b ∈ trim v ∨ isBlank b = true := by
  have first := List.takeWhile_append_dropWhile (p := isBlank) (l := v)
  have last := List.rdropWhile_append_rtakeWhile (p := isBlank) (l := v.dropWhile isBlank)
  rw [← first, List.mem_append] at mem
  rcases mem with before | later
  · exact .inr (List.mem_takeWhile_imp before)
  · rw [← last, List.mem_append] at later
    rcases later with inside | after
    · exact .inl inside
    · exact .inr (List.mem_rtakeWhile_imp after)

theorem parseField_write {name value : List UInt8} (token : isToken name = true)
    (clean : ∀ b ∈ value, isFieldByte b = true) :
    parseField (name ++ 58 :: value) = some ⟨name, trim value⟩ := by
  have rest : (name ++ 58 :: value).drop (name.length + 1) = value := by
    rw [← List.drop_drop, List.drop_left]
    rfl
  have trimmed : (trim value).all isFieldByte = true :=
    List.all_eq_true.2 fun b mem => clean b (mem_trim mem)
  rw [parseField, idxOf?_write (plain_token token).2.2]
  simp only [List.take_left, rest, token, trimmed, Bool.and_self, if_true]

/-- A message that is written line by line is read back, and nothing is left over. -/
theorem parse_write {method target body : List UInt8} (isMethod : isToken method = true)
    (isTarget : isOriginForm target = true)
    (read : lines.mapM parseField = some fields)
    (plain : ∀ line ∈ lines, line ≠ [] ∧ 10 ∉ line)
    (counted : bodyLength fields = some body.length) :
    parse (writeHead ((method ++ 32 :: (target ++ 32 :: version)) :: lines) ++ body) =
      some (⟨method, target, fields, body⟩, []) := by
  have clean : 10 ∉ method ++ 32 :: (target ++ 32 :: version) := by
    intro mem
    rcases List.mem_append.1 mem with first | later
    · exact (plain_token isMethod).2.1 first
    · rcases List.mem_append.1 ((List.mem_cons.1 later).resolve_left (by decide)) with second | last
      · exact (plain_originForm isTarget).2 second
      · exact absurd last (by decide)
  have some_ : method ++ 32 :: (target ++ 32 :: version) ≠ [] :=
    List.append_ne_nil_of_right_ne_nil _ (List.cons_ne_nil _ _)
  rw [parse, headLines_writeHead (List.forall_mem_cons.2 ⟨⟨some_, clean⟩, plain⟩)]
  simp only [parseRequestLine_write isMethod isTarget, read, counted, le_refl, if_true,
    List.take_length, List.drop_length]

end Hx.Library.Message
