import Hx.Redact.Credentials

/-!
# Redaction of a response

Every head of a response is read line by line, the interim ones before the final one too. The
value of a cookie that is set is replaced, and so is every fold of it. What follows the empty
line that ends the final head is copied.
-/

namespace Hx.Redact

def observedCookie : Bytes := usAscii "\x7b\x7bobserved:set-cookie\x7d\x7d"

/-! ## Status lines -/

def startsWithHttpName (content : Bytes) : Bool := (usAscii "HTTP").isPrefixOf content

def isDigit (b : UInt8) : Bool := 48 ≤ b && b ≤ 57

/-- Three digits after the first space, the first of them a 1, and then the end or a blank. -/
def isInterim (content : Bytes) : Bool :=
  match content.idxOf? 32 with
  | none => false
  | some sp =>
      let code := content.drop (sp + 1)
      decide (3 ≤ code.length) && code.head? == some 49 && (code.take 3).all isDigit &&
        (code.drop 3).head?.all isBlank

/-- The line opens an interim head. -/
def opensInterim (line : Bytes) : Bool :=
  startsWithHttpName (contentOf line) && isInterim (contentOf line)

/-! ## Fields -/

def isSetCookieName (name : Bytes) : Bool :=
  asciiEqualsIgnoreCase "set-cookie" (name.rdropWhile isOws)

/-- Whether the line sets a cookie, by the name before its first colon. -/
def isSetCookie (content : Bytes) : Bool :=
  match content.idxOf? 58 with
  | none => false
  | some 0 => false
  | some (colon + 1) => isSetCookieName (content.take (colon + 1))

/-- A pair keeps its name. One without a value is a deletion, and one without `=` is replaced
as a whole. -/
def redactPair (pair : Bytes) : Bytes :=
  match pair.idxOf? 61 with
  | none => observedCookie
  | some eq => if eq + 1 = pair.length then pair else pair.take (eq + 1) ++ observedCookie

/-- A field that sets a cookie keeps its name, its blanks and the attributes. -/
def redactSetCookie (line : Bytes) : Bytes :=
  let content := contentOf line
  let value := content.drop (content.idxOf 58 + 1)
  let cookie := value.dropWhile isBlank
  content.take (content.idxOf 58 + 1) ++ value.takeWhile isBlank ++
    redactPair (cookie.takeWhile fun b => b != 59) ++ cookie.dropWhile (fun b => b != 59) ++
    line.drop content.length

/-- A fold of a cookie goes whole, but for its blanks. -/
def redactCookieFold (line : Bytes) : Bytes :=
  (contentOf line).takeWhile isBlank ++ observedCookie ++ line.drop (contentOf line).length

/-- The loop over the lines that are left: whether the head has not begun, whether it is an
interim one, and whether the last field set a cookie. -/
def redactHeads (first interim inSetCookie : Bool) : List Bytes → Bytes
  | [] => []
  | line :: rest =>
      if contentOf line = [] then
        if first then line ++ redactHeads first interim inSetCookie rest
        else if interim then line ++ redactHeads true false false rest
        else (line :: rest).flatten
      else if first && startsWithHttpName (contentOf line) then
        line ++ redactHeads false (isInterim (contentOf line)) false rest
      else if isFold line then
        (if inSetCookie then redactCookieFold line else line) ++
          redactHeads false interim inSetCookie rest
      else if isSetCookie (contentOf line) then
        redactSetCookie line ++ redactHeads false interim true rest
      else line ++ redactHeads false interim false rest

def redactResponse (raw : Bytes) : Bytes := redactHeads true false false (linesOf raw)

/-! ## One line of a head -/

variable {c i first interim : Bool} {line name t : Bytes} {lines rest : List Bytes}

/-- What a line of a head becomes. -/
def redactHeadLine (inSetCookie : Bool) (line : Bytes) : Bytes :=
  if isFold line then if inSetCookie then redactCookieFold line else line
  else if isSetCookie (contentOf line) then redactSetCookie line else line

/-- Whether a fold after the line continues a cookie. -/
def cookieAfter (inSetCookie : Bool) (line : Bytes) : Bool :=
  if isFold line then inSetCookie else isSetCookie (contentOf line)

theorem redactHeads_line (some_ : contentOf line ≠ []) :
    redactHeads false i c (line :: rest) =
      redactHeadLine c line ++ redactHeads false i (cookieAfter c line) rest := by
  rw [redactHeads, if_neg some_, redactHeadLine, cookieAfter]
  cases isFold line with
  | true => rfl
  | false =>
      cases isSetCookie (contentOf line) with
      | true => rfl
      | false => rfl

theorem redactHeads_empty (empty : contentOf line = []) :
    redactHeads true i c (line :: rest) = line ++ redactHeads true i c rest := by
  rw [redactHeads, if_pos empty, if_pos rfl]

/-- The empty line behind an interim head is followed by the next head. -/
theorem redactHeads_next (empty : contentOf line = []) :
    redactHeads false true c (line :: rest) = line ++ redactHeads true false false rest := by
  rw [redactHeads, if_pos empty]
  rfl

theorem redactHeads_over (empty : contentOf line = []) :
    redactHeads false false c (line :: rest) = (line :: rest).flatten := by
  rw [redactHeads, if_pos empty]
  rfl

theorem chop_isPrefix (b : UInt8) (line : Bytes) : chop b line <+: line := by
  rw [chop]
  split
  · exact List.dropLast_prefix line
  · exact List.prefix_refl line

theorem contentOf_isPrefix (line : Bytes) : contentOf line <+: line :=
  (chop_isPrefix 13 _).trans (chop_isPrefix 10 line)

/-- The name of a cookie's field begins with an S. -/
theorem head_of_setCookieName (named : isSetCookieName name = true) :
    ∃ b t, name = b :: t ∧ asciiLower b = 115 := by
  have same : (name.rdropWhile isOws).map asciiLower = usAscii "set-cookie" := beq_iff_eq.1 named
  obtain ⟨b, rest, parts, first, -⟩ := List.map_eq_cons_iff.1 (same.trans (by rfl :
    usAscii "set-cookie" = 115 :: usAscii "et-cookie"))
  obtain ⟨tail, whole⟩ := List.rdropWhile_prefix isOws (l := name)
  rw [parts] at whole
  exact ⟨b, rest ++ tail, whole.symm, first⟩

theorem isBlank_of_lower {b : UInt8} (first : asciiLower b = 115) : isBlank b = false := by
  cases blank : isBlank b with
  | false => rfl
  | true =>
      simp only [isBlank, List.contains_cons, List.contains_nil, Bool.or_false, Bool.or_eq_true,
        beq_iff_eq] at blank
      obtain rfl | rfl := blank
      · exact absurd first (by decide)
      · exact absurd first (by decide)

/-- A status line is no field. -/
theorem field_of_status (status : startsWithHttpName (contentOf line) = true) :
    isFold line = false ∧ isSetCookie (contentOf line) = false := by
  obtain ⟨t, parts⟩ := List.isPrefixOf_iff_prefix.1 status
  obtain ⟨tail, whole⟩ := contentOf_isPrefix line
  have begins : contentOf line = 72 :: ([84, 84, 80] ++ t) := parts.symm
  constructor
  · rw [← whole, begins]
    rfl
  · rw [begins, isSetCookie]
    cases (72 :: ([84, 84, 80] ++ t)).idxOf? 58 with
    | none => rfl
    | some colon =>
        cases colon with
        | zero => rfl
        | succ colon =>
            apply Bool.eq_false_iff.2
            intro named
            obtain ⟨b, rest, same, first⟩ := head_of_setCookieName named
            rw [List.take_succ_cons] at same
            rw [← (List.cons.inj same).1] at first
            exact absurd first (by decide)

/-- The first line of a head tells whether it is an interim one. -/
theorem redactHeads_first (some_ : contentOf line ≠ []) :
    redactHeads true false false (line :: rest) =
      redactHeads false (opensInterim line) false (line :: rest) := by
  rw [redactHeads_line some_, redactHeads, if_neg some_, opensInterim, redactHeadLine, cookieAfter]
  cases status : startsWithHttpName (contentOf line) with
  | true =>
      obtain ⟨field, other⟩ := field_of_status status
      rw [field, other]
      rfl
  | false =>
      cases isFold line with
      | true => rfl
      | false =>
          cases isSetCookie (contentOf line) with
          | true => rfl
          | false => rfl

end Hx.Redact
