import Hx.Tools.Schema

/-!
# The arguments of a journal row

`encode_args` takes the values of credential header lines out of every string of a call's
arguments before it writes them down, inline or as a blob. What it writes does not depend on these
values.
-/

namespace Hx.Tools.Journal

open Hx.Library

/-! ## Credential lines -/

/-- `CREDENTIAL_HEADERS`. -/
def credentialHeaders : List Text :=
  [text "Cookie", text "Authorization", text "Proxy-Authorization"]

/-- What `re.IGNORECASE` compares, as far as letters of ASCII can tell. -/
def folded (c : Fin 0x110000) : Nat :=
  if 0x41 ≤ c.val ∧ c.val ≤ 0x5a then c.val + 0x20
  else if c.val = 0x212a then 0x6b
  else if c.val = 0x130 ∨ c.val = 0x131 then 0x69
  else c.val

/-- `[ \t]`. -/
def isBlank (c : Fin 0x110000) : Bool := c.val = 0x20 || c.val = 0x09

/-- `\r` or `\n`. -/
def isBreak (c : Fin 0x110000) : Bool := c.val = 0x0d || c.val = 0x0a

/-- What stands behind a word at the front of a text. -/
def behind : Text → Text → Option Text
  | [], s => some s
  | _ :: _, [] => none
  | w :: word, c :: s => if folded c = folded w then behind word s else none

/-- The name of this header, as it is written, in front of a colon. -/
def nameOf (header line : Text) : Option Text :=
  (behind header line).bind fun rest =>
    if (rest.dropWhile isBlank).head?.map Fin.val = some 0x3a then some (line.take header.length)
    else none

/-- The name of the credential line that begins here. -/
def credentialName (s : Text) : Option Text :=
  credentialHeaders.findSome? fun header => nameOf header (s.dropWhile isBlank)

/-- Where the search stands: at the start of a line, within one, or within a match. -/
inductive Stand where
  | start
  | inside
  | match_

/-- Behind a character that is kept. -/
def Stand.after (c : Fin 0x110000) : Stand := if isBreak c then .start else .inside

/-- `{{observed:<name>}}`. -/
def placeholder (L : Lowering) (name : Text) : Text :=
  text "\x7b\x7bobserved:" ++ L.lower name ++ text "\x7d\x7d"

/-- `_CREDENTIAL_LINE.sub`: a match reaches to the end of its line. -/
def sub (L : Lowering) : Stand → Text → Text
  | _, [] => []
  | .match_, c :: s => if isBreak c then c :: sub L .start s else sub L .match_ s
  | .inside, c :: s => c :: sub L (.after c) s
  | .start, c :: s =>
      match credentialName (c :: s) with
      | some name => name ++ text ": " ++ placeholder L name ++ sub L .match_ s
      | none => c :: sub L (.after c) s

/-! ## Arguments -/

/-- What the encoder calls: `str.lower`, `redact_url`, `json.dumps` with its keys sorted, the
encoding of its text and the blob store, of which the last three may raise. -/
structure Encoder where
  lowering : Lowering
  redactUrl : Text → Text
  dumps : List (DictKey × PyValue) → Option Text
  encode : Text → Option (List UInt8)
  put : List UInt8 → Option Text

variable (E : Encoder)

mutual

/-- `_redacted`. -/
def redacted : PyValue → PyValue
  | .str s => .str (E.redactUrl (sub E.lowering .start s))
  | .list items => .list (redactedItems items)
  | .dict entries => .dict (redactedEntries entries)
  | value => value

def redactedItems : List PyValue → List PyValue
  | [] => []
  | item :: items => redacted item :: redactedItems items

def redactedEntries : List (DictKey × PyValue) → List (DictKey × PyValue)
  | [] => []
  | (key, item) :: entries => (key, redacted item) :: redactedEntries entries

end

/-- `ARGS_INLINE_MAX`. -/
def argsInlineMax : Nat := 4096

/-- How `encode_args` ends: the column, and the blob it has put. -/
inductive Encoded where
  | raised
  | column (value : Option Text) (blob : Option (List UInt8))

/-- `encode_args`. -/
def encodeArgs (args : List (DictKey × PyValue)) : Encoded :=
  if args.isEmpty then .column none none
  else
    match E.dumps (redactedEntries E args) with
    | none => .raised
    | some written =>
        match E.encode written with
        | none => .raised
        | some raw =>
            if raw.length ≤ argsInlineMax then .column (some written) none
            else
              match E.put raw with
              | none => .raised
              | some digest => .column (some (text "sha256:" ++ digest)) (some raw)

/-! ## The same but for credentials -/

/-- Two texts without a break in them that differ at most in the value of a credential line. -/
inductive LineAlike : Text → Text → Prop where
  | same {line : Text} (plain : ∀ c ∈ line, isBreak c = false) : LineAlike line line
  | credential {header before name after value value' : Text} {colon : Fin 0x110000}
      (listed : header ∈ credentialHeaders)
      (named : name.map folded = header.map folded)
      (blank : ∀ c ∈ before ++ after, isBlank c = true)
      (ends : colon.val = 0x3a)
      (plain : ∀ c ∈ value ++ value', isBreak c = false) :
      LineAlike (before ++ name ++ after ++ colon :: value)
        (before ++ name ++ after ++ colon :: value')

/-- Two texts that do so line by line, after any of the breaks. -/
inductive TextAlike : Text → Text → Prop where
  | last {line line' : Text} (alike : LineAlike line line') : TextAlike line line'
  | line {line line' s s' : Text} {c : Fin 0x110000} (alike : LineAlike line line')
      (ends : isBreak c = true) (later : TextAlike s s') :
      TextAlike (line ++ c :: s) (line' ++ c :: s')

mutual

/-- Two arguments that are the same but for such texts, at any depth. -/
inductive Alike : PyValue → PyValue → Prop where
  | same (value : PyValue) : Alike value value
  | str {s s' : Text} (alike : TextAlike s s') : Alike (.str s) (.str s')
  | list {items items' : List PyValue} (alike : ItemsAlike items items') :
      Alike (.list items) (.list items')
  | dict {entries entries' : List (DictKey × PyValue)} (alike : EntriesAlike entries entries') :
      Alike (.dict entries) (.dict entries')

inductive ItemsAlike : List PyValue → List PyValue → Prop where
  | nil : ItemsAlike [] []
  | cons {item item' : PyValue} {items items' : List PyValue} (first : Alike item item')
      (rest : ItemsAlike items items') : ItemsAlike (item :: items) (item' :: items')

inductive EntriesAlike : List (DictKey × PyValue) → List (DictKey × PyValue) → Prop where
  | nil : EntriesAlike [] []
  | cons {key : DictKey} {item item' : PyValue} {entries entries' : List (DictKey × PyValue)}
      (first : Alike item item') (rest : EntriesAlike entries entries') :
      EntriesAlike ((key, item) :: entries) ((key, item') :: entries')

end

/-! ## A line by itself -/

section Lines

variable {L : Lowering} {s t line header name : Text} {c : Fin 0x110000}

/-- What follows a line: nothing, or a break. -/
def Ends (t : Text) : Prop := ∀ c ∈ t.head?, isBreak c = true

theorem folded_of_low (low : c.val < 0x41) : folded c = c.val := by
  rw [folded, if_neg (by omega), if_neg (by omega), if_neg (by omega)]

theorem low_of_break (is : isBreak c = true) : c.val < 0x0e := by
  simp only [isBreak, Bool.or_eq_true, decide_eq_true_eq] at is
  omega

theorem low_of_blank (is : isBlank c = true) : c.val < 0x21 := by
  simp only [isBlank, Bool.or_eq_true, decide_eq_true_eq] at is
  omega

theorem not_blank_of_break (is : isBreak c = true) : isBlank c = false := by
  simp only [isBreak, isBlank, Bool.or_eq_true, decide_eq_true_eq, Bool.or_eq_false_iff,
    decide_eq_false_iff_not] at is ⊢
  omega

/-- The letters of a header are letters and hyphens. -/
theorem letters (listed : header ∈ credentialHeaders) : ∀ w ∈ header, 0x2d ≤ folded w := by
  have all : credentialHeaders.all (fun header => header.all fun w => 0x2d ≤ folded w) = true := by
    decide
  exact fun w mem => of_decide_eq_true (List.all_eq_true.1 (List.all_eq_true.1 all _ listed) w mem)

theorem behind_append (named : name.map folded = header.map folded) (s : Text) :
    behind header (name ++ s) = some s := by
  induction header generalizing name with
  | nil =>
      rw [List.map_eq_nil_iff.1 named]
      rfl
  | cons w header ih =>
      cases name with
      | nil => cases named
      | cons c name =>
          obtain ⟨first, rest⟩ := List.cons.inj named
          rw [List.cons_append, behind, if_pos first]
          exact ih rest

theorem length_behind {rest : Text} (found : behind header s = some rest) :
    s.length = header.length + rest.length := by
  induction header generalizing s with
  | nil =>
      cases found
      rw [List.length_nil, Nat.zero_add]
  | cons w header ih =>
      cases s with
      | nil => cases found
      | cons c s =>
          rw [behind] at found
          split at found
          · rw [List.length_cons, List.length_cons, ih found]
            omega
          · cases found

/-- A header does not reach over the end of a line. -/
theorem behind_line (high : ∀ w ∈ header, 0x2d ≤ folded w) (ends : Ends t) :
    behind header (line ++ t) = (behind header line).map (· ++ t) := by
  induction header generalizing line with
  | nil => rfl
  | cons w header ih =>
      cases line with
      | nil =>
          cases t with
          | nil => rfl
          | cons c t =>
              have low := low_of_break (ends c rfl)
              have other : folded c ≠ folded w := by
                have := high w (.head _)
                rw [folded_of_low (by omega)]
                omega
              exact if_neg other
      | cons c line =>
          rw [List.cons_append, behind, behind]
          split
          · exact ih fun w mem => high w (.tail _ mem)
          · rfl

theorem dropWhile_blank_line (ends : Ends t) :
    (line ++ t).dropWhile isBlank = line.dropWhile isBlank ++ t := by
  rw [List.dropWhile_append]
  split
  · rename_i empty
    rw [List.isEmpty_iff.1 empty, List.nil_append]
    cases t with
    | nil => rfl
    | cons c t => rw [List.dropWhile_cons_of_neg (by simp [not_blank_of_break (ends c rfl)])]
  · rfl

theorem colon_line (ends : Ends t) :
    ((line ++ t).head?.map Fin.val = some 0x3a) ↔ line.head?.map Fin.val = some 0x3a := by
  cases line with
  | cons c line => exact Iff.rfl
  | nil =>
      cases t with
      | nil => exact Iff.rfl
      | cons c t =>
          have low := low_of_break (ends c rfl)
          refine ⟨fun is => ?_, nofun⟩
          have colon : c.val = 0x3a := Option.some.inj is
          omega

theorem nameOf_line (listed : header ∈ credentialHeaders) (ends : Ends t) :
    nameOf header (line ++ t) = nameOf header line := by
  rw [nameOf, nameOf, behind_line (letters listed) ends]
  cases found : behind header line with
  | none => rfl
  | some rest =>
      have within : header.length ≤ line.length := by
        rw [length_behind found]
        omega
      show (if _ then _ else _) = (if _ then _ else _)
      rw [dropWhile_blank_line ends, List.take_append_of_le_length within]
      simp only [colon_line ends]

theorem credentialName_line (ends : Ends t) : credentialName (line ++ t) = credentialName line := by
  rw [credentialName, credentialName, dropWhile_blank_line ends]
  have listed : ∀ header ∈ credentialHeaders, nameOf header (line.dropWhile isBlank ++ t) =
      nameOf header (line.dropWhile isBlank) := fun header mem => nameOf_line mem ends
  generalize credentialHeaders = headers at listed
  induction headers with
  | nil => rfl
  | cons header headers ih =>
      rw [List.findSome?_cons, List.findSome?_cons, listed header (.head _),
        ih fun h mem => listed h (.tail _ mem)]

/-- The letters a header begins with tell the headers apart. -/
theorem nameOf_other {header' : Text} {w w' : Fin 0x110000} (first : header.head? = some w)
    (first' : header'.head? = some w') (other : folded w ≠ folded w')
    (named : name.map folded = header.map folded) (s : Text) :
    nameOf header' (name ++ s) = none := by
  cases header with
  | nil => cases first
  | cons v header =>
      cases header' with
      | nil => cases first'
      | cons v' header' =>
          cases first
          cases first'
          cases name with
          | nil => cases named
          | cons c name =>
              have same : folded c = folded w := (List.cons.inj named).1
              rw [nameOf, List.cons_append, behind, if_neg (same ▸ other)]
              rfl

theorem dropWhile_blank_name (listed : header ∈ credentialHeaders)
    (named : name.map folded = header.map folded) (s : Text) :
    (name ++ s).dropWhile isBlank = name ++ s := by
  cases name with
  | nil =>
      rw [List.map_eq_nil_iff.1 named.symm] at listed
      exact absurd listed (by decide)
  | cons c name =>
      have among : folded c ∈ header.map folded := named ▸ List.mem_map_of_mem (.head _)
      obtain ⟨w, mem, same⟩ := List.mem_map.1 among
      have high := letters listed w mem
      have solid : ¬ isBlank c = true := by
        intro blank
        have low := low_of_blank blank
        rw [same, folded_of_low (by omega)] at high
        omega
      rw [List.cons_append, List.dropWhile_cons_of_neg solid]

theorem nameOf_self {after : Text} {colon : Fin 0x110000}
    (named : name.map folded = header.map folded) (blank : ∀ c ∈ after, isBlank c = true)
    (ends : colon.val = 0x3a) (value : Text) :
    nameOf header (name ++ (after ++ colon :: value)) = some name := by
  have length : name.length = header.length := by
    rw [← List.length_map folded, named, List.length_map]
  have solid : isBlank colon = false := by simp [isBlank, ends]
  rw [nameOf, behind_append named]
  show (if _ then _ else _) = _
  rw [List.dropWhile_append_of_pos blank, List.dropWhile_cons_of_neg (by simp [solid]),
    ← length, List.take_left]
  exact if_pos (congrArg some ends)

/-- A credential line has its name whatever its value is. -/
theorem credentialName_credential {before after : Text} {colon : Fin 0x110000}
    (listed : header ∈ credentialHeaders) (named : name.map folded = header.map folded)
    (blank : ∀ c ∈ before ++ after, isBlank c = true) (ends : colon.val = 0x3a) (value : Text) :
    credentialName (before ++ name ++ after ++ colon :: value) = some name := by
  rw [List.append_assoc, List.append_assoc, credentialName,
    List.dropWhile_append_of_pos fun c mem => blank c (List.mem_append_left _ mem),
    dropWhile_blank_name listed named]
  have self := nameOf_self named (fun c mem => blank c (List.mem_append_right _ mem)) ends value
  simp only [credentialHeaders, List.mem_cons, List.not_mem_nil, or_false] at listed
  rw [credentialHeaders, List.findSome?_cons, List.findSome?_cons, List.findSome?_cons]
  rcases listed with rfl | rfl | rfl
  · rw [self]
  · rw [nameOf_other rfl rfl (by decide) named, self]
  · rw [nameOf_other rfl rfl (by decide) named, nameOf_other rfl rfl (by decide) named, self]

theorem sub_match {value : Text} (plain : ∀ c ∈ value, isBreak c = false) (t : Text) :
    sub L .match_ (value ++ t) = sub L .match_ t := by
  induction value with
  | nil => rfl
  | cons c value ih =>
      rw [List.cons_append, sub, plain c (.head _)]
      exact ih fun c mem => plain c (.tail _ mem)

theorem sub_inside (plain : ∀ c ∈ line, isBreak c = false) (t : Text) :
    sub L .inside (line ++ t) = line ++ sub L .inside t := by
  induction line with
  | nil => rfl
  | cons c line ih =>
      rw [List.cons_append, sub, Stand.after, plain c (.head _)]
      exact congrArg (c :: ·) (ih fun c mem => plain c (.tail _ mem))

theorem sub_break (is : isBreak c = true) (s : Text) :
    sub L .inside (c :: s) = c :: sub L .start s := by
  rw [sub, Stand.after, if_pos is]

theorem sub_ends (ends : Ends t) : sub L .match_ t = sub L .inside t := by
  cases t with
  | nil => rfl
  | cons c t => rw [sub_break (ends c rfl), sub, if_pos (ends c rfl)]

theorem sub_start (c : Fin 0x110000) (s : Text) : sub L .start (c :: s) =
    ((credentialName (c :: s)).map fun name => name ++ text ": " ++ placeholder L name ++
      sub L .match_ s).getD (c :: sub L (.after c) s) := by
  rw [sub]
  cases credentialName (c :: s) with
  | none => rfl
  | some name => rfl

/-- What a line becomes. -/
def lineOut (L : Lowering) (line : Text) : Text :=
  ((credentialName line).map fun name => name ++ text ": " ++ placeholder L name).getD line

theorem sub_line (plain : ∀ c ∈ line, isBreak c = false) (ends : Ends t) :
    sub L .start (line ++ t) = lineOut L line ++ sub L .inside t := by
  have name : credentialName (line ++ t) = credentialName line := credentialName_line ends
  cases line with
  | nil =>
      cases t with
      | nil => rfl
      | cons c t =>
          rw [List.nil_append] at name ⊢
          rw [sub_start, name, sub_break (ends c rfl), Stand.after, if_pos (ends c rfl)]
          rfl
  | cons c line =>
      have inside : ∀ c ∈ line, isBreak c = false := fun c mem => plain c (.tail _ mem)
      rw [List.cons_append] at name ⊢
      rw [sub_start, name, lineOut]
      cases credentialName (c :: line) with
      | some name =>
          show _ ++ sub L .match_ (line ++ t) = _
          rw [sub_match inside, sub_ends ends]
          rfl
      | none =>
          show c :: sub L (.after c) (line ++ t) = c :: (line ++ sub L .inside t)
          rw [Stand.after, plain c (.head _), ← sub_inside inside]
          rfl

end Lines

/-! ## What is written does not depend on the values -/

section Alike

variable {L : Lowering} {line line' s s' : Text}

theorem LineAlike.plain (alike : LineAlike line line') :
    (∀ c ∈ line, isBreak c = false) ∧ ∀ c ∈ line', isBreak c = false := by
  cases alike with
  | same plain => exact ⟨plain, plain⟩
  | @credential header before name after value value' colon listed named blank ends plain =>
      have front : ∀ c ∈ before ++ name ++ after ++ [colon], isBreak c = false := by
        intro c mem
        rw [Bool.eq_false_iff]
        intro is
        simp only [List.mem_append, List.mem_singleton] at mem
        rcases mem with ((mem | mem) | mem) | rfl
        · have solid := blank c (List.mem_append_left _ mem)
          rw [not_blank_of_break is] at solid
          cases solid
        · have among : folded c ∈ header.map folded := named ▸ List.mem_map_of_mem mem
          obtain ⟨w, of_, same⟩ := List.mem_map.1 among
          have high := letters listed w of_
          have low := low_of_break is
          rw [same, folded_of_low (by omega)] at high
          omega
        · have solid := blank c (List.mem_append_right _ mem)
          rw [not_blank_of_break is] at solid
          cases solid
        · have low := low_of_break is
          omega
      constructor
      · intro c mem
        rw [List.append_cons, List.mem_append] at mem
        exact mem.elim (front c) fun mem => plain c (List.mem_append_left _ mem)
      · intro c mem
        rw [List.append_cons, List.mem_append] at mem
        exact mem.elim (front c) fun mem => plain c (List.mem_append_right _ mem)

theorem LineAlike.out (alike : LineAlike line line') : lineOut L line = lineOut L line' := by
  cases alike with
  | same plain => rfl
  | credential listed named blank ends plain =>
      rw [lineOut, lineOut, credentialName_credential listed named blank ends,
        credentialName_credential listed named blank ends]
      rfl

theorem TextAlike.sub_eq (alike : TextAlike s s') : sub L .start s = sub L .start s' := by
  induction alike with
  | @last line line' alike =>
      have none_ : Ends [] := nofun
      rw [← List.append_nil line, ← List.append_nil line', sub_line alike.plain.1 none_,
        sub_line alike.plain.2 none_, alike.out]
  | @line line line' s s' c alike is later ih =>
      have ends (t : Text) : Ends (c :: t) := by
        intro d mem
        cases mem
        exact is
      rw [sub_line alike.plain.1 (ends s), sub_line alike.plain.2 (ends s'), alike.out,
        sub_break is, sub_break is, ih]

variable {E : Encoder}

mutual

theorem Alike.redacted_eq {v w : PyValue} : Alike v w → redacted E v = redacted E w
  | .same _ => rfl
  | .str alike => by rw [redacted, redacted, alike.sub_eq]
  | .list alike => by rw [redacted, redacted, alike.redacted_eq]
  | .dict alike => by rw [redacted, redacted, alike.redacted_eq]

theorem ItemsAlike.redacted_eq {vs ws : List PyValue} :
    ItemsAlike vs ws → redactedItems E vs = redactedItems E ws
  | .nil => rfl
  | .cons first rest => by
      rw [redactedItems, redactedItems, first.redacted_eq, rest.redacted_eq]

theorem EntriesAlike.redacted_eq {vs ws : List (DictKey × PyValue)} :
    EntriesAlike vs ws → redactedEntries E vs = redactedEntries E ws
  | .nil => rfl
  | .cons first rest => by
      rw [redactedEntries, redactedEntries, first.redacted_eq, rest.redacted_eq]

end

theorem EntriesAlike.isEmpty_eq {vs ws : List (DictKey × PyValue)} (alike : EntriesAlike vs ws) :
    vs.isEmpty = ws.isEmpty := by
  cases alike with
  | nil => rfl
  | cons first rest => rfl

/-- Arguments that differ only in the values of credential lines leave the same column behind, and
the same blob, or raise alike. -/
theorem arguments_forget_credentials (E : Encoder) {args args' : List (DictKey × PyValue)}
    (alike : EntriesAlike args args') : encodeArgs E args = encodeArgs E args' := by
  rw [encodeArgs, encodeArgs, alike.isEmpty_eq, alike.redacted_eq]

end Alike

/-! ## A cookie on the third line -/

def quoted (s : Text) : Text := chr 0x22 :: s ++ [chr 0x22]

/-- One argument, of characters that are written as they are. -/
def plainEncoder : Encoder where
  lowering := ⟨fun _ _ _ => chr 0x80, fun _ _ _ => by decide⟩
  redactUrl := id
  dumps
    | [(.str key, .str s)] =>
        some (chr 0x7b :: quoted key ++ chr 0x3a :: quoted s ++ [chr 0x7d])
    | _ => none
  encode s := some (s.map fun c => UInt8.ofNat c.val)
  put _ := some (text "0")

def body (value : Text) : List (DictKey × PyValue) :=
  [(.str (text "body"), .str (text "a=1" ++ chr 0x0d :: ([] ++ chr 0x0a ::
    ([] ++ text "Cookie" ++ [] ++ chr 0x3a :: value))))]

theorem plain_text {s : String} (plain : s.toList.all fun c => c.toNat % 0x110000 ≠ 0x0d ∧
    c.toNat % 0x110000 ≠ 0x0a) : ∀ c ∈ text s, isBreak c = false := by
  intro c mem
  obtain ⟨letter, among, rfl⟩ := List.mem_map.1 mem
  have both := of_decide_eq_true (List.all_eq_true.1 plain letter among)
  rw [isBreak, val_chr, decide_eq_false both.1, decide_eq_false both.2]
  rfl

theorem body_alike {value value' : Text} (plain : ∀ c ∈ value ++ value', isBreak c = false) :
    EntriesAlike (body value) (body value') := by
  have cookie : LineAlike ([] ++ text "Cookie" ++ [] ++ chr 0x3a :: value)
      ([] ++ text "Cookie" ++ [] ++ chr 0x3a :: value') :=
    .credential List.mem_cons_self rfl (List.forall_mem_nil _) rfl plain
  have first : LineAlike (text "a=1") (text "a=1") := .same (plain_text (by decide))
  have second : LineAlike [] [] := .same (List.forall_mem_nil _)
  exact .cons (.str (.line first rfl (.line second rfl (.last cookie)))) .nil

theorem cookie_forgotten : body (text " session=1") ≠ body (text " session=23") ∧
    encodeArgs plainEncoder (body (text " session=1")) =
      encodeArgs plainEncoder (body (text " session=23")) := by
  have plain : ∀ c ∈ text " session=1" ++ text " session=23", isBreak c = false :=
    List.forall_mem_append.2 ⟨plain_text (by decide), plain_text (by decide)⟩
  refine ⟨fun same => ?_, arguments_forget_credentials plainEncoder (body_alike plain)⟩
  have texts := PyValue.str.inj (Prod.mk.inj (List.cons.inj same).1).2
  exact absurd (congrArg List.length texts) (by decide)

end Hx.Tools.Journal
