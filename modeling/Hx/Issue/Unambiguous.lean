import Hx.Issue.Accepted

/-!
# One request and no other

What `request_bytes` accepts is read back as the one request it was asked for exactly where
its arguments have the grammar of the message.
-/

namespace Hx.Issue

open Hx.Python Hx.Library Hx.Library.Message

def hostField (host : Text) : Message.Field := ⟨encoded (txt "Host"), trim (encoded host)⟩

def lengthField (n : ℕ) : Message.Field :=
  ⟨encoded (txt "Content-Length"), encoded (txt (toString n))⟩

/-- The bytes are exactly one message: the one asked for, with at most a host and a length
added. -/
structure Unambiguous (method path host : Text) (headers : List Text) (body bytes : List UInt8) :
    Prop where
  read : ∃ r, parse bytes = some (r, []) ∧ r.method = encoded method ∧
    r.target = encoded path ∧ r.body = body ∧
    (∃ before after, r.fields = before ++ headers.map fieldOf ++ after ∧
      (before = [] ∨ before = [hostField host]) ∧
      (after = [] ∨ after = [lengthField body.length])) ∧
    (r.named hostName).length = 1 ∧ r.named transferEncodingName = [] ∧
    (r.named contentLengthName = [] ∨ ∃ f, r.named contentLengthName = [f] ∧
      f.value.all isDigit = true ∧ decimal f.value = body.length)

/-- A token, the colon, and characters a field may have. -/
structure StrictLine (line : Text) : Prop where
  name : isToken (encoded (partition ':' line).1) = true
  value : ∀ b ∈ encoded (valueOf line), isFieldByte b = true

/-- The arguments have the grammar of a message. -/
structure Strict (method path host : Text) (headers : List Text) : Prop where
  method : isToken (encoded method) = true
  path : isOriginForm (encoded path) = true
  lines : ∀ line ∈ headers, StrictLine line
  lengths : headers.filter isLength = [] ∨ ∃ line, headers.filter isLength = [line] ∧
    (fieldOf line).value ≠ [] ∧ (fieldOf line).value.all isDigit = true
  host : headers.any isHost = false → ∀ b ∈ encoded host, isFieldByte b = true

/-! ## One message -/

section Message

variable {D : Decimals} {method path host line : Text} {headers lines : List Text}
  {body bytes : List UInt8} {n : ℕ}

/-- A line that is written as the field it is read as. -/
structure Wire (line : Text) : Prop where
  colon : (partition ':' line).2 = some (valueOf line)
  strict : StrictLine line
  latin1 : ∀ c ∈ line, c.toNat < 256

theorem Wire.split (wire : Wire line) :
    encoded line = encoded (partition ':' line).1 ++ 58 :: encoded (valueOf line) := by
  have whole := congrArg encoded (partition_some wire.colon)
  rw [encoded_append] at whole
  exact whole

theorem Wire.parsed (wire : Wire line) : parseField (encoded line) = some (fieldOf line) := by
  rw [wire.split]
  exact parseField_write wire.strict.name wire.strict.value

theorem Wire.plain (wire : Wire line) : encoded line ≠ [] ∧ 10 ∉ encoded line := by
  rw [wire.split]
  refine ⟨List.append_ne_nil_of_right_ne_nil _ (List.cons_ne_nil _ _), fun mem => ?_⟩
  rcases List.mem_append.1 mem with first | later
  · exact (plain_token wire.strict.name).2.1 first
  · have second := (List.mem_cons.1 later).resolve_left (by decide)
    exact absurd (wire.strict.value _ second) (by decide)

theorem Wire.named (wire : Wire line) {name : Text} (plain : ∀ c ∈ name, c.toNat < 256) :
    Field.isNamed (encoded name) (fieldOf line) = (nameOf line == name) :=
  isNamed_fieldOf wire.latin1 wire.colon wire.strict.name plain

theorem mapM_wires (wires : ∀ line ∈ lines, Wire line) :
    (lines.map encoded).mapM parseField = some (lines.map fieldOf) := by
  induction lines with
  | nil => rfl
  | cons line lines ih =>
      have here := (wires line List.mem_cons_self).parsed
      have later := ih fun l mem => wires l (List.mem_cons_of_mem _ mem)
      rw [List.map_cons, List.mapM_cons, here, later]
      rfl

/-- The fields of a name are the lines of that name. -/
theorem filter_wires (wires : ∀ line ∈ lines, Wire line) {name : Text}
    (plain : ∀ c ∈ name, c.toNat < 256) :
    (lines.map fieldOf).filter (Field.isNamed (encoded name)) =
      (lines.filter fun line => nameOf line == name).map fieldOf := by
  rw [List.filter_map]
  exact congrArg _ (List.filter_congr fun line mem => (wires line mem).named plain)

theorem wire_host (latin1 : ∀ c ∈ host, c.toNat < 256)
    (clean : ∀ b ∈ encoded host, isFieldByte b = true) : Wire (txt "Host: " ++ host) := by
  have name : isToken (encoded (txt "Host")) = true := by decide
  refine ⟨rfl, ⟨name, List.forall_mem_cons.2 ⟨by decide, clean⟩⟩, ?_⟩
  intro c mem
  exact (List.mem_append.1 mem).elim (latin1_of_all (s := txt "Host: ") (by decide) c) (latin1 c)

theorem wire_length (n : ℕ) : Wire (txt "Content-Length: " ++ txt (toString n)) := by
  have digits : ∀ c ∈ txt (toString n), 48 ≤ c.toNat ∧ c.toNat ≤ 57 := by
    rw [toChars_toString]
    exact fun c mem => digit_bounds (Nat.isDigit_of_mem_toDigits (by decide) (by decide) mem)
  have all := List.all_eq_true.1 (decimal_toString n).1
  have name : isToken (encoded (txt "Content-Length")) = true := by decide
  refine ⟨rfl, ⟨name, List.forall_mem_cons.2 ⟨by decide, fun b mem => ?_⟩⟩, ?_⟩
  · exact (digit_byte (all b mem)).2
  intro c mem
  refine (List.mem_append.1 mem).elim
    (latin1_of_all (s := txt "Content-Length: ") (by decide) c) fun digit => ?_
  exact Nat.lt_of_le_of_lt (digits c digit).2 (by decide)

theorem fieldOf_length (n : ℕ) :
    fieldOf (txt "Content-Length: " ++ txt (toString n)) = lengthField n := by
  have digits := List.all_eq_true.1 (decimal_toString n).1
  have kept : trim (encoded (txt (toString n))) = encoded (txt (toString n)) :=
    ends_eq_self fun b mem => (digit_byte (digits b mem)).1
  have value : trim (32 :: encoded (txt (toString n))) = trim (encoded (txt (toString n))) := by
    rw [trim, List.dropWhile_cons_of_pos rfl]
    rfl
  exact congrArg (fun v => (⟨encoded (txt "Content-Length"), v⟩ : Message.Field))
    (value.trans kept)

/-- The lines that are written behind the request line. -/
def written (host : Text) (headers : List Text) (n : ℕ) : List Text :=
  hostLines host headers ++ headers ++ lengthLines n headers

theorem linesOf_eq (method path host : Text) (headers : List Text) (n : ℕ) :
    linesOf method path host headers n (headers.any isLength) =
      (method ++ txt " " ++ path ++ txt " HTTP/1.1") :: written host headers n := rfl

theorem Strict.wires (strict : Strict method path host headers)
    (ok : Accepted D method path host headers body bytes) :
    ∀ line ∈ written host headers body.length, Wire line := by
  have latin1 : ∀ line ∈ written host headers body.length, ∀ c ∈ line, c.toNat < 256 :=
    fun line mem => ok.latin1 line (List.mem_cons_of_mem _ mem)
  intro line mem
  have small := latin1 line mem
  rcases List.mem_append.1 mem with early | added
  · rcases List.mem_append.1 early with added | given
    · rw [hostLines] at added
      split at added
      · exact absurd added List.not_mem_nil
      · rename_i none_
        cases List.mem_singleton.1 added
        exact wire_host (fun c inside => small c (List.mem_append_right _ inside))
          (strict.host (Bool.not_eq_true _ ▸ none_))
    · exact ⟨(ok.passes line given).colon, strict.lines line given, small⟩
  · rw [lengthLines] at added
    split at added
    · cases List.mem_singleton.1 added
      exact wire_length _
    · exact absurd added List.not_mem_nil

theorem filter_hostLines (host : Text) (headers : List Text) {p : Text → Bool} {b : Bool}
    (same : p (txt "Host: " ++ host) = b) :
    (hostLines host headers).filter p = if b then hostLines host headers else [] := by
  rw [hostLines]
  split
  · cases b <;> rfl
  · cases b
    · exact List.filter_cons_of_neg fun yes => absurd (same.symm.trans yes) (by decide)
    · exact List.filter_cons_of_pos same

theorem filter_lengthLines (n : ℕ) (headers : List Text) {p : Text → Bool} {b : Bool}
    (same : p (txt "Content-Length: " ++ txt (toString n)) = b) :
    (lengthLines n headers).filter p = if b then lengthLines n headers else [] := by
  rw [lengthLines]
  split
  · cases b
    · exact List.filter_cons_of_neg fun yes => absurd (same.symm.trans yes) (by decide)
    · exact List.filter_cons_of_pos same
  · cases b <;> rfl

theorem nameOf_host (host : Text) : nameOf (txt "Host: " ++ host) = txt "host" := by
  have name : lower (strip (txt "Host")) = txt "host" := by decide
  exact name

theorem nameOf_length (n : ℕ) :
    nameOf (txt "Content-Length: " ++ txt (toString n)) = txt "content-length" := by
  have name : lower (strip (txt "Content-Length")) = txt "content-length" := by decide
  exact name

/-- One line names the host. -/
theorem one_host (few : (headers.filter isHost).length ≤ 1) (n : ℕ) :
    ((written host headers n).filter isHost).length = 1 := by
  have first : isHost (txt "Host: " ++ host) = true := beq_iff_eq.2 (nameOf_host host)
  have last : isHost (txt "Content-Length: " ++ txt (toString n)) = false := by
    rw [isHost, nameOf_length]
    rfl
  rw [written, List.filter_append, List.filter_append, filter_hostLines host headers first,
    filter_lengthLines n headers last]
  cases given : headers.any isHost with
  | true =>
      obtain ⟨line, mem, named⟩ := List.any_eq_true.1 given
      have some_ := List.length_pos_of_mem (List.mem_filter.2 ⟨mem, named⟩)
      simp only [hostLines, given, if_true, List.nil_append, List.append_nil, Bool.false_eq_true,
        if_false]
      omega
  | false =>
      have none_ : headers.filter isHost = [] :=
        List.filter_eq_nil_iff.2 fun line mem => by simp [List.any_eq_false.1 given line mem]
      simp only [hostLines, given, none_, if_true, List.append_nil, Bool.false_eq_true, if_false,
        List.length_singleton]

theorem filter_isLength (n : ℕ) :
    (written host headers n).filter isLength =
      headers.filter isLength ++ lengthLines n headers := by
  have first : isLength (txt "Host: " ++ host) = false := by
    rw [isLength, nameOf_host]
    rfl
  have last : isLength (txt "Content-Length: " ++ txt (toString n)) = true :=
    beq_iff_eq.2 (nameOf_length n)
  rw [written, List.filter_append, List.filter_append, filter_hostLines host headers first,
    filter_lengthLines n headers last]
  rfl

theorem filter_uncoded (ok : Accepted D method path host headers body bytes) :
    (written host headers body.length).filter
      (fun line => nameOf line == txt "transfer-encoding") = [] := by
  refine List.filter_eq_nil_iff.2 fun line mem => ?_
  rw [beq_iff_eq]
  rcases List.mem_append.1 mem with early | added
  · rcases List.mem_append.1 early with added | given
    · rw [hostLines] at added
      split at added
      · exact absurd added List.not_mem_nil
      · cases List.mem_singleton.1 added
        rw [nameOf_host]
        decide
    · exact (ok.passes line given).uncoded
  · rw [lengthLines] at added
    split at added
    · cases List.mem_singleton.1 added
      rw [nameOf_length]
      decide
    · exact absurd added List.not_mem_nil

/-- The number in the one `Content-Length` of the lines is the length of the body. -/
theorem length_counted (strict : Strict method path host headers)
    (ok : Accepted D method path host headers body bytes) :
    ((written host headers body.length).filter isLength = [] ∧ body.length = 0) ∨
      ∃ line, (written host headers body.length).filter isLength = [line] ∧
        (fieldOf line).value ≠ [] ∧ (fieldOf line).value.all Message.isDigit = true ∧
        Message.decimal (fieldOf line).value = body.length := by
  rw [filter_isLength]
  rcases strict.lengths with none_ | ⟨line, one, some_, digits⟩
  · have uncounted : headers.any isLength = false := by
      rw [List.any_eq_false]
      exact fun line mem => List.filter_eq_nil_iff.1 none_ line mem
    rw [none_, lengthLines, List.nil_append]
    split
    · obtain ⟨all, value⟩ := decimal_toString body.length
      refine .inr ⟨_, rfl, ?_⟩
      rw [fieldOf_length]
      refine ⟨?_, all, value⟩
      have nonempty : txt (toString body.length) ≠ [] := by
        rw [toChars_toString]
        exact Nat.toDigits_ne_nil
      exact fun empty => nonempty (List.map_eq_nil_iff.1 empty)
    · rename_i zero
      exact .inl ⟨rfl, not_not.1 fun some_ => zero ⟨some_, uncounted⟩⟩
  · obtain ⟨given, isL⟩ := List.mem_filter.1 (one ▸ List.mem_singleton_self line)
    have counted : headers.any isLength = true := List.any_eq_true.2 ⟨line, given, isL⟩
    have none_ : lengthLines body.length headers = [] := by
      rw [lengthLines, counted]
      exact if_neg fun both => absurd both.2 (by decide)
    have passes := ok.passes line given
    have small : ∀ c ∈ valueOf line, c.toNat < 256 := by
      intro c mem
      have here : line ∈ written host headers body.length :=
        List.mem_append_left _ (List.mem_append_right _ given)
      refine ok.latin1 line (List.mem_cons_of_mem _ here) c ?_
      rw [partition_some passes.colon]
      exact List.mem_append_right _ (List.mem_cons_of_mem _ mem)
    have trimmed : (fieldOf line).value = encoded (strip (valueOf line)) :=
      trim_encoded small digits
    have kept : ∀ c ∈ strip (valueOf line), c.toNat < 256 := fun c mem =>
      small c ((List.dropWhile_suffix _).subset ((List.rdropWhile_prefix _ _).subset mem))
    rw [one, none_]
    refine .inr ⟨line, rfl, some_, digits, ?_⟩
    rw [trimmed] at some_ digits ⊢
    have read := int_digits kept (fun empty => some_ (congrArg encoded empty))
      (all_encoded.1 (List.all_eq_true.1 digits)) (passes.length isL)
    exact (Int.ofNat.inj read).symm

/-- Strict arguments are written as the one message they ask for. -/
theorem unambiguous_of_strict (strict : Strict method path host headers)
    (ok : Accepted D method path host headers body bytes) :
    Unambiguous method path host headers body bytes := by
  have wires := strict.wires ok
  have hosts := filter_wires wires (latin1_of_all (s := txt "host") (by decide))
  have lengths := filter_wires wires (latin1_of_all (s := txt "content-length") (by decide))
  have codings := filter_wires wires (latin1_of_all (s := txt "transfer-encoding") (by decide))
  rw [filter_uncoded ok] at codings
  have counted : bodyLength ((written host headers body.length).map fieldOf) =
      some body.length := by
    have coding : ((written host headers body.length).map fieldOf).filter
        (Field.isNamed transferEncodingName) = [] := codings
    have length : ((written host headers body.length).map fieldOf).filter
        (Field.isNamed contentLengthName) =
          ((written host headers body.length).filter isLength).map fieldOf := lengths
    rw [bodyLength, coding, length]
    rcases length_counted strict ok with ⟨none_, zero⟩ | ⟨line, one, some_, digits, value⟩
    · rw [none_, zero]
      rfl
    · rw [one]
      exact (if_pos ⟨some_, digits⟩).trans (congrArg some value)
  have first : encoded (method ++ txt " " ++ path ++ txt " HTTP/1.1") =
      encoded method ++ 32 :: (encoded path ++ 32 :: version) := by
    rw [List.append_assoc, List.append_assoc, encoded_append, encoded_append, encoded_append]
    rfl
  have plain : ∀ l ∈ (written host headers body.length).map encoded, l ≠ [] ∧ 10 ∉ l :=
    List.forall_mem_map.2 fun line mem => (wires line mem).plain
  refine ⟨⟨⟨encoded method, encoded path, (written host headers body.length).map fieldOf, body⟩,
    ?_, rfl, rfl, rfl, ⟨(hostLines host headers).map fieldOf,
    (lengthLines body.length headers).map fieldOf, ?_, ?_, ?_⟩, ?_, codings, ?_⟩⟩
  · have read := parse_write strict.method strict.path (mapM_wires wires) plain counted
    rw [← first] at read
    rw [ok.bytes, linesOf_eq]
    exact read
  · rw [← List.map_append, ← List.map_append]
    rfl
  · rw [hostLines]
    split
    · exact .inl rfl
    · exact .inr rfl
  · rw [lengthLines]
    split
    · exact .inr (congrArg (fun f => [f]) (fieldOf_length _))
    · exact .inl rfl
  · show (List.filter (Field.isNamed (encoded (txt "host"))) _).length = 1
    rw [hosts, List.length_map]
    exact one_host ok.hosts _
  · show List.filter (Field.isNamed (encoded (txt "content-length"))) _ = [] ∨ _
    rcases length_counted strict ok with ⟨none_, -⟩ | ⟨line, one, -, digits, value⟩
    · exact .inl (lengths.trans (congrArg (List.map fieldOf) none_))
    · exact .inr ⟨fieldOf line, lengths.trans (congrArg (List.map fieldOf) one), digits, value⟩

theorem accepted_lines (ok : Accepted D method path host headers body bytes) :
    ∀ line ∈ headers, ∀ c ∈ line, c.toNat < 256 := fun line mem =>
  ok.latin1 line (List.mem_cons_of_mem _ (List.mem_append_left _ (List.mem_append_right _ mem)))

theorem isFieldByte_of_trim {v : List UInt8} (clean : (trim v).all isFieldByte = true) :
    ∀ b ∈ v, isFieldByte b = true := by
  intro b mem
  rcases mem_of_trim mem with inside | blank
  · exact List.all_eq_true.1 clean b inside
  · rw [isFieldByte, blank]
    rfl

/-- Among the fields of a message that is read, the given lengths are one number at most. -/
theorem lengths_given {before after fields : List Message.Field}
    (wires : ∀ line ∈ headers, Wire line) (whole : fields = before ++ headers.map fieldOf ++ after)
    (counted : bodyLength fields = some n) :
    headers.filter isLength = [] ∨ ∃ line, headers.filter isLength = [line] ∧
      (fieldOf line).value ≠ [] ∧ (fieldOf line).value.all Message.isDigit = true := by
  have plain := latin1_of_all (s := txt "content-length") (by decide)
  have own : (headers.map fieldOf).filter (Field.isNamed contentLengthName) =
      (headers.filter isLength).map fieldOf := filter_wires wires plain
  have among : fields.filter (Field.isNamed contentLengthName) =
      before.filter (Field.isNamed contentLengthName) ++ (headers.filter isLength).map fieldOf ++
        after.filter (Field.isNamed contentLengthName) := by
    rw [whole, List.filter_append, List.filter_append, own]
  rcases (bodyLength_ok counted).2 with ⟨none_, -⟩ | ⟨f, one, some_, digits, -⟩
  · rw [among] at none_
    have empty := (List.append_eq_nil_iff.1 (List.append_eq_nil_iff.1 none_).1).2
    exact .inl (List.map_eq_nil_iff.1 empty)
  · rw [among] at one
    cases given : headers.filter isLength with
    | nil => exact .inl rfl
    | cons line rest =>
        rw [given] at one
        have count := congrArg List.length one
        simp only [List.length_append, List.length_map, List.length_cons, List.length_nil] at count
        have alone : rest = [] := List.length_eq_zero_iff.1 (by omega)
        have mem : fieldOf line ∈ [f] := by
          rw [← one]
          exact List.mem_append_left _ (List.mem_append_right _ List.mem_cons_self)
        rw [← List.mem_singleton.1 mem] at some_ digits
        exact .inr ⟨line, by rw [alone], some_, digits⟩

/-- No field is named as a host that no line names. -/
theorem hosts_given (wires : ∀ line ∈ headers, Wire line) (unnamed : headers.any isHost = false) :
    (headers.map fieldOf).filter (Field.isNamed hostName) = [] := by
  have plain := latin1_of_all (s := txt "host") (by decide)
  have own : (headers.map fieldOf).filter (Field.isNamed hostName) =
      (headers.filter isHost).map fieldOf := filter_wires wires plain
  rw [own, List.map_eq_nil_iff, List.filter_eq_nil_iff]
  exact List.any_eq_false.1 unnamed

/-- What is read as the message that was asked for was asked for strictly. -/
theorem strict_of_unambiguous (ok : Accepted D method path host headers body bytes)
    (one : Unambiguous method path host headers body bytes) : Strict method path host headers := by
  obtain ⟨r, read, isMethod, isTarget, -, ⟨before, after, fields, added, behind⟩, hosts, -⟩ :=
    one.read
  have known := read_of_parse read
  have given : ∀ line ∈ headers, fieldOf line ∈ r.fields := by
    intro line mem
    rw [fields]
    exact List.mem_append_left _ (List.mem_append_right _ (List.mem_map_of_mem mem))
  have wires : ∀ line ∈ headers, Wire line := by
    intro line mem
    obtain ⟨token, clean⟩ := known.fields _ (given line mem)
    exact ⟨(ok.passes line mem).colon, ⟨token, isFieldByte_of_trim clean⟩,
      accepted_lines ok line mem⟩
  refine ⟨isMethod ▸ known.method, isTarget ▸ known.target, fun line mem => (wires line mem).strict,
    lengths_given wires fields known.length, fun unnamed => ?_⟩
  rcases added with none_ | host_
  · -- The one host would have to be among the given lines or be the added length.
    have length : after.filter (Field.isNamed hostName) = [] := by
      rcases behind with rfl | rfl
      · rfl
      · have other : ((encoded (txt "Content-Length")).map Message.lower == hostName) = false := by
          decide
        exact List.filter_cons_of_neg fun yes => absurd (other.symm.trans yes) (by decide)
    rw [Request.named, fields, none_, List.nil_append, List.filter_append,
      hosts_given wires unnamed, length] at hosts
    contradiction
  · have mem : hostField host ∈ r.fields := by
      rw [fields, host_]
      exact List.mem_append_left _ (List.mem_append_left _ List.mem_cons_self)
    exact isFieldByte_of_trim (known.fields _ mem).2

/-- The bytes of an accepted request are one unambiguous message exactly where the arguments
have the grammar of one. -/
theorem unambiguous_iff (ok : requestBytes D method path host headers body = .ok bytes) :
    Unambiguous method path host headers body bytes ↔ Strict method path host headers :=
  ⟨strict_of_unambiguous (accepted ok), fun strict => unambiguous_of_strict strict (accepted ok)⟩

/-- The digits of ASCII and no others. -/
def asciiDecimals : Decimals where
  digit c := if 48 ≤ c.toNat ∧ c.toNat ≤ 57 then some (c.toNat - 48) else none
  latin1 _ _ := rfl

/-- A request that gives its own length. -/
def counted : List UInt8 :=
  encoded (txt "POST /a?b HTTP/1.1\r\nHost: h.test\r\nContent-Length: 2\r\n\r\n") ++ [104, 105]

theorem counted_unambiguous_iff :
    Unambiguous (txt "POST") (txt "/a?b") (txt "h.test") [txt "Content-Length: 2"] [104, 105]
      counted ↔ Strict (txt "POST") (txt "/a?b") (txt "h.test") [txt "Content-Length: 2"] :=
  unambiguous_iff (show requestBytes asciiDecimals _ _ _ _ _ = .ok counted by rfl)

/-- A length that is given twice is accepted. -/
theorem counted_twice : ¬ ∀ (D : Decimals) (method path host : Text) (headers : List Text)
    (body bytes : List UInt8), requestBytes D method path host headers body = .ok bytes →
      Unambiguous method path host headers body bytes := by
  intro all
  have twice : requestBytes asciiDecimals (txt "POST") (txt "/") (txt "h.test")
      [txt "Content-Length: 2", txt "Content-Length: 2"] [104, 105] =
        .ok (encoded (txt "POST / HTTP/1.1\r\nHost: h.test\r\nContent-Length: 2\r\n") ++
          encoded (txt "Content-Length: 2\r\n\r\n") ++ [104, 105]) := by
    rfl
  have strict := strict_of_unambiguous (accepted twice) (all _ _ _ _ _ _ _ twice)
  have two : ([txt "Content-Length: 2", txt "Content-Length: 2"].filter isLength).length = 2 := by
    decide
  rcases strict.lengths with none_ | ⟨line, one, -⟩
  · rw [none_] at two
    contradiction
  · rw [one, List.length_singleton] at two
    contradiction

end Message

end Hx.Issue
