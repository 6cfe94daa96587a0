import Hx.Bridge.Carried
import Hx.Bridge.Spelled
import Hx.Bridge.Wire

/-!
# Frames from one side to the other

Each side's encoder puts a text of its own behind the length, and that text is one both readers
know. What is lost on the way is lost in the strings the extension writes, in the fields the
harness asks for, and in a header that declares bodies the frame does not have.
-/

namespace Hx.Bridge

open Hx.Java Hx.Library

/-! ## What the harness writes -/

theorem scalars_flatMap_escaped {s : Text}
    (scalars : Scalars (s.flatMap Python.Json.escaped)) : Scalars s := by
  intro c mem
  by_cases large : 0x80 ≤ c.val
  · refine scalars c (List.mem_flatMap.2 ⟨c, mem, ?_⟩)
    rw [escaped_point_self large]
    exact List.mem_singleton_self c
  · exact isScalar_iff.2 (.inl (by omega))

theorem scalars_writeMore {pairs : Python.Json.Dict}
    (scalars : Scalars (Python.Json.writeMore pairs)) : ∀ p ∈ pairs, Scalars p.1 := by
  induction pairs with
  | nil => exact fun p mem => absurd mem List.not_mem_nil
  | cons p pairs ih =>
      obtain ⟨key, v⟩ := p
      rw [Python.Json.writeMore, Python.Json.writeString] at scalars
      have parts := scalars_append.1 scalars
      have name := (scalars_append.1 (scalars_cons.1 (scalars_append.1
        (scalars_cons.1 parts.1).2).1).2).1
      intro q mem
      cases mem with
      | head => exact scalars_flatMap_escaped name
      | tail _ later => exact ih parts.2 q later

theorem writeMore_of_dumps (p : Text × Python.Json.Value) (pairs : Python.Json.Dict) :
    Python.Json.writeMore (p :: pairs) = chr 44 :: Python.Json.writeMembers (p :: pairs) := rfl

/-- A header whose text has bytes has scalar keys. -/
theorem scalars_dumps {pairs : Python.Json.Dict}
    (scalars : Scalars (Python.Json.dumps pairs)) : ∀ p ∈ pairs, Scalars p.1 := by
  cases pairs with
  | nil => exact fun p mem => absurd mem List.not_mem_nil
  | cons p pairs =>
      have members := (scalars_append.1 (scalars_cons.1 scalars).2).1
      apply scalars_writeMore
      rw [writeMore_of_dumps]
      exact scalars_cons.2 ⟨rfl, members⟩

/-- No character of the text is a control character. -/
def printable (t : Text) : Bool := t.all fun c => 0x20 ≤ c.val

theorem printable_append (s t : Text) : printable (s ++ t) = (printable s && printable t) :=
  List.all_append

theorem printable_cons (c : CodePoint) (t : Text) :
    printable (c :: t) = (decide (0x20 ≤ c.val) && printable t) := List.all_cons

theorem printable_hexDigit : ∀ n, n < 16 →
    0x20 ≤ (Python.Json.hexDigits.getD n (Library.chr 0)).val := by decide

theorem printable_escaped (c : CodePoint) : printable (Python.Json.escaped c) = true := by
  rw [Python.Json.escaped]
  split_ifs with h₁ h₂ h₃ h₄ h₅ h₆ h₇ h₈
  · rfl
  · rfl
  · rfl
  · rfl
  · rfl
  · rfl
  · rfl
  · have first := printable_hexDigit (c.val / 16) (by omega)
    have second := printable_hexDigit (c.val % 16) (by omega)
    rw [Python.Json.controlEscape, printable_append, printable_cons, printable_cons,
      decide_eq_true first, decide_eq_true second]
    rfl
  · rw [printable_cons, decide_eq_true (Nat.not_lt.1 h₈)]
    rfl

theorem printable_writeString (s : Text) : printable (Python.Json.writeString s) = true := by
  have body : printable (s.flatMap Python.Json.escaped) = true := by
    induction s with
    | nil => rfl
    | cons c s ih => rw [List.flatMap_cons, printable_append, printable_escaped, ih]; rfl
  rw [Python.Json.writeString, printable_cons, printable_append, body]
  rfl

theorem printable_decimal (n : ℕ) : printable ((decimal n).map chr) = true := by
  rw [printable, List.all_eq_true]
  intro c mem
  obtain ⟨d, inside, rfl⟩ := List.mem_map.1 mem
  have bounds := decimal_bounds inside
  have val : (chr d).val = d := Nat.mod_eq_of_lt (by omega)
  rw [decide_eq_true_eq]
  omega

theorem printable_writeValue (v : Python.Json.Value) :
    printable (Python.Json.writeValue v) = true := by
  cases v with
  | null => rfl
  | bool b => cases b <;> rfl
  | int n =>
      cases n with
      | ofNat n =>
          show printable (text (toString n)) = true
          rw [Python.Json.text_nat]
          exact printable_decimal n
      | negSucc n =>
          show printable (text (toString (Int.negSucc n))) = true
          rw [Python.Json.text_neg, printable_cons, printable_decimal]
          rfl
  | string s => exact printable_writeString s
  | float => rfl
  | list => rfl
  | dict => rfl

theorem printable_writeMore (pairs : Python.Json.Dict) :
    printable (Python.Json.writeMore pairs) = true := by
  induction pairs with
  | nil => rfl
  | cons p pairs ih =>
      obtain ⟨key, v⟩ := p
      rw [Python.Json.writeMore, printable_append, printable_cons, printable_append,
        printable_cons, printable_writeString, printable_writeValue, ih]
      rfl

/-- The text of a header is one line. -/
theorem dumps_line {pairs : Python.Json.Dict} {c : CodePoint}
    (mem : c ∈ Python.Json.dumps pairs) : c.val ≠ 10 := by
  have all : printable (Python.Json.dumps pairs) = true := by
    have last : printable [chr 125] = true := rfl
    rw [Python.Json.dumps, printable_cons, printable_append, last]
    cases pairs with
    | nil => rfl
    | cons p pairs =>
        have more := printable_writeMore (p :: pairs)
        rw [writeMore_of_dumps, printable_cons, Bool.and_eq_true] at more
        rw [more.2]
        rfl
  have large := of_decide_eq_true (List.all_eq_true.1 all c mem)
  omega

/-! ## A frame with the text of a header -/

/-- The frame that has this text for a header. -/
def textFrame (t : Text) (body : List UInt8) : List UInt8 := framed (utf8Bytes t ++ 10 :: body)

section Frames

variable {t : Text} (scalars : Scalars t) (line : ∀ c ∈ t, c.val ≠ 10) {body : List UInt8}
  (short : (utf8Bytes t ++ 10 :: body).length ≤ Codec.maxFrame)

include scalars line short

theorem cut_textFrame :
    extent Codec.maxFrame (textFrame t body) = .whole (textFrame t body).length ∧
      cutNewline (((textFrame t body).take (textFrame t body).length).drop 4) =
        some (utf8Bytes t, body) := by
  have whole := extent_framed short (by decide) []
  rw [List.append_nil] at whole
  refine ⟨whole, ?_⟩
  rw [List.take_length, textFrame, framed, drop_lengthPrefix]
  exact cutNewline_append (notMem_utf8Bytes scalars (by decide) line) body

theorem codec_textFrame :
    Codec.decode (textFrame t body) =
      (Codec.header (utf8Bytes t)).map
        fun fields => ((fields, body), (textFrame t body).length) := by
  obtain ⟨whole, cut⟩ := cut_textFrame scalars line short
  rw [Codec.decode, whole]
  simp only [cut]
  cases Codec.header (utf8Bytes t) <;> rfl

theorem wire_textFrame (D : Json.Digits) {pairs : Header}
    (read : Json.parse D (utf16 t) = some pairs) :
    Wire.decode D (textFrame t body) =
      (Wire.withBodies (Items.ofPairs pairs) body).map
        fun decoded => (decoded, (textFrame t body).length) := by
  obtain ⟨whole, cut⟩ := cut_textFrame scalars line short
  have header : Wire.header D (utf8Bytes t) = .ok (Items.ofPairs pairs) := by
    rw [Wire.header, utf8Decode_utf8Bytes scalars]
    simp only [read]
  have limit : Wire.maxFrame = Codec.maxFrame := rfl
  rw [Wire.decode, limit, whole]
  simp only [cut, header]
  cases Wire.withBodies (Items.ofPairs pairs) body <;> rfl

end Frames

/-! ## Checked headers -/

theorem held_string {s : Text} : s.any Codec.isSurrogate = false ↔ Scalars s := by
  rw [List.any_eq_false]
  refine forall_congr' fun c => forall_congr' fun _ => ?_
  rw [isScalar_iff, Codec.isSurrogate, Bool.and_eq_true, decide_eq_true_eq, decide_eq_true_eq]
  omega

theorem checkItem_iff {key : Text} {v : Python.Json.Value} :
    Codec.checkItem key v = .ok () ↔ Held v := by
  cases v with
  | null => exact iff_of_true rfl trivial
  | bool b => exact iff_of_true rfl trivial
  | int n =>
      rw [Codec.checkItem, Held]
      split_ifs with fits
      · exact iff_of_true rfl fits
      · exact iff_of_false (fun is => by cases is) fits
  | string s =>
      rw [Codec.checkItem, Held, ← held_string]
      cases s.any Codec.isSurrogate with
      | false => exact iff_of_true rfl rfl
      | true => exact iff_of_false (fun is => by cases is) Bool.noConfusion
  | float => exact iff_of_false (fun is => by cases is) not_false
  | list => exact iff_of_false (fun is => by cases is) not_false
  | dict => exact iff_of_false (fun is => by cases is) not_false

theorem checkItems_iff {pairs : Python.Json.Dict} :
    Codec.checkItems pairs = .ok () ↔ ∀ p ∈ pairs, Held p.2 := by
  induction pairs with
  | nil => exact iff_of_true rfl fun p mem => absurd mem List.not_mem_nil
  | cons p pairs ih =>
      obtain ⟨key, v⟩ := p
      have first : Codec.checkItem key v = .ok () ↔ Held v := checkItem_iff
      rw [Codec.checkItems, List.forall_mem_cons, ← ih, ← first]
      cases Codec.checkItem key v with
      | error e => exact iff_of_false (fun is => by cases is) fun both => by cases both.1
      | ok u => exact (and_iff_right rfl).symm

/-- What `_check_header` asks for. -/
def Checked (header : Codec.Fields) : Prop :=
  header.get (text "v") ≠ none ∧ header.get (text "t") ≠ none ∧ ∀ p ∈ header.pairs, Held p.2

theorem checkHeader_iff {header : Codec.Fields} :
    Codec.checkHeader header = .ok () ↔ Checked header := by
  rw [Codec.checkHeader, Checked]
  split_ifs with version kind
  · exact iff_of_false (fun is => by cases is) fun both => both.1 version
  · exact iff_of_false (fun is => by cases is) fun both => both.2.1 kind
  · rw [checkItems_iff]
    exact ⟨fun held => ⟨version, kind, held⟩, fun both => both.2.2⟩

/-- The header of a text that `loads` reads. -/
theorem header_utf8Bytes {t : Text} (scalars : Scalars t) {pairs : Python.Json.Dict}
    (read : Python.Json.loads t = some (some pairs)) {header : Codec.Fields} :
    Codec.header (utf8Bytes t) = .ok header ↔
      header = Items.ofPairs pairs ∧ Checked (Items.ofPairs pairs) := by
  rw [Codec.header, utf8Decode_utf8Bytes scalars, Option.bind_some, read, ← checkHeader_iff]
  simp only
  cases Codec.checkHeader (Items.ofPairs pairs) with
  | error e => exact iff_of_false (fun is => by cases is) fun both => by cases both.2
  | ok u => exact ⟨fun is => ⟨(Except.ok.inj is).symm, rfl⟩, fun both => congrArg _ both.1.symm⟩

/-! ## What either encoder emits -/

/-- The bytes are a frame with these members in its header, written as `dumps` does. -/
structure Sent (pairs : Python.Json.Dict) (body bytes : List UInt8) : Prop where
  same : bytes = textFrame (Python.Json.dumps pairs) body
  short : (utf8Bytes (Python.Json.dumps pairs) ++ 10 :: body).length ≤ Codec.maxFrame
  scalars : Scalars (Python.Json.dumps pairs)
  held : ∀ p ∈ pairs, HeldItem p

namespace Sent

variable {pairs : Python.Json.Dict} {body bytes : List UInt8} (sent : Sent pairs body bytes)

include sent

theorem isFrame : IsFrame Codec.maxFrame bytes := ⟨_, sent.short, sent.same⟩

theorem loads : Python.Json.loads (Python.Json.dumps pairs) = some (some pairs) := by
  apply Python.Json.loads_dumps
  intro p mem
  have held := (sent.held p mem).2
  obtain ⟨key, v⟩ := p
  cases v with
  | null => trivial
  | bool b => trivial
  | int n => trivial
  | string s => trivial
  | float => exact held.elim
  | list => exact held.elim
  | dict => exact held.elim

/-- What the harness decodes. -/
theorem codec_decode {header : Codec.Fields} {got : List UInt8} {consumed : ℕ} :
    Codec.decode bytes = .ok ((header, got), consumed) ↔
      (header = Items.ofPairs pairs ∧ Checked (Items.ofPairs pairs)) ∧ got = body ∧
        consumed = bytes.length := by
  rw [← header_utf8Bytes sent.scalars sent.loads, sent.same,
    codec_textFrame sent.scalars (fun c => dumps_line) sent.short]
  cases Codec.header (utf8Bytes (Python.Json.dumps pairs)) with
  | error e => exact iff_of_false (fun is => by cases is) fun both => by cases both.1
  | ok fields =>
      show (Except.ok _ : Except _ _) = _ ↔ _
      constructor
      · intro is
        cases is
        exact ⟨rfl, rfl, rfl⟩
      · rintro ⟨is, rfl, rfl⟩
        cases is
        rfl

/-- What the extension decodes. -/
theorem wire_decode (D : Json.Digits) :
    Wire.decode D bytes =
      (Wire.withBodies (Items.ofPairs (pairs.map carriedItem)) body).map
        fun decoded => (decoded, bytes.length) := by
  rw [sent.same]
  exact wire_textFrame sent.scalars (fun c => dumps_line) sent.short D
    (parse_utf16 D sent.scalars sent.loads sent.held)

end Sent

/-- What the harness emits. -/
theorem sent_of_codec {header : Codec.Fields} {body bytes : List UInt8}
    (encoded : Codec.encode header body = .ok bytes) :
    Checked header ∧ Sent header.pairs body bytes := by
  rw [Codec.encode] at encoded
  cases check : Codec.checkHeader header with
  | error e =>
      rw [check] at encoded
      cases encoded
  | ok u =>
      have checked := checkHeader_iff.1 check
      rw [check] at encoded
      simp only at encoded
      cases head : utf8Encode (Python.Json.dumps header.pairs) with
      | none =>
          rw [head] at encoded
          cases encoded
      | some bytes' =>
          obtain ⟨scalars, rfl⟩ := utf8Encode_eq_some.1 head
          rw [head] at encoded
          simp only at encoded
          split_ifs at encoded with long
          cases encoded
          exact ⟨checked, rfl, Nat.not_lt.1 long, scalars, fun p mem =>
            ⟨scalars_dumps scalars p mem, checked.2.2 p mem⟩⟩

theorem held_spelled (v : Value) : Held (spelled v) := by
  cases v with
  | null => trivial
  | bool b => trivial
  | long n => exact fits_toInt n
  | string s => exact scalars_points s

/-- A sum of two lengths that did not wrap is that sum. -/
theorem intSum_le {n m limit : ℕ} (first : n < 2147483648) (second : m < 2147483648)
    (long : ¬ (limit : ℤ) < Wire.intSum (n + 1 + m)) (wrapped : ¬ Wire.intSum (n + 1 + m) < 0) :
    n + 1 + m ≤ limit := by
  unfold Wire.intSum at long wrapped
  generalize total : ((n + 1 + m : ℕ) : ℤ) = s at long wrapped
  by_cases small : s < 2147483648
  · have same : s.bmod 4294967296 = s := Int.bmod_eq_of_le (by omega) (by omega)
    rw [same] at long
    omega
  · have same : s.bmod 4294967296 = s - 4294967296 := by
      have back : (s - 4294967296).bmod 4294967296 = s - 4294967296 :=
        Int.bmod_eq_of_le (by omega) (by omega)
      rw [← back]
      exact (Int.sub_bmod_right s 4294967296).symm
    rw [same] at wrapped
    omega

/-- What the extension emits: the strings of its header as texts. -/
theorem sent_of_wire {header : Wire.Fields} {body : Wire.Bytes} {bytes : List UInt8}
    (encoded : Wire.encode header body = .ok bytes) :
    Sent (header.pairs.map spelledItem) body.data bytes := by
  have text_ := points_write header.pairs
  have scalars := scalars_points (Json.write header.pairs)
  have small := body.size
  rw [Wire.encode] at encoded
  simp only [getBytes, text_] at encoded
  rw [text_] at scalars
  split_ifs at encoded with huge long wrapped
  cases encoded
  have total : (utf8Bytes (Python.Json.dumps (header.pairs.map spelledItem)) ++
      10 :: body.data).length =
      (utf8Bytes (Python.Json.dumps (header.pairs.map spelledItem))).length + 1 +
        body.data.length := by
    rw [List.length_append, List.length_cons]
    omega
  refine ⟨rfl, ?_, scalars, ?_⟩
  · exact total.trans_le (intSum_le (Nat.not_le.1 huge) small long wrapped)
  · intro p mem
    obtain ⟨⟨key, v⟩, -, rfl⟩ := List.mem_map.1 mem
    exact ⟨scalars_points key, held_spelled v⟩

/-! ## The same header -/

/-- A value as the harness has it and as the extension has it. -/
inductive SameValue : Python.Json.Value → Value → Prop
  | null : SameValue .null .null
  | bool (b : Bool) : SameValue (.bool b) (.bool b)
  | int (n : Int64) : SameValue (.int n.toInt) (.long n)
  | string (s : Text) : SameValue (.string s) (.string (utf16 s))

/-- The two headers hold the same values under the same keys. -/
structure SameHeader (header : Codec.Fields) (fields : Wire.Fields) : Prop where
  there : ∀ key v, (key, v) ∈ header.pairs → ∃ w, SameValue v w ∧ (utf16 key, w) ∈ fields.pairs
  back : ∀ key w, (key, w) ∈ fields.pairs →
    ∃ k v, key = utf16 k ∧ SameValue v w ∧ (k, v) ∈ header.pairs

theorem sameValue_carried {v : Python.Json.Value} (held : Held v) : SameValue v (carried v) := by
  cases v with
  | null => exact .null
  | bool b => exact .bool b
  | int n =>
      have same : (Int64.ofInt n).toInt = n :=
        Int64.toInt_ofInt_of_le held.1 (by have := held.2; omega)
      have value := SameValue.int (Int64.ofInt n)
      rw [same] at value
      exact value
  | string s => exact .string s
  | float => exact held.elim
  | list => exact held.elim
  | dict => exact held.elim

theorem sameValue_spelled {v : Value} (formed : ∀ s, v = .string s → WellFormed s) :
    SameValue (spelled v) v := by
  cases v with
  | null => exact .null
  | bool b => exact .bool b
  | long n => exact .int n
  | string s =>
      have value := SameValue.string (points s)
      have same : utf16 (points s) = s := formed s rfl
      rw [same] at value
      exact value

theorem utf16_injective {s t : Text} (scalars : Scalars s) (scalars' : Scalars t)
    (same : utf16 s = utf16 t) : s = t := by
  rw [← points_utf16 scalars, same, points_utf16 scalars']

/-- The keys of a header stay distinct in the extension. -/
theorem pairs_carried {header : Codec.Fields} (held : ∀ p ∈ header.pairs, HeldItem p) :
    (Items.ofPairs (header.pairs.map carriedItem)).pairs = header.pairs.map carriedItem :=
  Items.pairs_ofPairs (Items.nodup_map header.unique carried fun p mem q mem' same =>
    utf16_injective (held p mem).1 (held q mem').1 same)

theorem sameHeader_carried {header : Codec.Fields} (held : ∀ p ∈ header.pairs, HeldItem p) :
    SameHeader header (Items.ofPairs (header.pairs.map carriedItem)) where
  there key v mem := by
    rw [pairs_carried held]
    exact ⟨carried v, sameValue_carried (held _ mem).2, List.mem_map.2 ⟨_, mem, rfl⟩⟩
  back key w mem := by
    rw [pairs_carried held] at mem
    obtain ⟨⟨k, v⟩, inside, same⟩ := List.mem_map.1 mem
    cases same
    exact ⟨k, v, rfl, sameValue_carried (held _ inside).2, inside⟩

/-- Every string of the header has its surrogates in pairs. -/
def Formed (fields : Wire.Fields) : Prop :=
  ∀ p ∈ fields.pairs, WellFormed p.1 ∧ ∀ s, p.2 = .string s → WellFormed s

theorem pairs_spelled {fields : Wire.Fields} (formed : Formed fields) :
    (Items.ofPairs (fields.pairs.map spelledItem)).pairs = fields.pairs.map spelledItem :=
  Items.pairs_ofPairs (Items.nodup_map fields.unique spelled fun p mem q mem' same => by
    have first : utf16 (points p.1) = p.1 := (formed p mem).1
    have second : utf16 (points q.1) = q.1 := (formed q mem').1
    rw [← first, same, second])

/-- The harness has the same header if and only if the strings survive being written. -/
theorem sameHeader_spelled_iff {fields : Wire.Fields} :
    SameHeader (Items.ofPairs (fields.pairs.map spelledItem)) fields ↔ Formed fields := by
  constructor
  · rintro same ⟨key, w⟩ mem
    obtain ⟨k, v, rfl, value, inside⟩ := same.back key w mem
    obtain ⟨⟨key', w'⟩, -, item⟩ := List.mem_map.1 (Items.mem_of_mem_ofPairs inside)
    cases item
    refine ⟨wellFormed_utf16 (scalars_points key'), fun s is => ?_⟩
    subst is
    have scalars := held_spelled w'
    generalize spelled w' = v at value scalars
    cases value with
    | string s => exact wellFormed_utf16 scalars
  · intro formed
    constructor
    · intro key v mem
      rw [pairs_spelled formed] at mem
      obtain ⟨⟨key', w⟩, inside, item⟩ := List.mem_map.1 mem
      cases item
      have name : utf16 (points key') = key' := (formed _ inside).1
      refine ⟨w, sameValue_spelled (formed _ inside).2, ?_⟩
      show (utf16 (points key'), w) ∈ fields.pairs
      rw [name]
      exact inside
    · intro key w mem
      rw [pairs_spelled formed]
      have name : utf16 (points key) = key := (formed _ mem).1
      exact ⟨points key, spelled w, name.symm, sameValue_spelled (formed _ mem).2,
        List.mem_map.2 ⟨_, mem, rfl⟩⟩

/-- A field is in both headers or in neither. -/
theorem SameHeader.get_iff {header : Codec.Fields} {fields : Wire.Fields}
    (same : SameHeader header fields) (held : ∀ p ∈ header.pairs, Scalars p.1) {key : Text}
    (scalars : Scalars key) : header.get key ≠ none ↔ fields.get (utf16 key) ≠ none := by
  rw [Option.ne_none_iff_exists', Option.ne_none_iff_exists']
  constructor
  · rintro ⟨v, found⟩
    obtain ⟨w, -, mem⟩ := same.there key v (Items.get_eq_some.1 found)
    exact ⟨w, Items.get_eq_some.2 mem⟩
  · rintro ⟨w, found⟩
    obtain ⟨k, v, text_, -, mem⟩ := same.back _ w (Items.get_eq_some.1 found)
    have name := utf16_injective scalars (held _ mem) text_
    exact ⟨v, Items.get_eq_some.2 (name ▸ mem)⟩

/-! ## One body -/

/-- The header declares nothing about bodies. -/
def OneBody (header : Codec.Fields) : Prop :=
  header.get Codec.bodiesKey = none ∨ header.get Codec.bodiesKey = some .null

theorem scalars_text {w : String} (all : ascii w = true) : Scalars (text w) := by
  intro c mem
  obtain ⟨d, inside, rfl⟩ := List.mem_map.1 mem
  have small := of_decide_eq_true (List.all_eq_true.1 all d inside)
  have val : (chr d.toNat).val = d.toNat := Nat.mod_eq_of_lt (by omega)
  exact isScalar_iff.2 (.inl (by omega))

theorem utf16_text {w : String} (all : ascii w = true) : utf16 (text w) = js w := by
  have points_ := points_js all []
  rw [List.append_nil] at points_
  have formed : ∀ cs : List Char, (cs.all fun c => c.toNat < 0x80) = true →
      utf16 (cs.map fun c => chr c.toNat) = cs.map fun c => Fin.ofNat 65536 c.toNat := by
    intro cs
    induction cs with
    | nil => exact fun _ => rfl
    | cons c cs ih =>
        intro all
        rw [List.all_cons, Bool.and_eq_true, decide_eq_true_eq] at all
        have val : (chr c.toNat).val = c.toNat := Nat.mod_eq_of_lt (by omega)
        rw [List.map_cons, utf16_cons, units_small (by omega), ih all.2, val]
        rfl
  exact formed w.toList all

/-- What the extension finds under a key. -/
theorem get_carried {header : Codec.Fields} (held : ∀ p ∈ header.pairs, HeldItem p) {key : Text}
    (scalars : Scalars key) :
    (Items.ofPairs (header.pairs.map carriedItem)).get (utf16 key) =
      (header.get key).map carried := by
  cases found : header.get key with
  | none =>
      rw [Option.map_none, Items.get_eq_none, pairs_carried held]
      intro mem
      obtain ⟨p, inside, name⟩ := List.mem_map.1 mem
      obtain ⟨⟨k, v⟩, item, rfl⟩ := List.mem_map.1 inside
      have same := utf16_injective (held _ item).1 scalars name
      exact Items.get_eq_none.1 found (List.mem_map.2 ⟨_, item, same⟩)
  | some v =>
      rw [Option.map_some, Items.get_eq_some, pairs_carried held]
      exact List.mem_map.2 ⟨_, Items.get_eq_some.1 found, rfl⟩

theorem get_bodies {header : Codec.Fields} (held : ∀ p ∈ header.pairs, HeldItem p) :
    (Items.ofPairs (header.pairs.map carriedItem)).get Wire.bodiesKey =
      (header.get Codec.bodiesKey).map carried := by
  have name : Wire.bodiesKey = utf16 Codec.bodiesKey := (utf16_text rfl).symm
  exact name ▸ get_carried held (scalars_text rfl)

theorem withBodies_plain {fields : Wire.Fields} (payload : List UInt8)
    (plain : fields.get Wire.bodiesKey = none ∨ fields.get Wire.bodiesKey = some .null) :
    Wire.withBodies fields payload = .ok ⟨fields, payload, none⟩ := by
  have declares : Wire.declaresTwoBodies fields = .ok false := by
    rw [Wire.declaresTwoBodies]
    cases plain with
    | inl absent => rw [absent]
    | inr null => rw [null]
  rw [Wire.withBodies, declares]

/-- A header that declares anything has two bodies or is refused. -/
theorem withBodies_declared {fields : Wire.Fields} {payload : List UInt8}
    {decoded : Wire.Decoded}
    (declared : ¬ (fields.get Wire.bodiesKey = none ∨ fields.get Wire.bodiesKey = some .null))
    (read : Wire.withBodies fields payload = .ok decoded) : decoded.second ≠ none := by
  have no_plain : Wire.declaresTwoBodies fields ≠ .ok false := by
    rw [Wire.declaresTwoBodies]
    cases found : fields.get Wire.bodiesKey with
    | none => exact absurd (.inl found) declared
    | some v =>
        cases v with
        | null => exact absurd (.inr found) declared
        | bool b => exact fun is => by cases is
        | string s => exact fun is => by cases is
        | long n =>
            simp only
            split_ifs
            · exact fun is => by cases is
            · exact fun is => by cases is
  rw [Wire.withBodies] at read
  cases declares : Wire.declaresTwoBodies fields with
  | error e =>
      rw [declares] at read
      cases read
  | ok two =>
      rw [declares] at read
      cases two with
      | false => exact absurd declares no_plain
      | true =>
          simp only at read
          cases split : Wire.splitBodies payload with
          | error e =>
              rw [split] at read
              cases read
          | ok p =>
              rw [split] at read
              cases read
              exact Option.some_ne_none _

theorem withBodies_joined {fields : Wire.Fields} {first second : List UInt8}
    (two : fields.get Wire.bodiesKey = some (.long 2)) (small₁ : first.length < 4294967296)
    (small₂ : second.length < 4294967296) :
    Wire.withBodies fields (joined first second) = .ok ⟨fields, first, some second⟩ := by
  have declares : Wire.declaresTwoBodies fields = .ok true := by
    rw [Wire.declaresTwoBodies, two]
    exact if_pos rfl
  have split : Wire.splitBodies (joined first second) = .ok (first, second) := by
    rw [Wire.splitBodies, halves_joined small₁ small₂]
    rfl
  rw [Wire.withBodies, declares]
  simp only [split]

/-! ## The crossings -/

/-- The extension reads what the harness sent as one body. -/
def ReadAsOne (D : Json.Digits) (header : Codec.Fields) (body bytes : List UInt8) : Prop :=
  ∃ fields consumed, Wire.decode D bytes = .ok (⟨fields, body, none⟩, consumed) ∧
    SameHeader header fields

/-- The harness reads what the extension sent. -/
def ReadBack (fields : Wire.Fields) (body bytes : List UInt8) : Prop :=
  ∃ header consumed, Codec.decode bytes = .ok ((header, body), consumed) ∧
    SameHeader header fields

/-- What the extension must put in a header: the required fields, and strings whose surrogates
are in pairs. -/
def Crosses (fields : Wire.Fields) : Prop :=
  fields.get (js "v") ≠ none ∧ fields.get (js "t") ≠ none ∧ Formed fields

section Crossings

variable (D : Json.Digits) {header : Codec.Fields} {fields : Wire.Fields}
  {body bytes : List UInt8}

theorem readAsOne_iff (sent : Sent header.pairs body bytes) :
    ReadAsOne D header body bytes ↔ OneBody header := by
  have bodies := get_bodies sent.held
  have plain : OneBody header ↔
      ((Items.ofPairs (header.pairs.map carriedItem)).get Wire.bodiesKey = none ∨
        (Items.ofPairs (header.pairs.map carriedItem)).get Wire.bodiesKey = some .null) := by
    rw [bodies, OneBody]
    cases found : header.get Codec.bodiesKey with
    | none => simp
    | some v =>
        have held := (sent.held _ (Items.get_eq_some.1 found)).2
        cases v with
        | null => simp [carried]
        | bool b => simp [carried]
        | int n => simp [carried]
        | string s => simp [carried]
        | float => exact held.elim
        | list => exact held.elim
        | dict => exact held.elim
  rw [ReadAsOne, sent.wire_decode D]
  constructor
  · rintro ⟨fields, consumed, read, -⟩
    by_contra declared
    cases two : Wire.withBodies (Items.ofPairs (header.pairs.map carriedItem)) body with
    | error e =>
        rw [two] at read
        cases read
    | ok decoded =>
        have second := withBodies_declared (fun p => declared (plain.2 p)) two
        rw [two] at read
        cases read
        exact second rfl
  · intro one
    rw [withBodies_plain body (plain.1 one)]
    exact ⟨_, _, rfl, sameHeader_carried sent.held⟩

theorem readBack_iff (sent : Sent (fields.pairs.map spelledItem) body bytes) :
    ReadBack fields body bytes ↔ Crosses fields := by
  have scalars : ∀ p ∈ (Items.ofPairs (fields.pairs.map spelledItem)).pairs, Scalars p.1 :=
    fun p mem => (sent.held p (Items.mem_of_mem_ofPairs mem)).1
  have version : utf16 (text "v") = js "v" := utf16_text rfl
  have kind : utf16 (text "t") = js "t" := utf16_text rfl
  constructor
  · rintro ⟨header, consumed, read, same⟩
    obtain ⟨⟨rfl, v, t, -⟩, -, -⟩ := sent.codec_decode.1 read
    rw [same.get_iff scalars (scalars_text rfl), version] at v
    rw [same.get_iff scalars (scalars_text rfl), kind] at t
    exact ⟨v, t, sameHeader_spelled_iff.1 same⟩
  · rintro ⟨v, t, formed⟩
    have same := sameHeader_spelled_iff.2 formed
    rw [← version, ← same.get_iff scalars (scalars_text rfl)] at v
    rw [← kind, ← same.get_iff scalars (scalars_text rfl)] at t
    exact ⟨_, _, sent.codec_decode.2 ⟨⟨rfl, v, t, fun p mem =>
      (sent.held p (Items.mem_of_mem_ofPairs mem)).2⟩, rfl, rfl⟩, same⟩

end Crossings

end Hx.Bridge
