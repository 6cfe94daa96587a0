import Hx.Bridge.ConfigBody
import Hx.Bridge.Crossing
import Hx.Library.Fallible
import Hx.Library.Gathered

/-!
# A configure as the harness writes it

`build_config_body` writes a line for every value, `parse_config_body` and `ConfigBody.parse`
gather the lines again. A key with no value is on no line; three keys the extension reads as
numbers, and refuses a body in which one of them is none.
-/

namespace Hx.Bridge

open Hx.Library Hx.Java

namespace Codec

/-- `CONFIG_KEYS`. -/
def configKeys : List Text :=
  [text "scope.include", text "scope.exclude", text "dangerous.path", text "method.allow",
    text "limit.rate_rps", text "limit.rate_burst", text "limit.concurrency",
    text "limit.max_requests", text "render.allow"]

/-- `dict[str, list[str]]`. -/
abbrev Pairs := Items Text (List Text)

/-- The `FrameError`s with what their texts name, and what encoding and decoding raise. -/
inductive ConfigError where
  | unrecognised (key : Text)
  | tabOrNewline (key : Text)
  | noTab (line : Text)
  | unencodable
  | undecodable
  deriving DecidableEq

def tab : CodePoint := chr 9
def newline : CodePoint := chr 10

/-- The body of the inner loop. -/
def buildValue (key : Text) (out : List UInt8) (value : Text) : Except ConfigError (List UInt8) :=
  if tab ∈ value ∨ newline ∈ value then .error (.tabOrNewline key)
  else match utf8Encode value with
    | none => .error .unencodable
    | some encoded => .ok (out ++ (utf8Bytes key ++ 9 :: (encoded ++ [10])))

def buildKey (out : List UInt8) (p : Text × List Text) : Except ConfigError (List UInt8) :=
  if configKeys.contains p.1 then p.2.foldlM (buildValue p.1) out
  else .error (.unrecognised p.1)

def buildConfigBody (pairs : Pairs) : Except ConfigError (List UInt8) :=
  pairs.pairs.foldlM buildKey []

/-- `pairs.setdefault(key, []).append(value)`. -/
def append (pairs : Pairs) (key value : Text) : Pairs :=
  pairs.put key ((pairs.get key).getD [] ++ [value])

def readLine (pairs : Pairs) (line : Text) : Except ConfigError Pairs :=
  if line = [] then .ok pairs
  else if tab ∈ line then
    let key := line.takeWhile fun c => c ≠ tab
    if configKeys.contains key then .ok (append pairs key (line.drop (key.length + 1)))
    else .error (.unrecognised key)
  else .error (.noTab line)

def parseConfigBody (body : List UInt8) : Except ConfigError Pairs :=
  match utf8Decode body with
  | none => .error .undecodable
  | some t => (t.splitOn newline).foldlM readLine Items.empty

end Codec

open Codec

/-- A mapping as the extension holds it. -/
def carriedPairs (pairs : List (Text × List Text)) : Scope :=
  pairs.map fun p => (utf16 p.1, p.2.map utf16)

/-- The values of the three numbers are numbers the extension takes: one each, positive. -/
def UsableLimits (D : DigitMap) (pairs : Pairs) : Prop :=
  ∀ p ∈ pairs.pairs, utf16 p.1 ∈ ConfigBody.positiveIntegerKeys → p.2 ≠ [] →
    ∃ value n, p.2 = [value] ∧ parseLong D (JString.strip (utf16 value)) = some n ∧ 0 < n

/-! ## What is written -/

/-- What a mapping may hold to be written. -/
structure Writes (pairs : List (Text × List Text)) : Prop where
  known : ∀ p ∈ pairs, p.1 ∈ configKeys
  plain : ∀ e ∈ entries pairs, tab ∉ e.2 ∧ newline ∉ e.2
  scalars : ∀ e ∈ entries pairs, Scalars e.2

section Written

variable {key : Text} {values : List Text} {l : List (Text × List Text)} {out bytes : List UInt8}

/-- The bytes of some entries. -/
def entryBytes (es : List (Text × Text)) : List UInt8 :=
  utf8Bytes (entryLines tab newline es)

theorem entryBytes_cons (e : Text × Text) (es : List (Text × Text)) :
    entryBytes (e :: es) =
      (utf8Bytes e.1 ++ 9 :: (utf8Bytes e.2 ++ [10])) ++ entryBytes es := by
  have tabByte : utf8Bytes [tab] = [9] := by decide
  have newlineByte : utf8Bytes [newline] = [10] := by decide
  have cut (s t : Text) : utf8Bytes (s ++ t) = utf8Bytes s ++ utf8Bytes t := List.flatMap_append
  have split (s : Text) : tab :: s = [tab] ++ s := rfl
  rw [entryBytes, entryLines, List.flatMap_cons, entryLine, split, cut, cut, cut, cut, tabByte,
    newlineByte]
  simp [entryBytes, entryLines]

theorem entryBytes_append (es more : List (Text × Text)) :
    entryBytes (es ++ more) = entryBytes es ++ entryBytes more := by
  induction es with
  | nil => rfl
  | cons e es ih =>
      rw [List.cons_append, entryBytes_cons, entryBytes_cons, ih]
      exact (List.append_assoc _ _ _).symm

theorem buildValues_ok (built : values.foldlM (buildValue key) out = .ok bytes) :
    (∀ value ∈ values, (tab ∉ value ∧ newline ∉ value) ∧ Scalars value) ∧
      bytes = out ++ entryBytes (values.map fun value => (key, value)) := by
  induction values generalizing out with
  | nil =>
      cases built
      exact ⟨nofun, (List.append_nil _).symm⟩
  | cons value values ih =>
      rw [List.foldlM_cons] at built
      obtain ⟨next, first, rest⟩ := of_bind_ok built
      rw [buildValue] at first
      split_ifs at first with bad
      rw [not_or] at bad
      cases encoded : utf8Encode value with
      | none =>
          rw [encoded] at first
          cases first
      | some b =>
          rw [encoded] at first
          cases first
          obtain ⟨scalars, rfl⟩ := utf8Encode_eq_some.1 encoded
          obtain ⟨later, whole⟩ := ih rest
          refine ⟨List.forall_mem_cons.2 ⟨⟨bad, scalars⟩, later⟩, whole.trans ?_⟩
          rw [List.map_cons, entryBytes_cons]
          exact List.append_assoc _ _ _

/-- What is accepted is written entry by entry. -/
theorem buildKeys_ok (built : l.foldlM buildKey out = .ok bytes) :
    Writes l ∧ bytes = out ++ entryBytes (entries l) := by
  induction l generalizing out with
  | nil =>
      cases built
      exact ⟨⟨nofun, nofun, nofun⟩, (List.append_nil _).symm⟩
  | cons p l ih =>
      rw [List.foldlM_cons] at built
      obtain ⟨next, first, rest⟩ := of_bind_ok built
      rw [buildKey] at first
      split_ifs at first with known
      obtain ⟨values, written⟩ := buildValues_ok first
      obtain ⟨later, whole⟩ := ih rest
      have here : ∀ e ∈ p.2.map fun value => (p.1, value),
          (tab ∉ e.2 ∧ newline ∉ e.2) ∧ Scalars e.2 := by
        intro e mem
        obtain ⟨value, inside, rfl⟩ := List.mem_map.1 mem
        exact values value inside
      have split : entries (p :: l) = (p.2.map fun value => (p.1, value)) ++ entries l :=
        List.flatMap_cons
      refine ⟨⟨?_, ?_, ?_⟩, ?_⟩
      · exact List.forall_mem_cons.2 ⟨List.contains_iff_mem.1 known, later.known⟩
      · rw [split]
        exact List.forall_mem_append.2 ⟨fun e mem => (here e mem).1, later.plain⟩
      · rw [split]
        exact List.forall_mem_append.2 ⟨fun e mem => (here e mem).2, later.scalars⟩
      · rw [whole, written, split, entryBytes_append, List.append_assoc]

theorem buildValues_written
    (all : ∀ value ∈ values, (tab ∉ value ∧ newline ∉ value) ∧ Scalars value) :
    values.foldlM (buildValue key) out =
      .ok (out ++ entryBytes (values.map fun value => (key, value))) := by
  induction values generalizing out with
  | nil => exact congrArg Except.ok (List.append_nil out).symm
  | cons value values ih =>
      obtain ⟨⟨plain, scalars⟩, later⟩ := List.forall_mem_cons.1 all
      have step : buildValue key out value =
          .ok (out ++ (utf8Bytes key ++ 9 :: (utf8Bytes value ++ [10]))) := by
        rw [buildValue, if_neg (not_or.2 plain), utf8Encode_eq_some.2 ⟨scalars, rfl⟩]
      rw [List.foldlM_cons, step, List.map_cons, entryBytes_cons]
      exact (ih later).trans (congrArg Except.ok (List.append_assoc _ _ _))

/-- What may be written is written. -/
theorem Writes.built (writes : Writes l) :
    l.foldlM buildKey out = .ok (out ++ entryBytes (entries l)) := by
  induction l generalizing out with
  | nil => exact congrArg Except.ok (List.append_nil out).symm
  | cons p l ih =>
      have split : entries (p :: l) = (p.2.map fun value => (p.1, value)) ++ entries l :=
        List.flatMap_cons
      obtain ⟨known, others⟩ := List.forall_mem_cons.1 writes.known
      have plain := writes.plain
      have scalars := writes.scalars
      rw [split] at plain scalars
      obtain ⟨plain, plains⟩ := List.forall_mem_append.1 plain
      obtain ⟨scalar, scalars⟩ := List.forall_mem_append.1 scalars
      have here : p.2.foldlM (buildValue p.1) out = _ := buildValues_written fun v mem =>
        ⟨plain _ (List.mem_map_of_mem mem), scalar _ (List.mem_map_of_mem mem)⟩
      rw [List.foldlM_cons, buildKey, if_pos (List.contains_iff_mem.2 known), here, split,
        entryBytes_append]
      exact (ih ⟨others, plains, scalars⟩).trans (congrArg Except.ok (List.append_assoc _ _ _))

end Written

/-! ## What is gathered -/

section Gathered

variable {l : List (Text × List Text)}

theorem gathers_append : Gathers Items.pairs Codec.append where
  fresh s key value apart := by
    rw [Codec.append, Items.get_eq_none.2 apart]
    exact putPair_of_notMem apart
  again s key value front values last apart := by
    have held : s.get key = some values := by
      rw [Items.get_eq_some, last]
      exact List.mem_append_right _ (List.mem_singleton_self _)
    rw [Codec.append, held, Items.pairs_put, last, putPair_append apart, putPair, if_pos rfl]
    rfl

theorem gathers_add : Gathers (fun scope : Scope => scope) ConfigBody.add where
  fresh s key value apart := by
    have absent : s.get key = none := by
      refine List.lookup_eq_none_iff.2 fun p mem => ?_
      exact bne_iff_ne.2 fun same => apart (List.mem_map.2 ⟨p, mem, same.symm⟩)
    rw [ConfigBody.add, absent]
    rfl
  again s key value front values last apart := by
    have other : ∀ p ∈ front, p.1 ≠ key := fun p mem same => apart (List.mem_map.2 ⟨p, mem, same⟩)
    have held : (s.get key).isSome = true := by
      cases found : s.get key with
      | some _ => rfl
      | none =>
          have absent := List.lookup_eq_none_iff.1 found (key, values)
            (last ▸ List.mem_append_right _ (List.mem_singleton_self _))
          exact absurd rfl (bne_iff_ne.1 absent)
    have kept : front.map (fun kv => if kv.1 = key then (kv.1, kv.2 ++ [value]) else kv) = front :=
      (List.map_congr_left fun p mem => if_neg (other p mem)).trans (List.map_id _)
    rw [ConfigBody.add, if_pos held, last, List.map_append, kept, List.map_singleton, if_pos rfl]

theorem lines_eq (s : JString) : ConfigBody.lines s = s.splitOn (ch '\n') := by
  induction s with
  | nil => exact (List.splitOn_nil _).symm
  | cons c s ih =>
      rw [ConfigBody.lines, List.splitOn_cons_eq_if_modifyHead, ih]
      by_cases here : c = ch '\n'
      · rw [if_pos here, if_pos (beq_iff_eq.2 here)]
      · rw [if_neg here, if_neg (fun same => here (beq_iff_eq.1 same))]

theorem key_plain : ∀ key ∈ configKeys, tab ∉ key ∧ newline ∉ key ∧ key ≠ [] := by decide

theorem keys_eq : ConfigBody.keys = configKeys.map utf16 := by
  simp only [configKeys, List.map_cons, List.map_nil]
  repeat rw [utf16_text rfl]
  rfl

theorem key_scalars : ∀ key ∈ configKeys, Scalars key := by
  intro key mem
  simp only [configKeys, List.mem_cons, List.not_mem_nil, or_false] at mem
  rcases mem with rfl | rfl | rfl | rfl | rfl | rfl | rfl | rfl | rfl
  all_goals exact scalars_text rfl

theorem mem_entries {e : Text × Text} :
    e ∈ entries l ↔ ∃ values, (e.1, values) ∈ l ∧ e.2 ∈ values := by
  rw [entries, List.mem_flatMap]
  constructor
  · rintro ⟨p, mem, inside⟩
    obtain ⟨value, held, rfl⟩ := List.mem_map.1 inside
    exact ⟨p.2, mem, held⟩
  · rintro ⟨values, mem, held⟩
    exact ⟨_, mem, List.mem_map.2 ⟨e.2, held, rfl⟩⟩

variable (writes : Writes l)

include writes

theorem Writes.named {e : Text × Text} (mem : e ∈ entries l) : e.1 ∈ configKeys := by
  obtain ⟨values, inside, _⟩ := mem_entries.1 mem
  exact writes.known _ inside

theorem Writes.line {e : Text × Text} (mem : e ∈ entries l) :
    newline ∉ entryLine tab e ∧ Scalars (entryLine tab e) := by
  have key := key_plain _ (writes.named mem)
  constructor
  · intro inside
    cases List.mem_append.1 inside with
    | inl early => exact key.2.1 early
    | inr late =>
        cases List.mem_cons.1 late with
        | inl here => exact absurd here (by decide)
        | inr value => exact (writes.plain e mem).2 value
  · refine scalars_append.2 ⟨key_scalars _ (writes.named mem), scalars_cons.2 ⟨by decide, ?_⟩⟩
    exact writes.scalars e mem

/-- The text of the bytes. -/
theorem Writes.decoded :
    utf8Decode (entryBytes (entries l)) = some (entryLines tab newline (entries l)) := by
  refine utf8Decode_utf8Bytes fun c mem => ?_
  obtain ⟨e, inside, among⟩ := List.mem_flatMap.1 mem
  cases List.mem_append.1 among with
  | inl line => exact (writes.line inside).2 c line
  | inr last =>
      rw [List.mem_singleton.1 last]
      rfl

/-- The harness reads its own lines. -/
theorem Writes.parse : ∃ q, parseConfigBody (entryBytes (entries l)) = .ok q ∧
    ((l.map Prod.fst).Nodup → q.pairs = valued l) := by
  have cut := splitOn_entryLines fun e mem => (writes.line (e := e) mem).1
  have step : ∀ e ∈ entries l, ∀ s, readLine s (entryLine tab e) = .ok (append s e.1 e.2) := by
    intro e mem s
    have plain := (key_plain _ (writes.named mem)).1
    have some_ : entryLine tab e ≠ [] := List.append_ne_nil_of_right_ne_nil _ (List.cons_ne_nil _ _)
    rw [readLine, if_neg some_, if_pos mem_entryLine]
    simp only [takeWhile_entryLine plain, drop_entryLine]
    exact if_pos (List.contains_iff_mem.2 (writes.named mem))
  have read := foldlM_eq_ok step Items.empty
  refine ⟨_, ?_, fun unique =>
    gathers_append.entries (s := Items.empty) unique⟩
  rw [parseConfigBody, writes.decoded]
  show ((entryLines tab newline (entries l)).splitOn newline).foldlM readLine Items.empty = _
  rw [cut, List.foldlM_append, List.foldlM_map, read]
  rfl

omit writes in
theorem notMem_utf16 {t : Text} {c : CodePoint} {d : JChar} (same : d.val = c.val)
    (small : d.val < 0x80) (absent : c ∉ t) : d ∉ utf16 t := by
  intro mem
  obtain ⟨b, inside, among⟩ := List.mem_flatMap.1 mem
  obtain ⟨_, val⟩ | ⟨_, high, _⟩ := mem_units among
  · exact absent (Fin.ext (same.symm.trans val) ▸ inside)
  · omega

/-- An entry as the extension reads it. -/
def carriedEntry (e : Text × Text) : JString × JString := (utf16 e.1, utf16 e.2)

omit writes in
theorem utf16_entryLine (e : Text × Text) :
    utf16 (entryLine tab e) = entryLine (ch '\t') (carriedEntry e) := utf16_append _ _

omit writes in
theorem utf16_entryLines (es : List (Text × Text)) :
    utf16 (entryLines tab newline es) =
      entryLines (ch '\t') (ch '\n') (es.map carriedEntry) := by
  induction es with
  | nil => rfl
  | cons e es ih =>
      rw [entryLines, List.flatMap_cons, utf16_append, utf16_append, utf16_entryLine]
      exact congrArg (_ ++ ·) ih

omit writes in
theorem entries_carried : entries (carriedPairs l) = (entries l).map carriedEntry := by
  rw [carriedPairs, entries, entries, List.flatMap_map, List.map_flatMap]
  simp only [List.map_map]
  rfl

omit writes in
theorem valued_carried : valued (carriedPairs l) = carriedPairs (valued l) := by
  rw [carriedPairs, valued, List.filter_map]
  refine congrArg (List.map _) (List.filter_congr fun p _ => ?_)
  show (!(p.2.map utf16).isEmpty) = !p.2.isEmpty
  rw [List.isEmpty_map]

theorem Writes.unique (unique : (l.map Prod.fst).Nodup) :
    ((carriedPairs l).map Prod.fst).Nodup := by
  refine Items.nodup_map unique (List.map utf16) fun p mem q mem' same => ?_
  exact utf16_injective (key_scalars _ (writes.known p mem)) (key_scalars _ (writes.known q mem'))
    same

/-- The extension reads the lines of the harness. -/
theorem Writes.gathered (malformed : List UInt8 → JString) (unique : (l.map Prod.fst).Nodup) :
    (ConfigBody.lines (newString malformed (entryBytes (entries l)))).foldlM
      ConfigBody.readLine [] = .ok (carriedPairs (valued l)) := by
  have whole : ∀ e ∈ (entries l).map carriedEntry, ch '\n' ∉ entryLine (ch '\t') e := by
    intro e mem
    obtain ⟨d, inside, rfl⟩ := List.mem_map.1 mem
    rw [← utf16_entryLine]
    exact notMem_utf16 rfl (by decide) (writes.line inside).1
  have step : ∀ e ∈ (entries l).map carriedEntry, ∀ s,
      ConfigBody.readLine s (entryLine (ch '\t') e) = .ok (ConfigBody.add s e.1 e.2) := by
    intro e mem s
    obtain ⟨d, inside, rfl⟩ := List.mem_map.1 mem
    have named := writes.named inside
    have plain : ch '\t' ∉ (carriedEntry d).1 :=
      notMem_utf16 rfl (by decide) (key_plain _ named).1
    have some_ : entryLine (ch '\t') (carriedEntry d) ≠ [] :=
      List.append_ne_nil_of_right_ne_nil _ (List.cons_ne_nil _ _)
    have known : ConfigBody.keys.contains (carriedEntry d).1 = true := by
      rw [keys_eq]
      exact List.contains_iff_mem.2 (List.mem_map_of_mem named)
    rw [ConfigBody.readLine, if_neg some_, if_pos mem_entryLine]
    simp only [takeWhile_entryLine plain, drop_entryLine]
    exact if_pos known
  have read := foldlM_eq_ok step ([] : Scope)
  have gathered := gathers_add.entries (l := carriedPairs l) (s := ([] : Scope))
    (writes.unique unique)
  rw [entries_carried, List.nil_append, valued_carried] at gathered
  rw [newString, writes.decoded]
  show (ConfigBody.lines (utf16 (entryLines tab newline (entries l)))).foldlM _ _ = _
  rw [utf16_entryLines, lines_eq, splitOn_entryLines whole, List.foldlM_append, List.foldlM_map,
    read, gathered]
  rfl

end Gathered

/-! ## The three numbers -/

section Limits

variable {D : DigitMap} {scope : Scope} {key : JString} {values : List JString}

theorem get_of_mem (unique : (scope.map Prod.fst).Nodup) (mem : (key, values) ∈ scope) :
    scope.get key = some values := by
  obtain ⟨front, rest, rfl⟩ := List.append_of_mem mem
  rw [List.map_append, List.nodup_append] at unique
  refine List.lookup_eq_some_iff.2 ⟨front, rest, rfl, fun p early => bne_iff_ne.2 fun same => ?_⟩
  exact unique.2.2 _ (List.mem_map_of_mem early) _ List.mem_cons_self same.symm

theorem positiveInteger_eq_none : ConfigBody.positiveInteger D (some values) key = none ↔
    values = [] ∨ ∃ value n, values = [value] ∧ parseLong D (JString.strip value) = some n ∧
      0 < n := by
  match values with
  | [] => exact ⟨fun _ => .inl rfl, fun _ => rfl⟩
  | [value] =>
      rw [ConfigBody.positiveInteger]
      cases number : parseLong D (JString.strip value) with
      | none => simp [number]
      | some n =>
          by_cases low : n ≤ 0
          · have : ¬ 0 < n := Int64.not_lt.2 low
            simp [number, low, this]
          · have : 0 < n := Int64.not_le.1 low
            simp [number, low, this]
  | first :: second :: rest =>
      have many : ConfigBody.positiveInteger D (some (first :: second :: rest)) key =
          some _ := rfl
      rw [many]
      simp

theorem checked_ok (usable : ∀ key ∈ ConfigBody.positiveIntegerKeys,
    ConfigBody.positiveInteger D (scope.get key) key = none) :
    ConfigBody.checked D scope = .ok scope := by
  rw [ConfigBody.checked, List.findSome?_eq_none_iff.2 usable]

theorem checked_error {message : JString} (listed : key ∈ ConfigBody.positiveIntegerKeys)
    (bad : ConfigBody.positiveInteger D (scope.get key) key = some message) :
    ∃ m, ConfigBody.checked D scope = .error m := by
  cases found : ConfigBody.positiveIntegerKeys.findSome? fun key =>
      ConfigBody.positiveInteger D (scope.get key) key with
  | none =>
      have fine := List.findSome?_eq_none_iff.1 found key listed
      exact absurd (bad.symm.trans fine) (Option.some_ne_none _)
  | some m => exact ⟨m, by rw [ConfigBody.checked, found]⟩

/-- The values of a key of a mapping, as the extension finds them. -/
theorem limit_iff {p : Text × List Text} :
    ConfigBody.positiveInteger D (some (p.2.map utf16)) key = none ↔ (p.2 ≠ [] →
      ∃ value n, p.2 = [value] ∧ parseLong D (JString.strip (utf16 value)) = some n ∧ 0 < n) := by
  rw [positiveInteger_eq_none, List.map_eq_nil_iff]
  constructor
  · rintro (none_ | ⟨carried, n, one, number, positive⟩) some_
    · exact absurd none_ some_
    · obtain ⟨value, whole, rfl⟩ := List.map_eq_singleton_iff.1 one
      exact ⟨value, n, whole, number, positive⟩
  · intro usable
    by_cases none_ : p.2 = []
    · exact .inl none_
    · obtain ⟨value, n, one, number, positive⟩ := usable none_
      exact .inr ⟨utf16 value, n, by rw [one]; rfl, number, positive⟩

/-- The extension takes the numbers of a mapping where they are usable, and refuses it else. -/
theorem checked_carried {pairs : Pairs} (unique : ((carriedPairs pairs.pairs).map Prod.fst).Nodup) :
    (UsableLimits D pairs →
        ConfigBody.checked D (carriedPairs pairs.pairs) = .ok (carriedPairs pairs.pairs)) ∧
      (¬ UsableLimits D pairs → ∃ m, ConfigBody.checked D (carriedPairs pairs.pairs) = .error m) := by
  constructor
  · intro usable
    refine checked_ok fun key listed => ?_
    cases found : (carriedPairs pairs.pairs).get key with
    | none => rfl
    | some values =>
        obtain ⟨front, rest, whole, _⟩ := List.lookup_eq_some_iff.1 found
        have mem : (key, values) ∈ carriedPairs pairs.pairs := by
          rw [whole]
          exact List.mem_append_right _ List.mem_cons_self
        obtain ⟨p, inside, same⟩ := List.mem_map.1 mem
        cases same
        exact limit_iff.2 (usable p inside listed)
  · intro unusable
    simp only [UsableLimits, not_forall] at unusable
    obtain ⟨p, mem, listed, some_, bad⟩ := unusable
    have found := get_of_mem unique (List.mem_map_of_mem mem)
    cases refused : ConfigBody.positiveInteger D (some (p.2.map utf16)) (utf16 p.1) with
    | none => exact absurd (limit_iff.1 refused some_) bad
    | some message => exact checked_error listed (found ▸ refused)

end Limits

/-- `{"method.allow": []}`. -/
def emptied : Pairs := ⟨[(text "method.allow", [])], List.nodup_singleton _⟩

/-- `{"limit.rate_rps": ["fast"]}`, and the body it is written to. -/
def unreadable : Pairs := ⟨[(text "limit.rate_rps", [text "fast"])], List.nodup_singleton _⟩

def unreadableBody : List UInt8 := utf8Bytes (text "limit.rate_rps\tfast\n")

/-- `{"method.allow": ["GET"]}`, and the body it is written to. -/
def allowing : Pairs := ⟨[(text "method.allow", [text "GET"])], List.nodup_singleton _⟩

def allowingBody : List UInt8 := utf8Bytes (text "method.allow\tGET\n")

end Hx.Bridge
