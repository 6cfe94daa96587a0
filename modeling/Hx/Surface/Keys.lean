import Hx.Checks.Template
import Mathlib.Data.Finset.Sort
import Mathlib.Data.List.Lex
import Mathlib.Data.String.Basic

/-!
# What a surface is told apart by

A surface is recorded under the template of its path and the set of its query's keys. Two queries
have one text exactly when they have the same keys. A placeholder of a template, behind the first
segment of the path, was put there by a rule; and two segments that are kept have one text only if
they stand for the same bytes.
-/

namespace Hx.Surface

open Hx.Checks
open Hx.Python (Bytes unreserved hexDigit)

/-! ## Query keys -/

section Keys

variable (unquoteReplace : List Char → List Char)

/-- The keys of `parse_qsl(query, keep_blank_values=True)`, whose `unquote` is a parameter. -/
def parsedKeys (query : List Char) : List (List Char) :=
  ((query.splitOn '&').filter fun nameValue => !nameValue.isEmpty).map fun nameValue =>
    unquoteReplace ((nameValue.takeWhile (· ≠ '=')).map fun c => if c = '+' then ' ' else c)

def keySet (query : List Char) : Finset (List Char) := (parsedKeys unquoteReplace query).toFinset

/-- `key.encode()`. -/
def utf8 (key : List Char) : Bytes := key.flatMap String.utf8EncodeChar

def quoteByte (x : UInt8) : List Char :=
  if unreserved x then [Char.ofNat x.toNat]
  else ['%', hexDigit (x.toNat / 16), hexDigit (x.toNat % 16)]

/-- `quote(key, safe="")`. -/
def quote (key : List Char) : List Char := (utf8 key).flatMap quoteByte

/-- `_EMPTY_KEY`. -/
def emptyKeyText : List Char := "(empty)".toList

/-- `_encoded_key`. -/
def encodedKey (key : List Char) : List Char := if key = [] then emptyKeyText else quote key

/-- `",".join`, of the sorted keys as they are encoded. -/
def joinedKeys (keys : Finset (List Char)) : List Char :=
  List.intercalate [','] (keys.sort.map encodedKey)

/-- `query_key_set`. -/
def queryKeySet (query : List Char) : List Char := joinedKeys (keySet unquoteReplace query)

/-- The keys of a query, as byte strings. -/
def keyBytes (query : List Char) : Finset Bytes := (keySet unquoteReplace query).image utf8

end Keys

theorem utf8_injective {s t : List Char} (same : utf8 s = utf8 t) : s = t := by
  have bytes : s.utf8Encode = t.utf8Encode := congrArg List.toByteArray same
  have decoded := congrArg ByteArray.utf8Decode? bytes
  rw [List.utf8Decode?_utf8Encode, List.utf8Decode?_utf8Encode] at decoded
  exact List.toArray_inj (Option.some.inj decoded)

/-- A byte is left alone, or escaped: its first character tells which, and the rest what it is. -/
theorem quoteByte_cases (x : UInt8) :
    (unreserved x = true ∧ quoteByte x = [Char.ofNat x.toNat] ∧ x.toNat < 128 ∧
        x.toNat ≠ 37 ∧ x.toNat ≠ 44 ∧ x.toNat ≠ 40) ∨
      quoteByte x = ['%', hexDigit (x.toNat / 16), hexDigit (x.toNat % 16)] := by
  unfold quoteByte
  split
  · rename_i plain
    refine .inl ⟨plain, rfl, ?_⟩
    simp only [unreserved, Bool.or_eq_true, Bool.and_eq_true, decide_eq_true_eq, beq_iff_eq,
      UInt8.le_iff_toNat_le, ← UInt8.toNat_inj] at plain
    have small : (37 : UInt8).toNat = 37 := rfl
    simp only [UInt8.reduceToNat] at plain
    omega
  · exact .inr rfl

theorem toNat_ofNat_small {n : Nat} (small : n < 128) : (Char.ofNat n).toNat = n := by
  have valid : n.isValidChar := .inl (by omega)
  rw [Char.ofNat, dif_pos valid]
  rfl

theorem hexDigit_injective : ∀ m < 16, ∀ n < 16, hexDigit m = hexDigit n → m = n := by
  decide +kernel

theorem hexDigit_ne_comma : ∀ n < 16, hexDigit n ≠ ',' := by
  decide +kernel

/-- What stands behind a quoted byte does not hide it. -/
theorem quoteByte_append {x y : UInt8} {s t : List Char}
    (same : quoteByte x ++ s = quoteByte y ++ t) : x = y ∧ s = t := by
  have hx := x.toNat_lt
  have hy := y.toNat_lt
  have percent : ∀ z : UInt8, z.toNat < 128 → z.toNat ≠ 37 → Char.ofNat z.toNat ≠ '%' := by
    intro z small other equal
    have number := congrArg Char.toNat equal
    rw [toNat_ofNat_small small] at number
    exact other number
  obtain ⟨_, hqx, smallx, px, _⟩ | hqx := quoteByte_cases x <;>
    obtain ⟨_, hqy, smally, py, _⟩ | hqy := quoteByte_cases y <;>
    rw [hqx, hqy] at same
  · obtain ⟨first, rest⟩ := List.cons_eq_cons.1 same
    have number := congrArg Char.toNat first
    rw [toNat_ofNat_small smallx, toNat_ofNat_small smally] at number
    exact ⟨UInt8.toNat_inj.1 number, rest⟩
  · exact absurd (List.cons_eq_cons.1 same).1 (percent x smallx px)
  · exact absurd (List.cons_eq_cons.1 same).1.symm (percent y smally py)
  · obtain ⟨_, same⟩ := List.cons_eq_cons.1 same
    obtain ⟨high, same⟩ := List.cons_eq_cons.1 same
    obtain ⟨low, rest⟩ := List.cons_eq_cons.1 same
    have highs := hexDigit_injective _ (by omega) _ (by omega) high
    have lows := hexDigit_injective _ (by omega) _ (by omega) low
    exact ⟨UInt8.toNat_inj.1 (by omega), rest⟩

theorem quoteByte_ne_nil (x : UInt8) : quoteByte x ≠ [] := by
  unfold quoteByte
  split <;> exact List.cons_ne_nil _ _

theorem quoteBytes_injective {s t : Bytes} (same : s.flatMap quoteByte = t.flatMap quoteByte) :
    s = t := by
  induction s generalizing t with
  | nil =>
      cases t with
      | nil => rfl
      | cons y t =>
          rw [List.flatMap_cons] at same
          exact absurd (List.append_eq_nil_iff.1 same.symm).1 (quoteByte_ne_nil y)
  | cons x s ih =>
      cases t with
      | nil =>
          rw [List.flatMap_cons] at same
          exact absurd (List.append_eq_nil_iff.1 same).1 (quoteByte_ne_nil x)
      | cons y t =>
          rw [List.flatMap_cons, List.flatMap_cons] at same
          obtain ⟨rfl, rest⟩ := quoteByte_append same
          rw [ih rest]

theorem notMem_quote (key : List Char) : ',' ∉ quote key ∧ '(' ∉ quote key := by
  have each : ∀ x : UInt8, ',' ∉ quoteByte x ∧ '(' ∉ quoteByte x := by
    intro x
    have bound := x.toNat_lt
    have paren : ∀ n < 16, hexDigit n ≠ '(' := by decide +kernel
    obtain ⟨_, hq, small, _, comma, open_⟩ | hq := quoteByte_cases x
    · rw [hq]
      constructor
      · intro mem
        have number := congrArg Char.toNat (List.mem_singleton.1 mem)
        rw [toNat_ofNat_small small] at number
        exact comma number.symm
      · intro mem
        have number := congrArg Char.toNat (List.mem_singleton.1 mem)
        rw [toNat_ofNat_small small] at number
        exact open_ number.symm
    · rw [hq]
      have high := hexDigit_ne_comma (x.toNat / 16) (by omega)
      have low := hexDigit_ne_comma (x.toNat % 16) (by omega)
      have high' := paren (x.toNat / 16) (by omega)
      have low' := paren (x.toNat % 16) (by omega)
      constructor <;> simp [Ne.symm high, Ne.symm low, Ne.symm high', Ne.symm low']
  constructor
  · intro mem
    obtain ⟨x, _, inside⟩ := List.mem_flatMap.1 mem
    exact (each x).1 inside
  · intro mem
    obtain ⟨x, _, inside⟩ := List.mem_flatMap.1 mem
    exact (each x).2 inside

theorem quote_injective {key key' : List Char} (same : quote key = quote key') : key = key' :=
  utf8_injective (quoteBytes_injective same)

/-- No key is written as another, and no key as none. -/
theorem encodedKey_injective {key key' : List Char} (same : encodedKey key = encodedKey key') :
    key = key' := by
  have unlike : ∀ k, quote k ≠ emptyKeyText := by
    intro k equal
    refine (notMem_quote k).2 ?_
    rw [equal]
    decide
  unfold encodedKey at same
  split_ifs at same with empty empty' empty'
  · rw [empty, empty']
  · exact absurd same.symm (unlike key')
  · exact absurd same (unlike key)
  · exact quote_injective same

theorem notMem_encodedKey (key : List Char) : ',' ∉ encodedKey key := by
  unfold encodedKey
  split
  · decide
  · exact (notMem_quote key).1

theorem encodedKey_ne_nil (key : List Char) : encodedKey key ≠ [] := by
  intro none_
  have empty : key = [] := by
    unfold encodedKey at none_
    split at none_
    · assumption
    · exact quote_injective none_
  rw [empty] at none_
  exact absurd none_ (by decide)

/-- The encoded keys are the pieces of their text. -/
theorem joinedKeys_injective {s t : Finset (List Char)} (same : joinedKeys s = joinedKeys t) :
    s = t := by
  have pieces : ∀ u : Finset (List Char), u.sort ≠ [] →
      (joinedKeys u).splitOn ',' = u.sort.map encodedKey := by
    intro u some_
    refine List.splitOn_intercalate _ ?_ (mt List.map_eq_nil_iff.1 some_)
    intro piece mem
    obtain ⟨key, _, rfl⟩ := List.mem_map.1 mem
    exact notMem_encodedKey key
  have filled : ∀ u : Finset (List Char), u.sort ≠ [] → joinedKeys u ≠ [] := by
    intro u some_ none_
    have split := pieces u some_
    rw [none_, List.splitOn_nil] at split
    obtain ⟨key, rest, sorted⟩ := List.exists_cons_of_ne_nil some_
    rw [sorted, List.map_cons] at split
    exact encodedKey_ne_nil key (List.cons_eq_cons.1 split).1.symm
  have lists : s.sort = t.sort := by
    by_cases hs : s.sort = []
    · by_cases ht : t.sort = []
      · rw [hs, ht]
      · refine absurd ?_ (filled t ht)
        rw [← same, joinedKeys, hs]
        rfl
    · by_cases ht : t.sort = []
      · refine absurd ?_ (filled s hs)
        rw [same, joinedKeys, ht]
        rfl
      · have split := pieces s hs
        rw [same, pieces t ht] at split
        exact (List.map_injective_iff.2 (fun _ _ => encodedKey_injective)) split.symm
  have sets := congrArg List.toFinset lists
  rwa [Finset.sort_toFinset, Finset.sort_toFinset] at sets

/-- Two queries have one text exactly when their keys are the same byte strings. -/
theorem queryKeySet_eq_iff (unquoteReplace : List Char → List Char) (query query' : List Char) :
    queryKeySet unquoteReplace query = queryKeySet unquoteReplace query' ↔
      keyBytes unquoteReplace query = keyBytes unquoteReplace query' := by
  have images := Finset.image_injective (fun _ _ => utf8_injective)
  constructor
  · intro same
    rw [keyBytes, keyBytes, joinedKeys_injective same]
  · intro same
    have sets : keySet unquoteReplace query = keySet unquoteReplace query' := images same
    rw [queryKeySet, queryKeySet, sets]

/-! ## Placeholders -/

/-- `is_placeholder`. -/
def isPlaceholder (segment : List Char) : Bool :=
  segment.head? == some '{' && segment.getLast? == some '}' && 2 < segment.length

/-- Whether a rule of `_template_segment` puts a placeholder in a segment's place. -/
def Minted (n : Normaliser) (seg : List Char) : Prop :=
  decodeSegment seg ∉ n.preserve ∧
    ((decodeSegment seg ≠ [] ∧ (decodeSegment seg).all isDigit = true) ∨
      isUuid (decodeSegment seg) = true ∨
      (32 ≤ (decodeSegment seg).length ∧ (decodeSegment seg).all isHex = true) ∨
      (n.slugThreshold ≤ (decodeSegment seg).length ∧ (decodeSegment seg).any isDigit = true))

instance (n : Normaliser) (seg : List Char) : Decidable (Minted n seg) :=
  inferInstanceAs (Decidable (_ ∧ _))

/-- A segment no rule replaces is kept. -/
theorem templateSegment_of_not_minted {n : Normaliser} {seg : List Char} (h : ¬Minted n seg) :
    templateSegment n seg = keptSegment (decodeSegment seg) := by
  unfold templateSegment
  simp only
  split_ifs with preserved digits uuid hex slug
  · rfl
  · exact absurd ⟨preserved, .inl digits⟩ h
  · exact absurd ⟨preserved, .inr (.inl uuid)⟩ h
  · exact absurd ⟨preserved, .inr (.inr (.inl hex))⟩ h
  · exact absurd ⟨preserved, .inr (.inr (.inr slug))⟩ h
  · rfl

/-- No brace is left in a segment that is kept. -/
theorem notMem_brace (seg : List Char) : '{' ∉ keptSegment seg := by
  intro mem
  obtain ⟨c, _, inside⟩ := List.mem_flatMap.1 mem
  split_ifs at inside with open_ close
  · exact absurd inside (by decide)
  · exact absurd inside (by decide)
  · exact open_ (List.mem_singleton.1 inside).symm

theorem minted_of_isPlaceholder {n : Normaliser} {seg : List Char}
    (h : isPlaceholder (templateSegment n seg) = true) : Minted n seg := by
  by_contra kept
  rw [templateSegment_of_not_minted kept, isPlaceholder, Bool.and_eq_true, Bool.and_eq_true] at h
  exact notMem_brace _ (List.mem_of_mem_head? (beq_iff_eq.1 h.1.1))

/-! ## What a kept segment stands for -/

/-- The escapes of a text as bytes, and the rest of it as `plain` has it. -/
def decodeWith (plain : Char → Bytes) : List Char → Bytes
  | '%' :: a :: b :: rest =>
      match hexValue a, hexValue b with
      | some high, some low => UInt8.ofNat (16 * high + low) :: decodeWith plain rest
      | _, _ => plain '%' ++ decodeWith plain (a :: b :: rest)
  | c :: rest => plain c ++ decodeWith plain rest
  | [] => []

/-- `unquote_to_bytes`, of any text. -/
def percentDecoded (seg : List Char) : Bytes := decodeWith String.utf8EncodeChar seg

/-- What a segment stands for: the bytes of what its rounds of decoding leave. -/
def reading (seg : List Char) : Bytes := percentDecoded (decodeRounds maxDecodeRounds seg)

/-- The rounds of a segment's decoding came to an end. -/
def Settled (seg : List Char) : Prop :=
  decodeOnce (decodeRounds maxDecodeRounds seg) = decodeRounds maxDecodeRounds seg

instance (seg : List Char) : Decidable (Settled seg) := inferInstanceAs (Decidable (_ = _))

variable {plain : Char → Bytes}

/-- A character that starts no escape. -/
theorem decodeWith_cons {c : Char} (s : List Char) (other : c ≠ '%') :
    decodeWith plain (c :: s) = plain c ++ decodeWith plain s :=
  decodeWith.eq_2 plain c s fun _ _ _ same _ => other same

/-- A percent sign that starts no escape. -/
theorem decodeWith_percent {a b : Char} (s : List Char)
    (none_ : hexValue a = none ∨ hexValue b = none) :
    decodeWith plain ('%' :: a :: b :: s) = plain '%' ++ decodeWith plain (a :: b :: s) := by
  rw [decodeWith]
  obtain h | h := none_
  · rw [h]
  · rw [h]
    cases hexValue a <;> rfl

theorem not_both_hex {a b : Char}
    (h : ∀ high low, hexValue a = some high → hexValue b = some low → False) :
    hexValue a = none ∨ hexValue b = none := by
  cases ha : hexValue a with
  | none => exact .inl rfl
  | some high =>
      cases hb : hexValue b with
      | none => exact .inr rfl
      | some low => exact absurd hb (h high low ha)

theorem unquoteToBytes_eq (run : List Char) :
    unquoteToBytes run = decodeWith (fun c => [UInt8.ofNat c.toNat]) run := by
  induction run using unquoteToBytes.induct with
  | case1 a b rest high low hhigh hlow ih => simp [unquoteToBytes, decodeWith, hhigh, hlow, ih]
  | case2 a b rest none_ ih =>
      rw [decodeWith_percent rest (not_both_hex none_), ← ih, unquoteToBytes]
      split
      · rename_i high low hhigh hlow
        exact absurd hlow (none_ high low hhigh)
      · rfl
  | case3 c rest other ih =>
      rw [unquoteToBytes.eq_2 c rest other, decodeWith.eq_2 _ c rest other, ih]
      rfl
  | case4 => rfl

/-- The escape of a character, if it is a brace. -/
theorem keptSegment_cons (c : Char) (s : List Char) :
    keptSegment (c :: s) = (if c = '{' then "%7B".toList else if c = '}' then "%7D".toList
      else [c]) ++ keptSegment s := rfl

theorem keptSegment_cons_plain {c : Char} (s : List Char) (open_ : c ≠ '{') (close : c ≠ '}') :
    keptSegment (c :: s) = c :: keptSegment s := by
  rw [keptSegment_cons, if_neg open_, if_neg close]
  rfl

theorem ne_brace_of_hex {c : Char} {v : Nat} (h : hexValue c = some v) : c ≠ '{' ∧ c ≠ '}' := by
  have open_ : hexValue '{' = none := by decide
  have close : hexValue '}' = none := by decide
  constructor
  · rintro rfl
    rw [open_] at h
    cases h
  · rintro rfl
    rw [close] at h
    cases h

/-- A segment that is kept starts with no escape that the segment did not start with. -/
theorem kept_not_hex {a b : Char} (rest : List Char)
    (none_ : hexValue a = none ∨ hexValue b = none) :
    ∃ x y t, keptSegment (a :: b :: rest) = x :: y :: t ∧
      (hexValue x = none ∨ hexValue y = none) := by
  by_cases open_ : a = '{'
  · subst open_
    exact ⟨'%', '7', 'B' :: keptSegment (b :: rest), rfl, .inl (by decide)⟩
  by_cases close : a = '}'
  · subst close
    exact ⟨'%', '7', 'D' :: keptSegment (b :: rest), rfl, .inl (by decide)⟩
  rw [keptSegment_cons_plain _ open_ close]
  by_cases open' : b = '{'
  · subst open'
    exact ⟨a, '%', '7' :: 'B' :: keptSegment rest, rfl, .inr (by decide)⟩
  by_cases close' : b = '}'
  · subst close'
    exact ⟨a, '%', '7' :: 'D' :: keptSegment rest, rfl, .inr (by decide)⟩
  rw [keptSegment_cons_plain _ open' close']
  exact ⟨a, b, keptSegment rest, rfl, none_⟩

/-- Escaping the braces changes nothing of what a text is decoded to. -/
theorem decodeWith_keptSegment (braces : plain '{' = [123] ∧ plain '}' = [125])
    (s : List Char) : decodeWith plain (keptSegment s) = decodeWith plain s := by
  induction s using unquoteToBytes.induct with
  | case1 a b rest high low hlow hhigh ih =>
      obtain ⟨openA, closeA⟩ := ne_brace_of_hex hhigh
      obtain ⟨openB, closeB⟩ := ne_brace_of_hex hlow
      rw [keptSegment_cons_plain _ (by decide) (by decide), keptSegment_cons_plain _ openA closeA,
        keptSegment_cons_plain _ openB closeB]
      simp only [decodeWith, hhigh, hlow, ih]
  | case2 a b rest none_ ih =>
      obtain ⟨x, y, t, same, plain_⟩ := kept_not_hex rest (not_both_hex none_)
      rw [keptSegment_cons_plain _ (by decide) (by decide),
        decodeWith_percent rest (not_both_hex none_), ← ih, same, decodeWith_percent t plain_]
  | case3 c rest other ih =>
      by_cases open_ : c = '{'
      · subst open_
        rw [decodeWith_cons rest (by decide), braces.1, ← ih]
        rfl
      by_cases close : c = '}'
      · subst close
        rw [decodeWith_cons rest (by decide), braces.2, ← ih]
        rfl
      rw [keptSegment_cons_plain rest open_ close]
      by_cases percent : c = '%'
      · subst percent
        cases rest with
        | nil => rfl
        | cons a more =>
            cases more with
            | cons b more => exact absurd rfl (other a b more rfl)
            | nil =>
                by_cases open' : a = '{'
                · subst open'
                  show plain '%' ++ ([123] ++ []) = plain '%' ++ (plain '{' ++ [])
                  rw [braces.1]
                by_cases close' : a = '}'
                · subst close'
                  show plain '%' ++ ([125] ++ []) = plain '%' ++ (plain '}' ++ [])
                  rw [braces.2]
                rw [keptSegment_cons_plain [] open' close']
                rfl
      · rw [decodeWith_cons _ percent, decodeWith_cons _ percent, ih]
  | case4 => rfl

theorem percentDecoded_keptSegment (s : List Char) :
    percentDecoded (keptSegment s) = percentDecoded s :=
  decodeWith_keptSegment ⟨by decide +kernel, by decide +kernel⟩ s

theorem unquoteToBytes_keptSegment (run : List Char) :
    unquoteToBytes (keptSegment run) = unquoteToBytes run := by
  rw [unquoteToBytes_eq, unquoteToBytes_eq]
  exact decodeWith_keptSegment ⟨rfl, rfl⟩ run

/-! ## Decoding a kept segment -/

/-- Escaping leaves every character in its class. -/
theorem isAscii_kept {k : Bool} {m : List Char} (same : ∀ c ∈ m, isAscii c = k) :
    ∀ c ∈ keptSegment m, isAscii c = k := by
  intro c mem
  obtain ⟨d, there, inside⟩ := List.mem_flatMap.1 mem
  have own := same d there
  split_ifs at inside with open_ close
  · subst open_
    have ascii : ∀ c ∈ "%7B".toList, isAscii c = true := List.all_eq_true.1 (by decide)
    rw [ascii c inside, ← own]
    decide
  · subst close
    have ascii : ∀ c ∈ "%7D".toList, isAscii c = true := List.all_eq_true.1 (by decide)
    rw [ascii c inside, ← own]
    decide
  · rw [List.mem_singleton.1 inside]
    exact own

theorem keptSegment_ne_nil {m : List Char} (some_ : m ≠ []) : keptSegment m ≠ [] := by
  obtain ⟨c, rest, rfl⟩ := List.exists_cons_of_ne_nil some_
  rw [keptSegment_cons]
  split_ifs <;> exact List.cons_ne_nil _ _

/-- A run holds characters of one class. -/
theorem run_class {s m : List Char} (h : m ∈ s.splitBy fun a b => isAscii a == isAscii b) :
    ∃ k, ∀ c ∈ m, isAscii c = k := by
  have chain := List.isChain_of_mem_splitBy h
  clear h
  induction m with
  | nil => exact ⟨true, fun c mem => absurd mem List.not_mem_nil⟩
  | cons a m ih =>
      cases m with
      | nil =>
          refine ⟨isAscii a, fun c mem => ?_⟩
          rw [List.mem_singleton.1 mem]
      | cons b m =>
          obtain ⟨first, rest⟩ := List.isChain_cons_cons.1 chain
          obtain ⟨k, same⟩ := ih rest
          refine ⟨k, List.forall_mem_cons.2 ⟨?_, same⟩⟩
          rw [beq_iff_eq.1 first]
          exact same b List.mem_cons_self

/-- Characters of one class make one run. -/
theorem isChain_of_class {k : Bool} {m : List Char} (same : ∀ c ∈ m, isAscii c = k) :
    m.IsChain fun a b => (isAscii a == isAscii b) = true := by
  refine List.Pairwise.isChain (List.pairwise_iff_forall_sublist.2 fun sub => ?_)
  have ha := same _ (sub.subset List.mem_cons_self)
  have hb := same _ (sub.subset (List.mem_cons_of_mem _ List.mem_cons_self))
  rw [ha, hb]
  exact beq_self_eq_true k

theorem unquoteRun_keptSegment {k : Bool} {m : List Char} (same : ∀ c ∈ m, isAscii c = k) :
    unquoteRun (keptSegment m) = unquoteRun m := by
  cases k with
  | true =>
      have all : m.all isAscii = true := List.all_eq_true.2 same
      have all' : (keptSegment m).all isAscii = true := List.all_eq_true.2 (isAscii_kept same)
      rw [unquoteRun, unquoteRun, if_pos all, if_pos all', unquoteToBytes_keptSegment]
  | false =>
      have unescaped : keptSegment m = m := by
        induction m with
        | nil => rfl
        | cons c m ih =>
            obtain ⟨own, others⟩ := List.forall_mem_cons.1 same
            rw [keptSegment_cons_plain m, ih others]
            · rintro rfl
              exact absurd own (by decide)
            · rintro rfl
              exact absurd own (by decide)
      rw [unescaped]

theorem keptSegment_append (s t : List Char) :
    keptSegment (s ++ t) = keptSegment s ++ keptSegment t := List.flatMap_append

theorem keptSegment_flatten (runs : List (List Char)) :
    keptSegment runs.flatten = (runs.map keptSegment).flatten := by
  induction runs with
  | nil => rfl
  | cons m runs ih =>
      rw [List.flatten_cons, keptSegment_append, ih, List.map_cons, List.flatten_cons]

theorem isAscii_getLast {m : List Char} (some_ : m ≠ []) (some' : keptSegment m ≠ []) :
    isAscii ((keptSegment m).getLast some') = isAscii (m.getLast some_) := by
  obtain rfl | ⟨xs, c, rfl⟩ := List.eq_nil_or_concat' m
  · exact absurd rfl some_
  · have one : keptSegment [c] ≠ [] := keptSegment_ne_nil (List.cons_ne_nil _ _)
    have split : keptSegment (xs ++ [c]) = keptSegment xs ++ keptSegment [c] :=
      keptSegment_append xs [c]
    have last : (keptSegment (xs ++ [c])).getLast some' = (keptSegment [c]).getLast one := by
      simp only [split]
      exact List.getLast_append_of_ne_nil _ one
    rw [last, List.getLast_append_singleton]
    refine isAscii_kept (m := [c]) (fun d mem => ?_) _ (List.getLast_mem one)
    rw [List.mem_singleton.1 mem]

theorem isAscii_head {m : List Char} (some_ : m ≠ []) (some' : keptSegment m ≠ []) :
    isAscii ((keptSegment m).head some') = isAscii (m.head some_) := by
  cases m with
  | nil => exact absurd rfl some_
  | cons c rest =>
      have one : keptSegment [c] ≠ [] := keptSegment_ne_nil (List.cons_ne_nil _ _)
      have split : keptSegment (c :: rest) = keptSegment [c] ++ keptSegment rest :=
        keptSegment_append [c] rest
      have first : (keptSegment (c :: rest)).head some' = (keptSegment [c]).head one := by
        simp only [split]
        exact List.head_append_of_ne_nil one
      rw [first]
      refine isAscii_kept (m := [c]) (fun d mem => ?_) _ (List.head_mem one)
      rw [List.mem_singleton.1 mem]
      rfl

/-- Escaping the braces leaves the runs as they are. -/
theorem runs_keptSegment (s : List Char) :
    (keptSegment s).splitBy (fun a b => isAscii a == isAscii b) =
      (s.splitBy fun a b => isAscii a == isAscii b).map keptSegment := by
  refine List.splitBy_eq_iff.2 ⟨?_, ?_, ?_, ?_⟩
  · rw [← keptSegment_flatten, List.flatten_splitBy]
  · intro mem
    obtain ⟨m, inside, none_⟩ := List.mem_map.1 mem
    exact keptSegment_ne_nil (List.ne_nil_of_mem_splitBy inside) none_
  · intro run mem
    obtain ⟨m, inside, rfl⟩ := List.mem_map.1 mem
    obtain ⟨k, same⟩ := run_class inside
    exact isChain_of_class (isAscii_kept same)
  · refine (List.isChain_map keptSegment).2 ?_
    refine List.IsChain.imp ?_ (List.isChain_getLast_head_splitBy _ s)
    rintro a b ⟨ha, hb, apart⟩
    refine ⟨keptSegment_ne_nil ha, keptSegment_ne_nil hb, ?_⟩
    rw [isAscii_getLast ha, isAscii_head hb]
    exact apart

/-- What `unquote` makes of a text does not tell a brace from its escape. -/
theorem unquote_keptSegment (s : List Char) : unquote (keptSegment s) = unquote s := by
  have each : ∀ runs : List (List Char), (∀ m ∈ runs, unquoteRun (keptSegment m) = unquoteRun m) →
      (runs.map keptSegment).mapM unquoteRun = runs.mapM unquoteRun := by
    intro runs same
    induction runs with
    | nil => rfl
    | cons m runs ih =>
        obtain ⟨own, others⟩ := List.forall_mem_cons.1 same
        rw [List.map_cons, List.mapM_cons, List.mapM_cons, own, ih others]
  rw [unquote, unquote, runs_keptSegment, each]
  intro m mem
  obtain ⟨k, same⟩ := run_class mem
  exact unquoteRun_keptSegment same

/-! ## Two segments under one text -/

theorem decodeRounds_of_fixed {s : List Char} (fixed : decodeOnce s = s) (rounds : Nat) :
    decodeRounds rounds s = s := by
  cases rounds with
  | zero => rfl
  | succ rounds => rw [decodeRounds, if_pos fixed]

theorem decodeRounds_succ (s : List Char) (rounds : Nat) :
    decodeRounds (rounds + 1) s = decodeRounds rounds (decodeOnce s) := by
  rw [decodeRounds]
  split
  · rename_i fixed
    rw [fixed, decodeRounds_of_fixed fixed]
  · rfl

/-- A segment whose decoding is refused was decoded at all. -/
theorem exists_unquote {s : List Char} (plain : '/' ∉ s)
    (refused : '/' ∈ decodeRounds maxDecodeRounds s) : ∃ t, unquote s = some t := by
  cases decoded : unquote s with
  | some t => exact ⟨t, rfl⟩
  | none =>
      have fixed : decodeOnce s = s := by
        rw [decodeOnce, decoded]
        rfl
      rw [decodeRounds_of_fixed fixed] at refused
      exact absurd refused plain

/-- What is left of two texts that differ in how their braces are spelled. -/
theorem unquote_eq {s t : List Char} (same : keptSegment s = keptSegment t) :
    unquote s = unquote t := by
  rw [← unquote_keptSegment s, same, unquote_keptSegment]

/-- A segment that is refused is not spelled as one that is not. -/
theorem refused_apart {s d : List Char} (plain : '/' ∉ s)
    (refused : '/' ∈ decodeRounds maxDecodeRounds s) (settled : decodeOnce d = d)
    (clean : '/' ∉ d) : keptSegment s ≠ keptSegment d := by
  intro same
  obtain ⟨t, decoded⟩ := exists_unquote plain refused
  have once : decodeOnce s = d := by
    rw [← settled, decodeOnce, decodeOnce, ← unquote_eq same, decoded]
    rfl
  have rounds : decodeRounds maxDecodeRounds s = d := by
    show decodeRounds (15 + 1) s = d
    rw [decodeRounds_succ, once, decodeRounds_of_fixed settled]
  rw [rounds] at refused
  exact clean refused

/-- Two segments that are kept under one text stand for the same bytes. -/
theorem reading_eq {s t : List Char} (plain : '/' ∉ s) (plain' : '/' ∉ t) (settled : Settled s)
    (settled' : Settled t)
    (same : keptSegment (decodeSegment s) = keptSegment (decodeSegment t)) :
    reading s = reading t := by
  unfold decodeSegment at same
  by_cases refused : '/' ∈ decodeRounds maxDecodeRounds s
  · rw [if_pos refused] at same
    by_cases refused' : '/' ∈ decodeRounds maxDecodeRounds t
    · rw [if_pos refused'] at same
      obtain ⟨u, decoded⟩ := exists_unquote plain refused
      have decoded' : unquote t = some u := (unquote_eq same).symm.trans decoded
      have once : decodeOnce s = decodeOnce t := by
        rw [decodeOnce, decodeOnce, decoded, decoded']
        rfl
      have rounds : decodeRounds maxDecodeRounds s = decodeRounds maxDecodeRounds t := by
        show decodeRounds (15 + 1) s = decodeRounds (15 + 1) t
        rw [decodeRounds_succ s, once, ← decodeRounds_succ]
      rw [reading, reading, rounds]
    · rw [if_neg refused'] at same
      exact absurd same (refused_apart plain refused settled' refused')
  · rw [if_neg refused] at same
    by_cases refused' : '/' ∈ decodeRounds maxDecodeRounds t
    · rw [if_pos refused'] at same
      exact absurd same.symm (refused_apart plain' refused' settled refused)
    · rw [if_neg refused'] at same
      rw [reading, reading, ← percentDecoded_keptSegment, same, percentDecoded_keptSegment]

/-! ## Paths -/

/-- A template beside its path: as many segments, the first of them the path's own, and behind it
no placeholder that no rule put there. -/
structure Templated (n : Normaliser) (path : List Char) : Prop where
  segments : ((pathTemplate n path).splitOn '/').length = (path.splitOn '/').length
  minted : ∃ first rest, path.splitOn '/' = first :: rest ∧
    (pathTemplate n path).splitOn '/' = first :: rest.map (templateSegment n) ∧
    ∀ seg ∈ rest, isPlaceholder (templateSegment n seg) = true → Minted n seg

theorem templated {path : List Char} (n : Normaliser) (some_ : path ≠ []) : Templated n path := by
  obtain ⟨first, rest, split, template⟩ := splitOn_pathTemplate (n := n) some_
  exact ⟨length_pathTemplate some_, first, rest, split, template,
    fun seg _ placeholder => minted_of_isPlaceholder placeholder⟩

/-- Query texts tell key sets apart; a template has the segments of its path, with placeholders
only where a rule put them; kept segments under one text stand for the same bytes. -/
theorem keys_merge_nothing :
    (∀ (unquoteReplace : List Char → List Char) (query query' : List Char),
        queryKeySet unquoteReplace query = queryKeySet unquoteReplace query' ↔
          keyBytes unquoteReplace query = keyBytes unquoteReplace query') ∧
      (∀ (n : Normaliser) (path : List Char), path ≠ [] → Templated n path) ∧
      ∀ (n n' : Normaliser) (seg seg' : List Char), '/' ∉ seg → '/' ∉ seg' → ¬Minted n seg →
        ¬Minted n' seg' → Settled seg → Settled seg' →
        templateSegment n seg = templateSegment n' seg' → reading seg = reading seg' := by
  refine ⟨queryKeySet_eq_iff, fun n path => templated n, ?_⟩
  intro n n' seg seg' plain plain' kept kept' settled settled' same
  rw [templateSegment_of_not_minted kept, templateSegment_of_not_minted kept'] at same
  exact reading_eq plain plain' settled settled' same

/-! ## Where a template says more than its path -/

def plainNormaliser : Normaliser := ⟨[], 20⟩

/-- A path with an identifier, and a segment that is kept under two spellings. -/
theorem order_templated : Templated plainNormaliser "/order/1".toList ∧
    reading "%61".toList = reading "a".toList :=
  ⟨keys_merge_nothing.2.1 plainNormaliser "/order/1".toList (by decide),
    keys_merge_nothing.2.2 plainNormaliser plainNormaliser "%61".toList "a".toList (by decide)
      (by decide) (by decide +kernel) (by decide +kernel) (by decide +kernel) (by decide +kernel)
      (by decide +kernel)⟩

/-- The empty path has one segment and its template two; a first segment that is spelled as a
placeholder is copied; and two segments whose escapes are no UTF-8 are kept under one text as
different strings. -/
theorem empty_path_gains_segment :
    ((pathTemplate plainNormaliser []).splitOn '/').length ≠ (([] : List Char).splitOn '/').length ∧
      pathTemplate plainNormaliser "{id}".toList = "{id}".toList ∧
      isPlaceholder "{id}".toList = true ∧
      templateSegment plainNormaliser "%80\x7b".toList =
        templateSegment plainNormaliser "%80%7B".toList ∧
      decodeSegment "%80\x7b".toList ≠ decodeSegment "%80%7B".toList := by
  decide +kernel

end Hx.Surface
