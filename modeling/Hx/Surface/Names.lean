import Hx.Library.Utf8
import Hx.Python.Replace
import Hx.Surface.Derive

/-!
# The name a query probe is sent under

A query point has the name `parse_qsl` decodes from the text of the target, and its probe has the
UTF-8 of that name in its request line. A server that reads names as bytes gets the captured ones
back where the captured name is ASCII text, its escapes are UTF-8 and `urlsplit` drops nothing of
it. Everywhere else it gets others: each raw byte beyond ASCII comes back as two, what is no UTF-8
comes back as U+FFFD, and a tab that is dropped does not come back.
-/

namespace Hx.Surface

open Hx.Checks
open Hx.Python (Bytes isUnsafe decodeReplace length_le_decodeReplaceFrom)

/-! ## Names -/

def replacedRun (run : List Char) : List Char :=
  if run.all isAscii then decodeReplace (unquoteToBytes run) else run

/-- The runs of ASCII characters, and of others. -/
def runs (s : List Char) : List (List Char) := s.splitBy fun a b => isAscii a == isAscii b

/-- `unquote(s, encoding="utf-8", errors="replace")`. -/
def unquoteReplace (s : List Char) : List Char := ((runs s).map replacedRun).flatten

def plus (s : List Char) : List Char := s.map fun c => if c = '+' then ' ' else c

/-- The bytes a form decoder makes of a name, which is read as Latin-1. -/
def formDecode (s : List Char) : Bytes := unquoteToBytes (plus s)

/-- The query of a target. -/
def queryPart (target : List Char) : List Char :=
  ((target.takeWhile (· ≠ '#')).dropWhile (· ≠ '?')).drop 1

/-- The names of a target's parameters, as they stand there. -/
def rawNames (target : List Char) : List (List Char) :=
  (((queryPart target).splitOn '&').filter (· ≠ [])).map (·.takeWhile (· ≠ '='))

/-- The names a server reads of a target. -/
def paramNames (target : List Char) : List Bytes := (rawNames target).map formDecode

/-- The name of the point that is derived from a parameter. -/
def pointName (raw : List Char) : List Char := unquoteReplace (plus (safeText raw))

/-- Each query point comes of a parameter, and a probe of it sends the names of all parameters it
comes of. -/
def SentAsNamed (bracketed : List Char → Bool) (head : Bytes) : Prop :=
  ∀ target names, requestTarget head = some target →
    queryNames bracketed unquoteReplace head = .ok names → ∀ name ∈ names,
      (∃ raw ∈ rawNames target, name = codes (pointName raw)) ∧
        ∀ raw ∈ rawNames target, name = codes (pointName raw) → ∀ path value : String,
          '?' ∉ path.toList → '#' ∉ path.toList →
            paramNames (queryPath path (.ofList (pointName raw)) value).toList = [formDecode raw]

/-- A name that comes back. -/
structure Clear (raw : List Char) : Prop where
  whole : ∀ c ∈ raw, isUnsafe c = false
  ascii : ∀ c ∈ raw, isAscii c = true
  text : ∃ s, formDecode raw = utf8 s

/-- All names of a target that splits come back, but those of which nothing is left. -/
def Legible (bracketed : List Char → Bool) (head : Bytes) : Prop :=
  ∀ target, requestTarget head = some target → splits bracketed target = true →
    ∀ raw ∈ rawNames target, safeText raw ≠ [] → Clear raw

/-! ## Decoding run by run -/

section Runs

variable {m rest s : List Char}

theorem decoded_cons {c : Char} (s : List Char) (other : c ≠ '%') :
    unquoteToBytes (c :: s) = UInt8.ofNat c.toNat :: unquoteToBytes s := by
  rw [unquoteToBytes_eq, unquoteToBytes_eq, decodeWith_cons s other]
  rfl

theorem decoded_percent {a b : Char} (s : List Char)
    (none_ : hexValue a = none ∨ hexValue b = none) :
    unquoteToBytes ('%' :: a :: b :: s) = 37 :: unquoteToBytes (a :: b :: s) := by
  rw [unquoteToBytes_eq, unquoteToBytes_eq, decodeWith_percent s none_]
  rfl

/-- A text without a percent sign has no escape in it. -/
theorem decoded_plain_append (plain : '%' ∉ m) (rest : List Char) :
    unquoteToBytes (m ++ rest) = unquoteToBytes m ++ unquoteToBytes rest := by
  induction m with
  | nil => rfl
  | cons c m ih =>
      have other : c ≠ '%' := fun same => plain (same ▸ List.mem_cons_self)
      rw [List.cons_append, decoded_cons _ other, decoded_cons _ other,
        ih fun mem => plain (List.mem_cons_of_mem _ mem)]
      rfl

/-- No escape reaches over a character that is no digit. -/
theorem decoded_append (next : ∀ c ∈ rest.head?, hexValue c = none) :
    unquoteToBytes (m ++ rest) = unquoteToBytes m ++ unquoteToBytes rest := by
  induction m using unquoteToBytes.induct with
  | case1 a b m high low hlow hhigh ih =>
      simp only [List.cons_append, unquoteToBytes, hhigh, hlow, ih]
  | case2 a b m none_ ih =>
      have neither := not_both_hex none_
      rw [List.cons_append, List.cons_append, List.cons_append, decoded_percent _ neither,
        decoded_percent _ neither, ← List.cons_append, ← List.cons_append, ih]
      rfl
  | case3 c m other ih =>
      by_cases percent : c = '%'
      · subst percent
        rcases m with _ | ⟨a, _ | ⟨b, m⟩⟩
        · rcases rest with _ | ⟨x, _ | ⟨y, rest⟩⟩
          · rfl
          · rfl
          · exact decoded_percent rest (.inl (next x rfl))
        · rcases rest with _ | ⟨x, rest⟩
          · rw [List.append_nil]
            exact (List.append_nil _).symm
          · have tail : unquoteToBytes (a :: x :: rest) =
                unquoteToBytes [a] ++ unquoteToBytes (x :: rest) := ih
            exact (decoded_percent rest (.inr (next x rfl))).trans (congrArg (37 :: ·) tail)
        · exact absurd rfl (other a b m rfl)
      · rw [List.cons_append, decoded_cons _ percent, decoded_cons _ percent, ih]
        rfl
  | case4 => rfl

theorem hexValue_of_not_ascii {c : Char} (high : isAscii c = false) : hexValue c = none := by
  have bound : 128 ≤ c.toNat := Nat.not_lt.1 (of_decide_eq_false high)
  rw [hexValue]
  split_ifs with digit upper lower
  · have top : c.toNat ≤ '9'.toNat := digit.2
    exact absurd (bound.trans top) (by decide)
  · have top : c.toNat ≤ 'F'.toNat := upper.2
    exact absurd (bound.trans top) (by decide)
  · have top : c.toNat ≤ 'f'.toNat := lower.2
    exact absurd (bound.trans top) (by decide)
  · rfl

theorem decoded_runs (ms : List (List Char)) (some_ : ∀ m ∈ ms, m ≠ [])
    (classes : ∀ m ∈ ms, ∃ k, ∀ c ∈ m, isAscii c = k)
    (apart : ms.IsChain fun a b =>
      ∃ ha hb, (isAscii (a.getLast ha) == isAscii (b.head hb)) = false) :
    unquoteToBytes ms.flatten = ms.flatMap unquoteToBytes := by
  induction ms with
  | nil => rfl
  | cons m ms ih =>
      obtain ⟨here, others⟩ := List.forall_mem_cons.1 classes
      obtain ⟨k, same⟩ := here
      have later := ih (fun x mem => some_ x (List.mem_cons_of_mem _ mem)) others
        (List.IsChain.tail apart)
      rw [List.flatten_cons, List.flatMap_cons, ← later]
      cases k with
      | false =>
          refine decoded_plain_append (fun mem => ?_) _
          exact absurd (same _ mem) (by decide)
      | true =>
          refine decoded_append fun c first => hexValue_of_not_ascii ?_
          cases ms with
          | nil => contradiction
          | cons b ms =>
              obtain ⟨⟨ha, hb, differ⟩, -⟩ := List.isChain_cons_cons.1 apart
              rw [List.flatten_cons, List.head?_append_of_ne_nil _ hb,
                List.head?_eq_some_head hb] at first
              obtain rfl := Option.some.inj first
              rw [same _ (List.getLast_mem ha)] at differ
              simpa using differ

/-- Decoding goes run by run. -/
theorem decoded_eq_runs (s : List Char) : unquoteToBytes s = (runs s).flatMap unquoteToBytes := by
  have apart := List.isChain_getLast_head_splitBy (fun a b => isAscii a == isAscii b) s
  have whole := decoded_runs (runs s) (fun m mem => List.ne_nil_of_mem_splitBy mem)
    (fun m mem => run_class mem) apart
  rwa [runs, List.flatten_splitBy] at whole

/-! ## What decoding adds and what it drops -/

/-- Two bytes at least for a character beyond ASCII, and none of them ASCII. -/
theorem utf8_high {c : Char} (high : isAscii c = false) :
    2 ≤ (String.utf8EncodeChar c).length ∧ ∀ x ∈ String.utf8EncodeChar c, 128 ≤ x.toNat := by
  have bound : 128 ≤ c.toNat := Nat.not_lt.1 (of_decide_eq_false high)
  constructor
  · rw [String.length_utf8EncodeChar]
    have positive := c.utf8Size_pos
    have other : c.utf8Size ≠ 1 := by
      intro one
      have small := UInt32.le_iff_toNat_le.1 (Char.utf8Size_eq_one_iff.1 one)
      have number : c.val.toNat = c.toNat := rfl
      have top : (127 : UInt32).toNat = 127 := rfl
      omega
    omega
  · intro x mem
    by_contra small
    have same := Library.mem_utf8EncodeChar_ascii (Nat.not_le.1 small) mem
    omega

theorem length_decoded_le (s : List Char) : (unquoteToBytes s).length ≤ s.length := by
  induction s using unquoteToBytes.induct with
  | case1 a b rest high low hlow hhigh ih =>
      simp only [unquoteToBytes, hhigh, hlow, List.length_cons]
      omega
  | case2 a b rest none_ ih =>
      rw [decoded_percent rest (not_both_hex none_), List.length_cons, List.length_cons]
      exact Nat.succ_le_succ ih
  | case3 c rest other ih =>
      rw [unquoteToBytes.eq_2 c rest other, List.length_cons, List.length_cons]
      exact Nat.succ_le_succ ih
  | case4 => exact le_rfl

theorem decoded_ne_nil {s : List Char} (some_ : s ≠ []) : unquoteToBytes s ≠ [] := by
  induction s using unquoteToBytes.induct with
  | case1 a b rest high low hlow hhigh ih =>
      simp only [unquoteToBytes, hhigh, hlow]
      exact List.cons_ne_nil _ _
  | case2 a b rest none_ ih =>
      rw [decoded_percent rest (not_both_hex none_)]
      exact List.cons_ne_nil _ _
  | case3 c rest other ih =>
      rw [unquoteToBytes.eq_2 c rest other]
      exact List.cons_ne_nil _ _
  | case4 => contradiction

/-- A run beyond ASCII stays. -/
theorem replacedRun_high {m : List Char} (high : ∀ c ∈ m, isAscii c = false) :
    replacedRun m = m := by
  rw [replacedRun]
  split
  · rename_i all
    cases m with
    | nil => rfl
    | cons c m =>
        have ascii := List.all_eq_true.1 all c List.mem_cons_self
        rw [high c List.mem_cons_self] at ascii
        contradiction
  · rfl

theorem length_high {m : List Char} (high : ∀ c ∈ m, isAscii c = false) :
    (unquoteToBytes m).length + m.countP (fun c => !isAscii c) ≤
      (utf8 (replacedRun m)).length := by
  have short := length_decoded_le m
  have count := List.countP_le_length (p := fun c => !isAscii c) (l := m)
  have twice : 2 * m.length ≤ (utf8 m).length := by
    clear short count
    induction m with
    | nil => exact le_rfl
    | cons c m ih =>
        obtain ⟨here, others⟩ := List.forall_mem_cons.1 high
        have two := (utf8_high here).1
        have rest : 2 * m.length ≤ (m.flatMap String.utf8EncodeChar).length := ih others
        rw [utf8, List.flatMap_cons, List.length_append, List.length_cons]
        omega
  rw [replacedRun_high high]
  omega

/-- How many bytes a name comes back in: one more at least for each character beyond ASCII. -/
theorem length_unquoteReplace (s : List Char) :
    (unquoteToBytes s).length + s.countP (fun c => !isAscii c) ≤
      (utf8 (unquoteReplace s)).length := by
  have each : ∀ ms : List (List Char), (∀ m ∈ ms, ∃ k, ∀ c ∈ m, isAscii c = k) →
      (ms.flatMap unquoteToBytes).length + ms.flatten.countP (fun c => !isAscii c) ≤
        (utf8 (ms.map replacedRun).flatten).length := by
    intro ms classes
    induction ms with
    | nil => exact le_rfl
    | cons m ms ih =>
        obtain ⟨⟨k, same⟩, others⟩ := List.forall_mem_cons.1 classes
        have later := ih others
        have here : (unquoteToBytes m).length + m.countP (fun c => !isAscii c) ≤
            (utf8 (replacedRun m)).length := by
          cases k with
          | true =>
              have all : m.all isAscii = true := List.all_eq_true.2 same
              have none_ : m.countP (fun c => !isAscii c) = 0 :=
                List.countP_eq_zero.2 fun c mem => by simp [same c mem]
              rw [none_, replacedRun, if_pos all]
              exact length_le_decodeReplaceFrom _ _ le_rfl
          | false => exact length_high same
        rw [List.flatMap_cons, List.length_append, List.flatten_cons, List.countP_append,
          List.map_cons, List.flatten_cons, utf8, List.flatMap_append, List.length_append]
        have later' : (ms.flatMap unquoteToBytes).length +
            ms.flatten.countP (fun c => !isAscii c) ≤
              ((ms.map replacedRun).flatten.flatMap String.utf8EncodeChar).length := later
        have here' : (unquoteToBytes m).length + m.countP (fun c => !isAscii c) ≤
            ((replacedRun m).flatMap String.utf8EncodeChar).length := here
        omega
  have whole := each (runs s) fun m mem => run_class mem
  rwa [← decoded_eq_runs, runs, List.flatten_splitBy] at whole

/-- Weights that tell a dropped character from an escape it broke. -/
def weight (x : UInt8) : ℕ := if x = 9 ∨ x = 10 ∨ x = 13 then 1 else if x = 37 then 2 else 0

def weigh (b : Bytes) : ℕ := (b.map weight).sum

theorem weigh_cons (x : UInt8) (b : Bytes) : weigh (x :: b) = weight x + weigh b := rfl

theorem weigh_append (a b : Bytes) : weigh (a ++ b) = weigh a + weigh b := by
  rw [weigh, List.map_append, List.sum_append]
  rfl

theorem weight_le (x : UInt8) : weight x ≤ 2 := by
  rw [weight]
  split_ifs <;> decide

theorem weight_high {x : UInt8} (high : 128 ≤ x.toNat) : weight x = 0 := by
  have other : ∀ n : UInt8, n.toNat < 128 → x ≠ n := by
    rintro n small rfl
    omega
  rw [weight, if_neg, if_neg (other 37 (by decide))]
  rintro (same | same | same)
  · exact other 9 (by decide) same
  · exact other 10 (by decide) same
  · exact other 13 (by decide) same

theorem weigh_high {m : List Char} (high : ∀ c ∈ m, isAscii c = false) : weigh (utf8 m) = 0 := by
  induction m with
  | nil => rfl
  | cons c m ih =>
      obtain ⟨here, others⟩ := List.forall_mem_cons.1 high
      have none_ : weigh (String.utf8EncodeChar c) = 0 := by
        refine List.sum_eq_zero fun n mem => ?_
        obtain ⟨x, inside, rfl⟩ := List.mem_map.1 mem
        exact weight_high ((utf8_high here).2 x inside)
      rw [utf8, List.flatMap_cons, weigh_append, none_, Nat.zero_add]
      exact ih others

theorem weigh_unquoteReplace (s : List Char) :
    weigh (utf8 (unquoteReplace s)) ≤ weigh (unquoteToBytes s) := by
  have each : ∀ ms : List (List Char), (∀ m ∈ ms, ∃ k, ∀ c ∈ m, isAscii c = k) →
      weigh (utf8 (ms.map replacedRun).flatten) ≤ weigh (ms.flatMap unquoteToBytes) := by
    intro ms classes
    induction ms with
    | nil => exact le_rfl
    | cons m ms ih =>
        obtain ⟨⟨k, same⟩, others⟩ := List.forall_mem_cons.1 classes
        have here : weigh (utf8 (replacedRun m)) ≤ weigh (unquoteToBytes m) := by
          cases k with
          | true =>
              rw [replacedRun, if_pos (List.all_eq_true.2 same)]
              exact Python.sum_decodeReplaceFrom weight (fun x => weight_high) _ _
          | false =>
              rw [replacedRun_high same]
              exact (weigh_high same).trans_le (Nat.zero_le _)
        rw [List.map_cons, List.flatten_cons, utf8, List.flatMap_append, List.flatMap_cons,
          weigh_append, weigh_append]
        exact Nat.add_le_add here (ih others)
  have whole := each (runs s) fun m mem => run_class mem
  rwa [← decoded_eq_runs] at whole

theorem weigh_percent (s : List Char) :
    weigh (unquoteToBytes ('%' :: s)) ≤ 2 + weigh (unquoteToBytes s) := by
  match s with
  | [] => exact le_rfl
  | [a] => exact le_rfl
  | a :: b :: s =>
      cases ha : hexValue a with
      | none =>
          rw [decoded_percent s (.inl ha), weigh_cons]
          exact Nat.add_le_add_right (weight_le 37) _
      | some high =>
          cases hb : hexValue b with
          | none =>
              rw [decoded_percent s (.inr hb), weigh_cons]
              exact Nat.add_le_add_right (weight_le 37) _
          | some low =>
              have digit : ∀ {c : Char} {v : ℕ}, hexValue c = some v → c ≠ '%' := by
                rintro c v value rfl
                contradiction
              have escape : unquoteToBytes ('%' :: a :: b :: s) =
                  UInt8.ofNat (16 * high + low) :: unquoteToBytes s := by
                simp only [unquoteToBytes, ha, hb]
              rw [escape, decoded_cons _ (digit ha), decoded_cons _ (digit hb), weigh_cons,
                weigh_cons, weigh_cons]
              have bound := weight_le (UInt8.ofNat (16 * high + low))
              omega

/-- What is dropped of a text weighs more than the escapes that come of it. -/
theorem weigh_safeText (s : List Char) :
    weigh (unquoteToBytes (safeText s)) + s.countP isUnsafe ≤ weigh (unquoteToBytes s) := by
  have kept : ∀ {c : Char} (s : List Char), isUnsafe c = false →
      safeText (c :: s) = c :: safeText s := fun s safe => List.filter_cons_of_pos (by simp [safe])
  induction s using unquoteToBytes.induct with
  | case1 a b rest high low hlow hhigh ih =>
      have safe : ∀ {c : Char} {v : ℕ}, hexValue c = some v → isUnsafe c = false := by
        intro c v value
        simp only [isUnsafe, Bool.or_eq_false_iff, beq_eq_false_iff_ne]
        refine ⟨⟨?_, ?_⟩, ?_⟩
        · rintro rfl
          contradiction
        · rintro rfl
          contradiction
        · rintro rfl
          contradiction
      have percent : isUnsafe '%' = false := by decide
      rw [kept _ percent, kept _ (safe hhigh), kept _ (safe hlow)]
      simp only [unquoteToBytes, hhigh, hlow, weigh_cons, List.countP_cons, safe hhigh, safe hlow,
        percent, Bool.false_eq_true, if_false]
      omega
  | case2 a b rest none_ ih =>
      have percent : isUnsafe '%' = false := by decide
      have broken := weigh_percent (safeText (a :: b :: rest))
      have two : weight 37 = 2 := by decide
      rw [kept _ percent, decoded_percent rest (not_both_hex none_), weigh_cons, two,
        List.countP_cons_of_neg (by decide)]
      omega
  | case3 c rest other ih =>
      rw [unquoteToBytes.eq_2 c rest other, weigh_cons]
      cases drops : isUnsafe c with
      | true =>
          have one : weight (UInt8.ofNat c.toNat) = 1 := by
            simp only [isUnsafe, Bool.or_eq_true, beq_iff_eq] at drops
            obtain (rfl | rfl) | rfl := drops
            · decide
            · decide
            · decide
          have dropped : safeText (c :: rest) = safeText rest :=
            List.filter_cons_of_neg (by simp [drops])
          rw [dropped, one, List.countP_cons_of_pos drops]
          omega
      | false =>
          rw [kept _ drops, List.countP_cons_of_neg (by simp [drops])]
          by_cases percent : c = '%'
          · subst percent
            have broken := weigh_percent (safeText rest)
            have two : weight (UInt8.ofNat '%'.toNat) = 2 := by decide
            rw [two]
            omega
          · rw [decoded_cons _ percent, weigh_cons]
            omega
  | case4 => exact le_rfl

end Runs

/-! ## A name that comes back -/

theorem isUnsafe_plus {c : Char} : isUnsafe (if c = '+' then ' ' else c) = isUnsafe c := by
  split
  · rename_i same
    rw [same]
    decide
  · rfl

theorem isAscii_plus {c : Char} : isAscii (if c = '+' then ' ' else c) = isAscii c := by
  split
  · rename_i same
    rw [same]
    decide
  · rfl

theorem plus_safeText (s : List Char) : plus (safeText s) = safeText (plus s) := by
  rw [plus, plus, safeText, safeText, List.filter_map]
  refine congrArg (List.map _) (List.filter_congr fun c _ => ?_)
  exact (congrArg (!·) isUnsafe_plus).symm

theorem unquoteReplace_ascii {s : List Char} (ascii : ∀ c ∈ s, isAscii c = true) :
    unquoteReplace s = decodeReplace (unquoteToBytes s) := by
  rw [unquoteReplace, runs]
  by_cases empty : s = []
  · subst empty
    rfl
  · rw [List.splitBy_of_isChain empty (isChain_of_class ascii), List.map_singleton,
      List.flatten_singleton, replacedRun, if_pos (List.all_eq_true.2 ascii)]

/-- The probe's name has the captured bytes exactly where the captured name is clear. -/
theorem pointName_iff (raw : List Char) :
    utf8 (pointName raw) = formDecode raw ↔ Clear raw := by
  constructor
  · intro same
    rw [pointName, plus_safeText, formDecode] at same
    have dropped := weigh_safeText (plus raw)
    have decoded := weigh_unquoteReplace (safeText (plus raw))
    rw [same] at decoded
    have none_ : (plus raw).countP isUnsafe = 0 := by omega
    have safe : ∀ c ∈ plus raw, isUnsafe c = false := fun c mem =>
      Bool.eq_false_iff.2 (List.countP_eq_zero.1 none_ c mem)
    rw [safeText_eq_self safe] at same
    have long := length_unquoteReplace (plus raw)
    rw [same] at long
    have few : (plus raw).countP (fun c => !isAscii c) = 0 := by omega
    refine ⟨fun c mem => ?_, fun c mem => ?_, _, same.symm⟩
    · exact isUnsafe_plus.symm.trans (safe _ (List.mem_map_of_mem mem))
    · have own := List.countP_eq_zero.1 few _ (List.mem_map_of_mem mem)
      rw [isAscii_plus] at own
      simpa using own
  · intro clear
    have ascii : ∀ c ∈ plus raw, isAscii c = true := by
      intro c mem
      obtain ⟨d, there, rfl⟩ := List.mem_map.1 mem
      exact isAscii_plus.trans (clear.ascii d there)
    obtain ⟨s, text⟩ := clear.text
    have decoded : unquoteReplace (plus raw) = s := by
      rw [unquoteReplace_ascii ascii]
      exact (congrArg decodeReplace text).trans (Python.decodeReplace_encoded s)
    rw [pointName, safeText_eq_self clear.whole, decoded, text]

/-! ## The names of a target -/

section Targets

variable {bracketed : List Char → Bool} {p q : Char → Bool} {s : List Char}

theorem takeWhile_safeText (passes : ∀ c, isUnsafe c = true → p c = true) (s : List Char) :
    (safeText s).takeWhile p = safeText (s.takeWhile p) := by
  induction s with
  | nil => rfl
  | cons c s ih =>
      cases drops : isUnsafe c with
      | true =>
          have dropped : safeText (c :: s) = safeText s :=
            List.filter_cons_of_neg (by simp [drops])
          rw [dropped, ih, List.takeWhile_cons_of_pos (passes c drops)]
          exact (List.filter_cons_of_neg (by simp [drops])).symm
      | false =>
          have kept : safeText (c :: s) = c :: safeText s :=
            List.filter_cons_of_pos (by simp [drops])
          rw [kept]
          by_cases goes : p c = true
          · rw [List.takeWhile_cons_of_pos goes, List.takeWhile_cons_of_pos goes, ih]
            exact (List.filter_cons_of_pos (by simp [drops])).symm
          · rw [List.takeWhile_cons_of_neg goes, List.takeWhile_cons_of_neg goes]
            rfl

/-- The query is what is behind the first `?`, wherever the text before it starts. -/
theorem drop_dropWhile_append {front : List Char} (plain : ∀ c ∈ front, c ≠ '?') (s : List Char) :
    ((front ++ s).dropWhile (· ≠ '?')).drop 1 = (s.dropWhile (· ≠ '?')).drop 1 := by
  rw [List.dropWhile_append_of_pos fun c mem => by simpa using plain c mem]

theorem queryPart_append {front : List Char} (plain : ∀ c ∈ front, c ≠ '?' ∧ c ≠ '#')
    (s : List Char) : queryPart (front ++ s) = queryPart s := by
  rw [queryPart, List.takeWhile_append_of_pos fun c mem => by simpa using (plain c mem).2,
    drop_dropWhile_append fun c mem => (plain c mem).1]
  rfl

theorem queryPart_safeText (s : List Char) : queryPart (safeText s) = safeText (queryPart s) := by
  have cut : ∀ s : List Char, ((safeText s).dropWhile (· ≠ '?')).drop 1 =
      safeText ((s.dropWhile (· ≠ '?')).drop 1) := by
    intro s
    induction s with
    | nil => rfl
    | cons c s ih =>
        by_cases mark : c = '?'
        · subst mark
          have kept : safeText ('?' :: s) = '?' :: safeText s := rfl
          rw [kept, List.dropWhile_cons_of_neg (by decide), List.dropWhile_cons_of_neg (by decide)]
          rfl
        · rw [List.dropWhile_cons_of_pos (by simpa using mark), ← ih]
          cases drops : isUnsafe c with
          | true =>
              have dropped : safeText (c :: s) = safeText s :=
                List.filter_cons_of_neg (by simp [drops])
              rw [dropped]
          | false =>
              have kept : safeText (c :: s) = c :: safeText s :=
                List.filter_cons_of_pos (by simp [drops])
              rw [kept, List.dropWhile_cons_of_pos (by simpa using mark)]
  have passes : ∀ c, isUnsafe c = true → decide (c ≠ '#') = true := by
    rintro c drops
    refine decide_eq_true ?_
    rintro rfl
    contradiction
  rw [queryPart, takeWhile_safeText passes, cut]
  rfl

theorem queryPart_afterNetloc (s : List Char) :
    queryPart (Python.afterNetloc s) = queryPart s := by
  rw [Python.afterNetloc.eq_def]
  split
  · rename_i rest
    have front : ∀ c ∈ '/' :: '/' :: rest.takeWhile (fun c => c ≠ '/' && c ≠ '?' && c ≠ '#'),
        c ≠ '?' ∧ c ≠ '#' := by
      intro c mem
      obtain rfl | mem := List.mem_cons.1 mem
      · decide
      · obtain rfl | mem := List.mem_cons.1 mem
        · decide
        · have inside := List.mem_takeWhile_imp mem
          simp only [Bool.and_eq_true, decide_eq_true_eq] at inside
          exact ⟨inside.1.2, inside.2⟩
    have whole := queryPart_append front
      (rest.dropWhile fun c => c ≠ '/' && c ≠ '?' && c ≠ '#')
    rw [List.cons_append, List.cons_append, List.takeWhile_append_dropWhile] at whole
    exact whole.symm
  · rfl

theorem queryPart_afterScheme (s : List Char) : queryPart (Python.afterScheme s) = queryPart s := by
  rw [Python.afterScheme, Python.partition, List.span_eq_takeWhile_dropWhile]
  cases behind : s.dropWhile (· ≠ ':') with
  | nil => rfl
  | cons colon rest =>
      dsimp only
      split
      · rename_i scheme
        have whole : s = s.takeWhile (· ≠ ':') ++ colon :: rest := by
          rw [← behind, List.takeWhile_append_dropWhile]
        have at_ : colon = ':' := by
          have first := List.head?_dropWhile_not (fun c : Char => decide (c ≠ ':')) s
          rw [behind] at first
          simpa using first
        have front : ∀ c ∈ s.takeWhile (· ≠ ':') ++ [colon], c ≠ '?' ∧ c ≠ '#' := by
          intro c mem
          obtain mem | mem := List.mem_append.1 mem
          · have letters := (Bool.and_eq_true _ _ ▸ scheme).2
            have own := List.all_eq_true.1 letters c mem
            constructor
            · rintro rfl
              exact absurd own (by decide)
            · rintro rfl
              exact absurd own (by decide)
          · rw [List.mem_singleton.1 mem, at_]
            decide
        have cut := queryPart_append front rest
        rw [List.append_assoc, List.singleton_append, ← whole] at cut
        exact cut.symm
      · rfl

theorem queryPart_cleaned (s : List Char) : queryPart (cleaned s) = safeText (queryPart s) := by
  have front : ∀ c ∈ s.takeWhile Python.isControlOrSpace, c ≠ '?' ∧ c ≠ '#' := by
    intro c mem
    have control := List.mem_takeWhile_imp mem
    constructor
    · rintro rfl
      exact absurd control (by decide)
    · rintro rfl
      exact absurd control (by decide)
  have cut := queryPart_append front (s.dropWhile Python.isControlOrSpace)
  rw [List.takeWhile_append_dropWhile] at cut
  rw [cut]
  exact queryPart_safeText _

/-- The query `urlsplit` reads is the target's, without what it drops. -/
theorem urlsplitQuery_eq {target : List Char} (fits : splits bracketed target = true) :
    urlsplitQuery bracketed target = .ok (safeText (queryPart target)) := by
  have query := queryPart_cleaned target
  rw [← queryPart_afterScheme, ← queryPart_afterNetloc] at query
  rw [urlsplitQuery, if_pos fits]
  exact congrArg Except.ok query

theorem splitOn_safeText {sep : Char} (safe : isUnsafe sep = false) (s : List Char) :
    (safeText s).splitOn sep = (s.splitOn sep).map safeText := by
  induction s with
  | nil => rfl
  | cons c s ih =>
      obtain ⟨first, rest, split⟩ := List.exists_cons_of_ne_nil (List.splitOn_ne_nil sep s)
      by_cases here : c = sep
      · subst here
        have kept : safeText (c :: s) = c :: safeText s :=
          List.filter_cons_of_pos (by simp [safe])
        rw [kept, List.splitOn_cons_eq_if_modifyHead, List.splitOn_cons_eq_if_modifyHead,
          if_pos (beq_self_eq_true c), if_pos (beq_self_eq_true c), ih]
        rfl
      · rw [List.splitOn_cons_eq_if_modifyHead, if_neg (by simpa using here), split]
        rw [split] at ih
        cases drops : isUnsafe c with
        | true =>
            have dropped : safeText (c :: s) = safeText s :=
              List.filter_cons_of_neg (by simp [drops])
            have piece : safeText (c :: first) = safeText first :=
              List.filter_cons_of_neg (by simp [drops])
            rw [dropped, ih, List.modifyHead_cons, List.map_cons, List.map_cons, piece]
        | false =>
            have kept : safeText (c :: s) = c :: safeText s :=
              List.filter_cons_of_pos (by simp [drops])
            have piece : safeText (c :: first) = c :: safeText first :=
              List.filter_cons_of_pos (by simp [drops])
            rw [kept, List.splitOn_cons_eq_if_modifyHead, if_neg (by simpa using here), ih,
              List.modifyHead_cons, List.map_cons, List.map_cons, List.modifyHead_cons, piece]

theorem pointName_empty {raw : List Char} (empty : safeText raw = []) : pointName raw = [] := by
  rw [pointName, empty]
  rfl

/-- The names of the points are those of the parameters, the empty ones aside. -/
theorem mem_formNames {target : List Char} {name : Library.Text} :
    name ∈ formNames unquoteReplace (safeText (queryPart target)) ↔
      ∃ raw ∈ rawNames target, pointName raw ≠ [] ∧ name = codes (pointName raw) := by
  have passes : ∀ c, isUnsafe c = true → decide (c ≠ '=') = true := by
    rintro c drops
    refine decide_eq_true ?_
    rintro rfl
    contradiction
  have key : ∀ piece : List Char,
      unquoteReplace (((safeText piece).takeWhile (· ≠ '=')).map fun c =>
        if c = '+' then ' ' else c) = pointName (piece.takeWhile (· ≠ '=')) := by
    intro piece
    rw [takeWhile_safeText passes]
    rfl
  rw [formNames, parsedKeys, splitOn_safeText (by decide), rawNames]
  simp only [List.mem_map, List.mem_filter, decide_eq_true_eq]
  constructor
  · rintro ⟨text, ⟨⟨_, ⟨⟨piece, inside, rfl⟩, some_⟩, rfl⟩, named⟩, rfl⟩
    rw [key] at named ⊢
    refine ⟨_, ⟨piece, ⟨inside, ?_⟩, rfl⟩, named, rfl⟩
    rintro rfl
    exact absurd some_ (by decide)
  · rintro ⟨_, ⟨piece, ⟨inside, -⟩, rfl⟩, named, rfl⟩
    refine ⟨_, ⟨⟨safeText piece, ⟨⟨piece, inside, rfl⟩, ?_⟩, key piece⟩, named⟩, rfl⟩
    cases cleared : safeText piece with
    | nil =>
        have empty : safeText (piece.takeWhile (· ≠ '=')) = [] := by
          rw [← takeWhile_safeText passes, cleared]
          rfl
        exact absurd (pointName_empty empty) named
    | cons c rest => rfl

end Targets

/-! ## The probe -/

section Probes

theorem hexValue_hexDigit : ∀ n < 16, hexValue (Python.hexDigit n) = some n := by
  decide +kernel

theorem decoded_quoteByte (x : UInt8) (rest : List Char) :
    unquoteToBytes (quoteByte x ++ rest) = x :: unquoteToBytes rest := by
  have bound := x.toNat_lt
  obtain ⟨-, plain, small, other, -⟩ | escaped := quoteByte_cases x
  · have number : (Char.ofNat x.toNat).toNat = x.toNat := toNat_ofNat_small small
    have single : Char.ofNat x.toNat ≠ '%' := by
      intro same
      have code := congrArg Char.toNat same
      rw [number] at code
      exact other code
    rw [plain, List.singleton_append, decoded_cons _ single, number, UInt8.ofNat_toNat]
  · have high : x.toNat / 16 < 16 := by omega
    have low : x.toNat % 16 < 16 := by omega
    have whole : 16 * (x.toNat / 16) + x.toNat % 16 = x.toNat := by omega
    rw [escaped]
    simp only [List.cons_append, List.nil_append, unquoteToBytes, hexValue_hexDigit _ high,
      hexValue_hexDigit _ low, whole, UInt8.ofNat_toNat]

theorem decoded_quote (b : Bytes) : unquoteToBytes (b.flatMap quoteByte) = b := by
  induction b with
  | nil => rfl
  | cons x b ih => rw [List.flatMap_cons, decoded_quoteByte, ih]

theorem toList_quote (name : List Char) :
    (Python.quote (.ofList name)).toList = (utf8 name).flatMap quoteByte := by
  have bytes : (String.ofList name).toUTF8.data.toList = utf8 name := by
    rw [String.toUTF8_eq_toByteArray, String.toByteArray_ofList]
    exact List.toList_data_toByteArray
  rw [Python.quote, String.toList_ofList, bytes]
  rfl

/-- A quoted text has nothing in it that a query is read by. -/
theorem quote_plain (s : String) {c : Char} (mem : c ∈ (Python.quote s).toList) :
    c ∉ ['#', '&', '=', '+', '?'] := by
  exact forall_quote (p := fun c => c ∉ ['#', '&', '=', '+', '?']) (by decide) (by decide)
    (by decide) s c mem

theorem formDecode_quote (name : List Char) :
    formDecode (Python.quote (.ofList name)).toList = utf8 name := by
  have same : plus (Python.quote (.ofList name)).toList = (Python.quote (.ofList name)).toList := by
    refine (List.map_congr_left fun c mem => ?_).trans (List.map_id _)
    have plain := quote_plain _ mem
    rw [if_neg]
    · rfl
    · rintro rfl
      exact plain (by decide)
  rw [formDecode, same, toList_quote, decoded_quote]

/-- A probe's request line has one parameter, of the point's name. -/
theorem paramNames_queryPath {path : String} (noQuery : '?' ∉ path.toList)
    (noFragment : '#' ∉ path.toList) (name : List Char) (value : String) :
    paramNames (queryPath path (.ofList name) value).toList = [utf8 name] := by
  have front : ∀ c ∈ path.toList, c ≠ '?' ∧ c ≠ '#' := fun c mem =>
    ⟨fun same => noQuery (same ▸ mem), fun same => noFragment (same ▸ mem)⟩
  have absent : ∀ d ∈ ['#', '&'], d ∉ queryText (.ofList name) value := by
    intro d mark mem
    have marked : d ∈ ['#', '&', '=', '+', '?'] := List.mem_append_left ['=', '+', '?'] mark
    obtain mem | mem := List.mem_append.1 mem
    · exact quote_plain _ mem marked
    · obtain rfl | mem := List.mem_cons.1 mem
      · exact absurd mark (by decide)
      · exact quote_plain _ mem marked
  have text := toList_queryPath path.toList (.ofList name) value
  rw [String.ofList_toList] at text
  have query : queryPart ('?' :: queryText (.ofList name) value) =
      queryText (.ofList name) value := by
    have whole : ('?' :: queryText (.ofList name) value).takeWhile (· ≠ '#') =
        '?' :: queryText (.ofList name) value := by
      refine List.takeWhile_eq_self_iff.2 fun c mem => decide_eq_true ?_
      rintro rfl
      obtain same | mem := List.mem_cons.1 mem
      · exact absurd same (by decide)
      · exact absent '#' (by decide) mem
    rw [queryPart, whole, List.dropWhile_cons_of_neg (by decide)]
    rfl
  have some_ : queryText (.ofList name) value ≠ [] := by
    rw [queryText]
    exact List.append_ne_nil_of_right_ne_nil _ (List.cons_ne_nil _ _)
  have alone : [queryText (.ofList name) value].filter (· ≠ []) =
      [queryText (.ofList name) value] := List.filter_cons_of_pos (by simpa using some_)
  have key : (queryText (.ofList name) value).takeWhile (· ≠ '=') =
      (Python.quote (.ofList name)).toList := by
    rw [queryText, List.takeWhile_append_of_pos, List.takeWhile_cons_of_neg (by decide),
      List.append_nil]
    intro c mem
    refine decide_eq_true ?_
    rintro rfl
    exact quote_plain _ mem (by decide)
  rw [paramNames, rawNames, text, queryPart_append front, query,
    List.splitOn_eq_singleton (absent '&' (by decide)), alone, List.map_singleton,
    List.map_singleton, key, formDecode_quote]

end Probes

/-- Probes are sent under the captured names exactly where these are all clear. -/
theorem sentAsNamed_iff (bracketed : List Char → Bool) (head : Bytes) :
    SentAsNamed bracketed head ↔ Legible bracketed head := by
  constructor
  · intro sent target line fits raw param some_
    have named : pointName raw ≠ [] := by
      intro empty
      have long := length_unquoteReplace (plus (safeText raw))
      have none_ : unquoteReplace (plus (safeText raw)) = [] := empty
      rw [none_] at long
      have short : (unquoteToBytes (plus (safeText raw))).length = 0 := by
        have nothing : (utf8 []).length = 0 := rfl
        omega
      exact decoded_ne_nil (fun h => some_ (List.map_eq_nil_iff.1 h))
        (List.length_eq_zero_iff.1 short)
    have names : queryNames bracketed unquoteReplace head =
        .ok (formNames unquoteReplace (safeText (queryPart target))) := by
      rw [queryNames, line]
      dsimp only
      rw [urlsplitQuery_eq fits]
      rfl
    have there := mem_formNames.2 ⟨raw, param, named, rfl⟩
    have back := (sent target _ line names _ there).2 raw param rfl "" "" (by decide) (by decide)
    rw [paramNames_queryPath (by decide) (by decide)] at back
    exact (pointName_iff raw).1 (List.cons.inj back).1
  · intro legible target names line read name mem
    have fits : splits bracketed target = true := by
      rw [queryNames, line] at read
      dsimp only at read
      refine urlsplitQuery_iff.1 ?_
      cases query : urlsplitQuery bracketed target with
      | error raised =>
          rw [query] at read
          contradiction
      | ok _ => exact ⟨_, rfl⟩
    rw [queryNames, line] at read
    dsimp only at read
    rw [urlsplitQuery_eq fits] at read
    obtain rfl := Except.ok.inj read
    obtain ⟨raw, param, named, same⟩ := mem_formNames.1 mem
    refine ⟨⟨raw, param, same⟩, ?_⟩
    intro other param' same' path value noQuery noFragment
    have some_ : safeText other ≠ [] := by
      intro empty
      rw [pointName_empty empty] at same'
      exact codes_ne_nil named (same.symm.trans same')
    rw [paramNames_queryPath noQuery noFragment,
      (pointName_iff other).2 (legible target line fits other param' some_)]

/-! ## A name that is not UTF-8 -/

/-- The head of a request for `/?%E9=1`. -/
def latinName : Bytes := Python.ascii "GET /?%E9=1 HTTP/1.1"

theorem latinName_renamed : ¬ ∀ (bracketed : List Char → Bool) (head : Bytes),
    SentAsNamed bracketed head := by
  intro all
  have names : queryNames (fun _ => false) unquoteReplace latinName =
      .ok [codes (pointName "%E9".toList)] := by decide +kernel
  have raw : "%E9".toList ∈ rawNames "/?%E9=1".toList := by decide +kernel
  have back := (all (fun _ => false) latinName "/?%E9=1".toList _ (by decide +kernel) names _
    List.mem_cons_self).2 "%E9".toList raw rfl "/" "x" (by decide) (by decide)
  exact absurd back (by decide +kernel)

end Hx.Surface
