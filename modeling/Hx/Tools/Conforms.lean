import Hx.Tools.Schema

/-!
# What the validator decides

`Conforms` is the meaning of a schema: which values it admits. The validator lists problems exactly
where a value does not conform, and two values that differ in their leaves alone get the same
list, as long as every list of unknown keys can be sorted and every message can be written.
-/

namespace Hx.Tools

open Hx.Library

/-! ## The meaning of a schema -/

/-- The values a schema admits. Numbers compare by their values, and nothing is above or below one
that is no number. -/
inductive Conforms : Schema → PyValue → Prop
  | string {choices least most} {s : Text}
      (among : ∀ c ∈ choices, s ∈ c)
      (long : ∀ n ∈ least, n ≤ (s.length : Int))
      (short : ∀ n ∈ most, (s.length : Int) ≤ n) : Conforms (.string choices least most) (.str s)
  | integer {choices least most} {n : Int}
      (among : ∀ c ∈ choices, n ∈ c)
      (large : ∀ b ∈ least, (Number.int n).lt b = false)
      (small : ∀ b ∈ most, b.lt (.int n) = false) : Conforms (.integer choices least most) (.int n)
  | number {choices least most} {v : PyValue} {x : Number} (value : v.number? = some x)
      (among : ∀ c ∈ choices, ∃ b ∈ c, x.equals b = true)
      (large : ∀ b ∈ least, x.lt b = false)
      (small : ∀ b ∈ most, b.lt x = false) : Conforms (.number choices least most) v
  | boolean {choices} {b : Bool} (among : ∀ c ∈ choices, b ∈ c) :
      Conforms (.boolean choices) (.bool b)
  | array {items least most} {xs : List PyValue}
      (long : ∀ n ∈ least, n ≤ (xs.length : Int))
      (short : ∀ n ∈ most, (xs.length : Int) ≤ n)
      (each : ∀ x ∈ xs, Conforms items x) : Conforms (.array items least most) (.list xs)
  | object {properties required} {entries : List (DictKey × PyValue)}
      (present : ∀ key ∈ required, .str key ∈ entries.map Prod.fst)
      (known : ∀ key ∈ entries.map Prod.fst, ∃ p ∈ properties, key = .str p.1)
      (each : ∀ p ∈ properties, ∀ v, getEntry p.1 entries = some v → Conforms p.2 v) :
      Conforms (.object properties required) (.dict entries)

/-! ## Where the validator answers -/

/-- No keyword that is broken is an integer too long to be written. -/
def Legible {α : Type} (keyword : Option α) (broken isWritten : α → Bool) : Prop :=
  ∀ k ∈ keyword, broken k = true → isWritten k = true

/-- At every dict that validation reaches, the unknown keys are at most one, or all text, or all
numbers, and no integer that a message writes is too long. -/
inductive Answerable : Schema → PyValue → Prop
  | mistyped {schema v} (type : schema.isInstance v = false) : Answerable schema v
  | string {choices least most} {s : Text}
      (long : Legible least (fun n => decide ((s.length : Int) < n)) isWritten)
      (short : Legible most (fun n => decide (n < (s.length : Int))) isWritten) :
      Answerable (.string choices least most) (.str s)
  | integer {choices least most} {n : Int}
      (among : Legible choices (fun c => !c.contains n) (·.all isWritten))
      (large : Legible least (Number.int n).lt Number.isWritten)
      (small : Legible most (fun b => b.lt (.int n)) Number.isWritten) :
      Answerable (.integer choices least most) (.int n)
  | number {choices least most} {v : PyValue} {x : Number} (value : v.number? = some x)
      (among : Legible choices (fun c => !c.any x.equals) (·.all Number.isWritten))
      (large : Legible least x.lt Number.isWritten)
      (small : Legible most (fun b => b.lt x) Number.isWritten) :
      Answerable (.number choices least most) v
  | boolean {choices} {b : Bool} : Answerable (.boolean choices) (.bool b)
  | array {items least most} {xs : List PyValue}
      (long : Legible least (fun n => decide ((xs.length : Int) < n)) isWritten)
      (short : Legible most (fun n => decide (n < (xs.length : Int))) isWritten)
      (each : ∀ x ∈ xs, Answerable items x) : Answerable (.array items least most) (.list xs)
  | object {properties required} {entries : List (DictKey × PyValue)}
      (sorts : comparable (unknownKeys properties entries) = true)
      (keys : ∀ key ∈ unknownKeys properties entries, key.isWritten = true)
      (each : ∀ p ∈ properties, ∀ v, getEntry p.1 entries = some v → Answerable p.2 v) :
      Answerable (.object properties required) (.dict entries)

/-! ## Values that differ in their leaves alone -/

/-- The values have the same types and the same shape where the schema looks, and their leaves keep
and break the same keywords. -/
inductive Alike : Schema → PyValue → PyValue → Prop
  | mistyped {schema v v'} (type : schema.isInstance v = false)
      (type' : schema.isInstance v' = false) (name : v.typeName = v'.typeName) :
      Alike schema v v'
  | string {choices least most} {s s' : Text}
      (among : ∀ c ∈ choices, (s ∈ c ↔ s' ∈ c))
      (long : ∀ n ∈ least, (n ≤ (s.length : Int) ↔ n ≤ (s'.length : Int)))
      (short : ∀ n ∈ most, ((s.length : Int) ≤ n ↔ (s'.length : Int) ≤ n)) :
      Alike (.string choices least most) (.str s) (.str s')
  | integer {choices least most} {n n' : Int}
      (among : ∀ c ∈ choices, (n ∈ c ↔ n' ∈ c))
      (large : ∀ b ∈ least, (Number.int n).lt b = (Number.int n').lt b)
      (small : ∀ b ∈ most, b.lt (.int n) = b.lt (.int n')) :
      Alike (.integer choices least most) (.int n) (.int n')
  | number {choices least most} {v v' : PyValue} {x x' : Number} (value : v.number? = some x)
      (value' : v'.number? = some x')
      (among : ∀ c ∈ choices, ((∃ b ∈ c, x.equals b = true) ↔ ∃ b ∈ c, x'.equals b = true))
      (large : ∀ b ∈ least, x.lt b = x'.lt b)
      (small : ∀ b ∈ most, b.lt x = b.lt x') :
      Alike (.number choices least most) v v'
  | boolean {choices} {b b' : Bool} (among : ∀ c ∈ choices, (b ∈ c ↔ b' ∈ c)) :
      Alike (.boolean choices) (.bool b) (.bool b')
  | array {items least most} {xs xs' : List PyValue} (length : xs.length = xs'.length)
      (each : ∀ p ∈ xs.zip xs', Alike items p.1 p.2) :
      Alike (.array items least most) (.list xs) (.list xs')
  | object {properties required} {entries entries' : List (DictKey × PyValue)}
      (keys : (entries.map Prod.fst).Perm (entries'.map Prod.fst))
      (each : ∀ p ∈ properties, ∀ v v', getEntry p.1 entries = some v →
        getEntry p.1 entries' = some v' → Alike p.2 v v') :
      Alike (.object properties required) (.dict entries) (.dict entries')

/-! ## Problems -/

/-- A property of every schema follows from what it takes to hold of each kind of them. -/
theorem Schema.every {P : Schema → Prop}
    (string : ∀ choices least most, P (.string choices least most))
    (integer : ∀ choices least most, P (.integer choices least most))
    (number : ∀ choices least most, P (.number choices least most))
    (boolean : ∀ choices, P (.boolean choices))
    (array : ∀ items least most, P items → P (.array items least most))
    (object : ∀ properties required, (∀ p ∈ properties, P p.2) → P (.object properties required)) :
    ∀ schema, P schema
  | .string choices least most => string choices least most
  | .integer choices least most => integer choices least most
  | .number choices least most => number choices least most
  | .boolean choices => boolean choices
  | .array items least most =>
      array items least most (every string integer number boolean array object items)
  | .object properties required => object properties required fun p _hp =>
      every string integer number boolean array object p.2
termination_by schema => schema
decreasing_by
  · decreasing_tactic
  · obtain ⟨name, schema⟩ := p
    have := List.sizeOf_lt_of_mem _hp
    simp only [Schema.object.sizeOf_spec]
    simp only [Prod.mk.sizeOf_spec] at this
    omega

theorem breach_eq_nil {α : Type} {keyword : Option α} {broken : α → Bool}
    {problem : α → Problem} :
    breach keyword broken problem = [] ↔ ∀ k ∈ keyword, broken k = false := by
  cases keyword with
  | none => simp [breach]
  | some k => cases h : broken k <;> simp [breach, h]

theorem breach_legible {α : Type} {keyword : Option α} {broken : α → Bool}
    {problem : α → Problem} :
    (breach keyword broken problem).all Problem.isWritten = true ↔
      Legible keyword broken fun k => (problem k).isWritten := by
  cases keyword with
  | none => simp [breach, Legible]
  | some k => cases h : broken k <;> simp [breach, Legible, h]

theorem breach_congr {α : Type} {keyword : Option α} {broken broken' : α → Bool}
    {problem : α → Problem} (h : ∀ k ∈ keyword, broken k = broken' k) :
    breach keyword broken problem = breach keyword broken' problem := by
  cases keyword with
  | none => rfl
  | some k => simp [breach, h k rfl]

theorem written_eq_ok {problems result : List Problem} :
    written problems = .ok result ↔ problems.all Problem.isWritten = true ∧ problems = result := by
  unfold written
  split <;> simp_all

theorem written_answers {problems : List Problem} :
    (∃ result, written problems = .ok result) ↔ problems.all Problem.isWritten = true := by
  simp [written_eq_ok]

/-! ## Lists of problems -/

section Collect

variable {α β ε : Type} {f g : α → Except ε (List β)} {xs : List α}

theorem collect_cons {a : α} {result : List β} :
    collect f (a :: xs) = .ok result ↔
      ∃ first more, f a = .ok first ∧ collect f xs = .ok more ∧ first ++ more = result := by
  cases ha : f a with
  | error e => simp [collect, ha]
  | ok first =>
      cases hx : collect f xs with
      | error e => simp [collect, ha, hx]
      | ok more => simp [collect, ha, hx]

theorem collect_answers :
    (∃ result, collect f xs = .ok result) ↔ ∀ a ∈ xs, ∃ result, f a = .ok result := by
  induction xs with
  | nil => simp [collect]
  | cons a xs ih =>
      constructor
      · intro ⟨result, h⟩
        obtain ⟨first, more, ha, hx, -⟩ := collect_cons.mp h
        intro b hb
        cases hb with
        | head => exact ⟨first, ha⟩
        | tail _ hb => exact ih.mp ⟨more, hx⟩ b hb
      · intro h
        obtain ⟨first, ha⟩ := h a List.mem_cons_self
        obtain ⟨more, hx⟩ := ih.mpr fun b hb => h b (List.mem_cons_of_mem a hb)
        exact ⟨first ++ more, collect_cons.mpr ⟨first, more, ha, hx, rfl⟩⟩

theorem collect_nil_iff : collect f xs = .ok [] ↔ ∀ a ∈ xs, f a = .ok [] := by
  induction xs with
  | nil => simp [collect]
  | cons a xs ih =>
      rw [collect_cons, List.forall_mem_cons, ← ih]
      constructor
      · intro ⟨first, more, ha, hx, hnil⟩
        obtain ⟨rfl, rfl⟩ := List.append_eq_nil_iff.mp hnil
        exact ⟨ha, hx⟩
      · intro ⟨ha, hx⟩
        exact ⟨[], [], ha, hx, rfl⟩

theorem collect_congr (h : ∀ a ∈ xs, f a = g a) : collect f xs = collect g xs := by
  induction xs with
  | nil => rfl
  | cons a xs ih =>
      rw [collect, collect, h a List.mem_cons_self,
        ih fun b hb => h b (List.mem_cons_of_mem a hb)]

theorem collect_zipIdx {f : α → Nat → Except ε (List β)} {xs ys : List α}
    (length : xs.length = ys.length) (h : ∀ p ∈ xs.zip ys, ∀ i, f p.1 i = f p.2 i) (k : Nat) :
    collect (fun p => f p.1 p.2) (xs.zipIdx k) = collect (fun p => f p.1 p.2) (ys.zipIdx k) := by
  induction xs generalizing ys k with
  | nil =>
      cases ys with
      | nil => rfl
      | cons y ys => cases length
  | cons x xs ih =>
      cases ys with
      | nil => cases length
      | cons y ys =>
          rw [List.zip_cons_cons, List.forall_mem_cons] at h
          have hrest := ih (Nat.succ.inj length) h.2 (k + 1)
          simp only [List.zipIdx_cons, collect, h.1 k, hrest]

end Collect

/-! ## Sorted keys -/

theorem lexLe_total (s t : List Int) : lexLe s t = true ∨ lexLe t s = true := by
  induction s generalizing t with
  | nil => simp [lexLe]
  | cons a s ih =>
      cases t with
      | nil => simp [lexLe]
      | cons b t =>
          have := ih t
          simp only [lexLe, Bool.or_eq_true, decide_eq_true_eq, Bool.and_eq_true, beq_iff_eq]
          rcases Int.lt_trichotomy a b with hab | hab | hab
          · exact .inl (.inl hab)
          · exact this.imp (fun h => .inr ⟨hab, h⟩) fun h => .inr ⟨hab.symm, h⟩
          · exact .inr (.inl hab)

theorem lexLe_trans {s t u : List Int} (hst : lexLe s t = true) (htu : lexLe t u = true) :
    lexLe s u = true := by
  induction s generalizing t u with
  | nil => rfl
  | cons a s ih =>
      cases t with
      | nil => cases hst
      | cons b t =>
          cases u with
          | nil => cases htu
          | cons c u =>
              have := @ih t u
              simp only [lexLe, Bool.or_eq_true, decide_eq_true_eq, Bool.and_eq_true,
                beq_iff_eq] at hst htu ⊢
              grind

theorem lexLe_antisymm {s t : List Int} (hst : lexLe s t = true) (hts : lexLe t s = true) :
    s = t := by
  induction s generalizing t with
  | nil =>
      cases t with
      | nil => rfl
      | cons b t => cases hts
  | cons a s ih =>
      cases t with
      | nil => cases hst
      | cons b t =>
          have := @ih t
          simp only [lexLe, Bool.or_eq_true, decide_eq_true_eq, Bool.and_eq_true,
            beq_iff_eq] at hst hts
          grind

namespace DictKey

theorem code_injective {a b : DictKey} (h : a.code = b.code) : a = b := by
  cases a <;> cases b <;> simp [code] at h ⊢ <;> try assumption
  · cases ‹Bool› <;> cases ‹Bool› <;> simp_all
  · rename_i s t
    exact List.map_injective_iff.mpr (fun c d hcd => Fin.ext (by exact_mod_cast hcd)) h

end DictKey

/-- Sorting forgets the order of the keys. -/
theorem sortKeys_perm {keys keys' : List DictKey} (h : keys.Perm keys') :
    sortKeys keys = sortKeys keys' := by
  have hc : comparable keys = comparable keys' := by
    simp only [comparable, h.length_eq, h.all_eq]
  have hs : keys.insertionSort (fun a b => lexLe a.code b.code = true) =
      keys'.insertionSort (fun a b => lexLe a.code b.code = true) := by
    have : Std.Total fun a b : DictKey => lexLe a.code b.code = true :=
      ⟨fun a b => lexLe_total a.code b.code⟩
    have : IsTrans DictKey fun a b => lexLe a.code b.code = true :=
      ⟨fun a b c hab hbc => lexLe_trans hab hbc⟩
    refine List.Perm.eq_of_pairwise (fun a b _ _ hab hba => ?_)
      (List.pairwise_insertionSort _ keys) (List.pairwise_insertionSort _ keys')
      ((List.perm_insertionSort _ keys).trans (h.trans (List.perm_insertionSort _ keys').symm))
    exact DictKey.code_injective (lexLe_antisymm hab hba)
  unfold sortKeys
  rw [hc, hs]

/-! ## Validation, one level at a time -/

theorem validate_mistyped {schema : Schema} {v : PyValue} {where_ : Text}
    (h : schema.isInstance v = false) :
    validate schema v where_ = .ok [.expected where_ schema.typeWord v.typeName] := by
  cases schema <;> cases v <;> first | rfl | cases h

/-- The problems at one property, when it is there. -/
def validateAt (entries : List (DictKey × PyValue)) (where_ : Text) (p : Text × Schema) :
    Except Raised (List Problem) :=
  match getEntry p.1 entries with
  | none => .ok []
  | some v => validate p.2 v (where_ ++ text "." ++ p.1)

theorem validateEach_eq_collect (properties : List (Text × Schema))
    (entries : List (DictKey × PyValue)) (where_ : Text) :
    validateEach properties entries where_ = collect (validateAt entries where_) properties := by
  induction properties with
  | nil => simp [validateEach, collect]
  | cons p properties ih =>
      obtain ⟨key, sub⟩ := p
      cases h : getEntry key entries with
      | some v =>
          simp only [validateEach, collect, validateAt, h, ih]
          cases validate sub v (where_ ++ text "." ++ key) with
          | error e => rfl
          | ok first => cases collect (validateAt entries where_) properties <;> rfl
      | none =>
          simp only [validateEach, collect, validateAt, h, ih]
          cases collect (validateAt entries where_) properties <;> simp

theorem validateAt_answers {entries : List (DictKey × PyValue)} {where_ : Text}
    {p : Text × Schema} :
    (∃ result, validateAt entries where_ p = .ok result) ↔
      ∀ v, getEntry p.1 entries = some v →
        ∃ result, validate p.2 v (where_ ++ text "." ++ p.1) = .ok result := by
  unfold validateAt
  cases getEntry p.1 entries <;> simp

theorem validateAt_nil_iff {entries : List (DictKey × PyValue)} {where_ : Text}
    {p : Text × Schema} :
    validateAt entries where_ p = .ok [] ↔
      ∀ v, getEntry p.1 entries = some v →
        validate p.2 v (where_ ++ text "." ++ p.1) = .ok [] := by
  unfold validateAt
  cases getEntry p.1 entries <;> simp

theorem validate_list {items : Schema} {least most : Option Int} {xs : List PyValue}
    {where_ : Text} {result : List Problem} :
    validate (.array items least most) (.list xs) where_ = .ok result ↔
      ∃ first more,
        written (breach least (fun n => decide ((xs.length : Int) < n)) (.fewerItems where_) ++
          breach most (fun n => decide (n < (xs.length : Int))) (.moreItems where_)) = .ok first ∧
        collect (fun p => validate items p.1 (indexed where_ p.2)) xs.zipIdx = .ok more ∧
        first ++ more = result := by
  simp only [validate]
  split
  · simp_all
  · split
    · simp_all
    · simp_all

theorem validate_dict {properties : List (Text × Schema)} {required : List Text}
    {entries : List (DictKey × PyValue)} {where_ : Text} {result : List Problem} :
    validate (.object properties required) (.dict entries) where_ = .ok result ↔
      ∃ unknown notArguments more,
        sortKeys (unknownKeys properties entries) = .ok unknown ∧
        written (unknown.map (.notArgument where_)) = .ok notArguments ∧
        collect (validateAt entries where_) properties = .ok more ∧
        (required.filter fun key => (getEntry key entries).isNone).map (.isRequired where_) ++
          (notArguments ++ more) = result := by
  simp only [validate, validateEach_eq_collect]
  split
  · simp_all
  · split
    · simp_all
    · split <;> simp_all

theorem sortKeys_answers {keys sorted : List DictKey} (h : sortKeys keys = .ok sorted) :
    comparable keys = true ∧ sorted.Perm keys := by
  unfold sortKeys at h
  split at h
  · cases h
    exact ⟨‹_›, List.perm_insertionSort _ keys⟩
  · cases h

theorem forall_mem_zipIdx {α : Type} {P : α → Prop} {xs : List α} :
    (∀ p ∈ xs.zipIdx, P p.1) ↔ ∀ x ∈ xs, P x := by
  constructor
  · intro h x hx
    obtain ⟨i, hi⟩ := List.getElem?_of_mem hx
    exact h (x, i) (List.mem_zipIdx_iff_getElem?.mpr hi)
  · intro h p hp
    exact h p.1 (List.mem_of_getElem? (List.mem_zipIdx_iff_getElem?.mp hp))

/-! ## The validator -/

theorem answers_of_typed {schema : Schema} {v : PyValue} {where_ : Text}
    (h : schema.isInstance v = true →
      ((∃ result, validate schema v where_ = .ok result) ↔ Answerable schema v)) :
    (∃ result, validate schema v where_ = .ok result) ↔ Answerable schema v := by
  cases type : schema.isInstance v with
  | false => exact ⟨fun _ => .mistyped type, fun _ => ⟨_, validate_mistyped type⟩⟩
  | true => exact h type

/-- Whether the validator answers. -/
theorem validate_answers (schema : Schema) : ∀ (v : PyValue) (where_ : Text),
    (∃ result, validate schema v where_ = .ok result) ↔ Answerable schema v := by
  induction schema using Schema.every with
  | string choices least most =>
      intro v where_
      refine answers_of_typed fun type => ?_
      cases v with
      | str s =>
          simp only [validate, written_answers, List.all_append, Bool.and_eq_true,
            breach_legible, Problem.isWritten]
          constructor
          · intro ⟨_, long, short⟩
            exact .string long short
          · intro h
            cases h with
            | mistyped h => cases h
            | string long short => exact ⟨by simp [Legible, Choice.isWritten], long, short⟩
      | _ => cases type
  | integer choices least most =>
      intro v where_
      refine answers_of_typed fun type => ?_
      cases v with
      | int n =>
          simp only [validate, written_answers, List.all_append, Bool.and_eq_true,
            breach_legible, Problem.isWritten, List.all_map]
          constructor
          · intro ⟨among, large, small⟩
            exact .integer among large small
          · intro h
            cases h with
            | mistyped h => cases h
            | integer among large small => exact ⟨among, large, small⟩
      | _ => cases type
  | number choices least most =>
      intro v where_
      refine answers_of_typed fun type => ?_
      cases value : v.number? with
      | some x =>
          simp only [validate, value, written_answers, List.all_append, Bool.and_eq_true,
            breach_legible, Problem.isWritten, List.all_map]
          constructor
          · intro ⟨among, large, small⟩
            exact .number value among large small
          · intro h
            cases h with
            | mistyped h =>
                rw [type] at h
                cases h
            | number value' among large small =>
                cases value.symm.trans value'
                exact ⟨among, large, small⟩
      | none =>
          cases v with
          | int n => cases value
          | float x => cases value
          | _ => cases type
  | boolean choices =>
      intro v where_
      refine answers_of_typed fun type => ?_
      cases v with
      | bool b =>
          simp only [validate, written_answers, breach_legible, Problem.isWritten]
          exact ⟨fun _ => .boolean, fun _ => by simp [Legible, Choice.isWritten]⟩
      | _ => cases type
  | array items least most ih =>
      intro v where_
      refine answers_of_typed fun type => ?_
      cases v with
      | list xs =>
          have each : (∃ more, collect (fun p => validate items p.1 (indexed where_ p.2))
              xs.zipIdx = .ok more) ↔ ∀ x ∈ xs, Answerable items x := by
            simp only [collect_answers, ih]
            exact forall_mem_zipIdx
          simp only [validate_list, written_eq_ok, List.all_append, Bool.and_eq_true,
            breach_legible, Problem.isWritten]
          constructor
          · intro ⟨_, _, more, ⟨⟨long, short⟩, _⟩, hmore, _⟩
            exact .array long short (each.mp ⟨more, hmore⟩)
          · intro h
            cases h with
            | mistyped h => cases h
            | array long short h =>
                obtain ⟨more, hmore⟩ := each.mpr h
                exact ⟨_, _, more, ⟨⟨long, short⟩, rfl⟩, hmore, rfl⟩
      | _ => cases type
  | object properties required ih =>
      intro v where_
      refine answers_of_typed fun type => ?_
      cases v with
      | dict entries =>
          have each : (∃ more, collect (validateAt entries where_) properties = .ok more) ↔
              ∀ p ∈ properties, ∀ v, getEntry p.1 entries = some v → Answerable p.2 v := by
            rw [collect_answers]
            refine forall₂_congr fun p hp => ?_
            simp only [validateAt_answers, ih p hp]
          simp only [validate_dict, written_eq_ok, List.all_map]
          constructor
          · intro ⟨_, unknown, _, more, hsort, ⟨hkeys, _⟩, hmore, _⟩
            obtain ⟨hc, hperm⟩ := sortKeys_answers hsort
            refine .object hc (fun key hkey => ?_) (each.mp ⟨more, hmore⟩)
            exact List.all_eq_true.mp hkeys key (hperm.mem_iff.mpr hkey)
          · intro h
            cases h with
            | mistyped h => cases h
            | object sorts keys h =>
                obtain ⟨more, hmore⟩ := each.mpr h
                refine ⟨_, _, _, more, if_pos sorts, ⟨List.all_eq_true.mpr fun key hkey => ?_, rfl⟩,
                  hmore, rfl⟩
                exact keys key ((List.mem_insertionSort _).mp hkey)
      | _ => cases type

theorem getEntry_isNone {α : Type} {key : Text} {entries : List (DictKey × α)} :
    (getEntry key entries).isNone = false ↔ .str key ∈ entries.map Prod.fst := by
  induction entries with
  | nil => simp [getEntry]
  | cons e entries ih =>
      obtain ⟨k, v⟩ := e
      rw [List.map_cons, List.mem_cons, getEntry]
      by_cases h : k = .str key
      · simp [h]
      · rw [if_neg h, ih]
        exact ⟨.inr, fun hk => hk.resolve_left fun he => h he.symm⟩

theorem unknownKeys_eq_nil {properties : List (Text × Schema)}
    {entries : List (DictKey × PyValue)} :
    unknownKeys properties entries = [] ↔
      ∀ key ∈ entries.map Prod.fst, ∃ p ∈ properties, key = .str p.1 := by
  rw [unknownKeys, List.filter_eq_nil_iff]
  refine forall₂_congr fun key _ => ?_
  simp

theorem written_nil_iff {problems : List Problem} :
    written problems = .ok [] ↔ problems = [] := by
  rw [written_eq_ok, and_iff_right_iff_imp]
  rintro rfl
  rfl

/-- The validator finds nothing exactly in the values that conform. -/
theorem validate_nil_iff (schema : Schema) : ∀ (v : PyValue) (where_ : Text),
    validate schema v where_ = .ok [] ↔ Conforms schema v := by
  induction schema using Schema.every with
  | string choices least most =>
      intro v where_
      cases v with
      | str s =>
          simp only [validate, written_nil_iff, List.append_eq_nil_iff, breach_eq_nil,
            Bool.not_eq_false', List.contains_iff_mem, decide_eq_false_iff_not, Int.not_lt]
          constructor
          · intro ⟨among, long, short⟩
            exact .string among long short
          · rintro ⟨⟩
            exact ⟨‹_›, ‹_›, ‹_›⟩
      | _ => exact ⟨nofun, nofun⟩
  | integer choices least most =>
      intro v where_
      cases v with
      | int n =>
          simp only [validate, written_nil_iff, List.append_eq_nil_iff, breach_eq_nil,
            Bool.not_eq_false', List.contains_iff_mem]
          constructor
          · intro ⟨among, large, small⟩
            exact .integer among large small
          · rintro ⟨⟩
            exact ⟨‹_›, ‹_›, ‹_›⟩
      | _ => exact ⟨nofun, nofun⟩
  | number choices least most =>
      intro v where_
      cases value : v.number? with
      | some x =>
          simp only [validate, value, written_nil_iff, List.append_eq_nil_iff, breach_eq_nil,
            Bool.not_eq_false', List.any_eq_true]
          constructor
          · intro ⟨among, large, small⟩
            exact .number value among large small
          · intro h
            cases h with
            | number value' among large small =>
                cases value.symm.trans value'
                exact ⟨among, large, small⟩
      | none =>
          simp only [validate, value]
          refine ⟨nofun, fun h => ?_⟩
          cases h with
          | number value' => cases value.symm.trans value'
  | boolean choices =>
      intro v where_
      cases v with
      | bool b =>
          simp only [validate, written_nil_iff, breach_eq_nil, Bool.not_eq_false',
            List.contains_iff_mem]
          constructor
          · intro among
            exact .boolean among
          · rintro ⟨⟩
            assumption
      | _ => exact ⟨nofun, nofun⟩
  | array items least most ih =>
      intro v where_
      cases v with
      | list xs =>
          have each : collect (fun p => validate items p.1 (indexed where_ p.2)) xs.zipIdx =
              .ok [] ↔ ∀ x ∈ xs, Conforms items x := by
            simp only [collect_nil_iff, ih]
            exact forall_mem_zipIdx
          rw [validate_list]
          constructor
          · intro ⟨first, more, hfirst, hmore, hnil⟩
            obtain ⟨rfl, rfl⟩ := List.append_eq_nil_iff.mp hnil
            simp only [written_nil_iff, List.append_eq_nil_iff, breach_eq_nil,
              decide_eq_false_iff_not, Int.not_lt] at hfirst
            exact .array hfirst.1 hfirst.2 (each.mp hmore)
          · intro h
            cases h with
            | array long short h =>
                refine ⟨[], [], written_nil_iff.mpr ?_, each.mpr h, rfl⟩
                simp only [List.append_eq_nil_iff, breach_eq_nil, decide_eq_false_iff_not,
                  Int.not_lt]
                exact ⟨long, short⟩
      | _ => exact ⟨nofun, nofun⟩
  | object properties required ih =>
      intro v where_
      cases v with
      | dict entries =>
          have each : collect (validateAt entries where_) properties = .ok [] ↔
              ∀ p ∈ properties, ∀ v, getEntry p.1 entries = some v → Conforms p.2 v := by
            rw [collect_nil_iff]
            refine forall₂_congr fun p hp => ?_
            simp only [validateAt_nil_iff, ih p hp]
          have present : (required.filter fun key => (getEntry key entries).isNone).map
              (Problem.isRequired where_) = [] ↔
                ∀ key ∈ required, .str key ∈ entries.map Prod.fst := by
            simp only [List.map_eq_nil_iff, List.filter_eq_nil_iff, Bool.not_eq_true,
              getEntry_isNone]
          rw [validate_dict]
          constructor
          · intro ⟨unknown, notArguments, more, hsort, hkeys, hmore, hnil⟩
            obtain ⟨hpresent, hrest⟩ := List.append_eq_nil_iff.mp hnil
            obtain ⟨rfl, rfl⟩ := List.append_eq_nil_iff.mp hrest
            have hunknown := List.map_eq_nil_iff.mp (written_nil_iff.mp hkeys)
            refine .object (present.mp hpresent) (unknownKeys_eq_nil.mp ?_) (each.mp hmore)
            rw [hunknown] at hsort
            exact (sortKeys_answers hsort).2.symm.eq_nil
          · intro h
            cases h with
            | object hpresent known h =>
                refine ⟨[], [], [], ?_, rfl, each.mpr h, by rw [present.mpr hpresent]; rfl⟩
                rw [unknownKeys_eq_nil.mpr known]
                rfl
      | _ => exact ⟨nofun, nofun⟩

theorem not_contains {α : Type} [BEq α] [LawfulBEq α] {a : α} {c : List α} :
    (!c.contains a) = false ↔ a ∈ c := by
  rw [Bool.not_eq_false', List.contains_iff_mem]

theorem not_any_equals {x : Number} {c : List Number} :
    (!c.any x.equals) = false ↔ ∃ b ∈ c, x.equals b = true := by
  rw [Bool.not_eq_false', List.any_eq_true]

theorem decide_lt {m n : Int} : decide (m < n) = false ↔ n ≤ m := by
  rw [decide_eq_false_iff_not, Int.not_lt]

/-- A keyword that two values both keep or both break. -/
theorem broken_congr {P Q : Prop} {p q : Bool} (hp : p = false ↔ P) (hq : q = false ↔ Q)
    (h : P ↔ Q) : p = q := by
  cases p <;> cases q <;> simp_all

/-- Values that differ in their leaves alone get the same problems. -/
theorem validate_alike {schema : Schema} {v v' : PyValue} (h : Alike schema v v') :
    ∀ where_, validate schema v where_ = validate schema v' where_ := by
  induction h with
  | mistyped type type' name =>
      intro where_
      rw [validate_mistyped type, validate_mistyped type', name]
  | string among long short =>
      intro where_
      simp only [validate]
      rw [breach_congr fun c hc => broken_congr not_contains not_contains (among c hc),
        breach_congr fun n hn => broken_congr decide_lt decide_lt (long n hn),
        breach_congr fun n hn => broken_congr decide_lt decide_lt (short n hn)]
  | integer among large small =>
      intro where_
      simp only [validate]
      rw [breach_congr fun c hc => broken_congr not_contains not_contains (among c hc),
        breach_congr large, breach_congr small]
  | number value value' among large small =>
      intro where_
      simp only [validate, value, value']
      rw [breach_congr fun c hc => broken_congr not_any_equals not_any_equals (among c hc),
        breach_congr large, breach_congr small]
  | boolean among =>
      intro where_
      simp only [validate]
      rw [breach_congr fun c hc => broken_congr not_contains not_contains (among c hc)]
  | @array items least most xs xs' length each ih =>
      intro where_
      simp only [validate]
      have := collect_zipIdx (f := fun x i => validate items x (indexed where_ i)) length
        (fun p hp i => ih p hp (indexed where_ i)) 0
      rw [this, length]
  | @object properties required entries entries' keys each ih =>
      intro where_
      have hkey (key : Text) : (getEntry key entries).isNone = (getEntry key entries').isNone := by
        rw [← Bool.not_inj_iff, Bool.eq_iff_iff]
        simp only [Bool.not_eq_true', getEntry_isNone]
        exact keys.mem_iff
      have hunknown := sortKeys_perm (keys.filter fun k => !properties.any fun p => k == .str p.1)
      have heach : collect (validateAt entries where_) properties =
          collect (validateAt entries' where_) properties := by
        refine collect_congr fun p hp => ?_
        have := hkey p.1
        unfold validateAt
        cases hv : getEntry p.1 entries with
        | none =>
            cases hv' : getEntry p.1 entries' with
            | none => rfl
            | some v' => simp [hv, hv'] at this
        | some v =>
            cases hv' : getEntry p.1 entries' with
            | none => simp [hv, hv'] at this
            | some v' => exact ih p hp v v' hv hv' _
      simp only [validate, validateEach_eq_collect, heach, unknownKeys, hunknown, hkey]

end Hx.Tools
