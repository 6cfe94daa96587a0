import Hx.Redact.Target

/-!
# A parameter and what surrounds it

A place is a text with a credential parameter left open. What is redacted does not depend on
the value that is filled in exactly where no authority reaches the parameter from before it,
and none that follows it is read differently when the value holds a `://` of its own.
-/

namespace Hx.Redact

open Hx.Library Vocabulary

variable {α : Type}

/-- What stands before and after the value of a credential parameter in a query: `front` is
the text up to the first `?`. -/
structure Place (V : Vocabulary α) where
  front : List α
  before : List α
  name : List α
  after : List α
  front_plain : ∀ c ∈ front, V.code c ≠ 63
  before_inside : ∀ c ∈ before, V.endsQuery c = false
  before_ends : before = [] ∨ ∃ xs, before = xs ++ [V.ofCode 38]
  named : V.isCredentialParam name = true
  after_starts : ∀ c, after.head? = some c → V.code c = 38 ∨ V.endsQuery c = true

/-- A value of a parameter: neither `&` nor anything that ends the query is in it. -/
structure Value (V : Vocabulary α) (v : List α) : Prop where
  ne_nil : v ≠ []
  plain : ∀ c ∈ v, V.code c ≠ 38 ∧ V.endsQuery c = false

namespace Place

variable {V : Vocabulary α} (x : Place V)

def pre : List α := x.front ++ V.ofCode 63 :: (x.before ++ (x.name ++ [V.ofCode 61]))

def fill (v : List α) : List α := x.pre ++ (v ++ x.after)

/-- The cuts of the parameters before the open one. -/
def early : List (Cut α) := V.queryCuts (x.front.length + 1) x.before

/-- The cuts of the parameters after the open one, in `after`. -/
def later : List (Cut α) := V.queryCuts 0 (V.queryOf x.after)

/-- The cut of a value filled in. -/
def cut (v : List α) : Cut α := ⟨x.pre.length, x.pre.length + v.length, V.param⟩

/-- No userinfo depends on the value. Either a `://` stands before the parameter, and its
authority ends before the parameter or it is in the value of another credential parameter.
Or none does, no `@` follows the parameter up to a `/`, `?`, `#` or blank, and the first URI
after it has no userinfo, or has it in the value of a credential parameter, or has the
placeholder for it. -/
def Quiet : Prop :=
  match V.schemeAt x.pre with
  | some scheme =>
      (∃ c ∈ x.pre.drop (scheme + 3), V.endsAuthority c = true) ∨
        ∃ c ∈ x.early, c.start < scheme + 3 ∧ scheme + 3 < c.stop
  | none =>
      (∀ c ∈ V.authorityOf x.after, V.code c ≠ 64) ∧
        ∀ u ∈ V.userinfoCuts x.after,
          (∃ c ∈ x.later, c.start < u.start ∧ u.start < c.stop) ∨
            (x.after.drop u.start).take (u.stop - u.start) = V.userinfo

variable {x} {v t : List α} {c : Cut α}

theorem code_equals : V.code (V.ofCode 61) = 61 := V.code_ofCode 61 (by decide)

theorem code_question : V.code (V.ofCode 63) = 63 := V.code_ofCode 63 (by decide)

theorem code_amp : V.code (V.ofCode 38) = 38 := V.code_ofCode 38 (by decide)

theorem length_pre :
    x.pre.length = x.front.length + 1 + x.before.length + (x.name.length + 1) := by
  simp only [pre, List.length_append, List.length_cons, List.length_nil]
  omega

theorem name_inside (x : Place V) : ∀ c ∈ x.name ++ [V.ofCode 61],
    V.code c ≠ 38 ∧ V.endsQuery c = false := by
  intro c mem
  rcases List.mem_append.1 mem with named | equals
  · have plain := V.name_plain x.name x.named c named
    simp only [List.mem_cons, List.not_mem_nil, or_false, not_or] at plain
    refine ⟨by omega, ?_⟩
    simp only [endsQuery, List.contains_eq_mem, decide_eq_false_iff_not, List.mem_cons,
      List.not_mem_nil, or_false]
    omega
  · rw [List.mem_singleton.1 equals, endsQuery, code_equals]
    decide

theorem findIdx_name (v : List α) :
    (x.name ++ V.ofCode 61 :: v).findIdx (fun c => V.code c == 61) = x.name.length := by
  refine findIdx_append_cons ?_ (beq_iff_eq.2 code_equals)
  intro c mem
  have plain := V.name_plain x.name x.named c mem
  refine beq_eq_false_iff_ne.2 fun equals => plain ?_
  rw [equals]
  decide

/-- The open parameter as a pair. -/
theorem pairCut_name (v : List α) :
    V.pairCut (x.front.length + 1 + x.before.length) (x.name ++ V.ofCode 61 :: v) =
      if v = [] then [] else [x.cut v] := by
  have length : (x.name ++ V.ofCode 61 :: v).length = x.name.length + 1 + v.length := by
    rw [List.length_append, List.length_cons]
    omega
  have name : (x.name ++ V.ofCode 61 :: v).take x.name.length = x.name := List.take_left
  rw [pairCut, findIdx_name, name, length]
  by_cases empty : v = []
  · rw [if_pos empty, empty, List.length_nil]
    exact if_neg fun both => Nat.lt_irrefl _ both.1
  · have some_ := List.length_pos_iff.2 empty
    have holds : x.name.length + 1 < x.name.length + 1 + v.length ∧
        V.isCredentialParam x.name = true := ⟨by omega, x.named⟩
    rw [if_neg empty, if_pos holds, cut, length_pre]
    simp only [Nat.add_assoc]

theorem queryCuts_nil (p : ℕ) : V.queryCuts p [] = [] := rfl

theorem queryCuts_before (t : List α) :
    V.queryCuts (x.front.length + 1) (x.before ++ t) =
      x.early ++ V.queryCuts (x.front.length + 1 + x.before.length) t := by
  rw [early]
  rcases x.before_ends with empty | ⟨xs, ends⟩
  · rw [empty]
    rfl
  · rw [ends, List.append_assoc, List.singleton_append, queryCuts_append_cons code_amp,
      queryCuts_append_cons code_amp, queryCuts_nil, List.append_nil, List.length_append]
    rfl

/-- The parameters after the open one are cut as those of `t` are. -/
theorem queryCuts_after {s : List α} {p : ℕ} (plain : ∀ c ∈ s, V.code c ≠ 38)
    (starts : ∀ c, t.head? = some c → V.code c = 38 ∨ V.endsQuery c = true) :
    V.queryCuts p (s ++ V.queryOf t) =
      V.pairCut p s ++ (V.queryCuts 0 (V.queryOf t)).map (Cut.shift (p + s.length)) := by
  cases query : V.queryOf t with
  | nil =>
      rw [List.append_nil, queryCuts_single plain, queryCuts_nil, List.map_nil, List.append_nil]
  | cons a rest =>
      have head : t.head? = some a ∧ V.endsQuery a = false := by
        cases t with
        | nil => exact absurd query (List.cons_ne_nil _ _).symm
        | cons b t =>
            rw [queryOf, List.takeWhile_cons] at query
            split at query
            · rename_i inside
              cases query
              rw [Bool.not_eq_true'] at inside
              exact ⟨rfl, inside⟩
            · contradiction
      have here : V.code a = 38 := (starts a head.1).resolve_right fun ends =>
        Bool.false_ne_true (head.2.symm.trans ends)
      have own : V.queryCuts 0 ([] ++ a :: rest) = V.queryCuts 0 [] ++ V.queryCuts 1 rest :=
        queryCuts_append_cons here
      rw [List.nil_append, queryCuts_nil, List.nil_append] at own
      rw [queryCuts_append_cons here, queryCuts_single plain, own, ← queryCuts_shift]

/-- The parameters of a text with something filled in, even if that is nothing. -/
theorem credentialParamCuts_append (plain : ∀ c ∈ v, V.code c ≠ 38 ∧ V.endsQuery c = false)
    (starts : ∀ c, t.head? = some c → V.code c = 38 ∨ V.endsQuery c = true) :
    V.credentialParamCuts (x.pre ++ (v ++ t)) =
      x.early ++ ((if v = [] then [] else [x.cut v]) ++
        (V.queryCuts 0 (V.queryOf t)).map (Cut.shift (x.pre.length + v.length))) := by
  have text : x.pre ++ (v ++ t) = x.front ++ V.ofCode 63 ::
      (x.before ++ ((x.name ++ [V.ofCode 61]) ++ (v ++ t))) := by
    simp only [pre, List.append_assoc, List.cons_append]
  have question : (x.front ++ V.ofCode 63 ::
      (x.before ++ ((x.name ++ [V.ofCode 61]) ++ (v ++ t)))).findIdx? (fun c => V.code c == 63) =
        some x.front.length :=
    findIdx?_append_cons (fun c mem => beq_eq_false_iff_ne.2 (x.front_plain c mem))
      (beq_iff_eq.2 code_question)
  have rest : (x.front ++ V.ofCode 63 ::
      (x.before ++ ((x.name ++ [V.ofCode 61]) ++ (v ++ t)))).drop (x.front.length + 1) =
        x.before ++ ((x.name ++ [V.ofCode 61]) ++ (v ++ t)) := by
    rw [← List.drop_drop, List.drop_left]
    rfl
  have query : V.queryOf (x.before ++ ((x.name ++ [V.ofCode 61]) ++ (v ++ t))) =
      x.before ++ ((x.name ++ V.ofCode 61 :: v) ++ V.queryOf t) := by
    have not_ : ∀ {c : α}, V.endsQuery c = false → (!V.endsQuery c) = true := fun inside => by
      rw [inside]
      rfl
    rw [queryOf, List.takeWhile_append_of_pos fun c mem => not_ (x.before_inside c mem),
      List.takeWhile_append_of_pos fun c mem => not_ (name_inside x c mem).2,
      List.takeWhile_append_of_pos fun c mem => not_ (plain c mem).2]
    simp only [List.append_assoc, List.cons_append, List.nil_append]
    rfl
  have plainPair : ∀ c ∈ x.name ++ V.ofCode 61 :: v, V.code c ≠ 38 := by
    intro c mem
    have among : c ∈ (x.name ++ [V.ofCode 61]) ++ v := by
      rw [List.append_assoc]
      exact mem
    rcases List.mem_append.1 among with named | value
    · exact (name_inside x c named).1
    · exact (plain c value).1
  have length : x.front.length + 1 + x.before.length + (x.name ++ V.ofCode 61 :: v).length =
      x.pre.length + v.length := by
    rw [length_pre, List.length_append, List.length_cons]
    omega
  rw [text, credentialParamCuts, question]
  simp only [rest, query]
  rw [queryCuts_before, queryCuts_after plainPair starts, pairCut_name, length]

/-! ## What a place is redacted to -/

theorem queryCuts_queryOf_isValue (mem : c ∈ x.later) : IsValue V 0 (V.queryOf (x.after.drop 0)) c :=
  isValue_of_mem mem

theorem early_bounds (mem : c ∈ x.early) :
    c.start ≤ x.pre.length ∧ c.stop ≤ x.pre.length ∧ c.start < x.pre.length := by
  have bounds := (isValue_of_mem mem).bounds
  have length := length_pre (x := x)
  omega

theorem credentialParamCuts_fill (value : Value V v) :
    V.credentialParamCuts (x.fill v) =
      x.early ++ x.cut v :: x.later.map (Cut.shift (x.pre.length + v.length)) := by
  rw [fill, credentialParamCuts_append value.plain x.after_starts, if_neg value.ne_nil]
  rfl

theorem apart_fill (value : Value V v) :
    Cut.Apart (x.early ++ x.cut v :: x.later.map (Cut.shift (x.pre.length + v.length))) := by
  rw [← credentialParamCuts_fill value]
  exact apart_credentialParamCuts _

theorem redact_fill (value : Value V v) :
    V.redact (x.fill v) = Cut.apply (x.fill v) 0 (V.sorted (V.userinfoCuts (x.fill v) ++
      (x.early ++ x.cut v :: x.later.map (Cut.shift (x.pre.length + v.length))))) := by
  rw [redact_eq, credentialParamCuts_fill value]

/-- Where the value is cut out, it is gone. -/
theorem apply_fill {cs ds : List (Cut α)} (v : List α)
    (inside : ∀ c ∈ cs, c.start ≤ x.pre.length ∧ c.stop ≤ x.pre.length) :
    Cut.apply (x.fill v) 0
        (cs ++ x.cut v :: ds.map (Cut.shift (x.pre.length + v.length))) =
      Cut.apply x.pre 0 cs ++ (V.param ++ Cut.apply x.after 0 ds) := by
  have behind : ∀ d ∈ x.cut v :: ds.map (Cut.shift (x.pre.length + v.length)),
      x.pre.length ≤ d.start := by
    refine List.forall_mem_cons.2 ⟨le_rfl, ?_⟩
    intro d mem
    obtain ⟨c, _, rfl⟩ := List.mem_map.1 mem
    exact (Nat.le_add_right _ _).trans (Nat.le_add_right _ _)
  have first : (x.fill v).take x.pre.length = x.pre := List.take_left
  have stop : (x.cut v).stop = (x.pre ++ v).length + 0 := List.length_append.symm
  have text : x.fill v = (x.pre ++ v) ++ x.after := (List.append_assoc _ _ _).symm
  have length : x.pre.length + v.length = (x.pre ++ v).length := List.length_append.symm
  have start : (x.cut v).start - x.pre.length = 0 := Nat.sub_self _
  have here : x.pre.length ≤ (x.cut v).start := le_rfl
  rw [Cut.apply_append (Nat.zero_le _) inside behind, first, Cut.apply_cut here, start,
    List.take_zero, List.nil_append, stop, text, length, Cut.apply_shift]
  rfl

theorem early_inside (x : Place V) :
    ∀ c ∈ x.early, c.start ≤ x.pre.length ∧ c.stop ≤ x.pre.length := fun _ mem =>
  ⟨(early_bounds mem).1, (early_bounds mem).2.1⟩

/-- The text around the value, each side redacted by its parameters alone. -/
def around (x : Place V) : List α :=
  Cut.apply x.pre 0 x.early ++ (V.param ++ Cut.apply x.after 0 x.later)

theorem apply_params (x : Place V) (v : List α) :
    Cut.apply (x.fill v) 0
        (x.early ++ x.cut v :: x.later.map (Cut.shift (x.pre.length + v.length))) = x.around :=
  apply_fill v (early_inside x)

theorem redact_fill_of_nil (value : Value V v) (none_ : V.userinfoCuts (x.fill v) = []) :
    V.redact (x.fill v) = x.around := by
  rw [redact_fill value, none_, List.nil_append, sorted_of_apart (apart_fill value),
    apply_params]

theorem start_ne_fill {scheme : ℕ} (value : Value V v)
    (found : V.schemeAt (x.fill v) = some scheme) :
    ∀ c ∈ x.early ++ x.cut v :: x.later.map (Cut.shift (x.pre.length + v.length)),
      c.start ≠ scheme + 3 := by
  intro c mem
  rw [← credentialParamCuts_fill value] at mem
  obtain ⟨p, lies⟩ := isValue_of_mem_credentialParamCuts mem
  exact start_ne lies found

/-- A userinfo in the value of a credential parameter is gone with the value. -/
theorem redact_fill_of_swallowed {scheme : ℕ} (value : Value V v)
    (found : V.schemeAt (x.fill v) = some scheme)
    (mem : c ∈ x.early ++ x.cut v :: x.later.map (Cut.shift (x.pre.length + v.length)))
    (inside : c.start < scheme + 3 ∧ scheme + 3 < c.stop) :
    V.redact (x.fill v) = x.around := by
  rcases userinfoCuts_cases (V := V) (x.fill v) with none_ | ⟨scheme', at', found', _, cuts⟩
  · exact redact_fill_of_nil value none_
  · cases Option.some.inj (found.symm.trans found')
    rw [redact_fill value, cuts, List.singleton_append,
      apply_sorted_swallowed (apart_fill value) (start_ne_fill value found) mem inside,
      apply_params]

/-! ## A `://` before the parameter -/

theorem drop_fill {n : ℕ} (inside : n ≤ x.pre.length) (v : List α) :
    (x.fill v).drop n = x.pre.drop n ++ (v ++ x.after) := by
  rw [fill, List.drop_append_of_le_length inside]

/-- An authority that ends before the parameter is the same whatever is filled in. -/
theorem redact_fill_of_closed {scheme : ℕ} (value : Value V v)
    (found : V.schemeAt x.pre = some scheme)
    (closed : ∃ c ∈ x.pre.drop (scheme + 3), V.endsAuthority c = true) :
    V.redact (x.fill v) =
      Cut.apply x.pre 0 (V.sorted (V.userinfoCuts x.pre ++ x.early)) ++
        (V.param ++ Cut.apply x.after 0 x.later) := by
  have long := scheme_lt_length found
  have found' : V.schemeAt (x.fill v) = some scheme := schemeAt_append_of_some found
  have authority : V.authorityOf ((x.fill v).drop (scheme + 3)) =
      V.authorityOf (x.pre.drop (scheme + 3)) := by
    rw [drop_fill long]
    exact authorityOf_append_of_ends closed
  have cuts : V.userinfoCuts (x.fill v) = V.userinfoCuts x.pre := by
    rw [userinfoCuts, userinfoCuts, found, found']
    simp only [authority]
  rw [redact_fill value, cuts]
  rcases userinfoCuts_cases (V := V) x.pre with none_ | ⟨scheme', at', again, last, one⟩
  · have apart : Cut.Apart x.early := apart_queryCuts _
    rw [none_, List.nil_append, List.nil_append, sorted_of_apart (apart_fill value),
      sorted_of_apart apart, apply_params]
    rfl
  · cases Option.some.inj (found.symm.trans again)
    have short : at' < (x.pre.drop (scheme + 3)).length :=
      (lastAt_lt_length last).trans_le (List.takeWhile_prefix _).length_le
    rw [List.length_drop] at short
    have behind : ∀ d ∈ x.cut v :: x.later.map (Cut.shift (x.pre.length + v.length)),
        scheme + 3 ≤ d.start := by
      refine List.forall_mem_cons.2 ⟨long, ?_⟩
      intro d mem
      obtain ⟨c, _, rfl⟩ := List.mem_map.1 mem
      exact (long.trans (Nat.le_add_right _ _)).trans (Nat.le_add_right _ _)
    rw [one, List.singleton_append, List.singleton_append,
      sorted_append (apart_fill value) (start_ne_fill value found') behind, apply_fill]
    intro c mem
    rcases List.mem_cons.1 ((List.mem_insertionSort _).1 mem) with rfl | among
    · exact ⟨long, by simp only; omega⟩
    · exact early_inside x c among

/-! ## No `://` before the parameter -/

/-- A `=` is the last character before a value, so no `://` reaches into it. -/
theorem schemeAt_fill (none_ : V.schemeAt x.pre = none) (v : List α) :
    V.schemeAt (x.fill v) = (V.schemeAt (v ++ x.after)).map (x.pre.length + ·) := by
  refine schemeAt_append_of_none none_ (.inr ?_)
  intro c last
  have ends : x.pre.getLast? = some (V.ofCode 61) := by
    have parts : x.pre = (x.front ++ V.ofCode 63 :: (x.before ++ x.name)) ++ [V.ofCode 61] := by
      simp only [pre, List.append_assoc, List.cons_append]
    rw [parts, List.getLast?_concat]
  rw [ends] at last
  cases last
  rw [code_equals]
  decide

theorem code_endsQuery {c : α} (ends : V.code c = 38 ∨ V.endsQuery c = true) :
    V.code c ≠ 47 := by
  intro slash
  rcases ends with amp | blank
  · rw [slash] at amp
    contradiction
  · rw [endsQuery, slash] at blank
    contradiction

theorem schemeAt_value (plain : V.schemeAt v = none) :
    V.schemeAt (v ++ x.after) = (V.schemeAt x.after).map (v.length + ·) :=
  schemeAt_append_of_none plain (.inl fun c head => code_endsQuery (x.after_starts c head))

theorem userinfoCuts_fill (none_ : V.schemeAt x.pre = none) (plain : V.schemeAt v = none) :
    V.userinfoCuts (x.fill v) =
      (V.userinfoCuts x.after).map (Cut.shift (x.pre.length + v.length)) := by
  have cuts := userinfoCuts_append (schemeAt_value (x := x) plain)
  rw [fill, userinfoCuts_append (schemeAt_fill none_ v), cuts, List.map_map]
  congr 1
  funext c
  simp only [Function.comp_apply, Cut.shift, Nat.add_assoc]

/-- A userinfo behind the value is cut where it is cut in what follows the parameter. -/
theorem redact_fill_of_behind (value : Value V v) {u : Cut α}
    (cuts : V.userinfoCuts (x.fill v) = [u.shift (x.pre.length + v.length)])
    (differs : ∀ c ∈ x.later, c.start ≠ u.start) :
    V.redact (x.fill v) = Cut.apply x.pre 0 x.early ++
      (V.param ++ Cut.apply x.after 0 (V.sorted (u :: x.later))) := by
  have positive := List.length_pos_iff.2 value.ne_nil
  have start : (u.shift (x.pre.length + v.length)).start = x.pre.length + v.length + u.start := rfl
  have parts : x.early ++ x.cut v :: x.later.map (Cut.shift (x.pre.length + v.length)) =
      (x.early ++ [x.cut v]) ++ x.later.map (Cut.shift (x.pre.length + v.length)) := by
    rw [List.append_assoc]
    rfl
  have apart := apart_fill (x := x) value
  rw [parts] at apart
  have first : ∀ c ∈ x.early ++ [x.cut v], c.start < x.pre.length + v.length := by
    intro c mem
    rcases List.mem_append.1 mem with among | only
    · have bound := (early_bounds among).2.2
      omega
    · rw [List.mem_singleton.1 only, cut]
      simp only
      omega
  have first' : ∀ c ∈ x.early ++ [x.cut v], c.start < (u.shift (x.pre.length + v.length)).start :=
    fun c mem => (first c mem).trans_le (Nat.le_add_right _ _)
  have new : ∀ c ∈ (x.early ++ [x.cut v]) ++ x.later.map (Cut.shift (x.pre.length + v.length)),
      c.start ≠ (u.shift (x.pre.length + v.length)).start := by
    intro c mem
    rcases List.mem_append.1 mem with before | behind
    · exact (first' c before).ne
    · obtain ⟨d, among, rfl⟩ := List.mem_map.1 behind
      exact fun same => differs d among (Nat.add_left_cancel same)
  have swap : u.shift (x.pre.length + v.length) ::
      x.later.map (Cut.shift (x.pre.length + v.length)) =
        (u :: x.later).map (Cut.shift (x.pre.length + v.length)) := rfl
  rw [redact_fill value, cuts, List.singleton_append, parts, sorted_cons_append apart new first',
    swap, sorted_shift, List.append_assoc, List.singleton_append, apply_fill v (early_inside x)]

/-- A value with no `://` in it: what follows is redacted as it would be alone. -/
theorem redact_fill_of_plain (none_ : V.schemeAt x.pre = none) (value : Value V v)
    (plain : V.schemeAt v = none) :
    V.redact (x.fill v) = Cut.apply x.pre 0 x.early ++
      (V.param ++ Cut.apply x.after 0 (V.sorted (V.userinfoCuts x.after ++ x.later))) := by
  have cuts := userinfoCuts_fill none_ plain
  rcases userinfoCuts_cases (V := V) x.after with own | ⟨scheme, at', found, _, own⟩
  · have apart : Cut.Apart x.later := apart_queryCuts _
    rw [own] at cuts ⊢
    rw [redact_fill_of_nil value cuts, List.nil_append, sorted_of_apart apart, around]
  · rw [own] at cuts ⊢
    exact redact_fill_of_behind value cuts fun c mem =>
      start_ne (queryCuts_queryOf_isValue mem) found

/-- A value with a `://` in it: the first authority of the text starts in the value, and
only one that starts at its very end can reach past it. -/
theorem redact_fill_of_scheme (none_ : V.schemeAt x.pre = none) (value : Value V v)
    {scheme : ℕ} (found : V.schemeAt v = some scheme)
    (quiet : scheme + 3 = v.length → ∀ c ∈ V.authorityOf x.after, V.code c ≠ 64) :
    V.redact (x.fill v) = x.around := by
  have found' : V.schemeAt (x.fill v) = some (x.pre.length + scheme) := by
    rw [schemeAt_fill none_, schemeAt_append_of_some found]
    rfl
  rcases Nat.lt_or_ge (scheme + 3) v.length with inside | reaches
  · refine redact_fill_of_swallowed value found'
      (List.mem_append_right _ List.mem_cons_self) ?_
    rw [cut]
    simp only
    omega
  · have ends : scheme + 3 = v.length := Nat.le_antisymm (scheme_lt_length found) reaches
    have rest : (x.fill v).drop (x.pre.length + scheme + 3) = x.after := by
      rw [Nat.add_assoc, ends, fill, ← List.drop_drop, List.drop_left, List.drop_left]
    refine redact_fill_of_nil value ?_
    rw [userinfoCuts, found']
    simp only [rest, lastAt_eq_none (quiet ends)]

/-! ## A userinfo after the parameter -/

section After

variable {u : Cut α} {scheme k i : ℕ}

theorem isValue_of_mem_later (mem : c ∈ x.later) : IsValue V 0 (V.queryOf x.after) c :=
  isValue_of_mem mem

theorem prefix_queryOf (s : List α) : V.queryOf s <+: s := List.takeWhile_prefix _

/-- No `&` is in a value. -/
theorem code_value (mem : c ∈ x.later) (low : c.start ≤ i) (high : i < c.stop) {d : α}
    (at' : x.after[i]? = some d) : V.code d ≠ 38 := by
  obtain ⟨⟨xs, name, e, v, ys, parts, _, _, _, plain, _, start, stop⟩, _⟩ :=
    isValue_of_mem_later mem
  obtain ⟨tail, whole⟩ := prefix_queryOf (V := V) x.after
  have text : x.after = (xs ++ (name ++ [e])) ++ (v ++ (ys ++ tail)) := by
    rw [← whole, parts]
    simp only [List.append_assoc, List.cons_append, List.nil_append]
  have length : (xs ++ (name ++ [e])).length = c.start := by
    simp only [List.length_append, List.length_cons, List.length_nil]
    omega
  rw [text, List.getElem?_append_right (length.le.trans low), length,
    List.getElem?_append_left (by omega)] at at'
  exact plain d (List.mem_of_getElem? at')

/-- Between a `://` and a later value stands the `&` of its pair. -/
theorem exists_amp (mem : c ∈ x.later) (found : V.schemeAt x.after = some scheme)
    (later : scheme + 3 < c.start) :
    ∃ j d, scheme + 3 ≤ j ∧ j < c.start ∧ x.after[j]? = some d ∧ V.code d = 38 := by
  obtain ⟨⟨xs, name, e, v, ys, parts, equals, named, _, _, first, start, _⟩, _⟩ :=
    isValue_of_mem_later mem
  obtain ⟨tail, whole⟩ := prefix_queryOf (V := V) x.after
  have slash := code_before_authority found
  have text : x.after = xs ++ ((name ++ [e]) ++ (v ++ (ys ++ tail))) := by
    rw [← whole, parts]
    simp only [List.append_assoc, List.cons_append, List.nil_append]
  have before : scheme + 2 < xs.length := by
    by_contra behind
    rw [text, List.getElem?_append_right (Nat.not_lt.1 behind), List.getElem?_append_left (by
      simp only [List.length_append, List.length_cons, List.length_nil]
      omega)] at slash
    obtain ⟨d, at', code⟩ := Option.map_eq_some_iff.1 slash
    rcases List.mem_append.1 (List.mem_of_getElem? at') with among | only
    · refine V.name_plain name named d among ?_
      rw [code]
      decide
    · rw [List.mem_singleton.1 only, equals] at code
      contradiction
  rcases first with rfl | ⟨xs', a, rfl, amp⟩
  · exact absurd before (Nat.not_lt_zero _)
  · rw [List.length_append, List.length_singleton] at before start
    have here : x.after[xs'.length]? = some a := by
      rw [text, List.append_assoc, List.getElem?_append_right le_rfl, Nat.sub_self]
      rfl
    have differs : scheme + 2 ≠ xs'.length := by
      intro same
      rw [same, here, Option.map_some, amp] at slash
      contradiction
    exact ⟨xs'.length, a, by omega, by omega, here, amp⟩

theorem start_ne_later (found : V.schemeAt x.after = some scheme) :
    ∀ c ∈ x.later, c.start ≠ scheme + 3 := fun _ mem =>
  start_ne (queryCuts_queryOf_isValue mem) found

theorem apart_later (x : Place V) : Cut.Apart x.later := apart_queryCuts _

theorem below_inside {n : ℕ} (alone : ∀ c ∈ x.later, ¬ (c.start < n ∧ n < c.stop)) :
    ∀ c ∈ Cut.below n x.later, c.start ≤ n ∧ c.stop ≤ n := by
  intro c mem
  obtain ⟨among, less⟩ := Cut.mem_below.1 mem
  exact ⟨less.le, Nat.not_lt.1 fun more => alone c among ⟨less, more⟩⟩

theorem apply_later {n : ℕ} (alone : ∀ c ∈ x.later, ¬ (c.start < n ∧ n < c.stop)) :
    Cut.apply x.after 0 x.later = Cut.apply (x.after.take n) 0 (Cut.below n x.later) ++
      Cut.apply x.after n (Cut.above n x.later) := by
  have parts := (apart_later x).below_append_above n
  have behind : ∀ d ∈ Cut.above n x.later, n ≤ d.start := fun d mem => (Cut.mem_above.1 mem).2
  have split_ := Cut.apply_append (s := x.after) (Nat.zero_le n) (below_inside alone) behind
  rw [parts] at split_
  exact split_

theorem apply_userinfo (found : V.schemeAt x.after = some scheme) {stop : ℕ}
    (alone : ∀ c ∈ x.later, ¬ (c.start < scheme + 3 ∧ scheme + 3 < c.stop)) :
    Cut.apply x.after 0 (V.sorted (⟨scheme + 3, stop, V.userinfo⟩ :: x.later)) =
      Cut.apply (x.after.take (scheme + 3)) 0 (Cut.below (scheme + 3) x.later) ++
        (V.userinfo ++ Cut.apply x.after stop (Cut.above (scheme + 3) x.later)) := by
  have behind : ∀ d ∈ ⟨scheme + 3, stop, V.userinfo⟩ :: Cut.above (scheme + 3) x.later,
      scheme + 3 ≤ d.start :=
    List.forall_mem_cons.2 ⟨le_rfl, fun d mem => (Cut.mem_above.1 mem).2⟩
  have cut : Cut.apply x.after (scheme + 3)
      (⟨scheme + 3, stop, V.userinfo⟩ :: Cut.above (scheme + 3) x.later) =
        (x.after.drop (scheme + 3)).take (scheme + 3 - (scheme + 3)) ++ V.userinfo ++
          Cut.apply x.after stop (Cut.above (scheme + 3) x.later) := Cut.apply_cut le_rfl
  rw [Nat.sub_self, List.take_zero, List.nil_append] at cut
  rw [sorted_cons (apart_later x) (start_ne_later found),
    Cut.apply_append (Nat.zero_le _) (below_inside alone) behind, cut]

/-- In a userinfo that is the placeholder already no value starts. -/
theorem stop_le_of_placeholder (found : V.schemeAt x.after = some scheme)
    (same : (x.after.drop (scheme + 3)).take k = V.userinfo) :
    ∀ c ∈ Cut.above (scheme + 3) x.later, scheme + 3 + k ≤ c.start := by
  intro c mem
  obtain ⟨among, more⟩ := Cut.mem_above.1 mem
  by_contra less
  have differs := start_ne_later found c among
  have equals := code_before_value (queryCuts_queryOf_isValue among)
  obtain ⟨d, at', code⟩ := Option.map_eq_some_iff.1 equals
  have inside : ((x.after.drop (scheme + 3)).take k)[c.start - 1 - (scheme + 3)]? = some d := by
    have index : scheme + 3 + (c.start - 1 - (scheme + 3)) = c.start - 1 := by omega
    rw [List.getElem?_take_of_lt (by omega), List.getElem?_drop, index, at']
  rw [same] at inside
  exact (V.userinfo_plain d (List.mem_of_getElem? inside)).2 code

/-- Some cuts of a list of cuts end where the last one does. -/
theorem exists_last {cs : List (Cut α)} (apart : Cut.Apart cs) (mem : c ∈ cs) :
    ∃ last ∈ cs, ∀ d ∈ cs, d.stop ≤ last.stop := by
  rcases List.eq_nil_or_concat cs with rfl | ⟨init, last, rfl⟩
  · exact absurd mem List.not_mem_nil
  · rw [List.concat_eq_append] at apart ⊢
    refine ⟨last, List.mem_append_right _ List.mem_cons_self, ?_⟩
    intro d among
    rcases List.mem_append.1 among with first | only
    · have less := (List.pairwise_append.1 apart.2).2.2 d first last List.mem_cons_self
      exact less.le.trans (apart.1 last (List.mem_append_right _ List.mem_cons_self))
    · rw [List.mem_singleton.1 only]

/-- A userinfo that takes in the `&` of a pair: its placeholder does not say so. -/
theorem userinfo_ne_of_amp (found : V.schemeAt x.after = some scheme)
    (mem : c ∈ Cut.above (scheme + 3) x.later) (inside : c.start < scheme + 3 + k) :
    V.userinfo ++ Cut.apply x.after (scheme + 3 + k) (Cut.above (scheme + 3) x.later) ≠
      Cut.apply x.after (scheme + 3) (Cut.above (scheme + 3) x.later) := by
  intro same
  have apart : Cut.Apart (Cut.above (scheme + 3) x.later) := (apart_later x).above _
  have parts := apart.below_append_above (scheme + 3 + k)
  have low : ∀ d ∈ Cut.below (scheme + 3 + k) (Cut.above (scheme + 3) x.later),
      d ∈ x.later ∧ scheme + 3 < d.start ∧ d.start < scheme + 3 + k := by
    intro d among
    obtain ⟨above_, less⟩ := Cut.mem_below.1 among
    obtain ⟨later, more⟩ := Cut.mem_above.1 above_
    exact ⟨later, Nat.lt_of_le_of_ne more (start_ne_later found d later).symm, less⟩
  have apartLow : Cut.Apart (Cut.below (scheme + 3 + k) (Cut.above (scheme + 3) x.later)) := by
    rw [← parts] at apart
    exact ⟨fun d among => apart.1 d (List.mem_append_left _ among),
      (List.pairwise_append.1 apart.2).1⟩
  obtain ⟨last, among, most⟩ := exists_last apartLow (Cut.mem_below.2 ⟨mem, inside⟩)
  have between : ∀ d ∈ Cut.above (scheme + 3 + k) (Cut.above (scheme + 3) x.later),
      max (scheme + 3 + k) last.stop ≤ d.start := by
    intro d high
    rw [← parts] at apart
    have less := (List.pairwise_append.1 apart.2).2.2 last among d high
    exact max_le (Cut.mem_above.1 high).2 less.le
  have ends : ∀ d ∈ Cut.below (scheme + 3 + k) (Cut.above (scheme + 3) x.later),
      d.start ≤ max (scheme + 3 + k) last.stop ∧ d.stop ≤ max (scheme + 3 + k) last.stop :=
    fun d among => ⟨(low d among).2.2.le.trans (le_max_left _ _),
      (most d among).trans (le_max_right _ _)⟩
  rw [← parts, Cut.apply_skips fun d among => (low d among).2.2,
    Cut.apply_append ((Nat.le_add_right _ _).trans (le_max_left _ _)) ends between,
    Cut.apply_from (le_max_left (scheme + 3 + k) last.stop) between, ← List.append_assoc] at same
  have kept := List.append_cancel_right same
  obtain ⟨lastLater, _, lastLess⟩ := low last among
  obtain ⟨first, rest, listed⟩ := List.exists_cons_of_ne_nil (List.ne_nil_of_mem among)
  rw [listed] at kept low ends
  obtain ⟨later, more, less⟩ := low first List.mem_cons_self
  obtain ⟨j, d, from_, before, at', amp⟩ := exists_amp later found more
  have memRight : d ∈ Cut.apply (x.after.take (max (scheme + 3 + k) last.stop)) (scheme + 3)
      (first :: rest) := by
    have index : scheme + 3 + (j - (scheme + 3)) = j := by omega
    have bound := (ends first List.mem_cons_self).1
    rw [Cut.apply_cut more.le]
    refine List.mem_append_left _ (List.mem_append_left _ ?_)
    refine List.mem_of_getElem? (i := j - (scheme + 3)) ?_
    rw [List.getElem?_take_of_lt (by omega), List.getElem?_drop, index,
      List.getElem?_take_of_lt (by omega), at']
  rw [← kept] at memRight
  rcases List.mem_append.1 memRight with placeholder | behind
  · exact (V.userinfo_plain d placeholder).1 amp
  · obtain ⟨i, found'⟩ := List.getElem?_of_mem behind
    have short : i < max (scheme + 3 + k) last.stop - (scheme + 3 + k) := by
      by_contra long
      rw [List.getElem?_take_eq_none (Nat.not_lt.1 long)] at found'
      contradiction
    rw [List.getElem?_take_of_lt short, List.getElem?_drop] at found'
    exact code_value lastLater (by omega) (by omega) found' amp

/-- A userinfo after the parameter makes no difference exactly where it is in the value of a
credential parameter or is the placeholder already. -/
theorem apply_userinfo_iff (found : V.schemeAt x.after = some scheme) :
    Cut.apply x.after 0 (V.sorted (⟨scheme + 3, scheme + 3 + k, V.userinfo⟩ :: x.later)) =
        Cut.apply x.after 0 x.later ↔
      (∃ c ∈ x.later, c.start < scheme + 3 ∧ scheme + 3 < c.stop) ∨
        (x.after.drop (scheme + 3)).take k = V.userinfo := by
  by_cases swallowed : ∃ c ∈ x.later, c.start < scheme + 3 ∧ scheme + 3 < c.stop
  · obtain ⟨c, mem, inside⟩ := swallowed
    have same := apply_sorted_swallowed (V := V) (s := x.after)
      (u := ⟨scheme + 3, scheme + 3 + k, V.userinfo⟩) (apart_later x) (start_ne_later found) mem
      inside
    exact iff_of_true same (.inl ⟨c, mem, inside⟩)
  · have alone : ∀ c ∈ x.later, ¬ (c.start < scheme + 3 ∧ scheme + 3 < c.stop) :=
      fun c mem inside => swallowed ⟨c, mem, inside⟩
    have kept : ∀ high : ∀ c ∈ Cut.above (scheme + 3) x.later, scheme + 3 + k ≤ c.start,
        Cut.apply x.after (scheme + 3) (Cut.above (scheme + 3) x.later) =
          (x.after.drop (scheme + 3)).take k ++
            Cut.apply x.after (scheme + 3 + k) (Cut.above (scheme + 3) x.later) := by
      intro high
      have from_ := Cut.apply_from (s := x.after) (Nat.le_add_right (scheme + 3) k) high
      rw [Nat.add_sub_cancel_left] at from_
      exact from_
    rw [apply_userinfo found alone, apply_later alone, List.append_cancel_left_eq]
    constructor
    · intro same
      by_cases high : ∀ c ∈ Cut.above (scheme + 3) x.later, scheme + 3 + k ≤ c.start
      · rw [kept high] at same
        exact .inr (List.append_cancel_right same).symm
      · obtain ⟨c, more⟩ := not_forall.1 high
        obtain ⟨mem, inside⟩ := Classical.not_imp.1 more
        exact absurd same (userinfo_ne_of_amp found mem (Nat.not_le.1 inside))
    · rintro (inside | placeholder)
      · exact absurd inside swallowed
      · rw [kept (stop_le_of_placeholder found placeholder), placeholder]

end After

/-! ## Quiet places -/

theorem value_of_codes {ns : List ℕ} (some_ : ns ≠ [])
    (plain : ∀ n ∈ ns, n < 128 ∧ n ∉ [38, 35, 32, 9, 13, 10]) : Value V (ns.map V.ofCode) := by
  refine ⟨fun none_ => some_ (List.map_eq_nil_iff.1 none_), ?_⟩
  intro c mem
  obtain ⟨n, among, rfl⟩ := List.mem_map.1 mem
  obtain ⟨low, not_⟩ := plain n among
  simp only [List.mem_cons, List.not_mem_nil, or_false, not_or] at not_
  rw [endsQuery, V.code_ofCode n low]
  refine ⟨not_.1, ?_⟩
  simp only [List.contains_eq_mem, decide_eq_false_iff_not, List.mem_cons, List.not_mem_nil,
    or_false]
  omega

/-- In a quiet place every value is redacted to the same text. -/
theorem exists_redact_of_quiet (quiet : x.Quiet) :
    ∃ r, ∀ v, Value V v → V.redact (x.fill v) = r := by
  rw [Quiet] at quiet
  cases found : V.schemeAt x.pre with
  | some scheme =>
      rw [found] at quiet
      rcases quiet with closed | ⟨c, mem, inside⟩
      · exact ⟨_, fun v value => redact_fill_of_closed value found closed⟩
      · exact ⟨x.around, fun v value => redact_fill_of_swallowed value
          (schemeAt_append_of_some found) (List.mem_append_left _ mem) inside⟩
  | none =>
      rw [found] at quiet
      obtain ⟨next, userinfo⟩ := quiet
      refine ⟨x.around, ?_⟩
      intro v value
      cases own : V.schemeAt v with
      | some scheme => exact redact_fill_of_scheme found value own fun _ => next
      | none =>
          rw [redact_fill_of_plain found value own, around]
          congr 2
          rcases userinfoCuts_cases (V := V) x.after with none_ | ⟨scheme, k, found', _, one⟩
          · rw [none_, List.nil_append, sorted_of_apart (apart_later x)]
          · have either := userinfo ⟨scheme + 3, scheme + 3 + k, V.userinfo⟩ (by
              rw [one]
              exact List.mem_cons_self)
            simp only [Nat.add_sub_cancel_left] at either
            rw [one, List.singleton_append]
            exact (apply_userinfo_iff found').2 either

/-- A text that an authority runs into after the parameter starts with the `&` of the next
pair, and keeps it. -/
theorem exists_amp_first (some_ : V.authorityOf x.after ≠ []) :
    ∃ d rest, Cut.apply x.after 0 (V.sorted (V.userinfoCuts x.after ++ x.later)) = d :: rest ∧
      V.code d = 38 := by
  cases text : x.after with
  | nil =>
      rw [text] at some_
      exact absurd rfl some_
  | cons d rest =>
      have inside : V.endsAuthority d = false := by
        by_contra ends
        rw [Bool.not_eq_false] at ends
        rw [text, authorityOf, List.takeWhile_cons, ends] at some_
        exact some_ rfl
      have amp : V.code d = 38 := by
        rcases x.after_starts d (by rw [text]; rfl) with amp | ends
        · exact amp
        · simp only [endsAuthority, endsQuery, List.contains_eq_mem, decide_eq_false_iff_not,
            decide_eq_true_eq, List.mem_cons, List.not_mem_nil, or_false] at inside ends
          omega
      have behind : ∀ c ∈ V.sorted (V.userinfoCuts x.after ++ x.later), 1 ≤ c.start := by
        intro c mem
        rcases List.mem_append.1 ((List.mem_insertionSort _).1 mem) with own | later
        · rcases userinfoCuts_cases (V := V) x.after with none_ | ⟨scheme, k, _, _, one⟩
          · rw [none_] at own
            exact absurd own List.not_mem_nil
          · rw [one] at own
            rw [List.mem_singleton.1 own]
            exact Nat.le_add_left 1 (scheme + 2)
        · exact (isValue_of_mem_later later).bounds.1
      have first := Cut.apply_from (s := x.after) (Nat.zero_le 1) behind
      rw [text] at first
      exact ⟨d, _, first, amp⟩

/-- A userinfo that ends in the value takes the beginning of the value with it, and leaves
the rest. -/
theorem apply_open (value : Value V v) {scheme k : ℕ} (found : V.schemeAt x.pre = some scheme)
    (alone : ¬ ∃ c ∈ x.early, c.start < scheme + 3 ∧ scheme + 3 < c.stop) (positive : 0 < k)
    (short : k ≤ v.length) :
    Cut.apply (x.fill v) 0 (V.sorted (⟨scheme + 3, x.pre.length + k, V.userinfo⟩ ::
        (x.early ++ x.cut v :: x.later.map (Cut.shift (x.pre.length + v.length))))) =
      Cut.apply (x.pre.take (scheme + 3)) 0 (Cut.below (scheme + 3) x.early) ++
        (V.userinfo ++ (v.drop k ++ Cut.apply x.after 0 x.later)) := by
  have long := scheme_lt_length found
  have inside : ∀ c ∈ Cut.below (scheme + 3) x.early,
      c.start ≤ scheme + 3 ∧ c.stop ≤ scheme + 3 := by
    intro c mem
    obtain ⟨among, less⟩ := Cut.mem_below.1 mem
    exact ⟨less.le, Nat.not_lt.1 fun more => alone ⟨c, among, less, more⟩⟩
  have farther : ∀ d ∈ x.later.map (Cut.shift (x.pre.length + v.length)),
      x.pre.length + v.length ≤ d.start := by
    intro d mem
    obtain ⟨c, _, rfl⟩ := List.mem_map.1 mem
    exact Nat.le_add_right _ _
  have behind : ∀ d ∈ x.cut v :: x.later.map (Cut.shift (x.pre.length + v.length)),
      scheme + 3 ≤ d.start :=
    List.forall_mem_cons.2 ⟨long, fun d mem =>
      (long.trans (Nat.le_add_right _ _)).trans (farther d mem)⟩
  have skipped : ∀ c ∈ Cut.above (scheme + 3) x.early ++ [x.cut v],
      c.start < x.pre.length + k := by
    intro c mem
    rcases List.mem_append.1 mem with among | only
    · have bound := (early_bounds (Cut.mem_above.1 among).1).2.2
      omega
    · rw [List.mem_singleton.1 only, cut]
      simp only
      omega
  have parts : Cut.above (scheme + 3) (x.early ++
      x.cut v :: x.later.map (Cut.shift (x.pre.length + v.length))) =
        (Cut.above (scheme + 3) x.early ++ [x.cut v]) ++
          x.later.map (Cut.shift (x.pre.length + v.length)) := by
    rw [Cut.above_append, Cut.above_of_le behind, List.append_assoc]
    rfl
  have low : Cut.below (scheme + 3) (x.early ++
      x.cut v :: x.later.map (Cut.shift (x.pre.length + v.length))) =
        Cut.below (scheme + 3) x.early := by
    rw [Cut.below_append, Cut.below_of_le behind, List.append_nil]
  have high : ∀ d ∈ (⟨scheme + 3, x.pre.length + k, V.userinfo⟩ : Cut α) ::
      ((Cut.above (scheme + 3) x.early ++ [x.cut v]) ++
        x.later.map (Cut.shift (x.pre.length + v.length))), scheme + 3 ≤ d.start := by
    rw [← parts]
    exact List.forall_mem_cons.2 ⟨le_rfl, fun d mem => (Cut.mem_above.1 mem).2⟩
  have here : Cut.apply (x.fill v) (scheme + 3)
      (⟨scheme + 3, x.pre.length + k, V.userinfo⟩ ::
        ((Cut.above (scheme + 3) x.early ++ [x.cut v]) ++
          x.later.map (Cut.shift (x.pre.length + v.length)))) =
      ((x.fill v).drop (scheme + 3)).take (scheme + 3 - (scheme + 3)) ++ V.userinfo ++
        Cut.apply (x.fill v) (x.pre.length + k)
          ((Cut.above (scheme + 3) x.early ++ [x.cut v]) ++
            x.later.map (Cut.shift (x.pre.length + v.length))) := Cut.apply_cut le_rfl
  rw [Nat.sub_self, List.take_zero, List.nil_append] at here
  have first : (x.fill v).take (scheme + 3) = x.pre.take (scheme + 3) :=
    List.take_append_of_le_length long
  have rest : ((x.fill v).drop (x.pre.length + k)).take (x.pre.length + v.length -
      (x.pre.length + k)) = v.drop k := by
    have length : x.pre.length + v.length - (x.pre.length + k) = (v.drop k).length := by
      rw [List.length_drop]
      omega
    rw [fill, ← List.drop_drop, List.drop_left, List.drop_append_of_le_length short, length,
      List.take_left]
  have tail : Cut.apply (x.fill v) (x.pre.length + v.length)
      (x.later.map (Cut.shift (x.pre.length + v.length))) = Cut.apply x.after 0 x.later := by
    have text : x.fill v = (x.pre ++ v) ++ x.after := (List.append_assoc _ _ _).symm
    have length : x.pre.length + v.length = (x.pre ++ v).length := List.length_append.symm
    have shifted : Cut.apply ((x.pre ++ v) ++ x.after) ((x.pre ++ v).length + 0)
        (x.later.map (Cut.shift (x.pre ++ v).length)) = Cut.apply x.after 0 x.later :=
      Cut.apply_shift
    rw [text, length]
    exact shifted
  rw [sorted_cons (apart_fill value) (start_ne_fill value (schemeAt_append_of_some found)),
    low, parts, Cut.apply_append (Nat.zero_le _) inside high, first, here,
    Cut.apply_skips skipped, Cut.apply_from (Nat.add_le_add_left short _) farther, rest, tail]

/-- An authority that reaches the parameter leaves what follows an `@` of the value. -/
theorem redact_fill_of_open {scheme : ℕ} (found : V.schemeAt x.pre = some scheme)
    (open_ : ¬ ∃ c ∈ x.pre.drop (scheme + 3), V.endsAuthority c = true)
    (alone : ¬ ∃ c ∈ x.early, c.start < scheme + 3 ∧ scheme + 3 < c.stop) {n : ℕ}
    (letter : n = 97 ∨ n = 98) :
    V.redact (x.fill ([97, 64, n, 47].map V.ofCode)) =
      Cut.apply (x.pre.take (scheme + 3)) 0 (Cut.below (scheme + 3) x.early) ++
        (V.userinfo ++ ([64, n, 47].map V.ofCode ++ Cut.apply x.after 0 x.later)) := by
  have value : Value V ([97, 64, n, 47].map V.ofCode) := by
    rcases letter with rfl | rfl
    · exact value_of_codes (List.cons_ne_nil _ _) (by decide)
    · exact value_of_codes (List.cons_ne_nil _ _) (by decide)
  have long := scheme_lt_length found
  have found' : V.schemeAt (x.fill ([97, 64, n, 47].map V.ofCode)) = some scheme :=
    schemeAt_append_of_some found
  have authority : V.authorityOf ((x.fill ([97, 64, n, 47].map V.ofCode)).drop (scheme + 3)) =
      (x.pre.drop (scheme + 3) ++ [V.ofCode 97]) ++ V.ofCode 64 :: [V.ofCode n] := by
    have inside : ∀ c ∈ (x.pre.drop (scheme + 3) ++ [V.ofCode 97]) ++ V.ofCode 64 :: [V.ofCode n],
        V.endsAuthority c = false := by
      intro c mem
      rcases List.mem_append.1 mem with first | last
      · rcases List.mem_append.1 first with before | only
        · exact (Bool.not_eq_true _).mp fun ends => open_ ⟨c, before, ends⟩
        · rw [List.mem_singleton.1 only, endsAuthority, V.code_ofCode 97 (by decide)]
          rfl
      · rcases List.mem_cons.1 last with rfl | only
        · rw [endsAuthority, V.code_ofCode 64 (by decide)]
          rfl
        · rcases letter with rfl | rfl
          · rw [List.mem_singleton.1 only, endsAuthority, V.code_ofCode 97 (by decide)]
            rfl
          · rw [List.mem_singleton.1 only, endsAuthority, V.code_ofCode 98 (by decide)]
            rfl
    have text : x.pre.drop (scheme + 3) ++ ([97, 64, n, 47].map V.ofCode ++ x.after) =
        ((x.pre.drop (scheme + 3) ++ [V.ofCode 97]) ++ V.ofCode 64 :: [V.ofCode n]) ++
          (V.ofCode 47 :: x.after) := by
      simp only [List.map_cons, List.map_nil, List.append_assoc, List.cons_append,
        List.nil_append]
    have ends : V.authorityOf (V.ofCode 47 :: x.after) = [] := by
      have slash : V.endsAuthority (V.ofCode 47) = true := by
        rw [endsAuthority, V.code_ofCode 47 (by decide)]
        rfl
      rw [authorityOf, List.takeWhile_cons, slash]
      rfl
    rw [drop_fill long, text, authorityOf_append_of_inside inside, ends, List.append_nil]
  have noAt : V.lastAt [V.ofCode n] = none := by
    refine lastAt_eq_none ?_
    intro c mem
    rw [List.mem_singleton.1 mem]
    rcases letter with rfl | rfl
    · rw [V.code_ofCode 97 (by decide)]
      decide
    · rw [V.code_ofCode 98 (by decide)]
      decide
  have last : V.lastAt (V.authorityOf
      ((x.fill ([97, 64, n, 47].map V.ofCode)).drop (scheme + 3))) =
        some (x.pre.length - (scheme + 3) + 1) := by
    rw [authority, lastAt_append_cons (V.code_ofCode 64 (by decide)) noAt, List.length_append,
      List.length_drop]
    rfl
  have stop : scheme + 3 + (x.pre.length - (scheme + 3) + 1) = x.pre.length + 1 := by omega
  have cuts := userinfoCuts_of_some found' last
  rw [stop] at cuts
  rw [redact_fill value, cuts, List.singleton_append,
    apply_open value found alone Nat.one_pos (Nat.le_add_left 1 3)]
  rfl

/-- A `://` that ends the value makes a userinfo of what follows the parameter. -/
theorem redact_fill_of_ends (none_ : V.schemeAt x.pre = none) (value : Value V v) {scheme : ℕ}
    (found : V.schemeAt v = some scheme) (ends : scheme + 3 = v.length)
    (mem : ∃ d ∈ V.authorityOf x.after, V.code d = 64) :
    ∃ k, V.redact (x.fill v) = Cut.apply x.pre 0 x.early ++
      (V.param ++ (V.userinfo ++ Cut.apply x.after k x.later)) := by
  obtain ⟨d, among, at_⟩ := mem
  obtain ⟨k, last⟩ := exists_lastAt among at_
  have found' : V.schemeAt (x.fill v) = some (x.pre.length + scheme) := by
    rw [schemeAt_fill none_, schemeAt_append_of_some found]
    rfl
  have rest : (x.fill v).drop (x.pre.length + scheme + 3) = x.after := by
    rw [Nat.add_assoc, ends, fill, ← List.drop_drop, List.drop_left, List.drop_left]
  have cuts := userinfoCuts_of_some found' (by rw [rest]; exact last)
  have same : (⟨x.pre.length + scheme + 3, x.pre.length + scheme + 3 + k, V.userinfo⟩ : Cut α) =
      Cut.shift (x.pre.length + v.length) ⟨0, k, V.userinfo⟩ := by
    rw [← ends, Nat.add_assoc]
    rfl
  rw [same] at cuts
  have positive : ∀ c ∈ x.later, c.start ≠ 0 := fun c among' =>
    (isValue_of_mem_later among').bounds.1.ne'
  have least : ∀ c ∈ x.later, 0 ≤ c.start := fun _ _ => Nat.zero_le _
  have cut : Cut.apply x.after 0 (⟨0, k, V.userinfo⟩ :: x.later) =
      V.userinfo ++ Cut.apply x.after k x.later := Cut.apply_cut le_rfl
  refine ⟨k, ?_⟩
  rw [redact_fill_of_behind value cuts positive, sorted_cons (apart_later x) positive,
    Cut.below_of_le least, Cut.above_of_le least, List.nil_append, cut]

theorem exists_redact_ne (loud : ¬ x.Quiet) :
    ∃ v v', Value V v ∧ Value V v' ∧ V.redact (x.fill v) ≠ V.redact (x.fill v') := by
  have letters : ∀ n, n = 97 ∨ n = 98 → Value V ([97, 64, n, 47].map V.ofCode) := by
    rintro n (rfl | rfl)
    · exact value_of_codes (List.cons_ne_nil _ _) (by decide)
    · exact value_of_codes (List.cons_ne_nil _ _) (by decide)
  have letter : Value V ([97].map V.ofCode) :=
    value_of_codes (List.cons_ne_nil _ _) (by decide)
  have colons : Value V ([58, 47, 47].map V.ofCode) :=
    value_of_codes (List.cons_ne_nil _ _) (by decide)
  have longer : Value V ([58, 47, 47, 97].map V.ofCode) :=
    value_of_codes (List.cons_ne_nil _ _) (by decide)
  have code : ∀ n < 128, V.code (V.ofCode n) = n := V.code_ofCode
  rw [Quiet] at loud
  cases found : V.schemeAt x.pre with
  | some scheme =>
      rw [found] at loud
      obtain ⟨open_, alone⟩ := not_or.1 loud
      refine ⟨_, _, letters 97 (.inl rfl), letters 98 (.inr rfl), ?_⟩
      rw [redact_fill_of_open found open_ alone (.inl rfl),
        redact_fill_of_open found open_ alone (.inr rfl)]
      intro same
      have rest := List.append_cancel_left (List.append_cancel_left same)
      have second := (List.cons.inj (List.cons.inj rest).2).1
      have codes := congrArg V.code second
      rw [code 97 (by decide), code 98 (by decide)] at codes
      contradiction
  | none =>
      rw [found] at loud
      have plain : V.schemeAt ([97].map V.ofCode) = none := by
        refine (if_neg ?_).trans rfl
        intro spelled
        have length : 1 = 3 := congrArg List.length spelled
        contradiction
      have scheme : ∀ rest, V.schemeAt ([58, 47, 47].map V.ofCode ++ rest) = some 0 := by
        intro rest
        refine if_pos ?_
        show [V.code (V.ofCode 58), V.code (V.ofCode 47), V.code (V.ofCode 47)] = [58, 47, 47]
        rw [code 58 (by decide), code 47 (by decide)]
      by_cases next : ∀ c ∈ V.authorityOf x.after, V.code c ≠ 64
      · refine ⟨_, _, letter, longer, ?_⟩
        rw [redact_fill_of_plain found letter plain,
          redact_fill_of_scheme found longer (scheme [V.ofCode 97]) fun reaches =>
            absurd (show 3 = 4 from reaches) (by decide), around]
        intro same
        refine loud ⟨next, ?_⟩
        have kept := List.append_cancel_left (List.append_cancel_left same)
        intro u mem
        rcases userinfoCuts_cases (V := V) x.after with none_ | ⟨scheme', k, found', _, one⟩
        · rw [none_] at mem
          exact absurd mem List.not_mem_nil
        · rw [one] at mem kept
          rw [List.mem_singleton.1 mem]
          simp only [Nat.add_sub_cancel_left]
          exact (apply_userinfo_iff found').1 kept
      · obtain ⟨c, more⟩ := not_forall.1 next
        obtain ⟨mem, at_⟩ := Classical.not_imp.1 more
        obtain ⟨k, redacted⟩ := redact_fill_of_ends found colons (scheme []) rfl
          ⟨c, mem, Classical.not_not.1 at_⟩
        obtain ⟨d, rest, kept, amp⟩ := exists_amp_first (List.ne_nil_of_mem mem)
        refine ⟨_, _, letter, colons, ?_⟩
        rw [redact_fill_of_plain found letter plain, redacted, kept]
        intro same
        have tails := List.append_cancel_left (List.append_cancel_left same)
        obtain ⟨e, es, text⟩ := List.exists_cons_of_ne_nil V.userinfo_ne_nil
        rw [text] at tails
        have first : d = e := (List.cons.inj tails).1
        refine (V.userinfo_plain e ?_).1 (first ▸ amp)
        rw [text]
        exact List.mem_cons_self

/-- Whatever is filled in, a text is redacted alike exactly in a quiet place. -/
theorem redact_alike_iff (x : Place V) :
    (∀ v v', Value V v → Value V v' → V.redact (x.fill v) = V.redact (x.fill v')) ↔ x.Quiet := by
  constructor
  · intro alike
    by_contra loud
    obtain ⟨v, v', value, value', differ⟩ := exists_redact_ne loud
    exact differ (alike v v' value value')
  · intro quiet v v' value value'
    obtain ⟨r, redacted⟩ := exists_redact_of_quiet quiet
    rw [redacted v value, redacted v' value']

end Place

end Hx.Redact
