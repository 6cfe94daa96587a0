import Hx.Library.Pieces
import Hx.Redact.Target

/-!
# Values that are replaced again

A placeholder in a query is the value of its parameter. It is cut again, and the same is put in
its place.
-/

namespace Hx.Redact.Vocabulary

open Hx.Library

variable {α : Type}

/-- Nothing in the placeholders ends an authority, a query or a pair, or belongs to a `://`
that reaches over their ends. -/
structure Inert (V : Vocabulary α) : Prop where
  userinfo : ∀ c ∈ V.userinfo, V.code c ∉ [9, 10, 13, 32, 35, 38, 47, 63, 64]
  param : ∀ c ∈ V.param, V.code c ∉ [9, 10, 13, 32, 35, 38, 47, 63, 64]
  last : ∃ c, V.param.getLast? = some c ∧ V.code c ≠ 58

variable (V : Vocabulary α)

/-- What becomes of a query. -/
def maskQuery (query : List α) : List α := Cut.apply query 0 (V.queryCuts 0 query)

/-- Every value that is cut is the placeholder already. -/
def Masked (query : List α) : Prop :=
  ∀ c ∈ V.queryCuts 0 query, (query.drop c.start).take (c.stop - c.start) = V.param

variable {V} {s t x y : List α} {p n : ℕ} {a : α} {cs : List (Cut α)}

theorem plain_of_code {c : α} (plain : V.code c ∉ [9, 10, 13, 32, 35, 38, 47, 63, 64]) :
    V.code c ≠ 38 ∧ V.code c ≠ 47 ∧ V.code c ≠ 63 ∧ V.code c ≠ 64 ∧
      V.endsAuthority c = false ∧ V.endsQuery c = false := by
  simp only [List.mem_cons, List.not_mem_nil, or_false, not_or] at plain
  simp only [endsAuthority, endsQuery, List.contains_eq_mem, decide_eq_false_iff_not,
    List.mem_cons, List.not_mem_nil, or_false]
  omega

theorem Inert.param_plain (inert : Inert V) {c : α} (mem : c ∈ V.param) :
    V.code c ≠ 38 ∧ V.code c ≠ 47 ∧ V.code c ≠ 63 ∧ V.code c ≠ 64 ∧
      V.endsAuthority c = false ∧ V.endsQuery c = false :=
  plain_of_code (inert.param c mem)

theorem Inert.userinfo_plain (inert : Inert V) {c : α} (mem : c ∈ V.userinfo) :
    V.code c ≠ 38 ∧ V.code c ≠ 47 ∧ V.code c ≠ 63 ∧ V.code c ≠ 64 ∧
      V.endsAuthority c = false ∧ V.endsQuery c = false :=
  plain_of_code (inert.userinfo c mem)

/-! ## What is there already -/

/-- A text is kept where every cut puts in what is there. -/
theorem redact_of_self (self : ∀ c ∈ V.userinfoCuts s ++ V.credentialParamCuts s,
    (s.drop c.start).take (c.stop - c.start) = c.text) : V.redact s = s := by
  rw [redact_eq]
  apply Cut.apply_self
  intro c mem
  have listed := mem_sorted.1 mem
  exact ⟨start_le_stop listed, self c listed⟩

/-! ## The first `://` -/

theorem length_scheme {sch : List α} (spelled : sch.map V.code = [58, 47, 47]) :
    sch.length = 3 := by
  have length := congrArg List.length spelled
  rwa [List.length_map] at length

theorem spelled_at (found : V.schemeAt s = some p) :
    ((s.drop p).take 3).map V.code = [58, 47, 47] := by
  obtain ⟨x, sch, y, rfl, rfl, spelled, -⟩ := exists_scheme found
  rw [List.drop_left, List.take_left' (length_scheme spelled), spelled]

theorem schemeAt_take (found : V.schemeAt s = some p) : V.schemeAt (s.take p) = none := by
  obtain ⟨x, sch, y, rfl, rfl, -, none_⟩ := exists_scheme found
  rw [List.take_left, none_]

theorem head_scheme {sch : List α} (spelled : sch.map V.code = [58, 47, 47]) {c : α}
    (head : (sch ++ y).head? = some c) : V.code c = 58 := by
  cases sch with
  | nil => contradiction
  | cons d sch =>
      cases head
      exact (List.cons.inj spelled).1

/-- A `://` behind a text without one is the first. -/
theorem schemeAt_append_scheme {sch : List α} (none_ : V.schemeAt x = none)
    (spelled : sch.map V.code = [58, 47, 47]) : V.schemeAt (x ++ (sch ++ y)) = some x.length := by
  have here : V.schemeAt (sch ++ y) = some 0 := by
    have three : (sch ++ y).take 3 = sch := List.take_left' (length_scheme spelled)
    cases whole : sch ++ y with
    | nil =>
        rw [whole] at three
        rw [← three] at spelled
        contradiction
    | cons c rest =>
        apply schemeAt_cons_of_eq
        rw [← whole, three, spelled]
  rw [schemeAt_append_of_none none_ (.inl ?_), here]
  · rfl
  · intro c head
    rw [head_scheme spelled head]
    decide

/-- Placeholders bring no `://`. -/
theorem schemeAt_apply (inert : Inert V) (none_ : V.schemeAt s = none)
    (text : ∀ c ∈ cs, c.text = V.param) : V.schemeAt (Cut.apply s n cs) = none := by
  induction cs generalizing n with
  | nil => exact schemeAt_infix none_ (List.drop_suffix n s).isInfix
  | cons c cs ih =>
      have rest := fun m => ih (n := m) fun d mem => text d (List.mem_cons_of_mem _ mem)
      by_cases inside : c.start < n
      · rw [Cut.apply_skip inside]
        exact rest n
      · rw [Cut.apply_cut (Nat.not_lt.1 inside), text c List.mem_cons_self]
        have before : V.schemeAt ((s.drop n).take (c.start - n)) = none :=
          schemeAt_infix none_
            ((List.take_prefix _ _).isInfix.trans (List.drop_suffix n s).isInfix)
        have param : V.schemeAt V.param = none := schemeAt_of_no_slash fun d mem =>
          (inert.param_plain mem).2.1
        have both : V.schemeAt ((s.drop n).take (c.start - n) ++ V.param) = none := by
          rw [schemeAt_append_of_none before (.inl ?_), param]
          · rfl
          · intro d head
            exact (inert.param_plain (List.mem_of_head? head)).2.1
        rw [schemeAt_append_of_none both (.inr ?_), rest]
        · rfl
        · intro d last
          obtain ⟨e, end_, other⟩ := inert.last
          rw [List.getLast?_append, end_, Option.some_or] at last
          cases last
          exact ⟨other, (inert.param_plain (List.mem_of_getLast? end_)).2.1⟩

/-! ## Pairs -/

theorem pairCut_append_cons {name v : List α} {e : α} (plain : ∀ c ∈ name, V.code c ≠ 61)
    (here : V.code e = 61) :
    V.pairCut p (name ++ e :: v) =
      if v ≠ [] ∧ V.isCredentialParam name = true then
        [⟨p + name.length + 1, p + name.length + 1 + v.length, V.param⟩]
      else [] := by
  have index : (name ++ e :: v).findIdx (fun c => V.code c == 61) = name.length :=
    findIdx_append_cons (fun c mem => beq_eq_false_iff_ne.2 (plain c mem)) (beq_iff_eq.2 here)
  have length : (name ++ e :: v).length = name.length + 1 + v.length := by
    rw [List.length_append, List.length_cons]
    omega
  have first : (name ++ e :: v).take name.length = name := List.take_left
  rw [pairCut, index, first, length]
  have long : name.length + 1 < name.length + 1 + v.length ↔ v ≠ [] := by
    rw [← List.length_pos_iff]
    omega
  simp only [long]
  simp only [Nat.add_assoc]

theorem pairCut_of_plain (plain : ∀ c ∈ s, V.code c ≠ 61) : V.pairCut p s = [] := by
  have index : s.findIdx (fun c => V.code c == 61) = s.length :=
    List.findIdx_eq_length.2 fun c mem => beq_eq_false_iff_ne.2 (plain c mem)
  rw [pairCut, index]
  exact if_neg fun both => absurd both.1 (Nat.not_lt.2 (Nat.le_succ _))

/-- A pair has no `=`, or a name and a value. -/
theorem pair_cases (pair : List α) : (∀ c ∈ pair, V.code c ≠ 61) ∨
    ∃ name e v, pair = name ++ e :: v ∧ V.code e = 61 ∧ ∀ c ∈ name, V.code c ≠ 61 := by
  obtain none_ | ⟨name, e, v, parts, here, plain⟩ :=
    exists_first (fun c => V.code c == 61) pair
  · exact .inl fun c mem => beq_eq_false_iff_ne.1 (none_ c mem)
  · exact .inr ⟨name, e, v, parts, beq_iff_eq.1 here,
      fun c mem => beq_eq_false_iff_ne.1 (plain c mem)⟩

theorem queryCuts_inside {c : Cut α} (mem : c ∈ V.queryCuts 0 s) :
    c.start ≤ s.length ∧ c.stop ≤ s.length := by
  have bounds := (isValue_of_mem mem).bounds
  omega

theorem queryCuts_append (here : V.code a = 38) :
    V.queryCuts 0 (s ++ a :: t) =
      V.queryCuts 0 s ++ (V.queryCuts 0 t).map (Cut.shift (s ++ [a]).length) := by
  have length : 0 + s.length + 1 = (s ++ [a]).length + 0 := by
    rw [List.length_append, List.length_singleton]
    omega
  rw [queryCuts_append_cons here, length, queryCuts_shift]

/-- Cuts of a pair and of the query behind it. -/
theorem apply_pairs (low : n ≤ s.length) (inside : ∀ c ∈ cs, c.start ≤ s.length ∧ c.stop ≤ s.length)
    (ds : List (Cut α)) :
    Cut.apply (s ++ a :: t) n (cs ++ ds.map (Cut.shift (s ++ [a]).length)) =
      Cut.apply s n cs ++ a :: Cut.apply t 0 ds := by
  have long : s.length ≤ (s ++ [a]).length := by
    rw [List.length_append]
    exact Nat.le_add_right _ _
  have wider : ∀ c ∈ cs, c.start ≤ (s ++ [a]).length ∧ c.stop ≤ (s ++ [a]).length := fun c mem =>
    ⟨(inside c mem).1.trans long, (inside c mem).2.trans long⟩
  have parts : s ++ a :: t = (s ++ [a]) ++ t := by rw [List.append_assoc]; rfl
  rw [parts, Cut.apply_segments (low.trans long) wider, Cut.apply_append_left low inside,
    List.append_assoc]
  rfl

theorem maskQuery_append_cons (here : V.code a = 38) :
    V.maskQuery (s ++ a :: t) = V.maskQuery s ++ a :: V.maskQuery t := by
  rw [maskQuery, queryCuts_append here]
  exact apply_pairs (Nat.zero_le _) (fun c mem => queryCuts_inside mem) _

theorem Masked.append_cons (here : V.code a = 38) (first : V.Masked s) (rest : V.Masked t) :
    V.Masked (s ++ a :: t) := by
  intro c mem
  rw [queryCuts_append here] at mem
  obtain before | after := List.mem_append.1 mem
  · have bounds := (isValue_of_mem before).bounds
    rw [← first c before, List.drop_append_of_le_length (by omega),
      List.take_append_of_le_length (by rw [List.length_drop]; omega)]
  · obtain ⟨d, among, rfl⟩ := List.mem_map.1 after
    have parts : s ++ a :: t = (s ++ [a]) ++ t := by rw [List.append_assoc]; rfl
    have width : (Cut.shift (s ++ [a]).length d).stop - (Cut.shift (s ++ [a]).length d).start =
        d.stop - d.start := Nat.add_sub_add_left _ _ _
    have place : (Cut.shift (s ++ [a]).length d).start = (s ++ [a]).length + d.start := rfl
    rw [parts, width, place, ← List.drop_drop, List.drop_left, rest d among]

theorem masked_of_uncut (plain : ∀ c ∈ s, V.code c ≠ 38) (uncut : V.pairCut 0 s = []) :
    V.Masked s := by
  intro c mem
  rw [queryCuts_single plain, uncut] at mem
  contradiction

/-- What becomes of a pair is cut where the pair is, and only there. -/
theorem masked_pair (inert : Inert V) (plain : ∀ c ∈ s, V.code c ≠ 38) :
    V.Masked (V.maskQuery s) := by
  rw [maskQuery, queryCuts_single plain]
  obtain none_ | ⟨name, e, v, rfl, here, named⟩ := V.pair_cases s
  · have uncut := pairCut_of_plain (p := 0) none_
    rw [uncut]
    exact masked_of_uncut plain uncut
  · have uncut := pairCut_append_cons (p := 0) (v := v) named here
    by_cases holds : v ≠ [] ∧ V.isCredentialParam name = true
    · rw [if_pos holds] at uncut
      have place : 0 + name.length + 1 = (name ++ [e]).length := by
        rw [List.length_append, List.length_singleton, Nat.zero_add]
      have parts : name ++ e :: v = (name ++ [e]) ++ v := by rw [List.append_assoc]; rfl
      have masked : Cut.apply (name ++ e :: v) 0 (V.pairCut 0 (name ++ e :: v)) =
          name ++ e :: V.param := by
        rw [uncut, Cut.apply_cut (Nat.zero_le _), parts, place, List.drop_zero, Nat.sub_zero,
          List.take_left, ← List.length_append]
        show name ++ [e] ++ V.param ++ ((name ++ [e]) ++ v).drop ((name ++ [e]) ++ v).length = _
        rw [List.drop_length, List.append_nil, List.append_assoc]
        rfl
      rw [masked]
      intro c mem
      have plain' : ∀ c ∈ name ++ e :: V.param, V.code c ≠ 38 := by
        intro c mem
        obtain before | equals | param := List.mem_append.1 mem |>.imp_right List.mem_cons.1
        · exact plain c (List.mem_append_left _ before)
        · exact plain c (List.mem_append_right _ (equals ▸ List.mem_cons_self))
        · exact (inert.param_plain param).1
      rw [queryCuts_single plain', pairCut_append_cons named here] at mem
      split at mem
      · rw [List.mem_singleton] at mem
        have again : name ++ e :: V.param = (name ++ [e]) ++ V.param := by
          rw [List.append_assoc]
          rfl
        rw [mem, place, again, Nat.add_sub_cancel_left, List.drop_left, List.take_length]
      · contradiction
    · rw [if_neg holds] at uncut
      rw [uncut]
      exact masked_of_uncut plain uncut

/-- In a query whose values have been replaced there are no other values. -/
theorem masked_maskQuery (inert : Inert V) (s : List α) : V.Masked (V.maskQuery s) := by
  induction s using query_induction (V := V) with
  | single pair plain => exact masked_pair inert plain
  | more pair a rest plain here ih =>
      rw [maskQuery_append_cons here]
      exact (masked_pair inert plain).append_cons here ih

/-! ## A `://` in a query -/

/-- From an `@` on, the pair it is in is followed by pairs whose values are replaced. -/
theorem exists_apply_at (inert : Inert V) (here : (s.drop n).head?.map V.code = some 64) :
    ∃ w rest, Cut.apply s n (V.queryCuts 0 s) = w ++ rest ∧ (∀ c ∈ w, V.code c ≠ 38) ∧
      (rest = [] ∨ ∃ a t, rest = a :: V.maskQuery t ∧ V.code a = 38) := by
  have pair_plain : ∀ (pair : List α) (k : ℕ), (∀ c ∈ pair, V.code c ≠ 38) →
      ∀ c ∈ Cut.apply pair k (V.pairCut 0 pair), V.code c ≠ 38 := by
    intro pair k plain c mem
    rw [← queryCuts_single plain] at mem
    obtain kept | ⟨cut, among, text⟩ :=
      Cut.mem_apply (fun d among => (isValue_of_mem among).bounds.2.1.le) mem
    · exact plain c (List.mem_of_mem_drop kept)
    · rw [(isValue_of_mem among).text] at text
      exact (inert.param_plain text).1
  induction s using query_induction (V := V) generalizing n with
  | single pair plain =>
      refine ⟨_, [], (List.append_nil _).symm, ?_, .inl rfl⟩
      rw [queryCuts_single plain]
      exact pair_plain pair n plain
  | more pair a rest plain amp ih =>
      rw [queryCuts_append amp, queryCuts_single plain]
      have inside : ∀ c ∈ V.pairCut 0 pair, c.start ≤ pair.length ∧ c.stop ≤ pair.length := by
        intro c mem
        rw [← queryCuts_single plain] at mem
        exact queryCuts_inside mem
      by_cases low : n ≤ pair.length
      · exact ⟨_, _, apply_pairs low inside _, pair_plain pair n plain, .inr ⟨a, rest, rfl, amp⟩⟩
      · have length : (pair ++ [a]).length = pair.length + 1 := by
          rw [List.length_append]
          rfl
        have parts : pair ++ a :: rest = (pair ++ [a]) ++ rest := by rw [List.append_assoc]; rfl
        obtain ⟨k, rfl⟩ := Nat.exists_eq_add_of_le (show (pair ++ [a]).length ≤ n by omega)
        have before : ∀ c ∈ V.pairCut 0 pair, c.start < (pair ++ [a]).length + k := by
          intro c mem
          have bound := (inside c mem).1
          omega
        rw [Cut.apply_skips before, parts, Cut.apply_shift]
        apply ih
        rw [parts, ← List.drop_drop, List.drop_left] at here
        exact here

/-- The letter at a `://`. -/
theorem exists_colon {sch : List α} (spelled : sch.map V.code = [58, 47, 47]) (u : List α) :
    ∃ c rest, sch ++ u = c :: rest ∧ V.code c = 58 := by
  cases sch with
  | nil => contradiction
  | cons c sch => exact ⟨c, sch ++ u, rfl, (List.cons.inj spelled).1⟩

theorem colon_not_in_name {name : List α} (named : V.isCredentialParam name = true) :
    ∀ c ∈ name, V.code c ≠ 58 ∧ V.code c ≠ 61 := by
  intro c mem
  have plain := V.name_plain name named c mem
  simp only [List.mem_cons, List.not_mem_nil, or_false, not_or] at plain
  omega

/-- A `://` in a credential parameter is in its value. -/
theorem exists_value {sch name v : List α} {e : α} (spelled : sch.map V.code = [58, 47, 47])
    (named : V.isCredentialParam name = true) (equals : V.code e = 61)
    (parts : x ++ (sch ++ t) = name ++ e :: v) :
    ∃ bs, x = name ++ e :: bs ∧ v = bs ++ (sch ++ t) := by
  obtain ⟨c, rest, begins, colon⟩ := exists_colon spelled t
  rw [begins] at parts ⊢
  obtain ⟨as, rfl, same⟩ | ⟨bs, rfl, same⟩ := List.append_eq_append_iff.1 parts
  · cases as with
    | nil =>
        rw [(List.cons.inj same).1, equals] at colon
        contradiction
    | cons d as =>
        have inside : c ∈ x ++ d :: as := by
          rw [(List.cons.inj same).1]
          exact List.mem_append_right _ List.mem_cons_self
        exact absurd colon (colon_not_in_name named c inside).1
  · cases bs with
    | nil =>
        rw [← (List.cons.inj same).1, equals] at colon
        contradiction
    | cons d bs =>
        obtain ⟨rfl, rfl⟩ := List.cons.inj same
        exact ⟨bs, rfl, rfl⟩

theorem scheme_ne_nil {sch : List α} (spelled : sch.map V.code = [58, 47, 47]) (u v : List α) :
    u ++ (sch ++ v) ≠ [] := by
  obtain ⟨c, rest, begins, -⟩ := exists_colon spelled v
  rw [begins]
  exact List.append_ne_nil_of_right_ne_nil _ (List.cons_ne_nil _ _)

/-- A pair that holds a `://` and is not cut is not cut whatever follows the `://`. -/
theorem pairCut_scheme {sch : List α} (spelled : sch.map V.code = [58, 47, 47])
    (uncut : V.pairCut 0 (x ++ (sch ++ y)) = []) (t : List α) :
    V.pairCut 0 (x ++ (sch ++ t)) = [] := by
  obtain none_ | ⟨name, e, v, parts, equals, plain⟩ := V.pair_cases (x ++ (sch ++ t))
  · exact pairCut_of_plain none_
  · rw [parts, pairCut_append_cons plain equals]
    apply if_neg
    rintro ⟨-, named⟩
    obtain ⟨bs, rfl, -⟩ := exists_value spelled named equals parts
    have cut_ : (name ++ e :: bs) ++ (sch ++ y) = name ++ e :: (bs ++ (sch ++ y)) := by
      rw [List.append_assoc]
      rfl
    rw [cut_, pairCut_append_cons plain equals,
      if_pos ⟨scheme_ne_nil spelled bs y, named⟩] at uncut
    contradiction

/-- A pair whose `://` is in no cut has no cut. -/
theorem pairCut_of_open {sch : List α} (spelled : sch.map V.code = [58, 47, 47])
    (apart : ∀ c ∈ V.pairCut 0 (x ++ (sch ++ y)), ¬ (c.start ≤ x.length ∧ x.length < c.stop)) :
    V.pairCut 0 (x ++ (sch ++ y)) = [] := by
  obtain none_ | ⟨name, e, v, parts, equals, plain⟩ := V.pair_cases (x ++ (sch ++ y))
  · exact pairCut_of_plain none_
  · rw [parts, pairCut_append_cons plain equals] at apart ⊢
    apply if_neg
    rintro ⟨some_, named⟩
    rw [if_pos ⟨some_, named⟩] at apart
    obtain ⟨bs, rfl, rfl⟩ := exists_value spelled named equals parts
    apply apart _ List.mem_cons_self
    have three := length_scheme spelled
    simp only [List.length_append, List.length_cons, three]
    omega

/-- A userinfo in the first pair is replaced together with what it reaches over. -/
theorem masked_first (inert : Inert V) {sch rest : List α}
    (spelled : sch.map V.code = [58, 47, 47]) (plain : ∀ c ∈ x ++ sch, V.code c ≠ 38)
    (uncut : V.pairCut 0 (x ++ (sch ++ y)) = [])
    (here : ((x ++ (sch ++ rest)).drop n).head?.map V.code = some 64) :
    V.Masked (Cut.apply (x ++ (sch ++ rest)) 0
      (⟨x.length + 3, n, V.userinfo⟩ :: V.queryCuts 0 (x ++ (sch ++ rest)))) := by
  obtain ⟨w, tail, applied, clean, behind⟩ := exists_apply_at inert here
  have three : (x ++ sch).length = x.length + 3 := by
    rw [List.length_append, length_scheme spelled]
  have front : (x ++ (sch ++ rest)).take (x.length + 3) = x ++ sch := by
    rw [← List.append_assoc, ← three, List.take_left]
  have whole : Cut.apply (x ++ (sch ++ rest)) 0
      (⟨x.length + 3, n, V.userinfo⟩ :: V.queryCuts 0 (x ++ (sch ++ rest))) =
        (x ++ (sch ++ (V.userinfo ++ w))) ++ tail := by
    rw [Cut.apply_cut (Nat.zero_le _), List.drop_zero, Nat.sub_zero, front, applied]
    simp only [List.append_assoc]
  have first : V.Masked (x ++ (sch ++ (V.userinfo ++ w))) := by
    apply masked_of_uncut _ (pairCut_scheme spelled uncut _)
    intro c mem
    rw [← List.append_assoc] at mem
    obtain before | user | after := (List.mem_append.1 mem).imp_right List.mem_append.1
    · exact plain c before
    · exact (inert.userinfo_plain user).1
    · exact clean c after
  rw [whole]
  obtain rfl | ⟨a, t, rfl, amp⟩ := behind
  · rw [List.append_nil]
    exact first
  · exact first.append_cons amp (masked_maskQuery inert t)

theorem mem_queryCuts_shift {c : Cut α} {k : ℕ}
    (mem : c ∈ (V.queryCuts 0 s).map (Cut.shift k)) : k ≤ c.start := by
  obtain ⟨d, -, rfl⟩ := List.mem_map.1 mem
  exact Nat.le_add_right _ _

/-- No value holds the first `://` of a query, and its userinfo is replaced. The values that
are left are placeholders. -/
theorem masked_query (inert : Inert V) (found : V.schemeAt s = some p)
    (apart : ∀ c ∈ V.queryCuts 0 s, ¬ (c.start ≤ p ∧ p < c.stop)) (low : p + 3 ≤ n)
    (here : (s.drop n).head?.map V.code = some 64) :
    V.Masked (Cut.apply s 0 (Cut.below (p + 3) (V.queryCuts 0 s) ++
      ⟨p + 3, n, V.userinfo⟩ :: Cut.above (p + 3) (V.queryCuts 0 s))) := by
  induction s using query_induction (V := V) generalizing p n with
  | single pair plain =>
      obtain ⟨x, sch, y, rfl, rfl, spelled, -⟩ := exists_scheme found
      rw [queryCuts_single plain] at apart
      have uncut := pairCut_of_open spelled apart
      have first := masked_first inert spelled (fun c mem => plain c (by
        rw [← List.append_assoc]
        exact List.mem_append_left _ mem)) uncut here
      rw [queryCuts_single plain, uncut] at first ⊢
      exact first
  | more pair a rest plain amp ih =>
      have length : (pair ++ [a]).length = pair.length + 1 := by
        rw [List.length_append]
        rfl
      cases own : V.schemeAt pair with
      | some q =>
          have same : p = q := Option.some.inj
            (found.symm.trans (schemeAt_append_of_some own))
          subst same
          obtain ⟨x, sch, y, rfl, rfl, spelled, -⟩ := exists_scheme own
          have uncut : V.pairCut 0 (x ++ (sch ++ y)) = [] := by
            apply pairCut_of_open spelled
            intro c mem
            apply apart
            rw [queryCuts_append amp, queryCuts_single plain]
            exact List.mem_append_left _ mem
          have long := scheme_lt_length own
          have later : ∀ c ∈ V.queryCuts 0 ((x ++ (sch ++ y)) ++ a :: rest),
              x.length + 3 ≤ c.start := by
            intro c mem
            rw [queryCuts_append amp, queryCuts_single plain, uncut, List.nil_append] at mem
            have start := mem_queryCuts_shift mem
            omega
          have parts : (x ++ (sch ++ y)) ++ a :: rest = x ++ (sch ++ (y ++ a :: rest)) := by
            simp only [List.append_assoc]
          rw [Cut.below_of_le later, Cut.above_of_le later, List.nil_append]
          rw [parts] at here ⊢
          exact masked_first inert spelled (fun c mem => plain c (by
            rw [← List.append_assoc]
            exact List.mem_append_left _ mem)) uncut here
      | none =>
          have colon : ((a :: rest).take 3).map V.code ≠ [58, 47, 47] := by
            intro same
            rw [(List.cons.inj same).1] at amp
            contradiction
          rw [schemeAt_append_of_none own (.inl fun c head => by
            cases head
            rw [amp]
            decide), schemeAt_cons_of_ne colon] at found
          obtain ⟨k, behind, rfl⟩ := Option.map_eq_some_iff.1 found
          obtain ⟨q, found', rfl⟩ := Option.map_eq_some_iff.1 behind
          obtain ⟨m, rfl⟩ := Nat.exists_eq_add_of_le (show (pair ++ [a]).length ≤ n by omega)
          have place : pair.length + (q + 1) + 3 = (pair ++ [a]).length + (q + 3) := by omega
          have cut_ : (⟨(pair ++ [a]).length + (q + 3), (pair ++ [a]).length + m, V.userinfo⟩ :
              Cut α) = Cut.shift (pair ++ [a]).length ⟨q + 3, m, V.userinfo⟩ := rfl
          have inside : ∀ c ∈ V.queryCuts 0 pair,
              c.start ≤ pair.length ∧ c.stop ≤ pair.length := fun c mem => queryCuts_inside mem
          have before : ∀ c ∈ V.queryCuts 0 pair, c.start < (pair ++ [a]).length + (q + 3) := by
            intro c mem
            have bound := (inside c mem).1
            omega
          have next := ih (p := q) (n := m) found' ?_ (by omega) ?_
          · rw [place, cut_, queryCuts_append amp, Cut.below_append, Cut.above_append,
              Cut.below_shift, Cut.above_shift, Cut.below_of_lt before, Cut.above_of_lt before,
              List.nil_append, List.append_assoc, ← List.map_cons, ← List.map_append,
              apply_pairs (Nat.zero_le _) inside]
            exact (masked_pair inert plain).append_cons amp next
          · intro c mem holds
            apply apart (c.shift (pair ++ [a]).length)
            · rw [queryCuts_append amp]
              exact List.mem_append_right _ (List.mem_map_of_mem mem)
            · show (pair ++ [a]).length + c.start ≤ _ ∧ _ < (pair ++ [a]).length + c.stop
              omega
          · have parts : pair ++ a :: rest = (pair ++ [a]) ++ rest := by
              rw [List.append_assoc]
              rfl
            rw [parts, ← List.drop_drop, List.drop_left] at here
            exact here

end Hx.Redact.Vocabulary
