import Hx.Redact.Masked

/-!
# A target that is redacted again

The placeholders are read as credentials too. What can make a difference to a second pass is a
`://` that the first pass hides in a placeholder, or an authority that ends inside one.
-/

namespace Hx.Redact.Vocabulary

open Hx.Library

variable {α : Type} (V : Vocabulary α)

/-- Where the authority behind a `://` begins, without its userinfo. -/
def hostAt (s : List α) (scheme : ℕ) : ℕ :=
  scheme + 3 + (V.lastAt (V.authorityOf (s.drop (scheme + 3)))).getD 0

/-- Where the authority behind a `://` ends. -/
def hostEnd (s : List α) (scheme : ℕ) : ℕ :=
  scheme + 3 + (V.authorityOf (s.drop (scheme + 3))).length

/-- No `@` stands behind the first `://`, or no value of a credential parameter holds this
`://`, and none that starts behind its userinfo holds the end of its authority. -/
def Settled (s : List α) : Prop :=
  ∀ scheme ∈ V.schemeAt s,
    (∀ c ∈ s.drop (scheme + 3), V.code c ≠ 64) ∨
      ∀ c ∈ V.credentialParamCuts s, ¬ (c.start ≤ scheme ∧ scheme < c.stop) ∧
        ¬ (V.hostAt s scheme ≤ c.start ∧ c.start ≤ V.hostEnd s scheme ∧
          V.hostEnd s scheme < c.stop)

instance (s : List α) : Decidable (V.Settled s) :=
  inferInstanceAs (Decidable (∀ scheme ∈ V.schemeAt s, _))

variable {V} {s t x y : List α} {p n : ℕ} {a : α} {cs : List (Cut α)}

/-! ## A text around its query -/

/-- What stands before the `?` of a text, in its query, and behind it. -/
structure Asks (V : Vocabulary α) (front : List α) (q : α) (query rest : List α) : Prop where
  front : ∀ c ∈ front, V.code c ≠ 63
  mark : V.code q = 63
  query : ∀ c ∈ query, V.endsQuery c = false
  rest : ∀ c, rest.head? = some c → V.endsQuery c = true

theorem asks_cases (s : List α) : (∀ c ∈ s, V.code c ≠ 63) ∨
    ∃ front q query rest, s = front ++ q :: (query ++ rest) ∧ Asks V front q query rest := by
  obtain none_ | ⟨front, q, tail, rfl, here, plain⟩ := exists_first (fun c => V.code c == 63) s
  · exact .inl fun c mem => beq_eq_false_iff_ne.1 (none_ c mem)
  · have front_ : ∀ c ∈ front, V.code c ≠ 63 := fun c mem => beq_eq_false_iff_ne.1 (plain c mem)
    have mark := beq_iff_eq.1 here
    obtain none_ | ⟨query, a, rest, rfl, ends, inside⟩ := exists_first V.endsQuery tail
    · refine .inr ⟨front, q, tail, [], by rw [List.append_nil], front_, mark, none_, ?_⟩
      intro c head
      contradiction
    · refine .inr ⟨front, q, query, a :: rest, rfl, front_, mark, inside, ?_⟩
      rintro c ⟨⟩
      exact ends

theorem endsAuthority_of_mark {c : α} (mark : V.code c = 63) : V.endsAuthority c = true := by
  rw [endsAuthority, mark]
  decide

namespace Asks

variable {front query rest : List α} {q : α}

theorem queryOf_eq (h : Asks V front q query rest) : V.queryOf (query ++ rest) = query := by
  have all : query.takeWhile (fun c => !V.endsQuery c) = query :=
    List.takeWhile_eq_self_iff.2 fun c mem => by rw [h.query c mem]; rfl
  rw [queryOf, takeWhile_append_of_head, all]
  intro c head
  rw [h.rest c head]
  rfl

theorem params (h : Asks V front q query rest) :
    V.credentialParamCuts (front ++ q :: (query ++ rest)) =
      (V.queryCuts 0 query).map (Cut.shift (front ++ [q]).length) := by
  have first : (front ++ q :: (query ++ rest)).findIdx? (fun c => V.code c == 63) =
      some front.length :=
    findIdx?_append_cons (fun c mem => beq_eq_false_iff_ne.2 (h.front c mem))
      (beq_iff_eq.2 h.mark)
  have length : (front ++ [q]).length = front.length + 1 := by
    rw [List.length_append]
    rfl
  have parts : front ++ q :: (query ++ rest) = (front ++ [q]) ++ (query ++ rest) := by
    rw [List.append_assoc]
    rfl
  rw [credentialParamCuts, first]
  simp only [parts, ← length, List.drop_left, h.queryOf_eq]
  rw [← Nat.add_zero (front ++ [q]).length, queryCuts_shift, Nat.add_zero]

/-- A URI before the query is redacted apart from it. -/
theorem redact_front (h : Asks V front q query rest) (found : V.schemeAt front = some p) :
    V.redact (front ++ q :: (query ++ rest)) =
      Cut.apply front 0 (V.userinfoCuts front) ++ q :: (V.maskQuery query ++ rest) := by
  have user : V.userinfoCuts (front ++ q :: (query ++ rest)) = V.userinfoCuts front := by
    apply userinfoCuts_append_left found
    rintro c ⟨⟩
    exact endsAuthority_of_mark h.mark
  have inside : ∀ c ∈ V.userinfoCuts front, c.start ≤ front.length ∧ c.stop ≤ front.length :=
    fun c mem => inOrder_bounds (List.mem_append_left _ mem)
  have length : (front ++ [q]).length = front.length + 1 := by
    rw [List.length_append]
    rfl
  have order : V.inOrder (front ++ q :: (query ++ rest)) = V.userinfoCuts front ++
      (V.queryCuts 0 query).map (Cut.shift (front ++ [q]).length) := by
    rw [inOrder, user, h.params]
    cases cuts : V.userinfoCuts front with
    | nil => rfl
    | cons u us =>
        obtain none_ | ⟨scheme, at', -, -, one⟩ := V.userinfoCuts_cases front
        · rw [none_] at cuts
          contradiction
        · have single : us = [] := by
            rw [one] at cuts
            exact (List.cons.inj cuts).2.symm
          have later : ∀ c ∈ (V.queryCuts 0 query).map (Cut.shift (front ++ [q]).length),
              u.start ≤ c.start := by
            intro c mem
            have start := mem_queryCuts_shift mem
            have bound := (inside u (cuts ▸ List.mem_cons_self)).1
            omega
          simp only [Cut.below_of_le later, Cut.above_of_le later, single]
          rfl
  rw [redact_eq, sorted_eq, order, apply_pairs (Nat.zero_le _) inside,
    Cut.apply_append_left (Nat.zero_le _) fun c mem => queryCuts_inside mem]
  rfl

theorem schemeAt_append (h : Asks V front q query rest) (none_ : V.schemeAt front = none)
    (t : List α) : V.schemeAt ((front ++ [q]) ++ t) =
      (V.schemeAt t).map ((front ++ [q]).length + ·) := by
  apply schemeAt_append_of_none
  · rw [schemeAt_append_of_none none_ (.inl ?_), schemeAt_of_no_slash ?_]
    · rfl
    · rintro c (_ | ⟨_, ⟨⟩⟩)
      rw [h.mark]
      decide
    · rintro c ⟨⟩
      rw [h.mark]
      decide
  · refine .inr fun c last => ?_
    rw [List.getLast?_concat] at last
    cases last
    rw [h.mark]
    decide

/-- With no URI before the query, all that goes is behind the `?`. -/
theorem redact_behind (h : Asks V front q query rest) (none_ : V.schemeAt front = none) :
    V.redact (front ++ q :: (query ++ rest)) = front ++ q :: Cut.apply (query ++ rest) 0
      (V.sorted (V.userinfoCuts (query ++ rest) ++ V.queryCuts 0 query)) := by
  have parts : front ++ q :: (query ++ rest) = (front ++ [q]) ++ (query ++ rest) := by
    rw [List.append_assoc]
    rfl
  have user : V.userinfoCuts (front ++ q :: (query ++ rest)) =
      (V.userinfoCuts (query ++ rest)).map (Cut.shift (front ++ [q]).length) := by
    rw [parts]
    exact userinfoCuts_append (h.schemeAt_append none_ _)
  have outside : ∀ c ∈ ([] : List (Cut α)), c.start ≤ front.length ∧ c.stop ≤ front.length :=
    fun c mem => absurd mem List.not_mem_nil
  rw [redact_eq, user, h.params, ← List.map_append, sorted_shift]
  exact apply_pairs (Nat.zero_le _) outside _

/-- The cuts of a query whose first URI is in it. -/
theorem sorted_query (h : Asks V front q query rest) (found : V.schemeAt query = some p) :
    V.userinfoCuts query = [] ∧
        V.sorted (V.userinfoCuts query ++ V.queryCuts 0 query) = V.queryCuts 0 query ∨
      ∃ k, V.lastAt (V.authorityOf (query.drop (p + 3))) = some k ∧
        V.sorted (V.userinfoCuts query ++ V.queryCuts 0 query) =
          Cut.below (p + 3) (V.queryCuts 0 query) ++
            ⟨p + 3, p + 3 + k, V.userinfo⟩ :: Cut.above (p + 3) (V.queryCuts 0 query) := by
  obtain none_ | ⟨scheme, k, found', last, one⟩ := V.userinfoCuts_cases query
  · rw [none_]
    exact .inl ⟨rfl, sorted_of_apart (apart_queryCuts query)⟩
  · obtain rfl := Option.some.inj (found.symm.trans found')
    refine .inr ⟨k, last, ?_⟩
    rw [one]
    apply sorted_cons (apart_queryCuts query)
    intro c mem
    have all : V.queryOf (query.drop 0) = query :=
      List.takeWhile_eq_self_iff.2 fun c mem => by rw [h.query c mem]; rfl
    exact start_ne (p := 0) (by rw [all]; exact isValue_of_mem mem) found

/-- The cuts of a query that no URI is before or in. -/
theorem sorted_rest (h : Asks V front q query rest) (none_ : V.schemeAt query = none) :
    V.sorted (V.userinfoCuts (query ++ rest) ++ V.queryCuts 0 query) =
      V.queryCuts 0 query ++ (V.userinfoCuts rest).map (Cut.shift query.length) := by
  have user : V.userinfoCuts (query ++ rest) =
      (V.userinfoCuts rest).map (Cut.shift query.length) := by
    apply userinfoCuts_append
    apply schemeAt_append_of_none none_
    refine .inl fun c head => ?_
    intro slash
    have ends := h.rest c head
    rw [endsQuery, slash] at ends
    contradiction
  rw [user]
  obtain none' | ⟨scheme, k, -, -, one⟩ := V.userinfoCuts_cases rest
  · rw [none', List.map_nil, List.nil_append, List.append_nil]
    exact sorted_of_apart (apart_queryCuts query)
  · have first : ∀ c ∈ V.queryCuts 0 query, c.start < query.length + (scheme + 3) := by
      intro c mem
      have bound := (queryCuts_inside mem).1
      omega
    rw [one, List.map_singleton]
    show V.sorted (Cut.shift query.length ⟨scheme + 3, _, _⟩ :: V.queryCuts 0 query) = _
    rw [sorted_cons (apart_queryCuts query) fun c mem => (first c mem).ne]
    show Cut.below (query.length + (scheme + 3)) _ ++
      _ :: Cut.above (query.length + (scheme + 3)) _ = _
    rw [Cut.below_of_lt first, Cut.above_of_lt first]

end Asks

theorem lastAt_spec {k : ℕ} (found : V.lastAt s = some k) :
    ∃ x a y, s = x ++ a :: y ∧ x.length = k ∧ V.code a = 64 ∧ ∀ c ∈ y, V.code c ≠ 64 := by
  induction s generalizing k with
  | nil => exact absurd found.symm (Option.some_ne_none _)
  | cons c s ih =>
      rw [lastAt] at found
      cases later : V.lastAt s with
      | some j =>
          rw [later] at found
          cases found
          obtain ⟨x, a, y, rfl, rfl, here, behind⟩ := ih later
          exact ⟨c :: x, a, y, rfl, rfl, here, behind⟩
      | none =>
          rw [later] at found
          have here : (if V.code c = 64 then some 0 else none) = some k := found
          split at here
          · cases here
            refine ⟨[], c, s, rfl, rfl, ‹_›, ?_⟩
            intro d mem same
            obtain ⟨j, some_⟩ := exists_lastAt mem same
            rw [later] at some_
            contradiction
          · contradiction

/-- The `@` that a userinfo ends at. -/
theorem head_at_last {k m : ℕ} (last : V.lastAt (V.authorityOf (s.drop m)) = some k) :
    ∃ a y, s.drop (m + k) = a :: y ∧ V.code a = 64 ∧
      ∀ c ∈ (V.authorityOf (s.drop m)).drop (k + 1), V.code c ≠ 64 := by
  obtain ⟨x, a, y, parts, rfl, here, behind⟩ := lastAt_spec last
  obtain ⟨tail, whole⟩ := List.takeWhile_prefix (l := s.drop m) fun c => !V.endsAuthority c
  have text : V.authorityOf (s.drop m) ++ tail = s.drop m := whole
  refine ⟨a, y ++ tail, ?_, here, ?_⟩
  · rw [← List.drop_drop, ← text, parts, List.append_assoc, List.drop_left]
    rfl
  · have after : (x ++ a :: y).drop (x.length + 1) = y := by
      rw [← List.drop_drop, List.drop_left]
      rfl
    rw [parts, after]
    exact behind

theorem head_apply_userinfo (s : List α) :
    (Cut.apply s 0 (V.userinfoCuts s)).head? = s.head? := by
  obtain none_ | ⟨scheme, k, found, -, one⟩ := V.userinfoCuts_cases s
  · rw [none_]
    rfl
  · have long := scheme_lt_length found
    rw [one, Cut.apply_cut (Nat.zero_le _), List.append_assoc]
    cases s with
    | nil => exact absurd long (by simp)
    | cons c s => rfl

/-- Where a URI of the query has a userinfo, no value of a settled text holds its `://`. -/
theorem Asks.apart_of_settled {front query rest y : List α} {q a : α} {scheme k : ℕ}
    (h : Asks V front q query rest) (before : V.schemeAt front = none)
    (inside : V.schemeAt query = some scheme) (at' : query.drop (scheme + 3 + k) = a :: y)
    (here : V.code a = 64) (settled : V.Settled (front ++ q :: (query ++ rest))) :
    ∀ c ∈ V.queryCuts 0 query, ¬ (c.start ≤ scheme ∧ scheme < c.stop) := by
  have parts : front ++ q :: (query ++ rest) = (front ++ [q]) ++ (query ++ rest) := by
    rw [List.append_assoc]
    rfl
  have found : V.schemeAt (front ++ q :: (query ++ rest)) =
      some ((front ++ [q]).length + scheme) := by
    rw [parts, h.schemeAt_append before, schemeAt_append_of_some inside]
    rfl
  have params := h.params
  obtain none_ | apart := settled _ found
  · refine absurd here (none_ a ?_)
    have behind : (front ++ q :: (query ++ rest)).drop ((front ++ [q]).length + scheme + 3) =
        (query ++ rest).drop (scheme + 3) := by
      rw [parts, Nat.add_assoc, ← List.drop_drop, List.drop_left]
    have mem : a ∈ query.drop (scheme + 3) := by
      apply List.mem_of_mem_drop (i := k)
      rw [List.drop_drop, at']
      exact List.mem_cons_self
    rw [behind, List.drop_append_of_le_length (scheme_lt_length inside)]
    exact List.mem_append_left _ mem
  · intro c mem holds
    have shifted : c.shift (front ++ [q]).length ∈
        V.credentialParamCuts (front ++ q :: (query ++ rest)) := by
      rw [params]
      exact List.mem_map_of_mem mem
    refine (apart _ shifted).1 ⟨Nat.add_le_add_left holds.1 _, ?_⟩
    exact Nat.add_lt_add_left holds.2 _

/-- After redaction the query is still where it was, and its values are placeholders. -/
theorem asks_redact (inert : Inert V) {front query rest : List α} {q : α}
    (h : Asks V front q query rest) (settled : V.Settled (front ++ q :: (query ++ rest))) :
    ∃ front' query' rest', V.redact (front ++ q :: (query ++ rest)) =
      front' ++ q :: (query' ++ rest') ∧ Asks V front' q query' rest' ∧ V.Masked query' := by
  have query_ : ∀ cs, (∀ c ∈ cs, c.start ≤ c.stop) →
      (∀ c ∈ cs, c.text = V.param ∨ c.text = V.userinfo) →
      ∀ c ∈ Cut.apply query 0 cs, V.endsQuery c = false := by
    intro cs fits texts c mem
    obtain kept | ⟨cut, among, text⟩ := Cut.mem_apply fits mem
    · exact h.query c kept
    · obtain param | user := texts cut among
      · rw [param] at text
        exact (inert.param_plain text).2.2.2.2.2
      · rw [user] at text
        exact (inert.userinfo_plain text).2.2.2.2.2
  have params_ : ∀ c ∈ V.queryCuts 0 query, c.start ≤ c.stop ∧ c.text = V.param := fun c mem =>
    ⟨(isValue_of_mem mem).bounds.2.1.le, (isValue_of_mem mem).text⟩
  have masked_ : ∀ c ∈ V.maskQuery query, V.endsQuery c = false :=
    query_ _ (fun c mem => (params_ c mem).1) fun c mem => .inl (params_ c mem).2
  cases before : V.schemeAt front with
  | some scheme =>
      rw [h.redact_front before]
      refine ⟨_, _, rest, rfl, ⟨?_, h.mark, masked_, h.rest⟩, masked_maskQuery inert query⟩
      intro c mem
      obtain kept | ⟨cut, among, text⟩ := Cut.mem_apply (fun d among => start_le_stop
        (List.mem_append_left _ among)) mem
      · exact h.front c kept
      · obtain none_ | ⟨scheme, at', -, -, one⟩ := V.userinfoCuts_cases front
        · rw [none_] at among
          contradiction
        · rw [one, List.mem_singleton] at among
          subst among
          exact (inert.userinfo_plain text).2.2.1
  | none =>
      rw [h.redact_behind before]
      cases inside : V.schemeAt query with
      | none =>
          have cuts : ∀ c ∈ V.queryCuts 0 query, c.start ≤ query.length ∧ c.stop ≤ query.length :=
            fun c mem => queryCuts_inside mem
          rw [h.sorted_rest inside, Cut.apply_segments (Nat.zero_le _) cuts]
          refine ⟨front, _, _, rfl, ⟨h.front, h.mark, masked_, ?_⟩, masked_maskQuery inert query⟩
          rw [head_apply_userinfo]
          exact h.rest
      | some scheme =>
          have user : V.userinfoCuts (query ++ rest) = V.userinfoCuts query :=
            userinfoCuts_append_left inside fun c head => endsAuthority_of_endsQuery (h.rest c head)
          rw [user]
          obtain ⟨none_, order⟩ | ⟨k, last, order⟩ := h.sorted_query inside
          · rw [order, Cut.apply_append_left (Nat.zero_le _) fun c mem => queryCuts_inside mem]
            exact ⟨front, _, rest, rfl, ⟨h.front, h.mark, masked_, h.rest⟩,
              masked_maskQuery inert query⟩
          · have cuts : ∀ c ∈ Cut.below (scheme + 3) (V.queryCuts 0 query) ++
                ⟨scheme + 3, scheme + 3 + k, V.userinfo⟩ ::
                  Cut.above (scheme + 3) (V.queryCuts 0 query),
                c ∈ V.userinfoCuts query ++ V.queryCuts 0 query := by
              intro c mem
              rw [← order] at mem
              exact mem_sorted.1 mem
            have one := userinfoCuts_of_some inside last
            have bounds : ∀ c ∈ V.userinfoCuts query ++ V.queryCuts 0 query,
                (c.start ≤ query.length ∧ c.stop ≤ query.length) ∧ c.start ≤ c.stop ∧
                  (c.text = V.param ∨ c.text = V.userinfo) := by
              intro c mem
              obtain user | param := List.mem_append.1 mem
              · refine ⟨inOrder_bounds (List.mem_append_left _ user),
                  start_le_stop (List.mem_append_left _ user), .inr ?_⟩
                rw [one, List.mem_singleton] at user
                rw [user]
              · exact ⟨queryCuts_inside param, (params_ c param).1, .inl (params_ c param).2⟩
            obtain ⟨a, y, at', here, -⟩ := head_at_last last
            rw [order, Cut.apply_append_left (Nat.zero_le _) fun c mem =>
              (bounds c (cuts c mem)).1]
            refine ⟨front, _, rest, rfl, ⟨h.front, h.mark, query_ _
              (fun c mem => (bounds c (cuts c mem)).2.1)
              (fun c mem => (bounds c (cuts c mem)).2.2), h.rest⟩, ?_⟩
            apply masked_query inert inside (h.apart_of_settled before inside at' here settled)
              (Nat.le_add_right _ _)
            rw [at']
            exact congrArg some here

/-! ## The first URI of what is left -/

/-- With no `@` behind where a `://` can be, there is no userinfo. -/
theorem userinfoCuts_eq_nil (none_ : V.schemeAt s = none)
    (head : ∀ c, t.head? = some c → V.code c ≠ 47) (plain : ∀ c ∈ t, V.code c ≠ 64) :
    V.userinfoCuts (s ++ t) = [] := by
  rw [userinfoCuts_append (schemeAt_append_of_none none_ (.inl head))]
  obtain nothing | ⟨scheme, k, -, last, -⟩ := V.userinfoCuts_cases t
  · rw [nothing]
    rfl
  · obtain ⟨a, y, at', here, -⟩ := head_at_last last
    refine absurd here (plain a ?_)
    apply List.mem_of_mem_drop (i := scheme + 3 + k)
    rw [at']
    exact List.mem_cons_self

/-- The values before the first `://`, and those behind it. -/
theorem exists_around_scheme (found : V.schemeAt s = some p)
    (apart : ∀ c ∈ V.credentialParamCuts s, ¬ (c.start ≤ p ∧ p < c.stop)) :
    ∃ low high, V.credentialParamCuts s = low ++ high ∧
      (∀ c ∈ low, c.start ≤ p ∧ c.stop ≤ p) ∧ (∀ c ∈ high, p + 3 < c.start) := by
  have split_ := (apart_credentialParamCuts (V := V) s).below_append_above (p + 3)
  refine ⟨_, _, split_.symm, ?_, ?_⟩
  · intro c mem
    obtain ⟨param, less⟩ := Cut.mem_below.1 mem
    obtain ⟨m, value⟩ := isValue_of_mem_credentialParamCuts param
    have equals := code_before_value value
    have fits := start_le_stop (List.mem_append_right _ param)
    obtain ⟨x, sch, y, rfl, rfl, spelled, -⟩ := exists_scheme found
    have positive := value.bounds.1
    have low : c.start ≤ x.length := by
      by_contra more
      obtain ⟨i, start⟩ := Nat.exists_eq_add_of_le (show x.length + 1 ≤ c.start by omega)
      have index : c.start - 1 = x.length + i := by omega
      have three := length_scheme spelled
      have letter : (x ++ (sch ++ y))[x.length + i]? = sch[i]? := by
        rw [List.getElem?_append_right (Nat.le_add_right _ _), Nat.add_sub_cancel_left,
          List.getElem?_append_left (by omega)]
      rw [index, letter, ← List.getElem?_map, spelled] at equals
      have small : i = 0 ∨ i = 1 := by omega
      obtain rfl | rfl := small
      · exact absurd equals (by decide)
      · exact absurd equals (by decide)
    have outside := apart c param
    omega
  · intro c mem
    obtain ⟨param, more⟩ := Cut.mem_above.1 mem
    obtain ⟨m, value⟩ := isValue_of_mem_credentialParamCuts param
    exact Nat.lt_of_le_of_ne more (start_ne value found).symm

/-- A text whose first `://` no value holds: what stands before it is redacted apart from what
stands behind it. -/
theorem redact_around {low high : List (Cut α)} (found : V.schemeAt s = some p)
    (split_ : V.credentialParamCuts s = low ++ high)
    (before : ∀ c ∈ low, c.start ≤ p ∧ c.stop ≤ p) (behind : ∀ c ∈ high, p + 3 < c.start) :
    V.redact s = Cut.apply (s.take p) 0 low ++
      ((s.drop p).take 3 ++ Cut.apply s (p + 3) (V.userinfoCuts s ++ high)) := by
  have start : ∀ u ∈ V.userinfoCuts s, u.start = p + 3 := by
    intro u mem
    obtain none_ | ⟨scheme, k, found', -, one⟩ := V.userinfoCuts_cases s
    · rw [none_] at mem
      contradiction
    · obtain rfl := Option.some.inj (found.symm.trans found')
      rw [one, List.mem_singleton] at mem
      rw [mem]
  have order : V.inOrder s = low ++ (V.userinfoCuts s ++ high) := by
    rw [inOrder, split_]
    obtain none_ | ⟨scheme, k, found', -, one⟩ := V.userinfoCuts_cases s
    · rw [none_]
      rfl
    · obtain rfl := Option.some.inj (found.symm.trans found')
      have first : ∀ c ∈ low, c.start < p + 3 := fun c mem =>
        (before c mem).1.trans_lt (Nat.lt_add_of_pos_right (by decide))
      have later : ∀ c ∈ high, p + 3 ≤ c.start := fun c mem => (behind c mem).le
      rw [one]
      simp only [Cut.below_append, Cut.above_append, Cut.below_of_lt first, Cut.above_of_lt first,
        Cut.below_of_le later, Cut.above_of_le later]
      rw [List.append_nil, List.nil_append, List.singleton_append]
  have later : ∀ c ∈ V.userinfoCuts s ++ high, p + 3 ≤ c.start := by
    intro c mem
    obtain user | param := List.mem_append.1 mem
    · exact (start c user).ge
    · exact (behind c param).le
  have later' : ∀ c ∈ V.userinfoCuts s ++ high, p ≤ c.start := fun c mem =>
    (Nat.le_add_right p 3).trans (later c mem)
  have kept := Cut.apply_from (s := s) (Nat.le_add_right p 3) later
  rw [Nat.add_sub_cancel_left] at kept
  rw [redact_eq, sorted_eq, order, Cut.apply_append (Nat.zero_le p) before later', kept]

theorem userinfoCuts_of_none (none_ : V.schemeAt s = none) : V.userinfoCuts s = [] := by
  rw [userinfoCuts, none_]

theorem text_of_params {c : Cut α} (mem : c ∈ V.credentialParamCuts s) : c.text = V.param := by
  obtain ⟨m, value⟩ := isValue_of_mem_credentialParamCuts mem
  exact value.text

/-- A text without an `@` behind its first `://` has no userinfo after redaction either. -/
theorem userinfoCuts_redact_plain (inert : Inert V) (found : V.schemeAt s = some p)
    (plain : ∀ c ∈ s.drop (p + 3), V.code c ≠ 64) : V.userinfoCuts (V.redact s) = [] := by
  have user : V.userinfoCuts s = [] := by
    obtain none_ | ⟨scheme, k, found', last, -⟩ := V.userinfoCuts_cases s
    · exact none_
    · obtain rfl := Option.some.inj (found.symm.trans found')
      obtain ⟨a, y, at', here, -⟩ := head_at_last last
      refine absurd here (plain a ?_)
      apply List.mem_of_mem_drop (i := k)
      rw [List.drop_drop, at']
      exact List.mem_cons_self
  have spelled := spelled_at found
  have plain' : ∀ c ∈ s.drop p, V.code c ≠ 64 := by
    intro c mem same
    rw [← List.take_append_drop 3 (s.drop p), List.drop_drop] at mem
    obtain scheme | behind := List.mem_append.1 mem
    · have code := List.mem_map_of_mem (f := V.code) scheme
      rw [spelled, same] at code
      exact absurd code (by decide)
    · exact plain c behind same
  have quiet : ∀ (n : ℕ) (cs : List (Cut α)), p ≤ n → (∀ c ∈ cs, c ∈ V.credentialParamCuts s) →
      ∀ c ∈ Cut.apply s n cs, V.code c ≠ 64 := by
    intro n cs behind params c mem
    obtain kept | ⟨cut, among, text⟩ := Cut.mem_apply (fun d among =>
      start_le_stop (List.mem_append_right _ (params d among))) mem
    · apply plain'
      rw [← Nat.add_sub_cancel' behind, ← List.drop_drop] at kept
      exact List.mem_of_mem_drop kept
    · rw [text_of_params (params cut among)] at text
      exact (inert.param_plain text).2.2.2.1
  by_cases holds : ∃ c ∈ V.credentialParamCuts s, c.start ≤ p ∧ p < c.stop
  · obtain ⟨c, mem, starts, stops⟩ := holds
    obtain ⟨low, high, parts⟩ := List.append_of_mem mem
    have apart := apart_credentialParamCuts (V := V) s
    rw [parts] at apart
    obtain ⟨-, after, among⟩ := List.pairwise_append.1 apart.2
    have before : ∀ d ∈ low, d.start ≤ c.start ∧ d.stop ≤ c.start := by
      intro d inside
      have stop := (among d inside c List.mem_cons_self).le
      exact ⟨(apart.1 d (List.mem_append_left _ inside)).trans stop, stop⟩
    have later : ∀ d ∈ c :: high, c.start ≤ d.start := by
      refine List.forall_mem_cons.2 ⟨le_rfl, fun d inside => ?_⟩
      exact (starts.trans stops.le).trans ((List.pairwise_cons.1 after).1 d inside).le
    have first : V.schemeAt (s.take c.start) = none := by
      apply schemeAt_infix (schemeAt_take found)
      rw [← Nat.min_eq_left starts, ← List.take_take]
      exact (List.take_prefix _ _).isInfix
    rw [redact_eq, user, List.nil_append, sorted_of_apart (apart_credentialParamCuts s), parts,
      Cut.apply_append (Nat.zero_le _) before later, Cut.apply_cut le_rfl, Nat.sub_self,
      List.take_zero, List.nil_append, text_of_params mem]
    apply userinfoCuts_eq_nil
    · apply schemeAt_apply inert first
      intro d inside
      exact text_of_params (parts ▸ List.mem_append_left _ inside)
    · intro d head
      obtain ⟨e, last, -⟩ := inert.last
      rw [List.head?_append_of_ne_nil] at head
      · exact (inert.param_plain (List.mem_of_head? head)).2.1
      · rintro empty
        rw [empty] at last
        contradiction
    · intro d mem
      obtain param | behind := List.mem_append.1 mem
      · exact (inert.param_plain param).2.2.2.1
      · refine quiet c.stop high stops.le (fun e inside => ?_) d behind
        exact parts ▸ List.mem_append_right _ (List.mem_cons_of_mem _ inside)
  · have apart : ∀ c ∈ V.credentialParamCuts s, ¬ (c.start ≤ p ∧ p < c.stop) :=
      fun c mem both => holds ⟨c, mem, both⟩
    obtain ⟨low, high, parts, before, behind⟩ := exists_around_scheme found apart
    rw [redact_around found parts before behind, user, List.nil_append]
    apply userinfoCuts_eq_nil
    · apply schemeAt_apply inert (schemeAt_take found)
      intro d inside
      exact text_of_params (parts ▸ List.mem_append_left _ inside)
    · intro d head
      rw [head_scheme spelled head]
      decide
    · intro d mem
      obtain scheme | rest := List.mem_append.1 mem
      · exact plain' d (List.mem_of_mem_take scheme)
      · refine quiet (p + 3) high (Nat.le_add_right _ _) (fun e inside => ?_) d rest
        exact parts ▸ List.mem_append_right _ inside

/-- Where no value holds the end of an authority, it ends behind the same values. -/
theorem apply_host {high : List (Cut α)} (apart : Cut.Apart high) {e : ℕ} (low : n ≤ e)
    (inside : ∀ c ∈ high, c.start ≤ s.length) (ends : ∀ c, s[e]? = some c → V.endsAuthority c = true)
    (closed : ∀ c ∈ high, n ≤ c.start → c.start ≤ e → c.stop ≤ e) :
    ∃ rest, (∀ c, rest.head? = some c → V.endsAuthority c = true) ∧
      Cut.apply s n high =
        Cut.apply (s.take e) n (Cut.below (e + 1) (Cut.above n high)) ++ rest := by
  have skipped : Cut.apply s n high = Cut.apply s n (Cut.above n high) := by
    have split_ := apart.below_append_above n
    have before : ∀ c ∈ Cut.below n high, c.start < n := fun c mem => (Cut.mem_below.1 mem).2
    have skips : Cut.apply s n (Cut.below n high ++ Cut.above n high) =
        Cut.apply s n (Cut.above n high) := Cut.apply_skips before
    rw [split_] at skips
    exact skips
  have before : ∀ c ∈ Cut.below (e + 1) (Cut.above n high), c.start ≤ e ∧ c.stop ≤ e := by
    intro c mem
    obtain ⟨among, less⟩ := Cut.mem_below.1 mem
    obtain ⟨param, more⟩ := Cut.mem_above.1 among
    exact ⟨Nat.le_of_lt_succ less, closed c param more (Nat.le_of_lt_succ less)⟩
  have behind : ∀ c ∈ Cut.above (e + 1) (Cut.above n high), e + 1 ≤ c.start := fun c mem =>
    (Cut.mem_above.1 mem).2
  have later : ∀ c ∈ Cut.above (e + 1) (Cut.above n high), e ≤ c.start := fun c mem =>
    (Nat.le_succ e).trans (behind c mem)
  refine ⟨Cut.apply s e (Cut.above (e + 1) (Cut.above n high)), ?_, ?_⟩
  · intro c head
    cases tail : s.drop e with
    | nil =>
        have short := List.drop_eq_nil_iff.1 tail
        have none_ : Cut.above (e + 1) (Cut.above n high) = [] := by
          apply Cut.above_of_lt
          intro d mem
          exact Nat.lt_succ_of_le ((inside d (Cut.mem_above.1 mem).1).trans short)
        rw [none_] at head
        have empty : (s.drop e).head? = some c := head
        rw [tail] at empty
        contradiction
    | cons d rest =>
        rw [Cut.apply_from (Nat.le_succ e) behind, tail, Nat.succ_sub (le_refl e), Nat.sub_self]
          at head
        cases head
        apply ends
        rw [← List.head?_drop, tail]
        rfl
  · rw [skipped, ← Cut.apply_append low before later, (apart.above n).below_append_above]

theorem authorityOf_append_of_head (inside : ∀ c ∈ s, V.endsAuthority c = false)
    (ends : ∀ c, t.head? = some c → V.endsAuthority c = true) : V.authorityOf (s ++ t) = s := by
  have all : s.takeWhile (fun c => !V.endsAuthority c) = s :=
    List.takeWhile_eq_self_iff.2 fun c mem => by rw [inside c mem]; rfl
  rw [authorityOf, takeWhile_append_of_head, all]
  intro c head
  rw [ends c head]
  rfl

/-- The userinfo of a URI is the placeholder if the URI begins with it where it has one. -/
theorem userinfo_of_host (found : V.schemeAt s = some p)
    (host : ∀ k, V.lastAt (V.authorityOf (s.drop (p + 3))) = some k →
      (s.drop (p + 3)).take k = V.userinfo) :
    ∀ u ∈ V.userinfoCuts s, (s.drop u.start).take (u.stop - u.start) = V.userinfo := by
  intro u mem
  obtain none_ | ⟨scheme, k, found', last, one⟩ := V.userinfoCuts_cases s
  · rw [none_] at mem
    contradiction
  · obtain rfl := Option.some.inj (found.symm.trans found')
    rw [one, List.mem_singleton] at mem
    rw [mem]
    show (s.drop (p + 3)).take (p + 3 + k - (p + 3)) = V.userinfo
    rw [Nat.add_sub_cancel_left, host k last]

theorem authority_split (s : List α) :
    ∃ t, s = V.authorityOf s ++ t ∧ ∀ c, t.head? = some c → V.endsAuthority c = true := by
  refine ⟨s.dropWhile fun c => !V.endsAuthority c, List.takeWhile_append_dropWhile.symm, ?_⟩
  intro c head
  have fails := List.head?_dropWhile_not (fun c => !V.endsAuthority c) s
  rw [head] at fails
  simpa using fails

theorem mem_authorityOf {c : α} (mem : c ∈ V.authorityOf s) : V.endsAuthority c = false := by
  have holds := List.mem_takeWhile_imp mem
  simpa using holds

theorem ends_at_hostEnd {c : α} (here : s[V.hostEnd s p]? = some c) :
    V.endsAuthority c = true := by
  obtain ⟨tail, whole, ends⟩ := V.authority_split (s.drop (p + 3))
  have behind := congrArg (List.drop (V.authorityOf (s.drop (p + 3))).length) whole
  rw [List.drop_left, List.drop_drop] at behind
  apply ends
  rw [← behind, List.head?_drop]
  exact here

theorem drop_take_hostEnd (k : ℕ) :
    (s.take (V.hostEnd s p)).drop (p + 3 + k) = (V.authorityOf (s.drop (p + 3))).drop k := by
  have whole : (s.drop (p + 3)).take (V.authorityOf (s.drop (p + 3))).length =
      V.authorityOf (s.drop (p + 3)) :=
    (List.prefix_iff_eq_take.1 (List.takeWhile_prefix _)).symm
  rw [← List.drop_drop, List.drop_take, hostEnd, Nat.add_sub_cancel_left, whole]

/-- The values of an authority, from an `@` on, where there is none behind. Either the `@` is
kept, or a value that begins there goes. -/
theorem host_cases (inert : Inert V) {rest : List α} (apart : Cut.Apart cs)
    (fits : ∀ c ∈ cs, c.start < c.stop ∧ c.text = V.param) (later : ∀ c ∈ cs, n ≤ c.start)
    (at' : s.drop n = a :: rest) (plain : ∀ c ∈ rest, V.code c ≠ 64) :
    (∃ y, Cut.apply s n cs = a :: y ∧ ∀ c ∈ y, V.code c ≠ 64) ∨
      ∀ c ∈ Cut.apply s n cs, V.code c ≠ 64 := by
  have quiet : ∀ m ds, n + 1 ≤ m → (∀ c ∈ ds, c ∈ cs) →
      ∀ c ∈ Cut.apply s m ds, V.code c ≠ 64 := by
    intro m ds behind among c mem
    obtain kept | ⟨cut, inside, text⟩ := Cut.mem_apply (fun d inside =>
      (fits d (among d inside)).1.le) mem
    · apply plain
      rw [← Nat.add_sub_cancel' behind, ← List.drop_drop, ← List.drop_drop, at'] at kept
      exact List.mem_of_mem_drop kept
    · rw [(fits cut (among cut inside)).2] at text
      exact (inert.param_plain text).2.2.2.1
  have keeps : (∀ c ∈ cs, n + 1 ≤ c.start) →
      ∃ y, Cut.apply s n cs = a :: y ∧ ∀ c ∈ y, V.code c ≠ 64 := by
    intro behind
    refine ⟨Cut.apply s (n + 1) cs, ?_, quiet (n + 1) cs le_rfl fun c mem => mem⟩
    rw [Cut.apply_from (Nat.le_succ n) behind, at', Nat.succ_sub le_rfl, Nat.sub_self]
    rfl
  cases cs with
  | nil => exact .inl (keeps fun c mem => absurd mem List.not_mem_nil)
  | cons d ds =>
      obtain first | more := (later d List.mem_cons_self).eq_or_lt
      · right
        intro c mem
        obtain ⟨positive, text⟩ := fits d List.mem_cons_self
        rw [Cut.apply_cut first.le, ← first, Nat.sub_self, List.take_zero, List.nil_append, text]
          at mem
        obtain param | behind := List.mem_append.1 mem
        · exact (inert.param_plain param).2.2.2.1
        · refine quiet d.stop ds (by omega) (fun e among => List.mem_cons_of_mem _ among) c behind
      · refine .inl (keeps (List.forall_mem_cons.2 ⟨more, fun e among => ?_⟩))
        exact Nat.succ_le_of_lt (Nat.lt_trans more (apart.start_lt e among))

/-- Where no value holds the first `://` or the end of its authority, the only userinfo after
redaction is the placeholder. -/
theorem userinfo_redact (inert : Inert V) (found : V.schemeAt s = some p)
    (apart : ∀ c ∈ V.credentialParamCuts s, ¬ (c.start ≤ p ∧ p < c.stop) ∧
      ¬ (V.hostAt s p ≤ c.start ∧ c.start ≤ V.hostEnd s p ∧ V.hostEnd s p < c.stop)) :
    ∀ u ∈ V.userinfoCuts (V.redact s),
      ((V.redact s).drop u.start).take (u.stop - u.start) = V.userinfo := by
  obtain ⟨low, high, parts, before, behind⟩ :=
    exists_around_scheme found fun c mem => (apart c mem).1
  have spelled := spelled_at found
  have first : V.schemeAt (Cut.apply (s.take p) 0 low) = none := by
    apply schemeAt_apply inert (schemeAt_take found)
    intro d inside
    exact text_of_params (parts ▸ List.mem_append_left _ inside)
  have params : ∀ c ∈ high, c ∈ V.credentialParamCuts s := fun c mem =>
    parts ▸ List.mem_append_right _ mem
  have apart_ : Cut.Apart high := by
    have all := apart_credentialParamCuts (V := V) s
    rw [parts] at all
    exact ⟨fun c mem => all.1 c (List.mem_append_right _ mem), (List.pairwise_append.1 all.2).2.1⟩
  have fits : ∀ c ∈ high, c.start < c.stop ∧ c.text = V.param := by
    intro c mem
    obtain ⟨m, value⟩ := isValue_of_mem_credentialParamCuts (params c mem)
    exact ⟨value.bounds.2.1, value.text⟩
  have inside : ∀ c ∈ high, c.start ≤ s.length := fun c mem =>
    (inOrder_bounds (List.mem_append_right _ (params c mem))).1
  have closed : ∀ n, V.hostAt s p ≤ n → ∀ c ∈ high, n ≤ c.start →
      c.start ≤ V.hostEnd s p → c.stop ≤ V.hostEnd s p := by
    intro n host c mem more less
    by_contra past
    exact (apart c (params c mem)).2 ⟨host.trans more, less, Nat.not_le.1 past⟩
  have plain : ∀ n ds, p + 3 ≤ n → (∀ c ∈ ds, c ∈ high) →
      ∀ c ∈ Cut.apply (s.take (V.hostEnd s p)) n ds, V.endsAuthority c = false := by
    intro n ds more among c mem
    obtain kept | ⟨cut, listed, text⟩ := Cut.mem_apply (fun d listed =>
      (fits d (among d listed)).1.le) mem
    · obtain ⟨k, rfl⟩ := Nat.exists_eq_add_of_le more
      rw [drop_take_hostEnd] at kept
      exact mem_authorityOf (List.mem_of_mem_drop kept)
    · rw [(fits cut (among cut listed)).2] at text
      exact (inert.param_plain text).2.2.2.2.1
  have among : ∀ n m, ∀ c ∈ Cut.below m (Cut.above n high), c ∈ high := fun n m c mem =>
    (Cut.mem_above.1 (Cut.mem_below.1 mem).1).1
  rw [redact_around found parts before behind]
  apply userinfo_of_host (schemeAt_append_scheme first spelled)
  intro k last
  have length : (Cut.apply (s.take p) 0 low).length + 3 =
      (Cut.apply (s.take p) 0 low ++ (s.drop p).take 3).length := by
    rw [List.length_append, length_scheme spelled]
  rw [← List.append_assoc, length, List.drop_left] at last ⊢
  cases found' : V.lastAt (V.authorityOf (s.drop (p + 3))) with
  | none =>
      have user : V.userinfoCuts s = [] := by
        rw [userinfoCuts, found]
        simp only [found']
      have host : V.hostAt s p = p + 3 := by
        rw [hostAt, found']
        rfl
      obtain ⟨rest, ends, applied⟩ := apply_host (V := V) (n := p + 3) (e := V.hostEnd s p) apart_
        (Nat.le_add_right _ _) inside (fun c here => ends_at_hostEnd here) (closed _ host.le)
      rw [user, List.nil_append, applied,
        authorityOf_append_of_head (plain _ _ le_rfl (among _ _)) ends, lastAt_eq_none] at last
      · contradiction
      · intro c mem same
        obtain kept | ⟨cut, listed, text⟩ := Cut.mem_apply (fun d listed =>
          (fits d (among _ _ d listed)).1.le) mem
        · have kept' := drop_take_hostEnd (V := V) (s := s) (p := p) 0
          rw [Nat.add_zero, List.drop_zero] at kept'
          rw [kept'] at kept
          obtain ⟨j, some_⟩ := exists_lastAt kept same
          rw [found'] at some_
          contradiction
        · rw [(fits cut (among _ _ cut listed)).2] at text
          exact (inert.param_plain text).2.2.2.1 same
  | some j =>
      have host : V.hostAt s p = p + 3 + j := by
        rw [hostAt, found']
        rfl
      have short : p + 3 + j ≤ V.hostEnd s p :=
        Nat.add_le_add_left (lastAt_lt_length found').le _
      obtain ⟨rest, ends, applied⟩ := apply_host (V := V) (n := p + 3 + j) (e := V.hostEnd s p)
        apart_ short inside (fun c here => ends_at_hostEnd here) (closed _ host.le)
      have user : Cut.apply s (p + 3) (V.userinfoCuts s ++ high) = V.userinfo ++
          Cut.apply (s.take (V.hostEnd s p)) (p + 3 + j)
            (Cut.below (V.hostEnd s p + 1) (Cut.above (p + 3 + j) high)) ++ rest := by
        have replaced : Cut.apply s (p + 3) (⟨p + 3, p + 3 + j, V.userinfo⟩ :: high) =
            (s.drop (p + 3)).take (p + 3 - (p + 3)) ++ V.userinfo ++
              Cut.apply s (p + 3 + j) high := Cut.apply_cut (le_refl (p + 3))
        rw [userinfoCuts_of_some found found', List.singleton_append, replaced, Nat.sub_self,
          List.take_zero, List.nil_append, applied, List.append_assoc]
      have clean : ∀ c ∈ V.userinfo ++ Cut.apply (s.take (V.hostEnd s p)) (p + 3 + j)
          (Cut.below (V.hostEnd s p + 1) (Cut.above (p + 3 + j) high)),
          V.endsAuthority c = false := by
        intro c mem
        obtain user | own := List.mem_append.1 mem
        · exact (inert.userinfo_plain user).2.2.2.2.1
        · exact plain _ _ (Nat.le_add_right _ _) (among _ _) c own
      rw [user] at last ⊢
      rw [authorityOf_append_of_head clean ends] at last
      obtain ⟨x, a, y, parts', rfl, here, behind'⟩ := lastAt_spec found'
      have begins : (s.take (V.hostEnd s p)).drop (p + 3 + x.length) = a :: y := by
        rw [drop_take_hostEnd, parts', List.drop_left]
      have apart' : Cut.Apart
          (Cut.below (V.hostEnd s p + 1) (Cut.above (p + 3 + x.length) high)) :=
        ⟨fun c mem => (fits c (among _ _ c mem)).1.le, (apart_.above _).2.filter _⟩
      obtain ⟨z, applied', quiet⟩ | quiet := host_cases inert apart'
        (fun c mem => fits c (among _ _ c mem))
        (fun c mem => (Cut.mem_above.1 (Cut.mem_below.1 mem).1).2) begins behind'
      · rw [applied', lastAt_append_cons here (lastAt_eq_none quiet)] at last
        cases last
        rw [List.append_assoc, List.take_left]
      · rw [lastAt_eq_none] at last
        · contradiction
        · intro c mem
          obtain user' | own := List.mem_append.1 mem
          · exact (inert.userinfo_plain user').2.2.2.1
          · exact quiet c own

/-- What has been redacted is kept when it is redacted again, if the text was settled. -/
theorem redact_redact (inert : Inert V) (settled : V.Settled s) :
    V.redact (V.redact s) = V.redact s := by
  apply redact_of_self
  intro c mem
  obtain user | param := List.mem_append.1 mem
  · have text : c.text = V.userinfo := by
      obtain none_ | ⟨scheme, k, -, -, one⟩ := V.userinfoCuts_cases (V.redact s)
      · rw [none_] at user
        contradiction
      · rw [one, List.mem_singleton] at user
        rw [user]
    rw [text]
    cases found : V.schemeAt s with
    | none =>
        have none_ : V.userinfoCuts (V.redact s) = [] := by
          rw [redact_eq, userinfoCuts_of_none found, List.nil_append,
            sorted_of_apart (apart_credentialParamCuts s)]
          exact userinfoCuts_of_none
            (schemeAt_apply inert found fun c mem => text_of_params mem)
        rw [none_] at user
        contradiction
    | some scheme =>
        obtain plain | apart := settled scheme found
        · rw [userinfoCuts_redact_plain inert found plain] at user
          contradiction
        · exact userinfo_redact inert found apart c user
  · rw [text_of_params param]
    obtain plain | ⟨front, q, query, rest, rfl, asks⟩ := V.asks_cases s
    · have none_ : V.credentialParamCuts (V.redact s) = [] := by
        have nowhere : (V.redact s).findIdx? (fun c => V.code c == 63) = none := by
          apply List.findIdx?_eq_none_iff.2
          intro c mem
          apply beq_eq_false_iff_ne.2
          obtain kept | user | param := mem_redact mem
          · exact plain c kept
          · exact (inert.userinfo_plain user).2.2.1
          · exact (inert.param_plain param).2.2.1
        rw [credentialParamCuts, nowhere]
      rw [none_] at param
      contradiction
    · obtain ⟨front', query', rest', redacted, asks', masked⟩ := asks_redact inert asks settled
      rw [redacted] at param ⊢
      rw [asks'.params] at param
      obtain ⟨d, among, rfl⟩ := List.mem_map.1 param
      have parts : front' ++ q :: (query' ++ rest') = (front' ++ [q]) ++ (query' ++ rest') := by
        rw [List.append_assoc]
        rfl
      have width : (Cut.shift (front' ++ [q]).length d).stop -
          (Cut.shift (front' ++ [q]).length d).start = d.stop - d.start :=
        Nat.add_sub_add_left _ _ _
      have place : (Cut.shift (front' ++ [q]).length d).start =
          (front' ++ [q]).length + d.start := rfl
      have bounds := (isValue_of_mem among).bounds
      rw [parts, width, place, ← List.drop_drop, List.drop_left,
        List.drop_append_of_le_length (by omega),
        List.take_append_of_le_length (by rw [List.length_drop]; omega), masked d among]

end Hx.Redact.Vocabulary
