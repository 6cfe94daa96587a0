import Hx.Library.Cuts
import Mathlib.Data.Bool.AllAny
import Mathlib.Data.List.TakeWhile

/-!
# Credentials in a target

A request target carries a credential as the userinfo of an authority, or as the value of a
parameter with a well-known name. The extension redacts both in a request line and the store
redacts both in a url, by one rule over two alphabets.
-/

namespace Hx.Redact

open Hx.Library

variable {α : Type}

/-- An alphabet by its code points, the two placeholders, the parameters that are
credentials, and the order cuts are sorted in. -/
structure Vocabulary (α : Type) where
  code : α → ℕ
  ofCode : ℕ → α
  userinfo : List α
  param : List α
  isCredentialParam : List α → Bool
  before : Cut α → Cut α → Bool
  code_ofCode : ∀ n < 128, code (ofCode n) = n
  userinfo_ne_nil : userinfo ≠ []
  userinfo_plain : ∀ c ∈ userinfo, code c ≠ 38 ∧ code c ≠ 61
  name_plain : ∀ name, isCredentialParam name = true →
    ∀ c ∈ name, code c ∉ [9, 10, 13, 32, 35, 38, 47, 58, 61, 63, 64]
  ordered : ∀ c d, c.start < d.start → before c d = true
  strict : ∀ c d, before c d = true → c.start ≤ d.start
  before_shift : ∀ n c d, before (c.shift n) (d.shift n) = before c d

namespace Vocabulary

variable (V : Vocabulary α)

/-! ## The scans -/

/-- Where the first `://` is. -/
def schemeAt : List α → Option ℕ
  | [] => none
  | c :: rest =>
      if ((c :: rest).take 3).map V.code = [58, 47, 47] then some 0
      else (schemeAt rest).map (· + 1)

/-- Where the last `@` is. -/
def lastAt : List α → Option ℕ
  | [] => none
  | c :: rest => ((lastAt rest).map (· + 1)).or (if V.code c = 64 then some 0 else none)

/-- `/`, `?`, `#` and blanks. -/
def endsAuthority (c : α) : Bool := [47, 63, 35, 32, 9, 13, 10].contains (V.code c)

/-- `#` and blanks. -/
def endsQuery (c : α) : Bool := [35, 32, 9, 13, 10].contains (V.code c)

def authorityOf (s : List α) : List α := s.takeWhile fun c => !V.endsAuthority c

def queryOf (s : List α) : List α := s.takeWhile fun c => !V.endsQuery c

/-- The userinfo of the first URI. The cut ends at the `@`. -/
def userinfoCuts (s : List α) : List (Cut α) :=
  match V.schemeAt s with
  | none => []
  | some scheme =>
      match V.lastAt (V.authorityOf (s.drop (scheme + 3))) with
      | none => []
      | some at' => [⟨scheme + 3, scheme + 3 + at', V.userinfo⟩]

/-- A pair is cut where it has a value that is not empty and the name of a credential. -/
def pairCut (p : ℕ) (pair : List α) : List (Cut α) :=
  let eq := pair.findIdx fun c => V.code c == 61
  if eq + 1 < pair.length ∧ V.isCredentialParam (pair.take eq) then
    [⟨p + eq + 1, p + pair.length, V.param⟩]
  else []

def pairCuts : ℕ → List (List α) → List (Cut α)
  | _, [] => []
  | p, pair :: rest => V.pairCut p pair ++ pairCuts (p + pair.length + 1) rest

/-- The pairs of a query that starts at `p`. -/
def queryCuts (p : ℕ) (query : List α) : List (Cut α) :=
  V.pairCuts p (query.splitOnP fun c => V.code c == 38)

/-- The values of credential parameters in the query. -/
def credentialParamCuts (s : List α) : List (Cut α) :=
  match s.findIdx? fun c => V.code c == 63 with
  | none => []
  | some q => V.queryCuts (q + 1) (V.queryOf (s.drop (q + 1)))

def sorted (cuts : List (Cut α)) : List (Cut α) :=
  cuts.insertionSort fun c d => V.before c d = true

/-- The text with both kinds of credential replaced. -/
def redact (s : List α) : List α :=
  let cuts := V.userinfoCuts s ++ V.credentialParamCuts s
  if cuts.isEmpty then s else Cut.apply s 0 (V.sorted cuts)

variable {V} {s t : List α} {p n : ℕ}

theorem redact_eq (s : List α) :
    V.redact s = Cut.apply s 0 (V.sorted (V.userinfoCuts s ++ V.credentialParamCuts s)) := by
  rw [redact]
  split
  · rename_i empty
    rw [List.isEmpty_iff.1 empty]
    rfl
  · rfl

/-! ## The first `://` -/

theorem schemeAt_cons_of_eq {c : α} (here : ((c :: s).take 3).map V.code = [58, 47, 47]) :
    V.schemeAt (c :: s) = some 0 := if_pos here

theorem schemeAt_cons_of_ne {c : α} (other : ((c :: s).take 3).map V.code ≠ [58, 47, 47]) :
    V.schemeAt (c :: s) = (V.schemeAt s).map (· + 1) := if_neg other

theorem three_le_of_scheme (here : (s.take 3).map V.code = [58, 47, 47]) : 3 ≤ s.length := by
  have three := congrArg List.length here
  rw [List.length_map, List.length_take] at three
  have least : min 3 s.length = 3 := three
  omega

theorem scheme_lt_length {scheme : ℕ} (found : V.schemeAt s = some scheme) :
    scheme + 3 ≤ s.length := by
  induction s generalizing scheme with
  | nil => exact absurd found.symm (Option.some_ne_none _)
  | cons c s ih =>
      by_cases here : ((c :: s).take 3).map V.code = [58, 47, 47]
      · rw [schemeAt_cons_of_eq here] at found
        cases found
        exact three_le_of_scheme here
      · rw [schemeAt_cons_of_ne here] at found
        obtain ⟨k, later, rfl⟩ := Option.map_eq_some_iff.1 found
        exact Nat.succ_le_succ (ih later)

theorem schemeAt_append_of_some {scheme : ℕ} (found : V.schemeAt s = some scheme) :
    V.schemeAt (s ++ t) = some scheme := by
  induction s generalizing scheme with
  | nil => exact absurd found.symm (Option.some_ne_none _)
  | cons c s ih =>
      have long : 3 ≤ (c :: s).length := (Nat.le_add_left 3 scheme).trans (scheme_lt_length found)
      have same : (c :: (s ++ t)).take 3 = (c :: s).take 3 :=
        List.take_append_of_le_length long
      rw [List.cons_append]
      by_cases here : ((c :: s).take 3).map V.code = [58, 47, 47]
      · have again : ((c :: (s ++ t)).take 3).map V.code = [58, 47, 47] := by rw [same, here]
        rw [schemeAt_cons_of_eq again, ← found, schemeAt_cons_of_eq here]
      · have again : ((c :: (s ++ t)).take 3).map V.code ≠ [58, 47, 47] := by rwa [same]
        rw [schemeAt_cons_of_ne here] at found
        obtain ⟨k, later, rfl⟩ := Option.map_eq_some_iff.1 found
        rw [schemeAt_cons_of_ne again, ih later]
        rfl

/-- No `://` reaches over a place that has another character on one of its sides. -/
theorem schemeAt_append_of_none (none_ : V.schemeAt s = none)
    (apart : (∀ c, t.head? = some c → V.code c ≠ 47) ∨
      ∀ c, s.getLast? = some c → V.code c ≠ 58 ∧ V.code c ≠ 47) :
    V.schemeAt (s ++ t) = (V.schemeAt t).map (s.length + ·) := by
  induction s with
  | nil =>
      rw [List.nil_append, List.length_nil]
      simp only [Nat.zero_add, Option.map_id']
  | cons c s ih =>
      have other : ((c :: s).take 3).map V.code ≠ [58, 47, 47] := by
        intro here
        rw [schemeAt_cons_of_eq here] at none_
        exact Option.some_ne_none _ none_
      rw [schemeAt_cons_of_ne other] at none_
      have here : ((c :: (s ++ t)).take 3).map V.code ≠ [58, 47, 47] := by
        intro spelled
        rcases s with _ | ⟨d, _ | ⟨e, s⟩⟩
        · rcases t with _ | ⟨x, t⟩
          · exact other spelled
          · have first : V.code c = 58 := (List.cons.inj spelled).1
            have second : V.code x = 47 := (List.cons.inj (List.cons.inj spelled).2).1
            rcases apart with head | last
            · exact head x rfl second
            · exact (last c rfl).1 first
        · rcases t with _ | ⟨x, t⟩
          · exact other spelled
          · have second : V.code d = 47 := (List.cons.inj (List.cons.inj spelled).2).1
            have third : V.code x = 47 :=
              (List.cons.inj (List.cons.inj (List.cons.inj spelled).2).2).1
            rcases apart with head | last
            · exact head x rfl third
            · exact (last d rfl).2 second
        · exact other spelled
      have rest : V.schemeAt (s ++ t) = (V.schemeAt t).map (s.length + ·) := by
        refine ih (Option.map_eq_none_iff.1 none_) (apart.imp_right ?_)
        intro last d found
        refine last d ?_
        rw [List.getLast?_cons, found]
        rfl
      rw [List.cons_append, schemeAt_cons_of_ne here, rest, Option.map_map]
      congr 1
      funext k
      simp only [Function.comp_apply, List.length_cons]
      omega

theorem schemeAt_eq_none (plain : ∀ c ∈ t, V.code c ≠ 58) : V.schemeAt t = none := by
  induction t with
  | nil => rfl
  | cons c t ih =>
      have other : ((c :: t).take 3).map V.code ≠ [58, 47, 47] := by
        intro here
        exact plain c List.mem_cons_self (List.cons.inj here).1
      rw [schemeAt_cons_of_ne other, ih fun d mem => plain d (List.mem_cons_of_mem _ mem)]
      rfl

theorem schemeAt_eq_none_iff :
    V.schemeAt s = none ↔ ∀ x y, s = x ++ y → (y.take 3).map V.code ≠ [58, 47, 47] := by
  constructor
  · rintro none_ x y rfl here
    have found : V.schemeAt y = some 0 := by
      cases y with
      | nil => contradiction
      | cons c y => exact schemeAt_cons_of_eq here
    induction x with
    | nil =>
        rw [List.nil_append, found] at none_
        contradiction
    | cons c x ih =>
        by_cases first : ((c :: (x ++ y)).take 3).map V.code = [58, 47, 47]
        · rw [List.cons_append, schemeAt_cons_of_eq first] at none_
          contradiction
        · rw [List.cons_append, schemeAt_cons_of_ne first] at none_
          exact ih (Option.map_eq_none_iff.1 none_)
  · intro nowhere
    induction s with
    | nil => rfl
    | cons c s ih =>
        rw [schemeAt_cons_of_ne (nowhere [] (c :: s) rfl), ih]
        · rfl
        · intro x y parts
          exact nowhere (c :: x) y (by rw [parts]; rfl)

/-- A part of a text has no `://` if the text has none. -/
theorem schemeAt_infix (none_ : V.schemeAt s = none) (part : t <:+: s) :
    V.schemeAt t = none := by
  obtain ⟨x, y, rfl⟩ := part
  rw [List.append_assoc] at none_
  rw [schemeAt_eq_none_iff] at none_ ⊢
  rintro u v rfl here
  have three := three_le_of_scheme here
  refine none_ (x ++ u) (v ++ y) (by simp only [List.append_assoc]) ?_
  rw [List.take_append_of_le_length three, here]

theorem schemeAt_of_no_slash (plain : ∀ c ∈ s, V.code c ≠ 47) : V.schemeAt s = none := by
  rw [schemeAt_eq_none_iff]
  rintro x y rfl here
  have slash : 47 ∈ (y.take 3).map V.code := by
    rw [here]
    decide
  obtain ⟨c, mem, same⟩ := List.mem_map.1 slash
  exact plain c (List.mem_append_right _ (List.mem_of_mem_take mem)) same

/-- The first `://`, what stands before it and what stands behind it. -/
theorem exists_scheme (found : V.schemeAt s = some p) :
    ∃ x sch y, s = x ++ (sch ++ y) ∧ x.length = p ∧ sch.map V.code = [58, 47, 47] ∧
      V.schemeAt x = none := by
  induction s generalizing p with
  | nil => exact absurd found.symm (Option.some_ne_none _)
  | cons c s ih =>
      by_cases here : ((c :: s).take 3).map V.code = [58, 47, 47]
      · rw [schemeAt_cons_of_eq here] at found
        cases found
        exact ⟨[], (c :: s).take 3, (c :: s).drop 3, (List.take_append_drop 3 _).symm, rfl, here,
          rfl⟩
      · rw [schemeAt_cons_of_ne here] at found
        obtain ⟨k, later, rfl⟩ := Option.map_eq_some_iff.1 found
        obtain ⟨x, sch, y, rfl, length, spelled, none_⟩ := ih later
        refine ⟨c :: x, sch, y, rfl, by rw [List.length_cons, length], spelled, ?_⟩
        rw [schemeAt_cons_of_ne, none_]
        · rfl
        · intro first
          have three := three_le_of_scheme first
          have long : ((c :: x) ++ (sch ++ y)).take 3 = (c :: x).take 3 :=
            List.take_append_of_le_length three
          exact here (long ▸ first)

/-! ## The last `@` -/

theorem lastAt_eq_none (none_ : ∀ c ∈ s, V.code c ≠ 64) : V.lastAt s = none := by
  induction s with
  | nil => rfl
  | cons c s ih =>
      rw [lastAt, ih fun d mem => none_ d (List.mem_cons_of_mem _ mem),
        if_neg (none_ c List.mem_cons_self)]
      rfl

theorem lastAt_append_cons {c : α} (here : V.code c = 64) (none_ : V.lastAt t = none) :
    V.lastAt (s ++ c :: t) = some s.length := by
  induction s with
  | nil =>
      rw [List.nil_append, lastAt, none_, if_pos here]
      rfl
  | cons d s ih =>
      rw [List.cons_append, lastAt, ih]
      rfl

theorem lastAt_lt_length {k : ℕ} (found : V.lastAt s = some k) : k < s.length := by
  induction s generalizing k with
  | nil => exact absurd found.symm (Option.some_ne_none _)
  | cons c s ih =>
      rw [lastAt] at found
      cases later : V.lastAt s with
      | none =>
          rw [later] at found
          have here : (if V.code c = 64 then some 0 else none) = some k := found
          split at here
          · cases here
            exact Nat.succ_pos _
          · contradiction
      | some j =>
          rw [later] at found
          cases found
          exact Nat.succ_lt_succ (ih later)

theorem exists_lastAt {c : α} (mem : c ∈ s) (here : V.code c = 64) :
    ∃ k, V.lastAt s = some k := by
  induction s with
  | nil => exact absurd mem List.not_mem_nil
  | cons d s ih =>
      rw [lastAt]
      cases later : V.lastAt s with
      | some j => exact ⟨j + 1, rfl⟩
      | none =>
          rcases List.mem_cons.1 mem with rfl | rest
          · rw [if_pos here]
            exact ⟨0, rfl⟩
          · obtain ⟨k, found⟩ := ih rest
            rw [later] at found
            contradiction

/-! ## Authorities -/

theorem takeWhile_append_of_stops {f : α → Bool} (stops : ∃ c ∈ s, f c = false) :
    (s ++ t).takeWhile f = s.takeWhile f := by
  induction s with
  | nil =>
      obtain ⟨c, mem, _⟩ := stops
      exact absurd mem List.not_mem_nil
  | cons d s ih =>
      rw [List.cons_append, List.takeWhile_cons, List.takeWhile_cons]
      cases own : f d with
      | false => rfl
      | true =>
          obtain ⟨c, mem, stop⟩ := stops
          have later : c ∈ s := (List.mem_cons.1 mem).resolve_left fun same =>
            Bool.false_ne_true (stop.symm.trans (same ▸ own))
          exact congrArg (d :: ·) (ih ⟨c, later, stop⟩)

theorem takeWhile_append_stop {g : α → Bool} {a : α} (stops : g a = false) (s t : List α) :
    (s ++ a :: t).takeWhile g = s.takeWhile g := by
  induction s with
  | nil => rw [List.nil_append, List.takeWhile_cons, stops, List.takeWhile_nil]; rfl
  | cons c s ih => rw [List.cons_append, List.takeWhile_cons, List.takeWhile_cons, ih]

theorem takeWhile_append_of_head {f : α → Bool} (stops : ∀ c, t.head? = some c → f c = false) :
    (s ++ t).takeWhile f = s.takeWhile f := by
  cases t with
  | nil => rw [List.append_nil]
  | cons a t => exact takeWhile_append_stop (stops a rfl) s t

theorem authorityOf_append_of_ends (ends : ∃ c ∈ s, V.endsAuthority c = true) :
    V.authorityOf (s ++ t) = V.authorityOf s := by
  obtain ⟨c, mem, end_⟩ := ends
  refine takeWhile_append_of_stops ⟨c, mem, ?_⟩
  rw [end_]
  rfl

theorem authorityOf_append_of_inside (inside : ∀ c ∈ s, V.endsAuthority c = false) :
    V.authorityOf (s ++ t) = s ++ V.authorityOf t := by
  refine List.takeWhile_append_of_pos ?_
  intro c mem
  rw [inside c mem]
  rfl

/-! ## The pairs of a query -/

/-- A query is one pair, or a pair and a query. -/
theorem query_induction {motive : List α → Prop}
    (single : ∀ pair : List α, (∀ c ∈ pair, V.code c ≠ 38) → motive pair)
    (more : ∀ (pair : List α) (a : α) (rest : List α), (∀ c ∈ pair, V.code c ≠ 38) →
      V.code a = 38 → motive rest → motive (pair ++ a :: rest)) (s : List α) : motive s := by
  induction length : s.length using Nat.strong_induction_on generalizing s with
  | _ n ih =>
      have plain : ∀ c ∈ s.takeWhile (fun c => !(V.code c == 38)), V.code c ≠ 38 := by
        intro c mem same
        have holds := List.mem_takeWhile_imp mem
        rw [same] at holds
        contradiction
      cases split_ : s.dropWhile (fun c => !(V.code c == 38)) with
      | nil =>
          have whole := List.takeWhile_append_dropWhile (p := fun c => !(V.code c == 38)) (l := s)
          rw [split_, List.append_nil] at whole
          rw [whole] at plain
          exact single s plain
      | cons a rest =>
          have whole := List.takeWhile_append_dropWhile (p := fun c => !(V.code c == 38)) (l := s)
          rw [split_] at whole
          have stops : (s.dropWhile fun c => !(V.code c == 38)).head? = some a := by
            rw [split_]
            rfl
          have here : V.code a = 38 := by
            have fails := List.head?_dropWhile_not (fun c => !(V.code c == 38)) s
            rw [stops] at fails
            simpa using fails
          have shorter : rest.length < n := by
            rw [← length, ← whole, List.length_append, List.length_cons]
            omega
          rw [← whole]
          exact more _ a rest plain here (ih rest.length shorter rest rfl)

theorem findIdx_append_cons {f : α → Bool} {a : α} (plain : ∀ c ∈ s, f c = false)
    (here : f a = true) : (s ++ a :: t).findIdx f = s.length := by
  induction s with
  | nil => rw [List.nil_append, List.findIdx_cons, here, cond_true, List.length_nil]
  | cons c s ih =>
      rw [List.cons_append, List.findIdx_cons, plain c List.mem_cons_self, cond_false,
        ih fun d mem => plain d (List.mem_cons_of_mem _ mem), List.length_cons]

theorem findIdx?_append_cons {f : α → Bool} {a : α} (plain : ∀ c ∈ s, f c = false)
    (here : f a = true) : (s ++ a :: t).findIdx? f = some s.length := by
  induction s with
  | nil => rw [List.nil_append, List.findIdx?_cons, if_pos here, List.length_nil]
  | cons c s ih =>
      have other : ¬ f c = true := by
        rw [plain c List.mem_cons_self]
        exact Bool.false_ne_true
      rw [List.cons_append, List.findIdx?_cons, if_neg other,
        ih fun d mem => plain d (List.mem_cons_of_mem _ mem)]
      rfl

theorem queryCuts_single (plain : ∀ c ∈ s, V.code c ≠ 38) : V.queryCuts p s = V.pairCut p s := by
  have one : s.splitOnP (fun c => V.code c == 38) = [s] :=
    List.splitOnP_eq_singleton fun c mem => beq_eq_false_iff_ne.2 (plain c mem)
  rw [queryCuts, one]
  exact List.append_nil _

/-- The room some parts take, each with its separator. -/
def extent : List (List α) → ℕ
  | [] => 0
  | x :: xs => x.length + 1 + extent xs

theorem pairCuts_append (xs ys : List (List α)) :
    V.pairCuts p (xs ++ ys) = V.pairCuts p xs ++ V.pairCuts (p + extent xs) ys := by
  induction xs generalizing p with
  | nil => rfl
  | cons x xs ih =>
      have sum : p + x.length + 1 + extent xs = p + extent (x :: xs) := by
        rw [extent]
        omega
      rw [List.cons_append, pairCuts, pairCuts, ih, sum, List.append_assoc]

theorem extent_splitOnP (f : α → Bool) (s : List α) : extent (s.splitOnP f) = s.length + 1 := by
  induction s with
  | nil => rfl
  | cons c s ih =>
      rw [List.splitOnP_cons_eq_if_modifyHead]
      split
      · rw [extent, ih, List.length_cons, List.length_nil]
        omega
      · obtain ⟨x, xs, parts⟩ := List.exists_cons_of_ne_nil (List.splitOnP_ne_nil f s)
        rw [parts, extent] at ih
        rw [parts, List.modifyHead_cons, extent, List.length_cons, List.length_cons]
        omega

theorem queryCuts_append_cons {a : α} (here : V.code a = 38) :
    V.queryCuts p (s ++ a :: t) = V.queryCuts p s ++ V.queryCuts (p + s.length + 1) t := by
  have split_ : (s ++ a :: t).splitOnP (fun c => V.code c == 38) =
      s.splitOnP (fun c => V.code c == 38) ++ t.splitOnP fun c => V.code c == 38 :=
    List.splitOnP_append_cons s t (beq_iff_eq.2 here)
  rw [queryCuts, split_, pairCuts_append, extent_splitOnP]
  rfl

theorem pairCut_shift (pair : List α) :
    V.pairCut (n + p) pair = (V.pairCut p pair).map (Cut.shift n) := by
  rw [pairCut, pairCut]
  split
  · rw [List.map_singleton, Cut.shift]
    simp only [Nat.add_assoc]
  · rfl

theorem queryCuts_shift (s : List α) :
    V.queryCuts (n + p) s = (V.queryCuts p s).map (Cut.shift n) := by
  induction s using query_induction (V := V) generalizing p with
  | single pair plain => rw [queryCuts_single plain, queryCuts_single plain, pairCut_shift]
  | more pair a rest plain here ih =>
      have next : n + p + pair.length + 1 = n + (p + pair.length + 1) := by omega
      rw [queryCuts_append_cons here, queryCuts_append_cons here, List.map_append, next, ih,
        queryCuts_single plain, queryCuts_single plain, pairCut_shift]

/-- The value of a credential parameter of a query, and where it lies. -/
structure IsValue (V : Vocabulary α) (p : ℕ) (s : List α) (c : Cut α) : Prop where
  lies : ∃ xs name e v ys, s = xs ++ (name ++ e :: v) ++ ys ∧ V.code e = 61 ∧
    V.isCredentialParam name = true ∧ v ≠ [] ∧ (∀ d ∈ v, V.code d ≠ 38) ∧
    (xs = [] ∨ ∃ xs' a, xs = xs' ++ [a] ∧ V.code a = 38) ∧
    c.start = p + xs.length + name.length + 1 ∧ c.stop = c.start + v.length
  text : c.text = V.param

theorem isValue_of_mem_pairCut {c : Cut α} (plain : ∀ c ∈ s, V.code c ≠ 38)
    (mem : c ∈ V.pairCut p s) : IsValue V p s c := by
  rw [pairCut] at mem
  split at mem
  · rename_i named
    rw [List.mem_singleton] at mem
    obtain ⟨long, named⟩ := named
    have inside : s.findIdx (fun c => V.code c == 61) < s.length := by omega
    have equals : V.code s[s.findIdx fun c => V.code c == 61] = 61 :=
      beq_iff_eq.1 (List.findIdx_getElem (w := inside))
    have parts : s = [] ++ (s.take (s.findIdx fun c => V.code c == 61) ++
        s[s.findIdx fun c => V.code c == 61] ::
          s.drop (s.findIdx (fun c => V.code c == 61) + 1)) ++ [] := by
      rw [List.append_nil, List.nil_append, ← List.drop_eq_getElem_cons inside,
        List.take_append_drop]
    have length : (s.take (s.findIdx fun c => V.code c == 61)).length =
        s.findIdx fun c => V.code c == 61 := List.length_take_of_le inside.le
    refine ⟨⟨_, _, _, _, _, parts, equals, named, ?_, ?_, .inl rfl, ?_, ?_⟩, ?_⟩
    · intro none_
      exact absurd (List.drop_eq_nil_iff.1 none_) (Nat.not_le.2 long)
    · exact fun d among => plain d (List.mem_of_mem_drop among)
    · rw [mem, length]
      rfl
    · rw [mem, List.length_drop]
      have sum : p + s.length = p + s.findIdx (fun c => V.code c == 61) + 1 +
        (s.length - (s.findIdx (fun c => V.code c == 61) + 1)) := by omega
      exact sum
    · rw [mem]
  · exact absurd mem List.not_mem_nil

theorem isValue_of_mem {c : Cut α} (mem : c ∈ V.queryCuts p s) : IsValue V p s c := by
  induction s using query_induction (V := V) generalizing p with
  | single pair plain =>
      rw [queryCuts_single plain] at mem
      exact isValue_of_mem_pairCut plain mem
  | more pair a rest plain here ih =>
      rw [queryCuts_append_cons here, queryCuts_single plain] at mem
      rcases List.mem_append.1 mem with first | later
      · obtain ⟨⟨xs, name, e, v, ys, parts, lies⟩, text⟩ := isValue_of_mem_pairCut plain first
        refine ⟨⟨xs, name, e, v, ys ++ a :: rest, ?_, lies⟩, text⟩
        rw [← List.append_assoc, ← parts]
      · obtain ⟨⟨xs, name, e, v, ys, parts, equals, named, some_, single, first, start, stop⟩,
          text⟩ := ih later
        refine ⟨⟨pair ++ a :: xs, name, e, v, ys, ?_, equals, named, some_, single, .inr ?_, ?_,
          stop⟩, text⟩
        · rw [parts]
          simp only [List.append_assoc, List.cons_append]
        · rcases first with rfl | ⟨xs', b, rfl, ends⟩
          · exact ⟨pair, a, rfl, here⟩
          · exact ⟨pair ++ a :: xs', b, by rw [List.append_assoc]; rfl, ends⟩
        · rw [start, List.length_append, List.length_cons]
          omega

theorem IsValue.bounds {c : Cut α} (value : IsValue V p s c) :
    p < c.start ∧ c.start < c.stop ∧ c.stop ≤ p + s.length := by
  obtain ⟨⟨xs, name, e, v, ys, parts, _, _, some_, _, _, start, stop⟩, _⟩ := value
  have positive := List.length_pos_iff.2 some_
  rw [parts]
  simp only [List.length_append, List.length_cons]
  omega

theorem apart_queryCuts (s : List α) : Cut.Apart (V.queryCuts p s) := by
  refine ⟨fun c mem => (isValue_of_mem mem).bounds.2.1.le, ?_⟩
  induction s using query_induction (V := V) generalizing p with
  | single pair plain =>
      rw [queryCuts_single plain, pairCut]
      split
      · exact List.pairwise_singleton _ _
      · exact List.Pairwise.nil
  | more pair a rest plain here ih =>
      rw [queryCuts_append_cons here, List.pairwise_append]
      refine ⟨?_, ih, ?_⟩
      · rw [queryCuts_single plain, pairCut]
        split
        · exact List.pairwise_singleton _ _
        · exact List.Pairwise.nil
      · intro c memC d memD
        have first := (isValue_of_mem memC).bounds
        have later := (isValue_of_mem memD).bounds
        omega

/-! ## Where cuts start -/

/-- A `=` stands before a value. -/
theorem code_before_value {c : Cut α} (value : IsValue V p (V.queryOf (s.drop p)) c) :
    s[c.start - 1]?.map V.code = some 61 := by
  obtain ⟨⟨xs, name, e, v, ys, parts, equals, _, _, _, _, start, _⟩, _⟩ := value
  obtain ⟨tail, whole⟩ := List.takeWhile_prefix (l := s.drop p) fun c => !V.endsQuery c
  have at' : c.start - 1 = p + (xs.length + name.length) := by omega
  have text : s.drop p = (xs ++ name) ++ e :: (v ++ ys ++ tail) := by
    rw [← whole]
    have query : (s.drop p).takeWhile (fun c => !V.endsQuery c) = xs ++ (name ++ e :: v) ++ ys :=
      parts
    rw [query]
    simp only [List.append_assoc, List.cons_append]
  have found : s[p + (xs.length + name.length)]? = some e := by
    rw [← List.getElem?_drop, text, ← List.length_append, List.getElem?_append_right le_rfl,
      Nat.sub_self]
    rfl
  rw [at', found, Option.map_some, equals]

/-- A `/` stands before an authority. -/
theorem code_before_authority {scheme : ℕ} (found : V.schemeAt s = some scheme) :
    s[scheme + 2]?.map V.code = some 47 := by
  induction s generalizing scheme with
  | nil => exact absurd found.symm (Option.some_ne_none _)
  | cons c s ih =>
      by_cases here : ((c :: s).take 3).map V.code = [58, 47, 47]
      · rw [schemeAt_cons_of_eq here] at found
        cases found
        have third := congrArg (fun l : List ℕ => l[2]?) here
        rw [List.getElem?_map, List.getElem?_take_of_lt (by decide)] at third
        exact third
      · rw [schemeAt_cons_of_ne here] at found
        obtain ⟨k, later, rfl⟩ := Option.map_eq_some_iff.1 found
        exact ih later

theorem start_ne {c : Cut α} {scheme : ℕ} (value : IsValue V p (V.queryOf (s.drop p)) c)
    (found : V.schemeAt s = some scheme) : c.start ≠ scheme + 3 := by
  intro same
  have equals := code_before_value value
  have slash := code_before_authority found
  have index : c.start - 1 = scheme + 2 := by omega
  rw [index, slash] at equals
  contradiction

theorem isValue_of_mem_credentialParamCuts {c : Cut α} (mem : c ∈ V.credentialParamCuts s) :
    ∃ p, IsValue V p (V.queryOf (s.drop p)) c := by
  rw [credentialParamCuts] at mem
  split at mem
  · exact absurd mem List.not_mem_nil
  · exact ⟨_, isValue_of_mem mem⟩

theorem apart_credentialParamCuts (s : List α) : Cut.Apart (V.credentialParamCuts s) := by
  rw [credentialParamCuts]
  split
  · exact ⟨fun _ mem => absurd mem List.not_mem_nil, List.Pairwise.nil⟩
  · exact apart_queryCuts _

/-! ## Cuts in their order -/

variable {cs : List (Cut α)} {u : Cut α}

theorem sorted_of_apart (apart : Cut.Apart cs) : V.sorted cs = cs :=
  Cut.insertionSort_of_apart V.ordered apart

theorem sorted_cons (apart : Cut.Apart cs) (differs : ∀ c ∈ cs, c.start ≠ u.start) :
    V.sorted (u :: cs) = Cut.below u.start cs ++ u :: Cut.above u.start cs :=
  Cut.insertionSort_cons_of_apart V.ordered V.strict apart differs

theorem sorted_shift (cs : List (Cut α)) :
    V.sorted (cs.map (Cut.shift n)) = (V.sorted cs).map (Cut.shift n) := by
  refine (List.map_insertionSort _ _ _ _ ?_).symm
  intro c _ d _
  rw [V.before_shift]

/-- A userinfo cut starts behind a `/` and ends in the text. -/
theorem userinfoCuts_cases (s : List α) :
    V.userinfoCuts s = [] ∨ ∃ scheme at', V.schemeAt s = some scheme ∧
      V.lastAt (V.authorityOf (s.drop (scheme + 3))) = some at' ∧
      V.userinfoCuts s = [⟨scheme + 3, scheme + 3 + at', V.userinfo⟩] := by
  rw [userinfoCuts]
  cases V.schemeAt s with
  | none => exact .inl rfl
  | some scheme =>
      cases found : V.lastAt (V.authorityOf (s.drop (scheme + 3))) with
      | none =>
          refine .inl ?_
          simp only [found]
      | some at' =>
          refine .inr ⟨scheme, at', rfl, found, ?_⟩
          simp only [found]

theorem userinfoCuts_of_some {scheme at' : ℕ} (found : V.schemeAt s = some scheme)
    (last : V.lastAt (V.authorityOf (s.drop (scheme + 3))) = some at') :
    V.userinfoCuts s = [⟨scheme + 3, scheme + 3 + at', V.userinfo⟩] := by
  rw [userinfoCuts, found]
  simp only [last]

/-- Only the text from the first `://` on tells what the userinfo is. -/
theorem userinfoCuts_append (found : V.schemeAt (s ++ t) = (V.schemeAt t).map (s.length + ·)) :
    V.userinfoCuts (s ++ t) = (V.userinfoCuts t).map (Cut.shift s.length) := by
  rw [userinfoCuts, userinfoCuts, found]
  cases V.schemeAt t with
  | none => rfl
  | some scheme =>
      have rest : (s ++ t).drop (s.length + scheme + 3) = t.drop (scheme + 3) := by
        rw [Nat.add_assoc, ← List.drop_drop, List.drop_left]
      simp only [Option.map_some, rest]
      cases V.lastAt (V.authorityOf (t.drop (scheme + 3))) with
      | none => rfl
      | some at' =>
          simp only [List.map_singleton, Cut.shift, Nat.add_assoc]

/-- A cut behind others is sorted among those that follow them. -/
theorem sorted_cons_append {ds : List (Cut α)} (apart : Cut.Apart (cs ++ ds))
    (differs : ∀ c ∈ cs ++ ds, c.start ≠ u.start) (first : ∀ c ∈ cs, c.start < u.start) :
    V.sorted (u :: (cs ++ ds)) = cs ++ V.sorted (u :: ds) := by
  have apart' : Cut.Apart ds := ⟨fun c mem => apart.1 c (List.mem_append_right _ mem),
    (List.pairwise_append.1 apart.2).2.1⟩
  rw [sorted_cons apart differs,
    sorted_cons apart' fun c mem => differs c (List.mem_append_right _ mem),
    Cut.below_append, Cut.above_append, Cut.below_of_lt first, Cut.above_of_lt first,
    List.nil_append, List.append_assoc]

/-- A cut before others is sorted among those that precede them. -/
theorem sorted_append {ds : List (Cut α)} (apart : Cut.Apart (cs ++ ds))
    (differs : ∀ c ∈ cs ++ ds, c.start ≠ u.start) (later : ∀ c ∈ ds, u.start ≤ c.start) :
    V.sorted (u :: (cs ++ ds)) = V.sorted (u :: cs) ++ ds := by
  have apart' : Cut.Apart cs := ⟨fun c mem => apart.1 c (List.mem_append_left _ mem),
    (List.pairwise_append.1 apart.2).1⟩
  rw [sorted_cons apart differs,
    sorted_cons apart' fun c mem => differs c (List.mem_append_left _ mem),
    Cut.below_append, Cut.above_append, Cut.below_of_le later, Cut.above_of_le later,
    List.append_nil, List.append_assoc, List.cons_append]

/-- A cut that starts inside another one makes no difference. -/
theorem apply_sorted_swallowed {outer : Cut α} (apart : Cut.Apart cs)
    (differs : ∀ c ∈ cs, c.start ≠ u.start) (mem : outer ∈ cs)
    (inside : outer.start < u.start ∧ u.start < outer.stop) :
    Cut.apply s 0 (V.sorted (u :: cs)) = Cut.apply s 0 cs := by
  obtain ⟨low, high, rfl⟩ := List.append_of_mem mem
  obtain ⟨_, high_, among⟩ := List.pairwise_append.1 apart.2
  have lows : ∀ c ∈ low, c.start ≤ outer.start ∧ c.stop ≤ outer.start := fun c memC =>
    have stop := (among c memC outer List.mem_cons_self).le
    ⟨(apart.1 c (List.mem_append_left _ memC)).trans stop, stop⟩
  have highs : ∀ c ∈ high, u.start ≤ c.start := fun c memC =>
    (inside.2.trans ((List.pairwise_cons.1 high_).1 c memC)).le
  have lows' : ∀ c ∈ low ++ [outer], c.start < u.start := by
    intro c memC
    rcases List.mem_append.1 memC with first | only
    · exact Nat.lt_of_le_of_lt (lows c first).1 inside.1
    · rw [List.mem_singleton.1 only]
      exact inside.1
  have parts : low ++ outer :: high = (low ++ [outer]) ++ high := by
    rw [List.append_assoc]
    rfl
  rw [sorted_cons apart differs, parts, Cut.below_append, Cut.above_append,
    Cut.below_of_lt lows', Cut.above_of_lt lows', Cut.below_of_le highs, Cut.above_of_le highs,
    List.append_nil, List.nil_append, List.append_assoc, List.append_assoc]
  exact Cut.apply_swallowed (Nat.zero_le _) lows ⟨inside.1.le, inside.2⟩

/-- The userinfo has its place among the parameters. -/
def inOrder (V : Vocabulary α) (s : List α) : List (Cut α) :=
  match V.userinfoCuts s with
  | [] => V.credentialParamCuts s
  | u :: _ => Cut.below u.start (V.credentialParamCuts s) ++
      u :: Cut.above u.start (V.credentialParamCuts s)

theorem sorted_eq (s : List α) :
    V.sorted (V.userinfoCuts s ++ V.credentialParamCuts s) = V.inOrder s := by
  rw [inOrder]
  obtain none_ | ⟨scheme, at', found, -, one⟩ := V.userinfoCuts_cases s
  · rw [none_]
    exact sorted_of_apart (apart_credentialParamCuts s)
  · rw [one]
    apply sorted_cons (apart_credentialParamCuts s)
    intro c mem
    obtain ⟨p, value⟩ := isValue_of_mem_credentialParamCuts mem
    exact start_ne value found

/-- Every cut of a text lies in it. -/
theorem inOrder_bounds {c : Cut α} (mem : c ∈ V.userinfoCuts s ++ V.credentialParamCuts s) :
    c.start ≤ s.length ∧ c.stop ≤ s.length := by
  obtain user | param := List.mem_append.1 mem
  · obtain none_ | ⟨scheme, at', found, last, one⟩ := V.userinfoCuts_cases s
    · rw [none_] at user
      contradiction
    · rw [one, List.mem_singleton] at user
      have long := scheme_lt_length found
      have inside := (lastAt_lt_length last).trans_le
        ((List.takeWhile_prefix (l := s.drop (scheme + 3)) _).length_le)
      rw [List.length_drop] at inside
      subst user
      exact ⟨long, show scheme + 3 + at' ≤ s.length by omega⟩
  · rw [credentialParamCuts] at param
    cases found : s.findIdx? fun c => V.code c == 63 with
    | none =>
        rw [found] at param
        contradiction
    | some q =>
        rw [found] at param
        have bounds := (isValue_of_mem param).bounds
        have inside : q + 1 ≤ s.length := (List.findIdx?_eq_some_iff_getElem.1 found).1
        have query := (List.takeWhile_prefix (l := s.drop (q + 1))
          fun c => !V.endsQuery c).length_le
        rw [List.length_drop] at query
        rw [Vocabulary.queryOf] at bounds
        omega

theorem start_le_stop {c : Cut α} (mem : c ∈ V.userinfoCuts s ++ V.credentialParamCuts s) :
    c.start ≤ c.stop := by
  obtain user | param := List.mem_append.1 mem
  · obtain none_ | ⟨scheme, at', -, -, one⟩ := V.userinfoCuts_cases s
    · rw [none_] at user
      contradiction
    · rw [one, List.mem_singleton] at user
      subst user
      exact Nat.le_add_right _ _
  · obtain ⟨p, value⟩ := isValue_of_mem_credentialParamCuts param
    exact value.bounds.2.1.le

theorem mem_sorted {c : Cut α} : c ∈ V.sorted cs ↔ c ∈ cs :=
  (List.perm_insertionSort _ _).mem_iff

theorem text_of_mem {c : Cut α} (mem : c ∈ V.userinfoCuts s ++ V.credentialParamCuts s) :
    c.text = V.userinfo ∨ c.text = V.param := by
  obtain user | param := List.mem_append.1 mem
  · obtain none_ | ⟨scheme, at', -, -, one⟩ := V.userinfoCuts_cases s
    · rw [none_] at user
      contradiction
    · rw [one, List.mem_singleton] at user
      subst user
      exact .inl rfl
  · obtain ⟨p, value⟩ := isValue_of_mem_credentialParamCuts param
    exact .inr value.text

/-- Redaction adds the letters of the placeholders only. -/
theorem mem_redact {c : α} (mem : c ∈ V.redact s) : c ∈ s ∨ c ∈ V.userinfo ∨ c ∈ V.param := by
  rw [redact_eq] at mem
  obtain kept | ⟨cut, listed, text⟩ := Cut.mem_apply (fun _ among => start_le_stop
    (mem_sorted.1 among)) mem
  · exact .inl kept
  · obtain user | param := text_of_mem (mem_sorted.1 listed)
    · exact .inr (.inl (user ▸ text))
    · exact .inr (.inr (param ▸ text))

/-! ## What ends a line -/

theorem endsAuthority_of_endsQuery {c : α} (ends : V.endsQuery c = true) :
    V.endsAuthority c = true := by
  simp only [endsQuery, endsAuthority, List.contains_eq_mem, decide_eq_true_iff, List.mem_cons,
    List.not_mem_nil, or_false] at ends ⊢
  omega

/-- The first URI ends where something that ends an authority stands. -/
theorem userinfoCuts_append_left (found : V.schemeAt s = some p)
    (ends : ∀ c, t.head? = some c → V.endsAuthority c = true) :
    V.userinfoCuts (s ++ t) = V.userinfoCuts s := by
  have same : V.authorityOf ((s ++ t).drop (p + 3)) = V.authorityOf (s.drop (p + 3)) := by
    rw [List.drop_append_of_le_length (scheme_lt_length found)]
    apply takeWhile_append_of_head
    intro c head
    rw [ends c head]
    rfl
  rw [userinfoCuts, userinfoCuts, schemeAt_append_of_some found, found]
  simp only [same]

/-- What follows a target in its line is kept: it begins where a query ends, and nothing in it
begins a `://` or a query. -/
theorem schemeAt_append_plain (starts : ∀ c, t.head? = some c → V.endsQuery c = true)
    (plain : ∀ c ∈ t, V.code c ≠ 58) : V.schemeAt (s ++ t) = V.schemeAt s := by
  cases found : V.schemeAt s with
  | some scheme => exact schemeAt_append_of_some found
  | none =>
      rw [schemeAt_append_of_none found (.inl ?_), schemeAt_eq_none plain]
      · rfl
      · intro c head slash
        have ends := starts c head
        rw [endsQuery, slash] at ends
        contradiction

theorem userinfoCuts_append_plain (starts : ∀ c, t.head? = some c → V.endsQuery c = true)
    (plain : ∀ c ∈ t, V.code c ≠ 58) : V.userinfoCuts (s ++ t) = V.userinfoCuts s := by
  cases found : V.schemeAt s with
  | some scheme =>
      exact userinfoCuts_append_left found fun c head => endsAuthority_of_endsQuery (starts c head)
  | none =>
      have behind : V.schemeAt (s ++ t) = none := (schemeAt_append_plain starts plain).trans found
      rw [userinfoCuts, userinfoCuts, found, behind]

theorem credentialParamCuts_append_plain (starts : ∀ c, t.head? = some c → V.endsQuery c = true)
    (plain : ∀ c ∈ t, V.code c ≠ 63) :
    V.credentialParamCuts (s ++ t) = V.credentialParamCuts s := by
  have none_ : t.findIdx? (fun c => V.code c == 63) = none :=
    List.findIdx?_eq_none_iff.2 fun c mem => beq_eq_false_iff_ne.2 (plain c mem)
  rw [credentialParamCuts, credentialParamCuts, List.findIdx?_append, none_, Option.map_none,
    Option.or_none]
  cases found : s.findIdx? fun c => V.code c == 63 with
  | none => rfl
  | some q =>
      have inside : q + 1 ≤ s.length := (List.findIdx?_eq_some_iff_getElem.1 found).1
      have same : V.queryOf (s.drop (q + 1) ++ t) = V.queryOf (s.drop (q + 1)) := by
        apply takeWhile_append_of_head
        intro c head
        rw [starts c head]
        rfl
      simp only [List.drop_append_of_le_length inside, same]

theorem redact_append_plain (starts : ∀ c, t.head? = some c → V.endsQuery c = true)
    (plain : ∀ c ∈ t, V.code c ≠ 58 ∧ V.code c ≠ 63) :
    V.redact (s ++ t) = V.redact s ++ t := by
  rw [redact_eq, redact_eq, userinfoCuts_append_plain starts fun c mem => (plain c mem).1,
    credentialParamCuts_append_plain starts fun c mem => (plain c mem).2]
  exact Cut.apply_append_left (Nat.zero_le _) (fun c mem => inOrder_bounds (mem_sorted.1 mem)) t

end Vocabulary

end Hx.Redact
