import Mathlib.Data.List.Sort

/-!
# Cutting spans out of a text

A cut replaces one half-open span of a text. Cuts are applied in the order of their starts,
and one that begins inside an applied cut is dropped.
-/

namespace Hx.Library

variable {α : Type}

structure Cut (α : Type) where
  start : ℕ
  stop : ℕ
  text : List α
  deriving DecidableEq

namespace Cut

def shift (n : ℕ) (c : Cut α) : Cut α := ⟨n + c.start, n + c.stop, c.text⟩

/-- What is left of the text from a position on. -/
def apply (s : List α) : ℕ → List (Cut α) → List α
  | at', [] => s.drop at'
  | at', c :: cs =>
      if c.start < at' then apply s at' cs
      else (s.drop at').take (c.start - at') ++ c.text ++ apply s c.stop cs

/-- The cuts of a list each end before the next one starts. -/
def Apart (cs : List (Cut α)) : Prop :=
  (∀ c ∈ cs, c.start ≤ c.stop) ∧ cs.Pairwise fun c d => c.stop < d.start

variable {s pre : List α} {c : Cut α} {cs ds : List (Cut α)} {at' m : ℕ}

theorem apply_skip (inside : c.start < at') : apply s at' (c :: cs) = apply s at' cs :=
  if_pos inside

theorem apply_cut (outside : at' ≤ c.start) :
    apply s at' (c :: cs) =
      (s.drop at').take (c.start - at') ++ c.text ++ apply s c.stop cs :=
  if_neg (Nat.not_lt.2 outside)

theorem apply_skips (inside : ∀ c ∈ cs, c.start < at') :
    apply s at' (cs ++ ds) = apply s at' ds := by
  induction cs with
  | nil => rfl
  | cons c cs ih =>
      have next := ih fun d mem => inside d (List.mem_cons_of_mem _ mem)
      rw [List.cons_append, apply_skip (inside c List.mem_cons_self), next]

theorem take_drop_append_drop (low : at' ≤ m) :
    (s.drop at').take (m - at') ++ s.drop m = s.drop at' := by
  have split_ := List.take_append_drop (m - at') (s.drop at')
  rw [List.drop_drop, Nat.add_sub_cancel' low] at split_
  exact split_

/-- The text is kept up to the first cut. -/
theorem apply_from (low : at' ≤ m) (later : ∀ c ∈ cs, m ≤ c.start) :
    apply s at' cs = (s.drop at').take (m - at') ++ apply s m cs := by
  cases cs with
  | nil => exact (take_drop_append_drop low).symm
  | cons c cs =>
      have first : m ≤ c.start := later c List.mem_cons_self
      have middle : (s.drop at').take (c.start - at') =
          (s.drop at').take (m - at') ++ (s.drop m).take (c.start - m) := by
        have sum : c.start - at' = (m - at') + (c.start - m) := by omega
        rw [sum, List.take_add, List.drop_drop, Nat.add_sub_cancel' low]
      rw [apply_cut (low.trans first), apply_cut first, middle, List.append_assoc,
        List.append_assoc, List.append_assoc]

/-- Cuts on either side of a position are applied on either side of it. -/
theorem apply_append (low : at' ≤ m) (before : ∀ c ∈ cs, c.start ≤ m ∧ c.stop ≤ m)
    (later : ∀ d ∈ ds, m ≤ d.start) :
    apply s at' (cs ++ ds) = apply (s.take m) at' cs ++ apply s m ds := by
  induction cs generalizing at' with
  | nil =>
      have kept : apply (s.take m) at' [] = (s.drop at').take (m - at') := List.drop_take
      rw [List.nil_append, kept]
      exact apply_from low later
  | cons c cs ih =>
      obtain ⟨starts, stops⟩ := before c List.mem_cons_self
      have rest : ∀ d ∈ cs, d.start ≤ m ∧ d.stop ≤ m := fun d mem =>
        before d (List.mem_cons_of_mem _ mem)
      rw [List.cons_append]
      by_cases inside : c.start < at'
      · rw [apply_skip inside, apply_skip inside]
        exact ih low rest
      · have outside := Nat.not_lt.1 inside
        have kept : ((s.take m).drop at').take (c.start - at') =
            (s.drop at').take (c.start - at') := by
          rw [List.drop_take, List.take_take, Nat.min_eq_left (Nat.sub_le_sub_right starts _)]
        rw [apply_cut outside, apply_cut outside, kept, ih stops rest, List.append_assoc,
          List.append_assoc, List.append_assoc]

/-- Cuts of the end of a text do not see its beginning. -/
theorem apply_shift :
    apply (pre ++ s) (pre.length + at') (cs.map (shift pre.length)) = apply s at' cs := by
  have dropped : ∀ n, (pre ++ s).drop (pre.length + n) = s.drop n := fun n => by
    rw [← List.drop_drop, List.drop_left]
  induction cs generalizing at' with
  | nil => exact dropped at'
  | cons c cs ih =>
      rw [List.map_cons]
      have start : (shift pre.length c).start = pre.length + c.start := rfl
      by_cases inside : c.start < at'
      · have moved : (shift pre.length c).start < pre.length + at' :=
          Nat.add_lt_add_left inside _
        rw [apply_skip moved, apply_skip inside, ih]
      · have outside := Nat.not_lt.1 inside
        have moved : pre.length + at' ≤ (shift pre.length c).start :=
          Nat.add_le_add_left outside _
        have rest : apply (pre ++ s) (shift pre.length c).stop (cs.map (shift pre.length)) =
            apply s c.stop cs := ih
        rw [apply_cut moved, apply_cut outside, rest, start, dropped, Nat.add_sub_add_left]
        rfl

/-- A cut that begins inside another one is dropped. -/
theorem apply_swallowed {outer inner : Cut α} (starts : at' ≤ outer.start)
    (first : ∀ c ∈ cs, c.start ≤ outer.start ∧ c.stop ≤ outer.start)
    (inside : outer.start ≤ inner.start ∧ inner.start < outer.stop) :
    apply s at' (cs ++ outer :: inner :: ds) = apply s at' (cs ++ outer :: ds) := by
  induction cs generalizing at' with
  | nil =>
      rw [List.nil_append, List.nil_append, apply_cut starts, apply_cut starts,
        apply_skip inside.2]
  | cons c cs ih =>
      obtain ⟨_, stops⟩ := first c List.mem_cons_self
      have rest : ∀ d ∈ cs, d.start ≤ outer.start ∧ d.stop ≤ outer.start := fun d mem =>
        first d (List.mem_cons_of_mem _ mem)
      rw [List.cons_append, List.cons_append]
      by_cases skipped : c.start < at'
      · rw [apply_skip skipped, apply_skip skipped, ih starts rest]
      · have outside := Nat.not_lt.1 skipped
        rw [apply_cut outside, apply_cut outside, ih stops rest]

/-- Cuts that put what is there already change nothing. -/
theorem apply_self (self : ∀ c ∈ cs, c.start ≤ c.stop ∧
    (s.drop c.start).take (c.stop - c.start) = c.text) : apply s at' cs = s.drop at' := by
  induction cs generalizing at' with
  | nil => rfl
  | cons c cs ih =>
      obtain ⟨fits, same⟩ := self c List.mem_cons_self
      have rest : ∀ d ∈ cs, d.start ≤ d.stop ∧ (s.drop d.start).take (d.stop - d.start) = d.text :=
        fun d mem => self d (List.mem_cons_of_mem _ mem)
      by_cases inside : c.start < at'
      · rw [apply_skip inside, ih rest]
      · have outside := Nat.not_lt.1 inside
        rw [apply_cut outside, ih rest, ← same, List.append_assoc, take_drop_append_drop fits,
          take_drop_append_drop outside]

/-- What is left is from the text behind the position, or from a cut. -/
theorem mem_apply {x : α} (fits : ∀ c ∈ cs, c.start ≤ c.stop) (mem : x ∈ apply s at' cs) :
    x ∈ s.drop at' ∨ ∃ c ∈ cs, x ∈ c.text := by
  induction cs generalizing at' with
  | nil => exact .inl mem
  | cons c cs ih =>
      have rest : ∀ d ∈ cs, d.start ≤ d.stop := fun d among =>
        fits d (List.mem_cons_of_mem _ among)
      by_cases inside : c.start < at'
      · rw [apply_skip inside] at mem
        obtain kept | ⟨d, among, text⟩ := ih rest mem
        · exact .inl kept
        · exact .inr ⟨d, List.mem_cons_of_mem _ among, text⟩
      · rw [apply_cut (Nat.not_lt.1 inside), List.mem_append, List.mem_append] at mem
        obtain (before | here) | after := mem
        · exact .inl (List.mem_of_mem_take before)
        · exact .inr ⟨c, List.mem_cons_self, here⟩
        · obtain kept | ⟨d, among, text⟩ := ih rest after
          · have later : at' ≤ c.stop := (Nat.not_lt.1 inside).trans (fits c List.mem_cons_self)
            rw [← Nat.add_sub_cancel' later, ← List.drop_drop] at kept
            exact .inl (List.mem_of_mem_drop kept)
          · exact .inr ⟨d, List.mem_cons_of_mem _ among, text⟩

/-- What is left ends as the text does, or with what a cut put in. -/
theorem getLast?_apply {x : α} (some_ : ∀ c ∈ cs, c.text ≠ [])
    (last : (apply s at' cs).getLast? = some x) : s.getLast? = some x ∨ ∃ c ∈ cs, x ∈ c.text := by
  induction cs generalizing at' with
  | nil =>
      have kept : (s.drop at').getLast? = some x := last
      left
      rw [← List.take_append_drop at' s, List.getLast?_append, kept]
      rfl
  | cons c cs ih =>
      have rest : ∀ d ∈ cs, d.text ≠ [] := fun d mem => some_ d (List.mem_cons_of_mem _ mem)
      by_cases inside : c.start < at'
      · rw [apply_skip inside] at last
        obtain kept | ⟨d, mem, text⟩ := ih rest last
        · exact .inl kept
        · exact .inr ⟨d, List.mem_cons_of_mem _ mem, text⟩
      · rw [apply_cut (Nat.not_lt.1 inside), List.getLast?_append] at last
        cases behind : (apply s c.stop cs).getLast? with
        | some y =>
            rw [behind] at last
            cases last
            obtain kept | ⟨d, mem, text⟩ := ih rest behind
            · exact .inl kept
            · exact .inr ⟨d, List.mem_cons_of_mem _ mem, text⟩
        | none =>
            have nonempty := some_ c List.mem_cons_self
            rw [behind, Option.none_or, List.getLast?_append, List.getLast?_eq_some_getLast nonempty]
              at last
            cases last
            exact .inr ⟨c, List.mem_cons_self, List.getLast_mem nonempty⟩

/-- Cuts in the beginning of a text leave its end. -/
theorem apply_append_left (low : at' ≤ s.length)
    (inside : ∀ c ∈ cs, c.start ≤ s.length ∧ c.stop ≤ s.length) (t : List α) :
    apply (s ++ t) at' cs = apply s at' cs ++ t := by
  have none_ : ∀ d ∈ ([] : List (Cut α)), s.length ≤ d.start := fun d mem =>
    absurd mem List.not_mem_nil
  have split_ := apply_append (s := s ++ t) low inside none_
  rw [List.append_nil, List.take_left] at split_
  rw [split_]
  exact congrArg (apply s at' cs ++ ·) List.drop_left

/-- Two texts with their cuts, one behind the other. -/
theorem apply_segments (low : at' ≤ s.length)
    (inside : ∀ c ∈ cs, c.start ≤ s.length ∧ c.stop ≤ s.length) (t : List α) :
    apply (s ++ t) at' (cs ++ ds.map (shift s.length)) = apply s at' cs ++ apply t 0 ds := by
  have later : ∀ d ∈ ds.map (shift s.length), s.length ≤ d.start := by
    intro d mem
    obtain ⟨c, -, rfl⟩ := List.mem_map.1 mem
    exact Nat.le_add_right _ _
  have moved : apply (s ++ t) (s.length + 0) (ds.map (shift s.length)) = apply t 0 ds := apply_shift
  rw [apply_append low inside later, List.take_left, ← moved]
  rfl

/-! ## Sorted cuts -/

section Sorted

variable {before : Cut α → Cut α → Prop} [DecidableRel before]

theorem insertionSort_of_apart (ordered : ∀ c d : Cut α, c.start < d.start → before c d)
    (apart : Apart cs) : cs.insertionSort before = cs := by
  apply List.Pairwise.insertionSort_eq
  refine apart.2.imp_of_mem ?_
  intro a b memA _ less
  exact ordered a b (Nat.lt_of_le_of_lt (apart.1 a memA) less)

theorem Apart.tail (apart : Apart (c :: cs)) : Apart cs :=
  ⟨fun d mem => apart.1 d (List.mem_cons_of_mem _ mem), (List.pairwise_cons.1 apart.2).2⟩

theorem Apart.start_lt (apart : Apart (c :: cs)) : ∀ d ∈ cs, c.start < d.start := fun d mem =>
  Nat.lt_of_le_of_lt (apart.1 c List.mem_cons_self) ((List.pairwise_cons.1 apart.2).1 d mem)

/-- The cuts that start before a position, and those that do not. -/
def below (n : ℕ) (cs : List (Cut α)) : List (Cut α) := cs.filter fun c => c.start < n

def above (n : ℕ) (cs : List (Cut α)) : List (Cut α) := cs.filter fun c => !decide (c.start < n)

theorem mem_below {n : ℕ} : c ∈ below n cs ↔ c ∈ cs ∧ c.start < n := by
  rw [below, List.mem_filter, decide_eq_true_iff]

theorem mem_above {n : ℕ} : c ∈ above n cs ↔ c ∈ cs ∧ n ≤ c.start := by
  rw [above, List.mem_filter, Bool.not_eq_true', decide_eq_false_iff_not, Nat.not_lt]

theorem below_append {n : ℕ} : below n (cs ++ ds) = below n cs ++ below n ds :=
  List.filter_append _ _

theorem above_append {n : ℕ} : above n (cs ++ ds) = above n cs ++ above n ds :=
  List.filter_append _ _

theorem below_shift {n k : ℕ} : below (k + n) (cs.map (shift k)) = (below n cs).map (shift k) := by
  simp only [below, List.filter_map, shift, Function.comp_def, Nat.add_lt_add_iff_left]

theorem above_shift {n k : ℕ} : above (k + n) (cs.map (shift k)) = (above n cs).map (shift k) := by
  simp only [above, List.filter_map, shift, Function.comp_def, Nat.add_lt_add_iff_left]

theorem below_of_le {n : ℕ} (later : ∀ c ∈ cs, n ≤ c.start) : below n cs = [] :=
  List.filter_eq_nil_iff.2 fun c mem => fun less =>
    Nat.not_lt.2 (later c mem) (of_decide_eq_true less)

theorem above_of_le {n : ℕ} (later : ∀ c ∈ cs, n ≤ c.start) : above n cs = cs :=
  List.filter_eq_self.2 fun c mem => (List.mem_filter.1 (mem_above.2 ⟨mem, later c mem⟩)).2

theorem below_of_lt {n : ℕ} (first : ∀ c ∈ cs, c.start < n) : below n cs = cs :=
  List.filter_eq_self.2 fun c mem => decide_eq_true (first c mem)

theorem above_of_lt {n : ℕ} (first : ∀ c ∈ cs, c.start < n) : above n cs = [] :=
  List.eq_nil_iff_forall_not_mem.2 fun c mem =>
    Nat.not_lt.2 (mem_above.1 mem).2 (first c (mem_above.1 mem).1)

theorem Apart.below_append_above (apart : Apart cs) (n : ℕ) : below n cs ++ above n cs = cs := by
  induction cs with
  | nil => rfl
  | cons c cs ih =>
      by_cases less : c.start < n
      · have low : below n (c :: cs) = c :: below n cs :=
          List.filter_cons_of_pos (decide_eq_true less)
        have high : above n (c :: cs) = above n cs :=
          List.filter_cons_of_neg (by simp only [decide_eq_true less, Bool.not_true]; decide)
        rw [low, high, List.cons_append, ih apart.tail]
      · have later : ∀ d ∈ c :: cs, n ≤ d.start := List.forall_mem_cons.2
          ⟨Nat.not_lt.1 less, fun d mem => (Nat.not_lt.1 less).trans (apart.start_lt d mem).le⟩
        rw [below_of_le later, above_of_le later]
        rfl

theorem Apart.above (apart : Apart cs) (n : ℕ) : Apart (above n cs) :=
  ⟨fun c mem => apart.1 c (mem_above.1 mem).1, apart.2.filter _⟩

/-- One cut among others that are apart is sorted into its place. -/
theorem insertionSort_cons_of_apart {new : Cut α}
    (ordered : ∀ c d : Cut α, c.start < d.start → before c d)
    (strict : ∀ c d : Cut α, before c d → c.start ≤ d.start) (apart : Apart cs)
    (differs : ∀ d ∈ cs, d.start ≠ new.start) :
    (new :: cs).insertionSort before = below new.start cs ++ new :: above new.start cs := by
  rw [List.insertionSort_cons, insertionSort_of_apart ordered apart]
  induction cs with
  | nil => rfl
  | cons c cs ih =>
      rcases Nat.lt_or_gt_of_ne (differs c List.mem_cons_self) with less | more
      · have after : ¬ before new c := fun le => Nat.not_lt.2 (strict new c le) less
        have next := ih apart.tail fun d mem => differs d (List.mem_cons_of_mem _ mem)
        have low : below new.start (c :: cs) = c :: below new.start cs :=
          List.filter_cons_of_pos (decide_eq_true less)
        have high : above new.start (c :: cs) = above new.start cs :=
          List.filter_cons_of_neg (by simp only [decide_eq_true less, Bool.not_true]; decide)
        rw [List.orderedInsert_of_not_le _ _ after, next, low, high, List.cons_append]
      · have later : ∀ d ∈ c :: cs, new.start ≤ d.start := List.forall_mem_cons.2
          ⟨more.le, fun d mem => (more.trans (apart.start_lt d mem)).le⟩
        rw [List.orderedInsert_cons_of_le _ _ (ordered new c more), below_of_le later,
          above_of_le later]
        rfl

end Sorted

end Cut

end Hx.Library
