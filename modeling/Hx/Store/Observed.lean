import Hx.Library.Prefixes
import Mathlib.Data.Finset.Dedup
import Mathlib.Data.Finset.Max
import Mathlib.Data.Prod.Lex

/-!
# Fixed, by the report and by the screen

Each pass answers for a finding it examined, once a pass. The report takes the answer of the
pass that started last, the screen shows the answers by the time they were given. Passes that
overlap may give the two orders different last rows.
-/

namespace Hx.Store.Observed

/-! ## The two readers -/

/-- A `run` row, as far as the readers join it. Ids are texts; all that is used of them is that
they are ordered and differ. -/
structure Pass where
  id : Nat
  startedUs : Int
  deriving DecidableEq

/-- A `finding_observation` row, joined with its run. -/
structure Observation where
  finding : String
  pass : Pass
  observed : Bool
  tsUs : Int
  deriving DecidableEq

structure Table where
  passes : List Pass
  rows : List Observation

namespace Table

def empty : Table := ⟨[], []⟩

/-- The rows of one finding. -/
def of (t : Table) (finding : String) : List Observation :=
  t.rows.filter fun o => o.finding = finding

/-- What `_latest_observed` orders by. -/
def reportKey (o : Observation) : Int ×ₗ Int := toLex (o.pass.startedUs, o.tsUs)

/-- What `observations` orders by. -/
def screenKey (o : Observation) : Int ×ₗ Nat := toLex (o.tsUs, o.pass.id)

/-- A row that an `ORDER BY` of this key can put last. -/
def IsLast {κ : Type} [LE κ] (key : Observation → κ) (rows : List Observation)
    (o : Observation) : Prop :=
  o ∈ rows ∧ ∀ q ∈ rows, key q ≤ key o

/-- `record_observation`; the run has to be on file. -/
def record (t : Table) (finding : String) (passId : Nat) (observed : Bool) (atUs : Int) : Table :=
  match t.passes.find? fun p => p.id = passId with
  | none => t
  | some pass =>
      { t with rows := t.rows.filter (fun o => ¬ (o.finding = finding ∧ o.pass.id = passId)) ++
          [⟨finding, pass, observed, atUs⟩] }

end Table

open Hx.Library Table

/-! ## Passes side by side -/

inductive Action where
  /-- A pass starts, under an id that is not on file. -/
  | start (pass : Pass)
  /-- A pass answers for a finding: `_write_finding` or `_mark_unobserved`. -/
  | answer (finding : String) (passId : Nat) (observed : Bool) (atUs : Int)

def act (t : Table) : Action → Table
  | .start pass =>
      if t.passes.any fun p => p.id = pass.id then t else { t with passes := pass :: t.passes }
  | .answer finding passId observed atUs => t.record finding passId observed atUs

def run (acts : List Action) : Table := acts.foldl act .empty

/-- The report and the screen have an answer for the finding, and it is this one, whichever of
the rows that are last come out last. -/
structure Says (t : Table) (finding : String) (observed : Bool) : Prop where
  report : ∀ o, IsLast reportKey (t.of finding) o → o.observed = observed
  screen : ∀ o, IsLast screenKey (t.of finding) o → o.observed = observed

/-- What an answer that has the run on file changes in the rows of its finding. -/
def behind (t : Table) (finding : String) (pass : Pass) (observed : Bool) (atUs : Int) :
    List Observation :=
  (t.of finding).filter (fun o => o.pass.id ≠ pass.id) ++ [⟨finding, pass, observed, atUs⟩]

/-- Every other pass that gave the finding the other answer is outranked, in both orders, by
this pass or by one that gave the same answer. -/
def InOrder (t : Table) (finding : String) (passId : Nat) (observed : Bool) (atUs : Int) : Prop :=
  ∀ pass, t.passes.find? (fun p => p.id = passId) = some pass →
    ∀ o ∈ t.of finding, o.pass.id ≠ passId → o.observed ≠ observed →
      (∃ q ∈ behind t finding pass observed atUs, q.observed = observed ∧
        reportKey o < reportKey q) ∧
      ∃ q ∈ behind t finding pass observed atUs, q.observed = observed ∧ screenKey o < screenKey q

/-- All rows that can come last have a property exactly if every row without it is outranked
by one with it. -/
theorem forall_isLast {κ : Type} [LinearOrder κ] (key : Observation → κ)
    (rows : List Observation) (P : Observation → Prop) :
    (∀ o, IsLast key rows o → P o) ↔ ∀ o ∈ rows, ¬ P o → ∃ q ∈ rows, P q ∧ key o < key q := by
  constructor
  · intro all o mem out
    obtain ⟨best, max⟩ : ∃ best, IsLast key rows best := by
      have some_ : rows.toFinset.Nonempty := ⟨o, List.mem_toFinset.2 mem⟩
      obtain ⟨best, there, max⟩ := Finset.exists_max_image rows.toFinset key some_
      exact ⟨best, List.mem_toFinset.1 there, fun q mem => max q (List.mem_toFinset.2 mem)⟩
    refine ⟨best, max.1, all best max, lt_of_le_of_ne (max.2 o mem) fun tie => ?_⟩
    exact out (all o ⟨mem, fun q there => tie ▸ max.2 q there⟩)
  · intro outranked o last
    by_contra out
    obtain ⟨q, mem, -, above⟩ := outranked o last.1 out
    exact absurd (last.2 q mem) (not_le.2 above)

/-! ## One answer -/

section Answer

variable {t : Table} {finding : String} {pass : Pass} {passId : Nat} {observed : Bool} {atUs : Int}

theorem of_record (known : t.passes.find? (fun p => p.id = passId) = some pass) :
    (t.record finding passId observed atUs).of finding =
      behind t finding pass observed atUs := by
  have own : pass.id = passId := by simpa using List.find?_some known
  rw [Table.record, known]
  show List.filter _ (List.filter _ t.rows ++ [_]) = _
  rw [List.filter_append, behind, Table.of, List.filter_filter, List.filter_filter]
  refine congrArg₂ _ (List.filter_congr fun o _ => ?_) (by simp)
  by_cases about : o.finding = finding <;> simp [about, own]

theorem of_record_other {other : String} (apart : other ≠ finding) :
    (t.record finding passId observed atUs).of other = t.of other := by
  rw [Table.record]
  split
  · rfl
  · rename_i pass _
    show List.filter _ (List.filter _ t.rows ++ [_]) = _
    rw [List.filter_append, List.filter_filter, Table.of]
    have none_ : List.filter (fun o => decide (o.finding = other))
        [(⟨finding, pass, observed, atUs⟩ : Observation)] = [] := by
      rw [List.filter_cons, if_neg (by simpa using Ne.symm apart), List.filter_nil]
    rw [none_, List.append_nil]
    refine List.filter_congr fun o _ => ?_
    by_cases about : o.finding = other <;> simp [about, apart]

/-- Both readers say what was answered exactly if the answer is in order. -/
theorem record_iff (known : t.passes.find? (fun p => p.id = passId) = some pass) :
    Says (t.record finding passId observed atUs) finding observed ↔
      InOrder t finding passId observed atUs := by
  have own : pass.id = passId := by simpa using List.find?_some known
  have rows : (t.record finding passId observed atUs).of finding =
      behind t finding pass observed atUs := of_record known
  -- a row with the other answer is one of another pass
  have other : ∀ o, o ∈ behind t finding pass observed atUs ∧ o.observed ≠ observed ↔
      o ∈ t.of finding ∧ o.pass.id ≠ passId ∧ o.observed ≠ observed := by
    intro o
    rw [behind, List.mem_append, List.mem_filter, List.mem_singleton, own]
    constructor
    · rintro ⟨⟨mem, apart⟩ | rfl, differs⟩
      · exact ⟨mem, of_decide_eq_true apart, differs⟩
      · exact absurd rfl differs
    · rintro ⟨mem, apart, differs⟩
      exact ⟨.inl ⟨mem, decide_eq_true apart⟩, differs⟩
  have both : Says (t.record finding passId observed atUs) finding observed ↔
      ∀ o, o ∈ behind t finding pass observed atUs ∧ o.observed ≠ observed →
        (∃ q ∈ behind t finding pass observed atUs, q.observed = observed ∧
          reportKey o < reportKey q) ∧
        ∃ q ∈ behind t finding pass observed atUs, q.observed = observed ∧
          screenKey o < screenKey q := by
    constructor
    · rintro ⟨report, screen⟩ o ⟨mem, differs⟩
      rw [rows] at report screen
      exact ⟨(forall_isLast reportKey _ fun o => o.observed = observed).1 report o mem differs,
        (forall_isLast screenKey _ fun o => o.observed = observed).1 screen o mem differs⟩
    · intro outranked
      refine ⟨?_, ?_⟩
      · rw [rows, forall_isLast]
        exact fun o mem differs => (outranked o ⟨mem, differs⟩).1
      · rw [rows, forall_isLast]
        exact fun o mem differs => (outranked o ⟨mem, differs⟩).2
  rw [both]
  constructor
  · intro outranked pass' known' o mem apart differs
    obtain rfl := Option.some.inj (known.symm.trans known')
    exact outranked o ((other o).2 ⟨mem, apart, differs⟩)
  · intro inOrder o there
    obtain ⟨mem, apart, differs⟩ := (other o).1 there
    exact inOrder pass known o mem apart differs

end Answer

/-! ## Histories -/

/-- The table, and the last answer that was recorded about a finding. -/
def watch (finding : String) (s : Table × Option Bool) (a : Action) : Table × Option Bool :=
  (act s.1 a, match a with
    | .start _ => s.2
    | .answer about passId observed _ =>
        if about = finding ∧ (s.1.passes.find? fun p => p.id = passId).isSome = true then
          some observed
        else s.2)

/-- The answer of the pass that recorded one about the finding last. -/
def lastAnswer (acts : List Action) (finding : String) : Option Bool :=
  (acts.foldl (watch finding) (.empty, none)).2

/-- The report shows its `appears fixed` marker exactly if the screen's last row says so, and
both say what the last pass to answer for the finding did. -/
def Agrees (finding : String) (acts : List Action) : Prop :=
  ∀ observed, lastAnswer acts finding = some observed → Says (run acts) finding observed

/-- An answer for the finding is in order. -/
def Ordered (finding : String) (t : Table) : Action → Prop
  | .start _ => True
  | .answer about passId observed atUs =>
      about = finding → InOrder t finding passId observed atUs

theorem watch_table (acts : List Action) (finding : String) :
    (acts.foldl (watch finding) (.empty, none)).1 = run acts := by
  induction acts using List.reverseRecOn with
  | nil => rfl
  | append_singleton acts a ih =>
      rw [List.foldl_append, run, List.foldl_append]
      exact congrArg (act · a) ih

theorem run_append (acts : List Action) (a : Action) : run (acts ++ [a]) = act (run acts) a := by
  rw [run, List.foldl_append]
  rfl

theorem lastAnswer_append (acts : List Action) (a : Action) (finding : String) :
    lastAnswer (acts ++ [a]) finding =
      (watch finding (run acts, lastAnswer acts finding) a).2 := by
  rw [lastAnswer, List.foldl_append, ← watch_table acts finding]
  rfl

/-- One more action keeps the readers agreed exactly if it is in order. -/
theorem agrees_append {finding : String} {acts : List Action} (past : Agrees finding acts)
    (a : Action) : Agrees finding (acts ++ [a]) ↔ Ordered finding (run acts) a := by
  rw [Agrees, lastAnswer_append, run_append]
  cases a with
  | start pass =>
      refine iff_of_true (fun observed last => ?_) trivial
      have rows : (act (run acts) (.start pass)).of finding = (run acts).of finding := by
        rw [act]
        split <;> rfl
      obtain ⟨report, screen⟩ := past observed last
      exact ⟨rows ▸ report, rows ▸ screen⟩
  | answer about passId observed atUs =>
      rw [Ordered, watch, act]
      by_cases own : about = finding
      · subst own
        rw [forall_prop_of_true rfl]
        cases known : (run acts).passes.find? fun p => p.id = passId with
        | none =>
            have same : (run acts).record about passId observed atUs = run acts := by
              rw [Table.record, known]
            dsimp only
            rw [same, if_neg fun both => absurd both.2 Bool.false_ne_true]
            refine iff_of_true past fun pass known' => ?_
            exact absurd (known.symm.trans known') (Option.some_ne_none _).symm
        | some pass =>
            dsimp only
            rw [← record_iff known, if_pos ⟨rfl, rfl⟩]
            constructor
            · exact fun all => all observed rfl
            · rintro both observed' ⟨⟩
              exact both
      · refine iff_of_true (fun answered last => ?_) fun same => absurd same own
        dsimp only at last
        rw [if_neg fun both => own both.1] at last
        obtain ⟨report, screen⟩ := past answered last
        have rows : ((run acts).record about passId observed atUs).of finding =
            (run acts).of finding := of_record_other (Ne.symm own)
        exact ⟨rows ▸ report, rows ▸ screen⟩

/-- A pass that started first answers last. -/
def overtaken : List Action :=
  [.start ⟨1, 10⟩, .start ⟨2, 20⟩, .answer "f1" 2 true 30, .answer "f1" 1 false 40]

end Hx.Store.Observed
