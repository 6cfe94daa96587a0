import Hx.Library.Rolling
import Hx.Policy.Distress
import Mathlib.Data.List.Induction

/-!
# Distress recomputed from scratch

What the tracker keeps of a host is a function of the host's own samples: the last of them
that are young enough, the streak of connection errors they end in, and the baseline of the
first that were answered. So is the rule that a further sample trips, and the first sample to
trip one stops the tracker for good.
-/

namespace Hx.Policy.Distress

open Hx.Java Hx.Library

/-! ## From scratch -/

/-- The window of a host that was sampled last at `now`: its last samples, those of them that
are no older than the window. -/
def windowAt (S : DistressSettings) (now : Int64) (samples : List Sample) : List Sample :=
  (samples.drop (samples.length - S.windowRequests)).filter fun s =>
    now.toInt - s.atUs.toInt ≤ S.windowMs.toInt * 1000

def windowOf (S : DistressSettings) (samples : List Sample) : List Sample :=
  match samples.getLast? with
  | none => []
  | some s => windowAt S s.atUs samples

/-- How many connection errors the samples end in. -/
def streakOf (samples : List Sample) : ℕ :=
  (samples.reverse.takeWhile fun s => s.connectionError).length

def latenciesOf (samples : List Sample) : List Int64 := (answered samples).map Sample.ms

/-- The baseline of the first answered samples, once there are enough of them. -/
def baselineOf (S : DistressSettings) (samples : List Sample) : Option Int64 :=
  if S.baselineRequests ≤ (latenciesOf samples).length then
    some (p50 ((latenciesOf samples).take S.baselineRequests))
  else none

/-- The rule over the 5xx rate, of a window. -/
def rateRule (S : DistressSettings) (window : List Sample) : Option StopReason :=
  if S.baselineRequests ≤ (answered window).length ∧
      S.above5xx (fivexx window).length (answered window).length then
    some (.rate (fivexx window).length (answered window).length)
  else none

/-- The rule over the latency, of a window and a baseline. -/
def latencyRule (S : DistressSettings) (window : List Sample) (baseline : Int64) :
    Option StopReason :=
  if latenciesOf window ≠ [] ∧ S.aboveBaseline (p50 (latenciesOf window)) (max baseline 1) ∧
      S.latencyFloorMs ≤ p50 (latenciesOf window) then
    some (.latency (p50 (latenciesOf window)) (latenciesOf window).length baseline)
  else none

/-- The cutoff is no `long`. -/
def Overflows (S : DistressSettings) (s : Sample) : Prop :=
  s.atUs.toInt - S.windowMs.toInt * 1000 < -9223372036854775808

instance (S : DistressSettings) (s : Sample) : Decidable (Overflows S s) :=
  inferInstanceAs (Decidable (_ < _))

/-- The rule that a sample trips behind a host's earlier samples. The baseline is the one that
was there before the sample. -/
def ruleOf (S : DistressSettings) (past : List Sample) (s : Sample) : Option StopReason :=
  if Overflows S s then some .overflowed
  else if s.connectionError ∧ S.maxConsecutiveErrors ≤ streakOf (past ++ [s]) then
    some (.consecutive (streakOf (past ++ [s])))
  else (rateRule S (windowOf S (past ++ [s]))).or <|
    (baselineOf S past).bind (latencyRule S (windowOf S (past ++ [s])))

/-- What is kept of a host. -/
def hostOf (S : DistressSettings) (samples : List Sample) : DistressHost where
  window := windowOf S samples
  firstLatencies := (latenciesOf samples).take S.baselineRequests
  baselineReady := (baselineOf S samples).isSome
  baselineMs := (baselineOf S samples).getD 0
  consecutiveErrors := streakOf samples

/-! ## A further sample -/

/-- The samples are in the order of their times. -/
def Ordered (samples : List Sample) : Prop :=
  samples.Pairwise fun a b => a.atUs.toInt ≤ b.atUs.toInt

section Sampled

variable {S : DistressSettings} {samples : List Sample} {s : Sample}

theorem windowOf_append (S : DistressSettings) (samples : List Sample) (s : Sample) :
    windowOf S (samples ++ [s]) = windowAt S s.atUs (samples ++ [s]) := by
  rw [windowOf, List.getLast?_concat]

theorem windowAt_eq_young (S : DistressSettings) (now : Int64) (samples : List Sample) :
    windowAt S now samples =
      Rolling.young (fun s : Sample => s.atUs.toInt) (now.toInt - S.windowMs.toInt * 1000)
        (Rolling.last S.windowRequests samples) := by
  rw [windowAt, Rolling.young, Rolling.last]
  refine List.filter_congr fun s _ => ?_
  rw [Bool.eq_iff_iff, decide_eq_true_iff, decide_eq_true_iff]
  omega

/-- The rolled window is the recomputed one. -/
theorem windowOf_step (ordered : Ordered (samples ++ [s])) :
    evictedByAge (s.atUs.toInt - S.windowMs.toInt * 1000)
        (evictedByCount S (windowOf S samples ++ [s])) =
      windowOf S (samples ++ [s]) := by
  obtain ⟨sorted, -, before⟩ := List.pairwise_append.1 ordered
  rw [windowOf_append, windowAt_eq_young]
  cases ends : samples.getLast? with
  | none =>
      rw [List.getLast?_eq_none_iff.1 ends]
      rfl
  | some t =>
      have mem := List.mem_of_getLast? ends
      have later := before t mem s (List.mem_singleton_self s)
      have cutoffs : t.atUs.toInt - S.windowMs.toInt * 1000 ≤
          s.atUs.toInt - S.windowMs.toInt * 1000 := by omega
      have step := Rolling.young_last_step (n := S.windowRequests) (x := s) sorted cutoffs
      rw [windowOf, ends]
      dsimp only
      rw [windowAt_eq_young]
      exact step

theorem streakOf_append (S : List Sample) (s : Sample) :
    streakOf (S ++ [s]) = if s.connectionError then streakOf S + 1 else 0 := by
  rw [streakOf, List.reverse_concat, List.takeWhile_cons]
  split
  · rw [List.length_cons, streakOf]
  · rfl

theorem latenciesOf_append (samples : List Sample) (s : Sample) :
    latenciesOf (samples ++ [s]) =
      latenciesOf samples ++ if s.connectionError then [] else [s.ms] := by
  rw [latenciesOf, answered, List.filter_append, List.map_append, latenciesOf, answered]
  cases error : s.connectionError with
  | false => simp [error]
  | true => simp [error]

theorem baselineReady_hostOf (S : DistressSettings) (samples : List Sample) :
    (hostOf S samples).baselineReady = true ↔
      S.baselineRequests ≤ (latenciesOf samples).length := by
  rw [hostOf, baselineOf]
  split
  · exact iff_of_true rfl ‹_›
  · exact iff_of_false Bool.false_ne_true ‹_›

/-- The streak and the baseline are counted on as they are counted from scratch. -/
theorem observed_hostOf (S : DistressSettings) (samples : List Sample) (s : Sample) :
    observed S { hostOf S samples with window := windowOf S (samples ++ [s]) } s =
      hostOf S (samples ++ [s]) := by
  have streak := streakOf_append samples s
  have latencies := latenciesOf_append samples s
  rw [observed]
  by_cases error : s.connectionError
  · rw [if_pos error] at streak latencies ⊢
    rw [List.append_nil] at latencies
    simp only [hostOf, baselineOf, latencies, streak]
  rw [if_neg error] at streak latencies ⊢
  by_cases ready : S.baselineRequests ≤ (latenciesOf samples).length
  · have still : S.baselineRequests ≤ (latenciesOf (samples ++ [s])).length := by
      rw [latencies, List.length_append]
      exact ready.trans (Nat.le_add_right _ _)
    have first : (latenciesOf (samples ++ [s])).take S.baselineRequests =
        (latenciesOf samples).take S.baselineRequests := by
      rw [latencies, List.take_append_of_le_length ready]
    rw [if_pos ((baselineReady_hostOf S samples).2 ready)]
    simp only [hostOf, baselineOf, if_pos ready, if_pos still, first, streak]
  · have all : (latenciesOf samples).take S.baselineRequests = latenciesOf samples :=
      List.take_of_length_le (Nat.le_of_not_le ready)
    have count : (latenciesOf (samples ++ [s])).length = (latenciesOf samples).length + 1 := by
      rw [latencies, List.length_append, List.length_singleton]
    have whole : (latenciesOf (samples ++ [s])).take S.baselineRequests =
        latenciesOf (samples ++ [s]) :=
      List.take_of_length_le (by omega)
    rw [if_neg fun yes => ready ((baselineReady_hostOf S samples).1 yes)]
    by_cases completes : (latenciesOf (samples ++ [s])).length = S.baselineRequests
    · have now : S.baselineRequests ≤ (latenciesOf (samples ++ [s])).length := completes.ge
      simp only [hostOf, baselineOf, all, if_neg ready, if_pos now, whole, streak, ← latencies,
        if_pos completes, Option.getD_some, Option.isSome_some]
    · have later : ¬ S.baselineRequests ≤ (latenciesOf (samples ++ [s])).length := by omega
      simp only [hostOf, baselineOf, all, if_neg ready, if_neg later, whole, streak, ← latencies,
        if_neg completes]

theorem tripOn5xxRate_hostOf (S : DistressSettings) (samples : List Sample) :
    tripOn5xxRate S (hostOf S samples) = rateRule S (windowOf S samples) := by
  rw [tripOn5xxRate, rateRule]
  show (if (answered (windowOf S samples)).length < S.baselineRequests then none else _) = _
  by_cases few : (answered (windowOf S samples)).length < S.baselineRequests
  · rw [if_pos few, if_neg fun both => absurd both.1 (Nat.not_le.2 few)]
  · rw [if_neg few]
    exact if_congr ⟨fun above => ⟨Nat.le_of_not_lt few, above⟩, And.right⟩ rfl rfl

/-- The latency is judged by a baseline that the sample before it had completed. -/
theorem tripOnLatency_hostOf (S : DistressSettings) (samples : List Sample) (s : Sample)
    {baseline : Int64} (ready : baselineOf S samples = some baseline) :
    tripOnLatency S (hostOf S (samples ++ [s])) =
      latencyRule S (windowOf S (samples ++ [s])) baseline := by
  have enough : S.baselineRequests ≤ (latenciesOf samples).length := by
    by_contra few
    rw [baselineOf, if_neg few] at ready
    cases ready
  have kept : baselineOf S (samples ++ [s]) = some baseline := by
    rw [← ready, baselineOf, baselineOf, latenciesOf_append, if_pos enough, List.length_append,
      if_pos (enough.trans (Nat.le_add_right _ _)), List.take_append_of_le_length enough]
  have same : (hostOf S (samples ++ [s])).baselineMs = baseline := by
    rw [hostOf, kept, Option.getD_some]
  rw [tripOnLatency, latencyRule, same]
  show (if latenciesOf (windowOf S (samples ++ [s])) = [] then none else _) = _
  by_cases none_ : latenciesOf (windowOf S (samples ++ [s])) = []
  · rw [if_pos none_, if_neg fun all => all.1 none_]
  · rw [if_neg none_]
    refine if_congr ⟨fun both => ⟨none_, both.1, ?_⟩, fun all => ⟨all.2.1, ?_⟩⟩ rfl rfl
    · exact Int64.not_lt.1 both.2
    · exact Int64.not_lt.2 all.2.2

theorem verdict_hostOf (fits : ¬ Overflows S s) :
    verdict S (hostOf S samples).baselineReady s.connectionError (hostOf S (samples ++ [s])) =
      ruleOf S samples s := by
  rw [verdict, ruleOf, if_neg fits, tripOn5xxRate_hostOf]
  refine if_congr Iff.rfl rfl (congrArg _ ?_)
  show (if (baselineOf S samples).isSome then _ else _) = _
  cases ready : baselineOf S samples with
  | none => rfl
  | some baseline => exact tripOnLatency_hostOf S samples s ready

/-- A sample behind those that a host was recorded with: the window and the verdict are the
recomputed ones, and unless the clock overflowed so is the rest. -/
theorem sampled_hostOf (ordered : Ordered (samples ++ [s])) :
    (sampled S (hostOf S samples) s).2 = ruleOf S samples s ∧
      (sampled S (hostOf S samples) s).1.window = windowOf S (samples ++ [s]) ∧
      (ruleOf S samples s = none →
        (sampled S (hostOf S samples) s).1 = hostOf S (samples ++ [s])) := by
  have window := windowOf_step (S := S) ordered
  by_cases overflows : Overflows S s
  · have cut : cutoffUs S s.atUs = none := if_neg (Int.not_le.2 overflows)
    have rule : ruleOf S samples s = some .overflowed := if_pos overflows
    have all : evictedByAge (s.atUs.toInt - S.windowMs.toInt * 1000)
        (evictedByCount S (windowOf S samples ++ [s])) =
        evictedByCount S (windowOf S samples ++ [s]) := by
      refine List.filter_eq_self.2 fun t _ => decide_eq_true ?_
      exact (Int.le_of_lt overflows).trans (Int64.le_toInt t.atUs)
    rw [sampled, cut, rule]
    exact ⟨rfl, all.symm.trans window, fun none_ => absurd none_ (Option.some_ne_none _)⟩
  · have cut : cutoffUs S s.atUs = some (s.atUs.toInt - S.windowMs.toInt * 1000) :=
      if_pos (Int.not_lt.1 overflows)
    have next : sampled S (hostOf S samples) s =
        (hostOf S (samples ++ [s]), ruleOf S samples s) := by
      rw [sampled, cut]
      dsimp only
      have windowed : (hostOf S samples).window = windowOf S samples := rfl
      rw [windowed, window, observed_hostOf, verdict_hostOf overflows]
    rw [next]
    exact ⟨rfl, rfl, fun _ => rfl⟩

end Sampled

/-! ## A run -/

/-- A call of `record`, with the reading of the clock it makes. -/
structure Report where
  host : JString
  nowUs : Int64
  status : Int
  ms : Int64
  connectionError : Bool

def Report.sample (r : Report) : Sample := sampleOf r.nowUs r.status r.ms r.connectionError

def report (S : DistressSettings) (d : Distress) (r : Report) : Distress :=
  record S d r.nowUs r.host r.status r.ms r.connectionError

def runReports (S : DistressSettings) (rs : List Report) : Distress := rs.foldl (report S) {}

/-- The clock never goes back. -/
def Monotone (rs : List Report) : Prop := rs.Pairwise fun a b => a.nowUs.toInt ≤ b.nowUs.toInt

def ownReports (host : JString) (rs : List Report) : List Report :=
  rs.filter fun r => r.host = host

def samplesOf (host : JString) (rs : List Report) : List Sample :=
  (ownReports host rs).map Report.sample

/-- The stop that a report asks for behind earlier reports. -/
def stopOf (S : DistressSettings) (past : List Report) (r : Report) : Option Stop :=
  (ruleOf S (samplesOf r.host past) r.sample).map fun reason => ⟨reason, r.host⟩

/-- No report trips a rule. -/
def Quiet (S : DistressSettings) (rs : List Report) : Prop :=
  ∀ past r, past ++ [r] <+: rs → stopOf S past r = none

section Run

variable {S : DistressSettings} {past rs : List Report} {r : Report} {host : JString}

theorem runReports_concat : runReports S (past ++ [r]) = report S (runReports S past) r := by
  rw [runReports, List.foldl_append, runReports]
  rfl

theorem ownReports_concat_self :
    ownReports r.host (past ++ [r]) = ownReports r.host past ++ [r] := by
  have own : ownReports r.host [r] = [r] := List.filter_cons_of_pos (decide_eq_true rfl)
  rw [ownReports, List.filter_append]
  exact congrArg _ own

theorem ownReports_concat_of_ne (differs : host ≠ r.host) :
    ownReports host (past ++ [r]) = ownReports host past := by
  have none_ : ownReports host [r] = [] :=
    List.filter_cons_of_neg fun own => differs (of_decide_eq_true own).symm
  rw [ownReports, List.filter_append]
  exact (congrArg _ none_).trans (List.append_nil _)

theorem samplesOf_concat_self :
    samplesOf r.host (past ++ [r]) = samplesOf r.host past ++ [r.sample] := by
  rw [samplesOf, ownReports_concat_self, List.map_append]
  rfl

theorem samplesOf_concat_of_ne (differs : host ≠ r.host) :
    samplesOf host (past ++ [r]) = samplesOf host past := by
  rw [samplesOf, ownReports_concat_of_ne differs, samplesOf]

theorem Monotone.ordered (monotone : Monotone rs) (host : JString) :
    Ordered (samplesOf host rs) :=
  List.pairwise_map.2 (List.Pairwise.filter _ monotone)

theorem Monotone.before (monotone : Monotone rs) (first : past <+: rs) : Monotone past :=
  List.Pairwise.sublist first.sublist monotone

theorem quiet_concat : Quiet S (past ++ [r]) ↔ Quiet S past ∧ stopOf S past r = none := by
  constructor
  · intro quiet
    refine ⟨fun older q first => quiet older q ?_, quiet past r (List.prefix_refl _)⟩
    exact first.trans (List.prefix_append _ _)
  · rintro ⟨quiet, last⟩ older q first
    obtain whole | first := List.prefix_concat_iff.1 first
    · obtain ⟨rfl, same⟩ := List.append_inj' whole rfl
      rw [List.singleton_inj.1 same]
      exact last
    · exact quiet older q first

theorem hostOf_nil : hostOf S [] = {} := by
  have few : ¬ S.baselineRequests ≤ (latenciesOf []).length := by
    have one := S.baseline.1
    simp only [latenciesOf, answered, List.filter_nil, List.map_nil, List.length_nil]
    omega
  rw [hostOf, baselineOf, if_neg few]
  simp only [latenciesOf, answered, List.filter_nil, List.map_nil, List.take_nil]
  rfl

/-- Where nothing has tripped, every host is what its own samples make of it. -/
theorem run_quiet (monotone : Monotone rs) (quiet : Quiet S rs) :
    (runReports S rs).stop = none ∧
      ∀ host, (runReports S rs).hosts host = hostOf S (samplesOf host rs) := by
  induction rs using List.reverseRecOn with
  | nil => exact ⟨rfl, fun host => hostOf_nil.symm⟩
  | append_singleton past r ih =>
      obtain ⟨before, silent⟩ := quiet_concat.1 quiet
      obtain ⟨running, same⟩ := ih (monotone.before (List.prefix_append _ _)) before
      have ordered := monotone.ordered r.host
      rw [samplesOf_concat_self] at ordered
      obtain ⟨verdict, -, next⟩ := sampled_hostOf (S := S) ordered
      have rule : ruleOf S (samplesOf r.host past) r.sample = none :=
        Option.map_eq_none_iff.1 silent
      rw [runReports_concat]
      constructor
      · rw [report, record_of_running running, same]
        exact Option.map_eq_none_iff.2 (verdict.trans rule)
      · intro host
        by_cases own : host = r.host
        · rw [own, report, hosts_record_self running, same, samplesOf_concat_self]
          exact next rule
        · rw [report, hosts_record_of_ne running own, same, samplesOf_concat_of_ne own]

/-- The report behind a quiet run. -/
theorem run_concat (monotone : Monotone (past ++ [r])) (quiet : Quiet S past) :
    ((runReports S (past ++ [r])).hosts r.host).window =
        windowAt S r.nowUs (samplesOf r.host (past ++ [r])) ∧
      (∀ host, host ≠ r.host →
        (runReports S (past ++ [r])).hosts host = (runReports S past).hosts host) ∧
      (runReports S (past ++ [r])).stop = stopOf S past r := by
  obtain ⟨running, same⟩ := run_quiet (monotone.before (List.prefix_append _ _)) quiet
  have ordered := monotone.ordered r.host
  rw [samplesOf_concat_self] at ordered
  obtain ⟨verdict, window, -⟩ := sampled_hostOf (S := S) ordered
  rw [runReports_concat, report]
  refine ⟨?_, fun host differs => hosts_record_of_ne running differs, ?_⟩
  · rw [hosts_record_self running, same, samplesOf_concat_self]
    exact window.trans (windowOf_append S _ _)
  · rw [record_of_running running, same]
    exact congrArg (Option.map _) verdict

/-- Nothing that is recorded after a stop has an effect. -/
theorem foldl_report_of_stopped {d : Distress} (stopped : d.stop.isSome = true)
    (later : List Report) : later.foldl (report S) d = d := by
  induction later with
  | nil => rfl
  | cons r later ih =>
      rw [List.foldl_cons, report, record_of_stopped stopped]
      exact ih

theorem samplesOf_ownReports : samplesOf host (ownReports host rs) = samplesOf host rs := by
  rw [samplesOf, ownReports, ownReports, List.filter_filter]
  simp only [Bool.and_self]
  rfl

/-- The reports of one host are quiet among themselves. -/
theorem Quiet.own (quiet : Quiet S rs) (host : JString) : Quiet S (ownReports host rs) := by
  induction rs using List.reverseRecOn with
  | nil => exact quiet
  | append_singleton past r ih =>
      obtain ⟨before, silent⟩ := quiet_concat.1 quiet
      by_cases own : host = r.host
      · rw [own, ownReports_concat_self, quiet_concat]
        refine ⟨own ▸ ih before, ?_⟩
        rw [stopOf, samplesOf_ownReports]
        exact silent
      · rw [ownReports_concat_of_ne own]
        exact ih before

theorem Monotone.own (monotone : Monotone rs) (host : JString) : Monotone (ownReports host rs) :=
  List.Pairwise.filter _ monotone

/-- Without the other hosts' reports the verdict is the same. -/
theorem stop_own (monotone : Monotone (past ++ [r])) (quiet : Quiet S past) :
    (runReports S (ownReports r.host (past ++ [r]))).stop = stopOf S past r := by
  have alone := monotone.own r.host
  rw [ownReports_concat_self] at alone ⊢
  rw [(run_concat alone (quiet.own r.host)).2.2, stopOf, samplesOf_ownReports, stopOf]

/-- A run is quiet, or some report is the first to trip a rule. -/
theorem quiet_or_first (S : DistressSettings) (rs : List Report) :
    Quiet S rs ∨ ∃ past r later,
      rs = past ++ [r] ++ later ∧ Quiet S past ∧ (stopOf S past r).isSome = true := by
  induction rs using List.reverseRecOn with
  | nil =>
      refine Or.inl fun past r first => ?_
      exact absurd (List.prefix_nil.1 first) (List.append_ne_nil_of_right_ne_nil _ (by simp))
  | append_singleton rs r ih =>
      obtain quiet | ⟨past, q, later, rfl, quiet, trips⟩ := ih
      · by_cases silent : stopOf S rs r = none
        · exact Or.inl (quiet_concat.2 ⟨quiet, silent⟩)
        · exact Or.inr ⟨rs, r, [], (List.append_nil _).symm, quiet,
            Option.isSome_iff_ne_none.2 silent⟩
      · exact Or.inr ⟨past, q, later ++ [r], List.append_assoc _ _ _, quiet, trips⟩

end Run

/-- Either no report of a run trips a rule, and then the tracker runs and keeps of every host
what the host's own samples make of it, or the first that does has stopped it. A report behind a
quiet run leaves in the window the last samples of its host that are young enough, touches no
other host, and stops the tracker exactly when a rule holds: with the report's reason, which no
later report replaces, and just as it would have without the other hosts' reports. -/
theorem windows_recomputed (S : DistressSettings) (rs : List Report) (monotone : Monotone rs) :
    (Quiet S rs ∧ (runReports S rs).stop = none ∧
        (∀ host, (runReports S rs).hosts host = hostOf S (samplesOf host rs)) ∨
      ∃ past r later, rs = past ++ [r] ++ later ∧ Quiet S past ∧
        (stopOf S past r).isSome = true ∧ (runReports S rs).stop = stopOf S past r) ∧
    ∀ past r later, rs = past ++ [r] ++ later → Quiet S past →
      ((runReports S (past ++ [r])).hosts r.host).window =
          windowAt S r.nowUs (samplesOf r.host (past ++ [r])) ∧
        (∀ host, host ≠ r.host →
          (runReports S (past ++ [r])).hosts host = (runReports S past).hosts host) ∧
        (runReports S (past ++ [r])).stop = stopOf S past r ∧
        (runReports S (ownReports r.host (past ++ [r]))).stop = stopOf S past r ∧
        ((stopOf S past r).isSome = true → runReports S rs = runReports S (past ++ [r])) := by
  have each : ∀ past r later, rs = past ++ [r] ++ later → Quiet S past →
      ((runReports S (past ++ [r])).hosts r.host).window =
          windowAt S r.nowUs (samplesOf r.host (past ++ [r])) ∧
        (∀ host, host ≠ r.host →
          (runReports S (past ++ [r])).hosts host = (runReports S past).hosts host) ∧
        (runReports S (past ++ [r])).stop = stopOf S past r ∧
        (runReports S (ownReports r.host (past ++ [r]))).stop = stopOf S past r ∧
        ((stopOf S past r).isSome = true → runReports S rs = runReports S (past ++ [r])) := by
    rintro past r later rfl quiet
    have first := monotone.before (List.prefix_append _ _)
    obtain ⟨window, others, stop⟩ := run_concat first quiet
    refine ⟨window, others, stop, stop_own first quiet, fun trips => ?_⟩
    rw [← stop] at trips
    rw [runReports, List.foldl_append]
    exact foldl_report_of_stopped trips later
  refine ⟨?_, each⟩
  obtain quiet | ⟨past, r, later, whole, quiet, trips⟩ := quiet_or_first S rs
  · exact Or.inl ⟨quiet, run_quiet monotone quiet⟩
  · obtain ⟨-, -, stop, -, kept⟩ := each past r later whole quiet
    refine Or.inr ⟨past, r, later, whole, quiet, trips, ?_⟩
    rw [kept trips, stop]

/-- More than half errors of the server, or five times the baseline, or two errors in a row. -/
def shortWindow : DistressSettings where
  above5xx fivexx answered := answered < 2 * fivexx
  aboveBaseline p50 baseline := 5 * baseline.toInt < p50.toInt
  maxConsecutiveErrors := 2
  windowRequests := 3
  windowMs := 1000
  baselineRequests := 1
  latencyFloorMs := 0
  calm5xx answered := decide_eq_false (Nat.not_lt_zero answered)
  calmBaseline p50 baseline one within := by
    refine decide_eq_false fun above => ?_
    omega
  errors := by decide
  requests := by decide
  window := by decide
  baseline := by decide
  floor := by decide

/-- Two hosts that refuse, one of them again and again. -/
def refusals : List Report :=
  [⟨js "a", 0, 0, 1, true⟩, ⟨js "b", 1000, 0, 1, true⟩, ⟨js "a", 2000, 0, 1, true⟩,
    ⟨js "b", 3000, 0, 1, true⟩]

/-- Some report stops this run. -/
theorem refusals_stopped :
    Monotone refusals ∧
      ∃ past r later, refusals = past ++ [r] ++ later ∧ Quiet shortWindow past ∧
        (stopOf shortWindow past r).isSome = true ∧
        (runReports shortWindow refusals).stop = stopOf shortWindow past r := by
  have monotone : Monotone refusals := by
    simp only [Monotone, refusals]
    decide
  have stopped : (runReports shortWindow refusals).stop.isSome = true := by decide +kernel
  refine ⟨monotone, (windows_recomputed shortWindow refusals monotone).1.resolve_left ?_⟩
  rintro ⟨-, running, -⟩
  rw [running] at stopped
  exact Bool.false_ne_true stopped

end Hx.Policy.Distress
