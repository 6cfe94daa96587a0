import Hx.Java.Long
import Mathlib.Data.List.Sort
import Mathlib.Logic.Function.Basic

/-!
# Auto-halt on target distress

Every issued request is recorded in the window of a host, and three rules run over that
window. A trip is sticky. The host is whatever string the caller hands in.

The two thresholds that are doubles appear as the comparisons made with them. The text of a
reason is left to its reader: a reason is the rule and the numbers it quotes.
-/

namespace Hx.Policy

open Hx.Java

/-- The constructor's arguments, with the checks it makes on them. `above5xx` compares
`fivexx / answered` with the rate, `aboveBaseline` a latency with the multiple of the
baseline. -/
structure DistressSettings where
  above5xx : ℕ → ℕ → Bool
  aboveBaseline : Int64 → Int64 → Bool
  maxConsecutiveErrors : ℕ
  windowRequests : ℕ
  windowMs : Int64
  baselineRequests : ℕ
  latencyFloorMs : Int64
  calm5xx : ∀ answered, above5xx 0 answered = false
  calmBaseline : ∀ p50 baseline, 1 ≤ baseline.toInt → p50.toInt ≤ baseline.toInt →
    aboveBaseline p50 baseline = false
  errors : 1 ≤ maxConsecutiveErrors ∧ maxConsecutiveErrors ≤ 1000
  requests : 1 ≤ windowRequests ∧ windowRequests ≤ 10000
  window : 1 ≤ windowMs.toInt ∧ windowMs.toInt ≤ 86400000
  baseline : 1 ≤ baselineRequests ∧ baselineRequests ≤ windowRequests
  floor : 0 ≤ latencyFloorMs.toInt ∧ latencyFloorMs.toInt ≤ 60000

structure Sample where
  atUs : Int64
  status : Int
  ms : Int64
  connectionError : Bool

/-- One host's window and its baseline. -/
structure DistressHost where
  window : List Sample := []
  firstLatencies : List Int64 := []
  baselineReady : Bool := false
  baselineMs : Int64 := 0
  consecutiveErrors : ℕ := 0

inductive StopReason where
  | overflowed
  | consecutive (errors : ℕ)
  | rate (fivexx answered : ℕ)
  | latency (p50 : Int64) (samples : ℕ) (baselineMs : Int64)
  deriving DecidableEq

structure Stop where
  reason : StopReason
  host : JString

/-- A host that was never recorded is the one `computeIfAbsent` makes. -/
structure Distress where
  hosts : JString → DistressHost := fun _ => {}
  stop : Option Stop := none

namespace Distress

variable (S : DistressSettings)

/-- The lower of the two middles. -/
def p50 (xs : List Int64) : Int64 :=
  (xs.mergeSort fun a b => decide (a ≤ b)).getD ((xs.length - 1) / 2) 0

/-- `cutoffUs`, unless it is not a `long`. -/
def cutoffUs (nowUs : Int64) : Option Int :=
  let cutoff := nowUs.toInt - S.windowMs.toInt * 1000
  if -9223372036854775808 ≤ cutoff then some cutoff else none

def evictedByCount (window : List Sample) : List Sample :=
  window.drop (window.length - S.windowRequests)

def evictedByAge (cutoff : Int) (window : List Sample) : List Sample :=
  window.filter fun s => cutoff ≤ s.atUs.toInt

/-- What a sample does to the streak and to the baseline. -/
def observed (h : DistressHost) (s : Sample) : DistressHost :=
  if s.connectionError then { h with consecutiveErrors := h.consecutiveErrors + 1 }
  else if h.baselineReady then { h with consecutiveErrors := 0 }
  else
    let latencies := h.firstLatencies ++ [s.ms]
    if latencies.length = S.baselineRequests then
      { h with firstLatencies := latencies, baselineMs := p50 latencies, baselineReady := true
               consecutiveErrors := 0 }
    else { h with firstLatencies := latencies, consecutiveErrors := 0 }

def answered (window : List Sample) : List Sample := window.filter fun s => !s.connectionError

def fivexx (window : List Sample) : List Sample :=
  (answered window).filter fun s => 500 ≤ s.status ∧ s.status ≤ 599

def tripOn5xxRate (h : DistressHost) : Option StopReason :=
  if (answered h.window).length < S.baselineRequests then none
  else if S.above5xx (fivexx h.window).length (answered h.window).length then
    some (.rate (fivexx h.window).length (answered h.window).length)
  else none

def tripOnLatency (h : DistressHost) : Option StopReason :=
  let latencies := (answered h.window).map Sample.ms
  if latencies = [] then none
  else if S.aboveBaseline (p50 latencies) (max h.baselineMs 1) ∧
      ¬ p50 latencies < S.latencyFloorMs then
    some (.latency (p50 latencies) latencies.length h.baselineMs)
  else none

/-- The three rules, in their order. The baseline counts from the request after the one
that completed it. -/
def verdict (baselineWasReady connectionError : Bool) (h : DistressHost) : Option StopReason :=
  if connectionError ∧ S.maxConsecutiveErrors ≤ h.consecutiveErrors then
    some (.consecutive h.consecutiveErrors)
  else (tripOn5xxRate S h).or (if baselineWasReady then tripOnLatency S h else none)

/-- The host after a sample, and the rule it trips. -/
def sampled (h : DistressHost) (s : Sample) : DistressHost × Option StopReason :=
  let window := evictedByCount S (h.window ++ [s])
  match cutoffUs S s.atUs with
  | none => ({ h with window := window }, some .overflowed)
  | some cutoff =>
      let next := observed S { h with window := evictedByAge cutoff window } s
      (next, verdict S h.baselineReady s.connectionError next)

/-- `record`, at a reading of the clock. -/
def record (d : Distress) (nowUs : Int64) (host : JString) (status : Int) (ms : Int64)
    (connectionError : Bool) : Distress :=
  if d.stop.isSome then d
  else
    let after := sampled S (d.hosts host) ⟨nowUs, status, max ms 0, connectionError⟩
    ⟨Function.update d.hosts host after.1, after.2.map fun reason => ⟨reason, host⟩⟩

/-- The sample of a call of `record`. -/
def sampleOf (nowUs : Int64) (status : Int) (ms : Int64) (connectionError : Bool) : Sample :=
  ⟨nowUs, status, max ms 0, connectionError⟩

section Record

variable {S} {d : Distress} {host other : JString} {nowUs ms : Int64} {status : Int}
  {connectionError : Bool}

theorem record_of_stopped (stopped : d.stop.isSome = true) :
    record S d nowUs host status ms connectionError = d := if_pos stopped

theorem record_of_running (running : d.stop = none) :
    record S d nowUs host status ms connectionError =
      ⟨Function.update d.hosts host
          (sampled S (d.hosts host) (sampleOf nowUs status ms connectionError)).1,
        (sampled S (d.hosts host) (sampleOf nowUs status ms connectionError)).2.map
          fun reason => ⟨reason, host⟩⟩ := by
  have goes : ¬ d.stop.isSome = true := by
    rw [running]
    exact Bool.false_ne_true
  exact if_neg goes

theorem hosts_record_self (running : d.stop = none) :
    (record S d nowUs host status ms connectionError).hosts host =
      (sampled S (d.hosts host) (sampleOf nowUs status ms connectionError)).1 := by
  rw [record_of_running running]
  exact Function.update_self _ _ _

theorem hosts_record_of_ne (running : d.stop = none) (differs : other ≠ host) :
    (record S d nowUs host status ms connectionError).hosts other = d.hosts other := by
  rw [record_of_running running]
  exact Function.update_of_ne differs _ _

theorem isSome_stop_record (running : d.stop = none) :
    (record S d nowUs host status ms connectionError).stop.isSome =
      (sampled S (d.hosts host) (sampleOf nowUs status ms connectionError)).2.isSome := by
  rw [record_of_running running]
  exact Option.isSome_map

end Record

/-! ## Two spellings of the same run -/

section Respelled

variable {S} {d e : Distress} {spell : JString → JString} {host : JString} {hosts : List JString}

/-- `e` has recorded under other names what `d` has. -/
structure Mirrors (spell : JString → JString) (hosts : List JString) (d e : Distress) : Prop where
  hosts : ∀ host ∈ hosts, e.hosts (spell host) = d.hosts host
  stop : e.stop.isSome = d.stop.isSome

/-- Where no two names become one, a record keeps the mirror. -/
theorem Mirrors.record (mirrors : Mirrors spell hosts d e)
    (apart : ∀ a ∈ hosts, ∀ b ∈ hosts, spell a = spell b → a = b) (among : host ∈ hosts)
    (nowUs : Int64) (status : Int) (ms : Int64) (connectionError : Bool) :
    Mirrors spell hosts (record S d nowUs host status ms connectionError)
      (record S e nowUs (spell host) status ms connectionError) := by
  have stop := mirrors.stop
  cases first : d.stop with
  | some reason =>
      rw [first] at stop
      have stopped : d.stop.isSome = true := by rw [first, Option.isSome_some]
      rw [record_of_stopped stopped, record_of_stopped stop]
      exact mirrors
  | none =>
      rw [first] at stop
      have second : e.stop = none :=
        Option.not_isSome_iff_eq_none.1 fun stopped => Bool.false_ne_true (stop.symm.trans stopped)
      have same := mirrors.hosts host among
      constructor
      · intro other mem
        by_cases own : other = host
        · rw [own, hosts_record_self first, hosts_record_self second, same]
        · have differs : spell other ≠ spell host := fun one =>
            own (apart other mem host among one)
          rw [hosts_record_of_ne first own, hosts_record_of_ne second differs]
          exact mirrors.hosts other mem
      · rw [isSome_stop_record first, isSome_stop_record second, same]

end Respelled

/-! ## Hosts that answer at once, or not at all -/

/-- Nothing in the window is late or an error of the server. -/
def Tame (h : DistressHost) : Prop :=
  ∀ s ∈ h.window, s.ms = 0 ∧ ¬ (500 ≤ s.status ∧ s.status ≤ 599)

/-- Nothing tripped, and every host is tame. -/
structure Calm (d : Distress) : Prop where
  stop : d.stop = none
  hosts : ∀ host, Tame (d.hosts host)

def streak (d : Distress) (host : JString) : ℕ := (d.hosts host).consecutiveErrors

section Tame

variable {S} {h : DistressHost} {s : Sample} {d : Distress} {host : JString}

theorem p50_mem {xs : List Int64} (some_ : xs ≠ []) : p50 xs ∈ xs := by
  have length := List.length_pos_iff.2 some_
  have within : (xs.length - 1) / 2 < (xs.mergeSort fun a b => decide (a ≤ b)).length := by
    rw [List.length_mergeSort]
    omega
  have found : p50 xs = (xs.mergeSort fun a b => decide (a ≤ b))[(xs.length - 1) / 2] := by
    rw [p50, List.getD_eq_getElem?_getD, List.getElem?_eq_getElem within, Option.getD_some]
  rw [found]
  exact List.mem_mergeSort.1 (List.getElem_mem within)

theorem Tame.tripOn5xxRate (tame : Tame h) : tripOn5xxRate S h = none := by
  have none_ : fivexx h.window = [] := by
    rw [fivexx, List.filter_eq_nil_iff]
    intro s mem bad
    exact (tame s (List.mem_filter.1 mem).1).2 (of_decide_eq_true bad)
  rw [Distress.tripOn5xxRate, none_]
  split
  · rfl
  · exact if_neg (Bool.eq_false_iff.1 (S.calm5xx _))

theorem Tame.tripOnLatency (tame : Tame h) : tripOnLatency S h = none := by
  rw [Distress.tripOnLatency]
  split
  · rfl
  · rename_i some_
    obtain ⟨s, mem, late⟩ := List.mem_map.1 (p50_mem some_)
    have zero : p50 ((answered h.window).map Sample.ms) = 0 := by
      rw [← late]
      exact (tame s (List.mem_filter.1 mem).1).1
    have one : (1 : Int64).toInt = 1 := rfl
    have positive : 1 ≤ (max h.baselineMs 1).toInt := by
      rw [toInt_max, one]
      exact Int.le_max_right _ _
    have calm := S.calmBaseline 0 (max h.baselineMs 1) positive
      (Int.le_trans (by decide) positive)
    rw [zero, calm]
    exact if_neg fun both => Bool.false_ne_true both.1

theorem observed_streak (h : DistressHost) (s : Sample) : (observed S h s).window = h.window ∧
    (observed S h s).consecutiveErrors =
      if s.connectionError then h.consecutiveErrors + 1 else 0 := by
  rw [observed]
  split
  · exact ⟨rfl, rfl⟩
  split
  · exact ⟨rfl, rfl⟩
  simp only
  split
  · exact ⟨rfl, rfl⟩
  · exact ⟨rfl, rfl⟩

/-- The window a sample is judged in. -/
def windowed (S : DistressSettings) (cutoff : Int) (h : DistressHost) (s : Sample) :
    DistressHost :=
  { h with window := evictedByAge cutoff (evictedByCount S (h.window ++ [s])) }

theorem Tame.windowed {cutoff : Int} (tame : Tame h) (quick : s.ms = 0)
    (fine : ¬ (500 ≤ s.status ∧ s.status ≤ 599)) : Tame (windowed S cutoff h s) := by
  intro t mem
  rcases List.mem_append.1 (List.mem_of_mem_drop (List.mem_filter.1 mem).1) with mem | mem
  · exact tame t mem
  · rw [List.mem_singleton.1 mem]
    exact ⟨quick, fine⟩

theorem sampled_tame (tame : Tame h) (start : s.atUs = 0) (quick : s.ms = 0)
    (fine : ¬ (500 ≤ s.status ∧ s.status ≤ 599)) :
    Tame (sampled S h s).1 ∧
      (sampled S h s).1.consecutiveErrors =
        (if s.connectionError then h.consecutiveErrors + 1 else 0) ∧
      ((sampled S h s).2.isSome = true ↔
        s.connectionError = true ∧ S.maxConsecutiveErrors ≤ h.consecutiveErrors + 1) := by
  have zero : (0 : Int64).toInt = 0 := rfl
  have cutoff : cutoffUs S s.atUs = some (0 - S.windowMs.toInt * 1000) := by
    have window := S.window
    rw [cutoffUs, start, zero]
    exact if_pos (by omega)
  have kept : Tame (Distress.windowed S (0 - S.windowMs.toInt * 1000) h s) :=
    tame.windowed quick fine
  have judged : sampled S h s =
      (observed S (Distress.windowed S (0 - S.windowMs.toInt * 1000) h s) s,
        verdict S h.baselineReady s.connectionError
          (observed S (Distress.windowed S (0 - S.windowMs.toInt * 1000) h s) s)) := by
    rw [sampled, cutoff]
    rfl
  obtain ⟨window, streak⟩ :=
    observed_streak (S := S) (Distress.windowed S (0 - S.windowMs.toInt * 1000) h s) s
  have next : Tame (observed S (Distress.windowed S (0 - S.windowMs.toInt * 1000) h s) s) := by
    rw [Tame, window]
    exact kept
  rw [judged]
  refine ⟨next, streak, ?_⟩
  simp only [verdict, next.tripOn5xxRate, next.tripOnLatency, ite_self, Option.or_none, streak]
  cases s.connectionError with
  | false => exact iff_of_false Bool.false_ne_true fun both => Bool.false_ne_true both.1
  | true =>
      by_cases trips : S.maxConsecutiveErrors ≤ h.consecutiveErrors + 1
      · rw [if_pos ⟨rfl, trips⟩]
        exact iff_of_true rfl ⟨rfl, trips⟩
      · rw [if_neg fun both => trips both.2]
        exact iff_of_false Bool.false_ne_true fun both => trips both.2

/-- A record of a calm run: the streak of its host, or the first rule. -/
theorem Calm.record (calm : d.Calm) (host : JString) (status : Int)
    (fine : ¬ (500 ≤ status ∧ status ≤ 599)) (connectionError : Bool) :
    ((record S d 0 host status 0 connectionError).stop.isSome = true ↔
      connectionError = true ∧ S.maxConsecutiveErrors ≤ d.streak host + 1) ∧
    (¬ (connectionError = true ∧ S.maxConsecutiveErrors ≤ d.streak host + 1) →
      (record S d 0 host status 0 connectionError).Calm) ∧
    ∀ other, (record S d 0 host status 0 connectionError).streak other =
      if other = host then (if connectionError then d.streak host + 1 else 0)
      else d.streak other := by
  obtain ⟨running, tame⟩ := calm
  obtain ⟨kept, streak, tripped⟩ := sampled_tame (S := S)
    (s := sampleOf 0 status 0 connectionError) (tame host) rfl rfl fine
  have stopped : (Distress.record S d 0 host status 0 connectionError).stop.isSome =
      (sampled S (d.hosts host) (sampleOf 0 status 0 connectionError)).2.isSome :=
    isSome_stop_record running
  refine ⟨?_, ?_, ?_⟩
  · rw [stopped]
    exact tripped
  · intro goes
    constructor
    · rw [← stopped] at tripped
      exact Option.not_isSome_iff_eq_none.1 fun stop => goes (tripped.1 stop)
    · intro other
      by_cases own : other = host
      · rw [own, hosts_record_self running]
        exact kept
      · rw [hosts_record_of_ne running own]
        exact tame other
  · intro other
    by_cases own : other = host
    · rw [if_pos own, own, Distress.streak, hosts_record_self running]
      exact streak
    · rw [if_neg own, Distress.streak, hosts_record_of_ne running own]
      rfl

end Tame

end Distress

end Hx.Policy
