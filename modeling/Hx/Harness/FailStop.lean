import Hx.Harness.Server
import Mathlib.Tactic.IntervalCases

/-!
# Failures and crashes of halt and resume

The rename of the sentinel is the first stage of `halt` that stops anything. A
call that raises before it leaves the harness as it was, a crash before it leaves
the disk as it was; from it on every prefix of `halt` reads as halted. `resume`
inserts its row first and unlinks last, so a crash inside it keeps the halt as
long as the file keeps it.
-/

namespace Hx.Harness

open Hx.Library OperatorHalt

namespace Station

/-- The stages up to the rename. -/
def sentinelStages : List HaltStage := [.openTmp, .wrapTmp, .writeTmp, .replace]

/-- The harness a crash after `k` steps of `halt` leaves behind. -/
def haltCrash (c : HaltCall) (k : Nat) (h : Station) : Station :=
  runStages (haltEffect c) (haltSteps.take k) h

def resumeCrash (insertedUs : Int) (k : Nat) (h : Station) : Station :=
  runStages (resumeEffect insertedUs) (resumeSteps.take k) h

/-- What a harness restarted over the station's disk reads. -/
def restart (h : Station) : Except String Bool := h.durable.restartHalted

theorem restart_iff (h : Station) : h.restart = .ok true ↔ h.durable.diskHalted = true := by
  rw [restart, Durable.restartHalted_eq, Except.ok.injEq]

/-! ## Exceptions -/

theorem halted_haltEffect (c : HaltCall) (step : HaltStep) (h : Station)
    (halted : h.durable.halted = true) : (haltEffect c step h).durable.halted = true := by
  cases step with
  | durable stage => exact Durable.halted_haltEffect c stage halted
  | send => exact halted
  | commit => exact halted

/-- A step of `halt` never turns a refusal into a permission. -/
theorem sendRefuses_haltEffect (c : HaltCall) (step : HaltStep) (h : Station)
    (refuses : h.SendRefuses) : (haltEffect c step h).SendRefuses := by
  rw [sendRefuses_iff] at refuses ⊢
  obtain halted | unconfigured := refuses
  · exact .inl (halted_haltEffect c step h halted)
  · cases step with
    | durable stage => exact .inr unconfigured
    | send => exact .inr unconfigured
    | commit => exact .inr (by simp [haltEffect, BridgeServer.haltCommit])

theorem halted_replace (c : HaltCall) (h : Station) :
    (haltEffect c (.durable .replace) h).durable.halted = true := Bool.or_true _

/-- When no stage up to the rename raises, the rename is reached. -/
theorem replace_completed {raises : HaltStep → Bool} {h : Station}
    (installed : ∀ stage ∈ sentinelStages, raises (.durable stage) = false) :
    .durable .replace ∈ completed (haltRaises raises h) haltSteps := by
  simp only [sentinelStages, List.forall_mem_cons] at installed
  obtain ⟨open', wrap, write, replace, -⟩ := installed
  simp [completed, haltSteps, haltStages, haltRaises, open', wrap, write, replace]

/-- When one of them raises, only stages that touch neither file nor flag complete. -/
theorem completed_before_replace {raises : HaltStep → Bool} (h : Station) {stage : HaltStage}
    (before : stage ∈ sentinelStages) (raised : raises (.durable stage) = true) :
    ∀ step ∈ completed (haltRaises raises h) haltSteps,
      ∃ early ∈ [HaltStage.openTmp, .wrapTmp, .writeTmp], step = .durable early := by
  intro step done
  simp only [sentinelStages, List.mem_cons, List.not_mem_nil, or_false] at before
  cases first : raises (.durable .openTmp) with
  | true => simp [completed, haltSteps, haltStages, haltRaises, first] at done
  | false =>
      cases second : raises (.durable .wrapTmp) with
      | true =>
          simp [completed, haltSteps, haltStages, haltRaises, first, second] at done
          exact ⟨.openTmp, by simp, done⟩
      | false =>
          cases third : raises (.durable .writeTmp) with
          | true =>
              simp [completed, haltSteps, haltStages, haltRaises, first, second, third] at done
              obtain rfl | rfl := done
              · exact ⟨.openTmp, by simp, rfl⟩
              · exact ⟨.wrapTmp, by simp, rfl⟩
          | false =>
              have fourth : raises (.durable .replace) = true := by
                obtain rfl | rfl | rfl | rfl := before
                · exact absurd raised (by simp [first])
                · exact absurd raised (by simp [second])
                · exact absurd raised (by simp [third])
                · exact raised
              simp [completed, haltSteps, haltStages, haltRaises, first, second, third, fourth]
                at done
              obtain rfl | rfl | rfl := done
              · exact ⟨.openTmp, by simp, rfl⟩
              · exact ⟨.wrapTmp, by simp, rfl⟩
              · exact ⟨.writeTmp, by simp, rfl⟩

theorem haltEffect_early (c : HaltCall) {step : HaltStep}
    (early : ∃ stage ∈ [HaltStage.openTmp, .wrapTmp, .writeTmp], step = .durable stage)
    (h : Station) : haltEffect c step h = h := by
  obtain ⟨stage, before, rfl⟩ := early
  exact congrArg (fun d => { h with durable := d }) (Durable.haltEffect_before_replace c before _)

/-- A `halt` that raises before the rename is finished changes nothing. -/
theorem halt_eq_self {raises : HaltStep → Bool} {c : HaltCall} {h : Station} {stage : HaltStage}
    (before : stage ∈ sentinelStages) (raised : raises (.durable stage) = true) :
    h.halt raises c = h := by
  have idle := completed_before_replace h before raised
  exact runStages_frame id (fun step done s => haltEffect_early c (idle step done) s) h

/-- After `halt` has returned or raised `send` refuses, unless the sentinel could not
be written and `send` was permitted before. -/
theorem sendRefuses_halt_iff (raises : HaltStep → Bool) (c : HaltCall) (h : Station) :
    (h.halt raises c).SendRefuses ↔
      h.SendRefuses ∨ ∀ stage ∈ sentinelStages, raises (.durable stage) = false := by
  constructor
  · intro refuses
    by_contra missed
    rw [not_or] at missed
    obtain ⟨permitted, failed⟩ := missed
    obtain ⟨stage, raised⟩ := not_forall.1 failed
    obtain ⟨before, raised⟩ := Classical.not_imp.1 raised
    rw [halt_eq_self before (Bool.not_eq_false _ ▸ raised)] at refuses
    exact permitted refuses
  · rintro (refuses | installed)
    · exact runStages_keeps SendRefuses (fun step _ s => sendRefuses_haltEffect c step s) refuses
    · have halted : (h.halt raises c).durable.halted = true :=
        runStages_establishes (fun s => s.durable.halted = true)
          (replace_completed installed) (halted_replace c)
          (fun step _ s => halted_haltEffect c step s) h
      exact (sendRefuses_iff _).2 (.inl halted)

/-! ## Crashes -/

theorem diskHalted_haltEffect (c : HaltCall) (step : HaltStep) (h : Station)
    (present : sentinelPresent h.durable.disk = true) :
    sentinelPresent (haltEffect c step h).durable.disk = true := by
  cases step with
  | durable stage => exact Durable.sentinelPresent_haltEffect c stage present
  | send => exact present
  | commit => exact present

/-- A crash inside `halt` is read as a halt from the rename on, and before it exactly
when the disk already said so. -/
theorem restart_haltCrash_iff (c : HaltCall) (k : Nat) (h : Station) :
    (haltCrash c k h).restart = .ok true ↔ h.restart = .ok true ∨ sentinelStages.length ≤ k := by
  rw [restart_iff, restart_iff]
  obtain early | late := Nat.lt_or_ge k 4
  · have unchanged : haltCrash c k h = h := by
      interval_cases k <;> rfl
    rw [unchanged]
    exact ⟨.inl, fun either => either.resolve_right (Nat.not_le.2 early)⟩
  · refine ⟨fun _ => .inr late, fun _ => ?_⟩
    have done : HaltStep.durable .replace ∈ haltSteps.take k :=
      List.take_subset_take_left haltSteps late (by decide)
    have present : sentinelPresent (haltCrash c k h).durable.disk = true :=
      runStages_establishes (fun s => sentinelPresent s.durable.disk = true) done
        (fun _ => rfl) (fun step _ s => diskHalted_haltEffect c step s) h
    rw [Durable.diskHalted, present, Bool.or_true]

/-- A log whose last event is a halt stamped later than `insertedUs`. -/
def HaltedLater (h : Station) (insertedUs : Int) : Prop :=
  ∃ row, lastEvent h.durable.operator.engagementId h.durable.disk.actions = some row ∧
    row.tool = haltTool ∧ insertedUs < row.tsUs

/-- Once the resume row is in, the restart goes by the file, or by a halt row the
clock put later. -/
theorem restart_inserted_iff (h : Station) (insertedUs : Int) :
    (resumeEffect insertedUs (.durable .insert) h).restart = .ok true ↔
      sentinelPresent h.durable.disk = true ∨ h.HaltedLater insertedUs := by
  rw [restart_iff, Durable.diskHalted, Bool.or_eq_true, or_comm]
  exact or_congr Iff.rfl
    (rowHalted_append_resume h.durable.operator h.durable.disk.actions insertedUs)

/-- A crash inside `resume`: before its row the disk decides, between the row and the
unlink the file does, and a call with every step behind it owes nothing. -/
theorem restart_resumeCrash_iff (insertedUs : Int) (k : Nat) (h : Station) :
    (resumeSteps.length ≤ k ∨ (resumeCrash insertedUs k h).restart = .ok true) ↔
      resumeSteps.length ≤ k ∨ (k ≤ 2 ∧ h.restart = .ok true) ∨
      (3 ≤ k ∧ (sentinelPresent h.durable.disk = true ∨ h.HaltedLater insertedUs)) := by
  refine or_congr_right' fun unfinished => ?_
  obtain early | late := Nat.lt_or_ge k 3
  · have unwritten : (resumeCrash insertedUs k h).restart = h.restart := by
      interval_cases k <;> rfl
    rw [unwritten]
    constructor
    · exact fun halted => .inl ⟨Nat.le_of_lt_succ early, halted⟩
    · rintro (⟨-, halted⟩ | ⟨late, -⟩)
      · exact halted
      · omega
  · have short : k < 5 := Nat.not_le.1 unfinished
    have inserted : (resumeCrash insertedUs k h).restart =
        (resumeEffect insertedUs (.durable .insert) h).restart := by
      interval_cases k <;> rfl
    rw [inserted, restart_inserted_iff]
    constructor
    · exact fun halted => .inr ⟨late, halted⟩
    · rintro (⟨early, -⟩ | ⟨-, halted⟩)
      · omega
      · exact halted

/-- When `halt` fails stopped: for every set of raising steps, and for a crash after
every number of steps of `halt` and of `resume`. -/
theorem fails_stopped_iff (raises : HaltStep → Bool) (c : HaltCall) (insertedUs : Int) (k : Nat)
    (h : Station) :
    ((h.halt raises c).SendRefuses ↔
      h.SendRefuses ∨ ∀ stage ∈ sentinelStages, raises (.durable stage) = false) ∧
    ((haltCrash c k h).restart = .ok true ↔
      h.restart = .ok true ∨ sentinelStages.length ≤ k) ∧
    ((resumeSteps.length ≤ k ∨ (resumeCrash insertedUs k h).restart = .ok true) ↔
      resumeSteps.length ≤ k ∨ (k ≤ 2 ∧ h.restart = .ok true) ∨
      (3 ≤ k ∧ (sentinelPresent h.durable.disk = true ∨ h.HaltedLater insertedUs))) :=
  ⟨sendRefuses_halt_iff raises c h, restart_haltCrash_iff c k h,
    restart_resumeCrash_iff insertedUs k h⟩

/-- A configured session over a store with one engagement and no halt. -/
def running : Station where
  durable := .openedOn ⟨"/srv/engagement", "e-1", false, none⟩ .absent []
  server := ⟨"e-1", .configured, 1, some 1, 1, 0⟩

/-- The disk is full: the temporary file cannot be opened, `halt` raises, and `send`
goes on passing its checks; and a crash before the rename restarts as not halted. -/
theorem halt_fails_open :
    ¬ ((running.halt (fun step => step == .durable .openTmp) ⟨"stop", 1, 1⟩).SendRefuses ∧
      ∀ k, (haltCrash ⟨"stop", 1, 1⟩ k running).restart = .ok true) := by
  rintro ⟨refuses, -⟩
  obtain ⟨e, refused⟩ := refuses []
  cases refused

end Station

end Hx.Harness
