import Mathlib.Logic.Relation

/-!
# Labelled transition systems with recorded histories

A system has initial states and a labelled step relation. A history lists the
labels of a run newest first, so that "the last event" and "since the last event"
are structural recursions on it. A step that the real program cannot take has no
derivation; a program that stops is a history that is not extended.

The two induction rules separate an invariant of the states from a relation
between a history and the state it leads to. `restrict` keeps the steps that
meet a condition: a property of a restricted system is a property of exactly the
runs whose every step meets that condition.
-/

namespace Hx.Library

universe u v w

/-- Initial states and labelled steps. Nothing is assumed finite or decidable. -/
structure System (σ : Type u) (α : Type v) where
  init : σ → Prop
  step : σ → α → σ → Prop

namespace System

variable {σ : Type u} {α : Type v}

/-- `T.History h s`: some run of `T` took the events of `h`, newest first, and is
now in state `s`. -/
inductive History (T : System σ α) : List α → σ → Prop where
  | start {s : σ} : T.init s → History T [] s
  | step {h : List α} {s t : σ} {a : α} :
      History T h s → T.step s a t → History T (a :: h) t

/-- A state some run leads to. -/
def Reachable (T : System σ α) (s : σ) : Prop := ∃ h, T.History h s

/-- The steps of `T` that meet `C`, a condition on the state before the step and
the event. -/
def restrict (T : System σ α) (C : σ → α → Prop) : System σ α where
  init := T.init
  step s a t := T.step s a t ∧ C s a

/-- The same steps from one given state. -/
def startingAt (T : System σ α) (s : σ) : System σ α where
  init t := t = s
  step := T.step

variable {T : System σ α}

theorem Reachable.init {s : σ} (h : T.init s) : T.Reachable s := ⟨[], .start h⟩

theorem Reachable.step {s t : σ} {a : α} (h : T.Reachable s) (st : T.step s a t) :
    T.Reachable t := by
  obtain ⟨past, run⟩ := h
  exact ⟨a :: past, run.step st⟩

/-- The invariant rule: what holds initially and is kept by every step holds of
every reachable state. -/
theorem Reachable.invariant {P : σ → Prop} (base : ∀ s, T.init s → P s)
    (keep : ∀ s a t, P s → T.step s a t → P t) {s : σ} (h : T.Reachable s) : P s := by
  obtain ⟨past, run⟩ := h
  induction run with
  | start hs => exact base _ hs
  | step _ st ih => exact keep _ _ _ ih st

/-- The same rule for a relation between the history of a run and its state. -/
theorem History.invariant {P : List α → σ → Prop} (base : ∀ s, T.init s → P [] s)
    (keep : ∀ h s a t, T.History h s → P h s → T.step s a t → P (a :: h) t)
    {h : List α} {s : σ} (run : T.History h s) : P h s := by
  induction run with
  | start hs => exact base _ hs
  | step past st ih => exact keep _ _ _ _ past ih st

theorem History.reachable {h : List α} {s : σ} (run : T.History h s) : T.Reachable s :=
  ⟨h, run⟩

/-- A run of the restricted system is a run of the whole system. -/
theorem History.of_restrict {C : σ → α → Prop} {h : List α} {s : σ}
    (run : (T.restrict C).History h s) : T.History h s := by
  induction run with
  | start hs => exact .start hs
  | step _ st ih => exact ih.step st.1

/-- A run that continues a run. -/
theorem History.append {h g : List α} {s t : σ} (first : T.History h s)
    (second : (T.startingAt s).History g t) : T.History (g ++ h) t := by
  induction second with
  | start same => exact same ▸ first
  | step _ st ih => exact ih.step st

/-- The last event of a run and the state before it. -/
theorem History.last {h : List α} {a : α} {t : σ} (run : T.History (a :: h) t) :
    ∃ s, T.History h s ∧ T.step s a t := by
  cases run with
  | step past st => exact ⟨_, past, st⟩

/-- `T.Along C h s`: a run of `T` whose every step meets `C`, which is told the past, the state
before, the event and the state after. -/
inductive Along (T : System σ α) (C : List α → σ → α → σ → Prop) : List α → σ → Prop where
  | start {s : σ} : T.init s → Along T C [] s
  | step {h : List α} {s t : σ} {a : α} :
      Along T C h s → T.step s a t → C h s a t → Along T C (a :: h) t

theorem Along.history {C : List α → σ → α → σ → Prop} {h : List α} {s : σ} (run : T.Along C h s) :
    T.History h s := by
  induction run with
  | start hs => exact .start hs
  | step _ st _ ih => exact ih.step st

theorem Along.imp {C D : List α → σ → α → σ → Prop} {h : List α} {s : σ} (run : T.Along C h s)
    (weaker : ∀ h s a t, T.History h s → T.step s a t → C h s a t → D h s a t) :
    T.Along D h s := by
  induction run with
  | start hs => exact .start hs
  | step past st met ih => exact ih.step st (weaker _ _ _ _ past.history st met)

end System

end Hx.Library
