import Hx.Scan.Calls

/-!
# Canaries around the probes

What the log of a pass has to say for its state to be `proven`, and what the bracket and
its window keep of the log as it grows: as long as no canary failed, everything after the
opening one went out under its generation, with fewer than `every_n_probes` requests
between a canary and the row that is driven next.
-/

namespace Hx.Scan

open Hx.Checks Hx.Library Hx.Python Hx.Store Prog

/-! ## Logs -/

/-- The newest canary: its generation, and whether it passed. -/
def lastCanary : List Event → Option (Nat × Bool)
  | [] => none
  | .canary _ generation passed _ _ :: _ => some (generation, passed)
  | _ :: log => lastCanary log

/-- What was issued after the newest canary. -/
def sinceCanary : List Event → Nat
  | [] => 0
  | .canary _ _ _ _ _ :: _ => 0
  | event :: log => event.sent + sinceCanary log

namespace Event

def IsProbes : Event → Prop
  | probes _ _ _ _ => True
  | _ => False

/-- An event of a window that held: its canaries passed where the first one did, and its
probes went out under that generation. -/
def Held (target : Origin) (generation : Nat) : Event → Prop
  | canary origin generation' passed _ _ =>
      origin = target ∧ generation' = generation ∧ passed = true
  | probes _ generation' _ _ => generation' = some generation
  | _ => True

theorem CanaryTo.not_isProbes {target : Origin} {event : Event} (h : event.CanaryTo target) :
    ¬ event.IsProbes := by
  cases event with
  | probes row generation sent refused => exact h.elim
  | canary origin generation passed sent refused => exact id
  | returned row s c v next => exact id
  | settled state next => exact id
  | retired f => exact id

end Event

/-- Every row was driven with fewer than `every` requests since the canary before it. -/
def Paced (every : Nat) (log : List Event) : Prop :=
  ∀ newer row generation sent refused older,
    log = newer ++ .probes row generation sent refused :: older → sinceCanary older + 1 ≤ every

/-- The log of a run that is `proven`: its probes are between passing canaries, under the
generation of the one before them; its canaries went to one origin, and none failed that
was sent after a probe; and not too much was issued between two of them. -/
structure Vouched (target : Origin) (every : Nat) (log : List Event) : Prop where
  probes : ∀ newer row generation sent refused older,
    log = newer ++ .probes row generation sent refused :: older →
    ∃ g, generation = some g ∧ lastCanary older = some (g, true) ∧
      ∃ g', lastCanary newer.reverse = some (g', true)
  canaries : ∀ newer origin generation passed sent refused older,
    log = newer ++ .canary origin generation passed sent refused :: older →
    origin = target ∧ (passed = false → ∀ event ∈ older, ¬ event.IsProbes)
  paced : Paced every log

/-- The opening canary passed, and what came after it held. -/
structure Guarded (target : Origin) (generation : Nat) (log : List Event) : Prop where
  opened : ∃ tail sent refused first,
    log = tail ++ .canary target generation true sent refused :: first ∧
    (∀ event ∈ first, event.CanaryTo target) ∧ ∀ event ∈ tail, event.Held target generation

/-- A guarded log, closed by a canary: nothing was driven after it. -/
structure Sealed (target : Origin) (every generation : Nat) (log : List Event) : Prop where
  guarded : Guarded target generation log
  paced : Paced every log
  closed : ∃ newest sent refused older,
    log = newest ++ .canary target generation true sent refused :: older ∧
    ∀ event ∈ newest, ¬ event.IsProbes

section Log

variable {target : Origin} {every generation : Nat} {log newer : List Event} {event : Event}

theorem split_left {α : Type} {x : α} {a b c d : List α} (h : a ++ x :: b = c ++ d) (other : x ∉ d) :
    ∃ t, c = a ++ x :: t ∧ b = t ++ d := by
  rcases List.append_eq_append_iff.1 h with ⟨a', rfl, same⟩ | ⟨c', rfl, same⟩
  · cases a' with
    | nil =>
        have whole : x :: b = d := same
        exact absurd (whole ▸ List.mem_cons_self) other
    | cons y t =>
        cases same
        exact ⟨t, rfl, rfl⟩
  · exact absurd (same ▸ List.mem_append_right _ List.mem_cons_self) other

theorem split_right {α : Type} {x : α} {a b c d : List α} (h : a ++ x :: b = c ++ d)
    (other : x ∉ c) : ∃ t, a = c ++ t ∧ d = t ++ x :: b := by
  rcases List.append_eq_append_iff.1 h with ⟨a', rfl, same⟩ | ⟨c', rfl, same⟩
  · cases a' with
    | nil => exact ⟨[], by rw [List.append_nil, List.append_nil], same.symm⟩
    | cons y t =>
        cases same
        exact absurd (List.mem_append_right _ List.mem_cons_self) other
  · exact ⟨c', rfl, same⟩

theorem lastCanary_of_held {sent : Nat} {refused : Tally} {older : List Event}
    (held : ∀ event ∈ newer, event.Held target generation) :
    lastCanary (newer ++ .canary target generation true sent refused :: older) =
      some (generation, true) := by
  induction newer with
  | nil => rfl
  | cons event newer ih =>
      have rest := ih fun event mem => held event (List.mem_cons_of_mem _ mem)
      have first := held event List.mem_cons_self
      cases event with
      | canary origin generation' passed sent refused =>
          obtain ⟨_, rfl, rfl⟩ := first
          rfl
      | probes row generation sent refused => exact rest
      | returned row s c v next => exact rest
      | settled state next => exact rest
      | retired f => exact rest

theorem Guarded.append (guarded : Guarded target generation log)
    (held : ∀ event ∈ newer, event.Held target generation) :
    Guarded target generation (newer ++ log) := by
  obtain ⟨tail, sent, refused, first, rfl, opening, tailHeld⟩ := guarded.opened
  refine ⟨newer ++ tail, sent, refused, first, (List.append_assoc _ _ _).symm, opening, ?_⟩
  exact List.forall_mem_append.2 ⟨held, tailHeld⟩

theorem paced_nil : Paced every [] := by
  intro newer row generation sent refused older same
  exact absurd same.symm (List.append_ne_nil_of_right_ne_nil _ (List.cons_ne_nil _ _))

theorem Paced.cons (paced : Paced every log)
    (pace : event.IsProbes → sinceCanary log + 1 ≤ every) : Paced every (event :: log) := by
  intro newer row generation sent refused older same
  cases newer with
  | nil =>
      cases same
      exact pace trivial
  | cons first newer =>
      cases same
      exact paced newer row generation sent refused older rfl

theorem Paced.append (paced : Paced every log) (quiet : ∀ event ∈ newer, ¬ event.IsProbes) :
    Paced every (newer ++ log) := by
  induction newer with
  | nil => exact paced
  | cons event newer ih =>
      refine (ih fun event mem => quiet event (List.mem_cons_of_mem _ mem)).cons ?_
      exact fun probes => absurd probes (quiet event List.mem_cons_self)

/-- What is said after the closing canary does not break the seal. -/
theorem Sealed.append (sealed_ : Sealed target every generation log)
    (quiet : ∀ event ∈ newer, ¬ event.IsProbes ∧ event.Held target generation) :
    Sealed target every generation (newer ++ log) := by
  obtain ⟨guarded, paced, newest, sent, refused, older, rfl, still⟩ := sealed_
  refine ⟨guarded.append fun event mem => (quiet event mem).2,
    paced.append fun event mem => (quiet event mem).1, newer ++ newest, sent, refused, older,
    (List.append_assoc _ _ _).symm, ?_⟩
  exact List.forall_mem_append.2 ⟨fun event mem => (quiet event mem).1, still⟩

theorem Sealed.vouched (sealed_ : Sealed target every generation log) :
    Vouched target every log := by
  obtain ⟨guarded, paced, newest, sent', refused', older', closed, still⟩ := sealed_
  obtain ⟨tail, sentAt, refusedAt, first, rfl, opening, held⟩ := guarded.opened
  refine ⟨?_, ?_, paced⟩
  · intro newer row generation' sent refused older same
    have late : .probes row generation' sent refused ∉
        .canary target generation true sentAt refusedAt :: first := by
      intro mem
      rcases List.mem_cons.1 mem with same | mem
      · contradiction
      · exact (opening _ mem).not_isProbes trivial
    obtain ⟨between, rfl, rfl⟩ := split_left same.symm late
    have first' := held _ (List.mem_append_right _ List.mem_cons_self)
    refine ⟨generation, first', ?_, generation, ?_⟩
    · exact lastCanary_of_held fun event mem =>
        held event (List.mem_append_right _ (List.mem_cons_of_mem _ mem))
    · have early : .probes row generation' sent refused ∉
          newest ++ [.canary target generation true sent' refused'] := by
        intro mem
        rcases List.mem_append.1 mem with mem | mem
        · exact still _ mem trivial
        · exact Event.noConfusion (List.mem_singleton.1 mem)
      obtain ⟨after, rfl, _⟩ := split_right
        (same.symm.trans (closed.trans (List.append_cons _ _ _))) early
      rw [List.reverse_append, List.reverse_append]
      apply lastCanary_of_held
      intro event mem
      exact held event (List.mem_append_left _ (List.mem_append_right _ (List.mem_reverse.1 mem)))
  · intro newer origin generation' passed sent refused older same
    have mem : Event.canary origin generation' passed sent refused ∈ tail ++
        .canary target generation true sentAt refusedAt :: first := by
      rw [same]
      exact List.mem_append_right _ List.mem_cons_self
    constructor
    · rcases List.mem_append.1 mem with mem | mem
      · exact (held _ mem).1
      · rcases List.mem_cons.1 mem with same | mem
        · cases same
          rfl
        · exact opening _ mem
    · rintro rfl
      rw [List.append_cons] at same
      have early : .canary origin generation' false sent refused ∉
          tail ++ [.canary target generation true sentAt refusedAt] := by
        intro mem
        rcases List.mem_append.1 mem with mem | mem
        · exact Bool.noConfusion (held _ mem).2.2
        · cases List.mem_singleton.1 mem
      obtain ⟨after, _, rfl⟩ := split_right same.symm early
      intro event mem
      exact (opening event (List.mem_append_right _ (List.mem_cons_of_mem _ mem))).not_isProbes

end Log

end Hx.Scan
