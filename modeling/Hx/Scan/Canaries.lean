import Hx.Scan.Row

/-!
# What the canaries leave alone

The canaries between the rows move the bracket, the tallies and the log. A canary that is
due is sent before the next row is opened.
-/

namespace Hx.Scan

open Hx.Checks Hx.Library Hx.Python Hx.Store Prog

variable {e : Env} {p : Pass}

theorem wp_sendCanary {b : Bracket} {Q : Bool × Option String → Pass → Prop}
    {E : Exc → Pass → Prop}
    (answered : ∀ got passed, canary b.declared.liveness got = .ok passed →
      Q (passed, got.refusals.head?.map (·.1)) { p.canaried b got with tick := p.tick + 1 })
    (raised : ∀ got exc, canary b.declared.liveness got = .error exc →
      E exc { p.canaried b got with tick := p.tick + 1 }) : wp (sendCanary e b) Q E p := by
  rw [sendCanary, wp_bind, wp_ask, wp_bind, wp_modify, wp_bind]
  apply wp_returns
  · intro passed ok
    exact answered _ passed ok
  · intro exc error
    exact raised _ exc error

theorem wp_registers {b : Bracket} {Q : Unit → Pass → Prop} {E : Exc → Pass → Prop}
    (registered : ∀ t, Q () { p with tick := t }) (raised : ∀ exc t, E exc { p with tick := t }) :
    wp (registers e b) Q E p := by
  rw [registers, wp_bind, wp_ask]
  apply wp_orRaise
  · exact registered _
  · exact fun exc => raised exc _

/-- A refresh gives the next generation of the same identity, or raises. -/
theorem wp_refresh {identity : Identity} {generation : Nat} {Q : Resolved → Pass → Prop}
    {E : Exc → Pass → Prop}
    (minted : ∀ r t, r.id = identity.id → r.generation = generation + 1 →
      Q r { p with tick := t })
    (raised : ∀ exc t, E exc { p with tick := t }) : wp (refresh e identity generation) Q E p := by
  rw [refresh]
  cases identity.refresh with
  | none => exact raised _ p.tick
  | some argv =>
      simp only
      rw [wp_bind, wp_ask]
      apply wp_returns
      · intro r ok
        obtain ⟨id, next⟩ := generation_of_minted ok
        exact minted r _ id next
      · exact fun exc _ => raised exc _

/-- `q` is `p` after some canaries, whatever became of the bracket. -/
inductive Pass.Quiet (p : Pass) : Pass → Prop where
  | refl : Quiet p p
  | like {q r : Pass} : Quiet p q → q.Like r → Quiet p r
  | canaried {q : Pass} (b : Bracket) (got : Got) : Quiet p q → Quiet p (q.canaried b got)
  | bracket {q : Pass} (b : Option Bracket) : Quiet p q → Quiet p { q with bracket := b }

theorem Pass.Quiet.trans {q r : Pass} (h : p.Quiet q) (h' : q.Quiet r) : p.Quiet r := by
  induction h' with
  | refl => exact h
  | like _ next ih => exact ih.like next
  | canaried b got _ ih => exact ih.canaried b got
  | bracket b _ ih => exact ih.bracket b

theorem Pass.Quiet.tick {q : Pass} (h : p.Quiet q) (t : Nat) : p.Quiet { q with tick := t } :=
  h.like (.tick q t)

/-- What is kept by a canary and holds of any bracket is kept by all of it. -/
theorem Pass.Quiet.keeps {q : Pass} {I : Pass → Prop} (h : p.Quiet q)
    (like : ∀ p q, I p → p.Like q → I q) (canaried : ∀ p b got, I p → I (p.canaried b got))
    (bracket : ∀ p b, I p → I { p with bracket := b }) (start : I p) : I q := by
  induction h with
  | refl => exact start
  | like _ next ih => exact like _ _ ih next
  | canaried b got _ ih => exact canaried _ b got ih
  | bracket b _ ih => exact bracket _ b ih

variable {q : Pass} {b : Bracket}

theorem wp_sendCanary_quiet (h : p.Quiet q) :
    wp (sendCanary e b) (fun _ => p.Quiet) (fun _ => p.Quiet) q := by
  apply wp_sendCanary
  · exact fun got _ _ => (h.canaried b got).tick _
  · exact fun got _ _ => (h.canaried b got).tick _

theorem wp_registers_quiet (h : p.Quiet q) :
    wp (registers e b) (fun _ => p.Quiet) (fun _ => p.Quiet) q := by
  apply wp_registers
  · exact h.tick
  · exact fun _ => h.tick

/-- What a settled bracket has been answered: a passing canary is the newest, and one that
passed at once is the only one. -/
structure Answered (b : Bracket) (p : Pass) (s : Settled) (q : Pass) : Prop where
  quiet : p.Quiet q
  bracket : ∃ r, s.bracket = { b with resolved := r }
  log : s.settled = true → ∃ sent refused older,
    q.log = .canary b.target s.bracket.resolved.generation true sent refused :: older ++ p.log ∧
    (∀ event ∈ older, event.CanaryTo b.target) ∧ (s.raw = true → older = [] ∧ s.bracket = b)

theorem wp_renew_quiet {refusal : Option String} (h : p.Quiet q) :
    wp (renew e b refusal) (fun _ r => p.Quiet r ∧ r.log = q.log) (fun _ => p.Quiet) q := by
  rw [renew, wp_bind, wp_attempt]
  apply wp_refresh
  · exact fun _ t _ _ => ⟨h.tick t, rfl⟩
  · intro exc t
    cases exc with
    | identityError text => exact h.tick t
    | identityDead message stopReason => exact h.tick t
    | refused text => exact h.tick t
    | exception type text => exact h.tick t
    | interrupt type text => exact h.tick t

theorem wp_settle : wp (settle e b) (fun s q => Answered b p s q) (fun _ q => p.Quiet q) p := by
  rw [settle, wp_bind]
  apply wp_sendCanary
  · intro got raw answered
    have first := (Pass.Quiet.refl (p := p)).canaried b got |>.tick (p.tick + 1)
    have log : (p.canaried b got).log = .canary b.target b.resolved.generation
        ((canary b.declared.liveness got).toOption.getD false) got.sent got.refusals :: p.log := rfl
    simp only
    split
    · refine ⟨first, ⟨b.resolved, rfl⟩, ?_⟩
      intro passed
      refine ⟨got.sent, got.refusals, [], ?_, fun _ mem => absurd mem List.not_mem_nil,
        fun _ => ⟨rfl, rfl⟩⟩
      refine log.trans ?_
      rw [answered, show raw = true from passed]
      rfl
    · rename_i again
      have failed : raw = false := by
        cases raw with
        | false => rfl
        | true => exact absurd rfl again
      rw [wp_bind]
      refine wp_mono (wp_renew_quiet first) ?_ fun _ _ h => h
      rintro resolved q ⟨h, log'⟩
      rw [setBracket, wp_bind, wp_modify, wp_bind]
      apply wp_registers
      · intro t
        rw [wp_bind]
        apply wp_sendCanary
        · intro got' settled answered'
          refine ⟨((h.bracket _).tick t).canaried _ _ |>.tick _, ⟨resolved, rfl⟩, ?_⟩
          intro passed
          refine ⟨got'.sent, got'.refusals, [.canary b.target b.resolved.generation
            ((canary b.declared.liveness got).toOption.getD false) got.sent got.refusals], ?_, ?_,
            fun passed' => Bool.noConfusion (failed.symm.trans passed')⟩
          · change Event.canary b.target resolved.generation
              ((canary b.declared.liveness got').toOption.getD false) _ _ :: q.log = _
            rw [answered', log', show settled = true from passed]
            rfl
          · intro event mem
            rw [List.mem_singleton.1 mem]
            rfl
        · exact fun got' exc _ => ((h.bracket _).tick t).canaried _ _ |>.tick _
      · exact fun exc t => (h.bracket _).tick t
  · exact fun got exc _ => (Pass.Quiet.refl.canaried b got).tick _

theorem wp_settle_quiet (h : p.Quiet q) :
    wp (settle e b) (fun _ => p.Quiet) (fun _ => p.Quiet) q :=
  wp_mono wp_settle (fun _ _ answered => h.trans answered.quiet) fun _ _ next => h.trans next

theorem wp_start_quiet (h : p.Quiet q) :
    wp (start e b) (fun _ => p.Quiet) (fun _ => p.Quiet) q := by
  rw [start, wp_bind]
  refine wp_mono (wp_registers_quiet h) ?_ fun _ _ h => h
  intro _ r h
  rw [wp_bind]
  refine wp_mono (wp_settle_quiet h) ?_ fun _ _ h => h
  intro settled t h
  rw [setBracket, wp_bind, wp_modify]
  split
  · exact h.bracket _
  · exact h.bracket _

theorem wp_canaryIfDue_quiet (h : p.Quiet q) :
    wp (canaryIfDue e) (fun _ => p.Quiet) (fun _ => p.Quiet) q := by
  rw [canaryIfDue, wp_bind, wp_gets]
  cases q.bracket with
  | none => exact h
  | some b =>
      simp only
      split
      · rw [setBracket, wp_bind, wp_modify, wp_bind]
        refine wp_mono (wp_settle_quiet (h.bracket _)) ?_ fun _ _ h => h
        intro settled t h
        rw [setBracket, wp_bind, wp_modify]
        split
        · rw [setBracket, wp_modify]
          exact (h.bracket _).bracket _
        · exact h.bracket _
      · exact h

/-- No canary is due. -/
def Pass.NotDue (p : Pass) : Prop := ∀ b, p.bracket = some b → b.due = false

theorem notDue_of_bracket {b : Option Bracket} (bracket : p.bracket = b)
    (free : ∀ x, b = some x → x.due = false) : p.NotDue :=
  fun x same => free x (bracket.symm.trans same)

/-- A canary that was due has been sent. -/
theorem wp_canaryIfDue_notDue : wp (canaryIfDue e) (fun _ q => q.NotDue) (fun _ _ => True) p := by
  rw [canaryIfDue, wp_bind, wp_gets]
  cases bracket : p.bracket with
  | none => exact notDue_of_bracket bracket fun _ same => absurd same.symm (Option.some_ne_none _)
  | some b =>
      simp only
      split
      · rw [setBracket, wp_bind, wp_modify, wp_bind]
        refine wp_mono wp_settle ?_ fun _ _ _ => trivial
        rintro s q ⟨_, ⟨r, same⟩, _⟩
        rw [setBracket, wp_bind, wp_modify]
        split
        · rw [setBracket, wp_modify]
          refine notDue_of_bracket rfl ?_
          rintro x same'
          cases same'
          rw [same]
        · trivial
      · rename_i notDue
        refine notDue_of_bracket bracket ?_
        rintro x same
        cases same
        exact Bool.eq_false_iff.2 notDue

theorem wp_finish_quiet (h : p.Quiet q) :
    wp (finish e b) (fun _ => p.Quiet) (fun _ => p.Quiet) q := by
  rw [finish, wp_bind]
  refine wp_mono (wp_sendCanary_quiet h) ?_ fun _ _ h => h
  rintro ⟨passed, refusal⟩ r h
  simp only [setBracket]
  rw [wp_modify]
  exact h.bracket _

/-! ## A bracket before its first canary -/

/-- Nothing was asked of it yet. -/
structure Bracket.Fresh (b : Bracket) : Prop where
  window : b.window = { dueEvery := b.declared.liveness.everyNProbes }
  due : b.due = false

theorem wp_resolveScanIdentity :
    wp (resolveScanIdentity e) (fun _ q => p.Like q) (fun _ q => p.Like q) p := by
  rw [resolveScanIdentity]
  split
  · exact .refl p
  · rw [wp_bind]
    apply wp_returns
    · intro declared _
      cases declared.strategy with
      | static =>
          simp only
          rw [wp_bind]
          apply wp_returns
          · exact fun _ _ => .refl p
          · exact fun _ _ => .refl p
      | programmatic =>
          simp only
          rw [wp_bind]
          apply wp_refresh
          · exact fun _ t _ _ => .tick p t
          · exact fun _ t => .tick p t
    · exact fun _ _ => .refl p

theorem wp_identityBracket {surfaces : List Surface} :
    wp (identityBracket e surfaces) (fun o q => p.Like q ∧ ∀ b, o = some b → b.Fresh)
      (fun _ q => p.Like q) p := by
  rw [identityBracket]
  split
  · split
    · exact wp_pure.2 ⟨.refl p, fun _ same => absurd same.symm (Option.some_ne_none _)⟩
    · rw [wp_bind]
      have resolved : wp (passIdentity e) (fun _ q => p.Like q) (fun _ q => p.Like q) p := by
        rw [passIdentity]
        cases e.identity with
        | some r => exact wp_pure.2 (.refl p)
        | none => exact wp_resolveScanIdentity
      refine wp_mono resolved ?_ fun _ _ h => h
      intro resolved r h
      cases resolved with
      | none => exact wp_pure.2 ⟨h, fun _ same => absurd same.symm (Option.some_ne_none _)⟩
      | some resolved =>
          simp only
          rw [wp_bind]
          apply wp_returns
          · intro declared _
            refine ⟨h, ?_⟩
            rintro b same
            cases same
            exact ⟨rfl, rfl⟩
          · exact fun _ _ => h
  · exact wp_pure.2 ⟨.refl p, fun _ same => absurd same.symm (Option.some_ne_none _)⟩

theorem wp_identityBracket_quiet {surfaces : List Surface} (h : p.Quiet q) :
    wp (identityBracket e surfaces) (fun _ => p.Quiet) (fun _ => p.Quiet) q :=
  wp_mono wp_identityBracket (fun _ _ next => h.like next.1) fun _ _ next => h.like next

theorem wp_startBracket_quiet {bracket : Option Bracket} (h : p.Quiet q) :
    wp (startBracket e bracket) (fun _ => p.Quiet) (fun _ => p.Quiet) q := by
  cases bracket with
  | none => exact h
  | some b =>
      rw [startBracket, wp_bind, setBracket, wp_modify]
      exact wp_start_quiet (h.bracket _)

end Hx.Scan
