/-!
# Programs that change a state and may raise

A program takes a state to a result, or to an exception, and to the state it left behind:
what was changed before a raise stays changed. `wp m Q E` is the weakest precondition of
`m`, with `Q` for a return and `E` for a raise. The rules below take a program apart
along the way it was put together; a loop is taken apart by an invariant over the part
of the list that is done.
-/

namespace Hx.Library

universe u v w

/-- A result or an exception, and the state left behind. -/
def Prog (σ : Type u) (ε : Type v) (α : Type w) := σ → Except ε α × σ

namespace Prog

variable {σ : Type u} {ε : Type v} {α β : Type w}

def raise (e : ε) : Prog σ ε α := fun s => (.error e, s)

/-- What comes after a result; an exception skips it. -/
def andThen (f : α → Prog σ ε β) : Except ε α → Prog σ ε β
  | .ok a => f a
  | .error e => raise e

instance : Monad (Prog.{u, v, w} σ ε) where
  pure a s := (.ok a, s)
  bind m f s := andThen f (m s).1 (m s).2

/-- The state, or what is read off it. -/
def gets (f : σ → α) : Prog σ ε α := fun s => (.ok (f s), s)

def modify (f : σ → σ) : Prog σ ε PUnit.{w + 1} := fun s => (.ok .unit, f s)

/-- `try`, with the exception as a value. -/
def attempt (m : Prog σ ε α) : Prog σ ε (Except ε α) := fun s => (.ok (m s).1, (m s).2)

def forEach (f : α → Prog σ ε PUnit.{w + 1}) : List α → Prog σ ε PUnit.{w + 1}
  | [] => pure .unit
  | a :: rest => do
      f a
      forEach f rest

/-! ## Weakest preconditions -/

def settle (Q : α → σ → Prop) (E : ε → σ → Prop) : Except ε α → σ → Prop
  | .ok a => Q a
  | .error e => E e

def wp (m : Prog σ ε α) (Q : α → σ → Prop) (E : ε → σ → Prop) (s : σ) : Prop :=
  settle Q E (m s).1 (m s).2

variable {m : Prog σ ε α} {f : α → Prog σ ε β} {Q Q' : α → σ → Prop} {E E' : ε → σ → Prop} {s : σ}

@[simp] theorem settle_ok {a : α} : settle Q E (.ok a) s = Q a s := rfl

@[simp] theorem settle_error {e : ε} : settle Q E (.error e) s = E e s := rfl

theorem wp_pure {a : α} : wp (pure a) Q E s ↔ Q a s := Iff.rfl

theorem wp_gets {f : σ → α} : wp (gets f) Q E s ↔ Q (f s) s := Iff.rfl

theorem wp_modify {f : σ → σ} {Q : PUnit.{w + 1} → σ → Prop} :
    wp (modify f) Q E s ↔ Q .unit (f s) := Iff.rfl

theorem wp_bind {Q : β → σ → Prop} :
    wp (m >>= f) Q E s ↔ wp m (fun a => wp (f a) Q E) E s := by
  change settle Q E (andThen f (m s).1 (m s).2).1 (andThen f (m s).1 (m s).2).2 ↔ _
  rw [wp]
  cases (m s).1 with
  | ok a => exact Iff.rfl
  | error e => exact Iff.rfl

theorem wp_attempt {Q : Except ε α → σ → Prop} :
    wp (attempt m) Q E s ↔ wp m (fun a => Q (.ok a)) (fun e => Q (.error e)) s := by
  rw [wp, wp, attempt]
  cases (m s).1 with
  | ok a => exact Iff.rfl
  | error e => exact Iff.rfl

theorem wp_mono (h : wp m Q E s) (returns : ∀ a t, Q a t → Q' a t)
    (raises : ∀ e t, E e t → E' e t) : wp m Q' E' s := by
  rw [wp] at h ⊢
  cases result : (m s).1 with
  | ok a =>
      rw [result] at h
      exact returns a _ h
  | error e =>
      rw [result] at h
      exact raises e _ h

/-- Two things a program ensures it ensures together. -/
theorem wp_and (h : wp m Q E s) (h' : wp m Q' E' s) :
    wp m (fun a t => Q a t ∧ Q' a t) (fun e t => E e t ∧ E' e t) s := by
  rw [wp] at h h' ⊢
  cases result : (m s).1 with
  | ok a =>
      rw [result] at h h'
      exact ⟨h, h'⟩
  | error e =>
      rw [result] at h h'
      exact ⟨h, h'⟩

/-- The loop rule: an invariant over the elements that are done, kept by every turn. -/
theorem wp_forEach {f : α → Prog σ ε PUnit.{w + 1}} {I : List α → σ → Prop} {all : List α}
    (turn : ∀ done a s, done ++ [a] <+: all → I done s → wp (f a) (fun _ => I (done ++ [a])) E s)
    (s : σ) (start : I [] s) : wp (forEach f all) (fun _ => I all) E s := by
  have go : ∀ rest done s, done ++ rest = all → I done s →
      wp (forEach f rest) (fun _ => I all) E s := by
    intro rest
    induction rest with
    | nil =>
        intro done s whole holds
        rw [List.append_nil] at whole
        exact whole ▸ holds
    | cons a rest ih =>
        intro done s whole holds
        rw [forEach, wp_bind]
        have whole' : done ++ [a] ++ rest = all := by rw [← whole, List.append_assoc]; rfl
        apply wp_mono (turn done a s ⟨rest, whole'⟩ holds)
        · intro _ t next
          exact ih (done ++ [a]) t whole' next
        · exact fun _ _ h => h
  exact go all [] s rfl start

end Prog

end Hx.Library
