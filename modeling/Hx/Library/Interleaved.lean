import Mathlib.Logic.Function.Basic
import Hx.Library.Transition

/-!
# Programs that share what they call

A program asks for one call after another and goes on with what each answers. Any number of
processes run such programs on one shared state; a call is a single step, and between two calls of
one process the others may do anything. A process that dies is one that takes no further step. An
outage ends every process and may leave the shared state changed.

What a process may ask for, and what it may conclude from an answer, is a protocol over the
knowledge it has gained. Whether a program follows the protocol is a question about that program
alone; what the protocol keeps is a question about one call. `Interleaved.Keeps` asks the two,
and answers for every state that the processes reach together.
-/

namespace Hx.Library

universe u v

/-- A program over the calls `C`, which may raise. -/
inductive Asking (C : Type u) (R : C → Type u) (ε α : Type u) : Type u where
  | ret (a : α)
  | raise (e : ε)
  | ask (c : C) (next : R c → Asking C R ε α)

namespace Asking

variable {C : Type u} {R : C → Type u} {ε α β : Type u}

def andThen (f : α → Asking C R ε β) : Asking C R ε α → Asking C R ε β
  | .ret a => f a
  | .raise e => .raise e
  | .ask c next => .ask c fun r => andThen f (next r)

instance : Monad (Asking C R ε) where
  pure := .ret
  bind m f := andThen f m

/-- `try`, with the exception as a value. -/
def attempt : Asking C R ε α → Asking C R ε (Except ε α)
  | .ret a => .ret (.ok a)
  | .raise e => .ret (.error e)
  | .ask c next => .ask c fun r => attempt (next r)

/-- The program is over. -/
def isOver : Asking C R ε α → Bool
  | .ask _ _ => false
  | _ => true

end Asking

/-- What may be asked for with what is known, what may be answered then, and what is known after
the answer. -/
structure Protocol (C : Type u) (R : C → Type u) (κ : Type v) where
  allows : κ → C → Prop
  answers : κ → (c : C) → R c → Prop
  learn : κ → (c : C) → R c → κ

namespace Protocol

variable {C : Type u} {R : C → Type u} {κ : Type v} {ε α β : Type u}

/-- Every call is allowed, whatever the calls before it answered of what they may answer; what is
returned is as `Q` says and what is raised as `E` says. -/
def Follows (P : Protocol C R κ) (Q : α → κ → Prop) (E : ε → κ → Prop) :
    Asking C R ε α → κ → Prop
  | .ret a, k => Q a k
  | .raise e, k => E e k
  | .ask c next, k => P.allows k c ∧ ∀ r, P.answers k c r → Follows P Q E (next r) (P.learn k c r)

variable {P : Protocol C R κ} {Q Q' : α → κ → Prop} {E E' : ε → κ → Prop}
  {m : Asking C R ε α} {f : α → Asking C R ε β} {k : κ}

theorem follows_pure {a : α} : P.Follows Q E (pure a) k ↔ Q a k := Iff.rfl

theorem follows_ask {c : C} {next : R c → Asking C R ε α} :
    P.Follows Q E (.ask c next) k ↔
      P.allows k c ∧ ∀ r, P.answers k c r → P.Follows Q E (next r) (P.learn k c r) := Iff.rfl

theorem follows_bind {Q : β → κ → Prop} :
    P.Follows Q E (m >>= f) k ↔ P.Follows (fun a => P.Follows Q E (f a)) E m k := by
  change P.Follows Q E (m.andThen f) k ↔ _
  induction m generalizing k with
  | ret a => exact Iff.rfl
  | raise e => exact Iff.rfl
  | ask c next ih =>
      simp only [Asking.andThen, Follows]
      exact and_congr_right fun _ => forall_congr' fun r => imp_congr_right fun _ => ih r

theorem follows_attempt {Q : Except ε α → κ → Prop} :
    P.Follows Q E m.attempt k ↔ P.Follows (fun a => Q (.ok a)) (fun e => Q (.error e)) m k := by
  induction m generalizing k with
  | ret a => exact Iff.rfl
  | raise e => exact Iff.rfl
  | ask c next ih =>
      simp only [Asking.attempt, Follows]
      exact and_congr_right fun _ => forall_congr' fun r => imp_congr_right fun _ => ih r

theorem Follows.mono (h : P.Follows Q E m k) (returns : ∀ a k, Q a k → Q' a k)
    (raises : ∀ e k, E e k → E' e k) : P.Follows Q' E' m k := by
  induction m generalizing k with
  | ret a => exact returns a k h
  | raise e => exact raises e k h
  | ask c next ih => exact ⟨h.1, fun r may => ih r (h.2 r may)⟩

end Protocol

/-! ## Processes -/

/-- What the processes `ι` share, and the program each of them is in, with the job it is for. -/
structure Processes (σ : Type v) (ι J : Type v) (C : Type u) (R : C → Type u) (ε α : Type u) where
  shared : σ
  running : ι → Option (J × Asking C R ε α)

/-- The jobs and their programs, what a call answers and leaves, and what an outage may leave. -/
structure Interleaved (σ J : Type v) (C : Type u) (R : C → Type u) (ε α : Type u) where
  start : σ → Prop
  program : J → Asking C R ε α
  exec : σ → (c : C) → R c → σ → Prop
  outage : σ → σ → Prop

namespace Interleaved

variable {σ J ι : Type v} {C : Type u} {R : C → Type u} {ε α : Type u} [DecidableEq ι]

inductive Event (ι J : Type v) (C : Type u) (R : C → Type u) where
  | begins (p : ι) (job : J)
  | calls (p : ι) (c : C) (r : R c)
  | outage

/-- A process begins a job, makes its next call, or everything stops. -/
inductive Step (I : Interleaved σ J C R ε α) :
    Processes σ ι J C R ε α → Event ι J C R → Processes σ ι J C R ε α → Prop where
  | begins {w : Processes σ ι J C R ε α} (p : ι) (job : J)
      (free : ∀ running, w.running p = some running → running.2.isOver = true) :
      Step I w (.begins p job)
        ⟨w.shared, Function.update w.running p (some (job, I.program job))⟩
  | calls {w : Processes σ ι J C R ε α} {p : ι} {job : J} {c : C} {r : R c}
      {next : R c → Asking C R ε α} {left : σ}
      (at_ : w.running p = some (job, .ask c next)) (done : I.exec w.shared c r left) :
      Step I w (.calls p c r) ⟨left, Function.update w.running p (some (job, next r))⟩
  | outage {w : Processes σ ι J C R ε α} {left : σ} (lost : I.outage w.shared left) :
      Step I w .outage ⟨left, fun _ => none⟩

def system (I : Interleaved σ J C R ε α) (ι : Type v) [DecidableEq ι] :
    System (Processes σ ι J C R ε α) (Event ι J C R) where
  init w := I.start w.shared ∧ ∀ p, w.running p = none
  step := Step I

/-- The calls of one process while no other makes one. -/
inductive Alone (I : Interleaved σ J C R ε α) :
    σ → Asking C R ε α → σ → Asking C R ε α → Prop where
  | rest (s : σ) (m : Asking C R ε α) : Alone I s m s m
  | call {s s' t : σ} {c : C} {r : R c} {next : R c → Asking C R ε α} {m : Asking C R ε α}
      (done : I.exec s c r s') (then_ : Alone I s' (next r) t m) : Alone I s (.ask c next) t m

theorem Alone.reachable {I : Interleaved σ J C R ε α} {s t : σ} {m n : Asking C R ε α} {p : ι}
    {job : J} {running : ι → Option (J × Asking C R ε α)} (alone : Alone I s m t n)
    (reached : (I.system ι).Reachable ⟨s, Function.update running p (some (job, m))⟩) :
    (I.system ι).Reachable ⟨t, Function.update running p (some (job, n))⟩ := by
  induction alone with
  | rest s m => exact reached
  | call done _ ih =>
      have stepped := reached.step (.calls (Function.update_self ..) done)
      rw [Function.update_idem] at stepped
      exact ih stepped

variable {κ : Type v} {I : Interleaved σ J C R ε α} {P : Protocol C R κ} {fresh : κ}
  {Inv : (ι → κ) → σ → Prop} {Q : J → α → κ → Prop} {E : J → ε → κ → Prop}

/-- Each process is in a program that follows the protocol from what the process knows. -/
def Following (P : Protocol C R κ) (Q : J → α → κ → Prop) (E : J → ε → κ → Prop) (known : ι → κ)
    (running : ι → Option (J × Asking C R ε α)) : Prop :=
  ∀ p job m, running p = some (job, m) → P.Follows (Q job) (E job) m (known p)

theorem Following.update {known : ι → κ} {running : ι → Option (J × Asking C R ε α)} {p : ι}
    {job : J} {m : Asking C R ε α} {k : κ} (all : Following P Q E known running)
    (one : P.Follows (Q job) (E job) m k) :
    Following P Q E (Function.update known p k) (Function.update running p (some (job, m))) := by
  intro q job' m' at_
  by_cases same : q = p
  · subst same
    rw [Function.update_self] at at_ ⊢
    cases at_
    exact one
  · rw [Function.update_of_ne same] at at_ ⊢
    exact all q job' m' at_

/-- What the processes know is an invariant of what they share, and all of them follow the protocol
from there. -/
def Sound (P : Protocol C R κ) (Inv : (ι → κ) → σ → Prop) (Q : J → α → κ → Prop)
    (E : J → ε → κ → Prop) (w : Processes σ ι J C R ε α) : Prop :=
  ∃ known : ι → κ, Inv known w.shared ∧ Following P Q E known w.running

/-- What is to be shown of the programs, each by itself, and of the calls, each by itself. -/
structure Keeps (I : Interleaved σ J C R ε α) (P : Protocol C R κ) (fresh : κ)
    (Inv : (ι → κ) → σ → Prop) (Q : J → α → κ → Prop) (E : J → ε → κ → Prop) : Prop where
  start : ∀ s, I.start s → Inv (fun _ => fresh) s
  follows : ∀ job, P.Follows (Q job) (E job) (I.program job) fresh
  forget : ∀ known s p, Inv known s → Inv (Function.update known p fresh) s
  call : ∀ known s p c r s', Inv known s → P.allows (known p) c → I.exec s c r s' →
    P.answers (known p) c r ∧ Inv (Function.update known p (P.learn (known p) c r)) s'
  outage : ∀ known s s', Inv known s → I.outage s s' → Inv (fun _ => fresh) s'

/-- One step, whichever process takes it. -/
theorem Keeps.step {w w' : Processes σ ι J C R ε α} {e : Event ι J C R}
    (keeps : Keeps I P fresh Inv Q E) (before : Sound P Inv Q E w) (st : Step I w e w') :
    Sound P Inv Q E w' := by
  obtain ⟨known, holds, all⟩ := before
  cases st with
  | begins p job free => exact ⟨_, keeps.forget known _ p holds, all.update (keeps.follows job)⟩
  | @calls p job c r next left at_ done =>
      obtain ⟨allowed, goes⟩ := all p job _ at_
      obtain ⟨may, kept⟩ := keeps.call known _ p c r left holds allowed done
      exact ⟨_, kept, all.update (goes r may)⟩
  | outage lost => exact ⟨_, keeps.outage known _ _ holds lost, fun _ _ _ at_ => nomatch at_⟩

/-- Every reachable state, whatever the order of the steps. -/
theorem Keeps.sound {w : Processes σ ι J C R ε α} (keeps : Keeps I P fresh Inv Q E)
    (reached : (I.system ι).Reachable w) : Sound P Inv Q E w := by
  refine reached.invariant (P := Sound P Inv Q E) ?_ ?_
  · intro w start
    refine ⟨fun _ => fresh, keeps.start _ start.1, fun p job m at_ => ?_⟩
    rw [start.2 p] at at_
    cases at_
  · intro w e w' before st
    exact keeps.step before st

end Interleaved

end Hx.Library
