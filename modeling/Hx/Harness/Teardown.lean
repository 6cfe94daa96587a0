import Hx.Library.Effects

/-!
# A session, and how it is left

`session` starts the bridge and Burp, authorises Burp's extension and hands both out. It may be left
at any of the calls it makes: each may raise, with what it is called for done or not. Whatever is
raised on the way out, the rest of the teardown is still done. What the calls answer is an
`Answers`; a JVM that ends by itself is not modelled, and neither is an interrupt that arrives
between two calls.
-/

namespace Hx.Burp

open Hx.Library Prog

/-- What `session` and `launch_burp` call. -/
inductive Call where
  | findBurpJar
  | secureMkdir
  | operatorHalt
  | storedScopeSha256
  | start
  | extensionProblem
  | makeHome
  | writeListenerConfig
  | openLog
  | popen
  | stdin
  | waitFor
  | proxyPorts
  | waitUntilLoopbackOnly
  | configure
  | body
  | kill
  | wait
  | stop
  deriving DecidableEq

/-- A `SessionError` by what it says, any other `Exception`, and what is none. -/
inductive Exc where
  | notOneSegment
  | bridgeCouldNotStart (cause : Exc)
  | extensionProblem (problem : String)
  | noHandshake
  | refusing (why : String)
  | configureFailed (cause : Exc)
  | exception (type : String)
  | interrupt

/-- What `except Exception` catches. -/
def Exc.isException : Exc → Bool
  | .interrupt => false
  | _ => true

/-- What a session is handed out with. -/
structure Up where
  serving : Bool
  jvm : Bool
  greeted : Bool
  loopback : Bool
  authorised : Bool
  deriving DecidableEq

def Up.ready : Up := ⟨true, true, true, true, true⟩

/-- The host, and `proc`: whether it is set. `spawned` is whether a JVM was started and `entered`
what was up when the caller was let in. -/
structure Host extends Up where
  home : Bool
  proc : Bool
  spawned : Bool
  entered : Option Up

/-- Nothing is started yet. -/
def Host.new : Host where
  toUp := ⟨false, false, false, false, false⟩
  home := false
  proc := false
  spawned := false
  entered := none

/-- Which calls raise, whether one that does has done what it is called for, what the others answer,
and whether `rmtree` gets the home removed. -/
structure Answers where
  raises : Call → Option Exc
  takes : Call → Bool
  problem : Option String
  greets : Bool
  notLoopback : Option String
  removes : Bool

abbrev Code := Prog Host Exc

section Code

variable (A : Answers)

def call (c : Call) (effect : Host → Host) : Code Unit := fun s =>
  (match A.raises c with
    | none => .ok ()
    | some e => .error e,
   if (A.raises c).isNone || A.takes c then effect s else s)

/-- `try` … `finally`: what the last part raises replaces what was raised before. -/
def finallyDo (m last : Code Unit) : Code Unit := do
  let left ← attempt m
  last
  match left with
  | .ok _ => pure ()
  | .error e => raise e

/-- `launch_burp`. -/
def launchBurp : Code Unit := do
  call A .extensionProblem id
  match A.problem with
  | some problem => raise (.extensionProblem problem)
  | none => do
      call A .makeHome fun s => { s with home := true }
      call A .writeListenerConfig id
      call A .openLog id
      call A .popen fun s => { s with jvm := true, spawned := true }
      call A .stdin id

/-- The first `try` of `session`. -/
def startBridge : Code Unit := do
  match ← attempt (call A .start fun s => { s with serving := true }) with
  | .ok _ => pure ()
  | .error e => if e.isException then raise (.bridgeCouldNotStart e) else raise e

/-- `configure`, whose exceptions are told as the session's. -/
def configureBurp : Code Unit := do
  match ← attempt (call A .configure fun s => { s with authorised := true }) with
  | .ok _ => pure ()
  | .error e => if e.isException then raise (.configureFailed e) else raise e

/-- The second `try`, with the caller's block. -/
def hold : Code Unit := do
  launchBurp A
  modify fun s => { s with proc := true }
  call A .waitFor fun s => { s with greeted := A.greets }
  if A.greets then do
    call A .proxyPorts id
    call A .waitUntilLoopbackOnly fun s => { s with loopback := A.notLoopback.isNone }
    match A.notLoopback with
    | some why => raise (.refusing why)
    | none => do
        configureBurp A
        modify fun s => { s with entered := some s.toUp }
        call A .body id
  else raise .noHandshake

/-- `kill` and the wait for it, which is not to raise. -/
def killBurp : Code Unit := do
  if ← gets Host.proc then
    call A .kill fun s => { s with jvm := false }
    match ← attempt (call A .wait id) with
    | .ok _ => pure ()
    | .error e => if e.isException then pure () else raise e
  else pure ()

/-- The `finally` of `session`. -/
def teardown : Code Unit :=
  finallyDo (killBurp A) <|
    finallyDo (call A .stop fun s => { s with serving := false }) <|
      modify fun s => { s with home := s.home && !A.removes }

/-- `Path(path).name`. -/
def fileName (path : List Char) : List Char :=
  ((path.splitOn '/').filter fun part => part ≠ [] ∧ part ≠ ['.']).getLast?.getD []

/-- `instance` is a single path segment. -/
def Segment (name : List Char) : Prop :=
  name = fileName name ∧ name ∉ [[], ['.'], ['.', '.']]

instance (name : List Char) : Decidable (Segment name) :=
  inferInstanceAs (Decidable (_ ∧ _))

theorem not_mem_of_mem_splitOn {sep : Char} {path part : List Char} (mem : part ∈ path.splitOn sep) :
    sep ∉ part := by
  induction is : path.length using Nat.strongRecOn generalizing path with
  | ind n ih =>
      by_cases found : sep ∈ path
      · obtain ⟨before, rest, rfl, free⟩ := List.eq_append_cons_of_mem found
        rw [List.splitOn_append_cons_self_of_not_mem free] at mem
        cases mem with
        | head => exact free
        | tail _ later => exact ih rest.length (by simp at is; omega) later rfl
      · rw [List.splitOn_eq_singleton found] at mem
        rw [List.mem_singleton.1 mem]
        exact found

/-- What is below the session directory is directly below it. -/
theorem segment_plain {name : List Char} (h : Segment name) : '/' ∉ name := by
  rw [h.1, fileName]
  cases last : (((name.splitOn '/').filter fun part => part ≠ [] ∧ part ≠ ['.']).getLast?) with
  | none => exact List.not_mem_nil
  | some part =>
      exact not_mem_of_mem_splitOn (List.mem_filter.1 (List.mem_of_getLast? last)).1

/-- `session` under `instance`. -/
def session (name : List Char) : Code Unit := do
  call A .findBurpJar id
  if Segment name then do
    call A .secureMkdir id
    call A .operatorHalt id
    call A .storedScopeSha256 id
    startBridge A
    finallyDo (hold A) (teardown A)
  else raise .notOneSegment

end Code

/-! ## What a call leaves -/

section Calls

variable {A : Answers} {Q : Unit → Host → Prop} {E : Exc → Host → Prop} {s : Host} {c : Call}

/-- A call that raises. -/
def Answers.Fails (A : Answers) (c : Call) : Prop := (A.raises c).isSome

/-- A call returns, or raises before or after its effect. -/
theorem wp_call_cases {effect : Host → Host} (done : ¬ A.Fails c → Q () (effect s))
    (early : ∀ e, A.Fails c → A.takes c = false → E e s)
    (late : ∀ e, A.Fails c → A.takes c = true → E e (effect s)) :
    wp (call A c effect) Q E s := by
  rw [wp, call]
  cases is : A.raises c with
  | none =>
      refine done fun fails => ?_
      rw [Answers.Fails, is] at fails
      cases fails
  | some e =>
      have fails : A.Fails c := by
        rw [Answers.Fails, is]
        rfl
      cases taken : A.takes c with
      | false => exact early e fails taken
      | true => exact late e fails taken

theorem wp_call {effect : Host → Host} (done : Q () (effect s))
    (raised : ∀ e, A.Fails c → E e s) (late : ∀ e, A.Fails c → E e (effect s)) :
    wp (call A c effect) Q E s :=
  wp_call_cases (fun _ => done) (fun e fails _ => raised e fails) fun e fails _ => late e fails

theorem wp_idle (done : Q () s) (raised : ∀ e, A.Fails c → E e s) : wp (call A c id) Q E s :=
  wp_call done raised raised

theorem wp_finallyDo {m last : Code Unit}
    (h : wp m (fun _ => wp last Q E) (fun e => wp last (fun _ => E e) E) s) :
    wp (finallyDo m last) Q E s := by
  rw [finallyDo, wp_bind, wp_attempt]
  refine wp_mono h (fun _ t next => ?_) (fun e t next => ?_)
  · rw [wp_bind]
    exact next
  · rw [wp_bind]
    exact next

/-- Either way out of `try` with an `except Exception` that raises something else. -/
theorem wp_told {m : Code Unit} {told : Exc → Exc}
    (h : wp m Q (fun e t => E e t ∧ E (told e) t) s) :
    wp (do
      match ← attempt m with
      | .ok _ => pure ()
      | .error e => if e.isException then raise (told e) else raise e) Q E s := by
  rw [wp_bind, wp_attempt]
  refine wp_mono h (fun _ t next => next) (fun e t next => ?_)
  cases is : e.isException with
  | true =>
      simp only [is, if_true]
      exact next.2
  | false =>
      simp only [is, Bool.false_eq_true, if_false]
      exact next.1

end Calls

/-! ## What is up while the session is held -/

variable {A : Answers} {s : Host}

/-- A JVM runs if one was started, and it is `proc` unless its launch failed after that. -/
structure Held (A : Answers) (s : Host) : Prop where
  jvm : s.jvm = s.spawned
  proc : s.proc = true → s.spawned = true
  lost : s.spawned = true → s.proc = false → A.Fails .popen ∨ A.Fails .stdin
  entered : ∀ up, s.entered = some up → up = Up.ready

/-- The bridge is up and nothing else. -/
structure Served (s : Host) : Prop where
  serving : s.serving = true
  jvm : s.jvm = false
  spawned : s.spawned = false
  proc : s.proc = false
  entered : s.entered = none

theorem Served.held (h : Served s) : Held A s where
  jvm := h.jvm.trans h.spawned.symm
  proc is := nomatch h.proc.symm.trans is
  lost is := nomatch h.spawned.symm.trans is
  entered _ is := nomatch h.entered.symm.trans is

theorem wp_launchBurp (h : Served s) : wp (launchBurp A)
    (fun _ t => t.serving = true ∧ t.jvm = true ∧ t.spawned = true ∧ t.entered = none)
    (fun _ t => Held A t ∧ t.proc = false) s := by
  rw [launchBurp, wp_bind]
  refine wp_idle ?_ fun _ _ => ⟨h.held, h.proc⟩
  cases A.problem with
  | some problem => exact ⟨h.held, h.proc⟩
  | none =>
      have home : Served { s with home := true } := ⟨h.1, h.2, h.3, h.4, h.5⟩
      have started (e : A.Fails .popen ∨ A.Fails .stdin) :
          Held A { s with home := true, jvm := true, spawned := true } :=
        ⟨rfl, fun _ => rfl, fun _ _ => e, fun up is => nomatch h.entered.symm.trans is⟩
      rw [wp_bind]
      refine wp_call ?_ (fun _ _ => ⟨h.held, h.proc⟩) fun _ _ => ⟨home.held, h.proc⟩
      rw [wp_bind]
      refine wp_idle ?_ fun _ _ => ⟨home.held, h.proc⟩
      rw [wp_bind]
      refine wp_idle ?_ fun _ _ => ⟨home.held, h.proc⟩
      rw [wp_bind]
      refine wp_call ?_ (fun _ _ => ⟨home.held, h.proc⟩) fun _ fails => ⟨started (.inl fails), h.proc⟩
      exact wp_idle ⟨h.serving, rfl, rfl, h.entered⟩ fun _ fails => ⟨started (.inr fails), h.proc⟩

/-- Whatever the caller's block and the calls before it do; what returns went by the block. -/
theorem wp_hold (h : Served s) :
    wp (hold A) (fun _ t => Held A t ∧ t.entered = some .ready) (fun _ => Held A) s := by
  rw [hold, wp_bind]
  refine wp_mono (wp_launchBurp h) (fun _ t launched => ?_) fun _ _ held => held.1
  obtain ⟨serving, jvm, spawned, entered⟩ := launched
  rw [wp_bind, wp_modify, wp_bind]
  have held (greeted loopback authorised : Bool) : Held A
      { t with proc := true, greeted := greeted, loopback := loopback, authorised := authorised } :=
    ⟨jvm.trans spawned.symm, fun _ => spawned, nofun, fun up is => nomatch entered.symm.trans is⟩
  refine wp_call ?_ (fun _ _ => held _ _ _) fun _ _ => held _ _ _
  cases greets : A.greets with
  | false => exact held _ _ _
  | true =>
      rw [if_pos rfl, wp_bind]
      refine wp_idle ?_ fun _ _ => held _ _ _
      rw [wp_bind]
      refine wp_call ?_ (fun _ _ => held _ _ _) fun _ _ => held _ _ _
      cases why : A.notLoopback with
      | some why => exact held _ _ _
      | none =>
          rw [wp_bind]
          refine wp_told (wp_call ?_ (fun _ _ => ⟨held _ _ _, held _ _ _⟩)
            fun _ _ => ⟨held _ _ _, held _ _ _⟩)
          have inside : Held A { t with
              proc := true, greeted := true, loopback := true, authorised := true,
              entered := some ⟨t.serving, t.jvm, true, true, true⟩ } := by
            refine ⟨jvm.trans spawned.symm, fun _ => spawned, nofun, fun up is => ?_⟩
            rw [← Option.some.inj is, serving, jvm]
            rfl
          rw [wp_bind, wp_modify]
          refine wp_idle ⟨inside, ?_⟩ fun _ _ => inside
          exact congrArg some (inside.entered _ rfl)

/-! ## What is left -/

/-- A JVM is left running only where its launch failed after it was started, or it could not be
killed. -/
structure Killed (A : Answers) (s : Host) : Prop where
  jvm : s.jvm = true ↔ s.spawned = true ∧
    (s.proc = false ∨ A.Fails .kill ∧ A.takes .kill = false)
  lost : s.spawned = true → s.proc = false → A.Fails .popen ∨ A.Fails .stdin
  entered : ∀ up, s.entered = some up → up = Up.ready

/-- Besides, the bridge is down unless it failed to stop or to start, and the copied home is gone
unless it could not be removed. -/
structure TornDown (A : Answers) (s : Host) : Prop extends Killed A s where
  bridge : s.serving = true → A.Fails .start ∨ A.Fails .stop ∧ A.takes .stop = false
  home : s.home = true → A.removes = false

theorem wp_killBurp (h : Held A s) : wp (killBurp A)
    (fun _ t => Killed A t ∧ t.entered = s.entered)
    (fun _ t => Killed A t ∧ t.entered = s.entered) s := by
  rw [killBurp, wp_bind, wp_gets]
  cases proc : s.proc with
  | false =>
      rw [if_neg Bool.false_ne_true, wp_pure]
      refine ⟨⟨?_, h.lost, h.entered⟩, rfl⟩
      rw [h.jvm]
      exact ⟨fun is => ⟨is, .inl proc⟩, fun both => both.1⟩
  | true =>
      have spawned := h.proc proc
      have killed (kept : ¬ (A.Fails .kill ∧ A.takes .kill = false)) :
          Killed A { s with jvm := false } := by
        refine ⟨⟨nofun, fun both => ?_⟩, h.lost, h.entered⟩
        exact absurd (both.2.resolve_left (by simp [proc])) kept
      rw [if_pos rfl, wp_bind]
      refine wp_call_cases (fun done => ?_) (fun e fails early => ?_) fun e fails late => ?_
      · have after := killed fun both => done both.1
        rw [wp_bind, wp_attempt]
        refine wp_idle ⟨after, rfl⟩ fun e _ => ?_
        cases is : e.isException with
        | true =>
            simp only [is, if_true]
            exact ⟨after, rfl⟩
        | false =>
            simp only [is, Bool.false_eq_true, if_false]
            exact ⟨after, rfl⟩
      · refine ⟨⟨⟨fun _ => ⟨spawned, .inr ⟨fails, early⟩⟩, fun _ => h.jvm.trans spawned⟩, h.lost,
          h.entered⟩, rfl⟩
      · exact ⟨killed fun both => Bool.noConfusion (both.2.symm.trans late), rfl⟩

theorem wp_stop (h : Killed A s) :
    wp (finallyDo (call A .stop fun s => { s with serving := false }) <|
      modify fun s => { s with home := s.home && !A.removes })
      (fun _ t => TornDown A t ∧ t.entered = s.entered)
      (fun _ t => TornDown A t ∧ t.entered = s.entered) s := by
  have left {t : Host} (killed : Killed A t)
      (bridge : t.serving = true → A.Fails .start ∨ A.Fails .stop ∧ A.takes .stop = false) :
      TornDown A { t with home := t.home && !A.removes } := by
    refine ⟨⟨killed.jvm, killed.lost, killed.entered⟩, bridge, fun is => ?_⟩
    simpa using (Bool.and_eq_true_iff.1 is).2
  have stopped : Killed A { s with serving := false } := ⟨h.jvm, h.lost, h.entered⟩
  apply wp_finallyDo
  refine wp_call_cases (fun _ => ?_) (fun e fails early => ?_) fun e _ _ => ?_
  · exact ⟨left stopped nofun, rfl⟩
  · exact ⟨left h fun _ => .inr ⟨fails, early⟩, rfl⟩
  · exact ⟨left stopped nofun, rfl⟩

theorem wp_teardown (h : Held A s) : wp (teardown A)
    (fun _ t => TornDown A t ∧ t.entered = s.entered)
    (fun _ t => TornDown A t ∧ t.entered = s.entered) s := by
  have stop (t : Host) (killed : Killed A t ∧ t.entered = s.entered) := killed.2 ▸ wp_stop killed.1
  apply wp_finallyDo
  exact wp_mono (wp_killBurp h) (fun _ t => stop t) fun _ t => stop t

/-- Nothing but the bridge was ever up. -/
theorem TornDown.bare (jvm : s.jvm = false) (spawned : s.spawned = false)
    (entered : s.entered = none) (home : s.home = false)
    (bridge : s.serving = true → A.Fails .start ∨ A.Fails .stop ∧ A.takes .stop = false) :
    TornDown A s := by
  have idle : ¬ s.spawned = true := by
    rw [spawned]
    exact Bool.false_ne_true
  refine ⟨⟨?_, fun is => absurd is idle, fun up is => ?_⟩, bridge, fun is => ?_⟩
  · rw [jvm]
    exact iff_of_false Bool.false_ne_true fun both => idle both.1
  · rw [entered] at is
    cases is
  · rw [home] at is
    cases is

/-- However a session is left, it is torn down; and whoever was let in found the bridge serving,
Burp up and greeted, its listeners on loopback only and its extension authorised. A session that
nobody was let in to raises. -/
theorem session_torn_down (A : Answers) (name : List Char) :
    TornDown A (session A name .new).2 ∧
      ((session A name .new).1.isOk → (session A name .new).2.entered = some .ready) := by
  have untouched : TornDown A .new :=
    .bare rfl rfl rfl rfl fun serving => absurd serving Bool.false_ne_true
  have whole : wp (session A name) (fun _ t => TornDown A t ∧ t.entered = some .ready)
      (fun _ => TornDown A) .new := by
    rw [session, wp_bind]
    refine wp_idle ?_ fun _ _ => untouched
    by_cases segment : Segment name
    · rw [if_pos segment, wp_bind]
      refine wp_idle ?_ fun _ _ => untouched
      rw [wp_bind]
      refine wp_idle ?_ fun _ _ => untouched
      rw [wp_bind]
      refine wp_idle ?_ fun _ _ => untouched
      rw [wp_bind]
      have bound (fails : A.Fails .start) : TornDown A { Host.new with serving := true } :=
        .bare rfl rfl rfl rfl fun _ => .inl fails
      refine wp_told (wp_call ?_ (fun _ _ => ⟨untouched, untouched⟩)
        fun _ fails => ⟨bound fails, bound fails⟩)
      have served : Served { Host.new with serving := true } := ⟨rfl, rfl, rfl, rfl, rfl⟩
      apply wp_finallyDo
      refine wp_mono (wp_hold served) (fun _ t held => ?_) fun _ t held => ?_
      · exact wp_mono (wp_teardown held.1) (fun _ _ down => ⟨down.1, down.2.trans held.2⟩)
          fun _ _ down => down.1
      · exact wp_mono (wp_teardown held) (fun _ _ down => down.1) fun _ _ down => down.1
    · rw [if_neg segment]
      exact untouched
  rw [wp] at whole
  cases is : (session A name .new).1 with
  | ok a =>
      rw [is] at whole
      exact ⟨whole.1, fun _ => whole.2⟩
  | error e =>
      rw [is] at whole
      exact ⟨whole, fun returned => absurd returned Bool.false_ne_true⟩

end Hx.Burp
