import Hx.Library.Fallible
import Hx.Library.Transition
import Hx.Send.Request
import Mathlib.Logic.Function.Basic

/-!
# The identities a run may issue under

`register` checks its arguments, then asks a concurrent map to compute the entry of the id:
the checks read the arguments alone and the map computes in one step, so that the calls of any
number of threads come down to the order in which they reach the map. Under every such order
an id ends with the first entry that arrived at its highest generation.
-/

namespace Hx.Send

open Hx.Java Hx.Library

/-- What a call of `register` may throw. -/
inductive Refusal where
  | illegalArgument (text : JString)
  | staleGeneration (text : JString)
  | nullPointer
  deriving DecidableEq

/-- The arguments of a call. Any of them, and any origin, may be null. -/
structure RegisterCall where
  id : Option JString
  generation : Int32
  header : Option JString
  value : Option JString
  origins : Option (List (Option JString))

/-- `CREDENTIAL_HEADERS` of the redactor. -/
def credentialNames : List JString :=
  [js "authorization", js "cookie", js "proxy-authorization"]

/-- `asciiLower` of a character. -/
def lowerLetter (c : JChar) : JChar :=
  if ch 'A' ≤ c ∧ c ≤ ch 'Z' then c + 32 else c

def isCredentialHeader (name : JString) : Bool :=
  credentialNames.any fun wanted => name.map lowerLetter == wanted

/-- A character that `checkWritable` lets through. -/
def isWritable (c : JChar) : Bool :=
  !(c == cr || c == lf) && c != 0 && !decide (0xff < c.val)

/-- The text that refuses a character. -/
def unwritable (id what : JString) (c : JChar) : JString :=
  let field := js "identity " ++ id ++ js "'s " ++ what
  if c = cr ∨ c = lf then
    field ++ js " contains a carriage return or line feed; injecting it would write a header " ++
      js "this extension never decided about"
  else if c = 0 then field ++ js " contains a NUL"
  else
    field ++ js " contains a character outside Latin-1; the wire encoding would replace it with " ++
      js "'?', and a mangled credential answers as an unauthenticated one"

/-- The first character that is not writable decides. -/
def checkWritable (id what s : JString) : Except Refusal Unit :=
  match s.find? fun c => !isWritable c with
  | none => .ok ()
  | some c => .error (.illegalArgument (unwritable id what c))

/-- A reference that is null or blank is refused. -/
def present (s : Option JString) (text : JString) : Except Refusal JString :=
  match s with
  | none => .error (.illegalArgument text)
  | some s => if isBlank s then .error (.illegalArgument text) else .ok s

/-- `List.copyOf`. -/
def copyOf (origins : List (Option JString)) : Except Refusal (List JString) :=
  match origins.mapM fun o => o with
  | none => .error .nullPointer
  | some frozen => .ok frozen

/-- A test that refuses where it fails. -/
def require (ok : Bool) (text : JString) : Except Refusal Unit :=
  if ok then .ok () else .error (.illegalArgument text)

/-- `register` up to its call of `compute`: the entry it would hold. -/
def checkRegistration (call : RegisterCall) : Except Refusal Entry := do
  let id ← present call.id (js "an identity needs an id")
  checkWritable id (js "id") id
  require (!decide (call.generation < 1))
    (js "generation must be at least 1, got " ++ js (toString call.generation))
  let header ← present call.header (js "identity " ++ id ++ js " has no header")
  let value ← present call.value
    (js "identity " ++ id ++ js " has a blank value; that is not a credential")
  let origins := call.origins.getD []
  require (!origins.isEmpty) (js "identity " ++ id ++ js " has no origins; an identity with " ++
    js "no origin could be applied to any host the scope allows")
  checkWritable id (js "header name") header
  checkWritable id (js "value") value
  require (isCredentialHeader header) (js "identity " ++ id ++ js " asks to inject into '" ++
    header ++ js "', which is not one of the three credential headers this extension will " ++
    js "write (Cookie, Authorization, Proxy-Authorization)")
  let frozen ← copyOf origins
  return ⟨id, call.generation, header, value, frozen⟩

/-- The function that `compute` applies to the entry held under the id. -/
def remap (entry : Entry) : Option Entry → Except Refusal Entry
  | none => .ok entry
  | some held =>
      if entry.generation < held.generation then
        .error (.staleGeneration (js "identity " ++ entry.id ++ js " is at generation " ++
          js (toString held.generation) ++ js "; refusing to go back to " ++
          js (toString entry.generation)))
      else if entry.generation = held.generation then .ok held
      else .ok entry

/-! ## Threads -/

/-- The map, and the entry each thread is about to hand to it. -/
structure Registry where
  byId : JString → Option Entry
  computing : Nat → Option Entry

inductive RegistryEvent where
  /-- a call that its arguments refuse, or that goes on to the map -/
  | refused (t : Nat) (call : RegisterCall) (why : Refusal)
  | checked (t : Nat) (call : RegisterCall)
  /-- a call that the map answers -/
  | stale (t : Nat) (entry : Entry) (why : Refusal)
  | held (t : Nat) (entry : Entry)

namespace Registry

inductive Step : Registry → RegistryEvent → Registry → Prop where
  | refused {m : Registry} {t : Nat} {call : RegisterCall} {why : Refusal} :
      m.computing t = none → checkRegistration call = .error why →
      Step m (.refused t call why) m
  | checked {m : Registry} {t : Nat} {call : RegisterCall} {entry : Entry} :
      m.computing t = none → checkRegistration call = .ok entry →
      Step m (.checked t call)
        { m with computing := Function.update m.computing t (some entry) }
  | stale {m : Registry} {t : Nat} {entry : Entry} {why : Refusal} :
      m.computing t = some entry → remap entry (m.byId entry.id) = .error why →
      Step m (.stale t entry why) { m with computing := Function.update m.computing t none }
  | held {m : Registry} {t : Nat} {entry next : Entry} :
      m.computing t = some entry → remap entry (m.byId entry.id) = .ok next →
      Step m (.held t entry)
        { byId := Function.update m.byId entry.id (some next)
          computing := Function.update m.computing t none }

/-- Threads that call `register` on a registry that holds nothing yet. -/
def system : System Registry RegistryEvent where
  init m := (∀ id, m.byId id = none) ∧ ∀ t, m.computing t = none
  step := Step

end Registry

/-- The entries that reached the map, the last first. -/
def arrivals : List RegistryEvent → List Entry
  | [] => []
  | .stale _ entry _ :: past => entry :: arrivals past
  | .held _ entry :: past => entry :: arrivals past
  | .refused .. :: past => arrivals past
  | .checked .. :: past => arrivals past

/-- `entry` arrived, what came before it under its id was of a lower generation, and what came
after it of no higher one. The arrivals are listed last first. -/
def FirstOfHighest (entries : List Entry) (entry : Entry) : Prop :=
  ∃ after before, entries = after ++ entry :: before ∧
    (∀ e ∈ before, e.id = entry.id → e.generation < entry.generation) ∧
    ∀ e ∈ after, e.id = entry.id → e.generation ≤ entry.generation

/-- A text the wire carries as it is. -/
def Writable (s : JString) : Prop := ∀ c ∈ s, c ≠ cr ∧ c ≠ lf ∧ c ≠ 0 ∧ c.val ≤ 0xff

/-- What an entry of the registry is. -/
structure Entry.Sound (entry : Entry) : Prop where
  generation : 1 ≤ entry.generation
  named : isCredentialHeader entry.header = true
  id : Writable entry.id
  header : Writable entry.header
  value : Writable entry.value

/-- No entry is lost, none goes back, and none changes at its generation. -/
def Grows (before after : JString → Option Entry) : Prop :=
  ∀ id e, before id = some e → ∃ e', after id = some e' ∧ e.generation ≤ e'.generation ∧
    (e'.generation = e.generation → e' = e)

/-! ## The checks -/

section Checks

variable {id what s text : JString} {given : Option JString} {ok : Bool}
  {call : RegisterCall} {entry : Entry}

theorem writable_of_isWritable {c : JChar} (passes : isWritable c = true) :
    c ≠ cr ∧ c ≠ lf ∧ c ≠ 0 ∧ c.val ≤ 0xff := by
  simp only [isWritable, Bool.and_eq_true, Bool.not_eq_true', Bool.or_eq_false_iff,
    beq_eq_false_iff_ne, bne_iff_ne, decide_eq_false_iff_not, Nat.not_lt] at passes
  exact ⟨passes.1.1.1, passes.1.1.2, passes.1.2, passes.2⟩

theorem checkWritable_ok (ok : checkWritable id what s = .ok ()) : Writable s := by
  cases bad : s.find? fun c => !isWritable c with
  | some c =>
      rw [checkWritable, bad] at ok
      cases ok
  | none =>
      intro c mem
      have passes := List.find?_eq_none.1 bad c mem
      rw [Bool.not_eq_true', Bool.not_eq_false] at passes
      exact writable_of_isWritable passes

theorem require_ok (passed : require ok text = .ok ()) : ok = true := by
  cases ok with
  | true => rfl
  | false => cases passed

theorem checkRegistration_ok (passed : checkRegistration call = .ok entry) : entry.Sound := by
  obtain ⟨id, _, passed⟩ := of_bind_ok passed
  obtain ⟨_, wire, passed⟩ := of_bind_ok passed
  obtain ⟨_, positive, passed⟩ := of_bind_ok passed
  obtain ⟨header, _, passed⟩ := of_bind_ok passed
  obtain ⟨value, _, passed⟩ := of_bind_ok passed
  obtain ⟨_, _, passed⟩ := of_bind_ok passed
  obtain ⟨_, name, passed⟩ := of_bind_ok passed
  obtain ⟨_, credential, passed⟩ := of_bind_ok passed
  obtain ⟨_, named, passed⟩ := of_bind_ok passed
  obtain ⟨frozen, _, passed⟩ := of_bind_ok passed
  cases passed
  have least : ¬ call.generation < 1 := by simpa using require_ok positive
  exact ⟨Int32.not_lt.1 least, require_ok named, checkWritable_ok wire, checkWritable_ok name,
    checkWritable_ok credential⟩

end Checks

/-! ## The entry of one id -/

section Remap

variable {entry next e f : Entry} {held : Option Entry} {why : Refusal} {entries : List Entry}

/-- The map answers with the new entry where it is the first or of a higher generation, and
else with the one it holds. -/
theorem remap_ok (ok : remap entry held = .ok next) :
    (held = none ∧ next = entry) ∨ ∃ h, held = some h ∧
      ((h.generation < entry.generation ∧ next = entry) ∨
        (entry.generation = h.generation ∧ next = h)) := by
  cases held with
  | none => exact .inl ⟨rfl, (Except.ok.inj ok).symm⟩
  | some h =>
      refine .inr ⟨h, rfl, ?_⟩
      rw [remap] at ok
      split_ifs at ok with lower same
      · exact .inr ⟨same, (Except.ok.inj ok).symm⟩
      · have higher := Int32.lt_of_le_of_ne (Int32.not_lt.1 lower) (Ne.symm same)
        exact .inl ⟨higher, (Except.ok.inj ok).symm⟩

theorem remap_error (failed : remap entry held = .error why) :
    ∃ h, held = some h ∧ entry.generation < h.generation := by
  cases held with
  | none => cases failed
  | some h =>
      rw [remap] at failed
      split_ifs at failed with lower
      exact ⟨h, rfl, lower⟩

theorem FirstOfHighest.mem (first : FirstOfHighest entries e) : e ∈ entries := by
  obtain ⟨after, before, rfl, _, _⟩ := first
  exact List.mem_append_right _ List.mem_cons_self

theorem FirstOfHighest.le (first : FirstOfHighest entries e) (mem : f ∈ entries)
    (same : f.id = e.id) : f.generation ≤ e.generation := by
  obtain ⟨after, before, rfl, lower, noHigher⟩ := first
  cases List.mem_append.1 mem with
  | inl late => exact noHigher f late same
  | inr rest =>
      cases List.mem_cons.1 rest with
      | inl here => exact here ▸ Int32.le_refl _
      | inr early => exact Int32.le_of_lt (lower f early same)

/-- An arrival of no higher generation, or of another id, changes nothing. -/
theorem FirstOfHighest.cons (first : FirstOfHighest entries e)
    (low : entry.id = e.id → entry.generation ≤ e.generation) :
    FirstOfHighest (entry :: entries) e := by
  obtain ⟨after, before, rfl, lower, noHigher⟩ := first
  exact ⟨entry :: after, before, rfl, lower, List.forall_mem_cons.2 ⟨low, noHigher⟩⟩

/-- An arrival above all the others of its id. -/
theorem FirstOfHighest.new
    (above : ∀ e ∈ entries, e.id = entry.id → e.generation < entry.generation) :
    FirstOfHighest (entry :: entries) entry :=
  ⟨[], entries, rfl, above, nofun⟩

theorem eq_of_after {after before after' before' c : List Entry} (same : e.id = f.id)
    (lower : ∀ g ∈ before, g.id = e.id → g.generation < e.generation)
    (noHigher : ∀ g ∈ after', g.id = f.id → g.generation ≤ f.generation)
    (front : after' = after ++ c) (rest : e :: before = c ++ f :: before') : e = f := by
  cases c with
  | nil => exact (List.cons.inj rest).1
  | cons g c =>
      obtain ⟨rfl, whole⟩ := List.cons.inj rest
      have low := lower f (whole ▸ List.mem_append_right _ List.mem_cons_self) same.symm
      have high := noHigher e (front ▸ List.mem_append_right _ List.mem_cons_self) same
      exact absurd (Int32.lt_of_lt_of_le low high) Int32.lt_irrefl

/-- An id has one such entry. -/
theorem FirstOfHighest.unique (one : FirstOfHighest entries e) (two : FirstOfHighest entries f)
    (same : e.id = f.id) : e = f := by
  obtain ⟨after, before, whole, lower, noHigher⟩ := one
  obtain ⟨after', before', whole', lower', noHigher'⟩ := two
  cases List.append_eq_append_iff.1 (whole.symm.trans whole') with
  | inl later =>
      obtain ⟨c, front, rest⟩ := later
      exact eq_of_after same lower noHigher' front rest
  | inr earlier =>
      obtain ⟨c, front, rest⟩ := earlier
      exact (eq_of_after same.symm lower' noHigher front rest).symm

theorem Grows.refl (m : JString → Option Entry) : Grows m m :=
  fun _ e here => ⟨e, here, Int32.le_refl _, fun _ => rfl⟩

theorem Grows.trans {m n o : JString → Option Entry} (one : Grows m n) (two : Grows n o) :
    Grows m o := by
  intro id e here
  obtain ⟨e', there, le, same⟩ := one id e here
  obtain ⟨e'', last, le', same'⟩ := two id e' there
  refine ⟨e'', last, Int32.le_trans le le', fun eq => ?_⟩
  have middle : e'.generation = e.generation := Int32.le_antisymm (eq ▸ le') le
  rw [same' (eq.trans middle.symm), same middle]

end Remap

/-! ## Every interleaving -/

namespace Registry

variable {m n : Registry} {a : RegistryEvent} {past : List RegistryEvent} {id : JString}
  {e : Entry}

/-- What the calls that have reached the map leave behind, and what is on its way there. -/
structure Settled (past : List RegistryEvent) (m : Registry) : Prop where
  absent : ∀ id, m.byId id = none → ∀ e ∈ arrivals past, e.id ≠ id
  first : ∀ id e, m.byId id = some e → e.id = id ∧ FirstOfHighest (arrivals past) e
  sound : ∀ id e, m.byId id = some e → e.Sound
  waiting : ∀ t e, m.computing t = some e → e.Sound

theorem Settled.start (init : system.init m) : Settled [] m where
  absent _ _ _ mem := absurd mem List.not_mem_nil
  first id e held := absurd (held.symm.trans (init.1 id)) (Option.some_ne_none e)
  sound id e held := absurd (held.symm.trans (init.1 id)) (Option.some_ne_none e)
  waiting t e held := absurd (held.symm.trans (init.2 t)) (Option.some_ne_none e)

/-- A thread that has handed its entry over waits no more. -/
theorem waiting_of_update {t u : Nat} {f : Entry} (next : Option Entry)
    (held : Function.update m.computing t next u = some f) :
    next = some f ∨ m.computing u = some f := by
  by_cases same : u = t
  · rw [same, Function.update_self] at held
    exact .inl held
  · rw [Function.update_of_ne same] at held
    exact .inr held

theorem Settled.step (h : Settled past m) (st : Step m a n) : Settled (a :: past) n := by
  cases st with
  | refused _ _ => exact ⟨h.absent, h.first, h.sound, h.waiting⟩
  | @checked t _ entry _ ok =>
      refine ⟨h.absent, h.first, h.sound, fun u f held => ?_⟩
      cases waiting_of_update _ held with
      | inl new => exact Option.some.inj new ▸ checkRegistration_ok ok
      | inr old => exact h.waiting u f old
  | @stale t entry _ at_ failed =>
      obtain ⟨top, held, lower⟩ := remap_error failed
      refine ⟨?_, ?_, h.sound, ?_⟩
      · intro id none_ e mem
        cases List.mem_cons.1 mem with
        | inl new =>
            rintro rfl
            rw [new, held] at none_
            cases none_
        | inr old => exact h.absent id none_ e old
      · intro id e here
        refine ⟨(h.first id e here).1, (h.first id e here).2.cons fun same => ?_⟩
        have here' : m.byId entry.id = some e := by
          rw [same, (h.first id e here).1, here]
        exact Option.some.inj (held.symm.trans here') ▸ Int32.le_of_lt lower
      · intro u f held
        cases waiting_of_update _ held with
        | inl new => cases new
        | inr old => exact h.waiting u f old
  | @held t entry next at_ ok =>
      have arrived : next.id = entry.id ∧ next.Sound ∧
          FirstOfHighest (entry :: arrivals past) next := by
        obtain ⟨none_, rfl⟩ | ⟨top, held, ⟨higher, rfl⟩ | ⟨same, rfl⟩⟩ := remap_ok ok
        · refine ⟨rfl, h.waiting t _ at_, .new fun e mem same => ?_⟩
          exact absurd same (h.absent _ none_ e mem)
        · obtain ⟨named, first⟩ := h.first _ _ held
          refine ⟨rfl, h.waiting t _ at_, .new fun e mem same => ?_⟩
          exact Int32.lt_of_le_of_lt (first.le mem (same.trans named.symm)) higher
        · obtain ⟨named, first⟩ := h.first _ _ held
          exact ⟨named, h.sound _ _ held, first.cons fun _ => Int32.le_of_eq same⟩
      refine ⟨?_, ?_, ?_, ?_⟩
      · intro id (none_ : Function.update m.byId entry.id (some next) id = none) e mem
        by_cases same : id = entry.id
        · rw [same, Function.update_self] at none_
          cases none_
        · rw [Function.update_of_ne same] at none_
          cases List.mem_cons.1 mem with
          | inl new => exact new ▸ Ne.symm same
          | inr old => exact h.absent id none_ e old
      · intro id e (here : Function.update m.byId entry.id (some next) id = some e)
        by_cases same : id = entry.id
        · rw [same, Function.update_self] at here
          cases here
          exact ⟨arrived.1.trans same.symm, arrived.2.2⟩
        · rw [Function.update_of_ne same] at here
          obtain ⟨named, first⟩ := h.first id e here
          exact ⟨named, first.cons fun eq => absurd (named.symm.trans eq.symm) same⟩
      · intro id e (here : Function.update m.byId entry.id (some next) id = some e)
        by_cases same : id = entry.id
        · rw [same, Function.update_self] at here
          cases here
          exact arrived.2.1
        · rw [Function.update_of_ne same] at here
          exact h.sound id e here
      · intro u f held
        cases waiting_of_update _ held with
        | inl new => cases new
        | inr old => exact h.waiting u f old

theorem settled (run : system.History past m) : Settled past m :=
  run.invariant (fun _ init => .start init) fun _ _ _ _ _ h st => h.step st

/-- One step lets no entry go back or change at its generation. -/
theorem Step.grows (st : Step m a n) : Grows m.byId n.byId := by
  cases st with
  | refused _ _ => exact .refl _
  | checked _ _ => exact .refl _
  | stale _ _ => exact .refl _
  | @held t entry next _ ok =>
      intro id e here
      by_cases same : id = entry.id
      · subst same
        rw [here] at ok
        refine ⟨next, Function.update_self .., ?_⟩
        obtain ⟨none_, _⟩ | ⟨top, held, ⟨higher, rfl⟩ | ⟨_, rfl⟩⟩ := remap_ok ok
        · cases none_
        · cases held
          refine ⟨Int32.le_of_lt higher, fun eq => ?_⟩
          exact absurd (eq ▸ higher) Int32.lt_irrefl
        · cases held
          exact ⟨Int32.le_refl _, fun _ => rfl⟩
      · exact ⟨e, (Function.update_of_ne same ..).trans here, Int32.le_refl _, fun _ => rfl⟩

theorem grows (run : (system.startingAt m).History past n) : Grows m.byId n.byId :=
  run.invariant (P := fun _ s => Grows m.byId s.byId) (fun _ same => same ▸ .refl _)
    fun _ _ _ _ _ h st => h.trans (Step.grows st)

/-- An answer that refuses a call. -/
def refuses : RegistryEvent → Prop
  | .refused .. => True
  | .stale .. => True
  | _ => False

end Registry

end Hx.Send
