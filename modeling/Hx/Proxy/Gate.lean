import Hx.Proxy.Capture
import Hx.Send.Connection
import Hx.Send.Limits

/-!
# The gate of the proxy

A proxied request is attributed to the operator or to the crawler by the port of the listener it
came in on, which the harness drew when it started Burp. The crawler is held to the whole policy
and spends from the run's budget; the operator is held to the scope and spends nothing; what cannot
be attributed does not pass.
-/

namespace Hx.Proxy

open Hx.Java Hx.Bridge Hx.Policy Hx.Send

/-- `NO_PORT`. -/
def noPort : Nat := 0

/-- `Source.forListenerPort`. -/
def forListenerPort (port crawlerPort : Nat) : Source :=
  if port < 1 ∨ 65535 < port then .unattributed
  else if port = crawlerPort then .crawler
  else .operator

/-- `HxExtension.listenerPort`: the digits behind the last colon, five at most. -/
def listenerPort : Option JString → Nat
  | none => noPort
  | some listenerInterface =>
      match lastIndexOf colon listenerInterface with
      | none => noPort
      | some at' =>
          let tail := listenerInterface.drop (at' + 1)
          if tail.isEmpty || tail.any (fun c => c < ch '0' || ch '9' < c) || 5 < tail.length then
            noPort
          else tail.foldl (fun n c => n * 10 + (c.val - 48)) 0

/-- `EXTENSION_FAULT`. -/
def extensionFault : JString := js "extension fault: "

structure Verdict where
  allow : Bool
  errorClass : Option JString
  detail : Option JString

def Verdict.pass : Verdict := ⟨true, none, none⟩

def Verdict.refuse (errorClass detail : JString) : Verdict :=
  ⟨false, some errorClass, some detail⟩

/-- `Verdict.deny`, unless the decision allows. -/
def Verdict.of (d : Decision) : Verdict :=
  if d.allowed then .pass else ⟨false, d.errorClass, d.detail⟩

namespace ProxyGate

variable (U : CaseMap)

/-- `decide`, and the limits afterwards: of the two sources only the crawler comes to the gate, and
only with a request that the policy allowed up to there. -/
def decide (limits : Limits) (now : Int64) (req : HxRequest) (auth : Authorisation) :
    Source → Verdict × Limits
  | .unattributed =>
      (if auth.epoch = 0 then
        .refuse (js "not_configured") (js "no configure frame acknowledged yet")
      else .refuse (js "not_configured") (extensionFault ++
        js "the proxy listener could not be attributed to the operator or the crawler"), limits)
  | .crawler =>
      if auth.epoch = 0 then
        (.refuse (js "not_configured") (js "no configure frame acknowledged yet"), limits)
      else if !(beforeGate U req auth true).allowed then
        (.of (beforeGate U req auth true), limits)
      else
        let gate := limits.check now
        (.of (checkGate (.decides gate.1)), gate.2)
  | .operator =>
      if auth.epoch = 0 then
        (.refuse (js "not_configured") (js "no configure frame acknowledged yet"), limits)
      else (.of (decideScopeOnly U req auth), limits)

/-- `handleRequestReceived` up to its verdict: the limits are armed first, and what is thrown is a
refusal. -/
def received (D : DigitMap) (limits : Limits) (armed now : Int64) (req : HxRequest)
    (auth : Authorisation) (source : Source) : Verdict × Limits :=
  match limits.arm D auth armed with
  | (.error thrown, limits) =>
      (.refuse (js "not_configured")
        (extensionFault ++ js "the proxy request handler threw: " ++
          js "java.lang.IllegalArgumentException: " ++ thrown), limits)
  | (.ok _, limits) => decide U limits now req auth source

variable {U} {D : DigitMap} {limits next : Limits} {armed now : Int64} {req : HxRequest}
  {auth : Authorisation} {source : Source} {verdict : Verdict}

theorem Verdict.of_allow {d : Decision} : (Verdict.of d).allow = d.allowed := by
  rw [Verdict.of]
  split
  · rename_i allowed
    exact allowed.symm
  · rename_i refused
    exact (Bool.not_eq_true _ ▸ refused).symm

/-- Deciding is a crawler's check behind what allows it that far, or it spends nothing. -/
theorem decide_cases (h : decide U limits now req auth source = (verdict, next)) :
    (source = .crawler ∧ auth.epoch ≠ 0 ∧ (beforeGate U req auth true).allowed = true ∧
      next = (limits.check now).2 ∧ verdict.allow = (limits.check now).1.allowed) ∨
    (next = limits ∧ (verdict.allow = true → source = .operator ∧ auth.epoch ≠ 0 ∧
      (decideScopeOnly U req auth).allowed = true)) := by
  cases source with
  | unattributed =>
      obtain ⟨rfl, rfl⟩ := Prod.mk.inj h
      refine .inr ⟨rfl, fun allow => ?_⟩
      split at allow
      · cases allow
      · cases allow
  | crawler =>
      rw [decide] at h
      split at h
      · obtain ⟨rfl, rfl⟩ := Prod.mk.inj h
        exact .inr ⟨rfl, nofun⟩
      · rename_i nonzero
        split at h
        · rename_i refused
          obtain ⟨rfl, rfl⟩ := Prod.mk.inj h
          refine .inr ⟨rfl, fun allow => ?_⟩
          rw [Verdict.of_allow] at allow
          rw [allow] at refused
          cases refused
        · rename_i allowed
          obtain ⟨rfl, rfl⟩ := Prod.mk.inj h
          exact .inl ⟨rfl, nonzero, by simpa using allowed, rfl, Verdict.of_allow⟩
  | operator =>
      rw [decide] at h
      split at h
      · obtain ⟨rfl, rfl⟩ := Prod.mk.inj h
        exact .inr ⟨rfl, nofun⟩
      · rename_i nonzero
        obtain ⟨rfl, rfl⟩ := Prod.mk.inj h
        exact .inr ⟨rfl, fun allow => ⟨rfl, nonzero, Verdict.of_allow ▸ allow⟩⟩

end ProxyGate

/-! ## The two listeners -/

/-- `_PORT_DRAWS`. -/
def portDraws : Nat := 8

/-- `second_port or _free_port()`. -/
def secondPort (second drawn : Nat) : Nat := if second = 0 then drawn else second

/-- How many ports a turn draws. -/
def drawsPerTurn (second : Nat) : Nat := if second = 0 then 2 else 1

/-- The turns of `write_listener_config`: the operator's port and the crawler's, of the ports that
`_free_port` answers one after another. -/
def drawPorts (second : Nat) : Nat → (Nat → Nat) → Option (Nat × Nat)
  | 0, _ => none
  | turns + 1, draw =>
      if draw 0 ≠ secondPort second (draw 1) then some (draw 0, secondPort second (draw 1))
      else drawPorts second turns fun k => draw (k + drawsPerTurn second)

/-- `write_listener_config`, `none` where it raises. A `second_port` of 0 is to be drawn too. -/
def writeListenerConfig (second : Nat) (draw : Nat → Nat) : Option (Nat × Nat) :=
  drawPorts second portDraws draw

/-- The `listenerInterface` of a request that came in on a port. -/
def interfaceOf (host : JString) (port : Nat) : JString := host ++ colon :: numberText port

/-- The source of a request, as `handleRequestReceived` has it. -/
def sourceOf (crawlerPort : Nat) (listenerInterface : Option JString) : Source :=
  forListenerPort (listenerPort listenerInterface) crawlerPort

variable {U : CaseMap} {D : DigitMap} {second port turns operator crawler : Nat} {draw : Nat → Nat}
  {host : JString}

theorem drawPorts_cases (drawn : drawPorts second turns draw = some (operator, crawler)) :
    operator ≠ crawler ∧ (∃ k, operator = draw k) ∧
      ((∃ k, crawler = draw k) ∨ crawler = second ∧ second ≠ 0) := by
  induction turns generalizing draw with
  | zero => cases drawn
  | succ turns ih =>
      rw [drawPorts] at drawn
      split at drawn
      · rename_i different
        obtain ⟨first, last⟩ := Prod.mk.inj (Option.some.inj drawn)
        rw [← first, ← last]
        refine ⟨different, ⟨0, rfl⟩, ?_⟩
        by_cases asked : second = 0
        · exact .inl ⟨1, if_pos asked⟩
        · exact .inr ⟨if_neg asked, asked⟩
      · obtain ⟨different, ⟨k, first⟩, rest⟩ := ih drawn
        refine ⟨different, ⟨_, first⟩, ?_⟩
        obtain ⟨k, later⟩ | asked := rest
        · exact .inl ⟨_, later⟩
        · exact .inr asked

theorem colon_numberText : colon ∉ numberText port := by
  intro mem
  have digit := isDigit_numberText mem
  exact absurd digit (by decide)

/-- The port behind the last colon is read as it was written. -/
theorem listenerPort_interfaceOf (small : port ≤ 65535) :
    listenerPort (some (interfaceOf host port)) = port := by
  have digits : ∀ c ∈ numberText port, (decide (c < ch '0') || decide (ch '9' < c)) = false := by
    intro c mem
    have digit := isDigit_numberText mem
    rw [isDigit, Bool.and_eq_true, decide_eq_true_eq, decide_eq_true_eq] at digit
    rw [Bool.or_eq_false_iff, decide_eq_false_iff_not, decide_eq_false_iff_not]
    exact ⟨fun low => absurd (Fin.lt_def.1 low) (Nat.not_lt.2 digit.1),
      fun high => absurd (Fin.lt_def.1 high) (Nat.not_lt.2 digit.2)⟩
  have tail : (interfaceOf host port).drop (host.length + 1) = numberText port := by
    have front : (host ++ [colon]).length = host.length + 1 := List.length_append
    rw [interfaceOf, List.append_cons, ← front, List.drop_left]
  have fits := length_numberText_le small
  have none_ : (numberText port).isEmpty = false :=
    List.isEmpty_eq_false_iff.2 (numberText_ne_nil port)
  have plain : ((numberText port).any fun c => c < ch '0' || ch '9' < c) = false :=
    List.any_eq_false.2 fun c mem => by simp only [digits c mem, Bool.false_eq_true, not_false_iff]
  rw [listenerPort, interfaceOf, lastIndexOf_append colon_numberText]
  show (if _ then _ else _) = _
  rw [← interfaceOf, tail, none_, plain, decide_eq_false (Nat.not_lt.2 fits)]
  exact decimal_numberText port

theorem sourceOf_interfaceOf (valid : 1 ≤ port ∧ port ≤ 65535) :
    sourceOf crawler (some (interfaceOf host port)) = if port = crawler then .crawler
      else .operator := by
  rw [sourceOf, listenerPort_interfaceOf valid.2, forListenerPort, if_neg (by omega)]

/-- Who comes in on which port, and what it is held to. -/
structure Separated (U : CaseMap) (D : DigitMap) (operator crawler : Nat) : Prop where
  human : ∀ host, sourceOf crawler (some (interfaceOf host operator)) = .operator
  agent : ∀ host, sourceOf crawler (some (interfaceOf host crawler)) = .crawler
  /-- The operator is held to the scope alone, and spends nothing. -/
  heldToScope : ∀ host limits armed now req auth,
    auth.epoch ≠ 0 → (limits.arm D auth armed).1.isOk →
    ProxyGate.received U D limits armed now req auth
        (sourceOf crawler (some (interfaceOf host operator))) =
      (.of (decideScopeOnly U req auth), (limits.arm D auth armed).2)
  /-- What the crawler is let through with the whole policy allowed, and was spent. -/
  heldToPolicy : ∀ host limits armed now req auth,
    (ProxyGate.received U D limits armed now req auth
        (sourceOf crawler (some (interfaceOf host crawler)))).1.allow = true →
      (beforeGate U req auth true).allowed = true ∧
      ((limits.arm D auth armed).2.check now).1.allowed = true ∧
      (ProxyGate.received U D limits armed now req auth
          (sourceOf crawler (some (interfaceOf host crawler)))).2 =
        ((limits.arm D auth armed).2.check now).2

end Hx.Proxy
