import Hx.Policy.Distress
import Hx.Send.Request

/-!
# The host a distressed target is recorded under

The send path records an issued frame under the `target_host` it was spelled with, while the
policy compares hosts by their fold. So a host whose spelling varies has several windows.
-/

namespace Hx.Send

open Hx.Java Hx.Bridge Hx.Policy

structure SendFrame where
  header : Header
  body : List UInt8

/-- How the transport ended: it threw after some time, or it came back. -/
inductive Transport where
  | threw (elapsedMs : Int64)
  | replied (status : Int) (ms : Int64) (connectionError : Bool)

/-- An issued frame, how it ended and when that was recorded. -/
structure Exchange where
  frame : SendFrame
  nowUs : Int64
  transport : Transport

/-- What `decideAndIssue` records of a request that was issued. -/
def recordTransport (S : DistressSettings) (d : Distress) (nowUs : Int64) (host : JString) :
    Transport → Distress
  | .threw elapsedMs => d.record S nowUs host 0 elapsedMs true
  | .replied status ms connectionError => d.record S nowUs host status ms connectionError

/-- A frame that does not parse is answered, and nothing is issued. -/
def issueFrame (S : DistressSettings) (d : Distress) (x : Exchange) : Distress :=
  match parse x.frame.header x.frame.body with
  | .error _ => d
  | .ok req => recordTransport S d x.nowUs req.host x.transport

def issueAll (S : DistressSettings) (d : Distress) (xs : List Exchange) : Distress :=
  xs.foldl (issueFrame S) d

/-- The host a frame is issued to. -/
def SendFrame.host (f : SendFrame) : JString :=
  match parse f.header f.body with
  | .error _ => []
  | .ok req => req.host

def SendFrame.Accepted (f : SendFrame) : Prop := ∃ req, parse f.header f.body = .ok req

variable (U : CaseMap)

/-- The frame with another `target_host`; the last value of a key is the one that counts. -/
def SendFrame.respelled (f : SendFrame) (host : JString) : SendFrame :=
  { f with header := f.header ++ [(js "target_host", .string host)] }

def SendFrame.lowered (f : SendFrame) : SendFrame := f.respelled (lower U f.host)

def Exchange.lowered (x : Exchange) : Exchange := { x with frame := x.frame.lowered U }

/-- Whatever comes of the frames, the run stops as it would with every host lower-cased. -/
def StopsAlike (frames : List SendFrame) : Prop :=
  ∀ (S : DistressSettings) (xs : List Exchange), xs.map Exchange.frame = frames →
    (issueAll S {} (xs.map (Exchange.lowered U))).stop.isSome = (issueAll S {} xs).stop.isSome

/-- No host is spelled in two ways. -/
def SpelledOnce (frames : List SendFrame) : Prop :=
  ∀ f ∈ frames, ∀ g ∈ frames, lower U f.host = lower U g.host → f.host = g.host

/-! ## Frames with another host -/

section Respelled

variable {U} {f : SendFrame} {host host' : JString} {header : Header} {req : HxRequest}

theorem get_respelled (key : JString) :
    Header.get (header ++ [(js "target_host", .string host)]) key =
      if key = js "target_host" then some (.string host) else header.get key := by
  rw [Header.get, List.reverse_append, List.reverse_singleton, List.singleton_append,
    List.lookup_cons]
  by_cases same : key = js "target_host"
  · rw [if_pos same, beq_iff_eq.2 same]
  · rw [if_neg same, beq_eq_false_iff_ne.2 same]
    rfl

theorem targetHost_respelled (some_ : host ≠ []) :
    targetHost (header ++ [(js "target_host", .string host)]) = some host := by
  rw [targetHost, get_respelled, if_pos rfl]
  exact if_neg fun empty => some_ (List.isEmpty_iff.1 empty)

theorem tlsOf_respelled : tlsOf (header ++ [(js "target_host", .string host)]) = tlsOf header := by
  have other : js "tls" ≠ js "target_host" := by decide
  rw [tlsOf, get_respelled, if_neg other, tlsOf]

theorem targetPort_respelled :
    targetPort (header ++ [(js "target_host", .string host)]) = targetPort header := by
  have other : js "target_port" ≠ js "target_host" := by decide
  rw [targetPort, get_respelled, if_neg other, tlsOf_respelled, targetPort]

/-- A request is made with the host it is given, or not at all. -/
theorem requestOf_host (host' : JString) {tls : Bool} {port : Int64} {line : JString}
    {fields : List JString} {body : List UInt8} (made : requestOf tls host port line fields body = .ok req) :
    req.host = host ∧ ∃ req', requestOf tls host' port line fields body = .ok req' ∧
      req'.host = host' := by
  rw [requestOf] at made ⊢
  split at made
  · split at made
    · contradiction
    · rename_i origin
      rw [if_neg origin]
      split at made
      · contradiction
      · cases made
        exact ⟨rfl, _, rfl, rfl⟩
  · contradiction

theorem parse_respelled {body : List UInt8} (parsed : parse header body = .ok req)
    (some_ : host' ≠ []) : req.host ≠ [] ∧
      ∃ req', parse (header ++ [(js "target_host", .string host')]) body = .ok req' ∧
        req'.host = host' := by
  rw [parse] at parsed
  rw [parse, targetHost_respelled some_, targetPort_respelled, tlsOf_respelled]
  split at parsed
  · contradiction
  · rename_i host named
    simp only at parsed ⊢
    split at parsed
    · contradiction
    · rename_i port
      rw [if_neg port]
      split at parsed
      · split at parsed
        · contradiction
        · rename_i line
          rw [if_neg line]
          obtain ⟨same, made⟩ := requestOf_host host' parsed
          refine ⟨?_, made⟩
          rw [same]
          rw [targetHost] at named
          split at named
          · split at named
            · contradiction
            · rename_i nonempty
              cases named
              exact fun empty => nonempty (List.isEmpty_iff.2 empty)
          · contradiction
      · contradiction

theorem units_ne_nil (c : CodePoint) : units c ≠ [] := by
  rw [units]
  split
  · exact List.cons_ne_nil _ _
  · exact List.cons_ne_nil _ _

theorem lower_ne_nil {s : JString} (some_ : s ≠ []) : lower U s ≠ [] := by
  cases s with
  | nil => exact absurd rfl some_
  | cons high rest =>
      cases rest with
      | nil => exact units_ne_nil _
      | cons low rest =>
          rw [lower]
          split
          · exact List.append_ne_nil_of_left_ne_nil (units_ne_nil _) _
          · exact List.append_ne_nil_of_left_ne_nil (units_ne_nil _) _

theorem host_of_parse (parsed : parse f.header f.body = .ok req) : f.host = req.host := by
  rw [SendFrame.host, parsed]

/-- The lower-cased frame is issued to the lower-cased host. -/
theorem lowered_accepted (accepted : f.Accepted) :
    (f.lowered U).Accepted ∧ (f.lowered U).host = lower U f.host := by
  obtain ⟨req, parsed⟩ := accepted
  have some_ : req.host ≠ [] := (parse_respelled parsed (List.cons_ne_nil 0 [])).1
  have named : lower U f.host ≠ [] := by
    rw [host_of_parse parsed]
    exact lower_ne_nil some_
  obtain ⟨_, req', parsed', host⟩ := parse_respelled parsed named
  have again : parse (f.lowered U).header (f.lowered U).body = .ok req' := parsed'
  exact ⟨⟨req', again⟩, (host_of_parse again).trans host⟩

end Respelled

/-! ## One spelling for each host -/

section Once

variable {U} {S : DistressSettings} {frames : List SendFrame} {d e : Distress} {x : Exchange}
  {xs : List Exchange}

theorem issueFrame_eq (accepted : x.frame.Accepted) :
    issueFrame S d x = recordTransport S d x.nowUs x.frame.host x.transport := by
  obtain ⟨req, parsed⟩ := accepted
  rw [issueFrame, parsed, host_of_parse parsed]

/-- Where every host has one spelling, the lower-cased run keeps the same windows under
other names. -/
theorem mirrors_issueAll (once : SpelledOnce U frames)
    (issued : ∀ x ∈ xs, x.frame ∈ frames ∧ x.frame.Accepted)
    (mirrors : Distress.Mirrors (lower U) (frames.map SendFrame.host) d e) :
    Distress.Mirrors (lower U) (frames.map SendFrame.host) (issueAll S d xs)
      (issueAll S e (xs.map (Exchange.lowered U))) := by
  have apart : ∀ a ∈ frames.map SendFrame.host, ∀ b ∈ frames.map SendFrame.host,
      lower U a = lower U b → a = b := by
    intro a memA b memB same
    obtain ⟨f, amongF, rfl⟩ := List.mem_map.1 memA
    obtain ⟨g, amongG, rfl⟩ := List.mem_map.1 memB
    exact once f amongF g amongG same
  induction xs generalizing d e with
  | nil => exact mirrors
  | cons x xs ih =>
      obtain ⟨among, accepted⟩ := issued x List.mem_cons_self
      obtain ⟨accepted', host⟩ := lowered_accepted (U := U) accepted
      have mem : x.frame.host ∈ frames.map SendFrame.host := List.mem_map_of_mem among
      have next : Distress.Mirrors (lower U) (frames.map SendFrame.host) (issueFrame S d x)
          (issueFrame S e (x.lowered U)) := by
        rw [issueFrame_eq accepted, issueFrame_eq (x := x.lowered U) accepted']
        have spelled : (x.lowered U).frame.host = lower U x.frame.host := host
        rw [spelled]
        cases ended : x.transport with
        | threw elapsedMs =>
            have same : (x.lowered U).transport = .threw elapsedMs := ended
            rw [same]
            exact mirrors.record apart mem _ _ _ _
        | replied status ms connectionError =>
            have same : (x.lowered U).transport = .replied status ms connectionError := ended
            rw [same]
            exact mirrors.record apart mem _ _ _ _
      exact ih (fun y mem => issued y (List.mem_cons_of_mem _ mem)) next

end Once

/-! ## Two spellings of one host -/

/-- A host that answers at once. -/
def fine (f : SendFrame) : Exchange := ⟨f, 0, .replied 200 0 false⟩

/-- A host that does not answer. -/
def lost (f : SendFrame) : Exchange := ⟨f, 0, .threw 0⟩

theorem calm_fivefold (p50 baseline : Int64) (positive : 1 ≤ baseline.toInt)
    (le : p50.toInt ≤ baseline.toInt) :
    decide (5 * baseline.toInt < p50.toInt) = false :=
  decide_eq_false (by omega)

/-- The defaults. -/
def deployedDistress : DistressSettings where
  above5xx fivexx answered := answered < 5 * fivexx
  aboveBaseline p50 baseline := 5 * baseline.toInt < p50.toInt
  maxConsecutiveErrors := 5
  windowRequests := 50
  windowMs := 60000
  baselineRequests := 10
  latencyFloorMs := 250
  calm5xx _ := decide_eq_false (Nat.not_lt_zero _)
  calmBaseline := calm_fivefold
  errors := by decide
  requests := by decide
  window := by decide
  baseline := by decide
  floor := by decide

theorem two_errors : 1 ≤ 2 ∧ 2 ≤ 1000 := by decide

/-- The defaults, except that two connection errors in a row are enough. -/
def twoErrors : DistressSettings :=
  { deployedDistress with maxConsecutiveErrors := 2, errors := two_errors }

section Twice

variable {U} {S : DistressSettings} {frames l : List SendFrame} {f : SendFrame} {d : Distress}

theorem issueAll_append (xs ys : List Exchange) :
    issueAll S d (xs ++ ys) = issueAll S (issueAll S d xs) ys := List.foldl_append

theorem issueFrame_fine (accepted : f.Accepted) (calm : d.Calm) :
    (issueFrame S d (fine f)).Calm ∧ ∀ host, (issueFrame S d (fine f)).streak host =
      if host = f.host then 0 else d.streak host := by
  obtain ⟨_, keeps, streak⟩ := calm.record (S := S) f.host 200 (by decide) false
  rw [issueFrame_eq (x := fine f) accepted]
  exact ⟨keeps fun trips => Bool.false_ne_true trips.1, streak⟩

theorem issueFrame_lost (accepted : f.Accepted) (calm : d.Calm) :
    ((issueFrame S d (lost f)).stop.isSome = true ↔
      S.maxConsecutiveErrors ≤ d.streak f.host + 1) ∧
    (¬ S.maxConsecutiveErrors ≤ d.streak f.host + 1 → (issueFrame S d (lost f)).Calm) ∧
    ∀ host, (issueFrame S d (lost f)).streak host =
      if host = f.host then d.streak f.host + 1 else d.streak host := by
  obtain ⟨trips, keeps, streak⟩ := calm.record (S := S) f.host 0 (by decide) true
  rw [issueFrame_eq (x := lost f) accepted]
  exact ⟨trips.trans (and_iff_right rfl), fun few => keeps fun both => few both.2, streak⟩

/-- Answers keep the calm, and the streak of every other host. -/
theorem issueAll_fine (accepted : ∀ f ∈ l, f.Accepted) (calm : d.Calm) :
    (issueAll S d (l.map fine)).Calm ∧
      (∀ host, d.streak host = 0 → (issueAll S d (l.map fine)).streak host = 0) ∧
      ∀ host, (∀ f ∈ l, f.host ≠ host) →
        (issueAll S d (l.map fine)).streak host = d.streak host := by
  induction l generalizing d with
  | nil => exact ⟨calm, fun _ none_ => none_, fun _ _ => rfl⟩
  | cons f l ih =>
      obtain ⟨calm', streak⟩ := issueFrame_fine (S := S) (accepted f List.mem_cons_self) calm
      obtain ⟨calm'', zero, same⟩ := ih (fun g mem => accepted g (List.mem_cons_of_mem _ mem)) calm'
      refine ⟨calm'', ?_, ?_⟩
      · intro host none_
        apply zero host
        rw [streak, none_, ite_self]
      · intro host others
        have differs : host ≠ f.host := fun own => others f List.mem_cons_self own.symm
        have kept := same host fun g mem => others g (List.mem_cons_of_mem _ mem)
        rw [streak, if_neg differs] at kept
        exact kept

theorem issueAll_stopped (xs : List Exchange) (stopped : d.stop.isSome = true) :
    issueAll S d xs = d := by
  induction xs with
  | nil => rfl
  | cons x xs ih =>
      have first : issueFrame S d x = d := by
        rw [issueFrame]
        split
        · rfl
        · cases x.transport with
          | threw elapsedMs => exact Distress.record_of_stopped stopped
          | replied status ms connectionError => exact Distress.record_of_stopped stopped
      have next : issueAll S d (x :: xs) = issueAll S (issueFrame S d x) xs := rfl
      rw [next, first]
      exact ih

/-- The first frame that spells the host of an earlier one in another way, and the last
frame before it to that host. -/
theorem exists_twice (twice : ¬ SpelledOnce U frames) :
    ∃ before f between g later, frames = before ++ f :: (between ++ g :: later) ∧
      lower U f.host = lower U g.host ∧ f.host ≠ g.host ∧
      ∀ m ∈ between, lower U m.host ≠ lower U f.host := by
  induction frames with
  | nil => exact absurd (fun _ mem => absurd mem List.not_mem_nil) twice
  | cons x rest ih =>
      by_cases once : SpelledOnce U rest
      · have other : ∃ y ∈ rest, lower U y.host = lower U x.host ∧ y.host ≠ x.host := by
          by_contra none_
          have same : ∀ y ∈ rest, lower U y.host = lower U x.host → y.host = x.host := by
            intro y mem fold
            by_contra differs
            exact none_ ⟨y, mem, fold, differs⟩
          refine twice ?_
          intro a memA b memB fold
          rcases List.mem_cons.1 memA with rfl | inA
          · rcases List.mem_cons.1 memB with rfl | inB
            · rfl
            · exact (same b inB fold.symm).symm
          · rcases List.mem_cons.1 memB with rfl | inB
            · exact same a inA fold
            · exact once a inA b inB fold
        obtain ⟨y, mem, fold, differs⟩ := other
        obtain ⟨g, found⟩ := Option.isSome_iff_exists.1
          (List.find?_isSome (p := fun y => decide (lower U y.host = lower U x.host)) |>.2
            ⟨y, mem, decide_eq_true fold⟩)
        obtain ⟨first, between, later, split_, none_⟩ := List.find?_eq_some_iff_append.1 found
        have foldG : lower U g.host = lower U x.host := of_decide_eq_true first
        have amongG : g ∈ rest := List.mem_of_find?_eq_some found
        refine ⟨[], x, between, g, later, ?_, foldG.symm, ?_, ?_⟩
        · rw [split_]
          rfl
        · intro same
          exact differs ((once y mem g amongG (fold.trans foldG.symm)).trans same.symm)
        · intro m among same
          have no := none_ m among
          rw [Bool.not_eq_true', decide_eq_false_iff_not] at no
          exact no same
      · obtain ⟨before, f, between, g, later, split_, rest_⟩ := ih once
        exact ⟨x :: before, f, between, g, later, congrArg (x :: ·) split_, rest_⟩

/-- Two hosts do not answer, all others do. -/
def script (before : List SendFrame) (f : SendFrame) (between : List SendFrame) (g : SendFrame)
    (later : List SendFrame) : List Exchange :=
  before.map fine ++ lost f :: (between.map fine ++ lost g :: later.map fine)

theorem map_frame_script (before : List SendFrame) (f : SendFrame) (between : List SendFrame)
    (g : SendFrame) (later : List SendFrame) :
    (script before f between g later).map Exchange.frame =
      before ++ f :: (between ++ g :: later) := by
  have frames : ∀ l : List SendFrame, (l.map fine).map Exchange.frame = l := by
    intro l
    rw [List.map_map]
    exact List.map_id'' (fun _ => rfl) l
  rw [script, List.map_append, List.map_cons, List.map_append, List.map_cons, frames, frames,
    frames]
  rfl

theorem map_lowered_script (before : List SendFrame) (f : SendFrame) (between : List SendFrame)
    (g : SendFrame) (later : List SendFrame) :
    (script before f between g later).map (Exchange.lowered U) =
      script (before.map (SendFrame.lowered U)) (f.lowered U) (between.map (SendFrame.lowered U))
        (g.lowered U) (later.map (SendFrame.lowered U)) := by
  have frames : ∀ l : List SendFrame, (l.map fine).map (Exchange.lowered U) =
      (l.map (SendFrame.lowered U)).map fine := by
    intro l
    rw [List.map_map, List.map_map]
    rfl
  rw [script, List.map_append, List.map_cons, List.map_append, List.map_cons, frames, frames,
    frames]
  rfl

/-- Two errors stop the run where they are one host's and nothing of that host came
between, and never where they are two hosts'. -/
theorem stop_script (before : List SendFrame) (f : SendFrame) (between : List SendFrame)
    (g : SendFrame) (later : List SendFrame)
    (accepted : ∀ m ∈ before ++ f :: (between ++ g :: later), m.Accepted) :
    (g.host = f.host → (∀ m ∈ between, m.host ≠ f.host) →
      (issueAll twoErrors {} (script before f between g later)).stop.isSome = true) ∧
    (g.host ≠ f.host →
      (issueAll twoErrors {} (script before f between g later)).stop.isSome = false) := by
  obtain ⟨acceptedBefore, tail⟩ := List.forall_mem_append.1 accepted
  obtain ⟨acceptedF, tail⟩ := List.forall_mem_cons.1 tail
  obtain ⟨acceptedBetween, tail⟩ := List.forall_mem_append.1 tail
  obtain ⟨acceptedG, acceptedLater⟩ := List.forall_mem_cons.1 tail
  have calm : Distress.Calm {} := ⟨rfl, fun _ _ mem => absurd mem List.not_mem_nil⟩
  have two : twoErrors.maxConsecutiveErrors = 2 := rfl
  obtain ⟨calm₁, zero₁, _⟩ := issueAll_fine (S := twoErrors) acceptedBefore calm
  obtain ⟨_, keeps₂, streak₂⟩ := issueFrame_lost (S := twoErrors) acceptedF calm₁
  rw [zero₁ f.host rfl] at keeps₂ streak₂
  have calm₂ := keeps₂ (by rw [two]; decide)
  obtain ⟨calm₃, zero₃, same₃⟩ := issueAll_fine (S := twoErrors) acceptedBetween calm₂
  obtain ⟨trips₄, keeps₄, _⟩ := issueFrame_lost (S := twoErrors) acceptedG calm₃
  have steps : issueAll twoErrors {} (script before f between g later) =
      issueAll twoErrors (issueFrame twoErrors (issueAll twoErrors (issueFrame twoErrors
        (issueAll twoErrors {} (before.map fine)) (lost f)) (between.map fine)) (lost g))
          (later.map fine) :=
    (issueAll_append _ _).trans (issueAll_append _ _)
  rw [steps]
  constructor
  · intro same others
    have one := same₃ f.host others
    rw [streak₂, if_pos rfl, ← same] at one
    have stopped := trips₄.2 (by rw [one, two])
    rw [issueAll_stopped _ stopped]
    exact stopped
  · intro differs
    have quiet := zero₃ g.host (by rw [streak₂, if_neg differs, zero₁ g.host rfl])
    have calm₄ := keeps₄ (by rw [quiet, two]; decide)
    rw [(issueAll_fine (S := twoErrors) acceptedLater calm₄).1.stop]
    rfl

/-- The runs of the frames stop alike, whatever comes of the frames, exactly where no host
is spelled in two ways. -/
theorem stops_alike_iff (accepted : ∀ f ∈ frames, f.Accepted) :
    StopsAlike U frames ↔ SpelledOnce U frames := by
  constructor
  · intro alike
    by_contra twice
    obtain ⟨before, f, between, g, later, rfl, fold, differs, others⟩ := exists_twice twice
    have spelled := (stop_script before f between g later accepted).2 differs.symm
    have lowered := alike twoErrors _ (map_frame_script before f between g later)
    rw [map_lowered_script, spelled] at lowered
    have lowers : ∀ m ∈ before ++ f :: (between ++ g :: later),
        (m.lowered U).Accepted ∧ (m.lowered U).host = lower U m.host := fun m mem =>
      lowered_accepted (accepted m mem)
    have accepted' : ∀ m ∈ (before ++ f :: (between ++ g :: later)).map (SendFrame.lowered U),
        m.Accepted := by
      intro m mem
      obtain ⟨n, among, rfl⟩ := List.mem_map.1 mem
      exact (lowers n among).1
    rw [List.map_append, List.map_cons, List.map_append, List.map_cons] at accepted'
    obtain ⟨_, tail⟩ := List.forall_mem_append.1 lowers
    obtain ⟨ofF, tail⟩ := List.forall_mem_cons.1 tail
    obtain ⟨ofBetween, tail⟩ := List.forall_mem_append.1 tail
    obtain ⟨ofG, _⟩ := List.forall_mem_cons.1 tail
    have same : (g.lowered U).host = (f.lowered U).host := by
      rw [ofG.2, ofF.2, fold]
    have apart : ∀ m ∈ between.map (SendFrame.lowered U), m.host ≠ (f.lowered U).host := by
      intro m mem
      obtain ⟨n, among, rfl⟩ := List.mem_map.1 mem
      rw [(ofBetween n among).2, ofF.2]
      exact others n among
    rw [(stop_script _ _ _ _ _ accepted').1 same apart] at lowered
    contradiction
  · rintro once S xs rfl
    have issued : ∀ x ∈ xs, x.frame ∈ xs.map Exchange.frame ∧ x.frame.Accepted := fun x mem =>
      ⟨List.mem_map_of_mem mem, accepted _ (List.mem_map_of_mem mem)⟩
    have start : Distress.Mirrors (lower U) ((xs.map Exchange.frame).map SendFrame.host) {} {} :=
      ⟨fun _ _ => rfl, rfl⟩
    exact (mirrors_issueAll once issued start).stop

/-- A request for the root of a host. -/
def rootFrame (host : String) : SendFrame :=
  ⟨[(js "target_host", .string (js host))], latin1Bytes (js "GET / HTTP/1.1" ++ crlf ++ crlf)⟩

theorem accepted_of_isOk (ok : (parse f.header f.body).isOk = true) : f.Accepted := by
  cases parsed : parse f.header f.body with
  | error e =>
      rw [parsed] at ok
      contradiction
  | ok req => exact ⟨req, parsed⟩

/-- Five connection errors of one host stop the run, unless two spellings share them. -/
theorem spelled_apart :
    (issueAll deployedDistress {} (["Shop.test", "shop.test", "Shop.test", "shop.test",
      "Shop.test"].map fun host => lost (rootFrame host))).stop.isSome = false ∧
    ¬ StopsAlike basicCase (["Shop.test", "shop.test", "Shop.test", "shop.test",
      "Shop.test"].map rootFrame) := by
  refine ⟨by decide +kernel, fun alike => ?_⟩
  have same := alike deployedDistress (["Shop.test", "shop.test", "Shop.test", "shop.test",
      "Shop.test"].map fun host => lost (rootFrame host)) rfl
  revert same
  decide +kernel

/-- A run that spells its host in one way stops as it would in lower case. -/
theorem spelled_alike :
    StopsAlike basicCase (["Shop.test", "cdn.test", "Shop.test"].map rootFrame) := by
  have accepted : ∀ f ∈ ["Shop.test", "cdn.test", "Shop.test"].map rootFrame,
      (parse f.header f.body).isOk = true := by decide +kernel
  have once : ∀ f ∈ ["Shop.test", "cdn.test", "Shop.test"].map rootFrame,
      ∀ g ∈ ["Shop.test", "cdn.test", "Shop.test"].map rootFrame,
        lower basicCase f.host = lower basicCase g.host → f.host = g.host := by decide +kernel
  exact (stops_alike_iff fun f mem => accepted_of_isOk (accepted f mem)).2 once

end Twice

end Hx.Send
