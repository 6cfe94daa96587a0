import Hx.Bridge.Pushed
import Hx.Engagement.RoundTrip
import Hx.Send.Limits

/-!
# A configuration the extension is given

`config_body` lists what the extension is told of a configuration, `build_config_body` writes it,
and `ConfigBody.parse` reads it again. The first arm of a run then takes its rate, its burst and its
budget from it. The loader looks at none of what the writer, the reader and the limiter refuse.
-/

namespace Hx.Engagement

open Hx.Library Hx.Identity Hx.Java Hx.Bridge

/-! ## The body -/

/-- `str` of an integer, which raises a `ValueError` on too many digits. -/
def intText (n : ℤ) : Option Text :=
  if (decimal n.natAbs).length ≤ 4300 then some (text (toString n)) else none

/-- `METHOD_ALLOW`. -/
def methodAllow : List Text := [text "GET", text "HEAD", text "OPTIONS"]

section Body

variable {L : Lowering} (c : Config L)

/-- The entries of the body, over the texts of its numbers. -/
def bodyPairs (rate : Text) (burst : Option Text) (concurrency requests : Text) :
    List (Text × List Text) :=
  [(text "scope.include", c.scopeInclude.map Subtype.val),
    (text "scope.exclude", c.scopeExclude.map Subtype.val),
    (text "dangerous.path", c.dangerousPaths.map Subtype.val),
    (text "render.allow", c.renderAllow.map Subtype.val),
    (text "method.allow", methodAllow),
    (text "limit.rate_rps", [rate])] ++
  (burst.map fun b => (text "limit.rate_burst", [b])).toList ++
  [(text "limit.concurrency", [concurrency]), (text "limit.max_requests", [requests])]

/-- The keys of the body, with a burst and without one. -/
def bodyKeys (burst : Bool) : List Text :=
  [text "scope.include", text "scope.exclude", text "dangerous.path", text "render.allow",
    text "method.allow", text "limit.rate_rps"] ++
  (if burst then [text "limit.rate_burst"] else []) ++
  [text "limit.concurrency", text "limit.max_requests"]

theorem keys_bodyPairs (rate : Text) (burst : Option Text) (concurrency requests : Text) :
    (bodyPairs c rate burst concurrency requests).map Prod.fst = bodyKeys burst.isSome := by
  cases burst <;> rfl

theorem bodyKeys_unique : ∀ burst, (bodyKeys burst).Nodup := by decide

theorem bodyKeys_known : ∀ burst, ∀ key ∈ bodyKeys burst, key ∈ Codec.configKeys := by decide

theorem bodyPairs_unique (rate : Text) (burst : Option Text) (concurrency requests : Text) :
    ((bodyPairs c rate burst concurrency requests).map Prod.fst).Nodup := by
  rw [keys_bodyPairs]
  exact bodyKeys_unique _

/-- `config_body`, where no number is too long to be written. -/
def configBody : Option Codec.Pairs := do
  let rate ← intText c.rateLimitRps.1
  let burst ← c.rateBurst.elim (some none) fun burst => (intText burst.1).map some
  let concurrency ← intText c.maxConcurrency.1
  let requests ← intText c.maxRequests.1
  return ⟨bodyPairs c rate burst concurrency requests,
    bodyPairs_unique c rate burst concurrency requests⟩

/-- The patterns of the body. -/
def patterns : List NonBlank :=
  c.scopeInclude ++ c.scopeExclude ++ c.dangerousPaths ++ c.renderAllow

/-! ## What is accepted -/

/-- The limiter that is armed has the numbers of the configuration. -/
structure Enforces (limiter : Policy.Limiter) : Prop where
  rate : limiter.ratePerSecond.toInt = c.rateLimitRps.1
  burst : limiter.burst.toInt = (c.rateBurst.getD c.rateLimitRps).1
  requests : limiter.maxRequests.toInt = c.maxRequests.1

/-- A scope that a run which has not begun lets through, and that its first arm, whenever it comes,
holds the run to. -/
structure Begins (D : DigitMap) (scope : Scope) : Prop where
  guarded : Send.Limits.deployed.refuseIfLimitsMoved D scope = none
  armed : ∀ epoch nowUs, epoch ≠ 0 → ∃ limits limiter,
    Send.Limits.deployed.arm D ⟨epoch, scope⟩ nowUs = (.ok (), limits) ∧
      limits.limiter = some limiter ∧ Enforces c limiter

/-- The body of the configuration is written, read, guarded and armed. -/
def Accepted (D : DigitMap) (malformed : List UInt8 → JString) : Prop :=
  ∃ pairs bytes scope, configBody c = some pairs ∧
    Codec.buildConfigBody pairs = .ok bytes ∧
    ConfigBody.parse D (newString malformed bytes) = .ok scope ∧ Begins c D scope

/-- A pattern that stays on its line and has bytes. -/
structure Plain (pattern : Text) : Prop where
  tab : Codec.tab ∉ pattern
  newline : Codec.newline ∉ pattern
  scalars : Scalars pattern

/-- Patterns that can be written, and numbers the limiter takes. -/
structure Pushable : Prop where
  patterns : ∀ p ∈ patterns c, Plain p.1
  rate : c.rateLimitRps.1 ≤ 10000
  burst : ∀ burst, c.rateBurst = some burst → burst.1 ≤ 10000
  requests : c.maxRequests.1 ≤ 9223372036854775807
  concurrency : (decimal c.maxConcurrency.1.natAbs).length ≤ 4300

end Body

/-! ## Numbers -/

theorem intText_eq_some {n : ℤ} {t : Text} :
    intText n = some t ↔ (decimal n.natAbs).length ≤ 4300 ∧ text (toString n) = t := by
  rw [intText]
  split_ifs with short
  · exact ⟨fun same => ⟨short, Option.some.inj same⟩, fun both => congrArg some both.2⟩
  · exact iff_of_false nofun fun both => short both.1

/-- A `long` is not too long to be written. -/
theorem intText_of_fits {n : ℤ} (positive : 1 ≤ n) (fits : n ≤ 9223372036854775807) :
    intText n = some (text (toString n)) := by
  refine intText_eq_some.2 ⟨?_, rfl⟩
  have digits : (Nat.toDigits 10 n.natAbs).length ≤ 19 :=
    (Nat.length_toDigits_le_iff (by decide) (by decide)).2 (lt_of_le_of_lt
      (show n.natAbs ≤ 9223372036854775807 by omega) (by decide))
  rw [decimal, List.length_map]
  omega

theorem strip_eq {s : JString} (black : ∀ u ∈ s, Java.isWhitespace u = false) : JString.strip s = s := by
  have kept (t : JString) (all : ∀ u ∈ t, Java.isWhitespace u = false) :
      t.dropWhile Java.isWhitespace = t := by
    cases t with
    | nil => rfl
    | cons u t => rw [List.dropWhile_cons_of_neg (by simp [all u List.mem_cons_self])]
  have back : ∀ u ∈ s.reverse, Java.isWhitespace u = false := fun u mem =>
    black u (List.mem_reverse.1 mem)
  rw [JString.strip, kept s black, kept _ back, List.reverse_reverse]

/-- The extension reads a number as it was written. -/
theorem parseLong_written (D : DigitMap) {n : ℤ} (positive : 1 ≤ n)
    (fits : n ≤ 9223372036854775807) :
    parseLong D (JString.strip (utf16 (text (toString n)))) = some (Int64.ofInt n) := by
  obtain ⟨k, rfl⟩ := Int.eq_ofNat_of_zero_le (show 0 ≤ n by omega)
  have written : text (toString (k : ℤ)) = (decimal k).map chr := Python.Json.text_nat k
  have all : ∀ c ∈ (decimal k).map chr, Python.Json.isDigit c = true := by
    intro c mem
    obtain ⟨d, inside, rfl⟩ := List.mem_map.1 mem
    exact Python.Json.isDigit_chr (decimal_bounds inside)
  have some_ : (decimal k).map chr ≠ [] := fun none_ =>
    decimal_ne_nil k (List.map_eq_nil_iff.1 none_)
  have units : ∀ u ∈ utf16 ((decimal k).map chr), 48 ≤ u.val ∧ u.val ≤ 57 := by
    intro u mem
    obtain ⟨c, inside, unit⟩ := List.mem_flatMap.1 mem
    have bounds := isDigit_iff.1 (all c inside)
    have val := val_unit (n := c.val) (by omega)
    rw [units_small (by omega), List.mem_singleton] at unit
    rw [unit, val]
    exact bounds
  have black : ∀ u ∈ utf16 ((decimal k).map chr), Java.isWhitespace u = false := by
    intro u mem
    have bounds := units u mem
    simp only [Java.isWhitespace]
    simp
    omega
  have value : Python.Json.digitsValue ((decimal k).map chr) = k :=
    Python.Json.digitsValue_written k
  have read : magnitude D 9223372036854775807 (utf16 ((decimal k).map chr)) = some k :=
    (magnitude_utf16 D some_ all (value.le.trans (by omega))).trans (congrArg some value)
  rw [written, strip_eq black]
  cases same : utf16 ((decimal k).map chr) with
  | nil => exact absurd same (utf16_digits_ne some_)
  | cons first rest =>
      have bounds := units first (same ▸ List.mem_cons_self)
      have minus : first ≠ ch '-' := fun equal => absurd (equal ▸ bounds.1) (by decide)
      have plus : first ≠ ch '+' := fun equal => absurd (equal ▸ bounds.1) (by decide)
      rw [parseLong, if_neg minus, if_neg plus, if_neg (by omega), ← same, read]
      rfl

/-! ## What can be written -/

section Written

variable {L : Lowering} {c : Config L}

theorem configBody_eq_some {pairs : Codec.Pairs} (written : configBody c = some pairs) :
    ∃ rate burst requests, (decimal c.maxConcurrency.1.natAbs).length ≤ 4300 ∧
      pairs.pairs = bodyPairs c rate burst (text (toString c.maxConcurrency.1)) requests := by
  obtain ⟨rate, -, rest⟩ := Option.bind_eq_some_iff.1 written
  obtain ⟨burst, -, rest⟩ := Option.bind_eq_some_iff.1 rest
  obtain ⟨concurrency, number, rest⟩ := Option.bind_eq_some_iff.1 rest
  obtain ⟨requests, -, rest⟩ := Option.bind_eq_some_iff.1 rest
  obtain rfl := Option.some.inj rest
  obtain ⟨short, rfl⟩ := intText_eq_some.1 number
  exact ⟨rate, burst, requests, short, rfl⟩

theorem mem_bodyPairs {rate concurrency requests : Text} {burst : Option Text} {p : NonBlank}
    (mem : p ∈ patterns c) :
    ∃ key, (key, p.1) ∈ entries (bodyPairs c rate burst concurrency requests) := by
  simp only [patterns, List.mem_append] at mem
  have among {key : Text} {ps : List NonBlank}
      (listed : (key, ps.map Subtype.val) ∈ bodyPairs c rate burst concurrency requests)
      (mem : p ∈ ps) : (key, p.1) ∈ entries (bodyPairs c rate burst concurrency requests) :=
    mem_entries.2 ⟨_, listed, List.mem_map_of_mem mem⟩
  rcases mem with ((mem | mem) | mem) | mem
  · exact ⟨text "scope.include", among (by simp [bodyPairs]) mem⟩
  · exact ⟨text "scope.exclude", among (by simp [bodyPairs]) mem⟩
  · exact ⟨text "dangerous.path", among (by simp [bodyPairs]) mem⟩
  · exact ⟨text "render.allow", among (by simp [bodyPairs]) mem⟩

theorem Accepted.patterns {D : DigitMap} {malformed : List UInt8 → JString}
    (accepted : Accepted c D malformed) : ∀ p ∈ patterns c, Plain p.1 := by
  obtain ⟨pairs, bytes, -, written, built, -⟩ := accepted
  obtain ⟨rate, burst, requests, -, same⟩ := configBody_eq_some written
  obtain ⟨writes, -⟩ := buildKeys_ok built
  rw [same] at writes
  intro p mem
  obtain ⟨key, entry⟩ := mem_bodyPairs mem
  exact ⟨(writes.plain _ entry).1, (writes.plain _ entry).2, writes.scalars _ entry⟩

/-- A limiter that is armed was made by its constructor. -/
theorem Begins.limiter {D : DigitMap} {scope : Scope} (begins : Begins c D scope) :
    ∃ rps requests burst limiter, Policy.Limiter.new 0 rps requests burst = .ok limiter ∧
      Enforces c limiter := by
  obtain ⟨limits, limiter, armed, holds, enforces⟩ := begins.armed 1 0 one_ne_zero
  rcases Send.Limits.arm_eq (D := D) Send.Limits.deployed ⟨1, scope⟩ 0 with
    ⟨_, same⟩ | ⟨_, ⟨_, same⟩, _⟩ | ⟨_, rps, requests, burst, _, ⟨_, _, same⟩ | ⟨l, made, same⟩⟩
  · cases armed.symm.trans same
    contradiction
  · cases armed.symm.trans same
  · cases armed.symm.trans same
  · cases armed.symm.trans same
    obtain rfl := Option.some.inj holds
    exact ⟨rps, requests, burst, l, made, enforces⟩

theorem Accepted.pushable {D : DigitMap} {malformed : List UInt8 → JString}
    (accepted : Accepted c D malformed) : Pushable c := by
  have patterns := accepted.patterns
  obtain ⟨pairs, bytes, scope, written, built, parsed, begins⟩ := accepted
  obtain ⟨_, _, _, concurrency, _⟩ := configBody_eq_some written
  obtain ⟨rps, requests, burst, limiter, made, enforces⟩ := begins.limiter
  obtain ⟨⟨-, top, -, -, ceiling⟩, rfl⟩ := Policy.Limiter.new_eq_ok_iff.1 made
  refine ⟨patterns, enforces.rate ▸ top, fun b same => ?_, ?_, concurrency⟩
  · have named := enforces.burst
    rw [same] at named
    exact named ▸ ceiling
  · rw [← enforces.requests]
    exact (fits_toInt requests).2

end Written

/-! ## What is read -/

theorem plain_number {n : ℤ} (positive : 1 ≤ n) : Plain (text (toString n)) := by
  obtain ⟨k, rfl⟩ := Int.eq_ofNat_of_zero_le (show 0 ≤ n by omega)
  have written : text (toString (k : ℤ)) = (decimal k).map chr := Python.Json.text_nat k
  have bounds : ∀ c ∈ text (toString (k : ℤ)), 48 ≤ c.val ∧ c.val ≤ 57 := by
    intro c mem
    rw [written] at mem
    obtain ⟨d, inside, rfl⟩ := List.mem_map.1 mem
    exact isDigit_iff.1 (Python.Json.isDigit_chr (decimal_bounds inside))
  refine ⟨fun mem => ?_, fun mem => ?_, fun c mem => ?_⟩
  · exact absurd (bounds _ mem).1 (by decide)
  · exact absurd (bounds _ mem).1 (by decide)
  · have digit := bounds c mem
    rw [isScalar_iff]
    omega

theorem plain_methods : ∀ v ∈ methodAllow, Plain v := by
  intro v mem
  simp only [methodAllow, List.mem_cons, List.not_mem_nil, or_false] at mem
  rcases mem with rfl | rfl | rfl
  · exact ⟨by decide, by decide, scalars_text rfl⟩
  · exact ⟨by decide, by decide, scalars_text rfl⟩
  · exact ⟨by decide, by decide, scalars_text rfl⟩

section Carried

variable {l : List (Text × List Text)} {key : Text} {values : List Text}

/-- A key that has a value is found with it. -/
theorem get_carried_valued (writes : Writes l) (unique : (l.map Prod.fst).Nodup)
    (mem : (key, values) ∈ l) (some_ : values ≠ []) :
    (carriedPairs (valued l)).get (utf16 key) = some (values.map utf16) := by
  refine get_of_mem ?_ (List.mem_map.2 ⟨(key, values), ?_, rfl⟩)
  · rw [← valued_carried]
    exact (List.filter_sublist.map _).nodup (writes.unique unique)
  · refine List.mem_filter.2 ⟨mem, ?_⟩
    rw [Bool.not_eq_true', List.isEmpty_eq_false_iff]
    exact some_

theorem get_carried_none {key : JString} (absent : ∀ p ∈ l, utf16 p.1 ≠ key) :
    (carriedPairs (valued l)).get key = none := by
  refine List.lookup_eq_none_iff.2 fun p mem => bne_iff_ne.2 fun same => ?_
  obtain ⟨q, inside, rfl⟩ := List.mem_map.1 mem
  exact absent q (List.mem_filter.1 inside).1 same.symm

end Carried

section Read

variable {L : Lowering} {c : Config L} {D : DigitMap} {scope : Scope}

theorem toInt_ofInt {n : ℤ} (positive : 1 ≤ n) (fits : n ≤ 9223372036854775807) :
    (Int64.ofInt n).toInt = n := by
  rw [Int64.toInt_ofInt]
  exact bmod_of_fits ⟨by omega, fits⟩

theorem ofInt_pos {n : ℤ} (positive : 1 ≤ n) (fits : n ≤ 9223372036854775807) :
    0 < Int64.ofInt n := by
  have zero : (0 : Int64).toInt = 0 := rfl
  rw [Int64.lt_iff_toInt_lt, zero, toInt_ofInt positive fits]
  omega

/-- A number that is found as it was written is usable, and read. -/
theorem read_number {key : JString} {n : ℤ} (positive : 1 ≤ n) (fits : n ≤ 9223372036854775807)
    (found : scope.get key = some [utf16 (text (toString n))]) (fallback : Int64) :
    ConfigBody.positiveInteger D (scope.get key) key = none ∧
      Send.Limits.positive D scope key fallback = .ok (Int64.ofInt n) := by
  have parsed := parseLong_written D positive fits
  have above := ofInt_pos positive fits
  constructor
  · rw [found]
    exact positiveInteger_eq_none.2 (.inr ⟨_, _, rfl, parsed, above⟩)
  · rw [Send.Limits.positive, found, Option.getD_some]
    simp only [parsed]
    exact if_neg (Int64.not_le.2 above)

/-- A key that is not there. -/
theorem read_absent {key : JString} (absent : scope.get key = none) (fallback : Int64) :
    ConfigBody.positiveInteger D (scope.get key) key = none ∧
      Send.Limits.positive D scope key fallback = .ok fallback := by
  rw [Send.Limits.positive, absent]
  exact ⟨rfl, rfl⟩

/-- The first arm of a run whose scope has numbers the limiter takes. -/
theorem begins_of_read {rps burst requests : Int64}
    (rate : Send.Limits.positive D scope Send.Limits.rateKey 5 = .ok rps)
    (budget : Send.Limits.positive D scope Send.Limits.requestsKey 2000 = .ok requests)
    (shape : Send.Limits.positive D scope Send.Limits.burstKey rps = .ok burst)
    (isRate : rps.toInt = c.rateLimitRps.1)
    (isBurst : burst.toInt = (c.rateBurst.getD c.rateLimitRps).1)
    (isBudget : requests.toInt = c.maxRequests.1)
    (low : c.rateLimitRps.1 ≤ 10000) (small : (c.rateBurst.getD c.rateLimitRps).1 ≤ 10000) :
    Begins c D scope := by
  refine ⟨if_pos rfl, fun epoch nowUs nonzero => ?_⟩
  have one := c.rateLimitRps.2
  have first := (c.rateBurst.getD c.rateLimitRps).2
  have some_ := c.maxRequests.2
  obtain ⟨limiter, made, enforces⟩ : ∃ limiter,
      Policy.Limiter.new nowUs rps requests burst = .ok limiter ∧ Enforces c limiter :=
    ⟨_, Policy.Limiter.new_eq_ok_iff.2 ⟨⟨by omega, by omega, by omega, by omega, by omega⟩, rfl⟩,
      isRate, isBurst, isBudget⟩
  have fresh : ¬ (Send.Limits.deployed.limiter.isSome = true ∨ epoch = 0) := by
    rintro (armed | zero)
    · contradiction
    · exact nonzero zero
  rcases Send.Limits.arm_eq (D := D) Send.Limits.deployed ⟨epoch, scope⟩ nowUs with
    ⟨idle, _⟩ | ⟨_, _, unread⟩ | ⟨_, _, _, _, read, made_⟩
  · exact absurd idle fresh
  · exact absurd ⟨rate, budget, shape⟩ (unread rps requests burst)
  · cases read.rate.symm.trans rate
    cases read.requests.symm.trans budget
    cases read.burst.symm.trans shape
    rcases made_ with ⟨_, refused, _⟩ | ⟨_, made_, same⟩
    · cases refused.symm.trans made
    · cases made_.symm.trans made
      exact ⟨_, limiter, same, rfl, enforces⟩

/-- The values of the body of a configuration that can be pushed. -/
theorem plain_bodyPairs (pushable : Pushable c) (p : Text × List Text)
    (mem : p ∈ bodyPairs c (text (toString c.rateLimitRps.1))
      (c.rateBurst.map fun b => text (toString b.1)) (text (toString c.maxConcurrency.1))
      (text (toString c.maxRequests.1))) :
    ∀ v ∈ p.2, Plain v := by
  have listed (ps : List NonBlank) (among : ∀ q ∈ ps, q ∈ patterns c) :
      ∀ v ∈ ps.map Subtype.val, Plain v := by
    intro v mem
    obtain ⟨q, inside, rfl⟩ := List.mem_map.1 mem
    exact pushable.patterns q (among q inside)
  have number (n : Positive) : ∀ v ∈ [text (toString n.1)], Plain v := by
    intro v mem
    rw [List.mem_singleton.1 mem]
    exact plain_number n.2
  simp only [bodyPairs, List.mem_append, List.mem_cons, List.not_mem_nil, or_false,
    Option.mem_toList, Option.map_map, Option.map_eq_some_iff] at mem
  rcases mem with ((rfl | rfl | rfl | rfl | rfl | rfl) | ⟨burst, -, rfl⟩) | rfl | rfl
  · exact listed _ fun q inside => by simp [patterns, inside]
  · exact listed _ fun q inside => by simp [patterns, inside]
  · exact listed _ fun q inside => by simp [patterns, inside]
  · exact listed _ fun q inside => by simp [patterns, inside]
  · exact plain_methods
  · exact number _
  · exact number burst
  · exact number _
  · exact number _

theorem writes_of_plain {l : List (Text × List Text)}
    (known : ∀ key ∈ l.map Prod.fst, key ∈ Codec.configKeys)
    (plain : ∀ p ∈ l, ∀ v ∈ p.2, Plain v) : Writes l := by
  have value : ∀ e ∈ entries l, Plain e.2 := by
    intro e mem
    obtain ⟨values, inside, held⟩ := mem_entries.1 mem
    exact plain _ inside _ held
  exact ⟨fun p mem => known _ (List.mem_map_of_mem mem),
    fun e mem => ⟨(value e mem).tab, (value e mem).newline⟩, fun e mem => (value e mem).scalars⟩

/-- The numbers of a configuration that can be pushed are written. -/
theorem configBody_of_pushable (pushable : Pushable c) : ∃ pairs, configBody c = some pairs ∧
    pairs.pairs = bodyPairs c (text (toString c.rateLimitRps.1))
      (c.rateBurst.map fun b => text (toString b.1)) (text (toString c.maxConcurrency.1))
      (text (toString c.maxRequests.1)) := by
  have long : (10000 : ℤ) ≤ 9223372036854775807 := by decide
  have rate := intText_of_fits c.rateLimitRps.2 (pushable.rate.trans long)
  have requests := intText_of_fits c.maxRequests.2 pushable.requests
  have concurrency := intText_eq_some.2 ⟨pushable.concurrency, rfl⟩
  have burst : (c.rateBurst.elim (some none) fun burst => (intText burst.1).map some) =
      some (c.rateBurst.map fun b => text (toString b.1)) := by
    cases same : c.rateBurst with
    | none => rfl
    | some b =>
        show (intText b.1).map some = _
        rw [intText_of_fits b.2 ((pushable.burst b same).trans long)]
        rfl
  rw [configBody, rate, burst, concurrency, requests]
  exact ⟨_, rfl, rfl⟩

/-- The body of a configuration, with the texts of its numbers. -/
def written (c : Config L) : List (Text × List Text) :=
  bodyPairs c (text (toString c.rateLimitRps.1)) (c.rateBurst.map fun b => text (toString b.1))
    (text (toString c.maxConcurrency.1)) (text (toString c.maxRequests.1))

theorem keys_written :
    (written c).map Prod.fst = bodyKeys (c.rateBurst.map fun b => text (toString b.1)).isSome :=
  keys_bodyPairs c _ _ _ _

theorem writes_written (pushable : Pushable c) : Writes (written c) :=
  writes_of_plain (keys_written ▸ bodyKeys_known _) (plain_bodyPairs pushable)

/-- A number of the body is found under its key. -/
theorem get_written (pushable : Pushable c) {key : String} (ascii_ : ascii key = true) {n : ℤ}
    (mem : (text key, [text (toString n)]) ∈ written c) :
    (carriedPairs (valued (written c))).get (js key) = some [utf16 (text (toString n))] := by
  rw [← utf16_text ascii_]
  exact get_carried_valued (writes_written pushable) (bodyPairs_unique c _ _ _ _) mem
    (List.cons_ne_nil _ _)

theorem rate_mem : (text "limit.rate_rps", [text (toString c.rateLimitRps.1)]) ∈ written c := by
  simp [written, bodyPairs]

theorem requests_mem :
    (text "limit.max_requests", [text (toString c.maxRequests.1)]) ∈ written c := by
  simp [written, bodyPairs]

theorem burst_mem {b : Positive} (given : c.rateBurst = some b) :
    (text "limit.rate_burst", [text (toString b.1)]) ∈ written c := by
  simp [written, bodyPairs, given]

theorem burst_absent (unset : c.rateBurst = none) :
    (carriedPairs (valued (written c))).get (js "limit.rate_burst") = none := by
  refine get_carried_none fun p mem same => ?_
  have key : p.1 ∈ bodyKeys false := by
    have inside : p.1 ∈ (written c).map Prod.fst := List.mem_map_of_mem mem
    rw [keys_written, unset] at inside
    exact inside
  have other : ∀ key ∈ bodyKeys false, key ≠ text "limit.rate_burst" := by decide
  have known := bodyKeys_known false _ key
  rw [← utf16_text rfl] at same
  exact other _ key (utf16_injective (key_scalars _ known) (scalars_text rfl) same)

/-- What the extension finds for the burst: the burst, or the rate in its place. -/
theorem read_burst (pushable : Pushable c) {rate : Int64} (isRate : rate.toInt = c.rateLimitRps.1) :
    ConfigBody.positiveInteger D ((carriedPairs (valued (written c))).get (js "limit.rate_burst"))
        (js "limit.rate_burst") = none ∧
      ∃ burst, Send.Limits.positive D (carriedPairs (valued (written c))) Send.Limits.burstKey
          rate = .ok burst ∧ burst.toInt = (c.rateBurst.getD c.rateLimitRps).1 ∧
        (c.rateBurst.getD c.rateLimitRps).1 ≤ 10000 := by
  cases given : c.rateBurst with
  | none =>
      obtain ⟨usable, read⟩ := read_absent (D := D) (burst_absent given) rate
      exact ⟨usable, rate, read, isRate, pushable.rate⟩
  | some b =>
      have fits := (pushable.burst b given).trans (show (10000 : ℤ) ≤ 9223372036854775807 by decide)
      obtain ⟨usable, read⟩ := read_number (D := D) b.2 fits
        (get_written pushable rfl (burst_mem given)) rate
      exact ⟨usable, Int64.ofInt b.1, read, toInt_ofInt b.2 fits, pushable.burst b given⟩

theorem accepted_of_pushable (pushable : Pushable c) (malformed : List UInt8 → JString) :
    Accepted c D malformed := by
  obtain ⟨pairs, body, same⟩ := configBody_of_pushable pushable
  have writes := writes_written pushable
  have fits := pushable.rate.trans (show (10000 : ℤ) ≤ 9223372036854775807 by decide)
  have isRate := toInt_ofInt c.rateLimitRps.2 fits
  obtain ⟨rateUsable, rate⟩ := read_number (D := D) c.rateLimitRps.2 fits
    (get_written pushable rfl rate_mem) 5
  obtain ⟨requestsUsable, requests⟩ := read_number (D := D) c.maxRequests.2 pushable.requests
    (get_written pushable rfl requests_mem) 2000
  obtain ⟨burstUsable, burst, shape, isBurst, small⟩ := read_burst (D := D) pushable isRate
  refine ⟨pairs, entryBytes (entries (written c)), carriedPairs (valued (written c)), body, ?_, ?_,
    begins_of_read rate requests shape isRate isBurst
      (toInt_ofInt c.maxRequests.2 pushable.requests) pushable.rate small⟩
  · rw [Codec.buildConfigBody, same]
    exact writes.built
  · rw [ConfigBody.parse, writes.gathered malformed (bodyPairs_unique c _ _ _ _)]
    refine checked_ok fun key listed => ?_
    simp only [ConfigBody.positiveIntegerKeys, List.mem_cons, List.not_mem_nil, or_false] at listed
    rcases listed with rfl | rfl | rfl
    · exact rateUsable
    · exact burstUsable
    · exact requestsUsable

/-- A configuration is accepted exactly when its patterns stay on their lines and have bytes, and
its numbers are within what the extension takes. -/
theorem accepted_iff_pushable (D : DigitMap) (malformed : List UInt8 → JString) (c : Config L) :
    Accepted c D malformed ↔ Pushable c :=
  ⟨Accepted.pushable, fun pushable => accepted_of_pushable pushable malformed⟩

end Read

/-! ## A rate past the ceiling -/

theorem target_some : strip (text "https://h.test/") ≠ [] := by decide

theorem one_le_twentyThousand : (1 : ℤ) ≤ 20000 := by decide

/-- One target, and a rate that is a typing mistake. -/
def tooFast : Config plain where
  name := ⟨text "https://h.test/", target_some⟩
  client := ⟨text "https://h.test/", target_some⟩
  safetyProfile := .production
  scopeInclude := [⟨text "https://h.test/", target_some⟩]
  scopeExclude := []
  renderAllow := []
  dangerousPaths := []
  checks := {}
  rateLimitRps := ⟨20000, one_le_twentyThousand⟩
  rateBurst := none
  maxRequests := ⟨2000, one_le_twoThousand⟩
  maxConcurrency := ⟨2, one_le_two⟩
  identities := []
  scanIdentity := none
  preserveSegments := []
  slugThreshold := ⟨12, one_le_twelve⟩
  included := List.cons_ne_nil _ _
  declared := none_declared _

theorem tooFast_refused : ¬ ∀ (t : Value) (c : Config plain),
    loadText trees t = .ok c → Accepted c basicDigits fun _ => [] := by
  intro all
  have accepted := all (dumps trees tooFast) tooFast (loadText_dumps trees tooFast)
  exact absurd accepted.pushable.rate (by decide)

end Hx.Engagement
