import Hx.Identity.Hosts

/-!
# The credential goes to the hosts that were named

What the extension enforces is what was declared: a stored origin has one host in both
languages, and the identity step lets a request through exactly if its host is one of
them. The default bound, the bare host of the canary's surface, is read as an origin like
any other, and is that host only if nothing in it cuts it.
-/

namespace Hx.Identity

open Hx.Library

variable {P J : Lowering}

/-- The hosts an accepted block names, or else the host of the canary's surface. -/
def namedHosts (P : Lowering) (declared : List Text) (surfaceHost : Text) : List Text :=
  if declared = [] then [surfaceHost] else declared.map (originHost P)

/-- What the bound promises for an accepted block and the canary's surface. `P` and `J`
are the lower-case tables of the two runtimes; hosts are compared up to case. -/
structure DeclaredBound (P J : Lowering) (declared : List Text) (surfaceHost : Text) : Prop where
  stored : ∀ o ∈ declared, hostOf J o = originHost P o ∧ originHost P o ≠ []
  default_ : declared = [] → hostOf J surfaceHost = J.lower surfaceHost
  issued : registers (boundTo declared surfaceHost) = true → ∀ registry id host,
    registry id = some (boundTo declared surfaceHost) →
    identityStep J registry (some id) host = .injected id →
    ∃ n ∈ namedHosts P declared surfaceHost, J.lower host = J.lower n
  refused : registers (boundTo declared surfaceHost) = true → ∀ registry id host,
    registry id = some (boundTo declared surfaceHost) →
    (∃ n ∈ namedHosts P declared surfaceHost, J.lower host = J.lower n) →
    identityStep J registry (some id) host ≠ .identityOrigin

/-! ## What `_origins` accepts -/

theorem checkEntry_ok {entry : Entry} {origin : Text} (h : checkEntry P entry = .ok origin) :
    hostOf J origin = originHost P origin ∧ originHost P origin ≠ [] ∧
      (originHost P origin).all isOriginHostChar = true := by
  cases entry with
  | other => contradiction
  | str entry =>
      rw [checkEntry] at h
      split at h
      · contradiction
      · simp only at h
        split at h
        · contradiction
        · rename_i named
          rw [not_or, not_not] at named
          cases h
          have stored : originHost P (strip entry) = originHost P entry := by
            rw [originHost, strip_strip, originHost]
          have clean : (originHost P (strip entry)).all isOriginHostChar = true := by
            rw [stored]
            exact named.2
          refine ⟨hostOf_eq_originHost named.2, ?_, clean⟩
          rw [stored]
          exact named.1

theorem checkEntries_ok {entries : List Entry} {declared : List Text}
    (h : checkEntries P entries = .ok declared) : declared.length = entries.length ∧
      ∀ o ∈ declared, ∃ entry ∈ entries, checkEntry P entry = .ok o := by
  induction entries generalizing declared with
  | nil =>
      cases h
      exact ⟨rfl, nofun⟩
  | cons entry entries ih =>
      rw [checkEntries] at h
      cases first : checkEntry P entry with
      | error e =>
          rw [first] at h
          contradiction
      | ok origin =>
          cases rest : checkEntries P entries with
          | error e =>
              rw [first, rest] at h
              contradiction
          | ok origins =>
              rw [first, rest] at h
              cases h
              obtain ⟨length, all⟩ := ih rest
              refine ⟨congrArg (· + 1) length, ?_⟩
              intro o mem
              rcases List.mem_cons.1 mem with rfl | mem
              · exact ⟨entry, List.mem_cons_self, first⟩
              · obtain ⟨e, known, ok⟩ := all o mem
                exact ⟨e, List.mem_cons_of_mem _ known, ok⟩

section Accepted

variable {raw : Declared} {declared : List Text}

theorem mem_declared (accepted : origins P raw = .ok declared) {o : Text} (mem : o ∈ declared) :
    hostOf J o = originHost P o ∧ originHost P o ≠ [] ∧
      (originHost P o).all isOriginHostChar = true := by
  cases raw with
  | absent =>
      cases accepted
      contradiction
  | other => contradiction
  | list entries =>
      cases entries with
      | nil => contradiction
      | cons entry entries =>
          obtain ⟨e, _, ok⟩ := (checkEntries_ok accepted).2 o mem
          exact checkEntry_ok ok

/-- A list that is there is never read as the default. -/
theorem declared_eq_nil_iff (accepted : origins P raw = .ok declared) :
    declared = [] ↔ raw = .absent := by
  cases raw with
  | absent =>
      cases accepted
      exact iff_of_true rfl rfl
  | other => contradiction
  | list entries =>
      cases entries with
      | nil => contradiction
      | cons entry entries =>
          have length := (checkEntries_ok accepted).1
          apply iff_of_false
          · rintro rfl
            contradiction
          · exact nofun

end Accepted

/-! ## The identity step -/

section Step

variable {registry : Text → Option (List Text)} {id host : Text} {bound : List Text}

theorem appliesTo_iff : appliesTo J bound host = true ↔ ∃ o ∈ bound, J.lower host = hostOf J o := by
  rw [appliesTo, List.any_eq_true]
  simp only [beq_iff_eq]

/-- A credential is written into a request only for a host of its bound. -/
theorem appliesTo_of_injected (held : registry id = some bound)
    (h : identityStep J registry (some id) host = .injected id) :
    appliesTo J bound host = true := by
  rw [identityStep] at h
  split at h
  · contradiction
  · rw [held] at h
    simp only at h
    split at h
    · assumption
    · contradiction

theorem not_identityOrigin (held : registry id = some bound)
    (applies : appliesTo J bound host = true) :
    identityStep J registry (some id) host ≠ .identityOrigin := by
  rw [identityStep]
  split
  · exact nofun
  · rw [held]
    simp only [applies, if_true]
    exact nofun

end Step

theorem appliesTo_boundTo_iff {raw : Declared} {declared : List Text} {surfaceHost host : Text}
    (accepted : origins P raw = .ok declared)
    (sound : declared = [] → hostOf J surfaceHost = J.lower surfaceHost) :
    appliesTo J (boundTo declared surfaceHost) host = true ↔
      ∃ n ∈ namedHosts P declared surfaceHost, J.lower host = J.lower n := by
  rw [appliesTo_iff, boundTo, namedHosts]
  split
  · rename_i empty
    simp only [List.mem_singleton, exists_eq_left, sound empty]
  · simp only [List.mem_map, exists_exists_and_eq_and]
    apply exists_congr
    intro o
    apply and_congr_right
    intro mem
    obtain ⟨same, _, clean⟩ := mem_declared (J := J) accepted mem
    rw [same, Lowering.lower_eq_self (ascii_of_originHost clean)]

/-- The bound that is enforced is the one that was declared exactly if origins are
declared or the host of the canary's surface is bare. -/
theorem declaredBound_iff {raw : Declared} {declared : List Text}
    (accepted : origins P raw = .ok declared) (surfaceHost : Text) :
    DeclaredBound P J declared surfaceHost ↔ raw ≠ .absent ∨ Bare surfaceHost := by
  rw [ne_eq, ← declared_eq_nil_iff accepted]
  constructor
  · intro bound
    by_cases empty : declared = []
    · exact .inr (hostOf_eq_lower_iff.1 (bound.default_ empty))
    · exact .inl empty
  · intro condition
    have sound : declared = [] → hostOf J surfaceHost = J.lower surfaceHost := fun empty =>
      hostOf_eq_lower_iff.2 (condition.resolve_left (not_not.2 empty))
    refine ⟨?_, sound, ?_, ?_⟩
    · intro o mem
      obtain ⟨same, some_, _⟩ := mem_declared (J := J) accepted mem
      exact ⟨same, some_⟩
    · intro _ registry id host held injected
      exact (appliesTo_boundTo_iff accepted sound).1 (appliesTo_of_injected held injected)
    · intro _ registry id host held named
      exact not_identityOrigin held ((appliesTo_boundTo_iff accepted sound).2 named)

/-! ## A declared host and an IPv6 surface -/

/-- A table that leaves everything outside ASCII as it is. -/
def plain : Lowering where
  other _ c _ := if c.val < 0x80 then chr 0x80 else c
  above _ c _ := by
    split
    · decide
    · omega

theorem declaredBound_of_url :
    DeclaredBound plain plain [text "https://a.test/"] (text "::1") := by
  have accepted : origins plain (.list [.str (text " https://a.test/")]) =
      .ok [text "https://a.test/"] := by rfl
  exact (declaredBound_iff accepted _).2 (.inl nofun)

/-- The default bound of a surface at an IPv6 address is what is in front of its first
colon: the address itself is refused, and a host of that name gets the credential. -/
theorem ipv6_default_is_cut : origins plain .absent = .ok [] ∧
    hostOf plain (text "2001:db8::1") = text "2001" ∧
    (∀ registry, registry (text "staff") = some (boundTo [] (text "2001:db8::1")) →
      identityStep plain registry (some (text "staff")) (text "2001:db8::1") = .identityOrigin ∧
      identityStep plain registry (some (text "staff")) (text "2001") =
        .injected (text "staff")) ∧
    ¬ DeclaredBound plain plain [] (text "2001:db8::1") := by
  have cut_ : hostOf plain (text "2001:db8::1") = text "2001" := by decide
  refine ⟨rfl, cut_, ?_, ?_⟩
  · intro registry held
    constructor
    · rw [identityStep, if_neg (by decide), held]
      decide
    · rw [identityStep, if_neg (by decide), held]
      decide
  · intro bound
    have same := bound.default_ rfl
    rw [cut_] at same
    exact absurd same (by decide)

end Hx.Identity
