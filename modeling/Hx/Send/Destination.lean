import Hx.Send.Connection

/-!
# Where an allowed request goes

The frame's fields, the URL the policy parses and the bytes that are issued agree on the
scheme, the port, the path and the query of every allowed request, and on the host as far
as the case fold goes. The fold is applied before a host is checked to be ASCII, so a host
with a character above ASCII that folds to a letter passes as the host spelled with the
letter.
-/

namespace Hx.Send

open Hx.Java Hx.Library Hx.Bridge Hx.Policy

variable {U : CaseMap} {D : DigitMap} {upper : JChar → JChar} {a b s host typed : JString}

/-! ## Hosts -/

/-- The same host, up to the case of ASCII letters. -/
def asciiLower (s : JString) : JString := s.map fun c => Fin.ofNat 65536 (lowerAscii c.val)

/-- The characters above ASCII, where they are. -/
def aboveAscii (s : JString) : List (Option JChar) :=
  s.map fun c => if c.val < 0x80 then none else some c

/-- A character's own fold. -/
def lowerChar (U : CaseMap) (c : JChar) : JChar :=
  Fin.ofNat 65536 (U.toLowerCase (codePoint c)).val

theorem units_lowerChar (c : JChar) : units (U.toLowerCase (codePoint c)) = [lowerChar U c] := by
  have plane := U.plane (codePoint c)
  have unit : (codePoint c).val < 0x10000 := c.isLt
  rw [units, if_pos (by omega)]
  rfl

theorem val_lowerAscii {c : JChar} (small : c.val < 0x80) :
    (Fin.ofNat 65536 (lowerAscii c.val) : JChar).val = lowerAscii c.val :=
  Nat.mod_eq_of_lt (Nat.lt_trans (lowerAscii_lt small) (by decide))

theorem lowerChar_ascii {c : JChar} (small : c.val < 0x80) :
    lowerChar U c = Fin.ofNat 65536 (lowerAscii c.val) := by
  have value : (U.toLowerCase (codePoint c)).val = lowerAscii c.val := U.ascii (codePoint c) small
  rw [lowerChar, value]

/-- A fold into ASCII is one character at a time: no pair of surrogates folds there. -/
theorem lower_eq_map (ascii : ∀ c ∈ lower U s, c.val < 0x80) : lower U s = s.map (lowerChar U) := by
  induction s using lower.induct with
  | case1 => rfl
  | case2 c => rw [lower, units_lowerChar, List.map_singleton]
  | case3 high low rest pair ih =>
      have plane := U.plane (pairPoint high low)
      simp only [isHighSurrogate, isLowSurrogate, Bool.and_eq_true, decide_eq_true_eq] at pair
      have supplementary : 0x10000 ≤ (pairPoint high low).val := by
        simp only [pairPoint, Fin.val_ofNat]
        omega
      have bound := (U.toLowerCase (pairPoint high low)).isLt
      rw [lower, if_pos (by simpa [isHighSurrogate, isLowSurrogate] using pair)] at ascii
      have first := ascii (Fin.ofNat 65536
        (0xd800 + ((U.toLowerCase (pairPoint high low)).val - 0x10000) / 0x400)) (by
          rw [units, if_neg (by omega)]
          simp)
      rw [Fin.val_ofNat] at first
      omega
  | case4 high low rest single ih =>
      rw [lower, if_neg single] at ascii ⊢
      rw [units_lowerChar] at ascii ⊢
      rw [ih fun c among => ascii c (List.mem_append_right _ among)]
      rfl

theorem asciiChar_eq_iff {x y : JChar} (same : lowerChar U x = lowerChar U y) :
    (Fin.ofNat 65536 (lowerAscii x.val) : JChar) = Fin.ofNat 65536 (lowerAscii y.val) ↔
      (if x.val < 0x80 then none else some x) = if y.val < 0x80 then none else some y := by
  have above : ∀ c : JChar, ¬ c.val < 0x80 → (Fin.ofNat 65536 (lowerAscii c.val) : JChar) = c := by
    intro c large
    apply Fin.ext
    rw [Fin.val_ofNat, lowerAscii, if_neg (by omega)]
    exact Nat.mod_eq_of_lt c.isLt
  by_cases left : x.val < 0x80 <;> by_cases right : y.val < 0x80
  · simpa [left, right] using (lowerChar_ascii left).symm.trans (same.trans (lowerChar_ascii right))
  · have differ : (Fin.ofNat 65536 (lowerAscii x.val) : JChar) ≠ y := by
      intro equal
      have value := val_lowerAscii left
      rw [equal] at value
      have small := lowerAscii_lt left
      omega
    rw [above y right, if_pos left, if_neg right]
    exact ⟨fun equal => absurd equal differ, nofun⟩
  · have differ : x ≠ (Fin.ofNat 65536 (lowerAscii y.val) : JChar) := by
      intro equal
      have value := val_lowerAscii right
      rw [← equal] at value
      have small := lowerAscii_lt right
      omega
    rw [above x left, if_neg left, if_pos right]
    exact ⟨fun equal => absurd equal differ, nofun⟩
  · rw [above x left, above y right, if_neg left, if_neg right, Option.some.injEq]

/-- Two hosts with one fold are the same up to ASCII case when they have the same
characters above ASCII in the same places. -/
theorem asciiLower_eq_iff (same : a.map (lowerChar U) = b.map (lowerChar U)) :
    asciiLower a = asciiLower b ↔ aboveAscii a = aboveAscii b := by
  induction a generalizing b with
  | nil =>
      cases b with
      | nil => simp [asciiLower, aboveAscii]
      | cons y b => cases same
  | cons x a ih =>
      cases b with
      | nil => cases same
      | cons y b =>
          obtain ⟨head, tail⟩ := List.cons.inj same
          have chars := asciiChar_eq_iff head
          have rest := ih tail
          unfold asciiLower aboveAscii at rest ⊢
          rw [List.map_cons, List.map_cons, List.map_cons, List.map_cons, List.cons.injEq,
            List.cons.injEq, chars, rest]

/-! ## The host half of an include -/

/-- The host half of a pattern, as it was typed. -/
def hostText (pattern : JString) : JString :=
  ((pattern.drop ((indexOf (js "://") pattern).getD 0 + 3)).takeWhile fun c => c != slash).takeWhile
    fun c => c != colon

/-- A typed host half names a host: it is that host, or `*.` and a domain the host is
strictly under, up to ASCII case. -/
def NamesHost (typed host : JString) : Prop :=
  asciiLower typed = asciiLower host ∨
    ∃ base label domain, typed = js "*." ++ base ∧ host = label ++ dot :: domain ∧ label ≠ [] ∧
      asciiLower domain = asciiLower base

/-- The name in a typed host half, without its wildcard label. -/
def nameOf (typed : JString) : JString :=
  if (js "*.").isPrefixOf typed then typed.drop 2 else typed

/-- The name and the end of the host it is compared with have the same characters above
ASCII in the same places. -/
def SameAboveAscii (typed host : JString) : Prop :=
  aboveAscii (nameOf typed) = aboveAscii (host.drop (host.length - (nameOf typed).length))

/-- The host check of `authorityMatches`. -/
def hostMatches (rule : Rule) (host : JString) : Bool :=
  if rule.hostSuffix then rule.hostPattern.isSuffixOf host else rule.hostPattern == host

theorem take_idxOf? {c : JChar} {k : Nat} (h : s.idxOf? c = some k) :
    s.take k = s.takeWhile fun d => d != c := by
  induction s generalizing k with
  | nil => simp at h
  | cons d s ih =>
      rw [List.idxOf?_cons] at h
      split at h
      · rename_i same
        obtain rfl := Option.some.inj h
        rw [List.take_zero, List.takeWhile_cons_of_neg]
        simpa using same
      · rename_i other
        obtain ⟨j, at', rfl⟩ := Option.map_eq_some_iff.1 h
        rw [List.take_succ_cons, ih at', List.takeWhile_cons_of_pos]
        simpa using other

theorem Rule.host_ok {pattern : JString} {allowRule : Bool} {rule : Rule}
    (h : Rule.parse U pattern allowRule = .ok rule) :
    rule.hostSuffix = (js "*.").isPrefixOf (lower U (hostText pattern)) ∧
      rule.hostPattern = (if rule.hostSuffix then (lower U (hostText pattern)).drop 1
        else lower U (hostText pattern)) := by
  unfold Rule.parse at h
  split at h
  · cases h
  · cases h
  · rename_i sep _ scheme
    simp only at h
    split at h
    · cases h
    · split at h
      · cases h
      · rename_i cut authority
        split at h
        · cases h
        · split at h
          · cases h
          · split at h
            · cases h
            · cases h
              have text : hostText pattern = ((pattern.drop (sep + 3)).take cut).takeWhile
                  fun c => c != ch ':' := by
                rw [hostText, scheme, take_idxOf? authority]
                rfl
              exact ⟨by rw [text], by rw [text]⟩

/-- An ASCII character that is no lower-case letter is the fold of itself alone. -/
theorem eq_of_lowerChar {c d : JChar} (same : lowerChar U c = d) (small : d.val < 0x80)
    (plain : ¬ (0x61 ≤ d.val ∧ d.val ≤ 0x7a)) : c = d := by
  have plane := U.plane (codePoint c)
  have unit : (codePoint c).val = c.val := rfl
  have value : (lowerChar U c).val = (U.toLowerCase (codePoint c)).val := Nat.mod_eq_of_lt (by omega)
  rw [same] at value
  by_cases ascii : c.val < 0x80
  · have folded := U.ascii (codePoint c) (by omega)
    apply Fin.ext
    rw [← value, unit, lowerAscii] at folded
    split at folded <;> omega
  · have letters := U.letters (codePoint c) (by omega) (by omega)
    omega

/-- A fold that starts with such a character is of a string that does. -/
theorem of_lower_eq_cons {d : JChar} {r : JString} (h : lower U s = d :: r) (small : d.val < 0x80)
    (plain : ¬ (0x61 ≤ d.val ∧ d.val ≤ 0x7a)) : ∃ s', s = d :: s' ∧ lower U s' = r := by
  cases s using lower.fun_cases with
  | case1 => cases h
  | case2 c =>
      rw [lower, units_lowerChar] at h
      obtain ⟨first, rfl⟩ := List.cons.inj h
      exact ⟨[], by rw [eq_of_lowerChar first small plain], rfl⟩
  | case3 high low rest pair =>
      rw [lower, if_pos pair] at h
      have plane := U.plane (pairPoint high low)
      simp only [isHighSurrogate, isLowSurrogate, Bool.and_eq_true, decide_eq_true_eq] at pair
      have supplementary : 0x10000 ≤ (pairPoint high low).val := by
        simp only [pairPoint, Fin.val_ofNat]
        omega
      have bound := (U.toLowerCase (pairPoint high low)).isLt
      rw [units, if_neg (by omega)] at h
      obtain ⟨first, -⟩ := List.cons.inj h
      rw [← first, Fin.val_ofNat] at small
      omega
  | case4 high low rest single =>
      rw [lower, if_neg single, units_lowerChar] at h
      obtain ⟨first, tail⟩ := List.cons.inj h
      exact ⟨low :: rest, by rw [eq_of_lowerChar first small plain], tail⟩

theorem isPrefixOf_lower (s : JString) :
    (js "*.").isPrefixOf (lower U s) = (js "*.").isPrefixOf s := by
  rw [Bool.eq_iff_iff, List.isPrefixOf_iff_prefix, List.isPrefixOf_iff_prefix]
  constructor
  · rintro ⟨r, h⟩
    obtain ⟨s₁, rfl, h₁⟩ := of_lower_eq_cons h.symm (by decide) (by decide)
    obtain ⟨s₂, rfl, -⟩ := of_lower_eq_cons h₁ (by decide) (by decide)
    exact ⟨s₂, rfl⟩
  · rintro ⟨r, rfl⟩
    show _ <+: lower U (ch '*' :: dot :: r)
    rw [lower_cons_ascii (by decide), lower_cons_ascii (by decide)]
    exact ⟨lower U r, rfl⟩

/-- Hosts that are the same up to ASCII case have one fold. -/
theorem map_lowerChar_of_asciiLower (same : asciiLower a = asciiLower b) :
    a.map (lowerChar U) = b.map (lowerChar U) := by
  have fold : ∀ c, lowerChar U (Fin.ofNat 65536 (lowerAscii c.val)) = lowerChar U c := by
    intro c
    by_cases small : c.val < 0x80
    · have value := val_lowerAscii small
      have again : lowerAscii (lowerAscii c.val) = lowerAscii c.val := by
        unfold lowerAscii
        split_ifs <;> omega
      rw [lowerChar_ascii (by rw [value]; exact lowerAscii_lt small), value, again,
        lowerChar_ascii small]
    · rw [lowerAscii, if_neg (by omega)]
      congr 1
      exact Fin.ext (Nat.mod_eq_of_lt c.isLt)
  have through : ∀ s, (asciiLower s).map (lowerChar U) = s.map (lowerChar U) := by
    intro s
    rw [asciiLower, List.map_map]
    exact List.map_congr_left fun c _ => fold c
  rw [← through a, same, through b]

theorem isHostChar_lt {c : JChar} (h : isHostChar c = true) : c.val < 0x80 := by
  by_contra large
  have others : c ≠ ch '-' ∧ c ≠ dot ∧ c ≠ ch '_' := by
    refine ⟨?_, ?_, ?_⟩ <;> rintro rfl <;> exact large (by decide)
  simp only [isHostChar, isDigit, others.1, others.2.1, others.2.2, Bool.or_eq_true,
    Bool.and_eq_true, decide_eq_true_eq, beq_iff_eq, or_false] at h
  omega

theorem asciiLower_cons (c : JChar) (s : JString) :
    asciiLower (c :: s) = Fin.ofNat 65536 (lowerAscii c.val) :: asciiLower s := rfl

/-- What is a hostname once folded has no star. -/
theorem star_not_mem_asciiLower (chars : ∀ c ∈ lower U host, isHostChar c = true) :
    star ∉ asciiLower host := by
  intro among
  obtain ⟨c, member, folded⟩ := List.mem_map.1 among
  have small : c.val < 0x80 := by
    by_contra large
    have value : (Fin.ofNat 65536 (lowerAscii c.val) : JChar).val = c.val := by
      rw [lowerAscii, if_neg (by omega)]
      exact Nat.mod_eq_of_lt c.isLt
    rw [folded, show star.val = 0x2a by decide] at value
    omega
  have refused := chars _ (mem_lower_of_ascii small member)
  rw [folded] at refused
  exact absurd refused (by decide)

/-- A wildcard's host half names a host when the folds agree and no character above ASCII
is behind the agreement. -/
theorem namesHost_suffix {base : JString} (ascii : ∀ c ∈ lower U base, c.val < 0x80)
    (chars : ∀ c ∈ lower U host, isHostChar c = true) (start : (lower U host).head? ≠ some dot) :
    NamesHost (js "*." ++ base) host ↔ (dot :: lower U base).isSuffixOf (lower U host) = true ∧
      SameAboveAscii (js "*." ++ base) host := by
  have hostMap := lower_eq_map (U := U) fun c among => isHostChar_lt (chars c among)
  have baseMap := lower_eq_map ascii
  have name : nameOf (js "*." ++ base) = base := by
    have prefixed : (js "*.").isPrefixOf (js "*." ++ base) = true :=
      List.isPrefixOf_iff_prefix.2 ⟨base, rfl⟩
    rw [nameOf, if_pos prefixed]
    rfl
  have behind : ∀ (label domain : JString), domain.length = base.length →
      (label ++ dot :: domain).drop ((label ++ dot :: domain).length - base.length) = domain := by
    intro label domain length
    have long : (label ++ dot :: domain).length - base.length = (label ++ [dot]).length := by
      simp only [List.length_append, List.length_cons, List.length_nil]
      omega
    rw [long, show label ++ dot :: domain = (label ++ [dot]) ++ domain by simp, List.drop_left]
  rw [SameAboveAscii, name, List.isSuffixOf_iff_suffix]
  constructor
  · rintro (equal | ⟨base', label, domain, typed, rfl, -, equal⟩)
    · refine absurd ?_ (star_not_mem_asciiLower chars)
      rw [← equal]
      show _ ∈ asciiLower (ch '*' :: (dot :: base))
      rw [asciiLower_cons]
      exact .head _
    · obtain rfl : base = base' := List.append_cancel_left typed
      have same := map_lowerChar_of_asciiLower (U := U) equal
      have length : domain.length = base.length := by
        simpa [asciiLower] using congrArg List.length equal
      refine ⟨⟨label.map (lowerChar U), ?_⟩, ?_⟩
      · rw [hostMap, baseMap, List.map_append, List.map_cons, same, lowerChar_ascii (by decide)]
        rfl
      · rw [behind label domain length]
        exact ((asciiLower_eq_iff same).1 equal).symm
  · rintro ⟨⟨front, split_⟩, above⟩
    rw [hostMap] at split_
    obtain ⟨label, rest, rfl, -, folded⟩ := List.map_eq_append_iff.1 split_.symm
    obtain ⟨d, domain, rfl, first, tail⟩ := List.map_eq_cons_iff.1 folded
    obtain rfl := eq_of_lowerChar first (by decide) (by decide)
    rw [baseMap] at tail
    have length : domain.length = base.length := by simpa using congrArg List.length tail
    rw [behind label domain length] at above
    refine .inr ⟨base, label, domain, rfl, rfl, ?_, (asciiLower_eq_iff tail).2 above.symm⟩
    rintro rfl
    refine start ?_
    rw [List.nil_append, lower_cons_ascii (by decide)]
    rfl

/-- A host half without a wildcard names a host when the folds are equal and no character
above ASCII is behind the equality. -/
theorem namesHost_exact (plain : (js "*.").isPrefixOf typed = false)
    (ascii : ∀ c ∈ lower U typed, c.val < 0x80)
    (chars : ∀ c ∈ lower U host, isHostChar c = true) :
    NamesHost typed host ↔ lower U typed = lower U host ∧ SameAboveAscii typed host := by
  have hostMap := lower_eq_map (U := U) fun c among => isHostChar_lt (chars c among)
  have typedMap := lower_eq_map ascii
  have name : nameOf typed = typed := by rw [nameOf, plain]; rfl
  rw [SameAboveAscii, name, hostMap, typedMap]
  constructor
  · rintro (equal | ⟨base, label, domain, rfl, -⟩)
    · have same := map_lowerChar_of_asciiLower (U := U) equal
      have length : host.length = typed.length := by
        simpa [asciiLower] using (congrArg List.length equal).symm
      refine ⟨same, ?_⟩
      rw [length, Nat.sub_self, List.drop_zero]
      exact (asciiLower_eq_iff same).1 equal
    · have prefixed : (js "*.").isPrefixOf (js "*." ++ base) = true :=
        List.isPrefixOf_iff_prefix.2 ⟨base, rfl⟩
      rw [plain] at prefixed
      cases prefixed
  · rintro ⟨same, above⟩
    have length : host.length = typed.length := by simpa using (congrArg List.length same).symm
    rw [length, Nat.sub_self, List.drop_zero] at above
    exact .inl ((asciiLower_eq_iff same).2 above)

/-- An include names the host of a request exactly when their folds match and no character
above ASCII is behind the match. -/
theorem namesHost_iff {pattern : JString} {rule : Rule}
    (parsed : Rule.forInclude U pattern = .ok rule)
    (chars : ∀ c ∈ lower U host, isHostChar c = true) (start : (lower U host).head? ≠ some dot) :
    NamesHost (hostText pattern) host ↔
      hostMatches rule (lower U host) = true ∧ SameAboveAscii (hostText pattern) host := by
  obtain ⟨suffix, name⟩ := Rule.host_ok parsed
  have checked := (of_checkHostChars (Rule.parse_ok parsed).2).2.2
  rw [isPrefixOf_lower] at suffix
  cases wildcard : (js "*.").isPrefixOf (hostText pattern) with
  | true =>
      rw [wildcard] at suffix
      obtain ⟨base, typed⟩ := List.isPrefixOf_iff_prefix.1 wildcard
      have folded : lower U (hostText pattern) = ch '*' :: dot :: lower U base := by
        rw [← typed]
        show lower U (ch '*' :: dot :: base) = _
        rw [lower_cons_ascii (by decide), lower_cons_ascii (by decide)]
        rfl
      rw [suffix, if_pos rfl, folded] at name
      rw [suffix, if_pos rfl, name] at checked
      rw [hostMatches, suffix, if_pos rfl, name, ← typed]
      exact namesHost_suffix (fun c among => isHostChar_lt (checked c among)) chars start
  | false =>
      rw [wildcard] at suffix
      rw [suffix, if_neg (by simp)] at name
      rw [suffix, if_neg (by simp), name] at checked
      rw [hostMatches, suffix, if_neg (by simp), name, beq_iff_eq]
      exact namesHost_exact wildcard (fun c among => isHostChar_lt (checked c among)) chars

/-! ## The destination of an allowed request -/

variable {header : Header} {req : HxRequest} {auth : Authorisation}

/-- The target of a request in the terms of its frame. -/
def frameTarget (U : CaseMap) (header : Header) (req : HxRequest) : Target where
  scheme := schemeText (tlsOf header)
  host := lower U req.host
  port := portNumber (targetPort header)
  path := req.path

/-- What is issued goes to the frame's service, and its request target is the path and the
query of the request. -/
structure Connects (D : DigitMap) (header : Header) (req : HxRequest) (composed : Composed) :
    Prop where
  secure : secureOf composed.req = tlsOf header
  host : targetHost header = some composed.req.host
  port : portOf D composed.req = .ok (targetPort header).toInt
  target : ∃ target, requestTarget composed.wire = some target ∧
    target.takeWhile (fun c => c != question) = req.path ∧
    (target.dropWhile fun c => c != question).drop 1 = req.query

/-- One include has the frame's scheme and port, names its host, and covers every reading
of the path. -/
def Covered (U : CaseMap) (header : Header) (req : HxRequest) (auth : Authorisation) : Prop :=
  ∃ pattern ∈ scopeList auth.scope (js "scope.include"), ∃ rule,
    Rule.forInclude U pattern = .ok rule ∧ rule.scheme = schemeText (tlsOf header) ∧
    rule.port = portNumber (targetPort header) ∧ NamesHost (hostText pattern) req.host ∧
    ∀ reading ∈ readings U req.path none, ∃ spelling ∈ spellingReadings U rule.pathGlob,
      glob spelling reading = true

/-- No reading of an exclusion of this destination matches a reading of the path, and none of
a dangerous pattern matches a reading of the target. -/
def Undenied (U : CaseMap) (header : Header) (req : HxRequest) (auth : Authorisation) : Prop :=
  (∀ pattern ∈ scopeList auth.scope (js "scope.exclude"), ∀ rule,
    Rule.forExclude U pattern = .ok rule →
    rule.authorityMatches (frameTarget U header req) = true →
    ∀ p ∈ patternReadings U rule.pathGlob, ∀ reading ∈ readings U req.path none,
      glob (lower U p) (lower U reading) = false) ∧
  ∀ pattern ∈ dangerousPatterns auth.scope, ∀ p ∈ patternReadings U pattern,
    ∀ target ∈ targetReadings U req, glob (lower U p) (lower U target) = false

/-- What an allow promises about the destination of a send frame. -/
def AllowSound (U : CaseMap) (D : DigitMap) (upper : JChar → JChar) (header : Header)
    (body : List UInt8) (auth : Authorisation) : Prop :=
  ∀ req, parse header body = .ok req → (decideBeforeGate U req auth).allowed = true →
    (∀ ident composed, compose U upper req ident = .ok composed →
      Connects D header req composed) ∧
    Target.parse U req.url = .ok (frameTarget U header req) ∧
    Covered U header req auth ∧ Undenied U header req auth

variable {t : Target} {excludes includes : List Rule} {target : JString}

theorem Parsed.connects (parsed : Parsed header req target)
    (clean : ∀ c ∈ req.host, c ≠ slash ∧ c ≠ colon ∧ c ≠ ch '@' ∧ c ≠ ch ']')
    {ident : Option Entry} {composed : Composed}
    (h : compose U upper req ident = .ok composed) : Connects D header req composed := by
  obtain ⟨wire, method, url, host, path, query⟩ := compose_ok h
  obtain ⟨token, before, after⟩ := parsed.target_text
  have text : targetText composed.req = targetText req := by
    rw [targetText, targetText, path, query]
  exact {
    secure := secureOf_urlOf (url.trans parsed.url)
    host := host ▸ parsed.host
    port := portOf_urlOf clean parsed.port parsed.origin (url.trans parsed.url)
    target := by
      refine ⟨targetText req, ?_, before, after⟩
      rw [wire, requestTarget_wireBytes (method ▸ parsed.method) (text ▸ token), text] }

/-- The policy's target of an allowed request, and what its host is made of. -/
theorem Parsed.target_eq (parsed : Parsed header req target) (h : targetOf U req = .ok t) :
    t = frameTarget U header req ∧ (lower U req.host).head? ≠ some dot ∧
      ∀ c ∈ lower U req.host, isHostChar c = true := by
  obtain ⟨url, host, -⟩ := targetOf_ok h
  obtain ⟨-, start, chars⟩ := of_checkHostChars (Target.host_ok url)
  rw [host] at start chars
  rw [parsed.url] at url
  have whole := Target.parse_urlOf (fun c => host_clean chars) parsed.port parsed.origin url
  refine ⟨?_, start, chars⟩
  rw [whole, frameTarget, parsed.path]

theorem pathReadings_eq (clears : Clears U req auth t excludes includes)
    (same : t = frameTarget U header req) : pathReadings U t = readings U req.path none := by
  have whole := readings_none_of_within (overBudget_none clears.budget)
  rw [same] at whole ⊢
  exact whole.symm

theorem undenied_of_clears (clears : Clears U req auth t excludes includes)
    (same : t = frameTarget U header req) (h : ¬ DenyReading U req auth t excludes) :
    Undenied U header req auth := by
  have all := pathReadings_eq clears same
  constructor
  · intro pattern among rule parsed authority p listed reading member
    by_contra matched
    refine h (.inl ⟨rule, ((parseRules_ok clears.rules rule).1).2 ⟨pattern, among, parsed⟩, ?_⟩)
    have reads : rule.globReadings = patternReadings U rule.pathGlob := (Rule.parse_ok parsed).1
    rw [Rule.denies, same, authority, Bool.true_and, List.any_eq_true, reads]
    refine ⟨p, listed, List.any_eq_true.2 ⟨reading, ?_, by simpa using matched⟩⟩
    rw [← same, all]
    exact member
  · intro pattern among p listed target member
    by_contra matched
    refine h (.inr ⟨pattern, among, ?_⟩)
    rw [dangerous, List.any_eq_true]
    exact ⟨p, listed, List.any_eq_true.2 ⟨target, member, by simpa using matched⟩⟩

theorem authorityMatches_iff {rule : Rule} :
    rule.authorityMatches (frameTarget U header req) = true ↔
      rule.scheme = schemeText (tlsOf header) ∧ rule.port = portNumber (targetPort header) ∧
        hostMatches rule (lower U req.host) = true := by
  rw [Rule.authorityMatches, Bool.and_eq_true, Bool.and_eq_true, beq_iff_eq, beq_iff_eq, and_assoc]
  rfl

/-- An include that covers the request with no character above ASCII behind it is the one
the destination is authorised by. -/
theorem covered_iff (start : (lower U req.host).head? ≠ some dot)
    (chars : ∀ c ∈ lower U req.host, isHostChar c = true) : Covered U header req auth ↔
      ∃ pattern ∈ scopeList auth.scope (js "scope.include"), ∃ rule,
        Rule.forInclude U pattern = .ok rule ∧
        rule.allows (frameTarget U header req) (readings U req.path none) = true ∧
        SameAboveAscii (hostText pattern) req.host := by
  refine exists_congr fun pattern => and_congr_right fun _ => exists_congr fun rule =>
    and_congr_right fun parsed => ?_
  have reads : rule.globReadings = spellingReadings U rule.pathGlob := (Rule.parse_ok parsed).1
  rw [namesHost_iff parsed chars start, Rule.allows, Bool.and_eq_true, authorityMatches_iff, reads]
  simp only [List.all_eq_true, List.any_eq_true]
  constructor
  · rintro ⟨scheme, port, ⟨host, above⟩, covers⟩
    exact ⟨⟨⟨scheme, port, host⟩, covers⟩, above⟩
  · rintro ⟨⟨⟨scheme, port, host⟩, covers⟩, above⟩
    exact ⟨scheme, port, ⟨host, above⟩, covers⟩

/-- An allow is sound about the destination exactly when some include that covers the
request agrees with the frame's host on every character above ASCII. -/
theorem allow_sound_iff (U : CaseMap) (D : DigitMap) (upper : JChar → JChar) (header : Header)
    (body : List UInt8) (auth : Authorisation) :
    AllowSound U D upper header body auth ↔
      ∀ req, parse header body = .ok req → (decideBeforeGate U req auth).allowed = true →
        ∃ pattern ∈ scopeList auth.scope (js "scope.include"), ∃ rule,
          Rule.forInclude U pattern = .ok rule ∧
          rule.allows (frameTarget U header req) (readings U req.path none) = true ∧
          SameAboveAscii (hostText pattern) req.host := by
  refine forall₃_congr fun req read allowed => ?_
  obtain ⟨target, parsed⟩ := parse_ok read
  obtain ⟨t, excludes, includes, clears, undenied⟩ := decideBeforeGate_allowed.1 allowed
  obtain ⟨same, start, chars⟩ := parsed.target_eq clears.target
  rw [← covered_iff start chars]
  constructor
  · exact fun sound => sound.2.2.1
  · intro covered
    refine ⟨fun ident composed h => parsed.connects (fun c => host_clean chars) h, ?_, covered,
      undenied_of_clears clears same undenied⟩
    rw [← same]
    exact (targetOf_ok clears.target).1

/-- A send frame for a host spelled with a dotted capital I. -/
def dottedHost : Header := [(js "target_host", .string (0x130 :: js ".test"))]

/-- The bytes of a request for the root. -/
def rootRequest : List UInt8 := latin1Bytes (js "GET / HTTP/1.1" ++ crlf ++ crlf)

/-- That request. -/
def dottedRequest : HxRequest where
  method := js "GET"
  url := js "http://" ++ 0x130 :: js ".test/"
  host := 0x130 :: js ".test"
  path := js "/"
  query := []
  headers := []
  body := []

/-- An include of the ASCII host allows a connection to the other. -/
theorem dotted_host_allowed : ¬ ∀ header body auth,
    AllowSound basicCase basicDigits id header body auth := by
  intro sound
  have read : parse dottedHost rootRequest = .ok dottedRequest := by rfl
  have allowed : (decideBeforeGate basicCase dottedRequest (including "http://i.test/*")).allowed =
      true := by decide
  obtain ⟨-, -, ⟨pattern, among, rule, -, -, -, names, -⟩, -⟩ := sound _ _ _ _ read allowed
  obtain rfl : pattern = js "http://i.test/*" := List.mem_singleton.1 among
  have typed : hostText (js "http://i.test/*") = js "i.test" := by decide
  rw [typed] at names
  obtain same | ⟨base, label, domain, wildcard, -⟩ := names
  · have differ : asciiLower (js "i.test") ≠ asciiLower (0x130 :: js ".test") := by decide
    exact differ same
  · have plain : (js "*.").isPrefixOf (js "i.test") = false := by decide
    rw [wildcard, List.isPrefixOf_iff_prefix.2 ⟨base, rfl⟩] at plain
    cases plain

end Hx.Send
