import Hx.Checks.Template
import Hx.Issue.HttpText

/-!
# The address a probe is sent to

A surface's exemplar is read twice: its URL goes through `surface.normalise` and becomes the
template, its request line goes through `insertion.request_path` and becomes the path a probe
is built from. Both use `urlsplit`, which takes a target that starts with `//` for a network
location and drops tabs and line ends. Where the target's path has neither, the two readings
are of one path.
-/

namespace Hx.Checks

open Hx.Python Hx.Issue.HttpText

/-- `insertion._request_target`. -/
def requestTarget (head : Bytes) : Option (List Char) :=
  match (strip1 (head.takeWhile (· ≠ 10))).splitOn 32 with
  | _ :: target :: _ => some (latin1 target)
  | _ => none

/-- `insertion.request_path`; `error` is the `ValueError` of `urlsplit`. -/
def requestPath (bracketed : List Char → Bool) (request : Bytes) :
    Except Unit (Option (List Char)) :=
  match requestTarget request with
  | none => .ok none
  | some target =>
      match urlsplitPath bracketed target with
      | .error raised => .error raised
      | .ok path => .ok (if path.head? = some '/' then some path else none)

/-- The text `ProbeSender._request_bytes` encodes. -/
def requestText (host : String) (q : Request) : String :=
  String.intercalate "\r\n" (s!"GET {q.path} HTTP/1.1" :: s!"Host: {host}" ::
    q.headers.map fun h => s!"{h.1}: {h.2}") ++ "\r\n\r\n"

/-- `ProbeSender._request_bytes`; nothing where the text has no Latin-1. -/
def requestBytes (host : String) (q : Request) : Option Bytes :=
  if isLatin1 (requestText host q) then some (ascii (requestText host q)) else none

/-- A captured request with an origin-form target, and the origin it was sent to. -/
structure CapturedRequest where
  method : Bytes
  target : Bytes
  version : Bytes
  rest : Bytes
  secure : Bool
  authority : List Char
  methodPlain : 32 ∉ method ∧ 10 ∉ method
  originForm : target.head? = some 47
  targetPlain : 32 ∉ target ∧ 10 ∉ target
  versionPlain : 10 ∉ version
  authorityPlain : ∀ c ∈ authority,
    (0x20 < c.toNat ∧ c.toNat < 0x7f) ∧ c ∉ ['/', '?', '#', '[', ']']

namespace CapturedRequest

/-- The request's bytes, its request line first. -/
def raw (c : CapturedRequest) : Bytes :=
  c.method ++ 32 :: (c.target ++ 32 :: (c.version ++ 10 :: c.rest))

/-- The URL the capture is recorded under: the origin with the target behind it. -/
def url (c : CapturedRequest) : List Char :=
  (if c.secure then "https" else "http").toList ++ ':' :: '/' :: '/' ::
    (c.authority ++ latin1 c.target)

/-- The part of the target before the first `?` or `#`. -/
def path (c : CapturedRequest) : List Char := beforeQuery (latin1 c.target)

/-- `path_template` of the surface the capture is filed under. -/
def template (c : CapturedRequest) (bracketed : List Char → Bool) (n : Normaliser) :
    Except Unit (List Char) :=
  (urlsplitPath bracketed c.url).map (pathTemplate n)

/-- What `urlsplit` leaves of the path alone: no second slash at its start, no tab and no
line end in it. -/
def Direct (c : CapturedRequest) : Prop :=
  ¬ ['/', '/'] <+: c.path ∧ ∀ ch ∈ c.path, isUnsafe ch = false

end CapturedRequest

/-- The text of a query. -/
def queryText (name value : String) : List Char :=
  (quote name).toList ++ '=' :: (quote value).toList

/-- What probes are owed: the path is the captured one, a query probe's request line names
it, and the template has a segment for each of its own, so that `substitute_segment` replaces
the segments the template calls by the placeholder and no others. -/
structure Addressed (bracketed : List Char → Bool) (n : Normaliser) (c : CapturedRequest) :
    Prop where
  path : requestPath bracketed c.raw = .ok (some c.path)
  probed : ∀ path, requestPath bracketed c.raw = .ok (some path) →
    ∀ host name value headers bytes,
      requestBytes host ⟨queryPath (.ofList path) name value, headers⟩ = some bytes →
        requestTarget bytes = some (c.path ++ '?' :: queryText name value)
  filed : ∀ path, requestPath bracketed c.raw = .ok (some path) →
    ∃ template, c.template bracketed n = .ok template ∧
      ((pathTemplate n path).splitOn '/').length = (template.splitOn '/').length
  substituted : ∀ path template, requestPath bracketed c.raw = .ok (some path) →
    c.template bracketed n = .ok template → ∀ placeholder ∈ template.splitOn '/', ∀ value,
      ∃ out, substituteSegment (.ofList path) (.ofList template) (.ofList placeholder)
          (quote value) = some out ∧
        out.toList.splitOn '/' =
          List.zipWith (fun s t => if t = placeholder then (quote value).toList else s)
            (path.splitOn '/') (template.splitOn '/')

/-! ## Request lines -/

section Lines

variable {method target version rest : Bytes}

theorem strip1_behind (front version : Bytes) :
    ∃ kept, strip1 (front ++ 32 :: version) = front ++ 32 :: kept := by
  rw [strip1]
  split
  · refine ⟨version.dropLast, ?_⟩
    rename_i cr
    have some_ : version ≠ [] := by
      rintro rfl
      rw [List.getLast?_append_of_ne_nil _ (List.cons_ne_nil _ _)] at cr
      contradiction
    rw [List.dropLast_append_of_ne_nil (List.cons_ne_nil _ _), List.dropLast_cons_of_ne_nil some_]
  · exact ⟨version, rfl⟩

theorem requestTarget_line (methodPlain : 32 ∉ method ∧ 10 ∉ method)
    (targetPlain : 32 ∉ target ∧ 10 ∉ target) (versionPlain : 10 ∉ version) :
    requestTarget (method ++ 32 :: (target ++ 32 :: (version ++ 10 :: rest))) =
      some (latin1 target) := by
  have plain : ∀ b ∈ method ++ 32 :: (target ++ 32 :: version), decide (b ≠ 10) = true := by
    intro b mem
    refine decide_eq_true ?_
    rintro rfl
    simp only [List.mem_append, List.mem_cons, methodPlain.2, targetPlain.2, versionPlain,
      or_false, false_or] at mem
    contradiction
  have line : (method ++ 32 :: (target ++ 32 :: (version ++ 10 :: rest))).takeWhile (· ≠ 10) =
      (method ++ 32 :: target) ++ 32 :: version := by
    have whole : method ++ 32 :: (target ++ 32 :: (version ++ 10 :: rest)) =
        (method ++ 32 :: (target ++ 32 :: version)) ++ 10 :: rest := by simp
    rw [whole, List.takeWhile_append_of_pos plain, List.takeWhile_cons_of_neg (by decide)]
    simp
  obtain ⟨kept, stripped⟩ := strip1_behind (method ++ 32 :: target) version
  rw [requestTarget, line, stripped, List.append_assoc, List.cons_append,
    List.splitOn_append_cons_self_of_not_mem methodPlain.1,
    List.splitOn_append_cons_self_of_not_mem targetPlain.1]

end Lines

/-! ## What `urlsplit` makes of a target -/

section Urls

variable {bracketed : List Char → Bool} {t u : List Char}

/-- Without what `urlsplit` drops. -/
def safeText (t : List Char) : List Char := t.filter fun c => !isUnsafe c

theorem beforeQuery_cons (c : Char) (u : List Char) :
    beforeQuery (c :: u) = if c ≠ '?' ∧ c ≠ '#' then c :: beforeQuery u else [] := by
  rw [beforeQuery, List.takeWhile_cons]
  by_cases stops : c ≠ '?' ∧ c ≠ '#'
  · rw [if_pos stops, if_pos (by simpa using stops)]
    rfl
  · rw [if_neg stops, if_neg (by simpa using stops)]

theorem beforeQuery_safeText (t : List Char) :
    beforeQuery (safeText t) = safeText (beforeQuery t) := by
  induction t with
  | nil => rfl
  | cons c t ih =>
      by_cases stops : c ≠ '?' ∧ c ≠ '#'
      · rw [beforeQuery_cons, if_pos stops]
        cases dropped : isUnsafe c with
        | true => simpa [safeText, dropped] using ih
        | false => simpa [safeText, dropped, beforeQuery_cons, stops] using ih
      · have kept : isUnsafe c = false := by
          obtain rfl | rfl : c = '?' ∨ c = '#' := by
            by_contra neither
            exact stops (not_or.1 neither)
          · rfl
          · rfl
        rw [beforeQuery_cons, if_neg stops, safeText, List.filter_cons, kept]
        exact (beforeQuery_cons c _).trans (if_neg stops)

theorem safeText_eq_self (safe : ∀ c ∈ t, isUnsafe c = false) : safeText t = t :=
  List.filter_eq_self.2 fun c mem => by rw [safe c mem]; rfl

/-- A text that starts with `/` has no scheme. -/
theorem afterScheme_slash (u : List Char) : afterScheme ('/' :: u) = '/' :: u := by
  rw [afterScheme, partition, List.span_eq_takeWhile_dropWhile,
    List.takeWhile_cons_of_pos (by decide), List.dropWhile_cons_of_pos (by decide)]
  cases u.dropWhile (· ≠ ':') with
  | nil => rfl
  | cons _ _ => rfl

theorem cleaned_slash (u : List Char) :
    (('/' :: u).dropWhile isControlOrSpace).filter (fun c => !isUnsafe c) = '/' :: safeText u := by
  rw [List.dropWhile_cons_of_neg (by decide), List.filter_cons_of_pos (by decide)]
  rfl

theorem urlsplitPath_slash (nowhere : netloc ('/' :: safeText u) = none) :
    urlsplitPath bracketed ('/' :: u) =
      .ok (beforeQuery (afterNetloc ('/' :: safeText u))) := by
  rw [urlsplitPath, cleaned_slash, afterScheme_slash, nowhere]

theorem path_of_urlsplitPath {path : List Char}
    (read : urlsplitPath bracketed ('/' :: u) = .ok path) :
    path = beforeQuery (afterNetloc ('/' :: safeText u)) := by
  rw [urlsplitPath, cleaned_slash, afterScheme_slash] at read
  split at read
  · exact (Except.ok.inj read).symm
  · split at read
    · exact (Except.ok.inj read).symm
    · contradiction

/-- Dropping a network location leaves a path no longer than what it was cut from. -/
theorem length_beforeQuery_dropWhile (u : List Char) :
    (beforeQuery (u.dropWhile fun c => c ≠ '/' && c ≠ '?' && c ≠ '#')).length ≤
      (beforeQuery u).length := by
  induction u with
  | nil => exact le_rfl
  | cons c u ih =>
      rw [List.dropWhile_cons]
      split
      · rename_i inside
        have passes : c ≠ '?' ∧ c ≠ '#' := by
          simp only [Bool.and_eq_true, decide_eq_true_eq] at inside
          exact ⟨inside.1.2, inside.2⟩
        rw [beforeQuery_cons, if_pos passes]
        exact ih.trans (Nat.le_succ _)
      · exact le_rfl

theorem afterNetloc_suffix (u : List Char) : afterNetloc u <:+ u := by
  rw [afterNetloc.eq_def]
  split
  · exact (List.dropWhile_suffix _).trans ((List.suffix_cons _ _).trans (List.suffix_cons _ _))
  · exact List.suffix_rfl

theorem urlsplitPath_direct (start : t.head? = some '/') (single : ¬ ['/', '/'] <+: beforeQuery t)
    (safe : ∀ c ∈ beforeQuery t, isUnsafe c = false) :
    urlsplitPath bracketed t = .ok (beforeQuery t) := by
  cases t with
  | nil => contradiction
  | cons d u =>
      obtain rfl : d = '/' := Option.some.inj start
      have cut := beforeQuery_safeText ('/' :: u)
      rw [safeText_eq_self safe] at cut
      have whole : safeText ('/' :: u) = '/' :: safeText u := rfl
      rw [whole] at cut
      have one : ∀ rest, safeText u ≠ '/' :: rest := by
        intro rest same
        refine single ?_
        rw [← cut, same, beforeQuery_cons, if_pos (by decide), beforeQuery_cons,
          if_pos (by decide)]
        exact ⟨_, rfl⟩
      have alone : netloc ('/' :: safeText u) = none ∧
          afterNetloc ('/' :: safeText u) = '/' :: safeText u := by
        cases again : safeText u with
        | nil => exact ⟨rfl, rfl⟩
        | cons c rest =>
            have other : c ≠ '/' := fun same => one rest (same ▸ again)
            constructor
            · simp [netloc, other]
            · simp [afterNetloc, other]
      rw [urlsplitPath_slash alone.1, alone.2, cut]

theorem direct_of_urlsplitPath (start : t.head? = some '/')
    (read : urlsplitPath bracketed t = .ok (beforeQuery t)) :
    ¬ ['/', '/'] <+: beforeQuery t ∧ ∀ c ∈ beforeQuery t, isUnsafe c = false := by
  cases t with
  | nil => contradiction
  | cons d u =>
      obtain rfl : d = '/' := Option.some.inj start
      have path := (path_of_urlsplitPath read).symm
      have safe : ∀ c ∈ beforeQuery ('/' :: u), isUnsafe c = false := by
        intro c mem
        rw [← path] at mem
        have there : c ∈ safeText ('/' :: u) := (afterNetloc_suffix _).subset (List.takeWhile_subset _ mem)
        simpa using (List.mem_filter.1 there).2
      refine ⟨?_, safe⟩
      have cut := beforeQuery_safeText ('/' :: u)
      have whole : safeText ('/' :: u) = '/' :: safeText u := rfl
      rw [safeText_eq_self safe, whole, beforeQuery_cons, if_pos (by decide)] at cut
      rintro ⟨rest, double⟩
      rw [← double] at cut
      have later : beforeQuery (safeText u) = '/' :: rest := (List.cons.inj cut).2
      cases again : safeText u with
      | nil =>
          rw [again] at later
          contradiction
      | cons c v =>
          rw [again, beforeQuery_cons] at later
          have slash : c = '/' ∧ beforeQuery v = rest := by
            split at later
            · exact List.cons.inj later
            · contradiction
          obtain ⟨rfl, rfl⟩ := slash
          have bound := length_beforeQuery_dropWhile v
          have shorter : (beforeQuery (afterNetloc ('/' :: '/' :: v))).length ≤
              (beforeQuery v).length := bound
          rw [← again, path, ← double, List.length_append] at shorter
          simp only [List.length_cons] at shorter
          omega

end Urls

/-! ## Probes -/

section Probes

variable {host name value : String} {q : Request} {bytes : Bytes}

theorem toNat_byte {c : Char} (small : c.toNat < 256) : (UInt8.ofNat c.toNat).toNat = c.toNat := by
  rw [UInt8.toNat_ofNat']
  exact Nat.mod_eq_of_lt small

theorem toNat_char {n : Nat} (small : n < 256) : (Char.ofNat n).toNat = n := by
  rw [Char.ofNat, dif_pos (.inl (by omega))]
  rfl

/-- Latin-1 text decodes to what was encoded. -/
theorem latin1_encoded {s : List Char} (small : ∀ c ∈ s, c.toNat < 256) :
    latin1 (s.map fun c => UInt8.ofNat c.toNat) = s := by
  rw [latin1, List.map_map]
  have same : ∀ c ∈ s, Char.ofNat (UInt8.ofNat c.toNat).toNat = c := by
    intro c mem
    rw [toNat_byte (small c mem), Char.ofNat_toNat]
  exact (List.map_congr_left same).trans (List.map_id _)

theorem notMem_encoded {s : List Char} (small : ∀ c ∈ s, c.toNat < 256) {d : Char}
    (bound : d.toNat < 256) (plain : d ∉ s) :
    UInt8.ofNat d.toNat ∉ s.map fun c => UInt8.ofNat c.toNat := by
  intro mem
  obtain ⟨c, there, same⟩ := List.mem_map.1 mem
  have nat := congrArg UInt8.toNat same
  rw [toNat_byte (small c there), toNat_byte bound] at nat
  exact plain (Char.toNat_inj.1 nat ▸ there)

/-- The request line, and everything behind it. -/
theorem toList_requestText (host : String) (q : Request) : ∃ rest,
    (requestText host q).toList = "GET".toList ++ ' ' :: (q.path.toList ++ ' ' ::
      ("HTTP/1.1\r".toList ++ '\n' :: rest)) := by
  rw [requestText, String.intercalate_cons_cons]
  refine ⟨(String.intercalate "\r\n" (s!"Host: {host}" ::
    q.headers.map fun h => s!"{h.1}: {h.2}")).toList ++ "\r\n\r\n".toList, ?_⟩
  simp [String.toList_append, toString]

/-- The request line a sender writes names the path it was given. -/
theorem requestTarget_requestBytes (plain : ' ' ∉ q.path.toList ∧ '\n' ∉ q.path.toList)
    (built : requestBytes host q = some bytes) : requestTarget bytes = some q.path.toList := by
  rw [requestBytes] at built
  split at built
  · rename_i latin
    obtain rfl := Option.some.inj built
    obtain ⟨rest, text⟩ := toList_requestText host q
    have small : ∀ c ∈ q.path.toList, c.toNat < 256 := by
      intro c mem
      refine of_decide_eq_true (List.all_eq_true.1 latin c ?_)
      rw [text]
      simp [mem]
    have parts : ascii (requestText host q) = ascii "GET" ++ 32 :: (ascii q.path ++ 32 ::
        (ascii "HTTP/1.1\r" ++ 10 :: rest.map fun c => UInt8.ofNat c.toNat)) := by
      rw [ascii, text]
      simp [ascii]
    have space : 32 ∉ ascii q.path := notMem_encoded small (by decide) plain.1
    have feed : 10 ∉ ascii q.path := notMem_encoded small (by decide) plain.2
    have verb : 32 ∉ ascii "GET" ∧ 10 ∉ ascii "GET" := by decide
    have version : 10 ∉ ascii "HTTP/1.1\r" := by decide
    rw [parts, requestTarget_line verb ⟨space, feed⟩ version]
    exact congrArg some (latin1_encoded small)
  · contradiction

/-- What holds of the characters a byte is quoted with holds of a quoted text. -/
theorem forall_quote {p : Char → Prop}
    (plain : ∀ n < 127, unreserved (UInt8.ofNat n) = true → p (Char.ofNat n)) (percent : p '%')
    (digits : ∀ n < 16, p (hexDigit n)) (s : String) (c : Char) (mem : c ∈ (quote s).toList) :
    p c := by
  rw [quote, String.toList_ofList] at mem
  obtain ⟨x, -, mem⟩ := List.mem_flatMap.1 mem
  have bound := x.toNat_lt
  split at mem
  · rename_i alone
    rw [List.mem_singleton.1 mem]
    have small : x.toNat < 127 := by
      simp [unreserved, UInt8.le_iff_toNat_le, ← UInt8.toNat_inj] at alone
      omega
    exact plain x.toNat small (by rwa [UInt8.ofNat_toNat])
  · simp only [List.mem_cons, List.not_mem_nil, or_false] at mem
    obtain rfl | rfl | rfl := mem
    · exact percent
    · exact digits _ (by omega)
    · exact digits _ (by omega)

/-- A quoted text has no separator in it. -/
theorem plain_quote (s : String) {c : Char} (mem : c ∈ (quote s).toList) :
    c ≠ ' ' ∧ c ≠ '\n' ∧ c ≠ '/' :=
  forall_quote (p := fun c => c ≠ ' ' ∧ c ≠ '\n' ∧ c ≠ '/') (by decide) (by decide) (by decide)
    s c mem

theorem toList_queryPath (path : List Char) (name value : String) :
    (queryPath (.ofList path) name value).toList = path ++ '?' :: queryText name value := by
  simp [queryPath, queryText, String.toList_append, toString]

theorem plain_queryText {c : Char} (mem : c ∈ '?' :: queryText name value) :
    c ≠ ' ' ∧ c ≠ '\n' := by
  obtain rfl | mem := List.mem_cons.1 mem
  · decide
  · obtain mem | mem := List.mem_append.1 mem
    · exact ⟨(plain_quote name mem).1, (plain_quote name mem).2.1⟩
    · obtain rfl | mem := List.mem_cons.1 mem
      · decide
      · exact ⟨(plain_quote value mem).1, (plain_quote value mem).2.1⟩

/-- The request line of a query probe. -/
theorem requestTarget_queryPath {path : List Char} {headers : List (String × String)}
    (plain : ' ' ∉ path ∧ '\n' ∉ path)
    (built : requestBytes host ⟨queryPath (.ofList path) name value, headers⟩ = some bytes) :
    requestTarget bytes = some (path ++ '?' :: queryText name value) := by
  have absent : ∀ c, c ∉ path → (c = ' ' ∨ c = '\n') →
      c ∉ (queryPath (.ofList path) name value).toList := by
    intro c outside blank mem
    rw [toList_queryPath] at mem
    obtain mem | mem := List.mem_append.1 mem
    · exact outside mem
    · obtain rfl | rfl := blank
      · exact (plain_queryText mem).1 rfl
      · exact (plain_queryText mem).2 rfl
  have clean : ' ' ∉ (queryPath (.ofList path) name value).toList ∧
      '\n' ∉ (queryPath (.ofList path) name value).toList :=
    ⟨absent _ plain.1 (.inl rfl), absent _ plain.2 (.inr rfl)⟩
  have target := requestTarget_requestBytes
    (q := ⟨queryPath (.ofList path) name value, headers⟩) clean built
  exact target.trans (congrArg some (toList_queryPath path name value))

/-- `substitute_segment` between a path and a template of as many segments. -/
theorem splitOn_substituteSegment {path template placeholder value : List Char}
    (same : (path.splitOn '/').length = (template.splitOn '/').length)
    (called : placeholder ∈ template.splitOn '/') (plain : '/' ∉ value) :
    ∃ out, substituteSegment (.ofList path) (.ofList template) (.ofList placeholder)
        (.ofList value) = some out ∧
      out.toList.splitOn '/' = List.zipWith (fun s t => if t = placeholder then value else s)
        (path.splitOn '/') (template.splitOn '/') := by
  have pieces : ∀ text : List Char,
      (String.ofList text).splitOn "/" = (text.splitOn '/').map .ofList := by
    intro text
    have cut := Library.splitOn_char '/' (.ofList text)
    rwa [String.toList_ofList] at cut
  have there : String.ofList placeholder ∈ (template.splitOn '/').map String.ofList :=
    List.mem_map_of_mem called
  rw [substituteSegment, pieces, pieces, if_neg (by simpa using same), if_neg (not_not.2 there)]
  refine ⟨_, rfl, ?_⟩
  have texts : (List.zipWith (fun s t => if t = String.ofList placeholder then .ofList value else s)
      ((path.splitOn '/').map String.ofList) ((template.splitOn '/').map String.ofList)).map
        String.toList =
      List.zipWith (fun s t => if t = placeholder then value else s) (path.splitOn '/')
        (template.splitOn '/') := by
    rw [List.map_zipWith, List.zipWith_map]
    refine congrArg₂ (fun f (l : List (List Char)) => List.zipWith f l (template.splitOn '/')) ?_ rfl
    funext s t
    by_cases here : t = placeholder
    · simp [here]
    · have other : String.ofList t ≠ .ofList placeholder := fun same =>
        here (String.ofList_injective same)
      rw [if_neg here, if_neg other, String.toList_ofList]
  rw [String.toList_intercalate, texts]
  refine List.splitOn_intercalate _ ?_ ?_
  · intro piece mem
    obtain ⟨i, bound, rfl⟩ := List.mem_iff_getElem.1 mem
    rw [List.getElem_zipWith]
    split
    · exact plain
    · exact (Library.mem_splitOn (List.getElem_mem _)).1
  · intro empty
    have none_ := congrArg List.length empty
    rw [List.length_zipWith, ← same, Nat.min_self] at none_
    exact List.splitOn_ne_nil '/' path (List.length_eq_zero_iff.1 none_)

end Probes

/-! ## The two readings of a capture -/

namespace CapturedRequest

variable {bracketed : List Char → Bool} {n : Normaliser} {c : CapturedRequest}

theorem start (c : CapturedRequest) : (latin1 c.target).head? = some '/' := by
  rw [latin1, List.head?_map, c.originForm]
  rfl

theorem path_eq_cons (c : CapturedRequest) : ∃ rest, c.path = '/' :: rest := by
  cases text : latin1 c.target with
  | nil =>
      have start := c.start
      rw [text] at start
      contradiction
  | cons d u =>
      have start := c.start
      rw [text] at start
      obtain rfl : d = '/' := Option.some.inj start
      exact ⟨beforeQuery u, by rw [path, text, beforeQuery_cons, if_pos (by decide)]⟩

theorem requestTarget_raw (c : CapturedRequest) :
    requestTarget c.raw = some (latin1 c.target) :=
  requestTarget_line c.methodPlain c.targetPlain c.versionPlain

theorem requestPath_raw (c : CapturedRequest) :
    requestPath bracketed c.raw = .ok (some c.path) ↔
      urlsplitPath bracketed (latin1 c.target) = .ok c.path := by
  obtain ⟨rest, start⟩ := c.path_eq_cons
  cases split : urlsplitPath bracketed (latin1 c.target) with
  | error raised =>
      simp only [requestPath, requestTarget_raw, split]
      constructor
      · intro read
        contradiction
      · intro read
        contradiction
  | ok path =>
      simp only [requestPath, requestTarget_raw, split]
      constructor
      · intro read
        have same := Except.ok.inj read
        split at same
        · rw [Option.some.inj same]
        · contradiction
      · intro same
        rw [Except.ok.inj same, if_pos (by rw [start]; rfl)]

/-- The exemplar's request line is read back exactly where `urlsplit` leaves it alone. -/
theorem requestPath_raw_iff : requestPath bracketed c.raw = .ok (some c.path) ↔ c.Direct := by
  rw [requestPath_raw]
  constructor
  · exact direct_of_urlsplitPath c.start
  · exact fun direct => urlsplitPath_direct c.start direct.1 direct.2

theorem partition_append {α : Type} [DecidableEq α] {sep : α} {a : List α} (plain : sep ∉ a)
    (b : List α) : partition sep (a ++ sep :: b) = (a, some b) := by
  have passes : ∀ x ∈ a, decide (x ≠ sep) = true := by
    intro x mem
    exact decide_eq_true fun same => plain (same ▸ mem)
  rw [partition, List.span_eq_takeWhile_dropWhile, List.takeWhile_append_of_pos passes,
    List.dropWhile_append_of_pos passes, List.takeWhile_cons_of_neg (by simp),
    List.dropWhile_cons_of_neg (by simp), List.append_nil]

theorem safe_authority {ch : Char} (mem : ch ∈ c.authority) : isUnsafe ch = false := by
  have printed := (c.authorityPlain ch mem).1.1
  simp only [isUnsafe, Bool.or_eq_false_iff, beq_eq_false_iff_ne]
  refine ⟨⟨?_, ?_⟩, ?_⟩
  · rintro rfl
    exact absurd printed (by decide)
  · rintro rfl
    exact absurd printed (by decide)
  · rintro rfl
    exact absurd printed (by decide)

/-- The URL without what `urlsplit` drops. -/
theorem cleaned_url (c : CapturedRequest) :
    (c.url.dropWhile isControlOrSpace).filter (fun ch => !isUnsafe ch) =
      (if c.secure then "https" else "http").toList ++ ':' :: '/' :: '/' ::
        (c.authority ++ safeText (latin1 c.target)) := by
  have place : safeText c.authority = c.authority := safeText_eq_self fun _ => safe_authority
  have behind : ('/' :: '/' :: (c.authority ++ latin1 c.target)).filter (fun ch => !isUnsafe ch) =
      '/' :: '/' :: (c.authority ++ safeText (latin1 c.target)) := by
    rw [List.filter_cons_of_pos (by decide), List.filter_cons_of_pos (by decide),
      List.filter_append]
    exact congrArg (fun text => '/' :: '/' :: (text ++ safeText (latin1 c.target))) place
  rw [url]
  cases c.secure with
  | true => exact congrArg (fun text => "https:".toList ++ text) behind
  | false => exact congrArg (fun text => "http:".toList ++ text) behind

theorem afterScheme_url (c : CapturedRequest) :
    afterScheme ((c.url.dropWhile isControlOrSpace).filter fun ch => !isUnsafe ch) =
      '/' :: '/' :: (c.authority ++ safeText (latin1 c.target)) := by
  have scheme : ':' ∉ (if c.secure then "https" else "http").toList := by
    cases c.secure <;> decide
  rw [cleaned_url, afterScheme, partition_append scheme]
  cases c.secure with
  | true => rfl
  | false => rfl

theorem safeText_target (c : CapturedRequest) :
    ∃ rest, safeText (latin1 c.target) = '/' :: rest := by
  cases text : latin1 c.target with
  | nil =>
      have start := c.start
      rw [text] at start
      contradiction
  | cons d u =>
      have start := c.start
      rw [text] at start
      obtain rfl : d = '/' := Option.some.inj start
      exact ⟨safeText u, rfl⟩

theorem bracketsFit_authority (c : CapturedRequest) : bracketsFit bracketed c.authority = true := by
  have bracket : ∀ b ∈ ['[', ']'], c.authority.contains b = false := by
    intro b mem
    refine List.contains_eq_mem b c.authority ▸ decide_eq_false fun there => ?_
    refine (c.authorityPlain b there).2 ?_
    simp only [List.mem_cons, List.not_mem_nil, or_false] at mem ⊢
    tauto
  rw [bracketsFit, bracket '[' (by simp), bracket ']' (by simp)]
  rfl

/-- The URL's path is the target's as `urlsplit` cleans it, whatever it starts with. -/
theorem urlsplitPath_url (c : CapturedRequest) :
    urlsplitPath bracketed c.url = .ok (safeText c.path) := by
  obtain ⟨rest, text⟩ := c.safeText_target
  have inside : ∀ ch ∈ c.authority,
      (decide (ch ≠ '/') && decide (ch ≠ '?') && decide (ch ≠ '#')) = true := by
    intro ch mem
    have plain := (c.authorityPlain ch mem).2
    simp only [List.mem_cons, not_or] at plain
    simp [plain.1, plain.2.1, plain.2.2.1]
  have place : netloc ('/' :: '/' :: (c.authority ++ safeText (latin1 c.target))) =
      some c.authority := by
    rw [netloc, List.takeWhile_append_of_pos inside, text,
      List.takeWhile_cons_of_neg (by decide), List.append_nil]
  have behind : afterNetloc ('/' :: '/' :: (c.authority ++ safeText (latin1 c.target))) =
      safeText (latin1 c.target) := by
    rw [afterNetloc, List.dropWhile_append_of_pos inside, text,
      List.dropWhile_cons_of_neg (by decide)]
  simp only [urlsplitPath, afterScheme_url, place, behind, bracketsFit_authority, if_true,
    beforeQuery_safeText]
  rfl

theorem template_of_direct (direct : c.Direct) :
    c.template bracketed n = .ok (pathTemplate n c.path) := by
  rw [template, urlsplitPath_url, safeText_eq_self direct.2]
  rfl

theorem notMem_path {b : UInt8} (absent : b ∉ c.target) : Char.ofNat b.toNat ∉ c.path := by
  intro mem
  obtain ⟨x, there, same⟩ := List.mem_map.1 (List.takeWhile_subset _ mem)
  have codes := congrArg Char.toNat same
  rw [toNat_char x.toNat_lt, toNat_char b.toNat_lt] at codes
  exact absent (UInt8.toNat_inj.1 codes ▸ there)

end CapturedRequest

open CapturedRequest in
/-- Probes go where the capture went exactly where `urlsplit` leaves the target's path alone. -/
theorem addressed_iff (bracketed : List Char → Bool) (n : Normaliser) (c : CapturedRequest) :
    Addressed bracketed n c ↔ c.Direct := by
  constructor
  · exact fun addressed => requestPath_raw_iff.1 addressed.path
  · intro direct
    have path : requestPath bracketed c.raw = .ok (some c.path) := requestPath_raw_iff.2 direct
    have only : ∀ path, requestPath bracketed c.raw = .ok (some path) → path = c.path := by
      intro other read
      rw [path] at read
      exact (Option.some.inj (Except.ok.inj read)).symm
    have template : c.template bracketed n = .ok (pathTemplate n c.path) :=
      template_of_direct direct
    obtain ⟨rest, start⟩ := c.path_eq_cons
    have some_ : c.path ≠ [] := by
      rw [start]
      exact List.cons_ne_nil _ _
    constructor
    · exact path
    · intro path read host name value headers bytes built
      obtain rfl := only path read
      exact requestTarget_queryPath
        ⟨notMem_path c.targetPlain.1, notMem_path c.targetPlain.2⟩ built
    · intro path read
      obtain rfl := only path read
      exact ⟨_, template, rfl⟩
    · intro path filed read answer placeholder called value
      obtain rfl := only path read
      rw [template] at answer
      obtain rfl := Except.ok.inj answer
      have plain : '/' ∉ (quote value).toList := fun mem => (plain_quote value mem).2.2 rfl
      have made := splitOn_substituteSegment (length_pathTemplate some_).symm called plain
      rwa [String.ofList_toList] at made

/-! ## A target with an empty first segment -/

theorem get_plain : 32 ∉ ascii "GET" ∧ 10 ∉ ascii "GET" := by decide

theorem admin_originForm : (ascii "//admin/7").head? = some 47 := by decide

theorem admin_plain : 32 ∉ ascii "//admin/7" ∧ 10 ∉ ascii "//admin/7" := by decide

theorem version_plain : 10 ∉ ascii "HTTP/1.1\r" := by decide

theorem host_plain : ∀ c ∈ "h.test".toList,
    (0x20 < c.toNat ∧ c.toNat < 0x7f) ∧ c ∉ ['/', '?', '#', '[', ']'] := by
  have all : "h.test".toList.all (fun c => decide ((0x20 < c.toNat ∧ c.toNat < 0x7f) ∧
      c ∉ ['/', '?', '#', '[', ']'])) = true := by decide
  exact fun c mem => of_decide_eq_true (List.all_eq_true.1 all c mem)

def adminRequest : CapturedRequest where
  method := ascii "GET"
  target := ascii "//admin/7"
  version := ascii "HTTP/1.1\r"
  rest := ascii "Host: h.test\r\n\r\n"
  secure := true
  authority := "h.test".toList
  methodPlain := get_plain
  originForm := admin_originForm
  targetPlain := admin_plain
  versionPlain := version_plain
  authorityPlain := host_plain

/-- A request for `//admin/7` is probed at `/7`. -/
theorem empty_first_segment : ¬ ∀ (bracketed : List Char → Bool) (n : Normaliser)
    (c : CapturedRequest), Addressed bracketed n c := by
  intro all
  have path := (all (fun _ => false) ⟨[], 12⟩ adminRequest).path
  have probed : requestPath (fun _ => false) adminRequest.raw = .ok (some "/7".toList) := by decide
  rw [path] at probed
  exact absurd (Option.some.inj (Except.ok.inj probed)) (by decide)

end Hx.Checks
