import Hx.Crawl.Page
import Hx.Python.Text
import Mathlib

/-!
# The normal form of an address

`normalise` puts an address together again from what `urlsplit` found in it. Two kinds of address
come out as another: one with the port 0, which counts as no port, and one whose bracketed host has
an opening bracket and no colon in it, which loses its own brackets.
-/

namespace Hx.Crawl

open Hx.Library

/-! ## `urllib.parse` -/

namespace Address

def colon : Fin 0x110000 := chr 58

def slash : Fin 0x110000 := chr 47

def question : Fin 0x110000 := chr 63

def hash : Fin 0x110000 := chr 35

def commercialAt : Fin 0x110000 := chr 64

def percent : Fin 0x110000 := chr 37

def opening : Fin 0x110000 := chr 91

def closing : Fin 0x110000 := chr 93

def dot : Fin 0x110000 := chr 46

/-- The first part of `s.partition(sep)`. -/
def before (sep : Fin 0x110000) (s : Text) : Text := s.takeWhile (· ≠ sep)

/-- The last part of `s.partition(sep)`. -/
def after (sep : Fin 0x110000) (s : Text) : Text := (s.dropWhile (· ≠ sep)).drop 1

def isDigit (c : Fin 0x110000) : Bool := 48 ≤ c.val && c.val ≤ 57

def isLetter (c : Fin 0x110000) : Bool :=
  (0x41 ≤ c.val && c.val ≤ 0x5a) || (0x61 ≤ c.val && c.val ≤ 0x7a)

def isHex (c : Fin 0x110000) : Bool :=
  isDigit c || (0x41 ≤ c.val && c.val ≤ 0x46) || (0x61 ≤ c.val && c.val ≤ 0x66)

/-- `scheme_chars`. -/
def isSchemeChar (c : Fin 0x110000) : Bool :=
  isLetter c || isDigit c || c.val == 43 || c.val == 45 || c.val == 46

/-- What ends a network location. -/
def isBoundary (c : Fin 0x110000) : Bool := c == slash || c == question || c == hash

/-- `_UNSAFE_URL_BYTES_TO_REMOVE`. -/
def isUnsafe (c : Fin 0x110000) : Bool := c.val == 9 || c.val == 10 || c.val == 13

/-- The lower case of a host: its zone stays as it is. -/
def lowerHost (L : Lowering) (host : Text) : Text :=
  L.lower (host.takeWhile (· ≠ percent)) ++ host.dropWhile (· ≠ percent)

end Address

open Address

/-- What the standard library looks up: its lower case, the characters whose compatibility
decomposition has a delimiter in it, and the texts that `ip_address` takes for an IPv6 address. -/
structure Tables where
  lowering : Lowering
  fixed : ∀ s, ∀ c ∈ lowering.lower s, ∀ before after, lowering.lowerAt before c after = [c]
  decomposes : Fin 0x110000 → Bool
  ascii : ∀ c, c.val < 0x80 → decomposes c = false
  lowered : ∀ s, (∀ c ∈ s, decomposes c = false) →
    ∀ c ∈ lowering.lower s, decomposes c = false
  ipv6 : Text → Bool
  colons : ∀ host, ipv6 host = true → colon ∈ host.takeWhile (· ≠ percent)
  digits : ∀ host, ipv6 host = true → ∀ c ∈ host.takeWhile (· ≠ percent),
    isHex c ∨ c = colon ∨ c = dot
  cased : ∀ host, ipv6 host = true → ipv6 (lowerHost lowering host) = true

namespace Address

section Splitting

variable (R : Tables)

/-- `url.lstrip(…)`, and the removal of what is unsafe. -/
def cleaned (url : Text) : Text :=
  (url.dropWhile fun c => c.val ≤ 0x20).filter fun c => !isUnsafe c

/-- The scheme, and what is behind it. -/
def splitScheme (url : Text) : Text × Text :=
  if url.contains colon && url.head?.any isLetter && (before colon url).all isSchemeChar then
    (R.lowering.lower (before colon url), after colon url)
  else ([], url)

/-- The network location and what is behind it: `_splitnetloc(url, 2)` behind two slashes. -/
def splitNetloc (url : Text) : Text × Text :=
  if url.take 2 = [slash, slash] then
    ((url.drop 2).takeWhile (!isBoundary ·), (url.drop 2).dropWhile (!isBoundary ·))
  else ([], url)

/-- `\Av[a-fA-F0-9]+\..+\z`. -/
def ipvFuture (host : Text) : Bool :=
  host.head? == some (chr 118) && !((host.drop 1).takeWhile isHex).isEmpty &&
    ((host.drop 1).dropWhile isHex).head? == some dot &&
    !((host.drop 1).dropWhile isHex).tail.isEmpty &&
    ((host.drop 1).dropWhile isHex).tail.all (· != chr 10)

/-- `_check_bracketed_host`. -/
def checkBracketedHost (host : Text) : Bool :=
  if host.head? = some (chr 118) then ipvFuture host else R.ipv6 host

/-- `_check_bracketed_netloc`. -/
def checkBracketedNetloc (netloc : Text) : Bool :=
  let hostPort := Python.afterLast commercialAt netloc
  if hostPort.contains opening then
    let bracketed := after opening hostPort
    (before opening hostPort).isEmpty && (after closing bracketed).head?.all (· == colon) &&
      checkBracketedHost R (before closing bracketed)
  else checkBracketedHost R (before colon hostPort)

/-- What `urlsplit` checks of a network location: its brackets, and `_checknetloc`. -/
def checkNetloc (netloc : Text) : Bool :=
  netloc.contains opening == netloc.contains closing &&
    (!netloc.contains opening || checkBracketedNetloc R netloc) &&
    netloc.all fun c => !R.decomposes c

/-- `_hostinfo`: the host and the text of the port. -/
def hostinfo (netloc : Text) : Text × Text :=
  let info := Python.afterLast commercialAt netloc
  if info.contains opening then
    let bracketed := after opening info
    (before closing bracketed, after colon (after closing bracketed))
  else (before colon info, after colon info)

def hostname (netloc : Text) : Option Text :=
  let host := (hostinfo netloc).1
  if host = [] then none else some (lowerHost R.lowering host)

def value (digits : Text) : ℕ := digits.foldl (fun v c => v * 10 + (c.val - 48)) 0

/-- The port; `int` takes no more than 4300 digits. -/
def port (netloc : Text) : Option (Option ℕ) :=
  let digits := (hostinfo netloc).2
  if digits = [] then some none
  else if digits.all isDigit && decide (digits.length ≤ 4300) && decide (value digits ≤ 65535) then
    some (some (value digits))
  else none

/-- `_userinfo`. -/
def userinfo (netloc : Text) : Option Text × Option Text :=
  if netloc.contains commercialAt then
    let info := (netloc.rdropWhile (· ≠ commercialAt)).dropLast
    (some (before colon info), if info.contains colon then some (after colon info) else none)
  else (none, none)

def urlsplit (url : Text) : Option SplitResult :=
  let (scheme, url) := splitScheme R (cleaned url)
  let (netloc, url) := splitNetloc url
  if checkNetloc R netloc then
    let url := before hash url
    some ⟨scheme, netloc, before question url, after question url, hostname R netloc, port netloc,
      (userinfo netloc).1, (userinfo netloc).2⟩
  else none

/-- `uses_netloc`. -/
def usesNetloc : List String :=
  ["", "ftp", "http", "gopher", "nntp", "telnet", "imap", "wais", "file", "mms", "https", "shttp",
    "snews", "prospero", "rtsp", "rtsps", "rtspu", "rsync", "svn", "svn+ssh", "sftp", "nfs", "git",
    "git+ssh", "ws", "wss", "itms-services"]

/-- `urlunsplit`, of an address without a fragment. -/
def urlunsplit (scheme netloc path query : Text) : Text :=
  let url :=
    if netloc ≠ [] then
      [slash, slash] ++ netloc ++
        (if path ≠ [] ∧ path.head? ≠ some slash then slash :: path else path)
    else if path.take 2 = [slash, slash] then [slash, slash] ++ path
    else if scheme ≠ [] ∧ (usesNetloc.map text).contains scheme = true ∧
        (path = [] ∨ path.head? = some slash) then [slash, slash] ++ path
    else path
  let url := if scheme ≠ [] then scheme ++ colon :: url else url
  if query ≠ [] then url ++ question :: query else url

end Splitting

/-- `urllib.parse`; what `urljoin` makes of two addresses is left open. -/
def urllib (R : Tables) (resolve : Text → Text → Text) : Urllib where
  urlsplit := urlsplit R
  urlunsplit := urlunsplit
  resolve := resolve

/-! ## Characters of a lower-cased text -/

section Lowered

variable {R : Tables}

/-- A character that is its own lower case wherever it stands. -/
def Fixed (R : Tables) (c : Fin 0x110000) : Prop :=
  ∀ before after, R.lowering.lowerAt before c after = [c]

theorem lowerFrom_fixed {s : Text} (fixed : ∀ c ∈ s, Fixed R c) (before : Text) :
    R.lowering.lowerFrom before s = s := by
  induction s generalizing before with
  | nil => rfl
  | cons c s ih =>
      obtain ⟨first, rest⟩ := List.forall_mem_cons.1 fixed
      rw [Lowering.lowerFrom, first before s, ih rest]
      rfl

theorem lower_lower (s : Text) :
    R.lowering.lower (R.lowering.lower s) = R.lowering.lower s :=
  lowerFrom_fixed (R.fixed s) []

/-- A character that is in no letter's lower case. -/
structure Plain (c : Fin 0x110000) : Prop where
  ascii : c.val < 0x80
  upper : ¬ (0x41 ≤ c.val ∧ c.val ≤ 0x5a)
  small : ¬ (0x61 ≤ c.val ∧ c.val ≤ 0x7a)

theorem mem_lower {c : Fin 0x110000} (plain : Plain c) {s : Text} :
    c ∈ R.lowering.lower s ↔ c ∈ s :=
  Lowering.mem_lower_iff plain.ascii plain.upper plain.small

theorem plain_colon : Plain colon := ⟨by decide, by decide, by decide⟩

theorem plain_percent : Plain percent := ⟨by decide, by decide, by decide⟩

theorem plain_commercialAt : Plain commercialAt := ⟨by decide, by decide, by decide⟩

theorem plain_opening : Plain opening := ⟨by decide, by decide, by decide⟩

theorem plain_closing : Plain closing := ⟨by decide, by decide, by decide⟩

theorem plain_of_isBoundary {c : Fin 0x110000} (h : isBoundary c = true) : Plain c := by
  rw [isBoundary, Bool.or_eq_true_iff, Bool.or_eq_true_iff, beq_iff_eq, beq_iff_eq,
    beq_iff_eq] at h
  obtain (rfl | rfl) | rfl := h
  · exact ⟨by decide, by decide, by decide⟩
  · exact ⟨by decide, by decide, by decide⟩
  · exact ⟨by decide, by decide, by decide⟩

theorem plain_of_isUnsafe {c : Fin 0x110000} (h : isUnsafe c = true) : Plain c := by
  rw [isUnsafe, Bool.or_eq_true_iff, Bool.or_eq_true_iff, beq_iff_eq, beq_iff_eq,
    beq_iff_eq] at h
  refine ⟨?_, ?_, ?_⟩
  all_goals omega

theorem before_append {sep : Fin 0x110000} {s t : Text} (absent : sep ∉ s) :
    before sep (s ++ sep :: t) = s := by
  rw [before, List.takeWhile_append_of_pos, List.takeWhile_cons_of_neg, List.append_nil]
  · exact fun same => of_decide_eq_true same rfl
  · intro _ mem
    exact decide_eq_true fun same => absent (same ▸ mem)

theorem after_append {sep : Fin 0x110000} {s t : Text} (absent : sep ∉ s) :
    after sep (s ++ sep :: t) = t := by
  rw [after, List.dropWhile_append_of_pos, List.dropWhile_cons_of_neg]
  · rfl
  · simp
  · intro c mem
    exact decide_eq_true fun same => absent (same ▸ mem)

theorem before_absent {sep : Fin 0x110000} {s : Text} (absent : sep ∉ s) : before sep s = s :=
  List.takeWhile_eq_self_iff.2 fun _ mem => decide_eq_true fun same => absent (same ▸ mem)

theorem after_absent {sep : Fin 0x110000} {s : Text} (absent : sep ∉ s) : after sep s = [] := by
  rw [after, List.dropWhile_eq_nil_iff.2, List.drop_nil]
  intro c mem
  exact decide_eq_true fun same => absent (same ▸ mem)

theorem notMem_before (sep : Fin 0x110000) (s : Text) : sep ∉ before sep s := by
  intro mem
  rw [before] at mem
  have selected := List.mem_takeWhile_imp mem
  simp at selected

theorem mem_of_mem_before {sep c : Fin 0x110000} {s : Text} (mem : c ∈ before sep s) : c ∈ s :=
  List.takeWhile_subset _ mem

theorem mem_of_mem_after {sep c : Fin 0x110000} {s : Text} (mem : c ∈ after sep s) : c ∈ s :=
  List.dropWhile_subset _ (List.mem_of_mem_drop mem)

/-! ## Hosts -/

theorem percent_split (host : Text) :
    host.takeWhile (· ≠ percent) ++ host.dropWhile (· ≠ percent) = host :=
  List.takeWhile_append_dropWhile

theorem name_lowerHost (host : Text) :
    (lowerHost R.lowering host).takeWhile (· ≠ percent) =
        R.lowering.lower (host.takeWhile (· ≠ percent)) ∧
      (lowerHost R.lowering host).dropWhile (· ≠ percent) = host.dropWhile (· ≠ percent) := by
  have name : ∀ c ∈ R.lowering.lower (host.takeWhile (· ≠ percent)),
      decide (c ≠ percent) = true := by
    intro c mem
    refine decide_eq_true ?_
    rintro rfl
    exact notMem_before percent host ((mem_lower plain_percent).1 mem)
  rw [lowerHost, List.takeWhile_append_of_pos name, List.dropWhile_append_of_pos name]
  cases zone : host.dropWhile (· ≠ percent) with
  | nil => simp
  | cons c rest =>
      have stops := List.head_dropWhile_not (p := fun c => decide (c ≠ percent)) (l := host)
        (by rw [zone]; exact List.cons_ne_nil _ _)
      simp only [zone, List.head_cons] at stops
      rw [List.takeWhile_cons_of_neg (by rw [stops]; exact Bool.false_ne_true),
        List.dropWhile_cons_of_neg (by rw [stops]; exact Bool.false_ne_true), List.append_nil]
      exact ⟨rfl, rfl⟩

theorem lowerHost_lowerHost (host : Text) :
    lowerHost R.lowering (lowerHost R.lowering host) = lowerHost R.lowering host := by
  obtain ⟨name, zone⟩ := name_lowerHost (R := R) host
  rw [lowerHost, name, zone, lower_lower, lowerHost]

/-- What is its own lower case is so as a host. -/
theorem lowerHost_lower (s : Text) :
    lowerHost R.lowering (R.lowering.lower s) = R.lowering.lower s := by
  have fixed : R.lowering.lower ((R.lowering.lower s).takeWhile (· ≠ percent)) =
      (R.lowering.lower s).takeWhile (· ≠ percent) :=
    lowerFrom_fixed (fun c mem => R.fixed s c (List.takeWhile_subset _ mem)) []
  rw [lowerHost, fixed, percent_split]

theorem mem_lowerHost {c : Fin 0x110000} (plain : Plain c) {host : Text} :
    c ∈ lowerHost R.lowering host ↔ c ∈ host := by
  rw [lowerHost, List.mem_append, mem_lower plain, ← List.mem_append, percent_split]

theorem lowerHost_ne_nil {host : Text} (some_ : host ≠ []) : lowerHost R.lowering host ≠ [] := by
  intro none_
  obtain ⟨name, zone⟩ := List.append_eq_nil_iff.1 none_
  have empty : host.takeWhile (· ≠ percent) = [] := by
    by_contra filled
    have positive := Lowering.length_lower_pos (L := R.lowering) filled
    rw [name] at positive
    exact absurd positive (Nat.lt_irrefl 0)
  exact some_ (by rw [← percent_split host, empty, zone]; rfl)

theorem lower_ne_nil {s : Text} (some_ : s ≠ []) : R.lowering.lower s ≠ [] :=
  List.ne_nil_of_length_pos (Lowering.length_lower_pos some_)

theorem decomposes_lowerHost {host : Text} (none_ : ∀ c ∈ host, R.decomposes c = false) :
    ∀ c ∈ lowerHost R.lowering host, R.decomposes c = false := by
  refine List.forall_mem_append.2 ⟨R.lowered _ fun c mem => ?_, fun c mem => ?_⟩
  · exact none_ c (List.takeWhile_subset _ mem)
  · exact none_ c (List.dropWhile_subset _ mem)

/-- The lower case of ASCII does not depend on what is around it. -/
theorem lowerFrom_append {s : Text} (ascii : ∀ c ∈ s, c.val < 0x80) (before t : Text) :
    R.lowering.lowerFrom before (s ++ t) =
      s.map (fun c => if 0x41 ≤ c.val ∧ c.val ≤ 0x5a then chr (c.val + 0x20) else c) ++
        R.lowering.lowerFrom (before ++ s) t := by
  induction s generalizing before with
  | nil => rw [List.append_nil]; rfl
  | cons c s ih =>
      obtain ⟨first, rest⟩ := List.forall_mem_cons.1 ascii
      rw [List.cons_append, Lowering.lowerFrom, Lowering.lowerAt, if_pos first, ih rest,
        List.append_assoc]
      split_ifs with capital
      · rw [List.map_cons, if_pos capital]
        rfl
      · rw [List.map_cons, if_neg capital]
        rfl

theorem lowerFrom_eq_nil {before s : Text} (h : R.lowering.lowerFrom before s = []) : s = [] := by
  cases s with
  | nil => rfl
  | cons c s =>
      rw [Lowering.lowerFrom, Lowering.lowerAt] at h
      split_ifs at h
      all_goals cases h

/-! ## Bracketed hosts -/

theorem ipvFuture_iff {host : Text} :
    ipvFuture host = true ↔ ∃ hexes more, host = chr 118 :: (hexes ++ dot :: more) ∧
      hexes ≠ [] ∧ (∀ c ∈ hexes, isHex c = true) ∧ more ≠ [] ∧ chr 10 ∉ more := by
  constructor
  · intro h
    rw [ipvFuture] at h
    simp only [Bool.and_eq_true, Bool.not_eq_true', List.isEmpty_eq_false_iff, beq_iff_eq,
      List.all_eq_true, bne_iff_ne] at h
    obtain ⟨⟨⟨⟨first, hexes⟩, stop⟩, more⟩, line⟩ := h
    obtain ⟨rest, rfl⟩ := List.head?_eq_some_iff.1 first
    rw [List.drop_one, List.tail_cons] at hexes stop more line
    obtain ⟨behind, is⟩ := List.head?_eq_some_iff.1 stop
    refine ⟨rest.takeWhile isHex, behind, ?_, hexes, fun c mem => List.mem_takeWhile_imp mem,
      ?_, ?_⟩
    · rw [← is, List.takeWhile_append_dropWhile]
    · rw [is] at more
      exact more
    · rw [is] at line
      exact fun mem => line _ mem rfl
  · rintro ⟨hexes, more, rfl, some_, hex, more_, line⟩
    have stops : isHex dot ≠ true := by decide
    have front : (hexes ++ dot :: more).takeWhile isHex = hexes := by
      rw [List.takeWhile_append_of_pos hex, List.takeWhile_cons_of_neg stops, List.append_nil]
    have back : (hexes ++ dot :: more).dropWhile isHex = dot :: more := by
      rw [List.dropWhile_append_of_pos hex, List.dropWhile_cons_of_neg stops]
    rw [ipvFuture]
    simp only [Bool.and_eq_true, Bool.not_eq_true', List.isEmpty_eq_false_iff, beq_iff_eq,
      List.all_eq_true, bne_iff_ne]
    rw [List.drop_one, List.tail_cons, front, back]
    exact ⟨⟨⟨⟨rfl, some_⟩, rfl⟩, more_⟩, fun c mem same => line (same ▸ mem)⟩

theorem isHex_lower : ∀ n, n < 0x80 → isHex (chr n) = true →
    isHex (if 0x41 ≤ (chr n).val ∧ (chr n).val ≤ 0x5a then chr ((chr n).val + 0x20) else chr n) =
      true := by
  decide

theorem ascii_of_isHex {c : Fin 0x110000} (h : isHex c = true) : c.val < 0x80 ∧ c ≠ percent := by
  rw [isHex, isDigit] at h
  simp only [Bool.or_eq_true, Bool.and_eq_true, decide_eq_true_eq] at h
  refine ⟨by omega, ?_⟩
  rintro rfl
  revert h
  decide

theorem ipvFuture_lowerHost {host : Text} (h : ipvFuture host = true) :
    ipvFuture (lowerHost R.lowering host) = true := by
  obtain ⟨hexes, more, rfl, some_, hex, more_, line⟩ := ipvFuture_iff.1 h
  let low (c : Fin 0x110000) : Fin 0x110000 :=
    if 0x41 ≤ c.val ∧ c.val ≤ 0x5a then chr (c.val + 0x20) else c
  have front : ∀ c ∈ chr 118 :: (hexes ++ [dot]), c.val < 0x80 ∧ c ≠ percent := by
    refine List.forall_mem_cons.2 ⟨by decide, List.forall_mem_append.2 ⟨?_, ?_⟩⟩
    · exact fun c mem => ascii_of_isHex (hex c mem)
    · exact List.forall_mem_singleton.2 (by decide)
  have keeps : ∀ c ∈ chr 118 :: (hexes ++ [dot]), decide (c ≠ percent) = true :=
    fun c mem => decide_eq_true (front c mem).2
  have whole : chr 118 :: (hexes ++ dot :: more) = (chr 118 :: (hexes ++ [dot])) ++ more := by
    rw [List.cons_append, List.append_assoc, List.singleton_append]
  have is : lowerHost R.lowering (chr 118 :: (hexes ++ dot :: more)) =
      chr 118 :: (hexes.map low ++ dot ::
        (R.lowering.lowerFrom ([] ++ (chr 118 :: (hexes ++ [dot])))
          (more.takeWhile (· ≠ percent)) ++ more.dropWhile (· ≠ percent))) := by
    rw [whole, lowerHost, List.takeWhile_append_of_pos keeps, List.dropWhile_append_of_pos keeps,
      Lowering.lower, lowerFrom_append fun c mem => (front c mem).1]
    rw [List.map_cons, List.map_append, List.map_singleton]
    simp only [List.cons_append, List.append_assoc, List.nil_append]
    rfl
  have newline : Plain (chr 10) := ⟨by decide, by decide, by decide⟩
  refine ipvFuture_iff.2 ⟨_, _, is, mt List.map_eq_nil_iff.1 some_, ?_, ?_, ?_⟩
  · intro c mem
    obtain ⟨d, inside, rfl⟩ := List.mem_map.1 mem
    have small := (ascii_of_isHex (hex d inside)).1
    have same : chr d.val = d := Fin.ext (Nat.mod_eq_of_lt d.isLt)
    have kept := isHex_lower d.val small
    rw [same] at kept
    exact kept (hex d inside)
  · intro none_
    obtain ⟨name, zone⟩ := List.append_eq_nil_iff.1 none_
    exact more_ (by rw [← percent_split more, lowerFrom_eq_nil name, zone]; rfl)
  · intro mem
    have inside : chr 10 ∈ lowerHost R.lowering (chr 118 :: (hexes ++ dot :: more)) := by
      rw [is]
      exact List.mem_cons_of_mem _ (List.mem_append_right _ (List.mem_cons_of_mem _ mem))
    rw [mem_lowerHost newline] at inside
    rcases List.mem_cons.1 inside with same | inside
    · revert same
      decide
    rcases List.mem_append.1 inside with mem | inside
    · have digit := hex _ mem
      revert digit
      decide
    rcases List.mem_cons.1 inside with same | mem
    · revert same
      decide
    · exact line mem

theorem checkBracketedHost_lowerHost {host : Text} (h : checkBracketedHost R host = true) :
    checkBracketedHost R (lowerHost R.lowering host) = true := by
  rw [checkBracketedHost] at h
  split_ifs at h with future
  · have again := ipvFuture_lowerHost (R := R) h
    obtain ⟨hexes, more, is, -⟩ := ipvFuture_iff.1 again
    rw [checkBracketedHost, if_pos (by rw [is]; rfl)]
    exact again
  · have again := R.cased host h
    rw [checkBracketedHost, if_neg ?_]
    · exact again
    · intro first
      obtain ⟨rest, is⟩ := List.head?_eq_some_iff.1 first
      have digit := R.digits _ again (chr 118) (by
        rw [is, List.takeWhile_cons_of_pos (by decide)]
        exact List.mem_cons_self)
      revert digit
      decide

/-! ## A network location that was put together -/

def portDigits : Option ℕ → Text
  | none => []
  | some n => (decimal n).map chr

/-- The port as `normalise` writes it. -/
def portPart : Option ℕ → Text
  | none => []
  | some n => colon :: (decimal n).map chr

/-- What a port leaves to its host. -/
def Unmarked (c : Fin 0x110000) : Prop :=
  c.val < 0x80 ∧ c ≠ commercialAt ∧ c ≠ opening ∧ c ≠ closing ∧ isBoundary c = false ∧
    isUnsafe c = false

instance (c : Fin 0x110000) : Decidable (Unmarked c) :=
  inferInstanceAs (Decidable (_ ∧ _ ∧ _ ∧ _ ∧ _ ∧ _))

theorem unmarked_digit : ∀ n, n < 10 → Unmarked (chr (48 + n)) ∧ isDigit (chr (48 + n)) = true ∧
    (chr (48 + n)).val = 48 + n := by
  decide

theorem of_mem_digits {n : ℕ} {c : Fin 0x110000} (mem : c ∈ (decimal n).map chr) :
    Unmarked c ∧ isDigit c = true := by
  obtain ⟨d, inside, rfl⟩ := List.mem_map.1 mem
  obtain ⟨low, high⟩ := decimal_bounds inside
  obtain ⟨m, rfl⟩ := Nat.exists_eq_add_of_le low
  obtain ⟨unmarked, digit, -⟩ := unmarked_digit m (by omega)
  exact ⟨unmarked, digit⟩

theorem unmarked_portPart {p : Option ℕ} {c : Fin 0x110000} (mem : c ∈ portPart p) :
    Unmarked c := by
  cases p with
  | none => cases mem
  | some n =>
      rcases List.mem_cons.1 mem with rfl | mem
      · decide
      · exact (of_mem_digits mem).1

theorem length_decimal_le {k n : ℕ} (small : n < 10 ^ (k + 1)) : (decimal n).length ≤ k + 1 := by
  induction k generalizing n with
  | zero =>
      rw [decimal_of_lt (by omega)]
      exact Nat.le_refl 1
  | succ k ih =>
      by_cases digit : n < 10
      · rw [decimal_of_lt digit]
        exact Nat.succ_le_succ (Nat.zero_le _)
      · rw [decimal_of_le (by omega), List.length_append]
        have shorter := ih (n := n / 10) (by rw [Nat.pow_succ] at small; omega)
        exact Nat.succ_le_succ shorter

theorem value_portDigits (n : ℕ) : value ((decimal n).map chr) = n := by
  have same (v : ℕ) (ds : List ℕ) (bounds : ∀ d ∈ ds, d < 0x110000) :
      (ds.map chr).foldl (fun v c => v * 10 + (c.val - 48)) v =
        ds.foldl (fun v d => v * 10 + (d - 48)) v := by
    induction ds generalizing v with
    | nil => rfl
    | cons d ds ih =>
        obtain ⟨first, rest⟩ := List.forall_mem_cons.1 bounds
        rw [List.map_cons, List.foldl_cons, List.foldl_cons, ih _ rest, val_chr,
          Nat.mod_eq_of_lt first]
  rw [value, same]
  · exact value_decimal n
  · intro d mem
    have high := (decimal_bounds mem).2
    omega

/-- The port is read back. -/
theorem port_of_digits {netloc : Text} {p : Option ℕ} (digits : (hostinfo netloc).2 = portDigits p)
    (small : ∀ n ∈ p, n ≤ 65535) : port netloc = some p := by
  rw [port, digits]
  cases p with
  | none => rfl
  | some n =>
      have bound := small n rfl
      have short : (decimal n).length ≤ 4 + 1 := length_decimal_le (by omega)
      have all_ : ((decimal n).map chr).all isDigit = true :=
        List.all_eq_true.2 fun c mem => (of_mem_digits mem).2
      have few : ((decimal n).map chr).length ≤ 4300 := by
        rw [List.length_map]
        omega
      rw [portDigits, if_neg (mt List.map_eq_nil_iff.1 (decimal_ne_nil n)), value_portDigits, all_,
        decide_eq_true few, decide_eq_true bound]
      rfl

theorem afterLast_absent {netloc : Text} (absent : commercialAt ∉ netloc) :
    Python.afterLast commercialAt netloc = netloc :=
  List.rtakeWhile_eq_self_iff.2 fun _ mem => decide_eq_true fun same => absent (same ▸ mem)

theorem contains_eq_false {c : Fin 0x110000} {s : Text} (absent : c ∉ s) :
    s.contains c = false := by
  rw [← Bool.not_eq_true, List.contains_iff_mem]
  exact absent

theorem portPart_split (p : Option ℕ) :
    (p = none ∧ portPart p = [] ∧ portDigits p = []) ∨
      portPart p = colon :: portDigits p := by
  cases p with
  | none => exact .inl ⟨rfl, rfl, rfl⟩
  | some n => exact .inr rfl

/-- A host without brackets. -/
structure Bare (host : Text) : Prop where
  some_ : host ≠ []
  at_ : commercialAt ∉ host
  opening_ : opening ∉ host
  closing_ : closing ∉ host
  colon_ : colon ∉ host

theorem notMem_portPart {p : Option ℕ} :
    commercialAt ∉ portPart p ∧ opening ∉ portPart p ∧ closing ∉ portPart p :=
  ⟨fun mem => (unmarked_portPart mem).2.1 rfl, fun mem => (unmarked_portPart mem).2.2.1 rfl,
    fun mem => (unmarked_portPart mem).2.2.2.1 rfl⟩

theorem hostinfo_bare {host : Text} (bare : Bare host) (p : Option ℕ) :
    hostinfo (host ++ portPart p) = (host, portDigits p) := by
  obtain ⟨at_, opening_, -⟩ := notMem_portPart (p := p)
  rw [hostinfo, afterLast_absent fun mem => (List.mem_append.1 mem).elim bare.at_ at_]
  dsimp only
  rw [contains_eq_false fun mem => (List.mem_append.1 mem).elim bare.opening_ opening_,
    if_neg Bool.false_ne_true]
  rcases portPart_split p with ⟨-, none_, digits⟩ | is
  · rw [none_, digits, List.append_nil, before_absent bare.colon_, after_absent bare.colon_]
  · rw [is, before_append bare.colon_, after_append bare.colon_]

theorem decomposes_portPart (p : Option ℕ) : ∀ c ∈ portPart p, R.decomposes c = false :=
  fun c mem => R.ascii c (unmarked_portPart mem).1

theorem checkNetloc_bare {host : Text} (bare : Bare host)
    (flat : ∀ c ∈ host, R.decomposes c = false) (p : Option ℕ) :
    checkNetloc R (host ++ portPart p) = true := by
  obtain ⟨-, opening_, closing_⟩ := notMem_portPart (p := p)
  rw [checkNetloc,
    contains_eq_false fun mem => (List.mem_append.1 mem).elim bare.opening_ opening_,
    contains_eq_false fun mem => (List.mem_append.1 mem).elim bare.closing_ closing_]
  refine List.all_eq_true.2 fun c mem => ?_
  rw [List.forall_mem_append.2 ⟨flat, decomposes_portPart p⟩ c mem]
  rfl

/-- A host that goes between brackets. -/
structure Bracketed (R : Tables) (host : Text) : Prop where
  at_ : commercialAt ∉ host
  closing_ : closing ∉ host
  checked : checkBracketedHost R host = true

theorem before_self (sep : Fin 0x110000) (t : Text) : before sep (sep :: t) = [] :=
  before_append (s := []) List.not_mem_nil

theorem after_self (sep : Fin 0x110000) (t : Text) : after sep (sep :: t) = t :=
  after_append (s := []) List.not_mem_nil

theorem at_bracketed {host : Text} (bracketed : Bracketed R host) (p : Option ℕ) :
    Python.afterLast commercialAt (opening :: (host ++ closing :: portPart p)) =
      opening :: (host ++ closing :: portPart p) := by
  refine afterLast_absent fun mem => ?_
  rcases List.mem_cons.1 mem with same | mem
  · revert same
    decide
  rcases List.mem_append.1 mem with mem | mem
  · exact bracketed.at_ mem
  rcases List.mem_cons.1 mem with same | mem
  · revert same
    decide
  · exact notMem_portPart.1 mem

theorem hostinfo_bracketed {host : Text} (bracketed : Bracketed R host) (p : Option ℕ) :
    hostinfo (opening :: (host ++ closing :: portPart p)) = (host, portDigits p) := by
  rw [hostinfo, at_bracketed bracketed p]
  dsimp only
  rw [if_pos (List.contains_iff_mem.2 List.mem_cons_self), after_self,
    before_append bracketed.closing_, after_append bracketed.closing_]
  rcases portPart_split p with ⟨-, none_, digits⟩ | is
  · rw [none_, digits]
    rfl
  · rw [is, after_self]

theorem checkNetloc_bracketed {host : Text} (bracketed : Bracketed R host)
    (flat : ∀ c ∈ host, R.decomposes c = false) (p : Option ℕ) :
    checkNetloc R (opening :: (host ++ closing :: portPart p)) = true := by
  have opens : (opening :: (host ++ closing :: portPart p)).contains opening = true :=
    List.contains_iff_mem.2 List.mem_cons_self
  have closes : (opening :: (host ++ closing :: portPart p)).contains closing = true :=
    List.contains_iff_mem.2
      (List.mem_cons_of_mem _ (List.mem_append_right _ List.mem_cons_self))
  have port_ : (portPart p).head?.all (· == colon) = true := by
    rcases portPart_split p with ⟨-, none_, -⟩ | is
    · rw [none_]
      rfl
    · rw [is]
      rfl
  have netloc : checkBracketedNetloc R (opening :: (host ++ closing :: portPart p)) = true := by
    rw [checkBracketedNetloc, at_bracketed bracketed p]
    dsimp only
    rw [if_pos opens, before_self, after_self, before_append bracketed.closing_,
      after_append bracketed.closing_, port_, bracketed.checked]
    rfl
  have flat_ : (opening :: (host ++ closing :: portPart p)).all (fun c => !R.decomposes c) =
      true := by
    have plain : ∀ c ∈ opening :: (host ++ closing :: portPart p), R.decomposes c = false := by
      rw [List.forall_mem_cons, List.forall_mem_append, List.forall_mem_cons]
      exact ⟨R.ascii _ (by decide), flat, R.ascii _ (by decide), decomposes_portPart p⟩
    refine List.all_eq_true.2 fun c mem => ?_
    rw [plain c mem]
    rfl
  rw [checkNetloc, opens, closes, netloc, flat_]
  rfl

/-! ## An address that was put together -/

/-- A scheme that a crawler takes. -/
structure Web (R : Tables) (scheme : Text) : Prop where
  first : ∃ rest, scheme = chr 104 :: rest
  colon_ : colon ∉ scheme
  chars : scheme.all isSchemeChar = true
  safe : ∀ c ∈ scheme, isUnsafe c = false
  lower_ : R.lowering.lower scheme = scheme

theorem web_of_chars {scheme : Text} (first : ∃ rest, scheme = chr 104 :: rest)
    (small : scheme.all (fun c => 0x61 ≤ c.val && c.val ≤ 0x7a) = true) : Web R scheme := by
  have bounds : ∀ c ∈ scheme, 0x61 ≤ c.val ∧ c.val ≤ 0x7a := by
    intro c mem
    have both := List.all_eq_true.1 small c mem
    rwa [Bool.and_eq_true, decide_eq_true_eq, decide_eq_true_eq] at both
  refine ⟨first, fun mem => ?_, List.all_eq_true.2 fun c mem => ?_, fun c mem => ?_, ?_⟩
  · have bound := bounds _ mem
    revert bound
    decide
  · obtain ⟨low, high⟩ := bounds c mem
    rw [isSchemeChar, isLetter, decide_eq_true low, decide_eq_true high, Bool.and_true,
      Bool.or_true]
    rfl
  · obtain ⟨low, high⟩ := bounds c mem
    rw [isUnsafe, Bool.or_eq_false_iff, Bool.or_eq_false_iff, beq_eq_false_iff_ne,
      beq_eq_false_iff_ne, beq_eq_false_iff_ne]
    omega
  · refine Lowering.lower_eq_self fun c mem => ?_
    obtain ⟨low, high⟩ := bounds c mem
    omega

theorem web_of_defaultPort {scheme : Text} (h : defaultPort scheme ≠ none) : Web R scheme := by
  rw [defaultPort] at h
  split_ifs at h with http https
  · subst http
    exact web_of_chars ⟨_, rfl⟩ (by decide)
  · subst https
    exact web_of_chars ⟨_, rfl⟩ (by decide)
  · exact absurd rfl h

/-- What an address is put together from. -/
structure Parted (netloc path query : Text) : Prop where
  some_ : netloc ≠ []
  inside : ∀ c ∈ netloc, isBoundary c = false
  rooted : ∃ rest, path = slash :: rest
  question_ : question ∉ path
  hash_ : hash ∉ path ∧ hash ∉ query
  safe : ∀ c ∈ netloc ++ (path ++ query), isUnsafe c = false

/-- The query with what is in front of it. -/
def queryPart (query : Text) : Text := if query ≠ [] then question :: query else []

theorem urlunsplit_eq {scheme netloc path query : Text} (web : Web R scheme)
    (parted : Parted netloc path query) :
    urlunsplit scheme netloc path query =
      scheme ++ colon :: slash :: slash :: (netloc ++ (path ++ queryPart query)) := by
  obtain ⟨rest, rfl⟩ := parted.rooted
  obtain ⟨letters, rfl⟩ := web.first
  have joined : (if slash :: rest ≠ [] ∧ (slash :: rest).head? ≠ some slash then
      slash :: slash :: rest else slash :: rest) = slash :: rest := if_neg fun both => both.2 rfl
  rw [urlunsplit, if_pos parted.some_, joined, if_pos (List.cons_ne_nil _ _), queryPart]
  split_ifs
  all_goals simp

theorem cleaned_eq {c : Fin 0x110000} {s : Text} (first : ¬ c.val ≤ 0x20)
    (safe : ∀ d ∈ c :: s, isUnsafe d = false) : cleaned (c :: s) = c :: s := by
  rw [cleaned, List.dropWhile_cons_of_neg (by simpa using first), List.filter_eq_self]
  intro d mem
  rw [safe d mem]
  rfl

/-- An address is split into what it was put together from, or refused for its brackets. -/
theorem urlsplit_urlunsplit {scheme netloc path query : Text} (web : Web R scheme)
    (parted : Parted netloc path query) :
    urlsplit R (urlunsplit scheme netloc path query) =
      if checkNetloc R netloc then
        some ⟨scheme, netloc, path, query, hostname R netloc, port netloc, (userinfo netloc).1,
          (userinfo netloc).2⟩
      else none := by
  obtain ⟨letters, is⟩ := web.first
  obtain ⟨rest, rooted⟩ := parted.rooted
  have queryless : ∀ c ∈ queryPart query, c = question ∨ c ∈ query := by
    intro c mem
    rw [queryPart] at mem
    split_ifs at mem
    · exact List.mem_cons.1 mem
    · cases mem
  have clean : cleaned (scheme ++ colon :: slash :: slash ::
      (netloc ++ (path ++ queryPart query))) =
      scheme ++ colon :: slash :: slash :: (netloc ++ (path ++ queryPart query)) := by
    have safe : ∀ c ∈ scheme ++ colon :: slash :: slash :: (netloc ++ (path ++ queryPart query)),
        isUnsafe c = false := by
      have behind := parted.safe
      rw [List.forall_mem_append, List.forall_mem_append] at behind
      rw [List.forall_mem_append, List.forall_mem_cons, List.forall_mem_cons, List.forall_mem_cons,
        List.forall_mem_append, List.forall_mem_append]
      refine ⟨web.safe, by decide, by decide, by decide, behind.1, behind.2.1, ?_⟩
      intro c mem
      rcases queryless c mem with rfl | mem
      · decide
      · exact behind.2.2 c mem
    rw [is] at safe ⊢
    exact cleaned_eq (by decide) safe
  have split : splitScheme R (scheme ++ colon :: slash :: slash ::
      (netloc ++ (path ++ queryPart query))) =
        (scheme, slash :: slash :: (netloc ++ (path ++ queryPart query))) := by
    have there : (scheme ++ colon :: slash :: slash ::
        (netloc ++ (path ++ queryPart query))).contains colon = true :=
      List.contains_iff_mem.2 (List.mem_append_right _ List.mem_cons_self)
    have letter : (scheme ++ colon :: slash :: slash ::
        (netloc ++ (path ++ queryPart query))).head?.any isLetter = true := by
      rw [is]
      rfl
    rw [splitScheme, there, letter, before_append web.colon_, after_append web.colon_, web.chars,
      web.lower_]
    rfl
  have located : splitNetloc (slash :: slash :: (netloc ++ (path ++ queryPart query))) =
      (netloc, path ++ queryPart query) := by
    have inside : ∀ c ∈ netloc, (!isBoundary c) = true := by
      intro c mem
      rw [parted.inside c mem]
      rfl
    have stops : ¬ (fun c => !isBoundary c) slash = true := by decide
    have slashes : (slash :: slash :: (netloc ++ (path ++ queryPart query))).take 2 =
        [slash, slash] := rfl
    rw [splitNetloc, if_pos slashes]
    show ((netloc ++ (path ++ queryPart query)).takeWhile (!isBoundary ·),
      (netloc ++ (path ++ queryPart query)).dropWhile (!isBoundary ·)) = _
    rw [List.takeWhile_append_of_pos inside, List.dropWhile_append_of_pos inside, rooted,
      List.cons_append, List.takeWhile_cons_of_neg (p := fun c => !isBoundary c) stops,
      List.dropWhile_cons_of_neg (p := fun c => !isBoundary c) stops, List.append_nil]
  have queried : before question (path ++ queryPart query) = path ∧
      after question (path ++ queryPart query) = query := by
    rw [queryPart]
    split_ifs with some_
    · exact ⟨before_append parted.question_, after_append parted.question_⟩
    · rw [List.append_nil, before_absent parted.question_, after_absent parted.question_]
      exact ⟨rfl, (not_not.1 some_).symm⟩
  have whole : before hash (path ++ queryPart query) = path ++ queryPart query := by
    refine before_absent fun mem => ?_
    rcases List.mem_append.1 mem with mem | mem
    · exact parted.hash_.1 mem
    rcases queryless _ mem with same | mem
    · revert same
      decide
    · exact parted.hash_.2 mem
  rw [urlunsplit_eq web parted, urlsplit, clean, split]
  dsimp only
  rw [located]
  dsimp only
  rw [whole, queried.1, queried.2]

/-! ## An address that was split -/

/-- What `urlsplit` finds, found in what. -/
structure Found (R : Tables) (parts : SplitResult) : Prop where
  checked : checkNetloc R parts.netloc = true
  host : parts.hostname = hostname R parts.netloc
  port_ : parts.port = port parts.netloc
  user : (parts.username, parts.password) = userinfo parts.netloc
  inside : ∀ c ∈ parts.netloc, isBoundary c = false
  rooted : parts.netloc ≠ [] → parts.path = [] ∨ ∃ rest, parts.path = slash :: rest
  question_ : question ∉ parts.path
  hash_ : hash ∉ parts.path ∧ hash ∉ parts.query
  safe : ∀ c ∈ parts.netloc ++ (parts.path ++ parts.query), isUnsafe c = false

theorem mem_splitScheme {url : Text} {c : Fin 0x110000} (mem : c ∈ (splitScheme R url).2) :
    c ∈ url := by
  rw [splitScheme] at mem
  split_ifs at mem
  · exact mem_of_mem_after mem
  · exact mem

theorem splitNetloc_spec (url : Text) :
    (∀ c ∈ (splitNetloc url).1 ++ (splitNetloc url).2, c ∈ url) ∧
      (∀ c ∈ (splitNetloc url).1, isBoundary c = false) ∧
      ((splitNetloc url).1 ≠ [] → ∀ c ∈ (splitNetloc url).2.head?, isBoundary c = true) := by
  rw [splitNetloc]
  split_ifs with slashes
  · refine ⟨?_, ?_, ?_⟩
    · intro c mem
      rw [List.takeWhile_append_dropWhile] at mem
      exact List.mem_of_mem_drop mem
    · intro c mem
      have inside := List.mem_takeWhile_imp mem
      rwa [Bool.not_eq_true'] at inside
    · intro _ c first
      obtain ⟨rest, is⟩ := List.head?_eq_some_iff.1 first
      have behind : (url.drop 2).dropWhile (fun c => !isBoundary c) = c :: rest := is
      have stops := List.head_dropWhile_not (p := fun c => !isBoundary c) (l := url.drop 2)
        (by rw [behind]; exact List.cons_ne_nil _ _)
      simpa [behind] using stops
  · exact ⟨fun c mem => mem, fun c mem => absurd mem List.not_mem_nil, fun no => absurd rfl no⟩

theorem path_of_head {url : Text} (h : ∀ c ∈ url.head?, isBoundary c = true) :
    before question (before hash url) = [] ∨
      ∃ rest, before question (before hash url) = slash :: rest := by
  cases url with
  | nil => exact .inl rfl
  | cons c url =>
      have is := h c rfl
      rw [isBoundary, Bool.or_eq_true_iff, Bool.or_eq_true_iff, beq_iff_eq, beq_iff_eq,
        beq_iff_eq] at is
      obtain (rfl | rfl) | rfl := is
      · exact .inr ⟨_, rfl⟩
      · exact .inl rfl
      · exact .inl rfl

theorem found_of_urlsplit {url : Text} {parts : SplitResult} (h : urlsplit R url = some parts) :
    Found R parts := by
  rw [urlsplit] at h
  dsimp only at h
  split_ifs at h with checked
  obtain rfl := Option.some.inj h
  obtain ⟨subset, inside, first⟩ := splitNetloc_spec (splitScheme R (cleaned url)).2
  have path_ {c : Fin 0x110000} {s : Text} (mem : c ∈ before question (before hash s)) : c ∈ s :=
    mem_of_mem_before (mem_of_mem_before mem)
  have query_ {c : Fin 0x110000} {s : Text} (mem : c ∈ after question (before hash s)) : c ∈ s :=
    mem_of_mem_before (mem_of_mem_after mem)
  refine ⟨checked, rfl, rfl, rfl, inside, fun some_ => path_of_head (first some_),
    notMem_before _ _, ⟨fun mem => notMem_before _ _ (mem_of_mem_before mem),
      fun mem => notMem_before _ _ (mem_of_mem_after mem)⟩, ?_⟩
  intro c mem
  have inside_ : c ∈ cleaned url := by
    refine mem_splitScheme (R := R) (subset c ?_)
    rcases List.mem_append.1 mem with mem | mem
    · exact List.mem_append_left _ mem
    · exact List.mem_append_right _ ((List.mem_append.1 mem).elim path_ query_)
  have kept := (List.mem_filter.1 inside_).2
  rwa [Bool.not_eq_true'] at kept

end Lowered

end Address

/-! ## What `normalise` accepts -/

section Normal

variable {U : Urllib} {L : Lowering} {u r : Text}

/-- The host as `normalise` writes it. -/
def named (L : Lowering) (host : Text) : Text :=
  if host.contains colon then opening :: (host ++ [closing]) else L.lower host

/-- The port that `normalise` keeps. -/
def keptPort (scheme : Text) (port : Option ℕ) : Option ℕ :=
  port.filter fun n => decide ¬ (n = 0 ∨ some n = defaultPort scheme)

theorem keptPort_none {scheme : Text} {n : ℕ} (elided : n = 0 ∨ some n = defaultPort scheme) :
    keptPort scheme (some n) = none :=
  Option.filter_some_neg (decide_eq_false (not_not.2 elided))

theorem keptPort_some {scheme : Text} {n : ℕ} (stays : ¬ (n = 0 ∨ some n = defaultPort scheme)) :
    keptPort scheme (some n) = some n :=
  Option.filter_some_pos (decide_eq_true stays)

/-- What has to be found in an address for it to be accepted. -/
structure Accepted (parts : SplitResult) (port : Option ℕ) (host : Text) : Prop where
  port_ : parts.port = some port
  scheme_ : defaultPort parts.scheme ≠ none
  host_ : parts.hostname = some host
  some_ : host ≠ []
  user : parts.username = none
  password_ : parts.password = none

theorem normalise_eq {parts : SplitResult} {port : Option ℕ} {host : Text}
    (split : U.urlsplit u = some parts) (accepted : Accepted parts port host) :
    normalise U L u = some (U.urlunsplit parts.scheme
      (named L host ++ portPart (keptPort parts.scheme port))
      (if parts.path = [] then [slash] else parts.path) parts.query) := by
  have web : (defaultPort parts.scheme).isNone = false :=
    Option.isNone_eq_false_iff.2 (Option.isSome_iff_ne_none.2 accepted.scheme_)
  have filled : host.isEmpty = false := List.isEmpty_eq_false_iff.2 accepted.some_
  rw [normalise, split]
  dsimp only
  rw [accepted.port_]
  dsimp only
  rw [accepted.host_, Option.getD_some, web, filled, accepted.user, accepted.password_]
  cases port with
  | none =>
      rw [show portPart (keptPort parts.scheme none) = [] from rfl, List.append_nil]
      rfl
  | some n =>
      by_cases elided : n = 0 ∨ some n = defaultPort parts.scheme
      · rw [keptPort_none elided, show portPart none = [] from rfl, List.append_nil]
        dsimp only
        rw [if_pos elided]
        rfl
      · rw [keptPort_some elided]
        dsimp only
        rw [if_neg elided]
        rfl

theorem accepted_of_normalise (h : normalise U L u = some r) :
    ∃ parts port host, U.urlsplit u = some parts ∧ Accepted parts port host := by
  rw [normalise] at h
  cases split : U.urlsplit u with
  | none =>
      rw [split] at h
      cases h
  | some parts =>
      rw [split] at h
      dsimp only at h
      cases port_ : parts.port with
      | none =>
          rw [port_] at h
          cases h
      | some port =>
          rw [port_] at h
          dsimp only at h
          by_cases no : ((defaultPort parts.scheme).isNone ||
              (parts.hostname.getD []).isEmpty) = true
          · rw [if_pos no] at h
            cases h
          rw [if_neg no] at h
          by_cases user : (parts.username.isSome || parts.password.isSome) = true
          · rw [if_pos user] at h
            cases h
          rw [Bool.or_eq_true_iff, not_or, Option.isNone_iff_eq_none, List.isEmpty_iff] at no
          rw [Bool.or_eq_true_iff, not_or, Bool.not_eq_true, Bool.not_eq_true,
            Option.isSome_eq_false_iff, Option.isSome_eq_false_iff, Option.isNone_iff_eq_none,
            Option.isNone_iff_eq_none] at user
          cases host : parts.hostname with
          | none =>
              rw [host] at no
              exact absurd rfl no.2
          | some name =>
              rw [host] at no
              exact ⟨parts, port, name, rfl, port_, no.1, host, no.2, user.1, user.2⟩

theorem keptPort_keptPort (scheme : Text) (port : Option ℕ) :
    keptPort scheme (keptPort scheme port) = keptPort scheme port := by
  rw [keptPort, keptPort, Option.filter_filter]
  simp only [Bool.and_self]

theorem mem_keptPort {scheme : Text} {port : Option ℕ} {n : ℕ} (mem : n ∈ keptPort scheme port) :
    n ∈ port :=
  (Option.mem_filter_iff.1 mem).1

end Normal

namespace Address

/-! ## The host of an accepted address -/

section Hosts

variable {R : Tables} {parts : SplitResult} {port_ : Option ℕ} {host : Text}

/-- What there is to know of a host that `normalise` puts back. -/
structure Usable (R : Tables) (host : Text) : Prop where
  some_ : host ≠ []
  at_ : commercialAt ∉ host
  closing_ : closing ∉ host
  inside : ∀ c ∈ host, isBoundary c = false ∧ isUnsafe c = false
  flat : ∀ c ∈ host, R.decomposes c = false
  again : lowerHost R.lowering host = host
  bracketed : colon ∈ host → checkBracketedHost R host = true

theorem at_of_userinfo {netloc : Text} (none_ : (userinfo netloc).1 = none) :
    commercialAt ∉ netloc := by
  intro mem
  rw [userinfo, if_pos (List.contains_iff_mem.2 mem)] at none_
  cases none_

theorem mem_hostinfo {netloc : Text} (at_ : commercialAt ∉ netloc) {c : Fin 0x110000}
    (mem : c ∈ (hostinfo netloc).1) : c ∈ netloc := by
  rw [hostinfo, afterLast_absent at_] at mem
  dsimp only at mem
  split_ifs at mem
  · exact mem_of_mem_after (mem_of_mem_before mem)
  · exact mem_of_mem_before mem

/-- The host of a network location whose brackets fit has no closing bracket, and it was checked
if it has a colon. -/
theorem hostinfo_spec {netloc : Text} (at_ : commercialAt ∉ netloc)
    (checked : checkNetloc R netloc = true) :
    closing ∉ (hostinfo netloc).1 ∧
      (colon ∈ (hostinfo netloc).1 → checkBracketedHost R (hostinfo netloc).1 = true) := by
  rw [checkNetloc, Bool.and_eq_true_iff, Bool.and_eq_true_iff, beq_iff_eq] at checked
  obtain ⟨⟨both, brackets⟩, -⟩ := checked
  rw [hostinfo, afterLast_absent at_]
  dsimp only
  by_cases opens : netloc.contains opening = true
  · rw [if_pos opens]
    refine ⟨notMem_before _ _, fun _ => ?_⟩
    rw [opens, checkBracketedNetloc, afterLast_absent at_] at brackets
    dsimp only at brackets
    rw [if_pos opens, Bool.not_true, Bool.false_or, Bool.and_eq_true_iff] at brackets
    exact brackets.2
  · rw [if_neg opens]
    refine ⟨fun mem => ?_, fun mem => absurd mem (notMem_before _ _)⟩
    rw [both] at opens
    exact opens (List.contains_iff_mem.2 (mem_of_mem_before mem))

theorem usable_of_found (found : Found R parts) (accepted : Accepted parts port_ host) :
    Usable R host := by
  have at_ : commercialAt ∉ parts.netloc := by
    refine at_of_userinfo ?_
    rw [← found.user]
    exact accepted.user
  have is := found.host.symm.trans accepted.host_
  rw [hostname] at is
  split_ifs at is with empty
  obtain rfl := Option.some.inj is
  obtain ⟨closing_, bracketed⟩ := hostinfo_spec at_ found.checked
  have safe := found.safe
  rw [List.forall_mem_append] at safe
  have flat : ∀ c ∈ parts.netloc, R.decomposes c = false := by
    have checked := found.checked
    rw [checkNetloc, Bool.and_eq_true_iff, List.all_eq_true] at checked
    intro c mem
    have even := checked.2 c mem
    rwa [Bool.not_eq_true'] at even
  refine ⟨lowerHost_ne_nil empty, ?_, ?_, ?_, ?_, lowerHost_lowerHost _, ?_⟩
  · rw [mem_lowerHost plain_commercialAt]
    exact fun mem => at_ (mem_hostinfo at_ mem)
  · rw [mem_lowerHost plain_closing]
    exact closing_
  · intro c mem
    constructor
    · by_contra boundary
      rw [Bool.not_eq_false] at boundary
      rw [mem_lowerHost (plain_of_isBoundary boundary)] at mem
      exact absurd boundary (Bool.eq_false_iff.1 (found.inside c (mem_hostinfo at_ mem)))
    · by_contra dirty
      rw [Bool.not_eq_false] at dirty
      rw [mem_lowerHost (plain_of_isUnsafe dirty)] at mem
      exact absurd dirty (Bool.eq_false_iff.1 (safe.1 c (mem_hostinfo at_ mem)))
  · exact decomposes_lowerHost fun c mem => flat c (mem_hostinfo at_ mem)
  · rw [mem_lowerHost plain_colon]
    exact fun mem => checkBracketedHost_lowerHost (bracketed mem)

theorem port_le {netloc : Text} (h : port netloc = some port_) : ∀ n ∈ port_, n ≤ 65535 := by
  rw [port] at h
  split_ifs at h with empty fits
  · obtain rfl := Option.some.inj h
    exact fun n mem => absurd mem (Option.not_mem_none n)
  · obtain rfl := Option.some.inj h
    intro n mem
    obtain rfl := Option.some.inj mem
    exact of_decide_eq_true (Bool.and_eq_true_iff.1 fits).2

theorem named_of_colon (colons : colon ∈ host) (p : Option ℕ) :
    named R.lowering host ++ portPart p = opening :: (host ++ closing :: portPart p) := by
  rw [named, if_pos (List.contains_iff_mem.2 colons), List.cons_append, List.append_assoc]
  rfl

theorem named_of_bare (bare : colon ∉ host) : named R.lowering host = R.lowering.lower host :=
  if_neg fun there => bare (List.contains_iff_mem.1 there)

theorem inside_named (usable : Usable R host) (p : Option ℕ) :
    ∀ c ∈ named R.lowering host ++ portPart p, isBoundary c = false ∧ isUnsafe c = false := by
  have port_ : ∀ c ∈ portPart p, isBoundary c = false ∧ isUnsafe c = false :=
    fun c mem => (unmarked_portPart mem).2.2.2.2
  by_cases colons : colon ∈ host
  · rw [named_of_colon colons, List.forall_mem_cons, List.forall_mem_append, List.forall_mem_cons]
    exact ⟨by decide, usable.inside, by decide, port_⟩
  · rw [named_of_bare colons, List.forall_mem_append]
    refine ⟨fun c mem => ⟨?_, ?_⟩, port_⟩
    · by_contra boundary
      rw [Bool.not_eq_false] at boundary
      rw [mem_lower (plain_of_isBoundary boundary)] at mem
      exact absurd boundary (Bool.eq_false_iff.1 (usable.inside c mem).1)
    · by_contra dirty
      rw [Bool.not_eq_false] at dirty
      rw [mem_lower (plain_of_isUnsafe dirty)] at mem
      exact absurd dirty (Bool.eq_false_iff.1 (usable.inside c mem).2)

theorem named_ne_nil (usable : Usable R host) (p : Option ℕ) :
    named R.lowering host ++ portPart p ≠ [] := by
  refine List.append_ne_nil_of_left_ne_nil ?_ _
  by_cases colons : colon ∈ host
  · rw [named, if_pos (List.contains_iff_mem.2 colons)]
    exact List.cons_ne_nil _ _
  · rw [named_of_bare colons]
    exact lower_ne_nil usable.some_

/-- The host that is found in what `normalise` wrote. -/
def rehosted (R : Tables) (host : Text) : Text :=
  if colon ∈ host then host else R.lowering.lower host

theorem userinfo_absent {netloc : Text} (at_ : commercialAt ∉ netloc) :
    userinfo netloc = (none, none) :=
  if_neg fun there => at_ (List.contains_iff_mem.1 there)

theorem at_named (usable : Usable R host) (p : Option ℕ) :
    commercialAt ∉ named R.lowering host ++ portPart p := by
  intro mem
  by_cases colons : colon ∈ host
  · rw [named_of_colon colons] at mem
    rcases List.mem_cons.1 mem with same | mem
    · revert same
      decide
    rcases List.mem_append.1 mem with mem | mem
    · exact usable.at_ mem
    rcases List.mem_cons.1 mem with same | mem
    · revert same
      decide
    · exact notMem_portPart.1 mem
  · rw [named_of_bare colons] at mem
    rcases List.mem_append.1 mem with mem | mem
    · exact usable.at_ ((mem_lower plain_commercialAt).1 mem)
    · exact notMem_portPart.1 mem

/-- Unless its brackets are gone, what `normalise` wrote of a host is read as that host. -/
theorem reread (usable : Usable R host) (brackets : opening ∈ host → colon ∈ host)
    {p : Option ℕ} (small : ∀ n ∈ p, n ≤ 65535) :
    checkNetloc R (named R.lowering host ++ portPart p) = true ∧
      hostname R (named R.lowering host ++ portPart p) = some (rehosted R host) ∧
      port (named R.lowering host ++ portPart p) = some p := by
  by_cases colons : colon ∈ host
  · have bracketed : Bracketed R host := ⟨usable.at_, usable.closing_, usable.bracketed colons⟩
    have info := hostinfo_bracketed bracketed p
    rw [named_of_colon colons, rehosted, if_pos colons, hostname, info]
    refine ⟨checkNetloc_bracketed bracketed usable.flat p, ?_, ?_⟩
    · rw [if_neg usable.some_, usable.again]
    · exact port_of_digits (congrArg Prod.snd info) small
  · have bare : Bare (R.lowering.lower host) := by
      refine ⟨lower_ne_nil usable.some_, ?_, ?_, ?_, ?_⟩
      · rw [mem_lower plain_commercialAt]
        exact usable.at_
      · rw [mem_lower plain_opening]
        exact mt brackets colons
      · rw [mem_lower plain_closing]
        exact usable.closing_
      · rw [mem_lower plain_colon]
        exact colons
    have info := hostinfo_bare bare p
    rw [named_of_bare colons, rehosted, if_neg colons, hostname, info]
    refine ⟨checkNetloc_bare bare (R.lowered _ usable.flat) p, ?_, ?_⟩
    · rw [if_neg bare.some_, lowerHost_lower]
    · exact port_of_digits (congrArg Prod.snd info) small

/-- A host that kept its opening bracket and lost the closing one is refused. -/
theorem unread (usable : Usable R host) (opens : opening ∈ host) (bare : colon ∉ host)
    (p : Option ℕ) : checkNetloc R (named R.lowering host ++ portPart p) = false := by
  have there : (R.lowering.lower host ++ portPart p).contains opening = true :=
    List.contains_iff_mem.2 (List.mem_append_left _ ((mem_lower plain_opening).2 opens))
  have gone : (R.lowering.lower host ++ portPart p).contains closing = false := by
    refine contains_eq_false fun mem => ?_
    rcases List.mem_append.1 mem with mem | mem
    · exact usable.closing_ ((mem_lower plain_closing).1 mem)
    · exact notMem_portPart.2.2 mem
  rw [named_of_bare bare, checkNetloc, there, gone]
  rfl

/-- The pieces `normalise` puts together make an address. -/
theorem parted_of_found (found : Found R parts) (usable : Usable R host)
    (some_ : parts.netloc ≠ []) (p : Option ℕ) :
    Parted (named R.lowering host ++ portPart p)
      (if parts.path = [] then [slash] else parts.path) parts.query := by
  have safe := found.safe
  rw [List.forall_mem_append, List.forall_mem_append] at safe
  have path_ : ∀ c ∈ (if parts.path = [] then [slash] else parts.path),
      c = slash ∨ c ∈ parts.path := by
    intro c mem
    split_ifs at mem
    · exact .inl (List.mem_singleton.1 mem)
    · exact .inr mem
  refine ⟨named_ne_nil usable p, fun c mem => (inside_named usable p c mem).1, ?_, ?_, ?_, ?_⟩
  · by_cases empty : parts.path = []
    · exact ⟨[], if_pos empty⟩
    · obtain ⟨rest, is⟩ := (found.rooted some_).resolve_left empty
      exact ⟨rest, (if_neg empty).trans is⟩
  · intro mem
    rcases path_ _ mem with same | mem
    · revert same
      decide
    · exact found.question_ mem
  · refine ⟨fun mem => ?_, found.hash_.2⟩
    rcases path_ _ mem with same | mem
    · revert same
      decide
    · exact found.hash_.1 mem
  · refine List.forall_mem_append.2 ⟨fun c mem => (inside_named usable p c mem).2,
      List.forall_mem_append.2 ⟨fun c mem => ?_, safe.2.2⟩⟩
    rcases path_ c mem with rfl | mem
    · decide
    · exact safe.2.1 c mem

end Hosts

end Address

/-! ## Where an address leads -/

/-- Where an address leads: the host in lower case, and the port it names or has by default. -/
structure Destination where
  scheme : Text
  host : Text
  port : Option ℕ
  query : Text

def destination (U : Urllib) (L : Lowering) (url : Text) : Option Destination :=
  (U.urlsplit url).bind fun parts =>
    parts.port.map fun port =>
      ⟨parts.scheme, L.lower (parts.hostname.getD []), port.or (defaultPort parts.scheme),
        parts.query⟩

/-- The port is not 0, and a host with an opening bracket in it has a colon. -/
def Settled (U : Urllib) (url : Text) : Prop :=
  ∀ parts, U.urlsplit url = some parts → parts.port ≠ some (some 0) ∧
    ∀ host, parts.hostname = some host → opening ∈ host → colon ∈ host

section Settling

variable {R : Tables} {resolve : Text → Text → Text} {u r : Text}

theorem netloc_ne_nil {parts : SplitResult} {port : Option ℕ} {host : Text} (found : Found R parts)
    (accepted : Accepted parts port host) : parts.netloc ≠ [] := by
  intro empty
  have is := found.host.symm.trans accepted.host_
  rw [empty] at is
  cases is

theorem lower_rehosted (host : Text) :
    R.lowering.lower (rehosted R host) = R.lowering.lower host := by
  rw [rehosted]
  split_ifs
  · rfl
  · exact lower_lower host

theorem named_rehosted (host : Text) :
    named R.lowering (rehosted R host) = named R.lowering host := by
  by_cases colons : colon ∈ host
  · rw [rehosted, if_pos colons]
  · have bare : colon ∉ R.lowering.lower host := mt (mem_lower plain_colon).1 colons
    rw [rehosted, if_neg colons, named_of_bare bare, named_of_bare colons, lower_lower]

theorem rehosted_ne_nil {host : Text} (some_ : host ≠ []) : rehosted R host ≠ [] := by
  rw [rehosted]
  split_ifs
  · exact some_
  · exact lower_ne_nil some_

/-- The port 0 is the only one that is not the effective port of what is left of it. -/
theorem effective_iff {scheme : Text} (positive : defaultPort scheme ≠ some 0)
    (port : Option ℕ) :
    (keptPort scheme port).or (defaultPort scheme) = port.or (defaultPort scheme) ↔
      port ≠ some 0 := by
  cases port with
  | none => exact iff_of_true rfl nofun
  | some n =>
      by_cases zero : n = 0
      · subst zero
        rw [keptPort_none (.inl rfl)]
        exact iff_of_false positive fun no => no rfl
      · have other : some n ≠ some 0 := fun same => zero (Option.some.inj same)
        refine iff_of_true ?_ other
        by_cases default_ : some n = defaultPort scheme
        · rw [keptPort_none (.inr default_)]
          exact default_.symm
        · rw [keptPort_some (not_or.2 ⟨zero, default_⟩)]

theorem defaultPort_ne_zero (scheme : Text) : defaultPort scheme ≠ some 0 := by
  rw [defaultPort]
  split_ifs
  all_goals decide

theorem settled_iff {parts : SplitResult} {port : Option ℕ} {host : Text}
    (split : urlsplit R u = some parts) (accepted : Accepted parts port host) :
    Settled (urllib R resolve) u ↔ port ≠ some 0 ∧ (opening ∈ host → colon ∈ host) := by
  constructor
  · intro settled
    obtain ⟨named_, brackets⟩ := settled parts split
    rw [accepted.port_] at named_
    exact ⟨fun zero => named_ (congrArg some zero), brackets host accepted.host_⟩
  · rintro ⟨named_, brackets⟩ parts' split'
    obtain rfl := Option.some.inj (split.symm.trans split')
    rw [accepted.port_, accepted.host_]
    refine ⟨fun zero => named_ (Option.some.inj zero), fun host' same => ?_⟩
    obtain rfl := Option.some.inj same
    exact brackets

theorem destination_eq {parts : SplitResult} {port : Option ℕ} {host : Text}
    (split : urlsplit R u = some parts) (accepted : Accepted parts port host) :
    destination (urllib R resolve) R.lowering u =
      some ⟨parts.scheme, R.lowering.lower host, port.or (defaultPort parts.scheme),
        parts.query⟩ := by
  rw [destination, show (urllib R resolve).urlsplit u = _ from split, Option.bind_some,
    accepted.port_, accepted.host_]
  rfl

/-- What `normalise` makes of what was found. -/
def rebuilt (R : Tables) (parts : SplitResult) (port : Option ℕ) (host : Text) : Text :=
  urlunsplit parts.scheme (named R.lowering host ++ portPart (keptPort parts.scheme port))
    (if parts.path = [] then [slash] else parts.path) parts.query

/-- A normal form is split into what it was put together from. -/
theorem urlsplit_rebuilt {parts : SplitResult} {port : Option ℕ} {host : Text}
    (found : Found R parts) (accepted : Accepted parts port host)
    (brackets : opening ∈ host → colon ∈ host) :
    urlsplit R (rebuilt R parts port host) =
      some ⟨parts.scheme, named R.lowering host ++ portPart (keptPort parts.scheme port),
        if parts.path = [] then [slash] else parts.path, parts.query, some (rehosted R host),
        some (keptPort parts.scheme port), none, none⟩ := by
  have usable := usable_of_found found accepted
  have parted := parted_of_found found usable (netloc_ne_nil found accepted)
    (keptPort parts.scheme port)
  have small : ∀ n ∈ keptPort parts.scheme port, n ≤ 65535 := fun n mem =>
    port_le (found.port_.symm.trans accepted.port_) n (mem_keptPort mem)
  obtain ⟨checked, host_, port_⟩ := reread usable brackets small
  rw [rebuilt, urlsplit_urlunsplit (web_of_defaultPort accepted.scheme_) parted, if_pos checked,
    host_, port_, userinfo_absent (at_named usable _)]

/-- A normal form whose brackets are in order is its own, and only its port may be another. -/
theorem normalise_rebuilt (resolve : Text → Text → Text) {parts : SplitResult}
    {port : Option ℕ} {host : Text} (found : Found R parts) (accepted : Accepted parts port host)
    (brackets : opening ∈ host → colon ∈ host) :
    normalise (urllib R resolve) R.lowering (rebuilt R parts port host) =
        some (rebuilt R parts port host) ∧
      destination (urllib R resolve) R.lowering (rebuilt R parts port host) =
        some ⟨parts.scheme, R.lowering.lower host,
          (keptPort parts.scheme port).or (defaultPort parts.scheme), parts.query⟩ := by
  have split := urlsplit_rebuilt found accepted brackets
  have accepted' : Accepted ⟨parts.scheme,
      named R.lowering host ++ portPart (keptPort parts.scheme port),
      if parts.path = [] then [slash] else parts.path, parts.query, some (rehosted R host),
      some (keptPort parts.scheme port), none, none⟩ (keptPort parts.scheme port)
      (rehosted R host) :=
    ⟨rfl, accepted.scheme_, rfl, rehosted_ne_nil accepted.some_, rfl, rfl⟩
  have rooted : (if parts.path = [] then [slash] else parts.path) ≠ [] := by
    split_ifs with empty
    · exact List.cons_ne_nil _ _
    · exact empty
  constructor
  · rw [normalise_eq (U := urllib R resolve) split accepted', named_rehosted, keptPort_keptPort,
      if_neg rooted]
    rfl
  · rw [destination_eq split accepted', lower_rehosted]

/-- A normal form that lost its brackets is none. -/
theorem normalise_rebuilt_none {parts : SplitResult} {port : Option ℕ} {host : Text}
    (found : Found R parts) (accepted : Accepted parts port host) (opens : opening ∈ host)
    (bare : colon ∉ host) :
    normalise (urllib R resolve) R.lowering (rebuilt R parts port host) = none := by
  have usable := usable_of_found found accepted
  have parted := parted_of_found found usable (netloc_ne_nil found accepted)
    (keptPort parts.scheme port)
  have split : urlsplit R (rebuilt R parts port host) = none := by
    rw [rebuilt, urlsplit_urlunsplit (web_of_defaultPort accepted.scheme_) parted,
      unread usable opens bare]
    rfl
  rw [normalise, show (urllib R resolve).urlsplit (rebuilt R parts port host) = _ from split]

/-- The normal form of an address is its own normal form and leads where the address does, exactly
if the address names no port 0 and no bracketed host with an opening bracket and no colon in it. -/
theorem normalise_settles_iff (R : Tables) (resolve : Text → Text → Text) {u r : Text}
    (h : normalise (urllib R resolve) R.lowering u = some r) :
    (normalise (urllib R resolve) R.lowering r = some r ∧
        destination (urllib R resolve) R.lowering r = destination (urllib R resolve) R.lowering u) ↔
      Settled (urllib R resolve) u := by
  obtain ⟨parts, port, host, split, accepted⟩ := accepted_of_normalise h
  have found : Found R parts := found_of_urlsplit split
  obtain rfl : r = rebuilt R parts port host :=
    Option.some.inj (h.symm.trans (normalise_eq split accepted))
  rw [settled_iff split accepted, destination_eq split accepted]
  by_cases brackets : opening ∈ host → colon ∈ host
  · obtain ⟨same, leads⟩ := normalise_rebuilt resolve found accepted brackets
    rw [and_iff_right same, and_iff_left brackets, leads,
      ← effective_iff (defaultPort_ne_zero parts.scheme) port]
    constructor
    · intro equal
      exact congrArg Destination.port (Option.some.inj equal)
    · intro equal
      rw [equal]
  · obtain ⟨opens, bare⟩ := Classical.not_imp.1 brackets
    refine iff_of_false ?_ fun both => brackets both.2
    rintro ⟨same, -⟩
    rw [normalise_rebuilt_none found accepted opens bare] at same
    cases same

end Settling

/-! ## A port of nothing -/

def raised (c : Fin 0x110000) : Fin 0x110000 := if c.val < 0x80 then chr 0x80 else c

theorem le_raised (c : Fin 0x110000) : 0x80 ≤ (raised c).val := by
  rw [raised]
  split_ifs with small
  · decide
  · exact Nat.le_of_not_lt small

/-- A table that leaves every character outside ASCII alone. -/
def unchanged : Lowering where
  other _ c _ := raised c
  above _ c _ := le_raised c

theorem lowerAt_unchanged {c : Fin 0x110000} (capital : ¬ (0x41 ≤ c.val ∧ c.val ≤ 0x5a))
    (kelvin : c.val ≠ 0x212a) (dotted : c.val ≠ 0x130) (before after : Text) :
    unchanged.lowerAt before c after = [c] := by
  rw [Lowering.lowerAt, if_neg capital]
  split_ifs with ascii
  · rfl
  · exact congrArg ([·]) (if_neg ascii)

theorem fixed_unchanged (s : Text) : ∀ c ∈ unchanged.lower s, ∀ before after,
    unchanged.lowerAt before c after = [c] := by
  have go : ∀ front, ∀ c ∈ unchanged.lowerFrom front s, ∀ before after,
      unchanged.lowerAt before c after = [c] := by
    induction s with
    | nil => exact fun _ c mem => absurd mem List.not_mem_nil
    | cons d s ih =>
        intro front
        refine List.forall_mem_append.2 ⟨fun c mem => ?_, ih _⟩
        rw [Lowering.lowerAt] at mem
        split_ifs at mem with ascii capital kelvin dotted
        · obtain rfl := List.mem_singleton.1 mem
          have is : (chr (d.val + 0x20)).val = d.val + 0x20 := by
            rw [val_chr]
            omega
          exact lowerAt_unchanged (by omega) (by omega) (by omega)
        · obtain rfl := List.mem_singleton.1 mem
          exact lowerAt_unchanged capital (by omega) (by omega)
        · obtain rfl := List.mem_singleton.1 mem
          exact lowerAt_unchanged (by decide) (by decide) (by decide)
        · rcases List.mem_cons.1 mem with rfl | mem
          · exact lowerAt_unchanged (by decide) (by decide) (by decide)
          · obtain rfl := List.mem_singleton.1 mem
            exact lowerAt_unchanged (by decide) (by decide) (by decide)
        · obtain rfl : c = d := (List.mem_singleton.1 mem).trans (if_neg ascii)
          exact lowerAt_unchanged (by omega) kelvin dotted
  exact go []

/-- The tables as far as ASCII and `[::1]` go. -/
def asciiTables : Tables where
  lowering := unchanged
  fixed := fixed_unchanged
  decomposes _ := false
  ascii _ _ := rfl
  lowered _ _ _ _ := rfl
  ipv6 host := host == [chr 58, chr 58, chr 49]
  colons host h := by
    obtain rfl := beq_iff_eq.1 h
    decide
  digits host h := by
    obtain rfl := beq_iff_eq.1 h
    show ∀ c ∈ [chr 58, chr 58, chr 49], isHex c = true ∨ c = colon ∨ c = dot
    rw [List.forall_mem_cons, List.forall_mem_cons, List.forall_mem_singleton]
    decide
  cased host h := by
    obtain rfl := beq_iff_eq.1 h
    decide

/-- `urllib.parse` with these tables. -/
def asciiUrllib : Urllib := urllib asciiTables fun _ url => url

theorem normalise_settles_port :
    normalise asciiUrllib unchanged (text "HTTP://H:8080?q#f") =
        some (text "http://h:8080/?q") ∧
      ((normalise asciiUrllib unchanged (text "http://h:8080/?q") =
          some (text "http://h:8080/?q") ∧
        destination asciiUrllib unchanged (text "http://h:8080/?q") =
          destination asciiUrllib unchanged (text "HTTP://H:8080?q#f")) ↔
        Settled asciiUrllib (text "HTTP://H:8080?q#f")) :=
  ⟨by decide +kernel, normalise_settles_iff asciiTables (fun _ url => url) (by decide +kernel)⟩

/-- The port 0 becomes the default port. -/
theorem port_zero_moves :
    normalise asciiUrllib unchanged (text "http://h:0/") = some (text "http://h/") ∧
      destination asciiUrllib unchanged (text "http://h/") ≠
        destination asciiUrllib unchanged (text "http://h:0/") := by
  refine ⟨by decide +kernel, fun same => ?_⟩
  have ports := congrArg (Option.map Destination.port) same
  revert ports
  decide +kernel

end Hx.Crawl
