import Hx.Crawl.Cdp
import Hx.Library.Decimal
import Hx.Library.Firsts
import Hx.Library.Lowering
import Mathlib

/-!
# One page, in full

`harvest` lists the addresses a page points at, and `classify` judges the page by the events of its
visit. Both put addresses that the page chose through `urllib.parse`, which refuses some of them
with a `ValueError`: `normalise` catches it, and the rest of the code does not.
-/

namespace Hx.Crawl

open Hx.Library

/-! ## Addresses -/

/-- What `urlsplit` finds in an address. A port that is no number is `none` twice over. -/
structure SplitResult where
  scheme : Text
  netloc : Text
  path : Text
  query : Text
  hostname : Option Text
  port : Option (Option Nat)
  username : Option Text
  password : Option Text

/-- `urllib.parse`. `urlsplit` has no answer where it raises a `ValueError`, and `resolve` is what
`urljoin` makes of two addresses that were both split. -/
structure Urllib where
  urlsplit : Text → Option SplitResult
  urlunsplit : Text → Text → Text → Text → Text
  resolve : Text → Text → Text

section Addresses

variable (U : Urllib) (L : Lowering)

/-- `urljoin`: an empty address is not split, and neither is one beside it. -/
def urljoin (base url : Text) : Option Text :=
  if base = [] then some url
  else if url = [] then some base
  else match U.urlsplit base, U.urlsplit url with
    | some _, some _ => some (U.resolve base url)
    | _, _ => none

/-- `_DEFAULT_PORTS`. -/
def defaultPort (scheme : Text) : Option Nat :=
  if scheme = text "http" then some 80 else if scheme = text "https" then some 443 else none

def normalise (url : Text) : Option Text :=
  match U.urlsplit url with
  | none => none
  | some parts =>
      match parts.port with
      | none => none
      | some port =>
          let host := parts.hostname.getD []
          if (defaultPort parts.scheme).isNone || host.isEmpty then none
          else if parts.username.isSome || parts.password.isSome then none
          else
            let named :=
              if host.contains (chr 58) then chr 91 :: (host ++ [chr 93]) else L.lower host
            let netloc := match port with
              | none => named
              | some n =>
                  if n = 0 ∨ some n = defaultPort parts.scheme then named
                  else named ++ chr 58 :: (decimal n).map chr
            some (U.urlunsplit parts.scheme netloc
              (if parts.path = [] then [chr 47] else parts.path) parts.query)

/-- `origin_of`: it splits the normal form again. -/
def originOf (url : Text) : Option (Option Text) :=
  match normalise U L url with
  | none => some none
  | some n =>
      match U.urlsplit n with
      | none => none
      | some parts => some (some (parts.scheme ++ text "://" ++ parts.netloc))

end Addresses

/-! ## Harvesting -/

/-- A start tag, with its attributes as they stand. -/
structure StartTag where
  name : Text
  attrs : List (Text × Option Text)

/-- `_LINK_ATTRS`. -/
def linkAttrs : List (Text × Text) :=
  [(text "a", text "href"), (text "area", text "href"), (text "iframe", text "src"),
    (text "form", text "action")]

/-- `dict(attrs).get(name)`, of a value that is not empty: of several the last one counts. -/
def attrOf (name : Text) (attrs : List (Text × Option Text)) : Option Text :=
  match attrs.reverse.lookup name with
  | some (some value) => if value = [] then none else some value
  | _ => none

structure Links where
  found : List Text
  base : Option Text

def handleStarttag (links : Links) (tag : StartTag) : Links :=
  match (if tag.name = text "base" then attrOf (text "href") tag.attrs else none) with
  | some href => { links with base := some href }
  | none =>
      match (linkAttrs.lookup tag.name).bind fun attr => attrOf attr tag.attrs with
      | some value => { links with found := links.found ++ [value] }
      | none => links

/-- The parser's answer for the tags of a page. -/
def linksOf (tags : List StartTag) : Links := tags.foldl handleStarttag ⟨[], none⟩

section Harvest

/-- `str.strip`. -/
def stripped (s : Text) : Text :=
  let space := fun c : Fin 0x110000 => Python.isSpace (Char.ofNat c.val)
  (s.dropWhile space).rdropWhile space

variable (U : Urllib)

/-- The loop of `harvest`, with what it found so far. `seen` holds what `out` does. -/
def joinLinks (base : Text) (out : List Text) : List Text → Option (List Text)
  | [] => some out
  | raw :: rest =>
      match urljoin U base (stripped raw) with
      | none => none
      | some absolute => joinLinks base (addNew out absolute) rest

/-- The address that links are joined to. -/
def baseOf (links : Links) (baseUrl : Text) : Option Text :=
  match links.base with
  | some href => urljoin U baseUrl href
  | none => some baseUrl

/-- `harvest`, over what the parser is total in: the start tags of any text. -/
def harvest (startTags : Text → List StartTag) (html baseUrl : Text) : Option (List Text) :=
  let links := linksOf (startTags html)
  match baseOf U links baseUrl with
  | none => none
  | some base => joinLinks U base [] links.found

end Harvest

/-! ## Events -/

/-- A field that should hold an object: `other` is a value without a `get`. -/
inductive Field (α : Type) where
  | absent
  | object (a : α)
  | other

/-- A `requestId`, which is `None` where there is none. -/
inductive RequestId where
  | hashable (k : Option Key)
  | unhashable
  deriving DecidableEq

/-- The `url` of a request: a text, what splits into nothing although it is none, or what no
address is read of. -/
inductive Url where
  | text (t : Text)
  | nothing
  | other

/-- What is shown of a resource. -/
inductive Shown where
  | text (t : Text)
  | other (written : Text)
  deriving DecidableEq

/-- The `text` of a log entry: a value without a `lower` is `other`. -/
inductive LogText where
  | nothing
  | text (t : Text)
  | other

structure Entry where
  isError : Bool
  logText : LogText
  url : Option Shown

structure Params where
  requestId : RequestId
  isDocument : Bool
  request : Field Url
  entry : Field Entry

inductive Method where
  | requestWillBeSent
  | loadingFailed
  | responseReceived
  | entryAdded
  | other
  deriving DecidableEq

structure Event where
  method : Method
  params : Field Params

/-- `e.get("params", {})`, where its `get` answers. -/
def Event.read (e : Event) : Option Params :=
  match e.params with
  | .absent => some ⟨.hashable none, false, .absent, .absent⟩
  | .object p => some p
  | .other => none

/-! ## Classifying -/

inductive State where
  | rendered
  | degraded
  | failed
  deriving DecidableEq

structure PageResult where
  state : State
  requests : Nat
  droppedHosts : List Text
  inScopeFailures : List Text
  capped : Bool
  loadErrors : List Shown

/-- What the loop of `classify` gathers. -/
structure Seen where
  urls : List (Option Key × Url)
  failed : List (Option Key)
  answered : List (Option Key)
  firstSeen : Option Key
  typedDocument : Option Key

/-- `urls[rid] = url`. -/
def setUrl (urls : List (Option Key × Url)) (rid : Option Key) (url : Url) :
    List (Option Key × Url) :=
  if (urls.lookup rid).isSome then urls.map fun p => if p.1 = rid then (rid, url) else p
  else urls ++ [(rid, url)]

/-- `params.get("request", {}).get("url", "")`. -/
def urlOf : Field Url → Option Url
  | .absent => some (.text [])
  | .object url => some url
  | .other => none

def RequestId.hash : RequestId → Option (Option Key)
  | .hashable rid => some rid
  | .unhashable => none

/-- One event of the loop. -/
def note (s : Seen) (e : Event) : Option Seen :=
  match e.read with
  | none => none
  | some params =>
      match e.method with
      | .requestWillBeSent =>
          match urlOf params.request, params.requestId.hash with
          | some url, some rid => some { s with
              urls := setUrl s.urls rid url
              firstSeen := s.firstSeen.or rid
              typedDocument := s.typedDocument.or (if params.isDocument then rid else none) }
          | _, _ => none
      | .loadingFailed =>
          params.requestId.hash.map fun rid => { s with failed := s.failed ++ [rid] }
      | .responseReceived =>
          params.requestId.hash.map fun rid => { s with answered := s.answered ++ [rid] }
      | _ => some s

def seen (s : Seen) : List Event → Option Seen
  | [] => some s
  | e :: rest => (note s e).bind fun s => seen s rest

def unseen : Seen := ⟨[], [], [], none, none⟩

/-- `failed - answered`. -/
def Seen.dropped (s : Seen) : List (Option Key) :=
  s.failed.dedup.filter fun rid => !s.answered.contains rid

def Seen.document (s : Seen) : Option Key := s.typedDocument.or s.firstSeen

/-- `_LOAD_FAILURE_MARKERS`. -/
def loadFailureMarkers : List Text :=
  [text "failed to load module script", text "refused to execute script",
    text "refused to apply style", text "was blocked due to mime type"]

section Classify

variable (U : Urllib) (L : Lowering)

/-- What one event adds to `load_failures`, if it raises nothing. -/
def loadFailure (e : Event) : Option (Option Shown) :=
  if e.method ≠ .entryAdded then some none
  else match e.read with
    | none => none
    | some params =>
        match params.entry with
        | .other => none
        | .absent => some none
        | .object entry =>
            if !entry.isError then some none
            else match entry.logText with
              | .other => none
              | .nothing => some none
              | .text t =>
                  if loadFailureMarkers.any fun m => Python.contains m (L.lower t) then
                    some (some (entry.url.getD (.text t)))
                  else some none

def loadFailures (out : List Shown) : List Event → Option (List Shown)
  | [] => some out
  | e :: rest =>
      match loadFailure L e with
      | none => none
      | some none => loadFailures out rest
      | some (some what) => loadFailures (addNew out what) rest

/-- `origin_of(url)`. -/
def Url.origin : Url → Option (Option Text)
  | .text t => originOf U L t
  | .nothing => some none
  | .other => none

/-- `urlsplit(url).hostname`. -/
def Url.host : Url → Option (Option Text)
  | .text t => (U.urlsplit t).map SplitResult.hostname
  | .nothing => some none
  | .other => none

/-- `origin in page_origins`. -/
def onSeed (pageOrigins : List Text) : Option Text → Bool
  | some origin => pageOrigins.contains origin
  | none => false

def Url.shown : Url → List Text
  | .text t => [t]
  | _ => []

/-- The loop over the requests that were dropped. -/
def judge (pageOrigins : List Text) (urls : List (Option Key × Url)) (hosts failures : List Text) :
    List (Option Key) → Option (List Text × List Text)
  | [] => some (hosts, failures)
  | rid :: rest =>
      let url := (urls.lookup rid).getD (.text [])
      match url.origin U L with
      | none => none
      | some origin =>
          if onSeed pageOrigins origin then
            judge pageOrigins urls hosts (failures ++ url.shown) rest
          else match url.host U with
            | none => none
            | some host =>
                let name := host.getD []
                judge pageOrigins urls
                  (if name = [] then hosts else addNew hosts name) failures rest

/-- How many requests on the seed origins there were beyond the document. -/
def ownRequests (pageOrigins : List Text) (document : Option Key) :
    List (Option Key × Url) → Option Nat
  | [] => some 0
  | (rid, url) :: rest =>
      if rid = document then ownRequests pageOrigins document rest
      else match url.origin U L with
        | none => none
        | some origin =>
            (ownRequests pageOrigins document rest).map fun n =>
              if onSeed pageOrigins origin then n + 1 else n

def sorted (texts : List Text) : List Text := texts.mergeSort fun a b => decide (a ≤ b)

/-- The state of a page, from what was gathered. -/
def stateOf (pageOrigins : List Text) (harvested : Nat) (s : Seen) (hosts : List Text)
    (failures : List Shown) : Option State :=
  if s.document = none ∨ s.document ∈ s.dropped then some .failed
  else if failures ≠ [] then some .degraded
  else match ownRequests U L pageOrigins s.document s.urls with
    | none => none
    | some own =>
        if harvested > 0 ∨ own > 0 then some .rendered
        else if hosts ≠ [] then some .degraded
        else some .rendered

def classify (events : List Event) (pageOrigins : List Text) (harvested : Nat) (capped : Bool) :
    Option PageResult :=
  match seen unseen events with
  | none => none
  | some s =>
      match judge U L pageOrigins s.urls [] [] s.dropped with
      | none => none
      | some (hosts, inScope) =>
          match loadFailures L [] events with
          | none => none
          | some failures =>
              (stateOf U L pageOrigins harvested s hosts failures).map fun state =>
                ⟨state, s.urls.length, sorted hosts, sorted inScope, capped, failures⟩

end Classify

/-! ## What a page's addresses are joined to -/

/-- Two addresses that `urljoin` answers for: neither is refused when both are split. -/
def Joins (U : Urllib) (base url : Text) : Prop :=
  base ≠ [] → url ≠ [] → (U.urlsplit base).isSome = true ∧ (U.urlsplit url).isSome = true

/-- Every address of the page splits, where it is joined to another. -/
structure Joinable (U : Urllib) (links : Links) (baseUrl : Text) : Prop where
  base : ∀ href, links.base = some href → Joins U baseUrl href
  links : ∀ base, baseOf U links baseUrl = some base →
    ∀ raw ∈ links.found, Joins U base (stripped raw)

/-- The addresses of the links, each once and in the order of the document. -/
def Once (U : Urllib) (links : Links) (baseUrl : Text) (out : List Text) : Prop :=
  ∃ (base : Text) (absolutes : List Text), baseOf U links baseUrl = some base ∧
    links.found.map (fun raw => urljoin U base (stripped raw)) = absolutes.map some ∧
    (∀ url, url ∈ out ↔ url ∈ absolutes) ∧
    out.Pairwise fun u v => absolutes.idxOf u < absolutes.idxOf v

section Joining

variable {U : Urllib}

theorem urljoin_isSome_iff {base url : Text} :
    (urljoin U base url).isSome = true ↔ Joins U base url := by
  unfold urljoin Joins
  by_cases empty : base = []
  · simp [empty]
  by_cases empty' : url = []
  · rw [if_neg empty, if_pos empty']
    simp [empty']
  rw [if_neg empty, if_neg empty']
  cases U.urlsplit base <;> cases U.urlsplit url <;> simp [empty, empty']

theorem joinLinks_eq {base : Text} {raws absolutes : List Text}
    (joined : raws.map (fun raw => urljoin U base (stripped raw)) = absolutes.map some)
    (out : List Text) : joinLinks U base out raws = some (absolutes.foldl addNew out) := by
  induction raws generalizing absolutes out with
  | nil =>
      cases absolutes with
      | nil => rfl
      | cons a rest => cases joined
  | cons raw raws ih =>
      cases absolutes with
      | nil => cases joined
      | cons a rest =>
          rw [List.map_cons, List.map_cons] at joined
          obtain ⟨one, more⟩ := List.cons_eq_cons.1 joined
          rw [joinLinks, one]
          exact ih more _

/-- Links that all join have addresses. -/
theorem exists_absolutes {base : Text} {raws : List Text}
    (joins : ∀ raw ∈ raws, Joins U base (stripped raw)) :
    ∃ absolutes : List Text,
      raws.map (fun raw => urljoin U base (stripped raw)) = absolutes.map some := by
  induction raws with
  | nil => exact ⟨[], rfl⟩
  | cons raw raws ih =>
      obtain ⟨absolutes, more⟩ := ih fun r mem => joins r (List.mem_cons_of_mem raw mem)
      obtain ⟨a, one⟩ := Option.isSome_iff_exists.1
        (urljoin_isSome_iff.2 (joins raw List.mem_cons_self))
      exact ⟨a :: absolutes, by rw [List.map_cons, List.map_cons, one, more]⟩

/-- `harvest` answers, with each address once, exactly when the page's addresses split. -/
theorem harvest_iff (startTags : Text → List StartTag) (html baseUrl : Text) :
    (∃ out, harvest U startTags html baseUrl = some out ∧
        Once U (linksOf (startTags html)) baseUrl out) ↔
      Joinable U (linksOf (startTags html)) baseUrl := by
  unfold harvest
  simp only
  generalize linksOf (startTags html) = links
  constructor
  · rintro ⟨_, _, base, absolutes, based, joined, _⟩
    constructor
    · intro href same
      rw [baseOf, same] at based
      exact urljoin_isSome_iff.1 (Option.isSome_of_eq_some based)
    · intro base' based' raw mem
      rw [based] at based'
      cases based'
      have answers : urljoin U base (stripped raw) ∈ absolutes.map some :=
        joined ▸ List.mem_map.2 ⟨raw, mem, rfl⟩
      obtain ⟨a, _, same⟩ := List.mem_map.1 answers
      exact urljoin_isSome_iff.1 (Option.isSome_of_eq_some same.symm)
  · rintro ⟨hbase, hlinks⟩
    have based : ∃ base, baseOf U links baseUrl = some base := by
      unfold baseOf
      cases same : links.base with
      | none => exact ⟨baseUrl, rfl⟩
      | some href => exact Option.isSome_iff_exists.1 (urljoin_isSome_iff.2 (hbase href same))
    obtain ⟨base, based⟩ := based
    obtain ⟨absolutes, joined⟩ := exists_absolutes (hlinks base based)
    refine ⟨firsts absolutes, ?_, base, absolutes, based, joined, fun _ => mem_firsts,
      firsts_pairwise absolutes⟩
    rw [based]
    exact joinLinks_eq joined []

end Joining

/-! ## What a page's events say -/

/-- An event about a request, under its `requestId`. -/
def Event.Says (e : Event) (method : Method) (rid : Option Key) : Prop :=
  e.method = method ∧ ∃ params, e.read = some params ∧ params.requestId = .hashable rid

/-- A request that failed and had no response. -/
def Dropped (events : List Event) (rid : Option Key) : Prop :=
  (∃ e ∈ events, e.Says .loadingFailed rid) ∧ ¬∃ e ∈ events, e.Says .responseReceived rid

/-- The `requestId` of a request, if it has one; of the documents alone, or of any. -/
def sentId (documents : Bool) (e : Event) : Option Key :=
  match e.method, e.read with
  | .requestWillBeSent, some params =>
      if documents && !params.isDocument then none else (params.requestId.hash).join
  | _, _ => none

/-- The document: the first request of that type, or else the first request. -/
def documentOf (events : List Event) : Option Key :=
  (events.filterMap (sentId true)).head?.or (events.filterMap (sentId false)).head?

/-- The address of a request. -/
def sentUrl (e : Event) : Option (Option Key × Url) :=
  match e.method, e.read with
  | .requestWillBeSent, some params =>
      match urlOf params.request, params.requestId.hash with
      | some url, some rid => some (rid, url)
      | _, _ => none
  | _, _ => none

/-- The last address a request was seen under. -/
def lastUrl (events : List Event) (rid : Option Key) : Option Url :=
  (events.filterMap sentUrl).reverse.lookup rid

/-- An event that nothing is missing from: its `params` have a `get`, and so has its request; its
`requestId` goes into a set. -/
def Shaped (e : Event) : Prop :=
  ∃ params, e.read = some params ∧ match e.method with
    | .requestWillBeSent => (∃ url, urlOf params.request = some url) ∧
        ∃ rid, params.requestId = .hashable rid
    | .loadingFailed | .responseReceived => ∃ rid, params.requestId = .hashable rid
    | _ => True

/-- An event of the log that reports a load failure. -/
def Reports (L : Lowering) (e : Event) : Prop := ∃ what, loadFailure L e = some (some what)

/-- The events that `classify` answers for. The addresses of the requests that were dropped split,
and so do those of the others where they are counted. -/
structure Readable (U : Urllib) (L : Lowering) (pageOrigins : List Text) (events : List Event) :
    Prop where
  shaped : ∀ e ∈ events, Shaped e
  logged : ∀ e ∈ events, (loadFailure L e).isSome = true
  dropped : ∀ rid, Dropped events rid → ∃ origin,
    ((lastUrl events rid).getD (.text [])).origin U L = some origin ∧
      (onSeed pageOrigins origin = true ∨
        (((lastUrl events rid).getD (.text [])).host U).isSome = true)
  counted : documentOf events ≠ none → ¬Dropped events (documentOf events) →
    (∀ e ∈ events, ¬Reports L e) → ∀ rid url, lastUrl events rid = some url →
      rid ≠ documentOf events → (url.origin U L).isSome = true

/-- A page is `rendered` only if its document was seen and not dropped, and it reports no load
failure. -/
def Honest (L : Lowering) (events : List Event) (result : PageResult) : Prop :=
  result.state = .rendered → documentOf events ≠ none ∧ ¬Dropped events (documentOf events) ∧
    ∀ e ∈ events, ¬Reports L e

/-! ## The loop over the events -/

/-- The requests with one address replaced. -/
def replaced (rid : Option Key) (url : Url) (p : Option Key × Url) : Option Key × Url :=
  if p.1 = rid then (rid, url) else p

theorem lookup_replaced_self {urls : List (Option Key × Url)} {rid : Option Key} (url : Url)
    (held : (urls.lookup rid).isSome = true) :
    (urls.map (replaced rid url)).lookup rid = some url := by
  induction urls with
  | nil => cases held
  | cons p urls ih =>
      rw [List.map_cons, replaced]
      by_cases own : p.1 = rid
      · rw [if_pos own, List.lookup_cons, beq_self_eq_true]
      · rw [List.lookup_cons, beq_false_of_ne (Ne.symm own)] at held
        rw [if_neg own, List.lookup_cons, beq_false_of_ne (Ne.symm own)]
        exact ih held

theorem lookup_replaced_of_ne (urls : List (Option Key × Url)) {rid k : Option Key} (url : Url)
    (other : k ≠ rid) : (urls.map (replaced rid url)).lookup k = urls.lookup k := by
  induction urls with
  | nil => rfl
  | cons p urls ih =>
      rw [List.map_cons, replaced, List.lookup_cons, List.lookup_cons]
      by_cases own : p.1 = rid
      · rw [if_pos own, beq_false_of_ne other, beq_false_of_ne fun h => other (h.trans own)]
        exact ih
      · rw [if_neg own]
        split
        · rfl
        · exact ih

theorem lookup_setUrl (urls : List (Option Key × Url)) (rid k : Option Key) (url : Url) :
    (setUrl urls rid url).lookup k = if k = rid then some url else urls.lookup k := by
  unfold setUrl
  by_cases held : (urls.lookup rid).isSome = true
  · rw [if_pos held]
    by_cases same : k = rid
    · rw [if_pos same, same]
      exact lookup_replaced_self url held
    · rw [if_neg same]
      exact lookup_replaced_of_ne urls url same
  · rw [if_neg held, List.lookup_append, List.lookup_cons, List.lookup_nil]
    by_cases same : k = rid
    · subst same
      rw [Option.not_isSome_iff_eq_none.1 held]
      simp
    · rw [beq_false_of_ne same, if_neg same, Option.or_none]

/-- Each request is found under its own key. -/
def Own (urls : List (Option Key × Url)) : Prop := ∀ p ∈ urls, urls.lookup p.1 = some p.2

theorem Own.setUrl {urls : List (Option Key × Url)} (h : Own urls) (rid : Option Key) (url : Url) :
    Own (setUrl urls rid url) := by
  have kept : ∀ p ∈ Crawl.setUrl urls rid url, p = (rid, url) ∨ (p.1 ≠ rid ∧ p ∈ urls) := by
    intro p mem
    unfold Crawl.setUrl at mem
    split at mem
    · obtain ⟨q, inside, rfl⟩ := List.mem_map.1 mem
      by_cases own : q.1 = rid
      · exact .inl (if_pos own)
      · rw [if_neg own]
        exact .inr ⟨own, inside⟩
    · rename_i missing
      obtain inside | same := List.mem_append.1 mem
      · refine .inr ⟨fun own => missing ?_, inside⟩
        rw [← own, h p inside]
        rfl
      · exact .inl (List.mem_singleton.1 same)
  intro p mem
  rw [lookup_setUrl]
  obtain rfl | ⟨other, inside⟩ := kept p mem
  · exact if_pos rfl
  · rw [if_neg other, h p inside]

theorem mem_of_lookup {urls : List (Option Key × Url)} {rid : Option Key} {url : Url}
    (h : urls.lookup rid = some url) : (rid, url) ∈ urls := by
  induction urls with
  | nil => cases h
  | cons p urls ih =>
      rw [List.lookup_cons] at h
      split at h
      · rename_i same
        cases h
        rw [eq_of_beq same]
        exact List.mem_cons_self
      · exact List.mem_cons_of_mem p (ih h)

/-- What one event, or several, add to what the loop gathers. -/
structure Sees (s : Seen) (events : List Event) (s' : Seen) : Prop where
  firstSeen : s'.firstSeen = s.firstSeen.or (events.filterMap (sentId false)).head?
  typedDocument : s'.typedDocument = s.typedDocument.or (events.filterMap (sentId true)).head?
  failed : ∀ rid, rid ∈ s'.failed ↔ rid ∈ s.failed ∨ ∃ e ∈ events, e.Says .loadingFailed rid
  answered : ∀ rid,
    rid ∈ s'.answered ↔ rid ∈ s.answered ∨ ∃ e ∈ events, e.Says .responseReceived rid
  urls : ∀ rid, s'.urls.lookup rid = (lastUrl events rid).or (s.urls.lookup rid)
  own : Own s.urls → Own s'.urls

theorem says_iff {e : Event} {params : Params} (read : e.read = some params) {method : Method}
    (is_ : e.method = method) (rid : Option Key) :
    (∃ e' ∈ [e], e'.Says method rid) ↔ params.requestId = .hashable rid := by
  constructor
  · rintro ⟨e', mem, _, params', read', same⟩
    obtain rfl := List.mem_singleton.1 mem
    rw [read] at read'
    cases read'
    exact same
  · exact fun same => ⟨e, List.mem_singleton_self e, is_, params, read, same⟩

theorem unsaid_of_ne {e : Event} {method method' : Method} (is_ : e.method = method')
    (ne : method' ≠ method)
    (rid : Option Key) : ¬∃ e' ∈ [e], e'.Says method rid := by
  rintro ⟨e', mem, same, _⟩
  obtain rfl := List.mem_singleton.1 mem
  exact ne (is_.symm.trans same)

/-- An event that is not a request changes neither the document nor the addresses. -/
theorem sent_none {e : Event} (other : e.method ≠ .requestWillBeSent) (documents : Bool) :
    [e].filterMap (sentId documents) = [] ∧ [e].filterMap sentUrl = [] := by
  obtain ⟨method, params⟩ := e
  cases method with
  | requestWillBeSent => exact absurd rfl other
  | _ => exact ⟨rfl, rfl⟩

theorem note_shaped {s s' : Seen} {e : Event} (h : note s e = some s') : Shaped e := by
  unfold note at h
  cases read : e.read with
  | none =>
      rw [read] at h
      cases h
  | some params =>
      rw [read] at h
      refine ⟨params, read, ?_⟩
      have hashed : ∀ rid, params.requestId.hash = some rid →
          ∃ rid, params.requestId = .hashable rid := by
        intro rid same
        cases id_ : params.requestId with
        | hashable rid => exact ⟨rid, rfl⟩
        | unhashable =>
            rw [id_] at same
            cases same
      cases is_ : e.method with
      | requestWillBeSent =>
          simp only [is_] at h
          split at h
          · rename_i url rid hurl hrid
            exact ⟨⟨url, hurl⟩, hashed rid hrid⟩
          · cases h
      | loadingFailed | responseReceived =>
          simp only [is_] at h
          obtain ⟨rid, hrid, _⟩ := Option.map_eq_some_iff.1 h
          exact hashed rid hrid
      | entryAdded => trivial
      | other => trivial

theorem hash_iff {id : RequestId} {rid : Option Key} :
    id.hash = some rid ↔ id = .hashable rid := by
  cases id with
  | hashable k =>
      show some k = some rid ↔ _
      constructor
      · intro same
        rw [Option.some.inj same]
      · intro same
        cases same
        rfl
  | unhashable =>
      constructor
      · intro same
        cases same
      · intro same
        cases same

theorem note_sees {e : Event} (h : Shaped e) (s : Seen) :
    ∃ s', note s e = some s' ∧ Sees s [e] s' := by
  obtain ⟨params, read, shape⟩ := h
  have or_self : ∀ (x : Option Key), x = x.or [].head? := fun x => (Option.or_none).symm
  unfold note
  rw [read]
  cases is_ : e.method with
  | requestWillBeSent =>
      rw [is_] at shape
      obtain ⟨⟨url, hurl⟩, rid, hrid⟩ := shape
      have hash : params.requestId.hash = some rid := hash_iff.2 hrid
      have single : [e].filterMap sentUrl = [(rid, url)] := by
        simp [sentUrl, is_, read, hurl, hash]
      have first : ([e].filterMap (sentId false)).head? = rid := by
        cases rid <;> simp [sentId, is_, read, hash]
      have typed : ([e].filterMap (sentId true)).head? =
          if params.isDocument then rid else none := by
        cases document : params.isDocument <;> cases rid <;>
          simp [sentId, is_, read, hash, document]
      simp only [hurl, hash]
      refine ⟨_, rfl, ⟨?_, ?_, ?_, ?_, ?_, fun own => own.setUrl rid url⟩⟩
      · rw [first]
      · rw [typed]
      · exact fun k => ⟨.inl, fun h => h.resolve_right (unsaid_of_ne is_ (by decide) k)⟩
      · exact fun k => ⟨.inl, fun h => h.resolve_right (unsaid_of_ne is_ (by decide) k)⟩
      · intro k
        show (setUrl s.urls rid url).lookup k = _
        rw [lookup_setUrl, lastUrl, single]
        show _ = ([(rid, url)].lookup k).or _
        rw [List.lookup_cons]
        by_cases same : k = rid
        · simp [same]
        · rw [if_neg same, beq_false_of_ne same]
          rfl
  | loadingFailed =>
      rw [is_] at shape
      obtain ⟨rid, hrid⟩ := shape
      have other : e.method ≠ .requestWillBeSent := by
        rw [is_]
        decide
      simp only [hash_iff.2 hrid, Option.map_some]
      refine ⟨_, rfl, ⟨?_, ?_, ?_, ?_, ?_, id⟩⟩
      · rw [(sent_none other false).1]
        exact or_self _
      · rw [(sent_none other true).1]
        exact or_self _
      · intro k
        show k ∈ s.failed ++ [rid] ↔ _
        rw [List.mem_append, List.mem_singleton, says_iff read is_, hrid]
        exact or_congr_right ⟨fun same => by rw [same], fun same => by cases same; rfl⟩
      · exact fun k => ⟨.inl, fun h => h.resolve_right (unsaid_of_ne is_ (by decide) k)⟩
      · intro k
        rw [lastUrl, (sent_none other false).2]
        rfl
  | responseReceived =>
      rw [is_] at shape
      obtain ⟨rid, hrid⟩ := shape
      have other : e.method ≠ .requestWillBeSent := by
        rw [is_]
        decide
      simp only [hash_iff.2 hrid, Option.map_some]
      refine ⟨_, rfl, ⟨?_, ?_, ?_, ?_, ?_, id⟩⟩
      · rw [(sent_none other false).1]
        exact or_self _
      · rw [(sent_none other true).1]
        exact or_self _
      · exact fun k => ⟨.inl, fun h => h.resolve_right (unsaid_of_ne is_ (by decide) k)⟩
      · intro k
        show k ∈ s.answered ++ [rid] ↔ _
        rw [List.mem_append, List.mem_singleton, says_iff read is_, hrid]
        exact or_congr_right ⟨fun same => by rw [same], fun same => by cases same; rfl⟩
      · intro k
        rw [lastUrl, (sent_none other false).2]
        rfl
  | entryAdded | other =>
      have unsent : e.method ≠ .requestWillBeSent := by
        rw [is_]
        decide
      refine ⟨s, rfl, ⟨?_, ?_, ?_, ?_, ?_, id⟩⟩
      · rw [(sent_none unsent false).1]
        exact or_self _
      · rw [(sent_none unsent true).1]
        exact or_self _
      · exact fun k => ⟨.inl, fun h => h.resolve_right (unsaid_of_ne is_ (by decide) k)⟩
      · exact fun k => ⟨.inl, fun h => h.resolve_right (unsaid_of_ne is_ (by decide) k)⟩
      · intro k
        rw [lastUrl, (sent_none unsent false).2]
        rfl

theorem Sees.nil (s : Seen) : Sees s [] s := by
  have or_self : ∀ (x : Option Key), x = x.or [].head? := fun x => (Option.or_none).symm
  refine ⟨or_self _, or_self _, fun rid => ?_, fun rid => ?_, fun rid => rfl, id⟩ <;> simp

theorem Sees.cons {s s' s'' : Seen} {e : Event} {rest : List Event} (first : Sees s [e] s')
    (more : Sees s' rest s'') : Sees s (e :: rest) s'' := by
  have split : e :: rest = [e] ++ rest := rfl
  refine ⟨?_, ?_, ?_, ?_, ?_, fun own => more.own (first.own own)⟩
  · rw [more.firstSeen, first.firstSeen, split, List.filterMap_append, List.head?_append,
      Option.or_assoc]
  · rw [more.typedDocument, first.typedDocument, split, List.filterMap_append, List.head?_append,
      Option.or_assoc]
  · intro rid
    rw [more.failed, first.failed, split]
    simp only [List.mem_append, or_and_right, exists_or, or_assoc]
  · intro rid
    rw [more.answered, first.answered, split]
    simp only [List.mem_append, or_and_right, exists_or, or_assoc]
  · intro rid
    rw [more.urls, first.urls, split, lastUrl, lastUrl, lastUrl, List.filterMap_append,
      List.reverse_append, List.lookup_append, Option.or_assoc]

/-- The loop ends exactly when every event is shaped as it reads it. -/
theorem seen_shaped {s s' : Seen} {events : List Event} (h : seen s events = some s') :
    ∀ e ∈ events, Shaped e := by
  induction events generalizing s with
  | nil => exact fun e mem => absurd mem List.not_mem_nil
  | cons e rest ih =>
      obtain ⟨s₁, first, more⟩ := Option.bind_eq_some_iff.1 h
      exact List.forall_mem_cons.2 ⟨note_shaped first, ih more⟩

theorem seen_sees {events : List Event} (h : ∀ e ∈ events, Shaped e) (s : Seen) :
    ∃ s', seen s events = some s' ∧ Sees s events s' := by
  induction events generalizing s with
  | nil => exact ⟨s, rfl, Sees.nil s⟩
  | cons e rest ih =>
      obtain ⟨own, others⟩ := List.forall_mem_cons.1 h
      obtain ⟨s₁, first, sees⟩ := note_sees own s
      obtain ⟨s₂, more, sees'⟩ := ih others s₁
      refine ⟨s₂, ?_, sees.cons sees'⟩
      rw [seen, first]
      exact more

theorem mem_dropped {events : List Event} {s : Seen} (h : Sees unseen events s)
    (rid : Option Key) : rid ∈ s.dropped ↔ Dropped events rid := by
  have failed := h.failed rid
  have answered := h.answered rid
  simp only [unseen, List.not_mem_nil, false_or] at failed answered
  unfold Seen.dropped Dropped
  rw [List.mem_filter, List.mem_dedup, failed, ← answered]
  simp

theorem document_eq {events : List Event} {s : Seen} (h : Sees unseen events s) :
    s.document = documentOf events := by
  rw [Seen.document, h.typedDocument, h.firstSeen]
  rfl

theorem urls_eq {events : List Event} {s : Seen} (h : Sees unseen events s) (rid : Option Key) :
    s.urls.lookup rid = lastUrl events rid := by
  rw [h.urls]
  exact Option.or_none

/-! ## Judging -/

section Judging

variable {U : Urllib} {L : Lowering} {pageOrigins : List Text}

/-- An address that a dropped request is judged by. -/
def Judged (U : Urllib) (L : Lowering) (pageOrigins : List Text) (url : Url) : Prop :=
  ∃ origin, url.origin U L = some origin ∧
    (onSeed pageOrigins origin = true ∨ (url.host U).isSome = true)

theorem judge_isSome_iff (urls : List (Option Key × Url)) (rids : List (Option Key))
    (hosts failures : List Text) :
    (judge U L pageOrigins urls hosts failures rids).isSome = true ↔
      ∀ rid ∈ rids, Judged U L pageOrigins ((urls.lookup rid).getD (.text [])) := by
  induction rids generalizing hosts failures with
  | nil => exact ⟨fun _ rid mem => absurd mem List.not_mem_nil, fun _ => rfl⟩
  | cons rid rest ih =>
      rw [List.forall_mem_cons]
      generalize same : (urls.lookup rid).getD (.text []) = url
      unfold judge Judged
      simp only [same]
      cases origin_ : url.origin U L with
      | none => simp
      | some origin =>
          cases seed : onSeed pageOrigins origin with
          | true => simpa [Judged, seed] using ih hosts (failures ++ url.shown)
          | false =>
              cases host_ : url.host U with
              | none => simp [seed]
              | some host => simpa [Judged, seed] using ih _ failures

/-- The log is read to its end exactly when each event of it is. -/
theorem loadFailures_isSome_iff (events : List Event) (out : List Shown) :
    (loadFailures L out events).isSome = true ↔
      ∀ e ∈ events, (loadFailure L e).isSome = true := by
  induction events generalizing out with
  | nil => exact ⟨fun _ e mem => absurd mem List.not_mem_nil, fun _ => rfl⟩
  | cons e rest ih =>
      rw [List.forall_mem_cons, loadFailures]
      cases loadFailure L e with
      | none => simp
      | some what =>
          cases what with
          | none => simpa using ih out
          | some what => simpa using ih (addNew out what)

theorem addNew_ne_nil (out : List Shown) (what : Shown) : addNew out what ≠ [] :=
  List.ne_nil_of_mem (mem_addNew.2 (.inr rfl))

/-- Nothing is listed exactly when no event reports a load failure. -/
theorem loadFailures_eq_nil_iff {events : List Event} {out failures : List Shown}
    (h : loadFailures L out events = some failures) :
    failures = [] ↔ out = [] ∧ ∀ e ∈ events, ¬Reports L e := by
  induction events generalizing out with
  | nil =>
      cases h
      simp
  | cons e rest ih =>
      rw [loadFailures] at h
      rw [List.forall_mem_cons]
      cases reported : loadFailure L e with
      | none =>
          rw [reported] at h
          cases h
      | some what =>
          rw [reported] at h
          cases what with
          | none =>
              have silent : ¬Reports L e := by
                rintro ⟨what, same⟩
                rw [reported] at same
                cases same
              simpa [silent] using ih h
          | some what =>
              have loud : Reports L e := ⟨what, reported⟩
              have more := ih h
              simp only [addNew_ne_nil, false_and, iff_false] at more
              simp [loud, more]

theorem ownRequests_isSome_iff (document : Option Key) (urls : List (Option Key × Url)) :
    (ownRequests U L pageOrigins document urls).isSome = true ↔
      ∀ p ∈ urls, p.1 ≠ document → (p.2.origin U L).isSome = true := by
  induction urls with
  | nil => exact ⟨fun _ p mem => absurd mem List.not_mem_nil, fun _ => rfl⟩
  | cons p urls ih =>
      obtain ⟨rid, url⟩ := p
      rw [List.forall_mem_cons, ownRequests]
      by_cases same : rid = document
      · simpa [same] using ih
      · rw [if_neg same]
        cases url.origin U L with
        | none => simp [same]
        | some origin => simpa using ih

theorem stateOf_isSome_iff (harvested : Nat) (s : Seen) (hosts : List Text)
    (failures : List Shown) :
    (stateOf U L pageOrigins harvested s hosts failures).isSome = true ↔
      (s.document ≠ none → s.document ∉ s.dropped → failures = [] →
        (ownRequests U L pageOrigins s.document s.urls).isSome = true) := by
  unfold stateOf
  by_cases unseen_ : s.document = none ∨ s.document ∈ s.dropped
  · rw [if_pos unseen_]
    refine ⟨fun _ some_ kept => ?_, fun _ => rfl⟩
    exact absurd unseen_ (not_or.2 ⟨some_, kept⟩)
  · rw [if_neg unseen_]
    obtain ⟨some_, kept⟩ := not_or.1 unseen_
    by_cases reported : failures = []
    · rw [if_neg (not_not.2 reported)]
      cases ownRequests U L pageOrigins s.document s.urls with
      | none => simp [some_, kept, reported]
      | some own =>
          simp only [Option.isSome_some, implies_true, iff_true]
          split_ifs <;> rfl
    · rw [if_pos reported]
      exact ⟨fun _ _ _ none_ => absurd none_ reported, fun _ => rfl⟩

theorem of_rendered {harvested : Nat} {s : Seen} {hosts : List Text} {failures : List Shown}
    (h : stateOf U L pageOrigins harvested s hosts failures = some .rendered) :
    s.document ≠ none ∧ s.document ∉ s.dropped ∧ failures = [] := by
  unfold stateOf at h
  by_cases unseen_ : s.document = none ∨ s.document ∈ s.dropped
  · rw [if_pos unseen_] at h
    cases h
  · rw [if_neg unseen_] at h
    by_cases reported : failures = []
    · exact ⟨(not_or.1 unseen_).1, (not_or.1 unseen_).2, reported⟩
    · rw [if_pos reported] at h
      cases h

/-- `classify` answers exactly for the events it can read, and then says `rendered` of no page it
should not. -/
theorem classify_iff (events : List Event) (harvested : Nat) (capped : Bool) :
    (∃ result, classify U L events pageOrigins harvested capped = some result ∧
        Honest L events result) ↔ Readable U L pageOrigins events := by
  constructor
  · rintro ⟨result, answer, _⟩
    unfold classify at answer
    cases gathered : seen unseen events with
    | none =>
        rw [gathered] at answer
        cases answer
    | some s =>
        have shaped := seen_shaped gathered
        obtain ⟨s', same, sees⟩ := seen_sees shaped unseen
        obtain rfl := Option.some.inj (gathered.symm.trans same)
        simp only [gathered] at answer
        cases judged : judge U L pageOrigins s.urls [] [] s.dropped with
        | none =>
            rw [judged] at answer
            cases answer
        | some pair =>
            have fits := (judge_isSome_iff s.urls s.dropped [] []).1
              (Option.isSome_of_eq_some judged)
            simp only [judged] at answer
            cases listed : loadFailures L [] events with
            | none =>
                rw [listed] at answer
                cases answer
            | some failures =>
                rw [listed] at answer
                obtain ⟨state, stated, _⟩ := Option.map_eq_some_iff.1 answer
                refine ⟨shaped, (loadFailures_isSome_iff events []).1
                  (Option.isSome_of_eq_some listed), ?_, ?_⟩
                · intro rid dropped
                  have own := fits rid ((mem_dropped sees rid).2 dropped)
                  rwa [urls_eq sees] at own
                · intro some_ kept silent rid url last other
                  rw [← document_eq sees] at some_ kept other
                  have none_ := (loadFailures_eq_nil_iff listed).2 ⟨rfl, silent⟩
                  have counted := (stateOf_isSome_iff harvested s pair.1 failures).1
                    (Option.isSome_of_eq_some stated) some_
                    (mt (mem_dropped sees _).1 kept) none_
                  refine (ownRequests_isSome_iff s.document s.urls).1 counted (rid, url) ?_ other
                  exact mem_of_lookup ((urls_eq sees rid).trans last)
  · intro readable
    obtain ⟨s, gathered, sees⟩ := seen_sees readable.shaped unseen
    have fits : ∀ rid ∈ s.dropped,
        Judged U L pageOrigins ((s.urls.lookup rid).getD (.text [])) := by
      intro rid mem
      rw [urls_eq sees]
      exact readable.dropped rid ((mem_dropped sees rid).1 mem)
    obtain ⟨pair, judged⟩ := Option.isSome_iff_exists.1
      ((judge_isSome_iff s.urls s.dropped [] []).2 fits)
    obtain ⟨failures, listed⟩ := Option.isSome_iff_exists.1
      ((loadFailures_isSome_iff events []).2 readable.logged)
    have nothing := loadFailures_eq_nil_iff listed
    have states : (stateOf U L pageOrigins harvested s pair.1 failures).isSome = true := by
      refine (stateOf_isSome_iff harvested s pair.1 failures).2 fun some_ kept none_ => ?_
      refine (ownRequests_isSome_iff s.document s.urls).2 fun p mem other => ?_
      have silent := (nothing.1 none_).2
      rw [document_eq sees] at some_ kept other
      refine readable.counted some_ (mt (mem_dropped sees _).2 kept) silent p.1 p.2 ?_ other
      rw [← urls_eq sees]
      exact sees.own (fun p mem => absurd mem List.not_mem_nil) p mem
    obtain ⟨state, stated⟩ := Option.isSome_iff_exists.1 states
    refine ⟨⟨state, s.urls.length, sorted pair.1, sorted pair.2, capped, failures⟩, ?_, ?_⟩
    · unfold classify
      simp only [gathered, judged, listed, stated, Option.map_some]
    · intro rendered
      have same : state = .rendered := rendered
      rw [same] at stated
      obtain ⟨some_, kept, none_⟩ := of_rendered stated
      rw [document_eq sees] at some_ kept
      exact ⟨some_, mt (mem_dropped sees _).2 kept, (nothing.1 none_).2⟩

end Judging

/-- `harvest` and `classify` both answer, as they should, exactly when every address they put
through `urllib.parse` splits, and every event has the shape they read it in. -/
theorem page_survives_iff (U : Urllib) (L : Lowering) (startTags : Text → List StartTag)
    (html baseUrl : Text) (events : List Event) (pageOrigins : List Text) (harvested : Nat)
    (capped : Bool) :
    ((∃ out, harvest U startTags html baseUrl = some out ∧
          Once U (linksOf (startTags html)) baseUrl out) ∧
        ∃ result, classify U L events pageOrigins harvested capped = some result ∧
          Honest L events result) ↔
      Joinable U (linksOf (startTags html)) baseUrl ∧ Readable U L pageOrigins events :=
  and_congr (harvest_iff startTags html baseUrl) (classify_iff events harvested capped)

/-! ## A link with a bracket that nothing closes -/

/-- `urllib.parse`, of one address on `h.test` and of one with a bracket. -/
def bracketUrls : Urllib where
  urlsplit := fun url =>
    if url.contains (chr 91) && !url.contains (chr 93) then none
    else some ⟨text "https", text "h.test", text "/", [], some (text "h.test"), some none, none,
      none⟩
  urlunsplit := fun scheme netloc path _ => scheme ++ text "://" ++ netloc ++ path
  resolve := fun _ url => url

def bracketPage : Text := text "<a href='http://['>"

/-- The parser, of this page. -/
def bracketTags (html : Text) : List StartTag :=
  if html = bracketPage then [⟨text "a", [(text "href", some (text "http://["))]⟩] else []

/-- One link on a page makes `harvest` raise. -/
theorem bracket_link_raises :
    ¬∃ out, harvest bracketUrls bracketTags bracketPage (text "https://h.test/") = some out ∧
      Once bracketUrls (linksOf (bracketTags bracketPage)) (text "https://h.test/") out := by
  have raises :
      harvest bracketUrls bracketTags bracketPage (text "https://h.test/") = none := by
    decide +kernel
  rintro ⟨out, same, _⟩
  rw [raises] at same
  cases same

end Hx.Crawl
