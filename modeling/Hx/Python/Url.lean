import Hx.Python.Text

/-!
# `urllib.parse.urlsplit`: the host and the path

The host and the path of a reference, or the `ValueError` of a network location whose brackets do not
fit. Which bracketed hosts the `ipaddress` module takes differs between versions of the
library, so it is a parameter. The check of non-ASCII hosts never refuses the text of a
header: that text is Latin-1, and no Latin-1 character normalises to a delimiter.
-/

namespace Hx.Python

/-- `_WHATWG_C0_CONTROL_OR_SPACE`. -/
def isControlOrSpace (c : Char) : Bool := c.toNat ≤ 0x20

/-- `_UNSAFE_URL_BYTES_TO_REMOVE`. -/
def isUnsafe (c : Char) : Bool := c == '\t' || c == '\r' || c == '\n'

def isSchemeChar (c : Char) : Bool :=
  ('a' ≤ c && c ≤ 'z') || ('A' ≤ c && c ≤ 'Z') || ('0' ≤ c && c ≤ '9') || c == '+' || c == '-' ||
  c == '.'

def isLetter (c : Char) : Bool := ('a' ≤ c && c ≤ 'z') || ('A' ≤ c && c ≤ 'Z')

/-- What is left of a reference once its scheme is cut off. -/
def afterScheme (url : List Char) : List Char :=
  match partition ':' url with
  | (scheme, some rest) =>
      if scheme.head?.any isLetter && scheme.all isSchemeChar then rest else url
  | (_, none) => url

/-- `_splitnetloc(url, 2)`, if the reference has a network location. -/
def netloc (url : List Char) : Option (List Char) :=
  match url with
  | '/' :: '/' :: rest => some (rest.takeWhile fun c => c ≠ '/' && c ≠ '?' && c ≠ '#')
  | _ => none

/-- The bracket checks of `urlsplit`. -/
def bracketsFit (bracketed : List Char → Bool) (netloc : List Char) : Bool :=
  if netloc.contains '[' != netloc.contains ']' then false
  else if !netloc.contains '[' then true
  else
    match partition '[' (afterLast '@' netloc) with
    | (before, some inside) =>
        match partition ']' inside with
        | (host, after) =>
            before.isEmpty && (after.getD []).head?.all (· = ':') && bracketed host
    | (hostPort, none) => bracketed (partition ':' hostPort).1

/-- `SplitResult.hostname`. -/
def hostname (netloc : List Char) : Option (List Char) :=
  let info := afterLast '@' netloc
  let host :=
    match partition '[' info with
    | (_, some inside) => (partition ']' inside).1
    | (_, none) => (partition ':' info).1
  if host.isEmpty then none
  else
    match partition '%' host with
    | (name, some zone) => some (lower name ++ '%' :: zone)
    | (name, none) => some (lower name)

/-- `urlsplit(url).hostname`; `error` is its `ValueError`. -/
def urlsplitHostname (bracketed : List Char → Bool) (url : List Char) :
    Except Unit (Option (List Char)) :=
  let url := (url.dropWhile isControlOrSpace).filter fun c => !isUnsafe c
  match netloc (afterScheme url) with
  | none => .ok none
  | some netloc => if bracketsFit bracketed netloc then .ok (hostname netloc) else .error ()

/-- What is behind the network location. -/
def afterNetloc (url : List Char) : List Char :=
  match url with
  | '/' :: '/' :: rest => rest.dropWhile fun c => c ≠ '/' && c ≠ '?' && c ≠ '#'
  | _ => url

/-- What is before the query and the fragment. -/
def beforeQuery (url : List Char) : List Char := url.takeWhile fun c => c ≠ '?' && c ≠ '#'

/-- `urlsplit(url).path`; `error` is its `ValueError`. -/
def urlsplitPath (bracketed : List Char → Bool) (url : List Char) : Except Unit (List Char) :=
  let url := (url.dropWhile isControlOrSpace).filter fun c => !isUnsafe c
  let path := beforeQuery (afterNetloc (afterScheme url))
  match netloc (afterScheme url) with
  | none => .ok path
  | some netloc => if bracketsFit bracketed netloc then .ok path else .error ()

end Hx.Python
