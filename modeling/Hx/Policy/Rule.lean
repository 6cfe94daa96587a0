import Hx.Policy.Readings

/-!
# Targets and rules

A request URL and a scope pattern are parsed into scheme, host, port and path with no
ambiguity left in any of them; what cannot be is refused with the text an operator reads.
A rule reads the path half of its pattern the ways its kind allows: a deny rule every way
a path is read, an allow rule only the ways that spell the same resource.
-/

namespace Hx.Policy

open Hx.Java

variable (U : CaseMap)

/-! ## Pieces of an authority -/

/-- `String.indexOf(String)`, for a needle that is not empty. -/
def indexOf (needle : JString) : JString → Option Nat
  | [] => none
  | c :: rest =>
      if needle.isPrefixOf (c :: rest) then some 0 else (indexOf needle rest).map (· + 1)

def isDigit (c : JChar) : Bool := 0x30 ≤ c.val && c.val ≤ 0x39

/-- `Integer.parseInt` of at most five decimal digits. -/
def decimal (s : JString) : Nat := s.foldl (fun n c => n * 10 + (c.val - 0x30)) 0

def isSchemeOf (scheme : JString) : Bool := scheme == js "http" || scheme == js "https"

def defaultPort (scheme : JString) : Nat := if scheme = js "https" then 443 else 80

/-- A character of a hostname; the others create a second reading of where a request
is going. -/
def isHostChar (c : JChar) : Bool :=
  (0x61 ≤ c.val && c.val ≤ 0x7a) || isDigit c || c == ch '-' || c == dot || c == ch '_'

/-- `checkHostChars`: the text it throws, if it throws. -/
def checkHostChars (host url : JString) : Option JString :=
  if host.isEmpty then some (js "url has an empty host: " ++ url)
  else if host.head? = some dot ∨ host.getLast? = some dot ∨ (indexOf [dot, dot] host).isSome then
    some (js "url host has an empty label: " ++ url)
  else if host.all isHostChar then none
  else some (js "url host has a character that cannot appear in a hostname: " ++ url)

/-! ## Targets -/

structure Target where
  scheme : JString
  host : JString
  port : Nat
  path : JString
  deriving DecidableEq

namespace Target

/-- The port of an authority, its own or the scheme's. -/
def parsePort (url portText : JString) : Except JString Nat :=
  if portText.isEmpty then .error (js "url authority has an empty port: " ++ url)
  else if !portText.all isDigit then .error (js "url port is not a number: " ++ url)
  else if 5 < portText.length then .error (js "url port is out of range: " ++ url)
  else if decimal portText < 1 ∨ 65535 < decimal portText then
    .error (js "url port is out of range: " ++ url)
  else .ok (decimal portText)

def parse (url : JString) : Except JString Target :=
  match indexOf (js "://") url with
  | none => .error (js "url has no scheme: " ++ url)
  | some 0 => .error (js "url has no scheme: " ++ url)
  | some sep =>
      let scheme := lower U (url.take sep)
      if !isSchemeOf scheme then .error (js "url scheme is not http(s): " ++ url)
      else
        let rest := url.drop (sep + 3)
        match rest.idxOf? slash with
        | none => .error (js "url has no path: " ++ url)
        | some cut =>
            let authority := rest.take cut
            let path := (rest.drop cut).takeWhile fun c => c != ch '?'
            if (ch '@') ∈ authority then
              .error (js "url authority carries userinfo: " ++ url)
            else
              let host := lower U (authority.takeWhile fun c => c != ch ':')
              let port : Except JString Nat := match authority.idxOf? (ch ':') with
                | none => .ok (defaultPort scheme)
                | some colon => parsePort url (authority.drop (colon + 1))
              match port with
              | .error e => .error e
              | .ok port =>
                  match checkHostChars host url with
                  | some e => .error e
                  | none => .ok ⟨scheme, host, port, path⟩

end Target

/-! ## Rules -/

/-- One scope pattern, with the readings its kind of rule gives the path half. -/
structure Rule where
  source : JString
  scheme : JString
  hostPattern : JString
  hostSuffix : Bool
  port : Nat
  pathGlob : JString
  globReadings : List JString

namespace Rule

def parsePort (pattern portText : JString) : Except JString Nat :=
  if portText.isEmpty ∨ 5 < portText.length then .error (pattern ++ js " has a bad port")
  else if !portText.all isDigit then .error (pattern ++ js " has a bad port")
  else if decimal portText < 1 ∨ 65535 < decimal portText then
    .error (pattern ++ js " has a bad port")
  else .ok (decimal portText)

def parse (pattern : JString) (allowRule : Bool) : Except JString Rule :=
  match indexOf (js "://") pattern with
  | none => .error (pattern ++ js " has no scheme")
  | some 0 => .error (pattern ++ js " has no scheme")
  | some sep =>
      let scheme := lower U (pattern.take sep)
      if !isSchemeOf scheme then .error (pattern ++ js " has a scheme that is not http(s)")
      else
        let rest := pattern.drop (sep + 3)
        match rest.idxOf? slash with
        | none => .error (pattern ++ js " has no path; write /* if you mean everything")
        | some cut =>
            let authority := rest.take cut
            let pathGlob := rest.drop cut
            if (ch '@') ∈ authority then .error (pattern ++ js " carries userinfo")
            else
              let host := lower U (authority.takeWhile fun c => c != ch ':')
              let port : Except JString Nat := match authority.idxOf? (ch ':') with
                | none => .ok (defaultPort scheme)
                | some colon => parsePort pattern (authority.drop (colon + 1))
              match port with
              | .error e => .error e
              | .ok port =>
                  -- The host half has one wildcard shape, a leading label.
                  let suffix := (js "*.").isPrefixOf host
                  let hostPattern := if suffix then host.drop 1 else host
                  match checkHostChars (if suffix then hostPattern.drop 1 else host) pattern with
                  | some e => .error e
                  | none => .ok
                      { source := pattern
                        scheme
                        hostPattern
                        hostSuffix := suffix
                        port
                        pathGlob
                        globReadings := if allowRule then spellingReadings U pathGlob
                          else patternReadings U pathGlob }

def forExclude (pattern : JString) : Except JString Rule := parse U pattern false

def forInclude (pattern : JString) : Except JString Rule := parse U pattern true

/-- Everything but the path. -/
def authorityMatches (r : Rule) (t : Target) : Bool :=
  r.scheme == t.scheme && r.port == t.port &&
    (if r.hostSuffix then r.hostPattern.isSuffixOf t.host else r.hostPattern == t.host)

/-- Any reading of the path against any reading of the pattern, case folded. -/
def denies (r : Rule) (t : Target) (pathReadings : List JString) : Bool :=
  r.authorityMatches t && r.globReadings.any fun pattern =>
    pathReadings.any fun reading => glob (lower U pattern) (lower U reading)

/-- Every reading of the path matched by some reading of the pattern. -/
def allows (r : Rule) (t : Target) (pathReadings : List JString) : Bool :=
  r.authorityMatches t && pathReadings.all fun reading =>
    r.globReadings.any fun pattern => glob pattern reading

end Rule

end Hx.Policy
