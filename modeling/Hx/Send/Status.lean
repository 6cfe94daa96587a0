import Hx.Issue.HttpText
import Hx.Redact.Cookies

/-!
# The status of an exchange

Behind a reported interim status the scan reads the response head by head, for the status of
the final one. A status that was not read is reported as unreadable.
-/

namespace Hx.Send.Status

open Hx.Redact
open Hx.Issue.HttpText (find crlfCrlf lfLf)

def maxInterimHeads : ℕ := 8

def switchingProtocols : ℕ := 101

def statusUnreadable : ℕ := 599

/-- `Character.isWhitespace` of the character a byte is in ISO-8859-1. -/
def isWhitespace (b : UInt8) : Bool := (9 ≤ b && b ≤ 13) || (28 ≤ b && b ≤ 32)

def strip (line : Bytes) : Bytes := (line.dropWhile isWhitespace).rdropWhile isWhitespace

/-- The value of some digits. -/
def number (digits : Bytes) : ℕ := digits.foldl (fun code b => code * 10 + (b.toNat - 48)) 0

/-- The three digits of a status line; where there are none the source has -1. -/
def statusCodeOf (line : Bytes) : Option ℕ :=
  let s := strip line
  if (usAscii "HTTP/").isPrefixOf s then
    match s.idxOf? 32 with
    | none => none
    | some sp =>
        let code := s.drop (sp + 1)
        if 3 ≤ code.length ∧ (code.take 3).all isDigit ∧ (code.drop 3).head?.all isBlank then
          some (number (code.take 3))
        else none
  else none

/-- Where the head behind the next blank line begins, the blank line being an LF behind an LF or
a CRLF behind a CRLF. -/
def behindBlank (text : Bytes) : Option ℕ :=
  match find crlfCrlf text, find lfLf text with
  | none, none => none
  | some crlf, none => some (crlf + 4)
  | none, some lf => some (lf + 2)
  | some crlf, some lf => if crlf ≤ lf then some (crlf + 4) else some (lf + 2)

/-- The loop over the heads, from `i` on: where the final head begins, and its status. -/
def scanHeads (raw : Bytes) : ℕ → ℕ → Option (ℕ × ℕ)
  | 0, _ => none
  | heads + 1, i =>
      if i < raw.length then
        match (raw.drop i).idxOf? 10 with
        | none => none
        | some eol =>
            match statusCodeOf ((raw.drop i).take eol) with
            | none => none
            | some code =>
                if code < 100 then none
                else if code = switchingProtocols ∨ 200 ≤ code then some (i, code)
                else match behindBlank (raw.drop i) with
                  | none => none
                  | some n => scanHeads raw heads (i + n)
      else none

structure StatusScan where
  code : Int
  unreadable : Bool
  deriving DecidableEq

/-- Whether the scan reads the response at all. -/
def isProvisional (reported : Int) : Prop := 100 ≤ reported ∧ reported ≤ 199 ∧ reported ≠ 101

instance (reported : Int) : Decidable (isProvisional reported) :=
  inferInstanceAs (Decidable (100 ≤ reported ∧ reported ≤ 199 ∧ reported ≠ 101))

def scanStatus (raw : Bytes) (reported : Int) : StatusScan :=
  if isProvisional reported then
    match scanHeads raw maxInterimHeads 0 with
    | none => ⟨statusUnreadable, true⟩
    | some (_, code) => ⟨code, false⟩
  else ⟨reported, false⟩

/-- Where the head begins that a final status is read from. -/
def finalHead (raw : Bytes) (reported : Int) : Option ℕ :=
  if isProvisional reported then (scanHeads raw maxInterimHeads 0).map Prod.fst else none

variable {raw text : Bytes} {heads i n k code : ℕ}

/-- A scan that reads a final status reads it here, or behind the next blank line. -/
theorem scanHeads_cases (found : scanHeads raw (heads + 1) i = some (k, code)) :
    (k = i ∧ i < raw.length ∧ (code = switchingProtocols ∨ 200 ≤ code) ∧
      ∃ eol, (raw.drop i).idxOf? 10 = some eol ∧
        statusCodeOf ((raw.drop i).take eol) = some code) ∨
    ∃ n, behindBlank (raw.drop i) = some n ∧ scanHeads raw heads (i + n) = some (k, code) := by
  rw [scanHeads] at found
  by_cases inside : i < raw.length
  · rw [if_pos inside] at found
    cases line : (raw.drop i).idxOf? 10 with
    | none =>
        rw [line] at found
        contradiction
    | some eol =>
        rw [line] at found
        cases status : statusCodeOf ((raw.drop i).take eol) with
        | none =>
            simp only [status] at found
            contradiction
        | some c =>
            simp only [status] at found
            by_cases low : c < 100
            · rw [if_pos low] at found
              contradiction
            · rw [if_neg low] at found
              by_cases final : c = switchingProtocols ∨ 200 ≤ c
              · rw [if_pos final] at found
                cases found
                exact .inl ⟨rfl, inside, final, eol, rfl, status⟩
              · rw [if_neg final] at found
                cases blank : behindBlank (raw.drop i) with
                | none =>
                    rw [blank] at found
                    contradiction
                | some n =>
                    rw [blank] at found
                    exact .inr ⟨n, rfl, found⟩
  · rw [if_neg inside] at found
    contradiction

/-- A status read out of the bytes is that of the line the final head begins with. -/
theorem scanHeads_status (found : scanHeads raw heads i = some (k, code)) :
    k < raw.length ∧ ∃ eol, (raw.drop k).idxOf? 10 = some eol ∧
      statusCodeOf ((raw.drop k).take eol) = some code := by
  induction heads generalizing i with
  | zero => contradiction
  | succ heads ih =>
      obtain ⟨rfl, inside, -, status⟩ | ⟨n, -, later⟩ := scanHeads_cases found
      · exact ⟨inside, status⟩
      · exact ih later

/-- It is a final one. -/
theorem scanHeads_final (found : scanHeads raw heads i = some (k, code)) :
    code = switchingProtocols ∨ 200 ≤ code := by
  induction heads generalizing i with
  | zero => contradiction
  | succ heads ih =>
      obtain ⟨-, -, final, -⟩ | ⟨n, -, later⟩ := scanHeads_cases found
      · exact final
      · exact ih later

/-! ## Where the heads begin -/

theorem find_some {needle : Bytes} (found : find needle text = some n) :
    ∃ behind, text = text.take n ++ (needle ++ behind) ∧ n ≤ text.length := by
  induction text generalizing n with
  | nil =>
      rw [find] at found
      split at found
      · rename_i empty
        cases found
        exact ⟨[], by rw [empty]; rfl, Nat.le_refl _⟩
      · contradiction
  | cons b text ih =>
      rw [find] at found
      by_cases starts : needle.isPrefixOf (b :: text) = true
      · rw [if_pos starts] at found
        cases found
        obtain ⟨behind, whole⟩ := List.isPrefixOf_iff_prefix.1 starts
        exact ⟨behind, whole.symm, Nat.zero_le _⟩
      · rw [if_neg starts] at found
        obtain ⟨m, later, rfl⟩ := Option.map_eq_some_iff.1 found
        obtain ⟨behind, whole, short⟩ := ih later
        refine ⟨behind, ?_, Nat.succ_le_succ short⟩
        rw [List.take_succ_cons, List.cons_append, ← whole]

/-- An empty line ends what stands before a head. -/
structure Ended (text : Bytes) : Prop where
  last : text.getLast? = some 10
  empty : ∃ lines e, linesOf text = lines ++ [e] ∧ contentOf e = []

theorem ended_of_blank {pre e : Bytes} (blank : e = [10] ∨ e = [13, 10])
    (line : pre.getLast? = some 10) : Ended (pre ++ e) := by
  constructor
  · obtain rfl | rfl := blank
    · exact List.getLast?_append_of_ne_nil _ (by decide)
    · exact List.getLast?_append_of_ne_nil _ (by decide)
  · refine ⟨linesOf pre, e, ?_, contentOf_empty blank⟩
    have one : linesOf (e ++ []) = e :: linesOf [] := linesOf_empty_cons blank
    rw [List.append_nil] at one
    rw [linesOf_append (.inr line), one]
    rfl

/-- What was found is what the text begins with behind its place. -/
theorem take_find {needle : Bytes} (found : find needle text = some n) :
    n + needle.length ≤ text.length ∧ text.take (n + needle.length) = text.take n ++ needle := by
  obtain ⟨behind, whole, short⟩ := find_some found
  have before : (text.take n).length = n := List.length_take_of_le short
  have long := congrArg List.length whole
  rw [List.length_append, List.length_append, before] at long
  refine ⟨by omega, ?_⟩
  rw [← List.append_assoc] at whole
  have count : (text.take n ++ needle).length = n + needle.length := by
    rw [List.length_append, before]
  calc text.take (n + needle.length)
      = (text.take n ++ needle ++ behind).take (n + needle.length) :=
        congrArg (List.take _) whole
    _ = text.take n ++ needle := by rw [← count, List.take_left]

theorem behindBlank_some (found : behindBlank text = some n) :
    n ≤ text.length ∧ ∃ pre e, text.take n = pre ++ e ∧ pre.getLast? = some 10 ∧
      (e = [10] ∨ e = [13, 10]) := by
  have crlf : ∀ m, find crlfCrlf text = some m → m + 4 ≤ text.length ∧
      ∃ pre e, text.take (m + 4) = pre ++ e ∧ pre.getLast? = some 10 ∧
        (e = [10] ∨ e = [13, 10]) := by
    intro m here
    obtain ⟨inside, taken⟩ := take_find here
    have parts : text.take m ++ crlfCrlf = (text.take m ++ [13, 10]) ++ [13, 10] := by
      rw [List.append_assoc]
      rfl
    exact ⟨inside, text.take m ++ [13, 10], [13, 10], taken.trans parts,
      List.getLast?_append_of_ne_nil _ (by decide), .inr rfl⟩
  have lf : ∀ m, find lfLf text = some m → m + 2 ≤ text.length ∧
      ∃ pre e, text.take (m + 2) = pre ++ e ∧ pre.getLast? = some 10 ∧
        (e = [10] ∨ e = [13, 10]) := by
    intro m here
    obtain ⟨inside, taken⟩ := take_find here
    have parts : text.take m ++ lfLf = (text.take m ++ [10]) ++ [10] := by
      rw [List.append_assoc]
      rfl
    exact ⟨inside, text.take m ++ [10], [10], taken.trans parts,
      List.getLast?_append_of_ne_nil _ (by decide), .inl rfl⟩
  rw [behindBlank] at found
  cases first : find crlfCrlf text with
  | none =>
      cases second : find lfLf text with
      | none =>
          rw [first, second] at found
          contradiction
      | some m =>
          rw [first, second] at found
          cases found
          exact lf m second
  | some c =>
      cases second : find lfLf text with
      | none =>
          rw [first, second] at found
          cases found
          exact crlf c first
      | some m =>
          rw [first, second] at found
          by_cases sooner : c ≤ m
          · simp only [if_pos sooner] at found
            cases found
            exact crlf c first
          · simp only [if_neg sooner] at found
            cases found
            exact lf m second

/-- The final head stands at the front of the response, or behind an empty line. -/
theorem scanHeads_place (found : scanHeads raw heads i = some (k, code))
    (place : i = 0 ∨ Ended (raw.take i)) : k = 0 ∨ Ended (raw.take k) := by
  induction heads generalizing i with
  | zero => contradiction
  | succ heads ih =>
      obtain ⟨rfl, -⟩ | ⟨n, blank, later⟩ := scanHeads_cases found
      · exact place
      · obtain ⟨_, pre, e, taken, last, ends⟩ := behindBlank_some blank
        refine ih later (.inr ?_)
        rw [List.take_add, taken, ← List.append_assoc]
        refine ended_of_blank ends ?_
        rw [List.getLast?_append_of_ne_nil _ ?_, last]
        rintro rfl
        contradiction

/-- The final head is behind an empty line, if anything is before it, and begins with a line. -/
theorem finalHead_place {reported : Int} (found : finalHead raw reported = some k) :
    (k = 0 ∨ Ended (raw.take k)) ∧ k < raw.length ∧ ∃ eol code,
      (raw.drop k).idxOf? 10 = some eol ∧ statusCodeOf ((raw.drop k).take eol) = some code := by
  rw [finalHead] at found
  split at found
  · obtain ⟨⟨_, code⟩, scanned, rfl⟩ := Option.map_eq_some_iff.1 found
    obtain ⟨inside, eol, line, status⟩ := scanHeads_status scanned
    exact ⟨scanHeads_place scanned (.inl rfl), inside, eol, code, line, status⟩
  · contradiction

end Hx.Send.Status
