import Hx.Send.Status

/-!
# Behind the interim heads

A response here is its interim heads, its final head and what follows, where each line ends by
a CRLF or by a bare LF. The scan takes a head to end at a CRLF behind a CRLF or at an LF behind
an LF: an empty line that ends by a CRLF behind a line that ends by a bare LF is no end to it,
and it goes on to the next one it sees.
-/

namespace Hx.Send.Status

open Hx.Redact
open Hx.Issue.HttpText (find crlfCrlf lfLf closes find_lfLf_line find_crlfCrlf_line)

/-- How a line ends. -/
def ending (crlf : Bool) : Bytes := if crlf then [13, 10] else [10]

structure Line where
  content : Bytes
  crlf : Bool

def Line.bytes (l : Line) : Bytes := l.content ++ ending l.crlf

/-- A line with content, and with no end inside. -/
structure Line.Plain (l : Line) : Prop where
  some_ : l.content ≠ []
  noLf : 10 ∉ l.content
  noCr : 13 ∉ l.content

structure Head where
  status : Line
  fields : List Line
  emptyCrlf : Bool

namespace Head

def lines (h : Head) : List Line := h.status :: h.fields

def bytes (h : Head) : Bytes := h.lines.flatMap Line.bytes ++ ending h.emptyCrlf

/-- The empty line at the end is one that the scan sees. -/
def visible (h : Head) : Bool := (h.lines.getLast?.any Line.crlf) || !h.emptyCrlf

end Head

/-- `HTTP-version SP 3DIGIT`, and a space before the reason or nothing. -/
def IsStatusLine (content : Bytes) (code : ℕ) : Prop :=
  ∃ version digits reason, content = usAscii "HTTP/" ++ version ++ 32 :: (digits ++ reason) ∧
    32 ∉ version ∧ digits.length = 3 ∧ digits.all isDigit = true ∧ number digits = code ∧
    reason.head?.all (fun b => b == 32) = true

/-- A head of a status and fields. -/
structure Head.WellFormed (h : Head) (code : ℕ) : Prop where
  plain : ∀ l ∈ h.lines, l.Plain
  status : IsStatusLine h.status.content code

/-- A head that another one follows. -/
def isInterimCode (code : ℕ) : Prop := 100 ≤ code ∧ code < 200 ∧ code ≠ switchingProtocols

/-- The interim heads, the final one with its status, and what follows. -/
structure Response where
  interim : List Head
  last : Head
  code : ℕ
  body : Bytes
  provisional : ∀ h ∈ interim, ∃ code, h.WellFormed code ∧ isInterimCode code
  final : last.WellFormed code ∧ (code = switchingProtocols ∨ 200 ≤ code)

namespace Response

def before (r : Response) : Bytes := r.interim.flatMap Head.bytes

def raw (r : Response) : Bytes := r.before ++ (r.last.bytes ++ r.body)

/-- How many of the interim heads end where the scan sees it. -/
def seen (r : Response) : ℕ := r.interim.countP Head.visible

/-- The scan answers with the status of the final head, read at its place, where the interim
heads are few enough, and else that it read none. -/
def Scanned (r : Response) (reported : Int) : Prop :=
  if r.interim.length < maxInterimHeads then
    scanStatus r.raw reported = ⟨r.code, false⟩ ∧ finalHead r.raw reported = some r.before.length
  else scanStatus r.raw reported = ⟨statusUnreadable, true⟩

end Response

/-- The scan from the empty line on that it sees next, with some turns left. -/
def scanBehind (text : Bytes) (turns : ℕ) : Option (ℕ × ℕ) :=
  match behindBlank text with
  | none => none
  | some n => scanHeads text turns n

/-- The last interim head ends where the scan sees it. Where the interim heads are too many
already, it is enough that those it sees are, or that it sees no head behind the final one. -/
def Response.Apparent (r : Response) : Prop :=
  if r.interim.length < maxInterimHeads then r.interim.getLast?.all Head.visible = true
  else maxInterimHeads ≤ r.seen ∨ r.interim.getLast?.all Head.visible = false ∧
    scanBehind (r.last.bytes ++ r.body) (maxInterimHeads - r.seen - 1) = none

/-! ## Where a head ends -/

section Ends

variable {l rest : Bytes} {b : Bool} {lines : List Line}

/-- What one line does to the search for an empty one. -/
theorem behindBlank_line (plain : 10 ∉ l) (rest : Bytes) :
    behindBlank (l ++ 10 :: rest) =
      if closes l rest then some (l.length + 3)
      else if rest.head? = some 10 then some (l.length + 2)
      else (behindBlank rest).map fun n => n + (l.length + 1) := by
  rw [behindBlank, find_lfLf_line plain, find_crlfCrlf_line plain]
  by_cases close : closes l rest = true
  · simp only [if_pos close]
    have next : rest.head? = some 13 := by
      rw [closes, Bool.and_eq_true] at close
      obtain ⟨more, rfl⟩ := List.isPrefixOf_iff_prefix.1 close.2
      rfl
    have long : 0 < l.length := by
      rw [closes, Bool.and_eq_true] at close
      cases l with
      | nil => exact absurd close.1 (by decide)
      | cons b l => exact Nat.succ_pos _
    rw [if_neg (by rw [next]; decide)]
    cases find lfLf rest with
    | none => exact congrArg some (by omega)
    | some m =>
        show (if l.length - 1 ≤ m + (l.length + 1) then _ else _) = _
        rw [if_pos (by omega)]
        exact congrArg some (by omega)
  · simp only [if_neg close]
    by_cases next : rest.head? = some 10
    · simp only [if_pos next]
      cases find crlfCrlf rest with
      | none => rfl
      | some m =>
          show (if m + (l.length + 1) ≤ l.length then _ else _) = _
          rw [if_neg (by omega)]
    · simp only [if_neg next]
      rw [behindBlank]
      cases find crlfCrlf rest with
      | none =>
          cases find lfLf rest with
          | none => rfl
          | some m => exact congrArg some (Nat.add_right_comm _ _ _)
      | some c =>
          cases find lfLf rest with
          | none => exact congrArg some (Nat.add_right_comm _ _ _)
          | some m =>
              show (if c + (l.length + 1) ≤ m + (l.length + 1) then _ else _) =
                (if c ≤ m then _ else _ : Option ℕ).map _
              by_cases first : c ≤ m
              · rw [if_pos first, if_pos (by omega)]
                exact congrArg some (Nat.add_right_comm _ _ _)
              · rw [if_neg first, if_neg (by omega)]
                exact congrArg some (Nat.add_right_comm _ _ _)

theorem bytes_split (l : Line) (rest : Bytes) :
    l.bytes ++ rest = (l.content ++ if l.crlf then [13] else []) ++ 10 :: rest := by
  cases crlf : l.crlf <;> simp [Line.bytes, ending, crlf]

theorem Line.Plain.noLf_split {l : Line} (plain : l.Plain) :
    10 ∉ l.content ++ if l.crlf then [13] else [] := by
  cases l.crlf <;> simp [plain.noLf]

theorem Line.Plain.getLast? {l : Line} (plain : l.Plain) :
    (l.content ++ if l.crlf then [13] else []).getLast? = some 13 ↔ l.crlf = true := by
  cases l.crlf with
  | true => simp
  | false =>
      simp only [Bool.false_eq_true, if_false, List.append_nil, iff_false]
      exact fun last => plain.noCr (List.mem_of_getLast? last)

theorem length_bytes (l : Line) :
    l.bytes.length = (l.content ++ if l.crlf then [13] else []).length + 1 := by
  have split := congrArg List.length (bytes_split l [])
  rwa [List.append_nil, List.length_append] at split

/-- A text that begins with what neither ends a line nor is a carriage return. -/
def Fresh (text : Bytes) : Prop := text.head? ≠ some 10 ∧ text.head? ≠ some 13

theorem Line.Plain.fresh {l : Line} (plain : l.Plain) (rest : Bytes) :
    Fresh (l.bytes ++ rest) := by
  obtain ⟨b, more, whole⟩ := List.exists_cons_of_ne_nil plain.some_
  have head : (l.bytes ++ rest).head? = some b := by
    rw [Line.bytes, whole]
    rfl
  rw [Fresh, head]
  refine ⟨fun same => plain.noLf ?_, fun same => plain.noCr ?_⟩
  · rw [whole, Option.some.inj same]
    exact List.mem_cons_self
  · rw [whole, Option.some.inj same]
    exact List.mem_cons_self

theorem not_closes (fresh : Fresh rest) : closes l rest = false := by
  cases starts : [13, 10].isPrefixOf rest with
  | false => rw [closes, starts, Bool.and_false]
  | true =>
      obtain ⟨more, rfl⟩ := List.isPrefixOf_iff_prefix.1 starts
      exact absurd rfl fresh.2

/-- A line that is followed by another one. -/
theorem behindBlank_next {l : Line} (plain : l.Plain) (fresh : Fresh rest) :
    behindBlank (l.bytes ++ rest) = (behindBlank rest).map fun n => n + l.bytes.length := by
  rw [bytes_split, behindBlank_line plain.noLf_split, not_closes fresh, if_neg fresh.1,
    length_bytes]
  rfl

/-- A line that is followed by the empty one. -/
theorem behindBlank_empty {l : Line} (plain : l.Plain) (fresh : Fresh rest) (b : Bool) :
    behindBlank (l.bytes ++ (ending b ++ rest)) =
      if l.crlf || !b then some (l.bytes.length + (ending b).length)
      else (behindBlank rest).map fun n => n + (l.bytes.length + (ending b).length) := by
  rw [bytes_split, behindBlank_line plain.noLf_split, length_bytes]
  cases b with
  | false =>
      have open_ : closes (l.content ++ if l.crlf then [13] else []) (ending false ++ rest) =
          false := by
        rw [closes]
        exact Bool.and_false _
      rw [open_]
      simp [ending]
  | true =>
      have close : closes (l.content ++ if l.crlf then [13] else []) (ending true ++ rest) =
          l.crlf := by
        have starts : [13, 10].isPrefixOf (ending true ++ rest) = true := by
          rw [ending, List.isPrefixOf_iff_prefix]
          exact List.prefix_append _ _
        rw [closes, starts, Bool.and_true]
        refine Bool.eq_iff_iff.2 ⟨fun last => plain.getLast?.1 (beq_iff_eq.1 last), fun crlf => ?_⟩
        exact beq_iff_eq.2 (plain.getLast?.2 crlf)
      have empty : behindBlank (ending true ++ rest) = (behindBlank rest).map fun n => n + 2 := by
        have line := behindBlank_line (l := [13]) (by decide) rest
        rw [not_closes fresh, if_neg fresh.1] at line
        exact line
      rw [close, empty]
      cases l.crlf with
      | true => simp [ending]
      | false =>
          have head : (ending true ++ rest).head? ≠ some 10 := by
            rw [ending]
            exact fun same => absurd (Option.some.inj same) (by decide)
          rw [if_neg head, Option.map_map]
          refine congrArg (Option.map · (behindBlank rest)) (funext fun n => ?_)
          show n + 2 + (_ + 1) = n + (_ + 1 + 2)
          omega

/-- The lines of a head up to its empty line. -/
theorem behindBlank_lines {more : List Line} {first : Line}
    (plain : ∀ l ∈ first :: more, l.Plain) (fresh : Fresh rest) (b : Bool) :
    behindBlank ((first :: more).flatMap Line.bytes ++ (ending b ++ rest)) =
      if (first :: more).getLast?.any Line.crlf || !b then
        some (((first :: more).flatMap Line.bytes).length + (ending b).length)
      else (behindBlank rest).map fun n =>
        n + (((first :: more).flatMap Line.bytes).length + (ending b).length) := by
  induction more generalizing first with
  | nil =>
      rw [List.flatMap_singleton]
      exact behindBlank_empty (plain first List.mem_cons_self) fresh b
  | cons second more ih =>
      obtain ⟨own, others⟩ := List.forall_mem_cons.1 plain
      have next : Fresh ((second :: more).flatMap Line.bytes ++ (ending b ++ rest)) := by
        rw [List.flatMap_cons, List.append_assoc]
        exact (others second List.mem_cons_self).fresh _
      have last : (first :: second :: more).getLast? = (second :: more).getLast? :=
        List.getLast?_cons_cons
      rw [List.flatMap_cons, List.append_assoc, behindBlank_next own next, ih others, last,
        List.length_append]
      cases (second :: more).getLast?.any Line.crlf || !b with
      | true =>
          refine congrArg some ?_
          show _ + _ + first.bytes.length = _
          omega
      | false =>
          simp only [Bool.false_eq_true, if_false, Option.map_map]
          refine congrArg (Option.map · (behindBlank rest)) (funext fun n => ?_)
          show n + _ + _ = _
          omega

/-- Behind a head: at its end where the scan sees it, and else behind the next empty line that
the scan sees. -/
theorem behindBlank_head {h : Head} (plain : ∀ l ∈ h.lines, l.Plain) (fresh : Fresh rest) :
    behindBlank (h.bytes ++ rest) = if h.visible then some h.bytes.length
      else (behindBlank rest).map fun n => n + h.bytes.length := by
  rw [Head.bytes, List.append_assoc, List.length_append]
  exact behindBlank_lines plain fresh h.emptyCrlf

end Ends

/-! ## The status of a head -/

section Status

variable {content text : Bytes} {code : ℕ}

theorem rdropWhile_append_of_last {p : UInt8 → Bool} {front : Bytes} {last : UInt8}
    (keeps : p last = false) (behind : Bytes) :
    (front ++ last :: behind).rdropWhile p = front ++ last :: behind.rdropWhile p := by
  induction behind using List.reverseRecOn with
  | nil => exact List.rdropWhile_concat_neg p _ _ (by rw [keeps]; exact Bool.false_ne_true)
  | append_singleton more b ih =>
      have whole : front ++ last :: (more ++ [b]) = (front ++ last :: more) ++ [b] := by simp
      rw [whole]
      by_cases drops : p b = true
      · rw [List.rdropWhile_concat_pos p _ _ drops, List.rdropWhile_concat_pos p _ _ drops, ih]
      · rw [List.rdropWhile_concat_neg p _ _ drops, List.rdropWhile_concat_neg p _ _ drops,
          whole]

/-- What is left behind the digits is nothing, or begins with a space. -/
theorem reason_blank {reason cr : Bytes} (space : reason.head?.all (fun b => b == 32) = true)
    (blank : cr = [] ∨ cr = [13]) :
    ((reason ++ cr).rdropWhile isWhitespace).head?.all isBlank = true := by
  cases reason with
  | nil => obtain rfl | rfl := blank <;> decide
  | cons b reason =>
      obtain rfl : b = 32 := beq_iff_eq.1 space
      cases left : ((32 :: reason) ++ cr).rdropWhile isWhitespace with
      | nil => rfl
      | cons d more =>
          obtain ⟨_, whole⟩ := List.rdropWhile_prefix isWhitespace ((32 :: reason) ++ cr)
          rw [left] at whole
          obtain rfl : d = 32 := (List.cons.inj whole).1
          rfl

theorem statusCodeOf_line (line : IsStatusLine content code) {cr : Bytes}
    (blank : cr = [] ∨ cr = [13]) : statusCodeOf (content ++ cr) = some code := by
  obtain ⟨version, digits, reason, rfl, noSpace, three, all, value, behind⟩ := line
  obtain ⟨d₀, d₁, d₂, rfl⟩ := List.length_eq_three.1 three
  have digit : isWhitespace d₂ = false := by
    have last : isDigit d₂ = true := List.all_eq_true.1 all d₂ (by simp)
    have none_ : ∀ d : UInt8, isDigit d = true → isWhitespace d = false := by
      intro d
      simp only [isDigit, isWhitespace, Bool.and_eq_true, decide_eq_true_eq, Bool.or_eq_false_iff,
        Bool.and_eq_false_iff, decide_eq_false_iff_not, UInt8.le_iff_toNat_le]
      simp only [UInt8.toNat_ofNat]
      omega
    exact none_ d₂ last
  have stripped : strip (usAscii "HTTP/" ++ version ++ 32 :: ([d₀, d₁, d₂] ++ reason) ++ cr) =
      (usAscii "HTTP/" ++ version) ++
        32 :: d₀ :: d₁ :: d₂ :: (reason ++ cr).rdropWhile isWhitespace := by
    have front : (usAscii "HTTP/" ++ version ++ 32 :: ([d₀, d₁, d₂] ++ reason) ++ cr).dropWhile
        isWhitespace = (usAscii "HTTP/" ++ version ++ [32, d₀, d₁]) ++ d₂ :: (reason ++ cr) := by
      simp [usAscii, isWhitespace]
    rw [strip, front, rdropWhile_append_of_last digit]
    simp
  have plain : 32 ∉ usAscii "HTTP/" ++ version := by
    rw [List.mem_append, not_or]
    exact ⟨by decide, noSpace⟩
  have code_ : ((usAscii "HTTP/" ++ version) ++
      32 :: d₀ :: d₁ :: d₂ :: (reason ++ cr).rdropWhile isWhitespace).drop
        ((usAscii "HTTP/" ++ version).length + 1) =
      d₀ :: d₁ :: d₂ :: (reason ++ cr).rdropWhile isWhitespace := by
    rw [List.drop_append]
    simp
  have starts : (usAscii "HTTP/").isPrefixOf ((usAscii "HTTP/" ++ version) ++
      32 :: d₀ :: d₁ :: d₂ :: (reason ++ cr).rdropWhile isWhitespace) = true := by
    rw [List.isPrefixOf_iff_prefix, List.append_assoc]
    exact List.prefix_append _ _
  rw [statusCodeOf]
  simp only [stripped, starts, idxOf?_first plain, code_, if_true]
  have whole : 3 ≤ (d₀ :: d₁ :: d₂ :: (reason ++ cr).rdropWhile isWhitespace).length ∧
      ((d₀ :: d₁ :: d₂ :: (reason ++ cr).rdropWhile isWhitespace).take 3).all isDigit = true ∧
      ((d₀ :: d₁ :: d₂ :: (reason ++ cr).rdropWhile isWhitespace).drop 3).head?.all isBlank =
        true := ⟨by simp, all, reason_blank behind blank⟩
  rw [if_pos whole]
  exact congrArg some value

/-- The line that a head begins with is its status line. -/
theorem status_head {h : Head} (wellFormed : h.WellFormed code) (rest : Bytes) :
    ∃ eol, (h.bytes ++ rest).idxOf? 10 = some eol ∧
      statusCodeOf ((h.bytes ++ rest).take eol) = some code := by
  have plain := wellFormed.plain h.status List.mem_cons_self
  have whole : h.bytes ++ rest = (h.status.content ++ if h.status.crlf then [13] else []) ++
      10 :: (h.fields.flatMap Line.bytes ++ ending h.emptyCrlf ++ rest) := by
    rw [← bytes_split, Head.bytes, Head.lines, List.flatMap_cons]
    simp only [List.append_assoc]
  refine ⟨_, whole ▸ idxOf?_first plain.noLf_split, ?_⟩
  rw [whole, List.take_left]
  refine statusCodeOf_line wellFormed.status ?_
  cases h.status.crlf
  · exact .inl rfl
  · exact .inr rfl

end Status

/-! ## The scan over the heads -/

section Scan

variable {text rest tail : Bytes} {turns i k code : ℕ} {h : Head} {heads : List Head}

/-- The place behind a text that was left out. -/
def shifted (n : ℕ) (found : Option (ℕ × ℕ)) : Option (ℕ × ℕ) :=
  found.map fun p => (n + p.1, p.2)

theorem shifted_shifted (n m : ℕ) (found : Option (ℕ × ℕ)) :
    shifted n (shifted m found) = shifted (n + m) found := by
  cases found with
  | none => rfl
  | some p => exact congrArg some (congrArg (·, p.2) (Nat.add_assoc n m p.1).symm)

theorem scanHeads_shift (front text : Bytes) (turns i : ℕ) :
    scanHeads (front ++ text) turns (front.length + i) =
      shifted front.length (scanHeads text turns i) := by
  induction turns generalizing i with
  | zero => rfl
  | succ turns ih =>
      have behind : (front ++ text).drop (front.length + i) = text.drop i :=
        List.drop_length_add_append i
      rw [scanHeads, scanHeads, behind, List.length_append]
      by_cases inside : i < text.length
      · rw [if_pos inside, if_pos (Nat.add_lt_add_left inside _)]
        cases (text.drop i).idxOf? 10 with
        | none => rfl
        | some eol =>
            cases status : statusCodeOf ((text.drop i).take eol) with
            | none => simp only [status]; rfl
            | some code =>
                simp only [status]
                split_ifs with low final
                · rfl
                · rfl
                · cases behindBlank (text.drop i) with
                  | none => rfl
                  | some n =>
                      show scanHeads _ turns (front.length + i + n) = _
                      rw [Nat.add_assoc, ih]
      · rw [if_neg inside, if_neg fun long => inside (Nat.lt_of_add_lt_add_left long)]
        rfl

/-- A status is not read before the place the scan begins at. -/
theorem scanHeads_le (found : scanHeads text turns i = some (k, code)) : i ≤ k := by
  induction turns generalizing i with
  | zero => cases found
  | succ turns ih =>
      obtain ⟨rfl, -⟩ | ⟨n, -, later⟩ := scanHeads_cases found
      · exact Nat.le_refl _
      · exact Nat.le_trans (Nat.le_add_right i n) (ih later)

theorem scanHeads_begin (wellFormed : h.WellFormed code) (rest : Bytes) (turns : ℕ) :
    scanHeads (h.bytes ++ rest) (turns + 1) 0 =
      if code < 100 then none
      else if code = switchingProtocols ∨ 200 ≤ code then some (0, code)
      else scanBehind (h.bytes ++ rest) turns := by
  obtain ⟨eol, line, status⟩ := status_head wellFormed rest
  have some_ : 0 < (h.bytes ++ rest).length := by
    have mem : 10 ∈ h.bytes ++ rest := List.isSome_idxOf?.1 (line ▸ rfl)
    exact List.length_pos_of_mem mem
  rw [scanHeads, if_pos some_, List.drop_zero, line]
  simp only [status]
  split_ifs with low final
  · rfl
  · rfl
  · rw [scanBehind]
    cases behindBlank (h.bytes ++ rest) with
    | none => rfl
    | some n =>
        show scanHeads _ turns (0 + n) = scanHeads _ turns n
        rw [Nat.zero_add]

theorem scanHeads_last (wellFormed : h.WellFormed code)
    (final : code = switchingProtocols ∨ 200 ≤ code) (rest : Bytes) (turns : ℕ) :
    scanHeads (h.bytes ++ rest) (turns + 1) 0 = some (0, code) := by
  have high : ¬ code < 100 := by
    obtain rfl | high := final
    · decide
    · omega
  rw [scanHeads_begin wellFormed, if_neg high, if_pos final]

theorem scanHeads_interim (wellFormed : h.WellFormed code) (interim : isInterimCode code)
    (rest : Bytes) (turns : ℕ) :
    scanHeads (h.bytes ++ rest) (turns + 1) 0 = scanBehind (h.bytes ++ rest) turns := by
  obtain ⟨high, low, other⟩ := interim
  have open_ : ¬ (code = switchingProtocols ∨ 200 ≤ code) := by
    rw [not_or]
    exact ⟨other, Nat.not_le.2 low⟩
  rw [scanHeads_begin wellFormed, if_neg (Nat.not_lt.2 high), if_neg open_]

theorem scanBehind_head (wellFormed : h.WellFormed code) (fresh : Fresh rest) (turns : ℕ) :
    scanBehind (h.bytes ++ rest) turns = shifted h.bytes.length
      (if h.visible then scanHeads rest turns 0 else scanBehind rest turns) := by
  rw [scanBehind, behindBlank_head wellFormed.plain fresh]
  cases h.visible with
  | true => exact scanHeads_shift h.bytes rest turns 0
  | false =>
      simp only [Bool.false_eq_true, if_false]
      rw [scanBehind]
      cases behindBlank rest with
      | none => rfl
      | some n =>
          show scanHeads _ turns (n + h.bytes.length) = _
          rw [Nat.add_comm, scanHeads_shift]

theorem Head.WellFormed.fresh (wellFormed : h.WellFormed code) (rest : Bytes) :
    Fresh (h.bytes ++ rest) := by
  have begins : h.bytes ++ rest =
      h.status.bytes ++ (h.fields.flatMap Line.bytes ++ ending h.emptyCrlf ++ rest) := by
    simp only [List.flatMap_cons, Head.bytes, Head.lines, List.append_assoc]
  rw [begins]
  exact (wellFormed.plain h.status List.mem_cons_self).fresh _

/-- The heads before a text that a head begins. -/
theorem fresh_heads (provisional : ∀ h ∈ heads, ∃ code, h.WellFormed code ∧ isInterimCode code)
    (fresh : Fresh tail) : Fresh (heads.flatMap Head.bytes ++ tail) := by
  cases heads with
  | nil => exact fresh
  | cons h heads =>
      obtain ⟨_, wellFormed, _⟩ := provisional h List.mem_cons_self
      rw [List.flatMap_cons, List.append_assoc]
      exact wellFormed.fresh _

/-- The last of some heads, where there are any behind the first. -/
theorem getLast?_heads (h : Head) (heads : List Head) :
    (h :: heads).getLast?.any Head.visible =
      if h.visible then heads.getLast?.all Head.visible else heads.getLast?.any Head.visible := by
  cases heads with
  | nil => cases visible : h.visible <;> simp [visible]
  | cons g gs =>
      have some_ : ((g :: gs).getLast?).any Head.visible = ((g :: gs).getLast?).all Head.visible := by
        rw [List.getLast?_eq_getLast_of_ne_nil (List.cons_ne_nil g gs)]
        rfl
      rw [List.getLast?_cons_cons, some_, ite_self]

/-- What a scan of some interim heads comes to, from their front and from the next empty line
on. -/
theorem scanHeads_heads
    (provisional : ∀ h ∈ heads, ∃ code, h.WellFormed code ∧ isInterimCode code)
    (fresh : Fresh tail) (final : ∀ turns, scanHeads tail (turns + 1) 0 = some (0, code))
    (turns : ℕ) :
    scanHeads (heads.flatMap Head.bytes ++ tail) turns 0 =
        shifted (heads.flatMap Head.bytes).length
          (if heads.countP Head.visible < turns then
            if heads.getLast?.all Head.visible then some (0, code)
            else scanBehind tail (turns - heads.countP Head.visible - 1)
          else none) ∧
      scanBehind (heads.flatMap Head.bytes ++ tail) turns =
        shifted (heads.flatMap Head.bytes).length
          (if heads.countP Head.visible ≤ turns then
            if heads.getLast?.any Head.visible then some (0, code)
            else scanBehind tail (turns - heads.countP Head.visible)
          else none) := by
  induction heads generalizing turns with
  | nil =>
      have whole (found : Option (ℕ × ℕ)) : shifted 0 found = found := by
        cases found with
        | none => rfl
        | some p => exact congrArg some (congrArg (·, p.2) (Nat.zero_add p.1))
      refine ⟨?_, (whole _).symm⟩
      cases turns with
      | zero => rfl
      | succ turns => exact (final turns).trans (whole _).symm
  | cons h heads ih =>
      obtain ⟨⟨code', wellFormed, interim⟩, others⟩ := List.forall_mem_cons.1 provisional
      have behind := fresh_heads others fresh
      have split : (h :: heads).flatMap Head.bytes ++ tail =
          h.bytes ++ (heads.flatMap Head.bytes ++ tail) := by
        rw [List.flatMap_cons, List.append_assoc]
      have long : ((h :: heads).flatMap Head.bytes).length =
          h.bytes.length + (heads.flatMap Head.bytes).length := by
        rw [List.flatMap_cons, List.length_append]
      have blank : ∀ turns, scanBehind ((h :: heads).flatMap Head.bytes ++ tail) turns =
          shifted ((h :: heads).flatMap Head.bytes).length
            (if (h :: heads).countP Head.visible ≤ turns then
              if (h :: heads).getLast?.any Head.visible then some (0, code)
              else scanBehind tail (turns - (h :: heads).countP Head.visible)
            else none) := by
        intro turns
        obtain ⟨front, search⟩ := ih others turns
        rw [split, scanBehind_head wellFormed behind, getLast?_heads, front, search, long,
          ← shifted_shifted]
        refine congrArg (shifted h.bytes.length) ?_
        cases visible : h.visible with
        | true => rw [List.countP_cons_of_pos visible, Nat.sub_sub]; rfl
        | false => rw [List.countP_cons_of_neg (by rw [visible]; exact Bool.false_ne_true)]; rfl
      refine ⟨?_, blank turns⟩
      cases turns with
      | zero =>
          rw [if_neg (Nat.not_lt_zero _)]
          rfl
      | succ turns =>
          have one : ((h :: heads).getLast?).all Head.visible =
              ((h :: heads).getLast?).any Head.visible := by
            rw [List.getLast?_eq_getLast_of_ne_nil (List.cons_ne_nil h heads)]
            rfl
          have left : turns + 1 - (h :: heads).countP Head.visible - 1 =
              turns - (h :: heads).countP Head.visible := by omega
          have begins := scanHeads_interim wellFormed interim (heads.flatMap Head.bytes ++ tail) turns
          rw [← split, blank turns] at begins
          rw [begins, one, left]
          simp only [Nat.lt_succ_iff]

end Scan

/-! ## Every response -/

section Responses

variable {r : Response} {reported : Int} {raw : Bytes}

theorem scanHeads_raw (r : Response) : scanHeads r.raw maxInterimHeads 0 =
    shifted r.before.length
      (if r.seen < maxInterimHeads then
        if r.interim.getLast?.all Head.visible then some (0, r.code)
        else scanBehind (r.last.bytes ++ r.body) (maxInterimHeads - r.seen - 1)
      else none) := by
  exact (scanHeads_heads r.provisional (r.final.1.fresh r.body)
    (fun turns => scanHeads_last r.final.1 r.final.2 r.body turns) maxInterimHeads).1

theorem scanBehind_pos {text : Bytes} {turns k code : ℕ}
    (found : scanBehind text turns = some (k, code)) : 0 < k := by
  rw [scanBehind] at found
  cases blank : behindBlank text with
  | none =>
      rw [blank] at found
      cases found
  | some n =>
      rw [blank] at found
      obtain ⟨_, pre, e, taken, _, ends⟩ := behindBlank_some blank
      refine Nat.lt_of_lt_of_le ?_ (scanHeads_le found)
      cases n with
      | zero =>
          rw [List.take_zero] at taken
          have none_ := (List.append_eq_nil_iff.1 taken.symm).2
          rw [none_] at ends
          obtain same | same := ends <;> cases same
      | succ n => exact Nat.succ_pos n

/-- The answer to any bytes under any reported status is no interim status, and says that none
was read under a reported interim status alone. -/
theorem scanStatus_sound (raw : Bytes) (reported : Int) :
    ¬ isProvisional (scanStatus raw reported).code ∧
      ((scanStatus raw reported).unreadable = true → isProvisional reported) := by
  rw [scanStatus]
  by_cases provisional : isProvisional reported
  · rw [if_pos provisional]
    refine ⟨?_, fun _ => provisional⟩
    cases found : scanHeads raw maxInterimHeads 0 with
    | none => exact fun interim => absurd interim.2.1 (by decide)
    | some p =>
        obtain ⟨k, code⟩ := p
        rintro ⟨_, low, other⟩
        obtain rfl | high := scanHeads_final found
        · exact other rfl
        · have : (code : Int) ≤ 199 := low
          omega
  · rw [if_neg provisional]
    exact ⟨provisional, fun unread => absurd unread Bool.false_ne_true⟩

/-- A response of interim heads, a final head and a body is scanned for the status of the final
head exactly where the last interim head ends at an empty line that the scan sees; where the
interim heads are too many, it is said to have none exactly where the scan sees too many of them
or none behind the final head. -/
theorem scanned_iff (r : Response) (provisional : isProvisional reported) :
    r.Scanned reported ↔ r.Apparent := by
  have few : r.seen ≤ r.interim.length := List.countP_le_length
  have run := scanHeads_raw r
  rw [Response.Scanned, Response.Apparent, scanStatus, finalHead, if_pos provisional,
    if_pos provisional, run]
  by_cases short : r.interim.length < maxInterimHeads
  · rw [if_pos short, if_pos short, if_pos (Nat.lt_of_le_of_lt few short)]
    cases r.interim.getLast?.all Head.visible with
    | true => exact ⟨fun _ => rfl, fun _ => ⟨rfl, rfl⟩⟩
    | false =>
        refine ⟨fun scanned => ?_, fun never => absurd never Bool.false_ne_true⟩
        obtain ⟨p, found, at_⟩ := Option.map_eq_some_iff.1 scanned.2
        obtain ⟨q, behind, rfl⟩ := Option.map_eq_some_iff.1 found
        have pos := scanBehind_pos behind
        have here : r.before.length + q.1 = r.before.length := at_
        omega
  · rw [if_neg short, if_neg short]
    by_cases many : r.seen < maxInterimHeads
    · rw [if_pos many]
      cases r.interim.getLast?.all Head.visible with
      | true =>
          refine ⟨fun unread => ?_, ?_⟩
          · exact absurd (congrArg StatusScan.unreadable unread) Bool.false_ne_true
          · rintro (enough | ⟨never, _⟩)
            · omega
            · cases never
      | false =>
          cases behind : scanBehind (r.last.bytes ++ r.body) (maxInterimHeads - r.seen - 1) with
          | none => exact ⟨fun _ => .inr ⟨rfl, rfl⟩, fun _ => rfl⟩
          | some p =>
              refine ⟨fun unread => ?_, ?_⟩
              · exact absurd (congrArg StatusScan.unreadable unread) Bool.false_ne_true
              · rintro (enough | ⟨_, none_⟩)
                · omega
                · cases none_
    · rw [if_neg many]
      exact ⟨fun _ => .inl (Nat.not_lt.1 many), fun _ => rfl⟩

end Responses

/-- An interim head whose line ends by a bare LF and whose empty line ends by a CRLF, and the
same head with one kind of end. -/
def early (crlf : Bool) : Head := ⟨⟨usAscii "HTTP/1.1 103 Early Hints", crlf⟩, [], true⟩

def failing : Head := ⟨⟨usAscii "HTTP/1.1 500 Oops", true⟩, [], true⟩

theorem early_wellFormed (crlf : Bool) : (early crlf).WellFormed 103 where
  plain := by
    intro l mem
    rw [List.mem_singleton.1 mem]
    cases crlf <;> exact ⟨by decide, by decide, by decide⟩
  status := ⟨usAscii "1.1", usAscii "103", usAscii " Early Hints", rfl, by decide, by decide,
    by decide, by decide, by decide⟩

theorem failing_wellFormed : failing.WellFormed 500 where
  plain := by
    intro l mem
    rw [List.mem_singleton.1 mem]
    exact ⟨by decide, by decide, by decide⟩
  status := ⟨usAscii "1.1", usAscii "500", usAscii " Oops", by decide, by decide, by decide,
    by decide, by decide, by decide⟩

theorem early_provisional (crlf : Bool) :
    ∀ h ∈ [early crlf], ∃ code, h.WellFormed code ∧ isInterimCode code := by
  intro h mem
  rw [List.mem_singleton.1 mem]
  exact ⟨103, early_wellFormed crlf, by decide, by decide, by decide⟩

theorem failing_final : failing.WellFormed 500 ∧ (500 = switchingProtocols ∨ 200 ≤ 500) :=
  ⟨failing_wellFormed, .inr (by decide)⟩

/-- A failure behind an early hint, with a body that looks like a success. -/
def masked (crlf : Bool) : Response :=
  ⟨[early crlf], failing, 500, usAscii "HTTP/1.1 200 OK\r\n", early_provisional crlf,
    failing_final⟩

end Hx.Send.Status
