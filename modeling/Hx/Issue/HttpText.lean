import Hx.Checks.Active
import Hx.Library.Lines

/-!
# The head and the body of stored bytes

`split_head_body` looks for the first empty line behind an LF or behind a CRLF. It finds the
one a lenient reader ends the head with, unless that one is a CRLF behind a bare LF or has
more than one CR: then the head runs on, and the body is shorter than what was stored.
-/

namespace Hx.Issue.HttpText

open Hx.Library Hx.Library.Lines

/-- `raw.find(needle)`. -/
def find (needle : List UInt8) : List UInt8 → Option ℕ
  | [] => if needle = [] then some 0 else none
  | b :: rest =>
      if needle.isPrefixOf (b :: rest) then some 0 else (find needle rest).map fun n => n + 1

def crlfCrlf : List UInt8 := [13, 10, 13, 10]

def lfLf : List UInt8 := [10, 10]

/-- `split_head_body`. -/
def splitHeadBody (raw : List UInt8) : List UInt8 × List UInt8 :=
  match find crlfCrlf raw, find lfLf raw with
  | none, none => (raw, [])
  | some crlf, none => (raw.take crlf, raw.drop (crlf + 4))
  | none, some lf => (raw.take lf, raw.drop (lf + 2))
  | some crlf, some lf =>
      if crlf ≤ lf then (raw.take crlf, raw.drop (crlf + 4)) else (raw.take lf, raw.drop (lf + 2))

/-- Without one CR at the end. -/
def strip1 (line : List UInt8) : List UInt8 :=
  if line.getLast? = some 13 then line.dropLast else line

/-- The lines of the head, the first one among them. -/
def headLines (raw : List UInt8) : List (List UInt8) :=
  ((splitHeadBody raw).1.splitOn 10).map strip1

variable {l rest raw : List UInt8}

/-! ## Where the empty line is -/

theorem find_last (plain : 10 ∉ l) : find crlfCrlf l = none ∧ find lfLf l = none := by
  induction l with
  | nil => exact ⟨rfl, rfl⟩
  | cons b l ih =>
      obtain ⟨crlf, lf⟩ := ih fun mem => plain (List.mem_cons_of_mem _ mem)
      have other : ∀ needle : List UInt8, 10 ∈ needle → needle.isPrefixOf (b :: l) = false := by
        intro needle mem
        cases starts : needle.isPrefixOf (b :: l) with
        | false => rfl
        | true => exact absurd ((List.isPrefixOf_iff_prefix.1 starts).subset mem) plain
      rw [find, find, other crlfCrlf (by decide), other lfLf (by decide), crlf, lf]
      exact ⟨rfl, rfl⟩

theorem find_lfLf_line (plain : 10 ∉ l) (rest : List UInt8) :
    find lfLf (l ++ 10 :: rest) =
      if rest.head? = some 10 then some l.length
      else (find lfLf rest).map fun n => n + (l.length + 1) := by
  induction l with
  | nil =>
      rw [List.nil_append, find]
      cases rest with
      | nil => rfl
      | cons b rest =>
          by_cases same : b = 10
          · rw [if_pos (by simp [same, lfLf]), if_pos (by simp [same])]
            rfl
          · rw [if_neg (by simp [lfLf, Ne.symm same]), if_neg (by simp [same])]
            rfl
  | cons b l ih =>
      have other : b ≠ 10 := fun same => plain (same ▸ List.mem_cons_self)
      rw [List.cons_append, find, if_neg (by simp [lfLf, other.symm]),
        ih fun mem => plain (List.mem_cons_of_mem _ mem)]
      split
      · rfl
      · rw [Option.map_map]
        rfl

/-- Whether a line ends right before a CRLF that closes the head. -/
def closes (l rest : List UInt8) : Bool := l.getLast? == some 13 && [13, 10].isPrefixOf rest

theorem find_crlfCrlf_line (plain : 10 ∉ l) (rest : List UInt8) :
    find crlfCrlf (l ++ 10 :: rest) =
      if closes l rest then some (l.length - 1)
      else (find crlfCrlf rest).map fun n => n + (l.length + 1) := by
  induction l with
  | nil =>
      rw [List.nil_append, find, if_neg (by simp [crlfCrlf])]
      rfl
  | cons b l ih =>
      have later := ih fun mem => plain (List.mem_cons_of_mem _ mem)
      rw [List.cons_append, find, later]
      cases l with
      | nil =>
          by_cases cr : b = 13
          · by_cases close : [13, 10].isPrefixOf rest = true
            · rw [if_pos (by simpa [crlfCrlf, cr] using close), if_pos (by simp [closes, cr, close])]
              rfl
            · rw [if_neg (by simpa [crlfCrlf, cr] using close),
                if_neg (by simp [closes]), if_neg (by simp [closes, close]), Option.map_map]
              rfl
          · rw [if_neg (by simp [crlfCrlf, Ne.symm cr]), if_neg (by simp [closes]),
              if_neg (by simp [closes, cr]), Option.map_map]
            rfl
      | cons c l =>
          have other : c ≠ 10 := fun same =>
            plain (same ▸ List.mem_cons_of_mem _ List.mem_cons_self)
          have same : closes (b :: c :: l) rest = closes (c :: l) rest := by
            rw [closes, closes, List.getLast?_cons_cons]
          rw [if_neg (by simp [crlfCrlf, other.symm]), same]
          split
          · rfl
          · rw [Option.map_map]
            rfl

/-! ## The split -/

theorem splitHeadBody_last (plain : 10 ∉ l) : splitHeadBody l = (l, []) := by
  rw [splitHeadBody, (find_last plain).1, (find_last plain).2]

/-- An LF right behind a line ends the head. -/
theorem splitHeadBody_lf (plain : 10 ∉ l) (body : List UInt8) :
    splitHeadBody (l ++ 10 :: 10 :: body) = (l, body) := by
  have other : [13, 10].isPrefixOf (10 :: body) = false := rfl
  have open_ : closes l (10 :: body) = false := by rw [closes, other, Bool.and_false]
  have taken : (l ++ 10 :: 10 :: body).take l.length = l := List.take_left
  have dropped : (l ++ 10 :: 10 :: body).drop (l.length + 2) = body := by
    rw [← List.drop_drop, List.drop_left]
    rfl
  rw [splitHeadBody, find_lfLf_line plain, find_crlfCrlf_line plain, open_]
  cases find crlfCrlf (10 :: body) with
  | none => exact Prod.ext taken dropped
  | some n =>
      have later : ¬ n + (l.length + 1) ≤ l.length := by omega
      simp only [Bool.false_eq_true, if_false, List.head?_cons, if_true, Option.map_some,
        if_neg later, taken, dropped]

/-- So does a CRLF behind a line that ends with CR. -/
theorem splitHeadBody_crlf (plain : 10 ∉ l) (cr : l.getLast? = some 13) (body : List UInt8) :
    splitHeadBody (l ++ 10 :: 13 :: 10 :: body) = (l.dropLast, body) := by
  have close : closes l (13 :: 10 :: body) = true := by simp [closes, cr]
  have some_ : l ≠ [] := by
    rintro rfl
    contradiction
  have positive : 0 < l.length := List.length_pos_iff.2 some_
  have taken : (l ++ 10 :: 13 :: 10 :: body).take (l.length - 1) = l.dropLast := by
    rw [List.take_append_of_le_length (by omega), List.dropLast_eq_take]
  have dropped : (l ++ 10 :: 13 :: 10 :: body).drop (l.length - 1 + 4) = body := by
    have count : l.length - 1 + 4 = l.length + 3 := by omega
    rw [count, ← List.drop_drop, List.drop_left]
    rfl
  rw [splitHeadBody, find_lfLf_line plain, find_crlfCrlf_line plain, close]
  cases find lfLf (13 :: 10 :: body) with
  | none => exact Prod.ext taken dropped
  | some n =>
      have first : l.length - 1 ≤ n + (l.length + 1) := by omega
      simp only [if_true, List.head?_cons, Option.some.injEq, (by decide : ¬ (13 : UInt8) = 10),
        if_false, Option.map_some, if_pos first, taken, dropped]

/-- Otherwise the line belongs to the head. -/
theorem splitHeadBody_line (plain : 10 ∉ l) (more : rest.head? ≠ some 10)
    (open_ : closes l rest = false) :
    splitHeadBody (l ++ 10 :: rest) =
      (l ++ 10 :: (splitHeadBody rest).1, (splitHeadBody rest).2) := by
  have taken : ∀ n, (l ++ 10 :: rest).take (n + (l.length + 1)) = l ++ 10 :: rest.take n := by
    intro n
    have count : n + (l.length + 1) = l.length + (n + 1) := by omega
    rw [count, List.take_length_add_append]
    rfl
  have dropped : ∀ n k, (l ++ 10 :: rest).drop (n + (l.length + 1) + k) = rest.drop (n + k) := by
    intro n k
    have count : n + (l.length + 1) + k = l.length + (n + k + 1) := by omega
    rw [count, ← List.drop_drop, List.drop_left]
    rfl
  rw [splitHeadBody, splitHeadBody, find_lfLf_line plain, find_crlfCrlf_line plain, open_,
    if_neg more, if_neg Bool.false_ne_true]
  cases find crlfCrlf rest with
  | none =>
      cases find lfLf rest with
      | none => rfl
      | some n => exact Prod.ext (taken n) (dropped n 2)
  | some c =>
      cases find lfLf rest with
      | none => exact Prod.ext (taken c) (dropped c 4)
      | some n =>
          simp only [Option.map_some, Nat.add_le_add_iff_right]
          split
          · exact Prod.ext (taken c) (dropped c 4)
          · exact Prod.ext (taken n) (dropped n 2)

/-- The body is shorter than the whole. -/
theorem length_body_lt (some_ : raw ≠ []) : (splitHeadBody raw).2.length < raw.length := by
  have positive : 0 < raw.length := List.length_pos_iff.2 some_
  rw [splitHeadBody]
  split
  · exact positive
  · rw [List.length_drop]
    omega
  · rw [List.length_drop]
    omega
  · split
    · rw [List.length_drop]
      omega
    · rw [List.length_drop]
      omega

/-! ## Against the lenient reading -/

/-- The empty line that ends the head is one the split looks for, or nothing follows it. -/
def Regular (raw : List UInt8) : Prop :=
  ∀ prev crs rest, blankLine [] [] raw = some (prev, crs, rest) →
    crs = [] ∨ (crs = [13] ∧ prev.getLast? = some 13) ∨ rest = []

/-- Both readings have the same lines, their CRs and empty ones aside, and the same body. -/
structure Agree (raw : List UInt8) : Prop where
  lines : ((headLines raw).map chomp).filter (· ≠ []) = (read [] raw).1
  body : (splitHeadBody raw).2 = (read [] raw).2

theorem chomp_strip1 (l : List UInt8) : chomp (strip1 l) = chomp l := by
  rw [strip1]
  split
  · rename_i cr
    have some_ : l ≠ [] := by
      rintro rfl
      contradiction
    have last : l.getLast some_ = 13 := by
      rw [List.getLast?_eq_some_getLast some_] at cr
      exact Option.some.inj cr
    have whole := List.dropLast_concat_getLast some_
    rw [last] at whole
    rw [← chomp_append_cr l.dropLast, whole]
  · rfl

theorem headLines_line (plain : 10 ∉ l) (more : rest.head? ≠ some 10)
    (open_ : closes l rest = false) :
    headLines (l ++ 10 :: rest) = strip1 l :: headLines rest := by
  rw [headLines, headLines, splitHeadBody_line plain more open_,
    List.splitOn_append_cons_self_of_not_mem plain, List.map_cons]

theorem headLines_last (plain : 10 ∉ l) : headLines l = [strip1 l] := by
  rw [headLines, splitHeadBody_last plain, List.splitOn_eq_singleton plain]
  rfl

theorem dropLast_of_cr (cr : l.getLast? = some 13) : l = l.dropLast ++ [13] := by
  have some_ : l ≠ [] := by
    rintro rfl
    contradiction
  have last : l.getLast some_ = 13 := by
    rw [List.getLast?_eq_some_getLast some_] at cr
    exact Option.some.inj cr
  have whole := List.dropLast_concat_getLast some_
  rw [last] at whole
  exact whole.symm

theorem eq_cr_of_close (plain : 10 ∉ l) (close : [13, 10].isPrefixOf (l ++ 10 :: rest) = true) :
    l = [13] := by
  rcases l with _ | ⟨b, _ | ⟨c, l⟩⟩
  · contradiction
  · simp only [List.cons_append, List.isPrefixOf, Bool.and_eq_true, beq_iff_eq] at close
    rw [close.1]
  · simp only [List.cons_append, List.isPrefixOf, Bool.and_eq_true, beq_iff_eq] at close
    exact absurd (close.2.1 ▸ List.mem_cons_of_mem _ List.mem_cons_self) plain

/-- What follows a line has a shorter body, if it is not empty. -/
theorem length_body_line_lt (plain : 10 ∉ l) (some_ : rest ≠ []) :
    (splitHeadBody (l ++ 10 :: rest)).2.length < rest.length := by
  by_cases lf : rest.head? = some 10
  · obtain ⟨body, rfl⟩ := List.head?_eq_some_iff.1 lf
    rw [splitHeadBody_lf plain]
    exact Nat.lt_succ_self _
  · cases close : closes l rest with
    | true =>
        obtain ⟨cr, starts⟩ := Bool.and_eq_true_iff.1 close
        obtain ⟨body, rfl⟩ := List.isPrefixOf_iff_prefix.1 starts
        rw [List.cons_append, List.singleton_append, splitHeadBody_crlf plain (beq_iff_eq.1 cr),
          List.length_cons, List.length_cons]
        show body.length < body.length + 1 + 1
        omega
    | false =>
        rw [splitHeadBody_line plain lf close]
        exact length_body_lt some_

/-- A message whose first line is not empty: where the empty line is one the split looks for,
both readings agree, and elsewhere the body of the split is shorter. -/
theorem agree_or_shorter (rest : List UInt8) : ∀ l : List UInt8, 10 ∉ l → chomp l ≠ [] →
    (Regular (l ++ 10 :: rest) → Agree (l ++ 10 :: rest)) ∧
      (¬ Regular (l ++ 10 :: rest) → (splitHeadBody (l ++ 10 :: rest)).2.length <
        (read [] (l ++ 10 :: rest)).2.length) := by
  induction rest using line_induction with
  | last r plain =>
      intro l clean some_
      have more : r.head? ≠ some 10 := fun head => plain (List.mem_of_head? head)
      have open_ : closes l r = false := by
        cases close : closes l r with
        | false => rfl
        | true =>
            have starts := (Bool.and_eq_true_iff.1 close).2
            exact absurd ((List.isPrefixOf_iff_prefix.1 starts).subset
              (List.mem_cons_of_mem _ List.mem_cons_self)) plain
      have regular : Regular (l ++ 10 :: r) := by
        intro prev crs rest blank
        rw [blankLine_nil_line clean, if_neg some_, blankLine_last plain] at blank
        contradiction
      refine ⟨fun _ => ⟨?_, ?_⟩, fun odd => absurd regular odd⟩
      · rw [headLines_line clean more open_, headLines_last plain, read_nil_line clean,
          if_neg some_, read_nil_last plain]
        by_cases empty : chomp r = []
        · simp [chomp_strip1, some_, empty]
        · simp [chomp_strip1, some_, empty]
      · rw [splitHeadBody_line clean more open_, splitHeadBody_last plain, read_nil_line clean,
          if_neg some_, read_nil_last plain]
  | next r rest plain ih =>
      intro l clean some_
      have whole := read_nil_line clean (r ++ 10 :: rest)
      rw [if_neg some_] at whole
      by_cases blank : chomp r = []
      · -- The empty line of the lenient reading: whether the split sees it.
        have here : blankLine [] [] (l ++ 10 :: (r ++ 10 :: rest)) = some (l, r, rest) := by
          rw [blankLine_nil_line clean, if_neg some_, blankLine_nil_line plain, if_pos blank]
        have ends : read [] (r ++ 10 :: rest) = ([], rest) := by
          rw [read_nil_line plain, if_pos blank]
        rw [ends] at whole
        by_cases lf : r = []
        · have split := splitHeadBody_lf clean rest
          refine ⟨fun _ => ⟨?_, ?_⟩, fun odd => absurd ?_ odd⟩
          · rw [lf, List.nil_append] at whole ⊢
            rw [headLines, split, whole, List.splitOn_eq_singleton clean]
            simp [chomp_strip1, some_]
          · rw [lf, List.nil_append] at whole ⊢
            rw [split]
            exact (congrArg Prod.snd whole).symm
          · intro prev crs' rest' found
            rw [here] at found
            cases found
            exact .inl lf
        · have more : (r ++ 10 :: rest).head? ≠ some 10 := by
            cases r with
            | nil => exact absurd rfl lf
            | cons b r =>
                intro head
                exact plain (Option.some.inj head ▸ List.mem_cons_self)
          cases close : closes l (r ++ 10 :: rest) with
          | true =>
              obtain ⟨cr, starts⟩ := Bool.and_eq_true_iff.1 close
              have cr := beq_iff_eq.1 cr
              have single := eq_cr_of_close plain starts
              have split := splitHeadBody_crlf clean cr rest
              have clean' : 10 ∉ l.dropLast := fun mem => clean (List.mem_of_mem_dropLast mem)
              refine ⟨fun _ => ⟨?_, ?_⟩, fun odd => absurd ?_ odd⟩
              · rw [single] at whole ⊢
                have kept : chomp l.dropLast = chomp l := by
                  rw [← chomp_append_cr l.dropLast, ← dropLast_of_cr cr]
                rw [headLines, List.singleton_append, split, List.splitOn_eq_singleton clean']
                rw [List.singleton_append] at whole
                rw [whole]
                simp [chomp_strip1, kept, some_]
              · rw [single] at whole ⊢
                rw [List.singleton_append] at whole ⊢
                rw [split]
                exact (congrArg Prod.snd whole).symm
              · intro prev crs' rest' found
                rw [here] at found
                cases found
                exact .inr (.inl ⟨single, cr⟩)
          | false =>
              have only : Regular (l ++ 10 :: (r ++ 10 :: rest)) → rest = [] := by
                intro regular
                rcases regular l r rest here with none_ | ⟨rfl, cr⟩ | last
                · exact absurd none_ lf
                · rw [closes, cr] at close
                  contradiction
                · exact last
              refine ⟨fun regular => ?_, fun odd => ?_⟩
              · cases only regular
                have nil : 10 ∉ ([] : List UInt8) := List.not_mem_nil
                have empty : chomp [] = [] := rfl
                have open_ : closes r [] = false := by simp [closes]
                refine ⟨?_, ?_⟩
                · rw [headLines_line clean more close, headLines_line plain (by simp) open_,
                    headLines_last nil, whole]
                  simp [chomp_strip1, some_, blank, empty]
                · rw [splitHeadBody_line clean more close, splitHeadBody_line plain (by simp) open_,
                    splitHeadBody_last nil, whole]
              · rw [splitHeadBody_line clean more close, whole]
                refine length_body_line_lt plain fun empty => odd ?_
                intro prev crs rest' found
                rw [here] at found
                cases found
                exact .inr (.inr empty)
      · -- An ordinary line: both readings go on behind it.
        have more : (r ++ 10 :: rest).head? ≠ some 10 := by
          cases r with
          | nil => exact absurd rfl blank
          | cons b r =>
              intro head
              exact plain (Option.some.inj head ▸ List.mem_cons_self)
        have close : closes l (r ++ 10 :: rest) = false := by
          cases close : closes l (r ++ 10 :: rest) with
          | false => rfl
          | true =>
              have single := eq_cr_of_close plain (Bool.and_eq_true_iff.1 close).2
              rw [single] at blank
              exact absurd rfl blank
        have same : Regular (l ++ 10 :: (r ++ 10 :: rest)) ↔ Regular (r ++ 10 :: rest) := by
          rw [Regular, Regular, blankLine_nil_line clean, if_neg some_, blankLine_nil_line plain,
            blankLine_nil_line plain, if_neg blank, if_neg blank]
        obtain ⟨agree, shorter⟩ := ih r plain blank
        refine ⟨fun regular => ⟨?_, ?_⟩, fun odd => ?_⟩
        · rw [headLines_line clean more close, whole, ← (agree (same.1 regular)).lines]
          simp [chomp_strip1, some_]
        · rw [splitHeadBody_line clean more close, whole]
          exact (agree (same.1 regular)).body
        · rw [splitHeadBody_line clean more close, whole]
          exact shorter fun regular => odd (same.2 regular)

end Hx.Issue.HttpText
