import Hx.Library.Message

/-!
# A message read line by line

The lenient reading of RFC 9112: a line ends at an LF, and the CRs in front of it do not
count. The head ends at the first empty line, and what follows that is the body. A line that
starts with a blank continues the field of the line before it.
-/

namespace Hx.Library.Lines

open Message

/-- A line without the CRs at its end. -/
def chomp (line : List UInt8) : List UInt8 := line.rdropWhile (· == 13)

/-- The lines up to the first empty one, and what follows it; `line` is the beginning of the
first of them, backwards. -/
def read (line : List UInt8) : List UInt8 → List (List UInt8) × List UInt8
  | [] => (if chomp line.reverse = [] then [] else [chomp line.reverse], [])
  | b :: rest =>
      if b = 10 then
        if chomp line.reverse = [] then ([], rest)
        else (chomp line.reverse :: (read [] rest).1, (read [] rest).2)
      else read (b :: line) rest

/-- The line before the first empty one, that one as it stands, and what follows it. -/
def blankLine (prev line : List UInt8) :
    List UInt8 → Option (List UInt8 × List UInt8 × List UInt8)
  | [] => none
  | b :: rest =>
      if b = 10 then
        if chomp line.reverse = [] then some (prev, line.reverse, rest)
        else blankLine line.reverse [] rest
      else blankLine prev (b :: line) rest

/-- Whether a line continues the field before it. -/
def isFold (line : List UInt8) : Bool := line.head?.any isBlank

/-- The lines of the fields that are not dropped; `dropped` is whether the field before the
first line is. -/
def without (drop : List UInt8 → Bool) (dropped : Bool) : List (List UInt8) → List (List UInt8)
  | [] => []
  | line :: lines =>
      if isFold line then
        if dropped then without drop dropped lines else line :: without drop dropped lines
      else if drop line then without drop true lines
      else line :: without drop false lines

/-! ## One line and what follows -/

variable {l line prev rest body : List UInt8} {lines : List (List UInt8)}

/-- Every message is one line, or a line, its end and a message. -/
theorem line_induction {P : List UInt8 → Prop} (last : ∀ l, 10 ∉ l → P l)
    (next : ∀ l rest, 10 ∉ l → P rest → P (l ++ 10 :: rest)) (raw : List UInt8) : P raw := by
  have bounded : ∀ n, ∀ raw : List UInt8, raw.length < n → P raw := by
    intro n
    induction n with
    | zero => exact fun _ short => absurd short (Nat.not_lt_zero _)
    | succ n ih =>
        intro raw short
        by_cases mem : 10 ∈ raw
        · obtain ⟨l, rest, rfl, plain⟩ := List.eq_append_cons_of_mem mem
          rw [List.length_append, List.length_cons] at short
          exact next l rest plain (ih rest (by omega))
        · exact last raw mem
  exact bounded _ raw (Nat.lt_succ_self _)

theorem read_last (plain : 10 ∉ l) :
    read line l =
      (if chomp (line.reverse ++ l) = [] then [] else [chomp (line.reverse ++ l)], []) := by
  induction l generalizing line with
  | nil => rw [read, List.append_nil]
  | cons b l ih =>
      have other : b ≠ 10 := fun same => plain (same ▸ List.mem_cons_self)
      rw [read, if_neg other, ih fun mem => plain (List.mem_cons_of_mem _ mem),
        List.reverse_cons, List.append_assoc]
      rfl

theorem read_line (plain : 10 ∉ l) (rest : List UInt8) :
    read line (l ++ 10 :: rest) =
      if chomp (line.reverse ++ l) = [] then ([], rest)
      else (chomp (line.reverse ++ l) :: (read [] rest).1, (read [] rest).2) := by
  induction l generalizing line with
  | nil =>
      rw [List.nil_append, List.append_nil, read, if_pos rfl]
  | cons b l ih =>
      have other : b ≠ 10 := fun same => plain (same ▸ List.mem_cons_self)
      rw [List.cons_append, read, if_neg other, ih fun mem => plain (List.mem_cons_of_mem _ mem),
        List.reverse_cons, List.append_assoc]
      rfl

theorem blankLine_last (plain : 10 ∉ l) : blankLine prev line l = none := by
  induction l generalizing line with
  | nil => rfl
  | cons b l ih =>
      have other : b ≠ 10 := fun same => plain (same ▸ List.mem_cons_self)
      rw [blankLine, if_neg other, ih fun mem => plain (List.mem_cons_of_mem _ mem)]

theorem blankLine_line (plain : 10 ∉ l) (rest : List UInt8) :
    blankLine prev line (l ++ 10 :: rest) =
      if chomp (line.reverse ++ l) = [] then some (prev, line.reverse ++ l, rest)
      else blankLine (line.reverse ++ l) [] rest := by
  induction l generalizing line with
  | nil =>
      rw [List.nil_append, List.append_nil, blankLine, if_pos rfl]
  | cons b l ih =>
      have other : b ≠ 10 := fun same => plain (same ▸ List.mem_cons_self)
      rw [List.cons_append, blankLine, if_neg other,
        ih fun mem => plain (List.mem_cons_of_mem _ mem), List.reverse_cons, List.append_assoc]
      rfl

/-- The same from the beginning of a line. -/
theorem read_nil_last (plain : 10 ∉ l) :
    read [] l = (if chomp l = [] then [] else [chomp l], []) := read_last plain

theorem read_nil_line (plain : 10 ∉ l) (rest : List UInt8) :
    read [] (l ++ 10 :: rest) =
      if chomp l = [] then ([], rest) else (chomp l :: (read [] rest).1, (read [] rest).2) :=
  read_line plain rest

theorem blankLine_nil_line (plain : 10 ∉ l) (rest : List UInt8) :
    blankLine prev [] (l ++ 10 :: rest) =
      if chomp l = [] then some (prev, l, rest) else blankLine l [] rest :=
  blankLine_line plain rest

/-! ## Lines without their ends -/

theorem chomp_append_cr (line : List UInt8) : chomp (line ++ [13]) = chomp line :=
  List.rdropWhile_concat_pos _ _ _ rfl

theorem prefix_of_chomp (line : List UInt8) : chomp line <+: line := List.rdropWhile_prefix _ _

theorem read_lines (raw line : List UInt8) : ∀ l ∈ (read line raw).1, 10 ∉ line → 10 ∉ l := by
  induction raw generalizing line with
  | nil =>
      intro l mem clean
      rw [read] at mem
      dsimp only at mem
      split at mem
      · exact absurd mem List.not_mem_nil
      · rw [List.mem_singleton.1 mem]
        exact fun inside => clean (List.mem_reverse.1 ((prefix_of_chomp _).subset inside))
  | cons b rest ih =>
      intro l mem clean
      rw [read] at mem
      split at mem
      · split at mem
        · exact absurd mem List.not_mem_nil
        · rcases List.mem_cons.1 mem with rfl | later
          · exact fun inside => clean (List.mem_reverse.1 ((prefix_of_chomp _).subset inside))
          · exact ih [] l later List.not_mem_nil
      · rename_i other
        refine ih (b :: line) l mem fun inside => ?_
        rcases List.mem_cons.1 inside with rfl | old
        · exact other rfl
        · exact clean old

/-! ## Fields -/

end Hx.Library.Lines
