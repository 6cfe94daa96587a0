import Mathlib.Data.List.DropRight
import Mathlib.Tactic.SplitIfs

/-!
# Full lower case, as far as ASCII can tell

Two runtimes that follow Unicode agree on the ASCII characters of a lower-cased text:
the capitals, the Kelvin sign and the dotted capital I are all that lower-cases into
ASCII. Everything else stays outside it, by a table that depends on the version and, for
the final sigma, on what stands around the character.

A text is its code points. `skeleton` is a text with the characters outside ASCII blanked
out; reading a text up to ASCII delimiters commutes with it.
-/

namespace Hx.Library

abbrev Text := List (Fin 0x110000)

/-- `chr` of a number in range. -/
def chr (n : Nat) : Fin 0x110000 := ⟨n % 0x110000, Nat.mod_lt _ (Nat.succ_pos 0x10ffff)⟩

theorem val_chr (n : Nat) : (chr n).val = n % 0x110000 := rfl

/-- An ASCII literal. -/
def text (s : String) : Text := s.toList.map fun c => chr c.toNat

/-- The rest of a runtime's table: what a character outside ASCII becomes in its
context. -/
structure Lowering where
  other : Text → Fin 0x110000 → Text → Fin 0x110000
  above : ∀ before c after, 0x80 ≤ (other before c after).val

namespace Lowering

variable (L : Lowering)

/-- The lower case of one character in its context. -/
def lowerAt (before : Text) (c : Fin 0x110000) (after : Text) : Text :=
  if c.val < 0x80 then
    if 0x41 ≤ c.val ∧ c.val ≤ 0x5a then [chr (c.val + 0x20)] else [c]
  else if c.val = 0x212a then [chr 0x6b]
  else if c.val = 0x130 then [chr 0x69, chr 0x307]
  else [L.other before c after]

def lowerFrom (before : Text) : Text → Text
  | [] => []
  | c :: rest => L.lowerAt before c rest ++ lowerFrom (before ++ [c]) rest

def lower (s : Text) : Text := L.lowerFrom [] s

end Lowering

/-- A character outside ASCII is nothing to compare with. -/
def visible (c : Fin 0x110000) : Option (Fin 0x110000) := if c.val < 0x80 then some c else none

def skeleton (s : Text) : List (Option (Fin 0x110000)) := s.map visible

@[simp] theorem skeleton_nil : skeleton [] = [] := rfl

@[simp] theorem skeleton_cons (c : Fin 0x110000) (s : Text) :
    skeleton (c :: s) = visible c :: skeleton s := rfl

@[simp] theorem skeleton_append (s t : Text) : skeleton (s ++ t) = skeleton s ++ skeleton t :=
  List.map_append

@[simp] theorem length_skeleton (s : Text) : (skeleton s).length = s.length := List.length_map _

theorem skeleton_drop (n : Nat) (s : Text) : skeleton (s.drop n) = (skeleton s).drop n :=
  List.map_drop

/-- Where a text is ASCII its skeleton is all of it. -/
theorem eq_of_skeleton_eq {s t : Text} (ascii : ∀ c ∈ s, c.val < 0x80)
    (same : skeleton s = skeleton t) : s = t := by
  induction s generalizing t with
  | nil => exact (List.map_eq_nil_iff.1 same.symm).symm
  | cons c s ih =>
      cases t with
      | nil => contradiction
      | cons d t =>
          rw [skeleton_cons, skeleton_cons] at same
          obtain ⟨first, rest⟩ := List.cons.inj same
          have small := ascii c List.mem_cons_self
          rw [visible, if_pos small, visible] at first
          split_ifs at first with other
          rw [Option.some.inj first,
            ih (fun x mem => ascii x (List.mem_cons_of_mem _ mem)) rest]

namespace Lowering

variable {L M : Lowering}

theorem skeleton_lowerAt (before before' : Text) (c : Fin 0x110000) (after after' : Text) :
    skeleton (L.lowerAt before c after) = skeleton (M.lowerAt before' c after') := by
  rw [lowerAt, lowerAt]
  split_ifs
  · rfl
  · rfl
  · rfl
  · rfl
  · have low := L.above before c after
    have low' := M.above before' c after'
    simp only [skeleton_cons, skeleton_nil, visible]
    rw [if_neg (Nat.not_lt.2 low), if_neg (Nat.not_lt.2 low')]

theorem skeleton_lowerFrom (before before' : Text) (s : Text) :
    skeleton (L.lowerFrom before s) = skeleton (M.lowerFrom before' s) := by
  induction s generalizing before before' with
  | nil => rfl
  | cons c s ih =>
      rw [lowerFrom, lowerFrom, skeleton_append, skeleton_append,
        skeleton_lowerAt before before' c s s, ih]

/-- Lower-casing a text and a part of it agree on ASCII, in whatever runtime. -/
theorem skeleton_lower_append (s t : Text) :
    skeleton (L.lower (s ++ t)) = skeleton (M.lower s) ++ skeleton (M.lower t) := by
  have go : ∀ before, skeleton (L.lowerFrom before (s ++ t)) =
      skeleton (M.lowerFrom before s) ++ skeleton (M.lower t) := by
    induction s with
    | nil =>
        intro before
        exact skeleton_lowerFrom before [] t
    | cons c s ih =>
        intro before
        rw [List.cons_append, lowerFrom, lowerFrom, skeleton_append, skeleton_append, ih,
          List.append_assoc, skeleton_lowerAt before before c (s ++ t) s]
  exact go []

/-- A character that is no letter stays, and nothing else becomes it. -/
theorem mem_lower_iff {d : Fin 0x110000} (ascii : d.val < 0x80)
    (upper : ¬ (0x41 ≤ d.val ∧ d.val ≤ 0x5a)) (small : ¬ (0x61 ≤ d.val ∧ d.val ≤ 0x7a))
    {s : Text} : d ∈ L.lower s ↔ d ∈ s := by
  have at_ : ∀ before c after, d ∈ L.lowerAt before c after ↔ d = c := by
    intro before c after
    have above := L.above before c after
    rw [lowerAt]
    split_ifs with h₁ h₂ h₃ h₄
    · rw [List.mem_singleton]
      constructor
      · intro same
        have := congrArg Fin.val same
        rw [val_chr] at this
        omega
      · rintro rfl
        exact absurd h₂ upper
    · exact List.mem_singleton
    · rw [List.mem_singleton]
      constructor
      · intro same
        have := congrArg Fin.val same
        rw [val_chr] at this
        omega
      · rintro rfl
        exact absurd ascii h₁
    · rw [List.mem_cons, List.mem_singleton]
      constructor
      · rintro (same | same)
        all_goals
          have := congrArg Fin.val same
          rw [val_chr] at this
          omega
      · rintro rfl
        exact absurd ascii h₁
    · rw [List.mem_singleton]
      constructor
      · rintro rfl
        omega
      · rintro rfl
        exact absurd ascii h₁
  have go : ∀ before, d ∈ L.lowerFrom before s ↔ d ∈ s := by
    induction s with
    | nil => exact fun _ => Iff.rfl
    | cons c s ih =>
        intro before
        rw [lowerFrom, List.mem_append, at_, ih, List.mem_cons]
  exact go []

theorem length_lower_append (s t : Text) :
    (L.lower (s ++ t)).length = (L.lower s).length + (L.lower t).length := by
  rw [← length_skeleton, skeleton_lower_append s t, List.length_append, length_skeleton,
    length_skeleton]

theorem length_lower_pos {s : Text} (some_ : s ≠ []) : 0 < (L.lower s).length := by
  cases s with
  | nil => exact absurd rfl some_
  | cons c s =>
      rw [lower, lowerFrom, List.length_append]
      have : 0 < (L.lowerAt [] c s).length := by
        rw [lowerAt]
        split_ifs <;> exact Nat.succ_pos _
      omega

/-- A text of ASCII characters that are no capitals is its own lower case. -/
theorem lower_eq_self {s : Text}
    (lowered : ∀ c ∈ s, c.val < 0x80 ∧ ¬ (0x41 ≤ c.val ∧ c.val ≤ 0x5a)) : L.lower s = s := by
  have go : ∀ before, L.lowerFrom before s = s := by
    induction s with
    | nil => exact fun _ => rfl
    | cons c s ih =>
        intro before
        obtain ⟨ascii, capital⟩ := lowered c List.mem_cons_self
        rw [lowerFrom, lowerAt, if_pos ascii, if_neg capital,
          ih (fun x mem => lowered x (List.mem_cons_of_mem _ mem))]
        rfl
  exact go []

end Lowering

end Hx.Library
