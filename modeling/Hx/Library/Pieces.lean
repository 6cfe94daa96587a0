import Mathlib.Data.String.Basic
import Mathlib.Data.List.Basic
import Mathlib.Data.List.DropRight

/-!
# A list cut at one element, or at its ends

The pieces of a list, a list without the ends that a test holds of, and `String.splitOn` at a
character as `List.splitOn` of the text's characters.
-/

namespace Hx.Library

/-- Without the ends that a test holds of, there are no more such ends. -/
theorem ends_idempotent {α : Type} (p : α → Bool) (s : List α) :
    (((s.dropWhile p).rdropWhile p).dropWhile p).rdropWhile p =
      (s.dropWhile p).rdropWhile p := by
  have front : ((s.dropWhile p).rdropWhile p).dropWhile p = (s.dropWhile p).rdropWhile p := by
    rw [List.dropWhile_eq_self_iff]
    intro some_
    have short := (List.rdropWhile_prefix p (s.dropWhile p)).length_le
    have head := List.dropWhile_get_zero_not p s (Nat.lt_of_lt_of_le some_ short)
    rw [(List.rdropWhile_prefix p (s.dropWhile p)).getElem some_]
    exact head
  rw [front, List.rdropWhile_idempotent]

/-- A list up to the first element that a test holds of, and behind it. -/
theorem exists_first {α : Type} (p : α → Bool) (s : List α) :
    (∀ c ∈ s, p c = false) ∨
      ∃ x a y, s = x ++ a :: y ∧ p a = true ∧ ∀ c ∈ x, p c = false := by
  induction s with
  | nil => exact .inl fun c mem => absurd mem List.not_mem_nil
  | cons d s ih =>
      cases own : p d with
      | true => exact .inr ⟨[], d, s, rfl, own, fun c mem => absurd mem List.not_mem_nil⟩
      | false =>
          obtain none_ | ⟨x, a, y, rfl, here, plain⟩ := ih
          · exact .inl (List.forall_mem_cons.2 ⟨own, none_⟩)
          · exact .inr ⟨d :: x, a, y, rfl, here, List.forall_mem_cons.2 ⟨own, plain⟩⟩

/-- A piece has no separator in it, and nothing the whole has not. -/
theorem mem_splitOn {α : Type} [DecidableEq α] {sep : α} {s part : List α}
    (h : part ∈ s.splitOn sep) :
    sep ∉ part ∧ ∀ c ∈ part, c ∈ s := by
  induction s generalizing part with
  | nil =>
      obtain rfl := List.mem_singleton.1 (by simpa using h)
      simp
  | cons c s ih =>
      have later : ∀ part ∈ s.splitOn sep, sep ∉ part ∧ ∀ d ∈ part, d ∈ c :: s :=
        fun part among => ⟨(ih among).1, fun d inside => .tail _ ((ih among).2 d inside)⟩
      rw [List.splitOn_cons_eq_if_modifyHead] at h
      split at h
      · obtain rfl | h := List.mem_cons.1 h
        · simp
        · exact later part h
      · rename_i other
        cases parts : s.splitOn sep with
        | nil => simp [parts] at h
        | cons first rest =>
            rw [parts, List.modifyHead_cons] at h
            obtain rfl | h := List.mem_cons.1 h
            · obtain ⟨clean, inside⟩ := later first (parts ▸ .head _)
              refine ⟨?_, ?_⟩
              · rw [List.mem_cons, not_or]
                exact ⟨fun same => other (by simp [same]), clean⟩
              · exact List.forall_mem_cons.2 ⟨.head _, inside⟩
            · exact later part (parts ▸ .tail _ h)

/-- What is in the whole is a separator or in a piece. -/
theorem mem_of_splitOn {α : Type} [DecidableEq α] (sep : α) {c : α} {s : List α} (mem : c ∈ s) :
    c = sep ∨ ∃ part ∈ s.splitOn sep, c ∈ part := by
  have whole : [sep].intercalate (s.splitOn sep) = s := List.intercalate_splitOn _
  rw [← whole] at mem
  generalize s.splitOn sep = parts at mem
  induction parts with
  | nil => simp at mem
  | cons first rest ih =>
      cases rest with
      | nil => exact .inr ⟨first, .head _, by simpa using mem⟩
      | cons second rest =>
          rw [List.intercalate_cons_cons, List.append_assoc, List.mem_append] at mem
          obtain inside | later := mem
          · exact .inr ⟨first, .head _, inside⟩
          · obtain same | later := List.mem_append.1 later
            · exact .inl (List.mem_singleton.1 same)
            · obtain same | ⟨part, there, inside⟩ := ih later
              · exact .inl same
              · exact .inr ⟨part, .tail _ there, inside⟩

/-- An empty first piece, and another one behind it: the separator comes first. -/
theorem head_of_splitOn {α : Type} [DecidableEq α] {sep : α} {s part : List α}
    {rest : List (List α)} (h : s.splitOn sep = [] :: part :: rest) : s.head? = some sep := by
  have whole : [sep].intercalate (s.splitOn sep) = s := List.intercalate_splitOn _
  rw [← whole, h, List.intercalate_cons_cons]
  rfl

open String

theorem atEnd_ofList {l : List Char} {i : Nat} :
    Pos.Raw.atEnd (.ofList l) ⟨i⟩ = true ↔ utf8Len l ≤ i := by
  rw [atEnd_iff, rawEndPos_ofList, Pos.Raw.mk_le_mk]

/-- What `splitOn` still has to say, with the piece it is in and the rest of the text. -/
theorem splitOnAux_char (c : Char) (l m r : List Char) (acc : List String) :
    String.splitOnAux (.ofList (l ++ m ++ r)) (.ofList [c]) ⟨utf8Len l⟩
        ⟨utf8Len l + utf8Len m⟩ 0 acc =
      acc.reverse ++ (List.splitOnPPrepend (· == c) r m.reverse).map .ofList := by
  induction r generalizing l m acc with
  | nil =>
      have done : utf8Len (l ++ m ++ []) ≤ utf8Len l + utf8Len m := by simp [utf8Len_append]
      rw [String.splitOnAux, if_pos (atEnd_ofList.2 done), extract_of_valid l m []]
      simp
  | cons d r ih =>
      have more : ¬ utf8Len (l ++ m ++ d :: r) ≤ utf8Len l + utf8Len m := by
        rw [utf8Len_append, utf8Len_append, utf8Len_cons]
        have positive := d.utf8Size_pos
        omega
      have get := get_of_valid (l ++ m) (d :: r)
      have next := next_of_valid (l ++ m) d r
      rw [utf8Len_append] at get next
      have sep : Pos.Raw.get (.ofList [c]) 0 = c := get_of_valid [] [c]
      have sepNext : Pos.Raw.next (.ofList [c]) 0 = ⟨c.utf8Size⟩ := by
        simpa using next_of_valid [] c []
      rw [String.splitOnAux, if_neg (mt atEnd_ofList.1 more), get, next, sep, sepNext]
      by_cases same : d = c
      · subst same
        have cut : Pos.Raw.unoffsetBy ⟨utf8Len l + utf8Len m + d.utf8Size⟩ ⟨d.utf8Size⟩ =
            ⟨utf8Len l + utf8Len m⟩ := by
          simp [Pos.Raw.unoffsetBy]
        have later := ih (l ++ m ++ [d]) [] (.ofList m :: acc)
        simp only [utf8Len_append, utf8Len_nil, Nat.add_zero, utf8Len_cons, Nat.zero_add] at later
        have whole : l ++ m ++ d :: r = l ++ m ++ [d] ++ [] ++ r := by simp
        rw [if_pos (by simp), if_pos (atEnd_ofList.2 (by simp)), cut,
          extract_of_valid l m (d :: r), whole, later, List.splitOnPPrepend_cons_eq_if]
        simp
      · have later := ih l (m ++ [d]) acc
        simp only [utf8Len_append, utf8Len_nil, utf8Len_cons, Nat.zero_add] at later
        have whole : l ++ m ++ d :: r = l ++ (m ++ [d]) ++ r := by simp
        have here : Pos.Raw.unoffsetBy ⟨utf8Len l + utf8Len m⟩ 0 = ⟨utf8Len l + utf8Len m⟩ := rfl
        rw [if_neg (by simpa using same), List.splitOnPPrepend_cons_eq_if, here, next, whole,
          Nat.add_assoc, later]
        simp [same]

theorem splitOn_char (c : Char) (s : String) :
    s.splitOn (.ofList [c]) = (s.toList.splitOn c).map .ofList := by
  have aux := splitOnAux_char c [] [] s.toList []
  rw [String.splitOn, if_neg (by simp), List.splitOn_eq_splitOnP]
  simpa using aux

end Hx.Library
