import Hx.Policy.Transforms

/-!
# No transform lengthens its input

The reading set is finite because of this: every member is drawn from the strings no
longer than the path.
-/

namespace Hx.Policy

open Hx.Java

variable {U : CaseMap}

theorem length_decodeOnce_le (separatorsInert : Bool) (s : JString) :
    (decodeOnce separatorsInert s).length ≤ s.length := by
  induction s using decodeOnce.induct separatorsInert with
  | case1 c a b rest decoded found ih =>
      simp only [decodeOnce, found, List.length_cons]
      omega
  | case2 c a b rest missing ih =>
      simp only [decodeOnce, missing, List.length_cons] at ih ⊢
      omega
  | case3 short other =>
      rw [decodeOnce]
      exact other

/-- A round that keeps the length decoded nothing. -/
theorem decodeOnce_eq_of_length {separatorsInert : Bool} {s : JString}
    (kept : s.length ≤ (decodeOnce separatorsInert s).length) :
    decodeOnce separatorsInert s = s := by
  induction s using decodeOnce.induct separatorsInert with
  | case1 c a b rest decoded found ih =>
      have shorter := length_decodeOnce_le separatorsInert rest
      simp only [decodeOnce, found, List.length_cons] at kept
      omega
  | case2 c a b rest missing ih =>
      simp only [decodeOnce, missing, List.length_cons] at kept ih ⊢
      rw [ih (by omega)]
  | case3 short other =>
      rw [decodeOnce]
      exact other

theorem length_rounds_le {once : JString → JString} (h : ∀ s, (once s).length ≤ s.length)
    (n : Nat) (s : JString) : (rounds once n s).length ≤ s.length := by
  induction n generalizing s with
  | zero => exact Nat.le_refl _
  | succ n ih =>
      unfold rounds
      split
      · exact Nat.le_refl _
      · exact Nat.le_trans (ih _) (h s)

theorem length_decodeToFixedPoint_le (s : JString) :
    (decodeToFixedPoint s).length ≤ s.length :=
  length_rounds_le (length_decodeOnce_le false) _ s

/-- What decodes to itself is left alone by every round. -/
theorem decodeOnce_of_fixed {s : JString} (fixed : decodeToFixedPoint s = s) :
    decodeOnce false s = s := by
  by_contra changes
  have rest : rounds (decodeOnce false) 15 (decodeOnce false s) = s := by
    have first : decodeToFixedPoint s = rounds (decodeOnce false) 15 (decodeOnce false s) :=
      if_neg changes
    rw [← first, fixed]
  have fewer := length_rounds_le (length_decodeOnce_le false) 15 (decodeOnce false s)
  rw [rest] at fewer
  exact changes (decodeOnce_eq_of_length fewer)

theorem length_decodeSeparatorsInert_le (s : JString) :
    (decodeSeparatorsInert s).length ≤ s.length :=
  length_rounds_le (length_decodeOnce_le true) _ s

theorem length_foldUtf8From_le (skip : Nat) (s : JString) :
    (foldUtf8From skip s).length ≤ s.length := by
  induction s generalizing skip with
  | nil => cases skip <;> simp [foldUtf8From]
  | cons c rest ih =>
      cases skip with
      | succ skip =>
          have shorter := ih skip
          simp only [foldUtf8From, List.length_cons]
          omega
      | zero =>
          unfold foldUtf8From
          split
          · rename_i folded extra _
            have shorter := ih extra
            simp only [List.length_cons]
            omega
          · have shorter := ih 0
            simp only [List.length_cons]
            omega

theorem length_foldOverlongUtf8_le (s : JString) : (foldOverlongUtf8 s).length ≤ s.length :=
  length_foldUtf8From_le 0 s

theorem length_stripFrom_le (dropping : Bool) (s : JString) :
    (stripFrom dropping s).length ≤ s.length := by
  induction s generalizing dropping with
  | nil => simp [stripFrom]
  | cons c rest ih =>
      have kept := ih false
      have dropped := ih true
      unfold stripFrom
      split
      · simp only [List.length_cons]
        omega
      · split <;> simp only [List.length_cons] <;> omega

theorem length_collapseFrom_le (prevSlash : Bool) (s : JString) :
    (collapseFrom prevSlash s).length ≤ s.length := by
  induction s generalizing prevSlash with
  | nil => simp [collapseFrom]
  | cons c rest ih =>
      have dropped := ih prevSlash
      have kept := ih (c == slash)
      unfold collapseFrom
      split <;> simp only [List.length_cons] <;> omega

/-! ## Segments

A list of parts weighs one more than its join: each part counts with one slash. -/

def weight : List JString → Nat
  | [] => 0
  | part :: parts => part.length + 1 + weight parts

@[simp] theorem weight_nil : weight [] = 0 := rfl

@[simp] theorem weight_cons (part : JString) (parts : List JString) :
    weight (part :: parts) = part.length + 1 + weight parts := rfl

@[simp] theorem weight_append (parts more : List JString) :
    weight (parts ++ more) = weight parts + weight more := by
  induction parts with
  | nil => simp
  | cons part parts ih =>
      rw [List.cons_append, weight_cons, weight_cons, ih]
      exact (Nat.add_assoc _ _ _).symm

theorem length_joined {parts : List JString} (nonempty : parts ≠ []) :
    (joined parts).length + 1 = weight parts := by
  induction parts with
  | nil => exact absurd rfl nonempty
  | cons part parts ih =>
      cases parts with
      | nil => simp [joined, List.intercalate]
      | cons next parts =>
          have rest := ih (by simp)
          simp only [joined, List.intercalate, List.intersperse_cons_cons, List.flatten_cons,
            List.length_append, List.length_singleton, weight_cons] at rest ⊢
          omega

theorem joined_segments (path : JString) : joined (segments path) = path :=
  List.intercalate_splitOn slash

theorem segments_ne_nil (path : JString) : segments path ≠ [] := List.splitOn_ne_nil _ _

theorem weight_segments (path : JString) : weight (segments path) = path.length + 1 := by
  rw [← length_joined (segments_ne_nil path), joined_segments]

theorem length_rdropWhile_le (p : JChar → Bool) (s : JString) :
    (s.rdropWhile p).length ≤ s.length :=
  (List.rdropWhile_prefix p s).length_le

theorem length_trimSegmentTail_le (segment : JString) :
    (trimSegmentTail segment).length ≤ segment.length := by
  have cut := length_rdropWhile_le isBlankTail segment
  simp only [trimSegmentTail]
  split
  · exact cut
  · exact Nat.le_trans (length_rdropWhile_le _ _) cut

theorem length_trimSegmentTails_le (path : JString) :
    (trimSegmentTails path).length ≤ path.length := by
  have lighter : ∀ parts : List JString, weight (parts.map trimSegmentTail) ≤ weight parts := by
    intro parts
    induction parts with
    | nil => simp
    | cons part parts ih =>
        have shorter := length_trimSegmentTail_le part
        simp only [List.map_cons, weight_cons]
        omega
  have whole := lighter (segments path)
  have length : (trimSegmentTails path).length + 1 = weight ((segments path).map trimSegmentTail) :=
    length_joined (by simp [segments_ne_nil])
  rw [weight_segments] at whole
  omega

theorem weight_dropLast_le (parts : List JString) : weight parts.dropLast ≤ weight parts := by
  induction parts with
  | nil => simp
  | cons part parts ih =>
      cases parts with
      | nil => simp
      | cons next parts =>
          simp only [List.dropLast_cons_cons, weight_cons] at ih ⊢
          omega

/-- A trailing slash stands for a dot segment that was dropped. -/
theorem weight_resolveDots_le (kept parts : List JString) :
    weight (resolveDots kept parts).1 + (if (resolveDots kept parts).2 then 2 else 0) ≤
      weight kept + weight parts := by
  induction kept, parts using resolveDots.induct with
  | case1 kept => simp [resolveDots]
  | case2 kept => simp [resolveDots]
  | case3 kept rest nonempty ih =>
      simp only [resolveDots, if_true, nonempty, if_false, weight_cons] at ih ⊢
      omega
  | case4 kept other =>
      have lighter := weight_dropLast_le kept
      simp [resolveDots]
      omega
  | case5 kept rest other nonempty ih =>
      have lighter := weight_dropLast_le kept
      simp only [resolveDots, other, if_true, nonempty, if_false, weight_cons] at ih ⊢
      omega
  | case6 kept segment rest notDot notDots ih =>
      simp only [resolveDots, notDot, notDots, if_false, weight_cons, weight_append, weight_nil]
        at ih ⊢
      omega

theorem weight_drop_one_lt {parts : List JString} (nonempty : parts ≠ []) :
    weight (parts.drop 1) < weight parts := by
  cases parts with
  | nil => exact absurd rfl nonempty
  | cons part parts =>
      simp only [List.drop_one, List.tail_cons, weight_cons]
      omega

theorem length_joined_le (parts : List JString) : (joined parts).length ≤ weight parts - 1 := by
  cases parts with
  | nil => simp [joined, List.intercalate]
  | cons part parts =>
      have length : (joined (part :: parts)).length + 1 = weight (part :: parts) :=
        length_joined (by simp)
      omega

/-- What the kept segments are rejoined to, behind a relative or an absolute front. -/
theorem length_rejoined_le (front : List JString) {kept : List JString} {trailing : Bool}
    {n : Nat} (out : JString) (at' : out = front.flatten ++ joined kept)
    (room : front = [] ∧ weight kept + (if trailing then 2 else 0) ≤ n + 1 ∨
      front = [[slash]] ∧ 1 ≤ n ∧ weight kept + (if trailing then 2 else 0) ≤ n) :
    (if trailing && out.getLast? != some slash then out ++ [slash] else out).length ≤ n := by
  have length := length_joined_le kept
  obtain ⟨rfl, weights⟩ | ⟨rfl, nonempty, weights⟩ := room
  · have short : out.length ≤ weight kept - 1 := by simpa [at'] using length
    split
    · rename_i added
      rw [if_pos (Bool.and_eq_true_iff.1 added).1] at weights
      simp only [List.length_append, List.length_singleton]
      omega
    · omega
  · have short : out.length ≤ weight kept - 1 + 1 := by
      simpa [at', Nat.add_comm] using length
    split
    · rename_i added
      obtain ⟨on, unclosed⟩ := Bool.and_eq_true_iff.1 added
      rw [if_pos on] at weights
      -- Nothing kept leaves the one slash of the front, which needs no other.
      have parts : 0 < weight kept := by
        cases kept with
        | nil => simp [at', joined, List.intercalate] at unclosed
        | cons part parts => simp only [weight_cons]; omega
      simp only [List.length_append, List.length_singleton]
      omega
    · omega

theorem length_collapseDotSegments_le (path : JString) :
    (collapseDotSegments path).length ≤ path.length := by
  unfold collapseDotSegments
  split
  · exact Nat.le_refl _
  · have whole := weight_segments path
    cases absolute : path.head? == some slash with
    | false =>
        have lighter := weight_resolveDots_le [] (segments path)
        refine length_rejoined_le [] _ rfl (.inl ⟨rfl, ?_⟩)
        simp only [weight_nil] at lighter
        simp only [Bool.false_eq_true, if_false, List.drop_zero]
        omega
    | true =>
        have lighter := weight_resolveDots_le [] ((segments path).drop 1)
        have fewer := weight_drop_one_lt (segments_ne_nil path)
        have nonempty : 1 ≤ path.length := by
          cases path with
          | nil => simp at absolute
          | cons c path => simp
        refine length_rejoined_le [[slash]] _ rfl (.inr ⟨rfl, nonempty, ?_⟩)
        simp only [weight_nil] at lighter
        simp only [if_true]
        omega

/-! ## Every transform -/

theorem Transform.length_apply_le (t : Transform) (s : JString) :
    (t.apply U s).length ≤ s.length := by
  cases t with
  | decodeToFixedPoint => exact length_decodeToFixedPoint_le s
  | decodeSeparatorsInert => exact length_decodeSeparatorsInert_le s
  | foldOverlongUtf8 => exact length_foldOverlongUtf8_le s
  | foldBestFit => exact Nat.le_of_eq (length_foldBestFit s)
  | truncateAtNul => exact (List.takeWhile_prefix _).length_le
  | foldBackslashes => exact Nat.le_of_eq (List.length_map _)
  | stripPathParameters => exact length_stripFrom_le false s
  | trimSegmentTails => exact length_trimSegmentTails_le s
  | collapseEmptySegments => exact length_collapseFrom_le false s
  | collapseDotSegments => exact length_collapseDotSegments_le s
  | lower => exact length_lower_le s

theorem length_applyAll_le (ts : List Transform) (s : JString) :
    (applyAll U ts s).length ≤ s.length := by
  induction ts generalizing s with
  | nil => exact Nat.le_refl _
  | cons t ts ih => exact Nat.le_trans (ih _) (t.length_apply_le s)

end Hx.Policy
