import Mathlib.Data.List.Perm.Basic

/-!
# Tokens and their custody

Every token that has entered is held in exactly one place, once. A step that passes tokens
on names the place that loses them and the place that gains them and says nothing of the
others, so it keeps custody whatever else it does.
-/

namespace Hx.Library

universe u v

variable {P : Type u} {T : Type v}

/-- The tokens of `entered` are in custody at the places, by what each place contains. -/
structure Custody (contents : P → List T) (entered : T → Prop) : Prop where
  once : ∀ p, (contents p).Nodup
  apart : ∀ p q t, t ∈ contents p → t ∈ contents q → p = q
  kept : ∀ t, entered t ↔ ∃ p, t ∈ contents p

namespace Custody

variable {contents after : P → List T} {entered : T → Prop} {p q : P}

/-- A token that has entered is in one place and no other. -/
theorem existsUnique (h : Custody contents entered) {t : T} (held : entered t) :
    ∃! p, t ∈ contents p := by
  obtain ⟨p, here⟩ := (h.kept t).1 held
  exact ⟨p, here, fun q there => h.apart q p t there here⟩

theorem empty (none_ : ∀ p, contents p = []) : Custody contents fun _ => False where
  once p := none_ p ▸ List.nodup_nil
  apart p _ _ here := absurd (none_ p ▸ here) List.not_mem_nil
  kept _ := ⟨False.elim, fun ⟨p, here⟩ => absurd (none_ p ▸ here) List.not_mem_nil⟩

/-- A place may hold its tokens in another order. -/
theorem perm (h : Custody contents entered) (same : ∀ p, (after p).Perm (contents p)) :
    Custody after entered where
  once p := (same p).nodup_iff.2 (h.once p)
  apart p q t here there := h.apart p q t ((same p).mem_iff.1 here) ((same q).mem_iff.1 there)
  kept t := (h.kept t).trans ⟨fun ⟨p, here⟩ => ⟨p, (same p).mem_iff.2 here⟩,
    fun ⟨p, here⟩ => ⟨p, (same p).mem_iff.1 here⟩⟩

/-- A new token enters at `p`. -/
theorem enter (h : Custody contents entered) {t : T} (fresh : ¬ entered t)
    (here : (after p).Perm (t :: contents p)) (others : ∀ s, s ≠ p → after s = contents s) :
    Custody after fun u => u = t ∨ entered u := by
  have nowhere : ∀ s, t ∉ contents s := fun s mem => fresh ((h.kept t).2 ⟨s, mem⟩)
  have cases_ : ∀ s u, u ∈ after s ↔ (s = p ∧ u = t) ∨ u ∈ contents s := by
    intro s u
    by_cases at_ : s = p
    · rw [at_, here.mem_iff, List.mem_cons]
      simp
    · rw [others s at_]
      simp [at_]
  refine ⟨?_, ?_, ?_⟩
  · intro s
    by_cases at_ : s = p
    · rw [at_, here.nodup_iff]
      exact List.nodup_cons.2 ⟨nowhere p, h.once p⟩
    · rw [others s at_]
      exact h.once s
  · intro s r u first second
    obtain ⟨rfl, rfl⟩ | old := (cases_ s u).1 first
    · obtain ⟨rfl, -⟩ | other := (cases_ r u).1 second
      · rfl
      · exact absurd other (nowhere r)
    · obtain ⟨-, rfl⟩ | other := (cases_ r u).1 second
      · exact absurd old (nowhere s)
      · exact h.apart s r u old other
  · intro u
    constructor
    · rintro (rfl | held)
      · exact ⟨p, (cases_ p u).2 (.inl ⟨rfl, rfl⟩)⟩
      · obtain ⟨s, mem⟩ := (h.kept u).1 held
        exact ⟨s, (cases_ s u).2 (.inr mem)⟩
    · rintro ⟨s, mem⟩
      obtain ⟨-, rfl⟩ | old := (cases_ s u).1 mem
      · exact .inl rfl
      · exact .inr ((h.kept u).2 ⟨s, old⟩)

/-- The tokens `moved` pass from `p` to `q`. -/
theorem move (h : Custody contents entered) (apart : p ≠ q) (moved : List T)
    (loses : (contents p).Perm (moved ++ after p)) (gains : (after q).Perm (moved ++ contents q))
    (others : ∀ s, s ≠ p → s ≠ q → after s = contents s) : Custody after entered := by
  have whole : (moved ++ after p).Nodup := loses.nodup_iff.1 (h.once p)
  have here : ∀ t ∈ moved, t ∈ contents p := fun t mem =>
    loses.mem_iff.2 (List.mem_append_left _ mem)
  have cases_ : ∀ s t, t ∈ after s → (s = q ∧ t ∈ moved) ∨ (t ∈ contents s ∧ t ∉ moved) := by
    intro s t mem
    by_cases atp : s = p
    · rw [atp] at mem ⊢
      exact .inr ⟨loses.mem_iff.2 (List.mem_append_right _ mem),
        fun gone => (List.nodup_append.1 whole).2.2 t gone t mem rfl⟩
    · have old : ∀ t, t ∈ contents s → t ∉ moved := fun t mem gone =>
        atp (h.apart s p t mem (here t gone))
      by_cases atq : s = q
      · rw [atq, gains.mem_iff, List.mem_append] at mem
        obtain new | mem := mem
        · exact .inl ⟨atq, new⟩
        · exact .inr ⟨atq ▸ mem, old t (atq ▸ mem)⟩
      · rw [others s atp atq] at mem
        exact .inr ⟨mem, old t mem⟩
  refine ⟨?_, ?_, ?_⟩
  · intro s
    by_cases atp : s = p
    · exact atp ▸ (List.nodup_append.1 whole).2.1
    · by_cases atq : s = q
      · rw [atq, gains.nodup_iff]
        refine List.nodup_append.2 ⟨(List.nodup_append.1 whole).1, h.once q, ?_⟩
        rintro t new _ old rfl
        exact apart (h.apart p q t (here t new) old)
      · rw [others s atp atq]
        exact h.once s
  · intro s r t first second
    obtain ⟨rfl, new⟩ | ⟨old, stays⟩ := cases_ s t first
    · obtain ⟨rfl, -⟩ | ⟨-, stays⟩ := cases_ r t second
      · rfl
      · exact absurd new stays
    · obtain ⟨-, new⟩ | ⟨other, -⟩ := cases_ r t second
      · exact absurd new stays
      · exact h.apart s r t old other
  · intro t
    constructor
    · intro held
      obtain ⟨s, mem⟩ := (h.kept t).1 held
      by_cases gone : t ∈ moved
      · exact ⟨q, gains.mem_iff.2 (List.mem_append_left _ gone)⟩
      · by_cases atp : s = p
        · have stays := loses.mem_iff.1 (atp ▸ mem)
          exact ⟨p, (List.mem_append.1 stays).resolve_left gone⟩
        · by_cases atq : s = q
          · exact ⟨q, gains.mem_iff.2 (List.mem_append_right _ (atq ▸ mem))⟩
          · exact ⟨s, by rwa [others s atp atq]⟩
    · rintro ⟨s, mem⟩
      obtain ⟨-, new⟩ | ⟨old, -⟩ := cases_ s t mem
      · exact (h.kept t).2 ⟨p, here t new⟩
      · exact (h.kept t).2 ⟨s, old⟩

end Custody

end Hx.Library
