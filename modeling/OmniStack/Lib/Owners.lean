import Mathlib.Logic.Function.Basic

/-! Owners of the marked elements of a pool.

Each owner has at most one element, an element is marked exactly when somebody has it, and
nobody shares one. Giving a free element to an owner that has none keeps this
(`Owners.give`). -/
namespace Lib
variable {C I : Type}

/-- What is marked and who has it. -/
structure Owners (marked : I → Prop) (held : C → Option I) : Prop where
  marked_iff : ∀ i, marked i ↔ ∃ c, held c = some i
  unique : ∀ c c' i, held c = some i → held c' = some i → c = c'

namespace Owners
variable {marked marked' : I → Prop} {held : C → Option I}

theorem empty (h : ∀ i, ¬ marked i) : Owners marked (fun _ : C => none) where
  marked_iff := fun i => ⟨fun hi => absurd hi (h i), fun ⟨_, hc⟩ => (by cases hc)⟩
  unique := fun _ _ _ hc => (by cases hc)

theorem congr (h : Owners marked held) (hmarked : ∀ i, marked' i ↔ marked i) :
    Owners marked' held :=
  ⟨fun i => (hmarked i).trans (h.marked_iff i), h.unique⟩

variable [DecidableEq C]

theorem give (h : Owners marked held) {c : C} {i : I} (hc : held c = none) (hfree : ¬ marked i)
    (hmarked : ∀ x, marked' x ↔ x = i ∨ marked x) :
    Owners marked' (Function.update held c (some i)) := by
  have hnone (c' : C) : held c' ≠ some i := fun hc' => hfree ((h.marked_iff i).mpr ⟨c', hc'⟩)
  have hself : Function.update held c (some i) c = some i := Function.update_self ..
  have hother (c' : C) (hne : c' ≠ c) : Function.update held c (some i) c' = held c' :=
    Function.update_of_ne hne ..
  constructor
  · intro x
    rw [hmarked, h.marked_iff]
    constructor
    · intro h
      rcases h with rfl | ⟨c', hc'⟩
      · exact ⟨c, hself⟩
      · have hne : c' ≠ c := by
          intro heq
          obtain rfl := heq
          rw [hc] at hc'
          cases hc'
        exact ⟨c', (hother c' hne).trans hc'⟩
    · intro h
      obtain ⟨c', hc'⟩ := h
      by_cases hne : c' = c
      · rw [hne, hself] at hc'
        exact .inl (Option.some.inj hc').symm
      · exact .inr ⟨c', (hother c' hne).symm.trans hc'⟩
  · intro c₁ c₂ x h₁ h₂
    by_cases hne₁ : c₁ = c
    · by_cases hne₂ : c₂ = c
      · rw [hne₁, hne₂]
      · rw [hne₁, hself] at h₁
        obtain rfl := Option.some.inj h₁
        rw [hother c₂ hne₂] at h₂
        exact absurd h₂ (hnone c₂)
    · rw [hother c₁ hne₁] at h₁
      by_cases hne₂ : c₂ = c
      · rw [hne₂, hself] at h₂
        obtain rfl := Option.some.inj h₂
        exact absurd h₁ (hnone c₁)
      · rw [hother c₂ hne₂] at h₂
        exact h.unique c₁ c₂ x h₁ h₂

end Owners
end Lib
