import OmniStack.Lib.Run
import Mathlib.Data.List.Basic

/-! Stacks of pending work.

A `Move` takes items off the top of a stack and puts others in their place. Laws
that hold of any run of moves, whatever decides them:

- nothing is lost or made up: what was there and what was pushed is what was
  popped and what is left (`run_perm`);
- a bound on how high an item may lie bounds the whole stack (`heights_length`);
- what lies above an item is done, with all that comes of it, before the item is
  (`run_through`). -/
namespace Lib

/-- Items leave the top of the stack, others take their place. -/
structure Move (τ : Type) where
  popped : List τ
  pushed : List τ

namespace Move
variable {τ : Type}

/-- Stacks are written bottom first. -/
def Step (s : List τ) (m : Move τ) (t : List τ) : Prop :=
  ∃ rest, s = rest ++ m.popped ∧ t = rest ++ m.pushed

/-- The move with every item seen through `f`. -/
def map {τ' : Type} (f : τ → τ') (m : Move τ) : Move τ' := ⟨m.popped.map f, m.pushed.map f⟩

theorem step_map {τ' : Type} (f : τ → τ') {s t : List τ} {m : Move τ} (h : Step s m t) :
    Step (s.map f) (m.map f) (t.map f) := by
  obtain ⟨rest, rfl, rfl⟩ := h
  exact ⟨rest.map f, List.map_append, List.map_append⟩

/-! ### Conservation -/

theorem step_perm {s t : List τ} {m : Move τ} (h : Step s m t) :
    (s ++ m.pushed).Perm (m.popped ++ t) := by
  obtain ⟨rest, rfl, rfl⟩ := h
  rw [List.append_assoc, ← List.append_assoc m.popped]
  refine List.perm_append_comm.trans ?_
  rw [List.append_assoc m.popped, List.append_assoc]
  exact List.Perm.append_left _ List.perm_append_comm

/-- **What was there and what was pushed is what was popped and what is left.** -/
theorem run_perm {s t : List τ} {ms : List (Move τ)} (h : Run Step s ms t) :
    (s ++ ms.flatMap pushed).Perm (ms.flatMap popped ++ t) := by
  induction h with
  | nil s => simp
  | @cons s u t m ms hstep _ ih =>
    simp only [List.flatMap_cons]
    calc (s ++ (m.pushed ++ ms.flatMap pushed)).Perm (m.popped ++ u ++ ms.flatMap pushed) := by
          rw [← List.append_assoc]
          exact (step_perm hstep).append_right _
      _ = m.popped ++ (u ++ ms.flatMap pushed) := List.append_assoc ..
      List.Perm _ (m.popped ++ (ms.flatMap popped ++ t)) := List.Perm.append_left _ ih
      _ = m.popped ++ ms.flatMap popped ++ t := (List.append_assoc ..).symm

/-! ### Heights -/

/-- Every item of the stack satisfies `P` at its height, counted from one. -/
def Heights (P : Nat → τ → Prop) (s : List τ) : Prop := ∀ i a, s[i]? = some a → P (i + 1) a

theorem heights_nil (P : Nat → τ → Prop) : Heights P [] := by
  intro i a h
  simp at h

theorem heights_append {P : Nat → τ → Prop} {s l : List τ} :
    Heights P (s ++ l) ↔ Heights P s ∧ Heights (fun h => P (s.length + h)) l := by
  constructor
  · intro h
    refine ⟨fun i a hi => ?_, fun i a hi => ?_⟩
    · apply h i a
      rw [List.getElem?_append_left (List.getElem?_eq_some_iff.mp hi).1]
      exact hi
    · apply h (s.length + i) a
      rw [List.getElem?_append_right (Nat.le_add_right ..), Nat.add_sub_cancel_left]
      exact hi
  · rintro ⟨hs, hl⟩ i a hi
    by_cases hlt : i < s.length
    · rw [List.getElem?_append_left hlt] at hi
      exact hs i a hi
    · rw [List.getElem?_append_right (by omega)] at hi
      have hP : P (s.length + (i - s.length + 1)) a := hl _ _ hi
      rwa [show s.length + (i - s.length + 1) = i + 1 by omega] at hP

/-- The height of the stack itself, from a bound on its items. -/
theorem heights_length {P : Nat → τ → Prop} {s : List τ} {size : Nat} (h : Heights P s)
    (hP : ∀ n a, P n a → n ≤ size) : s.length ≤ size := by
  cases hs : s.length with
  | zero => omega
  | succ n =>
    have hn : n < s.length := by omega
    exact hP _ _ (h n s[n] (List.getElem?_eq_getElem hn))

/-! ### Depth first -/

section Through
variable {S L : Type} {step : S → L → S → Prop}

/-- A move that takes one item at most off a stack with something above `base` leaves
`base` alone. -/
theorem step_above {base above t : List τ} {m : Move τ} (hone : m.popped.length ≤ 1)
    (hne : above ≠ []) (h : Step (base ++ above) m t) :
    ∃ above', t = base ++ above' ∧ Step above m above' := by
  obtain ⟨rest, hs, rfl⟩ := h
  have hlength := congrArg List.length hs
  simp only [List.length_append] at hlength
  have hpos := List.length_pos_iff.mpr hne
  obtain ⟨mid, rfl, rfl⟩ | ⟨mid, rfl, hmid⟩ := List.append_eq_append_iff.mp hs
  · exact ⟨mid ++ m.pushed, by rw [List.append_assoc], mid, rfl, rfl⟩
  · have hnil : mid = [] := by
      rw [hmid, List.length_append] at hone
      exact List.length_eq_zero_iff.mp (by omega)
    subst hnil
    exact ⟨m.pushed, by rw [List.append_nil], [], by simpa using hmid.symm, rfl⟩

/-- **What lies above is done first.** A run that comes down to `base` has, at some point,
done exactly the work above it; until then the stack is higher than `base`. -/
theorem run_through (stack : S → List τ) (move : L → Move τ)
    (hmove : ∀ s l t, step s l t → Step (stack s) (move l) (stack t))
    (hone : ∀ l, (move l).popped.length ≤ 1) {s t : S} {ls : List L} (h : Run step s ls t)
    {base above : List τ} (hs : stack s = base ++ above) (ht : (stack t).length ≤ base.length) :
    ∃ ls₁ ls₂ u, ls = ls₁ ++ ls₂ ∧
      Run (fun s l t => step s l t ∧ base.length < (stack s).length) s ls₁ u ∧
      Run step u ls₂ t ∧ stack u = base ∧ Run Step above (ls₁.map move) [] := by
  induction h generalizing above with
  | nil s =>
    have hnil : above = [] := by
      rw [hs, List.length_append] at ht
      exact List.length_eq_zero_iff.mp (by omega)
    subst hnil
    exact ⟨[], [], s, rfl, .nil s, .nil s, by rw [hs, List.append_nil], .nil []⟩
  | @cons s v t l ls hst hrest ih =>
    by_cases hne : above = []
    · subst hne
      exact ⟨[], l :: ls, s, rfl, .nil s, .cons hst hrest, by rw [hs, List.append_nil], .nil []⟩
    · obtain ⟨above', hv, habove⟩ := step_above (hone l) hne (hs ▸ hmove s l v hst)
      obtain ⟨ls₁, ls₂, u, rfl, hbefore, hafter, hu, hdone⟩ := ih hv ht
      have hhigh : base.length < (stack s).length := by
        rw [hs, List.length_append]
        have := List.length_pos_iff.mpr hne
        omega
      exact ⟨l :: ls₁, ls₂, u, rfl, .cons ⟨hst, hhigh⟩ hbefore, hafter, hu, .cons habove hdone⟩

end Through

end Move
end Lib
