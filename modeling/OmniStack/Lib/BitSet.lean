import Mathlib.Data.List.Nodup
import Mathlib.Data.List.Perm.Subperm
import Mathlib.Data.Nat.Bitwise

/-! Sets of small numbers, kept as the bits of a word, and lists they mirror. -/
namespace Lib
namespace BitSet

/-- The mask of one number. -/
theorem testBit_mask (n m : Nat) : (1 <<< n).testBit m = decide (n = m) := by
  rw [Nat.one_shiftLeft, Nat.testBit_two_pow]

/-- A mask meets the word exactly if its bit is set. -/
theorem and_mask_eq_zero {f n : Nat} : f &&& (1 <<< n) = 0 ↔ f.testBit n = false := by
  constructor
  · intro h
    have hbit := congrArg (fun x => x.testBit n) h
    simpa [Nat.testBit_and, testBit_mask] using hbit
  · intro h
    apply Nat.eq_of_testBit_eq
    intro m
    rw [Nat.testBit_and, testBit_mask, Nat.zero_testBit]
    by_cases hm : n = m
    · subst hm
      simp [h]
    · simp [hm]

theorem testBit_insert {f n m : Nat} :
    (f ||| (1 <<< n)).testBit m = true ↔ f.testBit m = true ∨ n = m := by
  rw [Nat.testBit_or, testBit_mask, Bool.or_eq_true, decide_eq_true_eq]

/-- Toggling a bit that is set takes it out. -/
theorem testBit_erase {f n m : Nat} (h : f.testBit n = true) :
    (f ^^^ (1 <<< n)).testBit m = true ↔ f.testBit m = true ∧ n ≠ m := by
  rw [Nat.testBit_xor, testBit_mask]
  by_cases hm : n = m
  · subst hm
    simp [h]
  · simp [hm]

/-- `word` has a bit for each entry of `queue`, and `queue` has each entry once. -/
structure Mirrors (queue : List Nat) (word : Nat) : Prop where
  nodup : queue.Nodup
  bit_iff : ∀ n, word.testBit n = true ↔ n ∈ queue

namespace Mirrors
variable {queue : List Nat} {word : Nat}

theorem nil : Mirrors [] 0 := ⟨List.nodup_nil, fun n => by simp⟩

/-- The mask tells whether a number is in the list. -/
theorem and_mask_eq_zero (h : Mirrors queue word) {n : Nat} :
    word &&& (1 <<< n) = 0 ↔ n ∉ queue := by
  rw [BitSet.and_mask_eq_zero, ← h.bit_iff n, Bool.not_eq_true]

theorem push (h : Mirrors queue word) {n : Nat} (hn : n ∉ queue) :
    Mirrors (queue ++ [n]) (word ||| (1 <<< n)) where
  nodup := by
    rw [List.nodup_append]
    exact ⟨h.nodup, List.nodup_singleton n, fun a ha b hb => by
      rw [List.mem_singleton] at hb
      exact fun hab => hn (hb ▸ hab ▸ ha)⟩
  bit_iff m := by
    rw [testBit_insert, h.bit_iff, List.mem_append, List.mem_singleton, eq_comm (a := n)]

theorem pop {n : Nat} (h : Mirrors (queue ++ [n]) word) :
    Mirrors queue (word ^^^ (1 <<< n)) ∧ n ∉ queue := by
  have hsplit := List.nodup_append.mp h.nodup
  have hn : n ∉ queue := fun hmem => hsplit.2.2 n hmem n (List.mem_singleton_self n) rfl
  refine ⟨⟨hsplit.1, fun m => ?_⟩, hn⟩
  rw [testBit_erase ((h.bit_iff n).mpr (List.mem_append_right _ (List.mem_singleton_self n))),
    h.bit_iff, List.mem_append, List.mem_singleton]
  constructor
  · rintro ⟨hm | hm, hne⟩
    · exact hm
    · exact absurd hm.symm hne
  · exact fun hm => ⟨.inl hm, fun heq => hn (heq ▸ hm)⟩

/-- A list of numbers below `bound` without repeats, and one such number it lacks. -/
theorem length_lt (h : Mirrors queue word) {n bound : Nat} (hlt : ∀ m ∈ queue, m < bound)
    (hn : n < bound) (hnot : n ∉ queue) : queue.length < bound := by
  have hsub : n :: queue ⊆ List.range bound := by
    intro m hm
    rw [List.mem_range]
    cases hm with
    | head => exact hn
    | tail _ hm => exact hlt m hm
  have := (List.subperm_of_subset (List.nodup_cons.mpr ⟨hnot, h.nodup⟩) hsub).length_le
  rwa [List.length_range, List.length_cons] at this

end Mirrors

end BitSet
end Lib
