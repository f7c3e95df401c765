import Mathlib.Data.Nat.Bitwise

/-! Runs of bits at either end of a number, and bits counted through a row of octets. -/
namespace Lib
namespace Bits

/-- The `r` least significant bits. -/
theorem low_eq_iff {x y r : Nat} :
    x % 2 ^ r = y % 2 ^ r ↔ ∀ k < r, x.testBit k = y.testBit k := by
  constructor
  · intro h k hk
    have hbit := congrArg (fun n => n.testBit k) h
    simpa [Nat.testBit_mod_two_pow, hk] using hbit
  · intro h
    apply Nat.eq_of_testBit_eq
    intro k
    rw [Nat.testBit_mod_two_pow, Nat.testBit_mod_two_pow]
    by_cases hk : k < r
    · rw [h k hk]
    · simp [hk]

/-- The `r` most significant of `n` bits, the first of them bit `n - 1`. -/
theorem high_eq_iff {x y n r : Nat} (hx : x < 2 ^ n) (hy : y < 2 ^ n) (hr : r ≤ n) :
    x / 2 ^ (n - r) = y / 2 ^ (n - r) ↔
      ∀ k < r, x.testBit (n - 1 - k) = y.testBit (n - 1 - k) := by
  constructor
  · intro h k hk
    have hbit := congrArg (fun m => m.testBit (r - 1 - k)) h
    rw [Nat.testBit_div_two_pow, Nat.testBit_div_two_pow] at hbit
    rwa [show n - 1 - k = r - 1 - k + (n - r) by omega]
  · intro h
    apply Nat.eq_of_testBit_eq
    intro k
    rw [Nat.testBit_div_two_pow, Nat.testBit_div_two_pow]
    by_cases hk : k < r
    · have hbit := h (r - 1 - k) (by omega)
      rwa [show n - 1 - (r - 1 - k) = k + (n - r) by omega] at hbit
    · have hbeyond : 2 ^ n ≤ 2 ^ (k + (n - r)) := Nat.pow_le_pow_right (by omega) (by omega)
      rw [Nat.testBit_lt_two_pow (by omega), Nat.testBit_lt_two_pow (by omega)]

theorem eq_iff {x y n : Nat} (hx : x < 2 ^ n) (hy : y < 2 ^ n) :
    x = y ↔ ∀ k < n, x.testBit k = y.testBit k := by
  rw [← low_eq_iff, Nat.mod_eq_of_lt hx, Nat.mod_eq_of_lt hy]

/-- The bits below `8 * q + r` are those of `q` whole octets and `r` of the next. -/
theorem forall_octets {P : Nat → Nat → Prop} {n : Nat} :
    (∀ j < n, P (j / 8) (j % 8)) ↔
      (∀ i < n / 8, ∀ k < 8, P i k) ∧ ∀ k < n % 8, P (n / 8) k := by
  constructor
  · intro h
    constructor
    · intro i hi k hk
      have hbit := h (8 * i + k) (by omega)
      rwa [show (8 * i + k) / 8 = i by omega, show (8 * i + k) % 8 = k by omega] at hbit
    · intro k hk
      have hbit := h (8 * (n / 8) + k) (by omega)
      rwa [show (8 * (n / 8) + k) / 8 = n / 8 by omega,
        show (8 * (n / 8) + k) % 8 = k by omega] at hbit
  · intro h j hj
    by_cases hwhole : j / 8 < n / 8
    · exact h.1 (j / 8) hwhole (j % 8) (by omega)
    · have hlast : j / 8 = n / 8 := by omega
      rw [hlast]
      exact h.2 (j % 8) (by omega)

end Bits
end Lib
