import Mathlib.Algebra.Order.Floor.Div
import Mathlib.Order.Bounds.Basic

/-!
# Rounding up

`leastMultiple e n` is the least multiple of `e` that is at least `n`, by Mathlib's ceiling
division. `leastMultiple_eq_ite` is the way programs compute it, by the remainder.
-/

namespace Vcuda

/-- The least multiple of `e` from `n` on. -/
def leastMultiple (e n : Nat) : Nat := e * (n ⌈/⌉ e)

variable {e n m : Nat}

theorem isLeast_leastMultiple (he : 0 < e) :
    IsLeast {m | e ∣ m ∧ n ≤ m} (leastMultiple e n) := by
  constructor
  · exact ⟨Nat.dvd_mul_right _ _, le_smul_ceilDiv he⟩
  · rintro m ⟨⟨c, rfl⟩, hle⟩
    exact Nat.mul_le_mul_left e ((ceilDiv_le_iff_le_mul he).mpr hle)

theorem le_leastMultiple (he : 0 < e) : n ≤ leastMultiple e n :=
  (isLeast_leastMultiple he).1.2

/-- A bound on some least multiple is a bound on this one. -/
theorem exists_isLeast_iff (he : 0 < e) {P : Nat → Prop} :
    (∃ m, IsLeast {m | e ∣ m ∧ n ≤ m} m ∧ P m) ↔ P (leastMultiple e n) := by
  constructor
  · rintro ⟨m, hm, hP⟩
    rwa [(isLeast_leastMultiple he).unique hm]
  · intro hP
    exact ⟨_, isLeast_leastMultiple he, hP⟩

/-- Rounding up by the remainder. -/
theorem leastMultiple_eq_ite (he : 0 < e) :
    leastMultiple e n = if n % e = 0 then n else n + e - n % e := by
  apply (isLeast_leastMultiple he).unique
  have hlt := Nat.mod_lt n he
  have hdiv := Nat.mod_add_div n e
  split
  · next hr => exact ⟨⟨Nat.dvd_of_mod_eq_zero hr, le_refl n⟩, fun m hm => hm.2⟩
  · next hr =>
    have heq : n + e - n % e = e * (n / e + 1) := by
      rw [Nat.mul_add_one]
      omega
    rw [heq]
    refine ⟨⟨Nat.dvd_mul_right _ _, ?_⟩, ?_⟩
    · rw [Nat.mul_add_one]
      omega
    · -- a multiple below would be at most the part of `n` that `e` divides
      rintro m ⟨⟨c, rfl⟩, hle⟩
      apply Nat.mul_le_mul_left
      by_contra hc
      have hbelow : e * c ≤ e * (n / e) := Nat.mul_le_mul_left e (by omega)
      omega

end Vcuda
