import Mathlib.Algebra.BigOperators.Group.Finset.Basic
import Mathlib.Data.Fintype.Powerset

/-!
# Admission with amounts under way

Parties `ι` draw on a common limit. An amount is admitted first, is under way for a while, and then
becomes part of the total or is dropped. An `Account` holds the total and what each party has under
way; it is `Covered` when the total stays within the limit whoever of the parties comes through.

Dropping and committing keep an account covered (`covered_abort`, `covered_commit`); admitting does
so exactly when there is room besides everything under way (`covered_reserve_iff`). Nothing is asked
of the amounts but an addition and a relation to the limit.
-/

namespace Vcuda

open Finset

/-- What has been drawn, and what each party has under way. -/
structure Account (ι M : Type) where
  total : M
  pending : ι → M

namespace Account

/-! ## Accounts -/

section Totals

variable {ι M : Type} [AddCommMonoid M] {m : M} {s : Account ι M} {i : ι} {S : Finset ι}

/-- The total, once the parties in `S` have come through. -/
def totalWith (s : Account ι M) (S : Finset ι) : M := s.total + ∑ i ∈ S, s.pending i

theorem totalWith_empty : s.totalWith ∅ = s.total := by
  unfold totalWith
  rw [sum_empty, add_zero]

variable [DecidableEq ι]

/-- The party `i` has `m` under way now. -/
def reserve (s : Account ι M) (i : ι) (m : M) : Account ι M :=
  { s with pending := Function.update s.pending i m }

/-- What `i` had under way is dropped. -/
def abort (s : Account ι M) (i : ι) : Account ι M := s.reserve i 0

/-- It becomes part of the total. -/
def commit (s : Account ι M) (i : ι) : Account ι M :=
  ⟨s.total + s.pending i, Function.update s.pending i 0⟩

omit [AddCommMonoid M] in
theorem reserve_eq_self (hi : s.pending i = m) : s.reserve i m = s := by
  unfold reserve
  rw [← hi, Function.update_eq_self]

/-- A change of what `i` has under way is seen with `i` only. -/
theorem totalWith_reserve_of_notMem (hi : i ∉ S) : (s.reserve i m).totalWith S = s.totalWith S := by
  unfold totalWith
  congr 1
  apply sum_congr rfl
  intro k hk
  have hne : k ≠ i := fun he => hi (he ▸ hk)
  exact Function.update_of_ne hne m s.pending

theorem totalWith_reserve_of_mem (hi : i ∈ S) :
    (s.reserve i m).totalWith S = s.totalWith (S.erase i) + m := by
  have hself : (s.reserve i m).pending i = m := by simp [reserve]
  have hrest : (s.reserve i m).totalWith (S.erase i) = s.totalWith (S.erase i) :=
    totalWith_reserve_of_notMem (notMem_erase i S)
  unfold totalWith at hrest ⊢
  rw [← add_sum_erase S _ hi, hself, add_left_comm, hrest, add_comm]

theorem totalWith_abort : (s.abort i).totalWith S = s.totalWith (S.erase i) := by
  unfold abort
  by_cases hi : i ∈ S
  · rw [totalWith_reserve_of_mem hi, add_zero]
  · rw [totalWith_reserve_of_notMem hi, erase_eq_of_notMem hi]

/-- Committing is coming through. -/
theorem totalWith_commit : (s.commit i).totalWith S = s.totalWith (insert i S) := by
  have hrest : s.total + ∑ k ∈ S, (s.abort i).pending k = s.totalWith (S.erase i) :=
    totalWith_abort
  show s.total + s.pending i + ∑ k ∈ S, (s.abort i).pending k = _
  rw [add_right_comm, hrest]
  unfold totalWith
  rw [← add_sum_erase (insert i S) _ (mem_insert_self i S), erase_insert_eq_erase, add_assoc,
    add_comm (s.pending i)]

end Totals

/-! ## Within the limit -/

variable {ι M : Type} [DecidableEq ι] [AddCommMonoid M] [LE M] {limit m : M} {s : Account ι M}
  {i : ι}

/-- Whoever comes through, the total stays within the limit. -/
def Covered (limit : M) (s : Account ι M) : Prop := ∀ S, s.totalWith S ≤ limit

/-- There is room for `m` from `i` besides all that the others have under way. -/
def Room (limit : M) (s : Account ι M) (i : ι) (m : M) : Prop :=
  ∀ S, i ∉ S → s.totalWith S + m ≤ limit

instance [Fintype ι] [DecidableLE M] : Decidable (Room limit s i m) :=
  inferInstanceAs (Decidable (∀ S, i ∉ S → s.totalWith S + m ≤ limit))

omit [DecidableEq ι] in
theorem Covered.total_le (h : Covered limit s) : s.total ≤ limit := by
  have hnone := h ∅
  rwa [totalWith_empty] at hnone

theorem covered_abort (h : Covered limit s) : Covered limit (s.abort i) := by
  intro S
  rw [totalWith_abort]
  exact h (S.erase i)

theorem covered_commit (h : Covered limit s) : Covered limit (s.commit i) := by
  intro S
  rw [totalWith_commit]
  exact h (insert i S)

/-- **Admitting keeps an account covered exactly when there is room.** -/
theorem covered_reserve_iff (h : Covered limit s) :
    Covered limit (s.reserve i m) ↔ Room limit s i m := by
  constructor
  · intro hcov S hi
    have hwith := hcov (insert i S)
    rwa [totalWith_reserve_of_mem (mem_insert_self i S), erase_insert hi] at hwith
  · intro hroom S
    by_cases hi : i ∈ S
    · rw [totalWith_reserve_of_mem hi]
      exact hroom _ (notMem_erase i S)
    · rw [totalWith_reserve_of_notMem hi]
      exact h S

end Account

end Vcuda
