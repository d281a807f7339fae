import Vcuda.Hijack.Calls
import Vcuda.Common.Run
import Mathlib.Algebra.Order.Ring.Nat

/-!
# The quota

Here the ledger is exact: `Books` lists the allocations not yet freed, `get_gmem_used` returns the
sum of their charges in 64 bits. The check of the allocators then keeps the sum below the limit
(`quota_iff_staysWithin`), with two exceptions: `cuMemAllocPitch` checks the request alone, and
everywhere else `used + request_size` may wrap around.
-/

namespace Vcuda.Hijack

open Traced

/-- The handle and the charge of every allocation not yet freed. -/
abbrev Books := List (Handle × UInt64)

/-- The sum of the charges. -/
def total (b : Books) : Nat := (b.map fun a => a.2.toNat).sum

/-- An exact ledger. -/
def exactLedger : Ledger Books where
  getGmemUsed := read fun b => UInt64.ofNat (total b)
  addGmem mem dptr bytes := update ((mem dptr, bytes) :: ·)
  addGmemCuarr mem da bytes := update ((mem da, bytes) :: ·)
  addGmemCumarr mem da bytes := update ((mem da, bytes) :: ·)
  freeGmem _ dptr := update (·.eraseP fun a => a.1 == dptr)

/-- A call, made with the limit in force, leads from `b` to `b'`. -/
def QuotaStep (limit : UInt64) (b : Books) (call : Context × ApiCall) (b' : Books) : Prop :=
  call.1.limit = limit ∧ ∃ ret, Returns (hijacked exactLedger call.1 call.2) b ret b'

/-- What a call that would be granted by the driver has to satisfy. For `cuMemAllocPitch` it is what
the others check; for the others, that their check does not wrap around, or rejects all the same. -/
def StaysWithin (limit : UInt64) (b : Books) (call : Context × ApiCall) : Prop :=
  ∀ p n, request call.2 = some (p, n) → call.1.reply.result = .CUDA_SUCCESS →
    if ignoresUsed call.2 then n > limit ∨ total b + n.toNat ≤ limit.toNat
    else total b + n.toNat < 2 ^ 64 ∨ UInt64.ofNat (total b) + n > limit

variable {limit : UInt64} {b b' : Books} {call : Context × ApiCall} {c : ApiCall} {p : Ptr}
  {n used : UInt64} {h : Handle}

@[simp] theorem total_nil : total [] = 0 := rfl

@[simp] theorem total_cons (a : Handle × UInt64) (b : Books) :
    total (a :: b) = a.2.toNat + total b := by
  simp [total]

/-- Freeing gives back. -/
theorem total_eraseP_le (q : Handle × UInt64 → Bool) (b : Books) :
    total (b.eraseP q) ≤ total b := by
  induction b with
  | nil => simp
  | cons a b ih =>
      cases hq : q a
      · simpa [hq] using ih
      · simp [hq]

/-- The sum that the check makes. -/
theorem toNat_used_add : (UInt64.ofNat (total b) + n).toNat = (total b + n.toNat) % 2 ^ 64 := by
  rw [UInt64.toNat_add, UInt64.toNat_ofNat', Nat.mod_add_mod]

theorem usedBy_exactLedger (hr : Returns (usedBy exactLedger c) b used b') :
    b' = b ∧ used = if ignoresUsed c then 0 else UInt64.ofNat (total b) := by
  obtain ⟨tr, hr⟩ := hr
  unfold usedBy at hr
  split at hr
  · next hpitch =>
    obtain ⟨rfl, rfl, _⟩ := runs_pure.mp hr
    rw [if_pos hpitch]
    exact ⟨rfl, rfl⟩
  · next hother =>
    obtain ⟨rfl, rfl, _⟩ := runs_read.mp hr
    rw [if_neg hother]
    exact ⟨rfl, rfl⟩

theorem recordBy_exactLedger {mem : HostMem}
    (hr : Returns (recordBy exactLedger c mem p n) b () b') : b' = (mem p, n) :: b := by
  obtain ⟨tr, hr⟩ := hr
  cases c <;> exact (runs_update.mp hr).1

/-- A granted allocation keeps the quota exactly when the condition holds. -/
theorem grant_iff (hpass : ¬ used + n > limit)
    (hused : used = if ignoresUsed c then 0 else UInt64.ofNat (total b)) :
    n.toNat + total b ≤ limit.toNat ↔
      if ignoresUsed c then n > limit ∨ total b + n.toNat ≤ limit.toNat
      else total b + n.toNat < 2 ^ 64 ∨ UInt64.ofNat (total b) + n > limit := by
  have hlimit := limit.toNat_lt
  by_cases hpitch : ignoresUsed c
  · rw [if_pos hpitch] at hused ⊢
    subst hused
    rw [UInt64.zero_add] at hpass
    rw [or_iff_right hpass, Nat.add_comm]
  · rw [if_neg hpitch] at hused ⊢
    subst hused
    rw [or_iff_left hpass]
    rw [gt_iff_lt, UInt64.lt_iff_toNat_lt, toNat_used_add] at hpass
    constructor
    · intro hle
      omega
    · intro hlt
      rw [Nat.mod_eq_of_lt hlt] at hpass
      omega

theorem quotaStep_iff (hb : total b ≤ limit.toNat) (hstep : QuotaStep limit b call b') :
    total b' ≤ limit.toNat ↔ StaysWithin limit b call := by
  obtain ⟨hlimit, ret, tr, hr⟩ := hstep
  cases hc : role call.2 with
  | allocates =>
      obtain ⟨p, n, hreq⟩ := request_of_runs hr hc
      have hsingle : StaysWithin limit b call ↔ (call.1.reply.result = .CUDA_SUCCESS →
          if ignoresUsed call.2 then n > limit ∨ total b + n.toNat ≤ limit.toNat
          else total b + n.toNat < 2 ^ 64 ∨ UInt64.ofNat (total b) + n > limit) := by
        constructor
        · intro hw
          exact hw p n hreq
        · intro hw p' n' hreq'
          cases hreq.symm.trans hreq'
          exact hw
      rw [hsingle]
      obtain ⟨used, b₁, hused, hrest⟩ := hijacked_runs_of_request hreq hr
      obtain ⟨rfl, hval⟩ := usedBy_exactLedger hused
      rw [hlimit] at hrest
      rcases hrest with ⟨hover, _, rfl⟩ | ⟨_, hfail, _, rfl⟩ | ⟨hpass, hok, _, hrec⟩
      · -- rejected, by the check that the condition names
        refine iff_of_true hb fun _ => ?_
        by_cases hpitch : ignoresUsed call.2
        · rw [if_pos hpitch] at hval ⊢
          subst hval
          rw [UInt64.zero_add] at hover
          exact Or.inl hover
        · rw [if_neg hpitch] at hval ⊢
          subst hval
          exact Or.inr hover
      · exact iff_of_true hb fun hok => absurd hok hfail
      · rw [recordBy_exactLedger hrec, total_cons, forall_prop_of_true hok]
        exact grant_iff hpass hval
  | frees h =>
      obtain ⟨_, tr', hfree⟩ := hijacked_runs_of_free hc hr
      obtain ⟨rfl, _⟩ := runs_update.mp hfree
      refine iff_of_true (Nat.le_trans (total_eraseP_le _ b) hb) ?_
      intro p n hreq
      cases hc.symm.trans (role_of_request hreq)
  | passes =>
      rw [hijacked_runs_of_passes hc hr]
      refine iff_of_true hb ?_
      intro p n hreq
      cases hc.symm.trans (role_of_request hreq)

/-- **When the quota holds.** In every state of a run the sum of the charges is within the limit
exactly when every call of the run satisfies `StaysWithin` in the state it is made in. -/
theorem quota_iff_staysWithin {r : List ((Context × ApiCall) × Books)}
    (hr : Along (QuotaStep limit) [] r) :
    (∀ b ∈ states [] r, total b ≤ limit.toNat) ↔
      Along (fun b call _ => StaysWithin limit b call) [] r := by
  apply Along.states_iff (I := fun b => total b ≤ limit.toNat) (Nat.zero_le _) hr
  · intro b hb
    exact hb
  · intro b call b' hb hstep hwithin
    exact (quotaStep_iff hb hstep).mpr hwithin
  · intro b call b' hb hstep hb'
    exact (quotaStep_iff hb hstep).mp hb'

/-- The run that the calls make. -/
def quotaRun (b : Books) (calls : List (Context × ApiCall)) :
    List ((Context × ApiCall) × Books) :=
  trajectory (fun b call => (hijacked exactLedger call.1 call.2 b).state) b calls

theorem along_quotaRun {calls : List (Context × ApiCall)}
    (hdone : allSteps (fun b call => (hijacked exactLedger call.1 call.2 b).state)
      (fun b call => call.1.limit == limit && (hijacked exactLedger call.1 call.2 b).result.isOk)
      b calls = true) :
    Along (QuotaStep limit) b (quotaRun b calls) := by
  apply along_trajectory _ hdone
  intro b call hok
  obtain ⟨hlimit, hret⟩ := (Bool.and_eq_true _ _).mp hok
  refine ⟨beq_iff_eq.mp hlimit, ?_⟩
  cases hx : (hijacked exactLedger call.1 call.2 b).result with
  | error e =>
      rw [hx] at hret
      cases hret
  | ok ret => exact ⟨ret, (runs_of_ok hx).returns⟩

/-- The second of two allocations does not fit. -/
def twoAllocations : List (Context × ApiCall) :=
  [(granted 100, .cuMemAlloc_v2 16 80), (granted 100, .cuMemAlloc 24 30)]

theorem quota_twoAllocations : total (final [] (quotaRun [] twoAllocations)) ≤ 100 := by
  have hr : Along (QuotaStep 100) [] (quotaRun [] twoAllocations) :=
    along_quotaRun (by decide)
  refine (quota_iff_staysWithin hr).mpr ?_ _ (final_mem_states _ _)
  refine ⟨?_, ?_, trivial⟩
  · intro p n hreq _
    cases hreq
    exact Or.inl (by decide)
  · intro p n hreq _
    cases hreq
    exact Or.inl (by decide)

/-- The second allocation is pitched, and checked without the first. -/
def pitchedAllocation : List (Context × ApiCall) :=
  [(granted 100, .cuMemAlloc_v2 16 80), (granted 100, .cuMemAllocPitch 24 32 80 1 4)]

/-- **The quota can be exceeded**, by `cuMemAllocPitch`. -/
theorem not_quota_of_pitched :
    ¬ ∀ (limit : UInt64) (r : List ((Context × ApiCall) × Books)), Along (QuotaStep limit) [] r →
      ∀ b ∈ states [] r, total b ≤ limit.toNat := by
  intro hall
  have hr : Along (QuotaStep 100) [] (quotaRun [] pitchedAllocation) :=
    along_quotaRun (by decide)
  have hle := hall 100 _ hr _ (final_mem_states _ _)
  exact absurd hle (by decide)

end Vcuda.Hijack
