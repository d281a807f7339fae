import Vcuda.Hijack.Sessions

/-!
# Failed calls

Whether a call that fails leaves the tables as they were depends on the order of its two effects.
The allocators record after the driver has answered. `cuMemFree` and `cuMemFree_v2` take the record
out first, so when the driver then refuses, the record is gone all the same: such a call leaves the
tables alone exactly when it found no record to take out (`failedCall_iff_findsNothing`). Nothing is
assumed of the tables.
-/

namespace Vcuda

namespace RNM

open Traced Tables

variable {d : Dims} {t t' : Tables} {key : PidSt} {mem : HostMem} {h : Handle} {u : Unit}
  {tr : List Event} {fuel : Nat} {prev g : Int}

/-- The process has no record that a search for `h` finds. -/
def FindsNothing (d : Dims) (t : Tables) (key : PidSt) (mem : HostMem) (h : Handle) : Prop :=
  ∀ s x, findRnode d t key = some s → ¬ FindsAt t mem h s x

/-- What `remove_gmem_by_dptr` once took out does not come back. -/
theorem removeGmemByDptr_eq_iff (hr : Runs (removeGmemByDptr mem h fuel prev g) t u t' tr) :
    t' = t ↔ ∀ l x, Walk t.next (t.Miss mem h) g l x → ¬ t.Hit mem h x := by
  obtain ⟨_, l, x, hwalk, ⟨hx, rfl⟩ | ⟨hhit, fuel', tr', hrest⟩⟩ := removeGmemByDptr_runs hr
  · refine iff_of_true rfl ?_
    intro l' x' hwalk' hhit'
    have hxx := (hwalk.unique (not_miss_of_not_live hx) hwalk' hhit'.not_miss).2
    exact hx (hxx ▸ hhit'.1)
  · refine iff_of_false ?_ fun hno => hno l x hwalk hhit
    rintro rfl
    exact (unlink_live.mp (removeGmemByDptr_live hrest hhit.1)).1 rfl

theorem removeGmem_eq_iff_findsNothing (hr : Runs (removeGmem d fuel key mem h) t u t' tr) :
    t' = t ↔ FindsNothing d t key mem h := by
  obtain ⟨_, _, _, _, hprint, hrest, _⟩ := runs_bind.mp hr
  obtain ⟨rfl, _⟩ := printGmem_runs hprint
  obtain ⟨_, _, _, _, hfind, hbranch, _⟩ := runs_bind.mp hrest
  obtain ⟨rfl, rfl, _⟩ := runs_read.mp hfind
  split at hbranch
  · next hnone =>
    obtain ⟨_, rfl, _⟩ := runs_pure.mp hbranch
    refine iff_of_true rfl ?_
    intro s x hs
    rw [hnone] at hs
    cases hs
  · next s hsome =>
    obtain ⟨_, _, _, _, hentry, hloop, _⟩ := runs_bind.mp hbranch
    obtain ⟨rfl, rfl, _⟩ := runs_read.mp hentry
    rw [removeGmemByDptr_eq_iff hloop]
    constructor
    · rintro hno s' x hs' ⟨l, hwalk, hhit⟩
      obtain rfl := Option.some.inj (hsome.symm.trans hs')
      exact hno l x hwalk hhit
    · intro hno l x hwalk hhit
      exact hno s x hsome ⟨l, hwalk, hhit⟩

end RNM

namespace Hijack

open Traced RNM

variable {d : Dims} {t t' : Tables} {key : PidSt} {pe : RNode → Bool} {ctx : Context}
  {c : ApiCall} {p : Ptr} {n used : UInt64} {ret : CUresult} {tr : List Event} {fuel : Nat}

/-- A rejected or refused allocation changes nothing. -/
theorem failedAllocation (hreq : request c = some (p, n))
    (hr : Runs (hijacked (rnmLedger d fuel key pe) ctx c) t ret t' tr)
    (hfail : ret ≠ .CUDA_SUCCESS) : t' = t := by
  obtain ⟨used, s₁, hused, ⟨_, _, rfl⟩ | ⟨_, _, _, rfl⟩ | ⟨_, _, hret, _⟩⟩ :=
    hijacked_runs_of_request hreq hr
  · exact usedBy_returns hused
  · exact usedBy_returns hused
  · exact absurd hret hfail

/-- **When a failed call leaves the tables alone**: always, except for a release that found its
record. -/
theorem failedCall_iff_findsNothing
    (hr : Runs (hijacked (rnmLedger d fuel key pe) ctx c) t ret t' tr)
    (hfail : ret ≠ .CUDA_SUCCESS) :
    t' = t ↔ ∀ h, role c = .frees h → FindsNothing d t key ctx.mem h := by
  cases hc : role c with
  | allocates =>
      obtain ⟨p, n, hreq⟩ := request_of_runs hr hc
      refine iff_of_true (failedAllocation hreq hr hfail) ?_
      intro h hh
      cases hh
  | frees h =>
      obtain ⟨_, tr', hfree⟩ := hijacked_runs_of_free hc hr
      rw [removeGmem_eq_iff_findsNothing hfree]
      constructor
      · intro hno h' hh
        cases hh
        exact hno
      · intro hno
        exact hno h rfl
  | passes =>
      refine iff_of_true (hijacked_runs_of_passes hc hr) ?_
      intro h hh
      cases hh

/-- The driver refuses. -/
def refused : Context := ⟨1000, ownAddress, ⟨.CUDA_ERROR_INVALID_VALUE, ownAddress⟩⟩

/-- A refused `cuMemFree_v2`, after the process has allocated `16`. -/
def refusedFree (h : Handle) : Outcome Fault Event Tables CUresult :=
  hijacked (rnmLedger smallDims 3 (1, 0) fun _ => true) refused (.cuMemFree_v2 h) afterAllocate

theorem refusedFree_runs (h : Handle)
    (hok : (refusedFree h).result = .ok .CUDA_ERROR_INVALID_VALUE) :
    Runs (hijacked (rnmLedger smallDims 3 (1, 0) fun _ => true) refused (.cuMemFree_v2 h))
      afterAllocate .CUDA_ERROR_INVALID_VALUE (refusedFree h).state (refusedFree h).trace :=
  runs_of_ok hok

theorem failedCall_unknownHandle : (refusedFree 24).state = afterAllocate := by
  apply (failedCall_iff_findsNothing (refusedFree_runs 24 rfl) (by decide)).mpr
  intro h hh s x hs
  cases hh
  have hslot : findRnode smallDims afterAllocate (1, 0) = some 0 := by decide
  obtain rfl := Option.some.inj (hslot.symm.trans hs)
  -- the variable of record `0` holds `16`, and there is no other record
  have hmiss : afterAllocate.Miss refused.mem 24 0 := ⟨by decide, by decide⟩
  have hwalk : Walk afterAllocate.next (afterAllocate.Miss refused.mem 24) (afterAllocate.entry 0)
      [0] (-1) := ⟨by decide, hmiss, (by decide : afterAllocate.next 0 = -1)⟩
  exact not_findsAt_of_walk hwalk (by decide)

/-- **A failed release does not leave the tables alone**: the record is gone. -/
theorem not_failedCall_of_refusedFree :
    ¬ ∀ (d : Dims) (fuel : Nat) (key : PidSt) (pe : RNode → Bool) (ctx : Context) (c : ApiCall)
      (t t' : Tables) (ret : CUresult) (tr : List Event),
      Runs (hijacked (rnmLedger d fuel key pe) ctx c) t ret t' tr → ret ≠ .CUDA_SUCCESS →
      t' = t := by
  intro hall
  have heq := hall _ _ _ _ _ _ _ _ _ _ (refusedFree_runs 16 rfl) (by decide)
  have hptr := congrArg (fun t : Tables => (t.gmem 0).ptr) heq
  exact absurd hptr (by decide)

end Hijack

end Vcuda
