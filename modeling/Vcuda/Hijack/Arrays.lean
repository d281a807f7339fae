import Vcuda.Hijack.Sessions
import Vcuda.Rnm.Books

/-!
# Arrays

Creating an array is charged like any other allocation, but `cuArrayDestroy` and
`cuMipmappedArrayDestroy` are passed through to the driver: the functions `free_gmem_cuarr` and
`free_gmem_cumarr` are there and nobody calls them. So an array that has been created and destroyed
stays on the books, except where it took over an entry that an earlier one had left behind
(`createDestroy_sameBooks_iff`).
-/

namespace Vcuda.Hijack

open Traced RNM Tables

/-- The call that destroys what a call created. -/
def destroyOf (h : Handle) : ApiCall → Option ApiCall
  | .cuArrayCreate_v2 .. => some (.cuArrayDestroy h)
  | .cuArrayCreate .. => some (.cuArrayDestroy h)
  | .cuArray3DCreate_v2 .. => some (.cuArrayDestroy h)
  | .cuArray3DCreate .. => some (.cuArrayDestroy h)
  | .cuMipmappedArrayCreate .. => some (.cuMipmappedArrayDestroy h)
  | _ => none

/-- A process creates an array in the variable `p`, which still holds its handle when the process
destroys it; both calls succeed. -/
structure CreateDestroy (d : Dims) (t t₁ t' : Tables) (create destroy : Call) (p : Ptr)
    (n : UInt64) : Prop where
  request : request create.api = some (p, n)
  array : destroyOf (destroy.ctx.mem p) create.api = some destroy.api
  process : destroy.key = create.key
  unchanged : destroy.ctx.mem p = create.ctx.reply.mem p
  created : ∃ fuel, Returns (create.exec d fuel) t .CUDA_SUCCESS t₁
  destroyed : ∃ fuel, Returns (destroy.exec d fuel) t₁ .CUDA_SUCCESS t'

variable {d : Dims} {t t₁ t' : Tables} {create destroy : Call} {c c' : ApiCall} {p : Ptr}
  {n : UInt64} {h : Handle} {lists : Nat → List Int}

theorem role_of_destroyOf (hdes : destroyOf h c = some c') : role c' = .passes := by
  cases c <;> cases hdes <;> simp [role]

/-- Only the creation touches the tables. -/
theorem CreateDestroy.step (hcd : CreateDestroy d t t₁ t' create destroy p n) :
    Step d t (.addGmem create.key create.ctx.reply.mem p n) t' := by
  obtain ⟨fuel, hcreate⟩ := hcd.created
  obtain ⟨fuel', tr, hdestroy⟩ := hcd.destroyed
  obtain rfl : t' = t₁ := hijacked_runs_of_passes (role_of_destroyOf hcd.array) hdestroy
  exact (allocation_step hcd.request hcreate).2

/-- **When creating and destroying an array leaves the books as they were.** -/
theorem createDestroy_sameBooks_iff (hs : t.Sentinel) (hc : Chained d t lists)
    (hfree : firstEmpty d t ≠ none) (hcd : CreateDestroy d t t₁ t' create destroy p n) :
    SameBooks d t t' ↔
      LastHolds d t lists create.key create.ctx.reply.mem (create.ctx.reply.mem p) n :=
  addGmem_sameBooks_iff hs hc hfree hcd.step

/-- A process without recorded arrays gets one more entry. -/
theorem not_sameBooks_of_not_exists (hs : t.Sentinel) (hc : Chained d t lists)
    (hfree : firstEmpty d t ≠ none) (hcd : CreateDestroy d t t₁ t' create destroy p n)
    (hnone : findRnode d t create.key = none) : ¬ SameBooks d t t' := by
  rw [addGmem_sameBooks_iff hs hc hfree hcd.step]
  intro ⟨s, _, _, hfind, _⟩
  rw [hnone] at hfind
  cases hfind

/-! ## The same array twice -/

/-- An array of ten elements of 16 bits in two channels. -/
def tenByTwo : CUDA_ARRAY_DESCRIPTOR := ⟨10, 1, .CU_AD_FORMAT_HALF, 2⟩

def createArray : Call := grantedCall (1, 0) (.cuArrayCreate 16 tenByTwo)

def destroyArray : Call := grantedCall (1, 0) (.cuArrayDestroy (ownAddress 16))

/-- The tables once the array has been created. -/
def afterCreate : Tables := (createArray.exec smallDims 2 initialTables).state

theorem createDestroy_array (fuel : Nat) (t : Tables)
    (hcreate : (createArray.exec smallDims fuel t).result = .ok .CUDA_SUCCESS)
    (hdestroy :
      (destroyArray.exec smallDims fuel (createArray.exec smallDims fuel t).state).result =
        .ok .CUDA_SUCCESS) :
    CreateDestroy smallDims t (createArray.exec smallDims fuel t).state
      (destroyArray.exec smallDims fuel (createArray.exec smallDims fuel t).state).state
      createArray destroyArray 16 320 :=
  ⟨by decide, rfl, rfl, rfl, ⟨fuel, (runs_of_ok hcreate).returns⟩,
    ⟨fuel, (runs_of_ok hdestroy).returns⟩⟩

theorem chained_afterCreate : Chained smallDims afterCreate fun _ => [0] := by
  have hend : afterCreate.next 0 = -1 := by decide
  exact chained_of_single (by decide) ⟨by decide, by decide, hend⟩

/-- The second time the entry that the first one left behind is used again. -/
theorem createDestroy_sameBooks_again :
    SameBooks smallDims afterCreate
      (destroyArray.exec smallDims 3 (createArray.exec smallDims 3 afterCreate).state).state := by
  have hs : afterCreate.Sentinel := ⟨by decide, by decide⟩
  have hcd := createDestroy_array 3 afterCreate (by decide) (by decide)
  refine (createDestroy_sameBooks_iff hs chained_afterCreate (by decide) hcd).mpr ?_
  exact ⟨0, [], 0, by decide, rfl, by simp, ⟨by decide, by decide⟩, by decide⟩

/-- **The first time an entry stays behind.** -/
theorem not_createDestroy_sameBooks :
    ¬ ∀ (d : Dims) (t t₁ t' : Tables) (create destroy : Call) (p : Ptr) (n : UInt64)
      (lists : Nat → List Int), t.Sentinel → Chained d t lists → firstEmpty d t ≠ none →
      CreateDestroy d t t₁ t' create destroy p n → SameBooks d t t' := by
  intro hall
  have hs : initialTables.Sentinel := sentinel_initialTables
  have hc : Chained smallDims initialTables fun _ => [] := by
    constructor
    · exact fun s hs => absurd hs (not_exists_of_fresh (fresh_initialTables _))
    · exact fun s _ hs => absurd hs (not_exists_of_fresh (fresh_initialTables _))
  have hcd := createDestroy_array 2 initialTables (by decide) (by decide)
  have hsame := hall _ _ _ _ _ _ _ _ _ hs hc (by decide) hcd
  exact not_sameBooks_of_not_exists hs hc (by decide) hcd (by decide) hsame

end Vcuda.Hijack
