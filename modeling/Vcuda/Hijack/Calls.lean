import Vcuda.Rnm.Ops

/-!
# The hijacked calls

`hijack_call.c`: the ten allocators, which check the quota before they call the driver and record
the allocation after, and the calls that release. What they use of `resource_c_wrapper.cxx` is a
`Ledger`; `rnmLedger` is the one of the repository, the tables.

An allocator call that passes its size computation is determined by the variable it fills and the
size it charges (`ApiCall.request`), so `hijacked_of_request` puts all ten into one form. The two
families that stand out keep their difference there: `cuMemAllocPitch` takes `used` to be `0`.
-/

namespace Vcuda.Hijack

open Traced

/-- The functions of `resource_c_wrapper.hpp` the entry points call, for one process. Recording and
freeing look at its memory. -/
structure Ledger (σ : Type) where
  getGmemUsed : Exec σ UInt64
  addGmem : HostMem → Ptr → UInt64 → Exec σ Unit
  addGmemCuarr : HostMem → Ptr → UInt64 → Exec σ Unit
  addGmemCumarr : HostMem → Ptr → UInt64 → Exec σ Unit
  freeGmem : HostMem → Handle → Exec σ Unit

/-- The ledger in the tables, for the process `key`. -/
def rnmLedger (d : Dims) (fuel : Nat) (key : PidSt) (processExist : RNode → Bool) :
    Ledger Tables where
  getGmemUsed := RNM.gmemUsed d fuel processExist
  addGmem mem dptr bytes := RNM.addGmem d fuel key mem dptr bytes
  addGmemCuarr mem da bytes := RNM.addGmem d fuel key mem da bytes
  addGmemCumarr mem da bytes := RNM.addGmem d fuel key mem da bytes
  freeGmem mem dptr := RNM.removeGmem d fuel key mem dptr

/-- What a call meets: `get_shared_GPU_mem_limit()`, the caller's memory, and the answer the driver
has for it. -/
structure Context where
  limit : UInt64
  mem : HostMem
  reply : Reply

/-- The driver grants, and puts the variable's own address into it. -/
def granted (limit : UInt64) : Context := ⟨limit, ownAddress, ⟨.CUDA_SUCCESS, ownAddress⟩⟩

/-! ## The entry points -/

variable {σ : Type}

/-- `CUDA_ENTRY_CALL` -/
def entryCall (ctx : Context) (c : ApiCall) : Exec σ CUresult := do
  emit (.driver c)
  pure ctx.reply.result

/-- The rest of an allocator, once it has its `used` and its `request_size`: the quota check, the
driver call, and the record when that succeeds. -/
def guardedCall (ctx : Context) (used requestSize : UInt64) (c : ApiCall)
    (record : HostMem → Exec σ Unit) : Exec σ CUresult := do
  if used + requestSize > ctx.limit then pure .CUDA_ERROR_OUT_OF_MEMORY
  else do
    let ret ← entryCall ctx c
    if ret = .CUDA_SUCCESS then do
      record ctx.reply.mem
      pure ret
    else pure ret

/-- The value of `ROUND_UP(n, base)` for a nonzero base. -/
def roundedUp (n base : UInt64) : UInt64 := if n % base ≠ 0 then n + base - n % base else n

/-- `ROUND_UP(n, base)`, which divides by the base. -/
def roundUp (n base : UInt64) : Exec σ UInt64 :=
  if base = 0 then fail .divByZero else pure (roundedUp n base)

def cuMemAllocManaged (L : Ledger σ) (ctx : Context) (dptr : Ptr) (bytesize : UInt64)
    (flags : UInt32) : Exec σ CUresult := do
  let used ← L.getGmemUsed
  guardedCall ctx used bytesize (.cuMemAllocManaged dptr bytesize flags)
    (L.addGmem · dptr bytesize)

def cuMemAlloc_v2 (L : Ledger σ) (ctx : Context) (dptr : Ptr) (bytesize : UInt64) :
    Exec σ CUresult := do
  let used ← L.getGmemUsed
  guardedCall ctx used bytesize (.cuMemAlloc_v2 dptr bytesize) (L.addGmem · dptr bytesize)

def cuMemAlloc (L : Ledger σ) (ctx : Context) (dptr : Ptr) (bytesize : UInt64) :
    Exec σ CUresult := do
  let used ← L.getGmemUsed
  guardedCall ctx used bytesize (.cuMemAlloc dptr bytesize) (L.addGmem · dptr bytesize)

def cuMemAllocPitch_v2 (L : Ledger σ) (ctx : Context) (dptr pPitch : Ptr)
    (widthInBytes height : UInt64) (elementSizeBytes : UInt32) : Exec σ CUresult := do
  let used ← L.getGmemUsed
  let requestSize ← roundUp (widthInBytes * height) elementSizeBytes.toUInt64
  guardedCall ctx used requestSize
    (.cuMemAllocPitch_v2 dptr pPitch widthInBytes height elementSizeBytes)
    (L.addGmem · dptr requestSize)

/-- `used` is `0` here, not what `get_gmem_used` returns. -/
def cuMemAllocPitch (L : Ledger σ) (ctx : Context) (dptr pPitch : Ptr)
    (widthInBytes height : UInt64) (elementSizeBytes : UInt32) : Exec σ CUresult := do
  let used := 0
  let requestSize ← roundUp (widthInBytes * height) elementSizeBytes.toUInt64
  guardedCall ctx used requestSize
    (.cuMemAllocPitch dptr pPitch widthInBytes height elementSizeBytes)
    (L.addGmem · dptr requestSize)

def getArrayBaseSize : CUarrayFormat → UInt64
  | .CU_AD_FORMAT_UNSIGNED_INT8 => 8
  | .CU_AD_FORMAT_SIGNED_INT8 => 8
  | .CU_AD_FORMAT_UNSIGNED_INT16 => 16
  | .CU_AD_FORMAT_SIGNED_INT16 => 16
  | .CU_AD_FORMAT_HALF => 16
  | .CU_AD_FORMAT_UNSIGNED_INT32 => 32
  | .CU_AD_FORMAT_SIGNED_INT32 => 32
  | .CU_AD_FORMAT_FLOAT => 32
  | .other _ => 32

def cuArrayCreateHelper (pAllocateArray : CUDA_ARRAY_DESCRIPTOR) : UInt64 :=
  getArrayBaseSize pAllocateArray.format * pAllocateArray.numChannels.toUInt64 *
    pAllocateArray.height * pAllocateArray.width

def cuArrayCreate_v2 (L : Ledger σ) (ctx : Context) (pHandle : Ptr)
    (pAllocateArray : CUDA_ARRAY_DESCRIPTOR) : Exec σ CUresult := do
  let requestSize := cuArrayCreateHelper pAllocateArray
  let used ← L.getGmemUsed
  guardedCall ctx used requestSize (.cuArrayCreate_v2 pHandle pAllocateArray)
    (L.addGmemCuarr · pHandle requestSize)

def cuArrayCreate (L : Ledger σ) (ctx : Context) (pHandle : Ptr)
    (pAllocateArray : CUDA_ARRAY_DESCRIPTOR) : Exec σ CUresult := do
  let requestSize := cuArrayCreateHelper pAllocateArray
  let used ← L.getGmemUsed
  guardedCall ctx used requestSize (.cuArrayCreate pHandle pAllocateArray)
    (L.addGmemCuarr · pHandle requestSize)

/-- The depth of the array is not looked at. -/
def cuArray3DCreateHelper (pAllocateArray : CUDA_ARRAY3D_DESCRIPTOR) : UInt64 :=
  getArrayBaseSize pAllocateArray.format * pAllocateArray.numChannels.toUInt64 *
    pAllocateArray.height * pAllocateArray.width

def cuArray3DCreate_v2 (L : Ledger σ) (ctx : Context) (pHandle : Ptr)
    (pAllocateArray : CUDA_ARRAY3D_DESCRIPTOR) : Exec σ CUresult := do
  let requestSize := cuArray3DCreateHelper pAllocateArray
  let used ← L.getGmemUsed
  guardedCall ctx used requestSize (.cuArray3DCreate_v2 pHandle pAllocateArray)
    (L.addGmemCuarr · pHandle requestSize)

def cuArray3DCreate (L : Ledger σ) (ctx : Context) (pHandle : Ptr)
    (pAllocateArray : CUDA_ARRAY3D_DESCRIPTOR) : Exec σ CUresult := do
  let requestSize := cuArray3DCreateHelper pAllocateArray
  let used ← L.getGmemUsed
  guardedCall ctx used requestSize (.cuArray3DCreate pHandle pAllocateArray)
    (L.addGmemCuarr · pHandle requestSize)

/-- The size `cuMipmappedArrayCreate` charges, with the depth and for one level. -/
def mipmappedRequestSize (pMipmappedArrayDesc : CUDA_ARRAY3D_DESCRIPTOR) : UInt64 :=
  getArrayBaseSize pMipmappedArrayDesc.format * pMipmappedArrayDesc.numChannels.toUInt64 *
    pMipmappedArrayDesc.height * pMipmappedArrayDesc.width * pMipmappedArrayDesc.depth

def cuMipmappedArrayCreate (L : Ledger σ) (ctx : Context) (pHandle : Ptr)
    (pMipmappedArrayDesc : CUDA_ARRAY3D_DESCRIPTOR) (numMipmapLevels : UInt32) :
    Exec σ CUresult := do
  let requestSize := mipmappedRequestSize pMipmappedArrayDesc
  let used ← L.getGmemUsed
  guardedCall ctx used requestSize
    (.cuMipmappedArrayCreate pHandle pMipmappedArrayDesc numMipmapLevels)
    (L.addGmemCumarr · pHandle requestSize)

/-- The record goes before the driver is asked. -/
def cuMemFree_v2 (L : Ledger σ) (ctx : Context) (dptr : Handle) : Exec σ CUresult := do
  L.freeGmem ctx.mem dptr
  entryCall ctx (.cuMemFree_v2 dptr)

def cuMemFree (L : Ledger σ) (ctx : Context) (dptr : Handle) : Exec σ CUresult := do
  L.freeGmem ctx.mem dptr
  entryCall ctx (.cuMemFree dptr)

/-- Passed through: no record is looked for. -/
def cuArrayDestroy (ctx : Context) (hArray : Handle) : Exec σ CUresult :=
  entryCall ctx (.cuArrayDestroy hArray)

def cuMipmappedArrayDestroy (ctx : Context) (hMipmappedArray : Handle) : Exec σ CUresult :=
  entryCall ctx (.cuMipmappedArrayDestroy hMipmappedArray)

/-- The entry point of a call. -/
def hijacked (L : Ledger σ) (ctx : Context) : ApiCall → Exec σ CUresult
  | .cuMemAllocManaged dptr bytesize flags => cuMemAllocManaged L ctx dptr bytesize flags
  | .cuMemAlloc_v2 dptr bytesize => cuMemAlloc_v2 L ctx dptr bytesize
  | .cuMemAlloc dptr bytesize => cuMemAlloc L ctx dptr bytesize
  | .cuMemAllocPitch_v2 dptr pPitch width height elem =>
      cuMemAllocPitch_v2 L ctx dptr pPitch width height elem
  | .cuMemAllocPitch dptr pPitch width height elem =>
      cuMemAllocPitch L ctx dptr pPitch width height elem
  | .cuArrayCreate_v2 pHandle desc => cuArrayCreate_v2 L ctx pHandle desc
  | .cuArrayCreate pHandle desc => cuArrayCreate L ctx pHandle desc
  | .cuArray3DCreate_v2 pHandle desc => cuArray3DCreate_v2 L ctx pHandle desc
  | .cuArray3DCreate pHandle desc => cuArray3DCreate L ctx pHandle desc
  | .cuMipmappedArrayCreate pHandle desc levels => cuMipmappedArrayCreate L ctx pHandle desc levels
  | .cuMemFree_v2 dptr => cuMemFree_v2 L ctx dptr
  | .cuMemFree dptr => cuMemFree L ctx dptr
  | .cuArrayDestroy hArray => cuArrayDestroy ctx hArray
  | .cuMipmappedArrayDestroy hMipmappedArray => cuMipmappedArrayDestroy ctx hMipmappedArray

/-! ## The ten allocators in one form -/

/-- What a call is to the ledger. -/
inductive Role where
  | allocates
  | frees (h : Handle)
  | passes

/-- The role of a call. -/
def role : ApiCall → Role
  | .cuMemFree_v2 h => .frees h
  | .cuMemFree h => .frees h
  | .cuArrayDestroy _ => .passes
  | .cuMipmappedArrayDestroy _ => .passes
  | _ => .allocates

/-- The size of a pitched allocation, when there is one. -/
def pitchedSize (width height : UInt64) (elem : UInt32) : Option UInt64 :=
  if elem.toUInt64 = 0 then none else some (roundedUp (width * height) elem.toUInt64)

/-- The variable that an allocator call has the driver fill and the size it charges, when it gets as
far as having one. -/
def request : ApiCall → Option (Ptr × UInt64)
  | .cuMemAllocManaged dptr bytesize _ => some (dptr, bytesize)
  | .cuMemAlloc_v2 dptr bytesize => some (dptr, bytesize)
  | .cuMemAlloc dptr bytesize => some (dptr, bytesize)
  | .cuMemAllocPitch_v2 dptr _ width height elem => (pitchedSize width height elem).map (dptr, ·)
  | .cuMemAllocPitch dptr _ width height elem => (pitchedSize width height elem).map (dptr, ·)
  | .cuArrayCreate_v2 pHandle desc => some (pHandle, cuArrayCreateHelper desc)
  | .cuArrayCreate pHandle desc => some (pHandle, cuArrayCreateHelper desc)
  | .cuArray3DCreate_v2 pHandle desc => some (pHandle, cuArray3DCreateHelper desc)
  | .cuArray3DCreate pHandle desc => some (pHandle, cuArray3DCreateHelper desc)
  | .cuMipmappedArrayCreate pHandle desc _ => some (pHandle, mipmappedRequestSize desc)
  | _ => none

/-- The call does not ask the ledger what is used. -/
def ignoresUsed : ApiCall → Bool
  | .cuMemAllocPitch .. => true
  | _ => false

/-- The `used` of a call. -/
def usedBy (L : Ledger σ) (c : ApiCall) : Exec σ UInt64 :=
  if ignoresUsed c then pure 0 else L.getGmemUsed

/-- The function of the ledger that records the allocation. -/
def recordBy (L : Ledger σ) : ApiCall → HostMem → Ptr → UInt64 → Exec σ Unit
  | .cuArrayCreate_v2 .. => L.addGmemCuarr
  | .cuArrayCreate .. => L.addGmemCuarr
  | .cuArray3DCreate_v2 .. => L.addGmemCuarr
  | .cuArray3DCreate .. => L.addGmemCuarr
  | .cuMipmappedArrayCreate .. => L.addGmemCumarr
  | _ => L.addGmem

variable {L : Ledger σ} {ctx : Context} {c : ApiCall} {p : Ptr} {n : UInt64} {h : Handle}
  {ret : CUresult} {s s' : σ} {tr : List Event}

theorem roundUp_of_pitchedSize {width height : UInt64} {elem : UInt32}
    (hn : pitchedSize width height elem = some n) :
    (roundUp (width * height) elem.toUInt64 : Exec σ UInt64) = pure n := by
  unfold pitchedSize at hn
  unfold roundUp
  split at hn
  · cases hn
  · next hne =>
    rw [if_neg hne, Option.some.inj hn]

theorem roundUp_of_pitchedSize_none {width height : UInt64} {elem : UInt32}
    (hn : pitchedSize width height elem = none) :
    (roundUp (width * height) elem.toUInt64 : Exec σ UInt64) = fail .divByZero := by
  unfold pitchedSize at hn
  unfold roundUp
  split at hn
  · next he => rw [if_pos he]
  · cases hn

/-- **Every allocator reads `used`, checks, asks the driver, and records.** -/
theorem hijacked_of_request (hreq : request c = some (p, n)) :
    hijacked L ctx c =
      usedBy L c >>= fun used => guardedCall ctx used n c (recordBy L c · p n) := by
  have hpitch : ∀ {dptr : Ptr} {width height : UInt64} {elem : UInt32},
      (pitchedSize width height elem).map (dptr, ·) = some (p, n) →
      dptr = p ∧ (roundUp (width * height) elem.toUInt64 : Exec σ UInt64) = pure n := by
    intro dptr width height elem hmap
    obtain ⟨size, hsize, hpair⟩ := Option.map_eq_some_iff.mp hmap
    cases hpair
    exact ⟨rfl, roundUp_of_pitchedSize hsize⟩
  cases c with
  | cuMemAllocPitch_v2 dptr pPitch width height elem =>
      obtain ⟨rfl, hround⟩ := hpitch hreq
      show cuMemAllocPitch_v2 L ctx dptr pPitch width height elem = _
      rw [cuMemAllocPitch_v2, hround]
      rfl
  | cuMemAllocPitch dptr pPitch width height elem =>
      obtain ⟨rfl, hround⟩ := hpitch hreq
      show cuMemAllocPitch L ctx dptr pPitch width height elem = _
      rw [cuMemAllocPitch, hround]
      rfl
  | cuMemFree_v2 dptr => cases hreq
  | cuMemFree dptr => cases hreq
  | cuArrayDestroy hArray => cases hreq
  | cuMipmappedArrayDestroy hArray => cases hreq
  | _ =>
      cases hreq
      rfl

/-- An allocator without a size divides by zero. -/
theorem request_of_runs (hr : Runs (hijacked L ctx c) s ret s' tr) (hc : role c = .allocates) :
    ∃ p n, request c = some (p, n) := by
  cases c with
  | cuMemAllocPitch_v2 dptr pPitch width height elem =>
      cases hsize : pitchedSize width height elem with
      | some n => exact ⟨dptr, n, by simp [request, hsize]⟩
      | none =>
          change Runs (cuMemAllocPitch_v2 L ctx dptr pPitch width height elem) s ret s' tr at hr
          rw [cuMemAllocPitch_v2, roundUp_of_pitchedSize_none hsize] at hr
          obtain ⟨_, _, _, _, _, hfail, _⟩ := runs_bind.mp hr
          exact absurd hfail runs_fail
  | cuMemAllocPitch dptr pPitch width height elem =>
      cases hsize : pitchedSize width height elem with
      | some n => exact ⟨dptr, n, by simp [request, hsize]⟩
      | none =>
          change Runs (cuMemAllocPitch L ctx dptr pPitch width height elem) s ret s' tr at hr
          rw [cuMemAllocPitch, roundUp_of_pitchedSize_none hsize] at hr
          exact absurd hr runs_fail
  | cuMemFree_v2 dptr => cases hc
  | cuMemFree dptr => cases hc
  | cuArrayDestroy hArray => cases hc
  | cuMipmappedArrayDestroy hArray => cases hc
  | _ => exact ⟨_, _, rfl⟩

/-- Only allocators have a size. -/
theorem role_of_request (hreq : request c = some (p, n)) : role c = .allocates := by
  cases c with
  | cuMemFree_v2 dptr => cases hreq
  | cuMemFree dptr => cases hreq
  | cuArrayDestroy hArray => cases hreq
  | cuMipmappedArrayDestroy hArray => cases hreq
  | _ => rfl

theorem entryCall_runs :
    Runs (entryCall ctx c) s ret s' tr ↔ ret = ctx.reply.result ∧ s = s' ∧ tr = [.driver c] := by
  simp only [entryCall, runs_bind, runs_emit, runs_pure]
  constructor
  · rintro ⟨_, _, _, _, ⟨rfl, rfl⟩, ⟨rfl, rfl, rfl⟩, rfl⟩
    exact ⟨rfl, rfl, rfl⟩
  · rintro ⟨rfl, rfl, rfl⟩
    exact ⟨(), _, _, _, ⟨rfl, rfl⟩, ⟨rfl, rfl, rfl⟩, rfl⟩

/-- What the rest of an allocator did: it rejected the call, the driver failed, or the allocation
is recorded. -/
theorem guardedCall_runs {used : UInt64} {record : HostMem → Exec σ Unit}
    (hr : Runs (guardedCall ctx used n c record) s ret s' tr) :
    (used + n > ctx.limit ∧ ret = .CUDA_ERROR_OUT_OF_MEMORY ∧ s' = s) ∨
    (¬ used + n > ctx.limit ∧ ctx.reply.result ≠ .CUDA_SUCCESS ∧ ret = ctx.reply.result ∧ s' = s) ∨
    (¬ used + n > ctx.limit ∧ ctx.reply.result = .CUDA_SUCCESS ∧ ret = .CUDA_SUCCESS ∧
      Returns (record ctx.reply.mem) s () s') := by
  unfold guardedCall at hr
  split at hr
  · next hover =>
    obtain ⟨rfl, rfl, rfl⟩ := runs_pure.mp hr
    exact Or.inl ⟨hover, rfl, rfl⟩
  · next hfits =>
    obtain ⟨_, _, _, _, hcall, hrest, _⟩ := runs_bind.mp hr
    obtain ⟨rfl, rfl, _⟩ := entryCall_runs.mp hcall
    split at hrest
    · next hok =>
      obtain ⟨_, _, _, _, hrec, hret, _⟩ := runs_bind.mp hrest
      obtain ⟨rfl, rfl, _⟩ := runs_pure.mp hret
      exact Or.inr (Or.inr ⟨hfits, hok, hok, hrec.returns⟩)
    · next hbad =>
      obtain ⟨rfl, rfl, _⟩ := runs_pure.mp hrest
      exact Or.inr (Or.inl ⟨hfits, hbad, rfl, rfl⟩)

/-- With its driver call granted, the rest of an allocator ends as the recording does. -/
theorem guardedCall_of_granted {used : UInt64} {record : HostMem → Exec σ Unit}
    (hfits : ¬ used + n > ctx.limit) (hok : ctx.reply.result = .CUDA_SUCCESS)
    (hrec : Returns (record ctx.reply.mem) s () s') :
    Returns (guardedCall ctx used n c record) s .CUDA_SUCCESS s' := by
  have hcall : Returns (entryCall ctx c) s .CUDA_SUCCESS s :=
    ⟨_, entryCall_runs.mpr ⟨hok.symm, rfl, rfl⟩⟩
  rw [guardedCall, if_neg hfits]
  refine hcall.bind ?_
  rw [if_pos rfl]
  exact hrec.bind (returns_pure _ s')

/-- **What the rest of an allocator returns** says nothing of which call it is. -/
theorem guardedCall_returns_iff {used : UInt64} {record : HostMem → Exec σ Unit} :
    Returns (guardedCall ctx used n c record) s ret s' ↔
      (used + n > ctx.limit ∧ ret = .CUDA_ERROR_OUT_OF_MEMORY ∧ s' = s) ∨
      (¬ used + n > ctx.limit ∧ ctx.reply.result ≠ .CUDA_SUCCESS ∧ ret = ctx.reply.result ∧
        s' = s) ∨
      (¬ used + n > ctx.limit ∧ ctx.reply.result = .CUDA_SUCCESS ∧ ret = .CUDA_SUCCESS ∧
        Returns (record ctx.reply.mem) s () s') := by
  have hcall : Returns (entryCall ctx c) s ctx.reply.result s :=
    ⟨_, entryCall_runs.mpr ⟨rfl, rfl, rfl⟩⟩
  constructor
  · intro ⟨tr, hr⟩
    exact guardedCall_runs hr
  · rintro (⟨hover, rfl, rfl⟩ | ⟨hfits, hbad, rfl, rfl⟩ | ⟨hfits, hok, rfl, hrec⟩)
    · rw [guardedCall, if_pos hover]
      exact returns_pure _ _
    · rw [guardedCall, if_neg hfits]
      refine hcall.bind ?_
      rw [if_neg hbad]
      exact returns_pure _ _
    · exact guardedCall_of_granted hfits hok hrec

theorem guardedCall_faults {used : UInt64} {record : HostMem → Exec σ Unit} {e : Fault} :
    Faults (guardedCall ctx used n c record) s e ↔
      ¬ used + n > ctx.limit ∧ ctx.reply.result = .CUDA_SUCCESS ∧
        Faults (record ctx.reply.mem) s e := by
  have hcall : Returns (entryCall ctx c) s ctx.reply.result s :=
    ⟨_, entryCall_runs.mpr ⟨rfl, rfl, rfl⟩⟩
  rw [guardedCall]
  by_cases hover : used + n > ctx.limit
  · rw [if_pos hover]
    exact iff_of_false faults_pure fun h => h.1 hover
  · rw [if_neg hover, hcall.faults_bind_iff]
    by_cases hok : ctx.reply.result = .CUDA_SUCCESS
    · rw [if_pos hok, faults_bind]
      simp [hover, hok]
    · rw [if_neg hok]
      exact iff_of_false faults_pure fun h => hok h.2.1

/-- **What a completed allocator call did.** -/
theorem hijacked_runs_of_request (hreq : request c = some (p, n))
    (hr : Runs (hijacked L ctx c) s ret s' tr) :
    ∃ used s₁, Returns (usedBy L c) s used s₁ ∧
      ((used + n > ctx.limit ∧ ret = .CUDA_ERROR_OUT_OF_MEMORY ∧ s' = s₁) ∨
       (¬ used + n > ctx.limit ∧ ctx.reply.result ≠ .CUDA_SUCCESS ∧ ret = ctx.reply.result ∧
          s' = s₁) ∨
       (¬ used + n > ctx.limit ∧ ctx.reply.result = .CUDA_SUCCESS ∧ ret = .CUDA_SUCCESS ∧
          Returns (recordBy L c ctx.reply.mem p n) s₁ () s')) := by
  rw [hijacked_of_request hreq] at hr
  obtain ⟨used, s₁, _, _, hused, hguard, _⟩ := runs_bind.mp hr
  exact ⟨used, s₁, hused.returns, guardedCall_runs hguard⟩

/-- **What a completed release did.** -/
theorem hijacked_runs_of_free (hc : role c = .frees h) (hr : Runs (hijacked L ctx c) s ret s' tr) :
    ret = ctx.reply.result ∧ Returns (L.freeGmem ctx.mem h) s () s' := by
  have hbody : ∀ c', Runs (L.freeGmem ctx.mem h >>= fun _ => entryCall ctx c') s ret s' tr →
      ret = ctx.reply.result ∧ Returns (L.freeGmem ctx.mem h) s () s' := by
    intro c' hr
    obtain ⟨_, _, _, _, hfree, hcall, _⟩ := runs_bind.mp hr
    obtain ⟨rfl, rfl, _⟩ := entryCall_runs.mp hcall
    exact ⟨rfl, hfree.returns⟩
  cases c with
  | cuMemFree_v2 dptr =>
      cases hc
      exact hbody _ hr
  | cuMemFree dptr =>
      cases hc
      exact hbody _ hr
  | _ => cases hc

/-- A call that is passed through leaves the ledger alone. -/
theorem hijacked_runs_of_passes (hc : role c = .passes)
    (hr : Runs (hijacked L ctx c) s ret s' tr) : s' = s := by
  cases c with
  | cuArrayDestroy hArray =>
      obtain ⟨_, rfl, _⟩ := entryCall_runs.mp hr
      rfl
  | cuMipmappedArrayDestroy hArray =>
      obtain ⟨_, rfl, _⟩ := entryCall_runs.mp hr
      rfl
  | _ => cases hc

end Vcuda.Hijack
