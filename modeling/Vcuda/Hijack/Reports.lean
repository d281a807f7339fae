import Vcuda.Hijack.Generations
import Vcuda.Hijack.Quota

/-!
# What the calls report

`cuMemGetInfo` reports the limit as the total, and what is left of it as free. An application that
asks for no more than that keeps the quota, and no other one does (`quota_iff_withinFree`). Whether
the report foretells what an allocation will do depends on the sum that the allocation is checked
with (`free_decides_iff`).
-/

namespace Vcuda.Hijack

open Traced RNM Tables

/-- The `size_t` variables of the caller. -/
abbrev SizeMem := Ptr → UInt64

/-- The answer of the driver to `cuDeviceTotalMem`, and what it leaves in the variables. -/
structure SizeReply where
  result : CUresult
  mem : SizeMem

section
variable {σ : Type}

/-- Go to the variable `p`. -/
def access {α : Type} (p : Ptr) (a : α) : Exec σ α := do
  emit (.host p)
  if p = 0 then fail .nullHost else pure a

/-- `*p` -/
def load (mem : SizeMem) (p : Ptr) : Exec σ UInt64 := access p (mem p)

/-- `*p = n` -/
def store (mem : SizeMem) (p : Ptr) (n : UInt64) : Exec σ SizeMem :=
  access p (Function.update mem p n)

/-- The body of both `cuMemGetInfo`. -/
def memGetInfo (L : Ledger σ) (limit : UInt64) (mem : SizeMem) (free total : Ptr) :
    Exec σ (CUresult × SizeMem) := do
  let used ← L.getGmemUsed
  let mem ← store mem total limit
  let value ← load mem total
  let mem ← store mem free (if used > value then 0 else value - used)
  pure (.CUDA_SUCCESS, mem)

def cuMemGetInfo_v2 (L : Ledger σ) (limit : UInt64) (mem : SizeMem) (free total : Ptr) :
    Exec σ (CUresult × SizeMem) :=
  memGetInfo L limit mem free total

def cuMemGetInfo (L : Ledger σ) (limit : UInt64) (mem : SizeMem) (free total : Ptr) :
    Exec σ (CUresult × SizeMem) :=
  memGetInfo L limit mem free total

/-- The body of both `cuDeviceTotalMem`, with the answer of the driver. -/
def deviceTotalMem (limited : UInt64) (reply : SizeReply) (bytes : Ptr) :
    Exec σ (CUresult × SizeMem) :=
  if reply.result ≠ .CUDA_SUCCESS then pure (reply.result, reply.mem)
  else do
    let value ← load reply.mem bytes
    let finalGpuMem := if limited < value then limited else value
    let mem ← store reply.mem bytes finalGpuMem
    pure (.CUDA_SUCCESS, mem)

def cuDeviceTotalMem_v2 (limited : UInt64) (reply : SizeReply) (bytes : Ptr) :
    Exec σ (CUresult × SizeMem) :=
  deviceTotalMem limited reply bytes

def cuDeviceTotalMem (limited : UInt64) (reply : SizeReply) (bytes : Ptr) :
    Exec σ (CUresult × SizeMem) :=
  deviceTotalMem limited reply bytes

/-- What is left of the limit. -/
def freeOf (limit used : UInt64) : UInt64 := if used > limit then 0 else limit - used

/-- `cuMemGetInfo` reports that `f` is free. -/
def ReportsFree (L : Ledger σ) (s : σ) (limit f : UInt64) : Prop :=
  ∃ mem free total mem',
    Returns (cuMemGetInfo L limit mem free total) s (.CUDA_SUCCESS, mem') s ∧ mem' free = f

variable {L : Ledger σ} {s s' : σ} {limit f n : UInt64} {mem : SizeMem} {p free total bytes : Ptr}
  {reply : SizeReply} {x : CUresult × SizeMem}

/-! ## What is written -/

theorem access_returns_iff {α : Type} {a v : α} :
    Returns (access p a) s v s' ↔ p ≠ 0 ∧ v = a ∧ s' = s := by
  have hemit : Returns (emit (Event.host p) : Exec σ Unit) s () s := ⟨_, emit_runs _ s⟩
  rw [access, hemit.bind_iff]
  split
  · next hp => exact iff_of_false (fun ⟨_, hr⟩ => runs_fail hr) fun h => h.1 hp
  · next hp =>
    rw [returns_pure_iff]
    simp [hp, and_comm]

/-- What `cuMemGetInfo` writes. When both variables are the same one, it is left with what is
free. -/
theorem memGetInfo_returns_iff :
    Returns (memGetInfo L limit mem free total) s x s' ↔
      ∃ used, Returns L.getGmemUsed s used s' ∧ total ≠ 0 ∧ free ≠ 0 ∧
        x = (.CUDA_SUCCESS,
          Function.update (Function.update mem total limit) free (freeOf limit used)) := by
  constructor
  · intro hr
    obtain ⟨used, s₁, hused, hr₁⟩ := returns_bind.mp hr
    obtain ⟨mem₁, s₂, hstore, hr₂⟩ := returns_bind.mp hr₁
    obtain ⟨htotal, rfl, rfl⟩ := access_returns_iff.mp hstore
    obtain ⟨value, s₃, hload, hr₃⟩ := returns_bind.mp hr₂
    obtain ⟨_, rfl, rfl⟩ := access_returns_iff.mp hload
    obtain ⟨mem₂, s₄, hstore', hr₄⟩ := returns_bind.mp hr₃
    obtain ⟨hfree, rfl, rfl⟩ := access_returns_iff.mp hstore'
    obtain ⟨rfl, rfl⟩ := returns_pure_iff.mp hr₄
    rw [Function.update_self]
    exact ⟨used, hused, htotal, hfree, rfl⟩
  · rintro ⟨used, hused, htotal, hfree, rfl⟩
    refine hused.bind ?_
    refine (access_returns_iff.mpr ⟨htotal, rfl, rfl⟩).bind ?_
    refine (access_returns_iff.mpr ⟨htotal, rfl, rfl⟩).bind ?_
    refine (access_returns_iff.mpr ⟨hfree, rfl, rfl⟩).bind ?_
    rw [Function.update_self]
    exact returns_pure _ _

theorem reportsFree_iff :
    ReportsFree L s limit f ↔ ∃ used, Returns L.getGmemUsed s used s ∧ f = freeOf limit used := by
  constructor
  · rintro ⟨mem, free, total, mem', hr, rfl⟩
    obtain ⟨used, hused, _, _, hx⟩ := memGetInfo_returns_iff.mp hr
    obtain ⟨_, rfl⟩ := Prod.mk.inj hx
    exact ⟨used, hused, Function.update_self ..⟩
  · rintro ⟨used, hused, rfl⟩
    refine ⟨fun _ => 0, 1, 1, _, memGetInfo_returns_iff.mpr
      ⟨used, hused, by decide, by decide, rfl⟩, Function.update_self ..⟩

/-- What `cuDeviceTotalMem` returns and writes: the answer of the driver, cut off at the limit. -/
theorem deviceTotalMem_returns_iff :
    Returns (deviceTotalMem limit reply bytes) s x s' ↔ s' = s ∧
      ((reply.result ≠ .CUDA_SUCCESS ∧ x = (reply.result, reply.mem)) ∨
       (reply.result = .CUDA_SUCCESS ∧ bytes ≠ 0 ∧
          x = (.CUDA_SUCCESS,
            Function.update reply.mem bytes
              (if limit < reply.mem bytes then limit else reply.mem bytes)))) := by
  unfold deviceTotalMem
  split
  · next hbad =>
    rw [returns_pure_iff]
    simp [hbad]
  · next hok =>
    rw [not_not] at hok
    constructor
    · intro hr
      obtain ⟨value, s₁, hload, hr₁⟩ := returns_bind.mp hr
      obtain ⟨hbytes, rfl, rfl⟩ := access_returns_iff.mp hload
      obtain ⟨mem₁, s₂, hstore, hr₂⟩ := returns_bind.mp hr₁
      obtain ⟨_, rfl, rfl⟩ := access_returns_iff.mp hstore
      obtain ⟨rfl, rfl⟩ := returns_pure_iff.mp hr₂
      exact ⟨rfl, Or.inr ⟨hok, hbytes, rfl⟩⟩
    · rintro ⟨rfl, ⟨hbad, _⟩ | ⟨_, hbytes, rfl⟩⟩
      · exact absurd hok hbad
      · refine (access_returns_iff.mpr ⟨hbytes, rfl, rfl⟩).bind ?_
        refine (access_returns_iff.mpr ⟨hbytes, rfl, rfl⟩).bind ?_
        exact returns_pure _ _

/-- **The two totals** are the same unless the limit is more than there is. -/
theorem totals_agree_iff {memD memI : SizeMem}
    (hdevice : Returns (cuDeviceTotalMem limit reply bytes) s (.CUDA_SUCCESS, memD) s)
    (hok : reply.result = .CUDA_SUCCESS)
    (hinfo : Returns (cuMemGetInfo L limit mem free total) s (.CUDA_SUCCESS, memI) s)
    (hne : total ≠ free) : memD bytes = memI total ↔ limit ≤ reply.mem bytes := by
  obtain ⟨_, ⟨hbad, _⟩ | ⟨_, _, hx⟩⟩ := deviceTotalMem_returns_iff.mp hdevice
  · exact absurd hok hbad
  obtain ⟨used, _, _, _, hy⟩ := memGetInfo_returns_iff.mp hinfo
  obtain ⟨_, rfl⟩ := Prod.mk.inj hx
  obtain ⟨_, rfl⟩ := Prod.mk.inj hy
  rw [Function.update_self, Function.update_of_ne hne, Function.update_self]
  split
  · next hlt => exact iff_of_true rfl (UInt64.le_of_lt hlt)
  · next hge =>
    rw [UInt64.not_lt] at hge
    exact ⟨fun heq => heq ▸ UInt64.le_refl _, fun hle => UInt64.le_antisymm hge hle⟩

end

/-! ## What is free -/

theorem le_freeOf_iff {limit used n : UInt64} :
    n ≤ freeOf limit used ↔ n = 0 ∨ used.toNat + n.toNat ≤ limit.toNat := by
  have hzero : n = 0 ↔ n.toNat = 0 := UInt64.toNat_inj.symm
  rw [hzero, UInt64.le_iff_toNat_le, freeOf]
  split
  · next hover =>
    rw [gt_iff_lt, UInt64.lt_iff_toNat_lt] at hover
    rw [UInt64.toNat_zero]
    omega
  · next hfits =>
    rw [gt_iff_lt, UInt64.not_lt] at hfits
    rw [UInt64.toNat_sub_of_le _ _ hfits]
    rw [UInt64.le_iff_toNat_le] at hfits
    omega

/-- The check of an allocator, made with numbers. -/
theorem fits_iff {limit used n : UInt64} :
    ¬ used + n > limit ↔ (used.toNat + n.toNat) % 2 ^ 64 ≤ limit.toNat := by
  rw [gt_iff_lt, UInt64.not_lt, UInt64.le_iff_toNat_le, UInt64.toNat_add]

/-- That so much is free says of a request whether it passes the check: the sum of the check does
not wrap around, or too much is used already and it does not matter. -/
def Foretells (limit used n : UInt64) : Prop :=
  if used ≤ limit then used.toNat + n.toNat < 2 ^ 64 else n ≠ 0 ∧ used + n > limit

theorem foretells_iff {limit used n : UInt64} :
    (¬ used + n > limit ↔ n ≤ freeOf limit used) ↔ Foretells limit used n := by
  have hlimit := limit.toNat_lt
  have hused := used.toNat_lt
  have hn := n.toNat_lt
  have hzero : n = 0 ↔ n.toNat = 0 := UInt64.toNat_inj.symm
  have hover : used + n > limit ↔ limit.toNat < (used.toNat + n.toNat) % 2 ^ 64 := by
    rw [← not_iff_not, fits_iff, Nat.not_lt]
  rw [fits_iff, le_freeOf_iff, Foretells, hover, ne_eq, hzero]
  split
  · next hle =>
    rw [UInt64.le_iff_toNat_le] at hle
    constructor
    · intro hiff
      by_contra hwrap
      omega
    · intro hfits
      rw [Nat.mod_eq_of_lt hfits]
      omega
  · next hlt =>
    rw [UInt64.le_iff_toNat_le] at hlt
    omega

/-! ## An application that asks first -/

variable {d : Dims} {t : Tables} {call : Call} {p : Ptr} {n f limit : UInt64} {key : PidSt}

/-- **When the report foretells an allocation.** Let a process ask what is free, and then itself or
another one ask for `n` bytes, by any allocator but `cuMemAllocPitch`: that this reaches the driver
exactly when no more than the free bytes are asked for is the same as `Foretells`. -/
theorem free_decides_iff (hreq : request call.api = some (p, n))
    (hask : ignoresUsed call.api = false)
    (hfree : ∃ fuel, ReportsFree (rnmLedger d fuel key call.processExist) t call.ctx.limit f) :
    (CallsDriver d t call ↔ n ≤ f) ↔
      Foretells call.ctx.limit (UInt64.ofNat (headTotal d t call.processExist)) n := by
  obtain ⟨fuel, hfree⟩ := hfree
  obtain ⟨used, hused, rfl⟩ := reportsFree_iff.mp hfree
  obtain ⟨hends, rfl⟩ := gmemUsed_returns_iff.mp ⟨fuel, hused⟩
  rw [allocator_callsDriver_iff hreq, admits_of_asksUsed hask, ← foretells_iff]
  have hsum : SumEnds d t call.processExist := hends
  rw [and_iff_right hsum]

/-- Two processes have 300 of the 1000 bytes, and one of them asks for the rest. -/
theorem callsDriver_of_free :
    CallsDriver smallDims (handedOn 4) (grantedCall (1, 0) (.cuMemAlloc 40 700)) := by
  have hused : ∃ fuel, Returns (gmemUsed smallDims fuel fun _ => true) (handedOn 4) 300
      (handedOn 4) :=
    gmemUsed_returns_iff.mpr ⟨fun s hs _ => not_sumLoops_handedOn hs, by decide⟩
  obtain ⟨fuel, hused⟩ := hused
  have hfree : ReportsFree (rnmLedger smallDims fuel (2, 0) fun _ => true) (handedOn 4) 1000 700 :=
    reportsFree_iff.mpr ⟨300, hused, by decide⟩
  have hreq : request (grantedCall (1, 0) (.cuMemAlloc 40 700)).api = some (40, 700) := rfl
  refine ((free_decides_iff hreq rfl ⟨fuel, hfree⟩).mpr ?_).mpr (by decide)
  unfold Foretells
  decide

/-- What the driver would grant is no more than what `cuMemGetInfo` reports to be free. -/
def WithinFree (limit : UInt64) (b : Books) (call : Context × ApiCall) : Prop :=
  ∀ p n used, request call.2 = some (p, n) → call.1.reply.result = .CUDA_SUCCESS →
    Returns (usedBy exactLedger call.2) b used b → ¬ used + n > limit →
    ∀ f, ReportsFree exactLedger b limit f → n ≤ f

variable {b b' : Books} {c : ApiCall} {x : Context × ApiCall}

theorem usedBy_exactLedger_returns :
    Returns (usedBy exactLedger c) b (if ignoresUsed c then 0 else UInt64.ofNat (total b)) b := by
  unfold usedBy
  split
  · exact returns_pure _ _
  · exact returns_read _ _

theorem reportsFree_exactLedger_iff :
    ReportsFree exactLedger b limit f ↔ f = freeOf limit (UInt64.ofNat (total b)) := by
  rw [reportsFree_iff]
  constructor
  · rintro ⟨used, hused, rfl⟩
    obtain ⟨_, hused⟩ := hused
    rw [(runs_read.mp hused).1]
  · rintro rfl
    exact ⟨_, returns_read _ _, rfl⟩

/-- Within the quota it is what every allocation has to satisfy. -/
theorem withinFree_iff (hb : total b ≤ limit.toNat) :
    WithinFree limit b x ↔ StaysWithin limit b x := by
  have htotal : (UInt64.ofNat (total b)).toNat = total b := by
    have hlimit := limit.toNat_lt
    rw [UInt64.toNat_ofNat', Nat.mod_eq_of_lt (by omega)]
  have hfree : ∀ n : UInt64, (∀ f, ReportsFree exactLedger b limit f → n ≤ f) ↔
      n.toNat + total b ≤ limit.toNat := by
    intro n
    have hzero : n = 0 ↔ n.toNat = 0 := UInt64.toNat_inj.symm
    constructor
    · intro hall
      have hle := le_freeOf_iff.mp (hall _ (reportsFree_exactLedger_iff.mpr rfl))
      rw [htotal, hzero] at hle
      omega
    · rintro hle f hf
      rw [reportsFree_exactLedger_iff.mp hf, le_freeOf_iff, htotal, hzero]
      omega
  constructor
  · intro h p n hreq hok
    by_cases hpass : ¬ (if ignoresUsed x.2 then 0 else UInt64.ofNat (total b)) + n > limit
    · refine (grant_iff hpass rfl).mp ?_
      exact (hfree n).mp (h p n _ hreq hok usedBy_exactLedger_returns hpass)
    · rw [not_not] at hpass
      by_cases hpitch : ignoresUsed x.2
      · rw [if_pos hpitch, UInt64.zero_add] at hpass
        rw [if_pos hpitch]
        exact Or.inl hpass
      · rw [if_neg hpitch] at hpass ⊢
        exact Or.inr hpass
  · intro h p n used hreq hok hused hpass
    obtain ⟨_, rfl⟩ := usedBy_exactLedger hused
    exact (hfree n).mpr ((grant_iff hpass rfl).mpr (h p n hreq hok))

/-- **The quota holds for those who ask first.** In every state of a run the sum of the charges is
within the limit exactly when no allocation is granted more than `cuMemGetInfo` would have reported
to be free. -/
theorem quota_iff_withinFree {r : List ((Context × ApiCall) × Books)}
    (hr : Along (QuotaStep limit) [] r) :
    (∀ b ∈ states [] r, total b ≤ limit.toNat) ↔
      Along (fun b call _ => WithinFree limit b call) [] r := by
  apply Along.states_iff (I := fun b => total b ≤ limit.toNat) (Nat.zero_le _) hr
  · intro b hb
    exact hb
  · intro b call b' hb hstep hwithin
    exact (quotaStep_iff hb hstep).mpr ((withinFree_iff hb).mp hwithin)
  · intro b call b' hb hstep hb'
    exact (withinFree_iff hb).mpr ((quotaStep_iff hb hstep).mp hb')

theorem withinFree_twoAllocations :
    Along (fun b call _ => WithinFree 100 b call) [] (quotaRun [] twoAllocations) :=
  (quota_iff_withinFree (along_quotaRun (by decide))).mp (by decide)

end Vcuda.Hijack
