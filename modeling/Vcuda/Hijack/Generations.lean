import Vcuda.Hijack.Sessions
import Vcuda.Rnm.Total
import Vcuda.Rnm.Bounds

/-!
# The two generations of the API

Five of the hijacked calls exist twice, with and without `_v2`, each with a body of its own. Four of
the pairs agree everywhere (`alike_allocators_iff`, `alike_of_frees`); `cuMemAllocPitch` takes
`used` to be `0` and agrees with `cuMemAllocPitch_v2` where the quota check does not depend on what
is used (`siblings_alike_iff`).
-/

namespace Vcuda.Hijack

open Traced RNM Tables

/-- The second generation of a call. -/
def sibling : ApiCall → Option ApiCall
  | .cuMemAlloc dptr bytesize => some (.cuMemAlloc_v2 dptr bytesize)
  | .cuMemAllocPitch dptr pPitch width height elem =>
      some (.cuMemAllocPitch_v2 dptr pPitch width height elem)
  | .cuArrayCreate pHandle desc => some (.cuArrayCreate_v2 pHandle desc)
  | .cuArray3DCreate pHandle desc => some (.cuArray3DCreate_v2 pHandle desc)
  | .cuMemFree dptr => some (.cuMemFree_v2 dptr)
  | _ => none

/-- In the same situation, the call `c`. -/
def Call.withApi (call : Call) (c : ApiCall) : Call := { call with api := c }

def NotDriver : Event → Prop
  | .driver _ => False
  | _ => True

/-- With enough fuel the call reaches the driver. -/
def CallsDriver (d : Dims) (t : Tables) (call : Call) : Prop :=
  ∃ fuel, ¬ Emits NotDriver (call.exec d fuel) t

/-- The calls return the same and leave the same tables, and reach the driver or not alike. -/
structure Alike (d : Dims) (t : Tables) (call call' : Call) : Prop where
  returns : ∀ ret t', (∃ fuel, Returns (call.exec d fuel) t ret t') ↔
    ∃ fuel, Returns (call'.exec d fuel) t ret t'
  driver : CallsDriver d t call ↔ CallsDriver d t call'

/-- The call takes `used` to be `u`. -/
def Uses (d : Dims) (t : Tables) (call : Call) (u : UInt64) : Prop :=
  ∃ fuel, Returns (usedBy (rnmLedger d fuel call.key call.processExist) call.api) t u t

/-- The quota check turns down a request of `n` bytes. -/
def Rejects (d : Dims) (t : Tables) (call : Call) (n : UInt64) : Prop :=
  ∃ u, Uses d t call u ∧ u + n > call.ctx.limit

/-- The quota check lets it pass. -/
def Admits (d : Dims) (t : Tables) (call : Call) (n : UInt64) : Prop :=
  ∃ u, Uses d t call u ∧ ¬ u + n > call.ctx.limit

/-- With the driver's answer for a request that passes, the call returns `ret` and leaves `t'`. -/
def Concludes (d : Dims) (t : Tables) (call : Call) (p : Ptr) (n : UInt64) (ret : CUresult)
    (t' : Tables) : Prop :=
  (call.ctx.reply.result ≠ .CUDA_SUCCESS ∧ ret = call.ctx.reply.result ∧ t' = t) ∨
  (call.ctx.reply.result = .CUDA_SUCCESS ∧ ret = .CUDA_SUCCESS ∧
    ∃ fuel, Returns (RNM.addGmem d fuel call.key call.ctx.reply.mem p n) t () t')

variable {σ : Type} {L : Ledger σ} {d : Dims} {t t' : Tables} {call : Call}
  {c : ApiCall} {key : PidSt} {ctx : Context} {p : Ptr} {n u : UInt64} {h : Handle}
  {ret : CUresult} {fuel : Nat} {pe : RNode → Bool}

/-! ## What an allocator returns, and whether it reaches the driver -/

theorem gmemUsedChain_silent {i : Nat} {g : Int} {used : UInt64} :
    Emits NotDriver (gmemUsedChain i fuel g used) t := by
  induction fuel generalizing g used with
  | zero => exact emits_fail
  | succ fuel ih =>
      rw [gmemUsedChain]
      split
      · rw [emits_bind_of_returns (ptrGmem_returns g), ptrGmem_emits,
          emits_bind_of_returns (ptrGmem_returns i), ptrGmem_emits]
        exact ⟨trivial, trivial, ih⟩
      · exact emits_pure

theorem usedBy_silent : Emits NotDriver (usedBy (rnmLedger d fuel key pe) c) t := by
  unfold usedBy
  split
  · exact emits_pure
  · show Emits NotDriver (gmemUsed d fuel pe) t
    unfold gmemUsed
    generalize List.range d.lenRnode = is, (0 : UInt64) = used
    induction is generalizing used with
    | nil => exact emits_pure
    | cons i is ih =>
        rw [gmemUsed_go_emits]
        exact ⟨fun _ => ih used, fun _ => ⟨gmemUsedChain_silent, fun r _ => ih r⟩⟩

/-- The rest of an allocator reaches the driver unless it rejects the call. -/
theorem guardedCall_silent_iff {used : UInt64} {record : HostMem → Exec Tables Unit} :
    Emits NotDriver (guardedCall ctx used n c record) t ↔ used + n > ctx.limit := by
  unfold guardedCall
  split
  · next hover => exact iff_of_true emits_pure hover
  · next hfits =>
    -- the driver call comes first, whatever it answers
    refine iff_of_false ?_ hfits
    intro he
    have hcall : Emits NotDriver (entryCall ctx c) t := (emits_bind.mp he).1
    exact emits_emit.mp (emits_bind.mp hcall).1

theorem Uses.unique {u' : UInt64} (h : Uses d t call u) (h' : Uses d t call u') : u = u' := by
  obtain ⟨fuel, hr⟩ := h
  obtain ⟨fuel', hr'⟩ := h'
  have hr := (usedBy_approx (Nat.le_max_left fuel fuel')).returns hr
  have hr' := (usedBy_approx (Nat.le_max_right fuel fuel')).returns hr'
  exact (hr.unique hr').1

/-- A call is not turned down and let pass. -/
theorem Admits.not_rejects (h : Admits d t call n) : ¬ Rejects d t call n := by
  obtain ⟨u, hu, hfits⟩ := h
  intro ⟨u', hu', hover⟩
  obtain rfl := hu.unique hu'
  exact hfits hover

/-- **What an allocator returns** says nothing of which call it is, but for the quota check. -/
theorem allocator_returns_iff (hreq : request call.api = some (p, n)) :
    (∃ fuel, Returns (call.exec d fuel) t ret t') ↔
      (Rejects d t call n ∧ ret = .CUDA_ERROR_OUT_OF_MEMORY ∧ t' = t) ∨
      (Admits d t call n ∧ Concludes d t call p n ret t') := by
  constructor
  · intro ⟨fuel, hr⟩
    rw [Call.exec, hijacked_of_request hreq] at hr
    obtain ⟨u, s₁, hused, hguard⟩ := returns_bind.mp hr
    obtain rfl := usedBy_returns hused
    rcases guardedCall_returns_iff.mp hguard with
      ⟨hover, hret⟩ | ⟨hfits, hbad⟩ | ⟨hfits, hok, hret, hrec⟩
    · exact Or.inl ⟨⟨u, ⟨fuel, hused⟩, hover⟩, hret⟩
    · exact Or.inr ⟨⟨u, ⟨fuel, hused⟩, hfits⟩, Or.inl hbad⟩
    · rw [recordBy_rnmLedger] at hrec
      exact Or.inr ⟨⟨u, ⟨fuel, hused⟩, hfits⟩, Or.inr ⟨hok, hret, fuel, hrec⟩⟩
  · have hbody : ∀ {fuel u}, Returns (usedBy (rnmLedger d fuel call.key call.processExist) call.api)
        t u t → Returns (guardedCall call.ctx u n call.api
          (recordBy (rnmLedger d fuel call.key call.processExist) call.api · p n)) t ret t' →
        ∃ fuel, Returns (call.exec d fuel) t ret t' := by
      intro fuel u hused hguard
      refine ⟨fuel, ?_⟩
      rw [Call.exec, hijacked_of_request hreq]
      exact hused.bind hguard
    rintro (⟨⟨u, ⟨fuel, hused⟩, hover⟩, hret⟩ |
      ⟨⟨u, ⟨fuel, hused⟩, hfits⟩, hbad | ⟨hok, rfl, fuel₂, hadd⟩⟩)
    · exact hbody hused (guardedCall_returns_iff.mpr (Or.inl ⟨hover, hret⟩))
    · exact hbody hused (guardedCall_returns_iff.mpr (Or.inr (Or.inl ⟨hfits, hbad⟩)))
    · -- the longer of the two searches has fuel enough for both
      refine hbody ((usedBy_approx (Nat.le_max_left fuel fuel₂)).returns hused)
        (guardedCall_of_granted hfits hok ?_)
      rw [recordBy_rnmLedger]
      exact (addGmem_approx (Nat.le_max_right fuel fuel₂)).returns hadd

/-- **When an allocator reaches the driver.** -/
theorem allocator_callsDriver_iff (hreq : request call.api = some (p, n)) :
    CallsDriver d t call ↔ Admits d t call n := by
  constructor
  · rintro ⟨fuel, hcalls⟩
    rw [Call.exec, hijacked_of_request hreq, emits_bind, not_and_or] at hcalls
    rcases hcalls with hused | hguard
    · exact absurd usedBy_silent hused
    · simp only [not_forall] at hguard
      obtain ⟨u, s₁, tr, hused, hguard⟩ := hguard
      obtain rfl := usedBy_returns hused.returns
      exact ⟨u, ⟨fuel, hused.returns⟩, fun hover => hguard (guardedCall_silent_iff.mpr hover)⟩
  · rintro ⟨u, ⟨fuel, hused⟩, hfits⟩
    refine ⟨fuel, ?_⟩
    rw [Call.exec, hijacked_of_request hreq, emits_bind_of_returns hused]
    exact fun he => hfits (guardedCall_silent_iff.mp he.2)

/-! ## The pairs -/

/-- **Two allocators of one request agree when their quota checks do.** -/
theorem alike_allocators_iff (hreq : request call.api = some (p, n))
    (hreq' : request (call.withApi c).api = some (p, n)) :
    Alike d t call (call.withApi c) ↔
      (Rejects d t call n ↔ Rejects d t (call.withApi c) n) ∧
      (Admits d t call n ↔ Admits d t (call.withApi c) n) := by
  constructor
  · intro ⟨hreturns, hdriver⟩
    rw [allocator_callsDriver_iff hreq, allocator_callsDriver_iff hreq'] at hdriver
    refine ⟨?_, hdriver⟩
    -- the driver may itself say that it is out of memory, but then both calls have reached it
    have hsame := hreturns .CUDA_ERROR_OUT_OF_MEMORY t
    rw [allocator_returns_iff hreq, allocator_returns_iff hreq'] at hsame
    constructor
    · intro hrej
      rcases hsame.mp (Or.inl ⟨hrej, rfl, rfl⟩) with ⟨hrej', _⟩ | ⟨hadm', _⟩
      · exact hrej'
      · exact absurd hrej (hdriver.mpr hadm').not_rejects
    · intro hrej'
      rcases hsame.mpr (Or.inl ⟨hrej', rfl, rfl⟩) with ⟨hrej, _⟩ | ⟨hadm, _⟩
      · exact hrej
      · exact absurd hrej' (hdriver.mp hadm).not_rejects
  · intro ⟨hrej, hadm⟩
    constructor
    · intro ret t'
      rw [allocator_returns_iff hreq, allocator_returns_iff hreq']
      exact or_congr (and_congr_left fun _ => hrej) (and_congr_left fun _ => hadm)
    · rw [allocator_callsDriver_iff hreq, allocator_callsDriver_iff hreq']
      exact hadm

theorem hijacked_of_frees (hc : role c = .frees h) :
    hijacked L ctx c = L.freeGmem ctx.mem h >>= fun _ => entryCall ctx c := by
  cases c with
  | cuMemFree_v2 dptr =>
      cases hc
      rfl
  | cuMemFree dptr =>
      cases hc
      rfl
  | _ => cases hc

theorem free_returns_iff (hc : role call.api = .frees h) :
    Returns (call.exec d fuel) t ret t' ↔
      Returns (removeGmem d fuel call.key call.ctx.mem h) t () t' ∧
        ret = call.ctx.reply.result := by
  rw [Call.exec, hijacked_of_frees hc]
  constructor
  · intro hr
    obtain ⟨_, t₁, hfree, tr, hcall⟩ := returns_bind.mp hr
    obtain ⟨rfl, rfl, _⟩ := entryCall_runs.mp hcall
    exact ⟨hfree, rfl⟩
  · rintro ⟨hfree, hret⟩
    exact Returns.bind hfree ⟨_, entryCall_runs.mpr ⟨hret, rfl, rfl⟩⟩

/-- A release is silent as long as its search goes on. -/
theorem free_silent_iff (hc : role call.api = .frees h) :
    Emits NotDriver (call.exec d fuel) t ↔
      Emits NotDriver (removeGmem d fuel call.key call.ctx.mem h) t ∧
        ∀ t', ¬ Returns (removeGmem d fuel call.key call.ctx.mem h) t () t' := by
  rw [Call.exec, hijacked_of_frees hc, emits_bind]
  refine and_congr_right fun _ => ?_
  constructor
  · rintro hcall t' ⟨tr, hfree⟩
    exact emits_emit.mp (emits_bind.mp (hcall () t' tr hfree)).1
  · intro hnot _ t' _ hfree
    exact absurd hfree.returns (hnot t')

/-- **Two releases of one handle agree.** -/
theorem alike_of_frees (hc : role call.api = .frees h)
    (hc' : role (call.withApi c).api = .frees h) :
    Alike d t call (call.withApi c) := by
  constructor
  · intro ret t'
    refine exists_congr fun fuel => ?_
    rw [free_returns_iff hc, free_returns_iff hc']
    rfl
  · refine exists_congr fun fuel => not_congr ?_
    rw [free_silent_iff hc, free_silent_iff hc']
    rfl

/-- An allocator without a size stops there. -/
theorem hijacked_of_request_none (hreq : request c = none) (hc : role c = .allocates) :
    hijacked L ctx c = usedBy L c >>= fun _ => fail .divByZero := by
  cases c with
  | cuMemAllocPitch_v2 dptr pPitch width height elem =>
      have hsize : pitchedSize width height elem = none := Option.map_eq_none_iff.mp hreq
      show cuMemAllocPitch_v2 L ctx dptr pPitch width height elem = _
      rw [cuMemAllocPitch_v2, roundUp_of_pitchedSize_none hsize]
      rfl
  | cuMemAllocPitch dptr pPitch width height elem =>
      have hsize : pitchedSize width height elem = none := Option.map_eq_none_iff.mp hreq
      show cuMemAllocPitch L ctx dptr pPitch width height elem = _
      rw [cuMemAllocPitch, roundUp_of_pitchedSize_none hsize]
      rfl
  | cuMemFree_v2 dptr => cases hc
  | cuMemFree dptr => cases hc
  | cuArrayDestroy hArray => cases hc
  | cuMipmappedArrayDestroy hArray => cases hc
  | _ => cases hreq

theorem not_returns_of_request_none (hreq : request call.api = none)
    (hc : role call.api = .allocates) : ¬ ∃ fuel, Returns (call.exec d fuel) t ret t' := by
  intro ⟨fuel, hr⟩
  rw [Call.exec, hijacked_of_request_none hreq hc] at hr
  obtain ⟨_, _, _, tr, hfail⟩ := returns_bind.mp hr
  exact runs_fail hfail

theorem not_callsDriver_of_request_none (hreq : request call.api = none)
    (hc : role call.api = .allocates) : ¬ CallsDriver d t call := by
  intro ⟨fuel, hcalls⟩
  rw [Call.exec, hijacked_of_request_none hreq hc] at hcalls
  exact hcalls (emits_bind.mpr ⟨usedBy_silent, fun _ _ _ _ => emits_fail⟩)

/-- Two allocators without a size agree: neither returns, and neither reaches the driver. -/
theorem alike_of_request_none (hreq : request call.api = none) (hc : role call.api = .allocates)
    (hreq' : request (call.withApi c).api = none)
    (hc' : role (call.withApi c).api = .allocates) :
    Alike d t call (call.withApi c) := by
  constructor
  · intro ret t'
    exact iff_of_false (not_returns_of_request_none hreq hc)
      (not_returns_of_request_none hreq' hc')
  · exact iff_of_false (not_callsDriver_of_request_none hreq hc)
      (not_callsDriver_of_request_none hreq' hc')

/-! ## What a call takes to be used -/

/-- What `cuMemAllocPitch` takes to be used. -/
theorem uses_of_ignoresUsed (hc : ignoresUsed call.api = true) : Uses d t call u ↔ u = 0 := by
  unfold Uses usedBy
  simp only [hc, if_true, returns_pure_iff, true_and, exists_const]

/-- `gmem_used` comes to an end. -/
def SumEnds (d : Dims) (t : Tables) (pe : RNode → Bool) : Prop :=
  ∀ s, s < d.lenRnode → Summed t pe s → ¬ SumLoops t s

/-- What the other allocators take to be used. -/
theorem uses_of_asksUsed (hc : ignoresUsed call.api = false) :
    Uses d t call u ↔ SumEnds d t call.processExist ∧
      u = UInt64.ofNat (headTotal d t call.processExist) := by
  unfold Uses usedBy
  simp only [hc, Bool.false_eq_true, if_false]
  exact gmemUsed_returns_iff

theorem rejects_of_ignoresUsed (hc : ignoresUsed call.api = true) :
    Rejects d t call n ↔ n > call.ctx.limit := by
  simp [Rejects, uses_of_ignoresUsed hc]

theorem admits_of_ignoresUsed (hc : ignoresUsed call.api = true) :
    Admits d t call n ↔ ¬ n > call.ctx.limit := by
  simp [Admits, uses_of_ignoresUsed hc]

theorem rejects_of_asksUsed (hc : ignoresUsed call.api = false) :
    Rejects d t call n ↔ SumEnds d t call.processExist ∧
      UInt64.ofNat (headTotal d t call.processExist) + n > call.ctx.limit := by
  simp [Rejects, uses_of_asksUsed hc, and_assoc]

theorem admits_of_asksUsed (hc : ignoresUsed call.api = false) :
    Admits d t call n ↔ SumEnds d t call.processExist ∧
      ¬ UInt64.ofNat (headTotal d t call.processExist) + n > call.ctx.limit := by
  simp [Admits, uses_of_asksUsed hc, and_assoc]

/-! ## Where the generations agree -/

/-- The quota check of `n` bytes does not depend on what is used. -/
def CheckIgnoresUsed (d : Dims) (t : Tables) (call : Call) (n : UInt64) : Prop :=
  SumEnds d t call.processExist ∧
    (UInt64.ofNat (headTotal d t call.processExist) + n > call.ctx.limit ↔ n > call.ctx.limit)

/-- An allocator that asks what is used, and one that does not. -/
theorem alike_iff_of_ignoresUsed (hreq : request call.api = some (p, n))
    (hreq' : request (call.withApi c).api = some (p, n)) (hc : ignoresUsed call.api = true)
    (hc' : ignoresUsed (call.withApi c).api = false) :
    Alike d t call (call.withApi c) ↔ CheckIgnoresUsed d t call n := by
  rw [alike_allocators_iff hreq hreq', rejects_of_ignoresUsed hc, admits_of_ignoresUsed hc,
    rejects_of_asksUsed hc', admits_of_asksUsed hc']
  show _ ↔ SumEnds d t call.processExist ∧
    (UInt64.ofNat (headTotal d t call.processExist) + n > call.ctx.limit ↔ _)
  grind [Call.withApi]

/-- The pairs: they have the same request and the same role, and the second generation asks what is
used. -/
theorem sibling_request (hsib : sibling call.api = some c) :
    request (call.withApi c).api = request call.api ∧
      role (call.withApi c).api = role call.api ∧ ignoresUsed (call.withApi c).api = false := by
  show request c = request call.api ∧ role c = role call.api ∧ ignoresUsed c = false
  cases hapi : call.api <;> rw [hapi] at hsib <;> cases hsib <;> simp [request, role, ignoresUsed]

/-- **Where the generations agree**: in a pitched allocation, as far as its quota check does not
depend on what is used, and otherwise always. -/
theorem siblings_alike_iff (hsib : sibling call.api = some c) :
    Alike d t call (call.withApi c) ↔
      ∀ p n, request call.api = some (p, n) → ignoresUsed call.api = true →
        CheckIgnoresUsed d t call n := by
  obtain ⟨hrequest, hrole, hasks⟩ := sibling_request hsib
  cases hreq : request call.api with
  | some r =>
      obtain ⟨p, n⟩ := r
      cases hc : ignoresUsed call.api with
      | true =>
          rw [alike_iff_of_ignoresUsed hreq (hrequest.trans hreq) hc hasks]
          constructor
          · intro hcheck p' n' he _
            cases he
            exact hcheck
          · intro hcheck
            exact hcheck p n rfl rfl
      | false =>
          refine iff_of_true ?_ fun p n _ he => absurd he Bool.false_ne_true
          rw [alike_allocators_iff hreq (hrequest.trans hreq), rejects_of_asksUsed hc,
            admits_of_asksUsed hc, rejects_of_asksUsed hasks, admits_of_asksUsed hasks]
          exact ⟨Iff.rfl, Iff.rfl⟩
  | none =>
      refine iff_of_true ?_ fun p n he => by cases he
      cases hc : role call.api with
      | allocates =>
          exact alike_of_request_none hreq hc (hrequest.trans hreq) (hrole.trans hc)
      | frees h => exact alike_of_frees hc (hrole.trans hc)
      -- no pair is passed through
      | passes => cases hapi : call.api <;> rw [hapi] at hsib hc <;> cases hsib <;> cases hc

instance : Decidable (SumEnds d t pe) :=
  inferInstanceAs (Decidable (∀ s, s < d.lenRnode → Summed t pe s → ¬ SumLoops t s))

instance {n : UInt64} : Decidable (CheckIgnoresUsed d t call n) :=
  inferInstanceAs (Decidable (_ ∧ _))

/-- A pitched allocation of 100 bytes. -/
def pitchedCall (limit : UInt64) : Call :=
  ⟨(1, 0), granted limit, fun _ => true, .cuMemAllocPitch 24 32 10 10 4⟩

/-- With 100 bytes used, a limit of 1000 admits it in both generations. -/
theorem siblings_alike_pitchedCall :
    Alike smallDims afterAllocate (pitchedCall 1000)
      ((pitchedCall 1000).withApi (.cuMemAllocPitch_v2 24 32 10 10 4)) := by
  refine (siblings_alike_iff rfl).mpr ?_
  intro p n hreq _
  have hn : n = 100 := (congrArg Prod.snd (Option.some.inj hreq)).symm
  rw [hn]
  decide

/-- **With 100 bytes used and a limit of 150, only the first generation reaches the driver.** -/
theorem not_siblings_alike :
    ¬ ∀ (d : Dims) (t : Tables) (call : Call) (c : ApiCall), d.lenRnode ≤ d.lenGmem →
      sibling call.api = some c → Alike d t call (call.withApi c) := by
  intro hall
  have halike := hall smallDims afterAllocate (pitchedCall 150)
    (.cuMemAllocPitch_v2 24 32 10 10 4) (by decide) rfl
  have hreq : request (pitchedCall 150).api = some (24, 100) := rfl
  have hcheck := (alike_iff_of_ignoresUsed hreq rfl rfl rfl).mp halike
  exact absurd hcheck (by decide)

end Vcuda.Hijack
