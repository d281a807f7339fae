import Vcuda.Hijack.Calls
import Vcuda.Rnm.Fuel
import Vcuda.Rnm.Termination

/-!
# Applications at work

Processes that allocate and release through the hijacked calls, one call at a time. The tables do
not say which allocations are live, so a `World` is the tables together with the list of them. An
application that behaves keeps each handle in a variable of its own while the allocation lives:
`NewHandle` is what that means for an allocation, `StillHeld` for a release.

A successful call is an operation on the tables (`allocation_step`, `release_step`), and one that
the driver grants ends as its `add_gmem` does (`Granted.returns`, `Granted.faults`). As long as
every handle is new, the record lists are those of the live allocations (`Accounted`).
-/

namespace Vcuda.Hijack

open Traced RNM Tables

/-- A live allocation: whose it is, the variable that holds its handle, the handle, the charge. -/
structure Allocation where
  owner : PidSt
  var : Ptr
  handle : Handle
  bytes : UInt64
  deriving DecidableEq

structure World where
  tables : Tables
  live : List Allocation

/-- A call of the process `key`. -/
structure Call where
  key : PidSt
  ctx : Context
  processExist : RNode → Bool
  api : ApiCall

def Call.exec (d : Dims) (fuel : Nat) (call : Call) : Exec Tables CUresult :=
  hijacked (rnmLedger d fuel call.key call.processExist) call.ctx call.api

/-- In the memory `mem`, the variables of the live allocations of `key` hold their handles. -/
def StillHeld (live : List Allocation) (key : PidSt) (mem : HostMem) : Prop :=
  ∀ a ∈ live, a.owner = key → mem a.var = a.handle

/-- The call has the driver put a new handle into the variable `p`, which no other allocation of the
process uses. -/
structure NewHandle (live : List Allocation) (call : Call) (p : Ptr) : Prop where
  var : p ≠ 0
  own : ∀ a ∈ live, a.owner = call.key → a.var ≠ p
  handle : ∀ a ∈ live, a.owner = call.key → a.handle ≠ call.ctx.reply.mem p
  held : StillHeld live call.key call.ctx.reply.mem

instance {live : List Allocation} {key : PidSt} {mem : HostMem} :
    Decidable (StillHeld live key mem) :=
  inferInstanceAs (Decidable (∀ a ∈ live, a.owner = key → mem a.var = a.handle))

instance {live : List Allocation} {call : Call} {p : Ptr} : Decidable (NewHandle live call p) :=
  decidable_of_iff (p ≠ 0 ∧ (∀ a ∈ live, a.owner = call.key → a.var ≠ p) ∧
      (∀ a ∈ live, a.owner = call.key → a.handle ≠ call.ctx.reply.mem p) ∧
      StillHeld live call.key call.ctx.reply.mem)
    ⟨fun h => ⟨h.1, h.2.1, h.2.2.1, h.2.2.2⟩, fun h => ⟨h.var, h.own, h.handle, h.held⟩⟩

/-- The allocation that the call makes. -/
def Call.allocation (call : Call) (p : Ptr) (n : UInt64) : Allocation :=
  ⟨call.key, p, call.ctx.reply.mem p, n⟩

/-- A successful allocation of a new handle. -/
def AllocStep (d : Dims) (w : World) (call : Call) (w' : World) : Prop :=
  ∃ p n, request call.api = some (p, n) ∧ NewHandle w.live call p ∧
    (∃ fuel, Returns (call.exec d fuel) w.tables .CUDA_SUCCESS w'.tables) ∧
    w'.live = call.allocation p n :: w.live

variable {d : Dims} {t t' : Tables} {call : Call} {c : ApiCall} {key : PidSt} {p : Ptr}
  {n used : UInt64} {h : Handle} {ret : CUresult} {fuel fuel' : Nat} {pe : RNode → Bool}
  {w w' : World} {mem : HostMem}

theorem recordBy_rnmLedger :
    recordBy (rnmLedger d fuel key pe) c mem p n = RNM.addGmem d fuel key mem p n := by
  cases c <;> rfl

theorem usedBy_returns (hr : Returns (usedBy (rnmLedger d fuel key pe) c) t used t') : t' = t := by
  obtain ⟨tr, hr⟩ := hr
  unfold usedBy at hr
  split at hr
  · obtain ⟨_, rfl, _⟩ := runs_pure.mp hr
    rfl
  · obtain ⟨rfl, _⟩ := gmemUsed_runs hr
    rfl

/-! ## Successful calls -/

/-- **A successful allocation is an `add_gmem`**, after the quota check. -/
theorem allocation_step (hreq : request call.api = some (p, n))
    (hr : Returns (call.exec d fuel) t .CUDA_SUCCESS t') :
    call.ctx.reply.result = .CUDA_SUCCESS ∧
      Step d t (.addGmem call.key call.ctx.reply.mem p n) t' := by
  obtain ⟨tr, hr⟩ := hr
  obtain ⟨used, s₁, hused, ⟨_, hret, _⟩ | ⟨_, hbad, hret, _⟩ | ⟨_, hok, _, hrec⟩⟩ :=
    hijacked_runs_of_request hreq hr
  · cases hret
  · exact absurd hret.symm hbad
  · rw [usedBy_returns hused, recordBy_rnmLedger] at hrec
    exact ⟨hok, fuel, hrec⟩

/-- **A release is a `remove_gmem`.** -/
theorem release_step (hc : role call.api = .frees h) (hr : Returns (call.exec d fuel) t ret t') :
    Step d t (.removeGmem call.key call.ctx.mem h) t' := by
  obtain ⟨tr, hr⟩ := hr
  exact ⟨fuel, (hijacked_runs_of_free hc hr).2⟩

/-! ## More fuel -/

theorem usedBy_approx (hle : fuel ≤ fuel') :
    Approx .outOfFuel (usedBy (rnmLedger d fuel key pe) c)
      (usedBy (rnmLedger d fuel' key pe) c) := by
  unfold usedBy
  exact (Approx.refl _).ite (gmemUsed_approx hle)

/-! ## Granted allocations -/

/-- The request passes the quota check, and the driver grants it. -/
structure Granted (d : Dims) (t : Tables) (call : Call) (n : UInt64) : Prop where
  driver : call.ctx.reply.result = .CUDA_SUCCESS
  quota : ∃ fuel used, Returns (usedBy (rnmLedger d fuel call.key call.processExist) call.api)
    t used t ∧ ¬ used + n > call.ctx.limit

theorem granted_of_returns (hreq : request call.api = some (p, n))
    (hr : Returns (call.exec d fuel) t .CUDA_SUCCESS t') : Granted d t call n := by
  obtain ⟨tr, hr⟩ := hr
  obtain ⟨used, s₁, hused, ⟨_, hret, _⟩ | ⟨_, hbad, hret, _⟩ | ⟨hfits, hok, _, _⟩⟩ :=
    hijacked_runs_of_request hreq hr
  · cases hret
  · exact absurd hret.symm hbad
  · obtain rfl := usedBy_returns hused
    exact ⟨hok, fuel, used, hused, hfits⟩

theorem usedBy_faults {e : Fault} (hf : Faults (usedBy (rnmLedger d fuel key pe) c) t e) :
    e = .outOfFuel := by
  unfold usedBy at hf
  split at hf
  · exact absurd hf faults_pure
  · exact gmemUsed_faults hf

/-- Only a granted allocation can fault. -/
theorem granted_of_faults {e : Fault} (hreq : request call.api = some (p, n))
    (hf : Faults (call.exec d fuel) t e) (he : e ≠ .outOfFuel) :
    Granted d t call n ∧ Faults (RNM.addGmem d fuel call.key call.ctx.reply.mem p n) t e := by
  rw [Call.exec, hijacked_of_request hreq] at hf
  rcases faults_bind.mp hf with hused | ⟨used, t', tr, hused, hrest⟩
  · exact absurd (usedBy_faults hused) he
  · obtain rfl := usedBy_returns hused.returns
    obtain ⟨hfits, hok, hrec⟩ := guardedCall_faults.mp hrest
    rw [recordBy_rnmLedger] at hrec
    exact ⟨⟨hok, fuel, used, hused.returns, hfits⟩, hrec⟩

/-- A granted allocation ends as its `add_gmem` does. -/
theorem Granted.returns (hg : Granted d t call n) (hreq : request call.api = some (p, n))
    (hadd : Returns (RNM.addGmem d fuel call.key call.ctx.reply.mem p n) t () t') :
    ∃ fuel', Returns (call.exec d fuel') t .CUDA_SUCCESS t' := by
  obtain ⟨fuel₀, used, hused, hfits⟩ := hg.quota
  have hused' := (usedBy_approx (Nat.le_max_left fuel₀ fuel)).returns hused
  have hadd' := (addGmem_approx (Nat.le_max_right fuel₀ fuel)).returns hadd
  refine ⟨max fuel₀ fuel, ?_⟩
  rw [Call.exec, hijacked_of_request hreq]
  refine hused'.bind (guardedCall_of_granted hfits hg.driver ?_)
  rw [recordBy_rnmLedger]
  exact hadd'

theorem Granted.faults {e : Fault} (hg : Granted d t call n)
    (hreq : request call.api = some (p, n)) (he : e ≠ .outOfFuel)
    (hadd : Faults (RNM.addGmem d fuel call.key call.ctx.reply.mem p n) t e) :
    ∃ fuel', Faults (call.exec d fuel') t e := by
  obtain ⟨fuel₀, used, hused, hfits⟩ := hg.quota
  have hused' := (usedBy_approx (Nat.le_max_left fuel₀ fuel)).returns hused
  have hadd' := (addGmem_approx (Nat.le_max_right fuel₀ fuel)).faults hadd he
  refine ⟨max fuel₀ fuel, ?_⟩
  rw [Call.exec, hijacked_of_request hreq, hused'.faults_bind_iff]
  refine guardedCall_faults.mpr ⟨hfits, hg.driver, ?_⟩
  rw [recordBy_rnmLedger]
  exact hadd'

/-- A new handle is in none of the variables that the process already has. -/
theorem NewHandle.not_hit {live : List Allocation} {a : Allocation} {i : Int}
    (hnew : NewHandle live call p) (ha : a ∈ live) (howner : a.owner = call.key)
    (hptr : (t.gmem i).ptr = a.var) :
    ¬ t.Hit call.ctx.reply.mem (call.ctx.reply.mem p) i := by
  intro hhit
  have hvalue := hhit.2
  rw [hptr, hnew.held a ha howner] at hvalue
  exact hnew.handle a ha howner hvalue

/-! ## The record lists of live allocations -/

/-- The record lists `c` of the processes, each record for one of its process's live allocations. -/
structure Accounted (d : Dims) (w : World) (c : Nat → List Int) : Prop where
  sound : Sound d w.tables
  lists : RecordLists d w.tables c
  named : ∀ s, Exists d w.tables s → ∀ g ∈ c s,
    ∃ a ∈ w.live, a.owner = w.tables.keyOf s ∧ (w.tables.gmem g).ptr = a.var

variable {c : Nat → List Int} {live : List Allocation} {t₁ : Tables} {s : Nat} {x : Int}
  {l reg : List Int}

theorem accounted_of_fresh (hf : Fresh d t) (hs : t.Sentinel) :
    ∃ c, Accounted d ⟨t, []⟩ c := by
  obtain ⟨c, hc⟩ := repInv_of_fresh hf
  exact ⟨c, sound_of_fresh hf hs, hc, fun s hex => absurd hex (not_exists_of_fresh hf)⟩

theorem Accounted.acquire (hacc : Accounted d ⟨t, live⟩ c) (hacq : Acquires d t key s t₁) :
    ∃ c₁, Accounted d ⟨t₁, live⟩ c₁ := by
  obtain ⟨hs, hw, hk⟩ := hacc.sound
  obtain ⟨c₁, hc₁, hsub⟩ := hacc.lists.acquire hs hacq
  have hs₁ : t₁.Sentinel := hs.congr (by rw [hacq.gmem])
  refine ⟨c₁, ⟨hs₁, hacq.wired hw, hacq.keyed hk⟩, hc₁, ?_⟩
  intro s' hex' g hg
  obtain ⟨hex, hg⟩ := hsub s' g hg hex'
  obtain ⟨a, ha, howner, hptr⟩ := hacc.named s' hex g hg
  have hfull := hacq.slots_of_full (slots_eq_full.mpr ⟨hex, howner.symm⟩)
  refine ⟨a, ha, (slots_eq_full.mp hfull).2.symm, ?_⟩
  rw [hacq.gmem]
  exact hptr

/-- The search for a new handle ends behind the list. -/
theorem Accounted.not_hit (hacc : Accounted d ⟨t, live⟩ c) (hnew : NewHandle live call p)
    (hex : Exists d t s) (hkey : t.keyOf s = call.key)
    (hwalk : Walk t.next (t.Miss call.ctx.reply.mem (call.ctx.reply.mem p)) (t.entry s) l x) :
    ¬ t.Hit call.ctx.reply.mem (call.ctx.reply.mem p) x := by
  intro hhit
  obtain ⟨l₂, hl, _⟩ :=
    chain_split_at_hit hacc.sound.sentinel (hacc.lists.chain s hex) hwalk hhit.1
  obtain ⟨a, ha, howner, hptr⟩ := hacc.named s hex x (by simp [hl])
  exact hnew.not_hit ha (howner.trans hkey) hptr hhit

/-- **A new handle goes to a new record**, if there is one. -/
theorem Accounted.registers (hacc : Accounted d ⟨t, live⟩ c) (hnew : NewHandle live call p)
    (hex : Exists d t s) (hkey : t.keyOf s = call.key)
    (hr : Registers d t call.ctx.reply.mem s p n t' reg) :
    (∃ j, firstEmpty d t = some j ∧ Links (putNew t j p n) s j t') ∨
    (firstEmpty d t = none ∧ t' = t) := by
  obtain ⟨l, x, hwalk, ⟨_, j, hj, hl, _⟩ | ⟨_, hfull, hl, _⟩ | ⟨hhit, _⟩⟩ := hr
  · exact Or.inl ⟨j, hj, hl⟩
  · exact Or.inr ⟨hfull, hl.eq_of_sentinel⟩
  · exact absurd hhit (hacc.not_hit hnew hex hkey hwalk)

/-- What a registration leaves of the records in use. -/
theorem ptr_of_registered {j : Nat} (hj : firstEmpty d t = some j)
    (hl : Links (putNew t j p n) s j t') {g : Int} (hg : t.Live g) :
    (t'.gmem g).ptr = (t.gmem g).ptr ∧ (t'.gmem g).bytes = (t.gmem g).bytes := by
  have hgj : g ≠ j := fun he => (firstEmpty_eq_some.mp hj).2.1 (he ▸ hg)
  have hold : (putNew t j p n).gmem g = t.gmem g := modifyGmem_gmem_ne hgj
  rw [← hold]
  exact hl.ptr_bytes g

theorem Accounted.push {j : Nat} (hacc : Accounted d ⟨t, live⟩ c) (hsound : Sound d t')
    (hp : p ≠ 0) (hex : Exists d t s) (hkey : t.keyOf s = call.key)
    (hj : firstEmpty d t = some j) (hl : Links (putNew t j p n) s j t') :
    Accounted d ⟨t', call.allocation p n :: live⟩ (Function.update c s (c s ++ [(j : Int)])) := by
  have hslots : slots d t' = slots d t := hl.slots
  refine ⟨hsound, hacc.lists.push hacc.sound.sentinel hex hp hj hl, ?_⟩
  intro s' hex' g hg
  have hex₀ : Exists d t s' := (exists_congr hslots).mp hex'
  have hkey' : t'.keyOf s' = t.keyOf s' := keyOf_of_slots hslots hex₀
  -- a record that was on the list of `s'` before
  have hold : g ∈ c s' → ∃ a ∈ call.allocation p n :: live,
      a.owner = t'.keyOf s' ∧ (t'.gmem g).ptr = a.var := by
    intro hg
    obtain ⟨a, ha, howner, hptr⟩ := hacc.named s' hex₀ g hg
    refine ⟨a, List.mem_cons_of_mem _ ha, howner.trans hkey'.symm, ?_⟩
    exact (ptr_of_registered hj hl (hacc.lists.live hex₀ hg)).1.trans hptr
  by_cases hne : s' = s
  · subst hne
    rw [Function.update_self] at hg
    rcases List.mem_append.mp hg with hg | hg
    · exact hold hg
    · obtain rfl := List.mem_singleton.mp hg
      refine ⟨_, List.mem_cons_self, (hkey'.trans hkey).symm, ?_⟩
      rw [(hl.ptr_bytes _).1]
      show ((putNew t j p n).gmem j).ptr = p
      rw [putNew, modifyGmem_gmem_self]
      rfl
  · rw [Function.update_of_ne hne] at hg
    exact hold hg

/-- **An allocation of a new handle keeps the lists those of the live allocations.** -/
theorem AllocStep.accounted (hacc : Accounted d w c) (hstep : AllocStep d w call w') :
    ∃ c', Accounted d w' c' := by
  obtain ⟨p, n, hreq, hnew, ⟨fuel, hr⟩, hlive⟩ := hstep
  obtain ⟨t, live⟩ := w
  obtain ⟨t', live'⟩ := w'
  obtain rfl : live' = call.allocation p n :: live := hlive
  obtain ⟨_, hadd⟩ := allocation_step hreq hr
  have hsound : Sound d t' := hacc.sound.step hadd trivial
  obtain ⟨hp, s, t₁, reg, hacq, hreg⟩ := step_addGmem hacc.sound.sentinel hadd
  obtain ⟨c₁, hacc₁⟩ := hacc.acquire hacq
  have hex := hacq.exists_self
  have hkey := hacq.keyOf_self
  rcases hacc₁.registers hnew hex hkey hreg with ⟨j, hj, hl⟩ | ⟨_, rfl⟩
  · exact ⟨_, hacc₁.push hsound hp hex hkey hj hl⟩
  · refine ⟨c₁, hsound, hacc₁.lists, ?_⟩
    intro s' hex' g hg
    obtain ⟨a, ha, howner, hptr⟩ := hacc₁.named s' hex' g hg
    exact ⟨a, List.mem_cons_of_mem _ ha, howner, hptr⟩

/-! ## Making the calls -/

/-- What an allocation leads to. -/
def allocNext (d : Dims) (fuel : Nat) (w : World) (call : Call) : World :=
  match request call.api with
  | some (p, n) => ⟨(call.exec d fuel w.tables).state, call.allocation p n :: w.live⟩
  | none => w

/-- It is one of a new handle, and succeeds. -/
def allocOk (d : Dims) (fuel : Nat) (w : World) (call : Call) : Bool :=
  match request call.api, (call.exec d fuel w.tables).result with
  | some (p, _), .ok .CUDA_SUCCESS => decide (NewHandle w.live call p)
  | _, _ => false

theorem allocStep_allocNext (hok : allocOk d fuel w call = true) :
    AllocStep d w call (allocNext d fuel w call) := by
  unfold allocOk at hok
  split at hok
  · next p n hreq hres =>
    unfold allocNext
    rw [hreq]
    exact ⟨p, n, hreq, of_decide_eq_true hok, ⟨fuel, (runs_of_ok hres).returns⟩, rfl⟩
  · cases hok

/-- A call of the process `key` that the driver grants. -/
def grantedCall (key : PidSt) (api : ApiCall) : Call := ⟨key, granted 1000, fun _ => true, api⟩

end Vcuda.Hijack
