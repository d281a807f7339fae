import Vcuda.Common.Text
import Vcuda.Hijack.Accounting
import Vcuda.Hijack.Generations
import Vcuda.Hijack.Stalls

/-!
# The limit

The limit is what `GPU_MEM_LIMIT` is set to, and `0` when it is not set: then there is no memory at
all (`no_memory_without_limit`). This is the only limit that is always kept (`limit_kept_iff`).
-/

namespace Vcuda.Hijack

open Traced RNM Tables

/-- With what `secure_getenv` returns for `GPU_MEM_LIMIT`. -/
def getSharedGPUMemLimit (gmlSptr : Option (List Char)) : UInt64 :=
  match gmlSptr with
  | some str => strtoul str
  | none => 0

/-- The digits that `strtoul` reads. -/
def digitsOf (str : List Char) : List Char :=
  (signed (str.dropWhile isspace)).2.takeWhile Char.isDigit

/-- `GPU_MEM_LIMIT` does not give a limit: it is not set, or does not start with a number, or that
is zero. -/
def NoLimit (gmlSptr : Option (List Char)) : Prop :=
  ∀ str, gmlSptr = some str → ∀ c ∈ digitsOf str, c = '0'

/-- A call returns, whatever it returns. -/
def CallStep (d : Dims) (t : Tables) (call : Call) (t' : Tables) : Prop :=
  ∃ fuel ret, Returns (call.exec d fuel) t ret t'

/-- A successful allocation of a new handle or a successful release, under the limit. -/
def LimitedStep (d : Dims) (limit : UInt64) (w : World) (call : Call) (w' : World) : Prop :=
  call.ctx.limit = limit ∧ (AllocStep d w call w' ∨ FreeStep d w call w')

variable {d : Dims} {t t' t₁ : Tables} {call : Call} {key : PidSt} {mem : HostMem} {p : Ptr}
  {n limit : UInt64} {s fuel : Nat} {reg : List Int} {w w' : World}

/-! ## Reading the variable -/

theorem ofDigitChars_eq_zero_iff {l : List Char} {m : Nat} (hl : ∀ c ∈ l, c.isDigit = true) :
    Nat.ofDigitChars 10 l m = 0 ↔ m = 0 ∧ ∀ c ∈ l, c = '0' := by
  induction l generalizing m with
  | nil => simp
  | cons c l ih =>
      obtain ⟨hc, hl⟩ := List.forall_mem_cons.mp hl
      have hchar : c.toNat - '0'.toNat = 0 ↔ c = '0' := by
        obtain ⟨hge, _⟩ := toNat_of_isDigit hc
        constructor
        · intro h
          apply Char.toNat_inj.mp
          show c.toNat = 48
          change c.toNat - 48 = 0 at h
          omega
        · rintro rfl
          rfl
      rw [Nat.ofDigitChars_cons, ih hl, Nat.add_eq_zero_iff, hchar, List.forall_mem_cons]
      simp only [Nat.mul_eq_zero, OfNat.ofNat_ne_zero, false_or, and_assoc]

theorem strtoul_eq_zero_iff {str : List Char} :
    strtoul str = 0 ↔ ∀ c ∈ digitsOf str, c = '0' := by
  have hdigits : ∀ c ∈ digitsOf str, c.isDigit = true := fun c hc => List.mem_takeWhile_imp hc
  have hmag : magnitude (signed (str.dropWhile isspace)).2 = 0 ↔ ∀ c ∈ digitsOf str, c = '0' := by
    rw [magnitude, ← digitsOf, ofDigitChars_eq_zero_iff hdigits]
    simp
  rw [← hmag]
  generalize hx : signed (str.dropWhile isspace) = x
  unfold strtoul
  rw [hx]
  obtain ⟨minus, digits⟩ := x
  dsimp only
  split
  · next hlarge => exact iff_of_false (by decide) (by omega)
  · next hsmall =>
    have hzero : UInt64.ofNat (magnitude digits) = 0 ↔ magnitude digits = 0 := by
      rw [← UInt64.toNat_inj, UInt64.toNat_ofNat', UInt64.toNat_zero]
      omega
    split
    · rw [← hzero, ← UInt64.neg_inj, UInt64.neg_neg, UInt64.neg_zero]
    · exact hzero

theorem getSharedGPUMemLimit_eq_zero_iff {gmlSptr : Option (List Char)} :
    getSharedGPUMemLimit gmlSptr = 0 ↔ NoLimit gmlSptr := by
  cases gmlSptr with
  | none => exact iff_of_true rfl nofun
  | some str =>
      show strtoul str = 0 ↔ _
      rw [strtoul_eq_zero_iff]
      simp [NoLimit]

/-- A limit that is written out is read back. -/
theorem getSharedGPUMemLimit_decimal (n : UInt64) :
    getSharedGPUMemLimit (some (decimal n.toNat)) = n := by
  show strtoul _ = n
  rw [strtoul_decimal n.toNat_lt, UInt64.ofNat_toNat]

/-! ## No memory at all -/

/-- **What a call does to the tables**: nothing, or what its `add_gmem` or `remove_gmem` does. -/
theorem CallStep.cases (hstep : CallStep d t call t') :
    t' = t ∨
    (∃ p n, request call.api = some (p, n) ∧ Admits d t call n ∧
      Step d t (.addGmem call.key call.ctx.reply.mem p n) t') ∨
    ∃ h, Step d t (.removeGmem call.key call.ctx.mem h) t' := by
  obtain ⟨fuel, ret, hr⟩ := hstep
  cases hc : role call.api with
  | allocates =>
      obtain ⟨p, n, hreq⟩ := request_of_runs hr.choose_spec hc
      rcases (allocator_returns_iff hreq).mp ⟨fuel, hr⟩ with
        ⟨_, _, rfl⟩ | ⟨hadmits, ⟨_, _, rfl⟩ | ⟨_, _, hadd⟩⟩
      · exact Or.inl rfl
      · exact Or.inl rfl
      · exact Or.inr (Or.inl ⟨p, n, hreq, hadmits, hadd⟩)
  | frees h => exact Or.inr (Or.inr ⟨h, release_step hc hr⟩)
  | passes => exact Or.inl (hijacked_runs_of_passes hc hr.choose_spec)

/-- At most one operation on the tables, for the process that makes the call. -/
theorem CallStep.step (hstep : CallStep d t call t') :
    t' = t ∨ ∃ op, op.IsBook ∧ Step d t op t' ∧ ∀ k, op.registers = some k → k = call.key := by
  rcases hstep.cases with rfl | ⟨p, n, _, _, hadd⟩ | ⟨h, hremove⟩
  · exact Or.inl rfl
  · exact Or.inr ⟨.addGmem call.key call.ctx.reply.mem p n, trivial, hadd,
      fun k hk => (Option.some.inj hk).symm⟩
  · exact Or.inr ⟨.removeGmem call.key call.ctx.mem h, trivial, hremove, nofun⟩

/-- A record has the size it had, or the one that was registered. -/
theorem bytes_of_registers (hreg : Registers d t mem s p n t' reg) (g : Int) :
    (t'.gmem g).bytes = n ∨ (t'.gmem g).bytes = (t.gmem g).bytes := by
  have hset : ∀ (i : Int) (f : GMem → GMem), (∀ gm, (f gm).bytes = n) →
      ((t.modifyGmem i f).gmem g).bytes = n ∨
        ((t.modifyGmem i f).gmem g).bytes = (t.gmem g).bytes := by
    intro i f hf
    by_cases hg : g = i
    · subst hg
      rw [modifyGmem_gmem_self]
      exact Or.inl (hf _)
    · rw [modifyGmem_gmem_ne hg]
      exact Or.inr rfl
  obtain ⟨_, x, _, ⟨_, j, _, hl, _⟩ | ⟨_, _, hl, _⟩ | ⟨_, hl, _⟩⟩ := hreg
  · rw [(hl.ptr_bytes g).2]
    exact hset j _ fun _ => rfl
  · rw [(hl.ptr_bytes g).2]
    exact Or.inr rfl
  · rw [(hl.ptr_bytes g).2]
    exact hset x _ fun _ => rfl

/-- No record has a size. -/
structure NoBytes (d : Dims) (t : Tables) : Prop where
  sound : Sound d t
  bytes : ∀ g, InRange d g → (t.gmem g).bytes = 0

theorem noBytes_of_fresh (hf : Fresh d t) (hs : t.Sentinel) : NoBytes d t := by
  refine ⟨sound_of_fresh hf hs, fun g hg => ?_⟩
  rw [hf.gmem g hg]
  rfl

theorem NoBytes.headTotal (h : NoBytes d t) (pe : RNode → Bool) : headTotal d t pe = 0 := by
  apply Finset.sum_eq_zero
  intro s hs
  unfold slotBytes
  split
  · next hsum =>
    unfold startBytes
    split
    · next hentry =>
      have hex : Exists d t s := ⟨Finset.mem_range.mp hs, hsum.1⟩
      rcases h.sound.wired.entry s hex with hempty | hrange
      · rw [hempty] at hentry
        exact absurd hentry (by simp)
      · rw [h.bytes _ hrange]
        rfl
    · rfl
  · rfl

/-- **Only empty requests pass the check.** -/
theorem NoBytes.admits_iff (h : NoBytes d t) (hzero : call.ctx.limit = 0) :
    Admits d t call n ↔ n = 0 ∧ (ignoresUsed call.api = true ∨ SumEnds d t call.processExist) := by
  have hpos : ∀ {n : UInt64}, ¬ n > 0 ↔ n = 0 := by
    intro n
    rw [gt_iff_lt, UInt64.not_lt, UInt64.le_zero_iff]
  cases hc : ignoresUsed call.api with
  | true =>
      rw [admits_of_ignoresUsed hc, hzero, hpos]
      simp
  | false =>
      rw [admits_of_asksUsed hc, h.headTotal, hzero]
      show _ ∧ ¬ 0 + n > 0 ↔ _
      rw [UInt64.zero_add, hpos]
      simp [and_comm]

theorem NoBytes.step (h : NoBytes d t) (hzero : call.ctx.limit = 0)
    (hstep : CallStep d t call t') : NoBytes d t' := by
  rcases hstep.cases with rfl | ⟨p, n, _, hadmits, hadd⟩ | ⟨x, hremove⟩
  · exact h
  · obtain ⟨rfl, _⟩ := (h.admits_iff hzero).mp hadmits
    obtain ⟨_, s, t₁, reg, hacq, hreg⟩ := step_addGmem h.sound.sentinel hadd
    refine ⟨h.sound.step hadd trivial, fun g hg => ?_⟩
    rcases bytes_of_registers hreg g with hbytes | hbytes
    · exact hbytes
    · rw [hbytes, hacq.gmem]
      exact h.bytes g hg
  · refine ⟨h.sound.step hremove trivial, fun g hg => ?_⟩
    rcases step_removeGmem h.sound.sentinel hremove with
      ⟨_, rfl⟩ | ⟨s, l, x, _, _, ⟨_, rfl⟩ | ⟨_, rfl⟩⟩
    · exact h.bytes g hg
    · exact h.bytes g hg
    · rw [unlink_bytes]
      exact h.bytes g hg

/-- **Without a limit there is no memory**: whatever the processes call, the driver is never asked
for memory, but for nothing, and a call that asks for some can only be turned down. -/
theorem no_memory_without_limit {r : List (Call × Tables)} (hf : Fresh d t) (hs : t.Sentinel)
    (hr : Along (CallStep d) t r) (hlimit : ∀ x ∈ r, x.1.ctx.limit = 0)
    (hzero : call.ctx.limit = 0) (hreq : request call.api = some (p, n)) :
    (CallsDriver d (final t r) call ↔
      n = 0 ∧ (ignoresUsed call.api = true ∨ SumEnds d (final t r) call.processExist)) ∧
    (n ≠ 0 → ∀ ret t', (∃ fuel, Returns (call.exec d fuel) (final t r) ret t') →
      ret = .CUDA_ERROR_OUT_OF_MEMORY ∧ t' = final t r) := by
  have hnone : NoBytes d (final t r) := by
    have hr := hr.and_label (L := fun call => call.ctx.limit = 0) hlimit
    refine Along.invariant_states (noBytes_of_fresh hf hs) hr ?_ _ (final_mem_states t r)
    exact fun t call t' h hstep => h.step hstep.2 hstep.1
  constructor
  · rw [allocator_callsDriver_iff hreq]
    exact hnone.admits_iff hzero
  · intro hn ret t' hret
    rcases (allocator_returns_iff hreq).mp hret with ⟨_, hout⟩ | ⟨hadmits, _⟩
    · exact hout
    · exact absurd ((hnone.admits_iff hzero).mp hadmits).1 hn

def callNext (d : Dims) (fuel : Nat) (t : Tables) (call : Call) : Tables :=
  (call.exec d fuel t).state

theorem along_callNext {calls : List Call}
    (hok : allSteps (callNext d fuel) (fun t call => (call.exec d fuel t).result.isOk) t calls =
      true) : Along (CallStep d) t (trajectory (callNext d fuel) t calls) := by
  apply along_trajectory _ hok
  intro t call hok
  cases hx : (call.exec d fuel t).result with
  | error e =>
      rw [hx] at hok
      cases hok
  | ok ret => exact ⟨fuel, ret, (runs_of_ok hx).returns⟩

/-- A call of the process `key` without a limit, which the driver would grant. -/
def unlimitedCall (key : PidSt) (api : ApiCall) : Call := ⟨key, granted 0, alive, api⟩

/-- A process gets nothing, and another one does not get something. -/
def emptyHanded : List Call :=
  [unlimitedCall (1, 0) (.cuMemAlloc 16 0), unlimitedCall (2, 0) (.cuMemAlloc_v2 24 30)]

theorem no_memory_emptyHanded :
    ¬ CallsDriver smallDims (final initialTables (trajectory (callNext smallDims 3) initialTables
      emptyHanded)) (unlimitedCall (1, 0) (.cuMemAllocManaged 32 5 1)) := by
  have hlimit : ∀ x ∈ trajectory (callNext smallDims 3) initialTables emptyHanded,
      x.1.ctx.limit = 0 :=
    forall_label_trajectory (L := fun call : Call => call.ctx.limit = 0) |>.mpr
      (List.forall_mem_cons.mpr ⟨rfl, List.forall_mem_singleton.mpr rfl⟩)
  intro hcalls
  have hempty := (no_memory_without_limit (fresh_initialTables smallDims) sentinel_initialTables
    (along_callNext (by decide)) hlimit rfl rfl).1.mp hcalls
  exact absurd hempty.1 (by decide)

/-! ## Which limits are kept -/

/-- An allocation of as much as the limit, which passes the check whatever is used. -/
def takeLimit (limit : UInt64) (p : Ptr) : Call :=
  ⟨(1, 0), granted limit, alive, .cuMemAllocPitch p 8 limit 1 1⟩

theorem request_takeLimit : request (takeLimit limit p).api = some (p, limit) := by
  have hone : limit * 1 % 1 = 0 := by
    rw [← UInt64.toNat_inj, UInt64.toNat_mod]
    exact Nat.mod_one _
  show (pitchedSize limit 1 1).map (p, ·) = _
  have hsize : pitchedSize limit 1 1 = some (roundedUp (limit * 1) 1) := rfl
  rw [hsize, roundedUp, hone, UInt64.mul_one]
  rfl

theorem Alone.exists_takeLimit (h : Alone d (1, 0) w)
    (hnew : NewHandle w.live (takeLimit limit p) p) :
    ∃ w', AllocStep d w (takeLimit limit p) w' ∧
      w'.live = (takeLimit limit p).allocation p limit :: w.live := by
  obtain ⟨c, hacc⟩ := h.accounted
  obtain ⟨s, t₁, (hacq : Acquires d w.tables (takeLimit limit p).key s t₁)⟩ := h.acquires
  have hgranted : Granted d w.tables (takeLimit limit p) limit := by
    refine ⟨rfl, 0, 0, returns_pure 0 w.tables, ?_⟩
    rw [UInt64.zero_add]
    exact UInt64.not_lt.mpr (UInt64.le_refl limit)
  obtain ⟨fuel, t', hadd⟩ := hacc.addGmem_returns (n := limit) hacq hnew.var
  obtain ⟨fuel', hr⟩ := hgranted.returns request_takeLimit hadd
  exact ⟨⟨t', _⟩, ⟨p, limit, request_takeLimit, hnew, ⟨fuel', hr⟩, rfl⟩, rfl⟩

/-- Two of them exceed it. -/
theorem exists_charged_gt (hf : Fresh d t) (hs : t.Sentinel) (hlimit : limit ≠ 0) :
    ∃ r, Along (LimitedStep d limit) ⟨t, []⟩ r ∧
      limit.toNat < charged (final ⟨t, []⟩ r).live := by
  have hfirst : NewHandle [] (takeLimit limit 16) 16 := ⟨by decide, nofun, nofun, nofun⟩
  obtain ⟨w₁, hstep₁, hlive₁⟩ := (alone_of_fresh hf hs).exists_takeLimit hfirst
  have halone : Alone d (1, 0) w₁ := (alone_of_fresh hf hs).step rfl hstep₁
  have hnew : NewHandle w₁.live (takeLimit limit 24) 24 := by
    have hmem : ∀ a ∈ w₁.live, a = (takeLimit limit 16).allocation 16 limit := by
      rw [hlive₁]
      simp
    refine ⟨by decide, ?_, ?_, ?_⟩ <;> intro a ha _ <;> rw [hmem a ha]
    · show (16 : Ptr) ≠ 24
      decide
    · show (16 : Handle) ≠ 24
      decide
    · rfl
  obtain ⟨w₂, hstep₂, hlive₂⟩ := halone.exists_takeLimit hnew
  refine ⟨[(takeLimit limit 16, w₁), (takeLimit limit 24, w₂)],
    ⟨⟨rfl, Or.inl hstep₁⟩, ⟨rfl, Or.inl hstep₂⟩, trivial⟩, ?_⟩
  show limit.toNat < charged w₂.live
  have hpos : limit.toNat ≠ 0 := fun h => hlimit (UInt64.toNat_inj.mp h)
  rw [hlive₂, hlive₁, charged_cons, charged_cons]
  show limit.toNat < limit.toNat + (limit.toNat + 0)
  omega

/-- With no limit nothing is charged. -/
theorem LimitedStep.noBytes (h : NoBytes d w.tables ∧ charged w.live = 0)
    (hstep : LimitedStep d 0 w call w') : NoBytes d w'.tables ∧ charged w'.live = 0 := by
  obtain ⟨hnone, hcharged⟩ := h
  obtain ⟨hzero, ⟨p, n, hreq, _, ⟨fuel, hr⟩, hlive⟩ | ⟨a, ha, _, _, _, ⟨fuel, hr⟩, hlive⟩⟩ := hstep
  · refine ⟨hnone.step hzero ⟨fuel, _, hr⟩, ?_⟩
    obtain ⟨_, used, hused, hfits⟩ := (granted_of_returns hreq hr).quota
    obtain ⟨rfl, _⟩ := (hnone.admits_iff hzero).mp ⟨used, ⟨_, hused⟩, hfits⟩
    rw [hlive, charged_cons, hcharged]
    rfl
  · refine ⟨hnone.step hzero ⟨fuel, _, hr⟩, ?_⟩
    have hle := charged_erase ha
    rw [hlive]
    omega

/-- **When the limit is kept**: if in all runs, then there is none. Every other limit is exceeded in
some run. -/
theorem limit_kept_iff (hf : Fresh d t) (hs : t.Sentinel) (gmlSptr : Option (List Char)) :
    (∀ r, Along (LimitedStep d (getSharedGPUMemLimit gmlSptr)) ⟨t, []⟩ r →
      ∀ w ∈ states ⟨t, []⟩ r, charged w.live ≤ (getSharedGPUMemLimit gmlSptr).toNat) ↔
      NoLimit gmlSptr := by
  rw [← getSharedGPUMemLimit_eq_zero_iff]
  generalize getSharedGPUMemLimit gmlSptr = limit
  constructor
  · intro hall
    by_contra hlimit
    obtain ⟨r, hr, hgt⟩ := exists_charged_gt hf hs hlimit
    exact absurd (hall r hr _ (final_mem_states _ r)) (Nat.not_le_of_lt hgt)
  · rintro rfl r hr w hw
    have hinv := Along.invariant_states (I := fun w => NoBytes d w.tables ∧ charged w.live = 0)
      ⟨noBytes_of_fresh hf hs, rfl⟩ hr (fun w call w' h hstep => hstep.noBytes h) w hw
    exact Nat.le_of_eq hinv.2

theorem limit_kept_decimal :
    ¬ ∀ r, Along (LimitedStep smallDims (getSharedGPUMemLimit (some (decimal 100))))
        ⟨initialTables, []⟩ r →
      ∀ w ∈ states ⟨initialTables, []⟩ r,
        charged w.live ≤ (getSharedGPUMemLimit (some (decimal 100))).toNat := by
  rw [limit_kept_iff (fresh_initialTables smallDims) sentinel_initialTables,
    ← getSharedGPUMemLimit_eq_zero_iff]
  have hread : getSharedGPUMemLimit (some (decimal 100)) = 100 := getSharedGPUMemLimit_decimal 100
  rw [hread]
  decide

end Vcuda.Hijack
