import Vcuda.Hijack.Calls
import Vcuda.Common.Run
import Vcuda.Common.Admission

/-!
# The quota under interleaving

Processes that share an exact ledger run `cuMemAlloc_v2` in three steps: the quota check, the driver
call, and the record (`alone_iff`: made without interruption, the three are the call). Between the
first and the last nothing holds the bytes back, and there is no lock anywhere. What is admitted and
not yet recorded is invisible to the checks of the others, so the total stays within the limit
exactly when every check that passes happens to leave room for it (`safe_iff_leavesRoom`).
-/

namespace Vcuda.Hijack

open Traced Account

/-- Where a process is in its call. -/
inductive Stage where
  | idle
  /-- The check has passed. -/
  | admitted (bytesize : UInt64)
  /-- The driver has granted the call. -/
  | allocated (bytesize : UInt64)
  deriving DecidableEq

/-- A step of the process `i`. -/
inductive Act (ι : Type) where
  | check (i : ι) (bytesize : UInt64)
  | drive (i : ι) (ret : CUresult)
  | record (i : ι)

/-- The total of the ledger, and where the processes are. -/
structure Shared (ι : Type) where
  used : Nat
  stage : ι → Stage

/-- The bytes that are admitted and not yet recorded. -/
def Stage.pending : Stage → Nat
  | .idle => 0
  | .admitted bytesize => bytesize.toNat
  | .allocated bytesize => bytesize.toNat

variable {ι : Type} [DecidableEq ι]

def Shared.goTo (s : Shared ι) (i : ι) (st : Stage) : Shared ι :=
  { s with stage := Function.update s.stage i st }

/-- What a step leads to, when the process is at the stage for it. -/
def Act.step (limit : UInt64) (s : Shared ι) : Act ι → Option (Shared ι)
  | .check i bytesize =>
      match s.stage i with
      | .idle =>
          -- the check is made in 64 bits and sees what is recorded only
          if UInt64.ofNat s.used + bytesize > limit then some s
          else some (s.goTo i (.admitted bytesize))
      | _ => none
  | .drive i ret =>
      match s.stage i with
      | .admitted bytesize =>
          some (s.goTo i (if ret = .CUDA_SUCCESS then .allocated bytesize else .idle))
      | _ => none
  | .record i =>
      match s.stage i with
      | .allocated bytesize =>
          some ⟨s.used + bytesize.toNat, Function.update s.stage i .idle⟩
      | _ => none

/-- A step of some process. -/
def Interleaves (limit : UInt64) (s : Shared ι) (a : Act ι) (s' : Shared ι) : Prop :=
  a.step limit s = some s'

def Act.isCheck : Act ι → Bool
  | .check .. => true
  | _ => false

/-- Whatever the driver answers to the calls under way, the total stays within the limit. -/
def Safe (limit : UInt64) (s : Shared ι) : Prop :=
  ∀ r, Along (Interleaves limit) s r → (∀ x ∈ r, x.1.isCheck = false) →
    (final s r).used ≤ limit.toNat

/-- The total, and what each process has under way. -/
def Shared.account (s : Shared ι) : Account ι Nat := ⟨s.used, fun i => (s.stage i).pending⟩

/-- A check that passes does so with room for everything that is under way. -/
def LeavesRoom (limit : UInt64) (s : Shared ι) (a : Act ι) (_ : Shared ι) : Prop :=
  ∀ i n, a = .check i n → ¬ UInt64.ofNat s.used + n > limit →
    Room limit.toNat s.account i n.toNat

variable {limit n : UInt64} {s s' : Shared ι} {a : Act ι} {i : ι} {st : Stage}
  {r : List (Act ι × Shared ι)}

/-! ## The three steps are the call -/

/-- A ledger that is its total. -/
def totalLedger : Ledger Nat where
  getGmemUsed := read UInt64.ofNat
  addGmem _ _ bytes := update (· + bytes.toNat)
  addGmemCuarr _ _ bytes := update (· + bytes.toNat)
  addGmemCumarr _ _ bytes := update (· + bytes.toNat)
  freeGmem _ _ := pure ()

/-- The steps of a call of `i` that nothing interrupts, when the driver would answer `ret`. -/
def alone (limit : UInt64) (s : Shared ι) (i : ι) (bytesize : UInt64) (ret : CUresult) :
    List (Act ι) :=
  if UInt64.ofNat s.used + bytesize > limit then [.check i bytesize]
  else if ret = .CUDA_SUCCESS then [.check i bytesize, .drive i ret, .record i]
  else [.check i bytesize, .drive i ret]

omit [DecidableEq ι] in
theorem cuMemAlloc_v2_total_iff {ctx : Context} {dptr : Ptr} {ret : CUresult} {used used' : Nat} :
    Returns (cuMemAlloc_v2 totalLedger ctx dptr n) used ret used' ↔
      (UInt64.ofNat used + n > ctx.limit ∧ ret = .CUDA_ERROR_OUT_OF_MEMORY ∧ used' = used) ∨
      (¬ UInt64.ofNat used + n > ctx.limit ∧ ctx.reply.result ≠ .CUDA_SUCCESS ∧
        ret = ctx.reply.result ∧ used' = used) ∨
      (¬ UInt64.ofNat used + n > ctx.limit ∧ ctx.reply.result = .CUDA_SUCCESS ∧
        ret = .CUDA_SUCCESS ∧ used' = used + n.toNat) := by
  have hread : Returns totalLedger.getGmemUsed used (UInt64.ofNat used) used := returns_read _ used
  have hrecord : Returns (totalLedger.addGmem ctx.reply.mem dptr n) used () used' ↔
      used' = used + n.toNat := by
    show (∃ tr, Runs (update _) used () used' tr) ↔ _
    simp
  rw [cuMemAlloc_v2, hread.bind_iff, guardedCall_returns_iff, hrecord]

theorem foldlM_alone {ret : CUresult} (hidle : s.stage i = .idle) :
    (alone limit s i n ret).foldlM (Act.step limit) s =
      if UInt64.ofNat s.used + n > limit ∨ ret ≠ .CUDA_SUCCESS then some s
      else some ⟨s.used + n.toNat, s.stage⟩ := by
  have hback : Function.update s.stage i .idle = s.stage := by
    rw [← hidle, Function.update_eq_self]
  unfold alone
  by_cases hover : UInt64.ofNat s.used + n > limit
  · simp [hover, Act.step, hidle]
  · by_cases hok : ret = .CUDA_SUCCESS
    · simp [hover, hok, Act.step, hidle, Shared.goTo, hback]
    · simp [hover, hok, Act.step, hidle, Shared.goTo, hback]

/-- **Made without interruption, the three steps are the call.** -/
theorem alone_iff {ctx : Context} {dptr : Ptr} {ret : CUresult} {used' : Nat}
    (hidle : s.stage i = .idle) :
    Returns (cuMemAlloc_v2 totalLedger ctx dptr n) s.used ret used' ↔
      (alone ctx.limit s i n ctx.reply.result).foldlM (Act.step ctx.limit) s =
        some ⟨used', s.stage⟩ ∧
      ret = if UInt64.ofNat s.used + n > ctx.limit then .CUDA_ERROR_OUT_OF_MEMORY
        else ctx.reply.result := by
  have hsame : s = ⟨used', s.stage⟩ ↔ used' = s.used := by
    constructor
    · intro he
      exact (congrArg Shared.used he).symm
    · rintro rfl
      rfl
  rw [cuMemAlloc_v2_total_iff, foldlM_alone hidle]
  by_cases hover : UInt64.ofNat s.used + n > ctx.limit
  · simp [hover, hsame, and_comm]
  · by_cases hok : ctx.reply.result = .CUDA_SUCCESS
    · simp [hover, hok, and_comm, eq_comm]
    · simp [hover, hok, hsame, and_comm]

/-! ## What a step does to the account -/

theorem account_goTo : (s.goTo i st).account = s.account.reserve i st.pending := by
  unfold Shared.account Shared.goTo reserve
  congr 1
  funext k
  by_cases hk : k = i
  · subst hk
    simp
  · simp [hk]

theorem account_record (hst : s.stage i = .allocated n) :
    (⟨s.used + n.toNat, Function.update s.stage i .idle⟩ : Shared ι).account =
      s.account.commit i := by
  have hpending : s.account.pending i = n.toNat := by simp [Shared.account, hst, Stage.pending]
  have hgo : (s.goTo i .idle).account = s.account.reserve i 0 := account_goTo
  show (⟨s.used + n.toNat, (s.goTo i .idle).account.pending⟩ : Account ι Nat) =
    ⟨s.used + s.account.pending i, _⟩
  rw [hpending, hgo]
  rfl

/-- **The steps.** A check that fails changes nothing, a driver call that fails drops what was
admitted, and the record commits it. -/
theorem interleaves_cases (h : Interleaves limit s a s') :
    (∃ i n, a = .check i n ∧ UInt64.ofNat s.used + n > limit ∧ s' = s) ∨
    (∃ i n, a = .check i n ∧ ¬ UInt64.ofNat s.used + n > limit ∧
      s'.account = s.account.reserve i n.toNat) ∨
    (a.isCheck = false ∧ ∃ i, s'.account = s.account ∨ s'.account = s.account.abort i ∨
      s'.account = s.account.commit i) := by
  unfold Interleaves at h
  cases a with
  | check i n =>
      simp only [Act.step] at h
      split at h
      · split at h
        · next hover =>
          exact Or.inl ⟨i, n, rfl, hover, (Option.some.inj h).symm⟩
        · next hfits =>
          obtain rfl := Option.some.inj h
          exact Or.inr (Or.inl ⟨i, n, rfl, hfits, account_goTo⟩)
      · cases h
  | drive i ret =>
      simp only [Act.step] at h
      split at h
      · next n hst =>
        obtain rfl := Option.some.inj h
        refine Or.inr (Or.inr ⟨rfl, i, ?_⟩)
        rw [account_goTo]
        have hpending : s.account.pending i = n.toNat := by
          simp [Shared.account, hst, Stage.pending]
        split
        · exact Or.inl (reserve_eq_self hpending)
        · exact Or.inr (Or.inl rfl)
      · cases h
  | record i =>
      simp only [Act.step] at h
      split at h
      · next n hst =>
        obtain rfl := Option.some.inj h
        exact Or.inr (Or.inr ⟨rfl, i, Or.inr (Or.inr (account_record hst))⟩)
      · cases h

/-! ## From one state on -/

/-- No process has to stop where it is: alone, each comes through. -/
theorem exists_commit (limit : UInt64) (s : Shared ι) (i : ι) :
    ∃ r, Along (Interleaves limit) s r ∧ (∀ x ∈ r, x.1.isCheck = false) ∧
      (final s r).account = s.account.commit i := by
  have hrecord : ∀ {s : Shared ι} {n}, s.stage i = .allocated n →
      ∃ s', Interleaves limit s (.record i) s' ∧ s'.account = s.account.commit i := by
    intro s n hst
    refine ⟨⟨s.used + n.toNat, Function.update s.stage i .idle⟩, ?_, account_record hst⟩
    show Act.step limit s (.record i) = _
    simp only [Act.step, hst]
  cases hst : s.stage i with
  | idle =>
      -- it has nothing under way
      have hpending : s.account.pending i = 0 := by simp [Shared.account, hst, Stage.pending]
      refine ⟨[], trivial, by simp, ?_⟩
      have hsame : s.account.reserve i 0 = s.account := reserve_eq_self hpending
      unfold commit
      rw [hpending, Nat.add_zero]
      exact hsame.symm
  | admitted n =>
      have hpending : s.account.pending i = n.toNat := by simp [Shared.account, hst, Stage.pending]
      -- the driver may grant the call, which changes nothing in the account
      have hst' : (s.goTo i (.allocated n)).stage i = .allocated n := Function.update_self ..
      have haccount : (s.goTo i (.allocated n)).account = s.account := by
        rw [account_goTo]
        exact reserve_eq_self hpending
      obtain ⟨s', hstep, hs'⟩ := hrecord hst'
      refine ⟨[(.drive i .CUDA_SUCCESS, s.goTo i (.allocated n)), (.record i, s')],
        ⟨?_, hstep, trivial⟩, by simp [Act.isCheck], ?_⟩
      · show Act.step limit s (.drive i .CUDA_SUCCESS) = _
        simp only [Act.step, hst, if_true]
      · rw [← haccount]
        exact hs'
  | allocated n =>
      obtain ⟨s', hstep, hs'⟩ := hrecord hst
      exact ⟨[(.record i, s')], ⟨hstep, trivial⟩, by simp [Act.isCheck], hs'⟩

/-- Any of them can come through together. -/
theorem exists_settled (S : Finset ι) (s : Shared ι) :
    ∃ r, Along (Interleaves limit) s r ∧ (∀ x ∈ r, x.1.isCheck = false) ∧
      (final s r).used = s.account.totalWith S := by
  induction S using Finset.induction generalizing s with
  | empty =>
      refine ⟨[], trivial, by simp, ?_⟩
      rw [totalWith_empty]
      rfl
  | insert i S _ ih =>
      -- `i` comes through first, and the others after it
      obtain ⟨r₁, hr₁, hcalm₁, hcommit⟩ := exists_commit limit s i
      obtain ⟨r₂, hr₂, hcalm₂, hused⟩ := ih (final s r₁)
      refine ⟨r₁ ++ r₂, Along.append_iff.mpr ⟨hr₁, hr₂⟩, ?_, ?_⟩
      · intro x hx
        rcases List.mem_append.mp hx with hx | hx
        · exact hcalm₁ x hx
        · exact hcalm₂ x hx
      · rw [final_append, hused, hcommit, totalWith_commit]

/-- **Nothing under way can exceed the limit exactly when it is covered.** -/
theorem safe_iff_covered : Safe limit s ↔ Covered limit.toNat s.account := by
  constructor
  · intro hsafe S
    obtain ⟨r, hr, hcalm, hused⟩ := exists_settled S s
    rw [← hused]
    exact hsafe r hr hcalm
  · intro hcov r hr hcalm
    have hall := Along.invariant_states (I := fun s : Shared ι => Covered limit.toNat s.account)
      hcov (hr.and_label (L := fun a => a.isCheck = false) hcalm) ?_
    · exact (hall _ (final_mem_states s r)).total_le
    · intro s a s' hcov ⟨hstep, hcalm⟩
      rcases interleaves_cases hstep with ⟨i, n, rfl, _⟩ | ⟨i, n, rfl, _⟩ | ⟨_, i, h | h | h⟩
      · cases hcalm
      · cases hcalm
      · rw [h]
        exact hcov
      · rw [h]
        exact covered_abort hcov
      · rw [h]
        exact covered_commit hcov

/-! ## Whole runs -/

theorem covered_step (hcov : Covered limit.toNat s.account) (hstep : Interleaves limit s a s')
    (hroom : LeavesRoom limit s a s') : Covered limit.toNat s'.account := by
  rcases interleaves_cases hstep with ⟨i, n, _, _, rfl⟩ | ⟨i, n, ha, hfits, h⟩ | ⟨_, i, h | h | h⟩
  · exact hcov
  · rw [h]
    exact (covered_reserve_iff hcov).mpr (hroom i n ha hfits)
  · rw [h]
    exact hcov
  · rw [h]
    exact covered_abort hcov
  · rw [h]
    exact covered_commit hcov

theorem leavesRoom_of_covered (hcov : Covered limit.toNat s.account)
    (hstep : Interleaves limit s a s') (hcov' : Covered limit.toNat s'.account) :
    LeavesRoom limit s a s' := by
  intro i n ha hfits
  rcases interleaves_cases hstep with ⟨i', n', ha', hover, _⟩ | ⟨i', n', ha', _, h⟩ | ⟨hcalm, _⟩
  · cases ha.symm.trans ha'
    exact absurd hover hfits
  · cases ha.symm.trans ha'
    rw [h] at hcov'
    exact (covered_reserve_iff hcov).mp hcov'
  · rw [ha] at hcalm
    cases hcalm

/-- **The quota under interleaving.** From processes that are idle and a total within the limit, the
total stays within the limit, whatever the driver answers, exactly when every check that passes
leaves room for what is under way. -/
theorem safe_iff_leavesRoom (hidle : ∀ i, s.stage i = .idle) (hs : s.used ≤ limit.toNat)
    (hr : Along (Interleaves limit) s r) :
    (∀ s' ∈ states s r, Safe limit s') ↔ Along (LeavesRoom limit) s r := by
  have hcov : Covered limit.toNat s.account := by
    intro S
    have hzero : ∑ i ∈ S, s.account.pending i = 0 := by
      apply Finset.sum_eq_zero
      intro i _
      show (s.stage i).pending = 0
      rw [hidle i, Stage.pending]
    unfold totalWith
    rw [hzero]
    exact hs
  apply Along.states_iff (I := fun s : Shared ι => Covered limit.toNat s.account) hcov hr
  · exact fun s hcov => safe_iff_covered.mpr hcov
  · exact fun s a s' hcov hstep hroom => covered_step hcov hstep hroom
  · intro s a s' hcov hstep hsafe
    exact leavesRoom_of_covered hcov hstep (safe_iff_covered.mp hsafe)

/-! ## Two processes -/

/-- Nothing is recorded, and both processes are idle. -/
def atStart : Shared Bool := ⟨0, fun _ => .idle⟩

/-- The run that the steps make. -/
def interleaved (limit : UInt64) : List (Act Bool) → List (Act Bool × Shared Bool) :=
  trajectory (fun s a => (a.step limit s).getD s) atStart

theorem along_interleaved {as : List (Act Bool)}
    (hdone : allSteps (fun s a => (a.step limit s).getD s) (fun s a => (a.step limit s).isSome)
      atStart as = true) : Along (Interleaves limit) atStart (interleaved limit as) := by
  apply along_trajectory _ hdone
  intro s a hsome
  obtain ⟨s', hs'⟩ := Option.isSome_iff_exists.mp hsome
  show a.step limit s = some ((a.step limit s).getD s)
  rw [hs', Option.getD_some]

/-- Both check, then both allocate, then both record. -/
def abreast (n n' : UInt64) : List (Act Bool) :=
  [.check false n, .check true n', .drive false .CUDA_SUCCESS, .drive true .CUDA_SUCCESS,
    .record false, .record true]

/-- Two requests that fit together. -/
theorem safe_abreast : Safe 100 (final atStart (interleaved 100 (abreast 40 60))) := by
  have hr : Along (Interleaves 100) atStart (interleaved 100 (abreast 40 60)) :=
    along_interleaved (by decide)
  refine (safe_iff_leavesRoom (fun _ => rfl) (by decide) hr).mpr ?_ _ (final_mem_states _ _)
  refine ⟨?_, ?_, ?_, ?_, ?_, ?_, trivial⟩
  · intro i n ha _
    cases ha
    decide
  · intro i n ha _
    cases ha
    decide
  all_goals
    intro i n ha
    cases ha

/-- **Two requests that only fit one at a time are both admitted.** -/
theorem not_interleaved_quota :
    ¬ ∀ (ι : Type) [DecidableEq ι] (limit : UInt64) (s : Shared ι) (r : List (Act ι × Shared ι)),
      (∀ i, s.stage i = .idle) → s.used ≤ limit.toNat → Along (Interleaves limit) s r →
      Along (fun s a _ => ∀ i n, a = .check i n → s.used + n.toNat < 2 ^ 64) s r →
      ∀ s' ∈ states s r, s'.used ≤ limit.toNat := by
  intro hall
  have hr : Along (Interleaves 100) atStart (interleaved 100 (abreast 80 80)) :=
    along_interleaved (by decide)
  have hused := hall Bool 100 atStart _ (fun _ => rfl) (by decide) hr ?_ _ (final_mem_states _ _)
  · exact absurd hused (by decide)
  · refine ⟨?_, ?_, ?_, ?_, ?_, ?_, trivial⟩
    · intro i n ha
      cases ha
      decide
    · intro i n ha
      cases ha
      decide
    all_goals
      intro i n ha
      cases ha

end Vcuda.Hijack
