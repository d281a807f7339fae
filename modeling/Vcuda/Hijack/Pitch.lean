import Vcuda.Hijack.Quota
import Vcuda.Common.Rounding

/-!
# Pitched allocations

`cuMemAllocPitch_v2` computes its request as `ROUND_UP(WidthInBytes * Height, ElementSizeBytes)`:
a product, a rounding and then the sum with `used`, each in 64 bits. In unbounded arithmetic the
rounding is to the least multiple of the element size, and `toNat_used_add_roundedUp` says what the
check compares with the limit instead. It is exact where nothing wraps around, and otherwise right
only when what is left of the sum is above the limit all the same (`pitch_admission_iff`). An
element size of `0` is not ruled out by anything, and the macro divides by it.
-/

namespace Vcuda.Hijack

open Traced

variable {σ : Type} {L : Ledger σ} {ctx : Context} {c : ApiCall} {p dptr pPitch : Ptr}
  {n used limit width height : UInt64} {elem : UInt32} {s s₁ : σ} {tr : List Event}

/-! ## The quota check -/

/-- Once it has read `used`, the call gets past the quota check and asks the driver. -/
def PassesCheck (L : Ledger σ) (ctx : Context) (c : ApiCall) (s : σ) : Prop :=
  ∃ used s₁ tr rest, Runs L.getGmemUsed s used s₁ tr ∧
    (hijacked L ctx c s).trace = tr ++ .driver c :: rest

theorem guardedCall_asks_iff {record : HostMem → Exec σ Unit} :
    (∃ rest, (guardedCall ctx used n c record s).trace = .driver c :: rest) ↔
      used + n ≤ ctx.limit := by
  rw [guardedCall]
  by_cases hover : used + n > ctx.limit
  · rw [if_pos hover]
    refine iff_of_false ?_ (UInt64.not_le.mpr hover)
    rintro ⟨rest, htrace⟩
    cases htrace
  · rw [if_neg hover]
    have hcall : Runs (entryCall ctx c) s ctx.reply.result s [.driver c] :=
      entryCall_runs.mpr ⟨rfl, rfl, rfl⟩
    exact iff_of_true ⟨_, hcall.trace_bind⟩ (UInt64.not_lt.mp hover)

/-- **Which allocator calls pass.** The sum is the one the processor makes. -/
theorem passesCheck_iff (hreq : request c = some (p, n)) (hc : ignoresUsed c = false)
    (hused : Runs L.getGmemUsed s used s₁ tr) :
    PassesCheck L ctx c s ↔ used + n ≤ ctx.limit := by
  have hby : usedBy L c = L.getGmemUsed := by
    rw [usedBy, hc]
    rfl
  have htrace : (hijacked L ctx c s).trace =
      tr ++ (guardedCall ctx used n c (recordBy L c · p n) s₁).trace := by
    rw [hijacked_of_request hreq, hby]
    exact hused.trace_bind
  have hguard : (∃ rest, (guardedCall ctx used n c (recordBy L c · p n) s₁).trace =
      .driver c :: rest) ↔ used + n ≤ ctx.limit := guardedCall_asks_iff
  rw [← hguard]
  constructor
  · rintro ⟨used', s₂, tr', rest, hused', hasks⟩
    obtain ⟨_, _, rfl⟩ := hused.unique hused'
    rw [htrace] at hasks
    exact ⟨rest, List.append_cancel_left hasks⟩
  · rintro ⟨rest, hasks⟩
    exact ⟨used, s₁, tr, rest, hused, by rw [htrace, hasks]⟩

/-! ## The request size -/

/-- `ROUND_UP` rounds up in 64 bits. -/
theorem toNat_roundedUp {base : UInt64} (hbase : base ≠ 0) :
    (roundedUp n base).toNat = leastMultiple base.toNat n.toNat % 2 ^ 64 := by
  have hpos : 0 < base.toNat := UInt64.pos_iff_ne_zero.mpr hbase
  have hn := n.toNat_lt
  have hrem : n % base = 0 ↔ n.toNat % base.toNat = 0 := by
    rw [← UInt64.toNat_inj, UInt64.toNat_mod]
    rfl
  rw [leastMultiple_eq_ite hpos, roundedUp]
  by_cases hr : n % base = 0
  · rw [if_neg (not_not.mpr hr), if_pos (hrem.mp hr)]
    exact (Nat.mod_eq_of_lt hn).symm
  · rw [if_pos hr, if_neg fun h => hr (hrem.mpr h)]
    have hlt := Nat.mod_lt n.toNat hpos
    have hle := Nat.mod_le n.toNat base.toNat
    rw [UInt64.toNat_sub, UInt64.toNat_add, UInt64.toNat_mod]
    omega

theorem toUInt64_ne_zero (helem : elem ≠ 0) : elem.toUInt64 ≠ 0 := by
  intro h0
  apply helem
  apply UInt32.toNat_inj.mp
  rw [← UInt32.toNat_toUInt64, h0]
  rfl

/-- What the check compares with the limit. -/
theorem toNat_used_add_roundedUp (helem : elem ≠ 0) :
    (used + roundedUp (width * height) elem.toUInt64).toNat =
      (used.toNat + leastMultiple elem.toNat (width.toNat * height.toNat % 2 ^ 64)) % 2 ^ 64 := by
  rw [UInt64.toNat_add, toNat_roundedUp (toUInt64_ne_zero helem), Nat.add_mod_mod,
    UInt64.toNat_mul, UInt32.toNat_toUInt64]

theorem roundUp_faults_iff :
    Faults (roundUp n elem.toUInt64 : Exec σ UInt64) s .divByZero ↔ elem = 0 := by
  by_cases helem : elem = 0
  · subst helem
    exact iff_of_true rfl rfl
  · rw [roundUp, if_neg (toUInt64_ne_zero helem)]
    exact iff_of_false faults_pure helem

/-! ## Admission -/

/-- The call computes its request without dividing by zero, and it passes the check when `used` and
the least multiple of the element size that holds all rows are within the limit. -/
structure ExactAdmission (L : Ledger σ) (ctx : Context) (s : σ) (used : UInt64)
    (dptr pPitch : Ptr) (width height : UInt64) (elem : UInt32) : Prop where
  noDivision : ¬ Faults (roundUp (width * height) elem.toUInt64 : Exec σ UInt64) s .divByZero
  passes_iff : PassesCheck L ctx (.cuMemAllocPitch_v2 dptr pPitch width height elem) s ↔
    ∃ m, IsLeast {m | elem.toNat ∣ m ∧ width.toNat * height.toNat ≤ m} m ∧
      used.toNat + m ≤ ctx.limit.toNat

/-- The sum is below `2 ^ 64`, or what is left of it is still above the limit. -/
def FitsOrExceeds (limit used width height : UInt64) (elem : UInt32) : Prop :=
  used.toNat + leastMultiple elem.toNat (width.toNat * height.toNat) < 2 ^ 64 ∨
    limit.toNat < (used.toNat +
      leastMultiple elem.toNat (width.toNat * height.toNat % 2 ^ 64)) % 2 ^ 64

instance : Decidable (FitsOrExceeds limit used width height elem) :=
  inferInstanceAs (Decidable (_ ∨ _))

/-- The check is right exactly when the sum fits, or what is left of it exceeds the limit. -/
theorem check_iff (helem : elem ≠ 0) :
    (used + roundedUp (width * height) elem.toUInt64 ≤ limit ↔
      used.toNat + leastMultiple elem.toNat (width.toNat * height.toNat) ≤ limit.toNat) ↔
      FitsOrExceeds limit used width height elem := by
  have hpos : 0 < elem.toNat := UInt32.pos_iff_ne_zero.mpr helem
  have hlimit := limit.toNat_lt
  have hle : width.toNat * height.toNat ≤ _ := le_leastMultiple hpos
  rw [UInt64.le_iff_toNat_le, toNat_used_add_roundedUp helem]
  unfold FitsOrExceeds
  by_cases hfits : used.toNat + leastMultiple elem.toNat (width.toNat * height.toNat) < 2 ^ 64
  · -- nothing wraps around
    rw [Nat.mod_eq_of_lt (a := width.toNat * height.toNat) (by omega), Nat.mod_eq_of_lt hfits]
    exact iff_of_true Iff.rfl (Or.inl hfits)
  · rw [or_iff_right hfits, ← Nat.not_le]
    constructor
    · intro hiff hpass
      have := hiff.mp hpass
      omega
    · intro hexceeds
      exact iff_of_false hexceeds (by omega)

/-- **When the admission of a pitched allocation is exact arithmetic.** -/
theorem pitch_admission_iff (hused : Runs L.getGmemUsed s used s₁ tr) :
    ExactAdmission L ctx s used dptr pPitch width height elem ↔
      elem ≠ 0 ∧ FitsOrExceeds ctx.limit used width height elem := by
  by_cases helem : elem = 0
  · exact iff_of_false (fun h => h.noDivision (roundUp_faults_iff.mpr helem)) fun h => h.1 helem
  · have hpos : 0 < elem.toNat := UInt32.pos_iff_ne_zero.mpr helem
    have hreq : request (.cuMemAllocPitch_v2 dptr pPitch width height elem) =
        some (dptr, roundedUp (width * height) elem.toUInt64) := by
      rw [request, pitchedSize, if_neg (toUInt64_ne_zero helem)]
      rfl
    have hpasses : PassesCheck L ctx _ s ↔
        used + roundedUp (width * height) elem.toUInt64 ≤ ctx.limit :=
      passesCheck_iff hreq rfl hused
    rw [← check_iff helem, and_iff_right helem]
    constructor
    · intro h
      rw [← hpasses, h.passes_iff, exists_isLeast_iff hpos]
    · intro h
      refine ⟨fun hf => helem (roundUp_faults_iff.mp hf), ?_⟩
      rw [hpasses, h, exists_isLeast_iff hpos]

/-- Ten rows of seven bytes, in elements of four. -/
theorem pitch_admission_of_fits :
    ExactAdmission exactLedger (granted 100) [(16, 28)] 28 24 32 7 10 4 :=
  (pitch_admission_iff (runs_read.mpr ⟨rfl, rfl, rfl⟩)).mpr ⟨by decide, by decide⟩

/-- **Not always**: the element size may be `0`, and a product that wraps around passes any
limit. -/
theorem not_exactAdmission :
    ¬ ExactAdmission exactLedger (granted 100) [] 0 16 24 10 1 0 ∧
      ¬ ExactAdmission exactLedger (granted 0) [] 0 16 24 0x100000000 0x100000000 4 := by
  constructor
  · intro h
    exact h.noDivision rfl
  · intro h
    obtain ⟨m, hm, hfits⟩ := h.passes_iff.mp ⟨0, [], [], _, rfl, rfl⟩
    have hle : 0x100000000 * 0x100000000 ≤ m := hm.1.2
    have hfits' : 0 + m ≤ 0 := hfits
    omega

end Vcuda.Hijack
