import Vcuda.Hijack.Calls
import Mathlib.Tactic.IntervalCases
import Mathlib.Tactic.Ring

/-!
# The sizes of arrays

What an array takes in bytes, and what the three size formulas of the array calls charge for it.
`get_array_base_size` returns the *bits* of a channel, so a charge is eight times a product of
extents (`toNat_charge`), and the products are not those of the array: an extent of `0`, which
stands for a missing dimension, makes them `0`, and `cuArray3DCreate` leaves out the depth. The
errors cancel out in one case, a 3D array of depth eight (`charge_eq_size_iff`).
-/

namespace Vcuda.Hijack

/-! ## Arrays -/

/-- The bytes of one channel, for the listed formats. -/
def channelBytes : CUarrayFormat → Option Nat
  | .CU_AD_FORMAT_UNSIGNED_INT8 => some 1
  | .CU_AD_FORMAT_SIGNED_INT8 => some 1
  | .CU_AD_FORMAT_UNSIGNED_INT16 => some 2
  | .CU_AD_FORMAT_SIGNED_INT16 => some 2
  | .CU_AD_FORMAT_HALF => some 2
  | .CU_AD_FORMAT_UNSIGNED_INT32 => some 4
  | .CU_AD_FORMAT_SIGNED_INT32 => some 4
  | .CU_AD_FORMAT_FLOAT => some 4
  | .other _ => none

/-- The descriptor of `cuArrayCreate`, with the depth of a 1D or 2D array. -/
def withoutDepth (desc : CUDA_ARRAY_DESCRIPTOR) : CUDA_ARRAY3D_DESCRIPTOR :=
  ⟨desc.width, desc.height, 0, desc.format, desc.numChannels, 0⟩

/-- The array that a call creates; mipmapped arrays count with one level. -/
def arrayOf : ApiCall → Option CUDA_ARRAY3D_DESCRIPTOR
  | .cuArrayCreate_v2 _ desc => some (withoutDepth desc)
  | .cuArrayCreate _ desc => some (withoutDepth desc)
  | .cuArray3DCreate_v2 _ desc => some desc
  | .cuArray3DCreate _ desc => some desc
  | .cuMipmappedArrayCreate _ desc levels => if levels = 1 then some desc else none
  | _ => none

/-- The descriptor is one of an array of `size` bytes: a height of `0` is that of a 1D array, a
depth of `0` that of a 1D or 2D array. -/
structure Describes (desc : CUDA_ARRAY3D_DESCRIPTOR) (size : Nat) : Prop where
  width : desc.width ≠ 0
  channels : desc.numChannels = 1 ∨ desc.numChannels = 2 ∨ desc.numChannels = 4
  size_eq : ∃ bytes, channelBytes desc.format = some bytes ∧
    size = desc.width.toNat * max desc.height.toNat 1 * max desc.depth.toNat 1 *
      desc.numChannels.toNat * bytes
  fits : size < 2 ^ 64

variable {c : ApiCall} {desc : CUDA_ARRAY3D_DESCRIPTOR} {size bytes x k : Nat}

/-- An array is never empty. -/
theorem Describes.pos (hd : Describes desc size) : 0 < size := by
  obtain ⟨bytes, hbytes, hsize⟩ := hd.size_eq
  have hwidth : 0 < desc.width.toNat := UInt64.pos_iff_ne_zero.mpr hd.width
  have hchannels : 0 < desc.numChannels.toNat := by
    rcases hd.channels with h | h | h <;> rw [h] <;> decide
  have hpos : 0 < bytes := by
    revert hbytes
    cases desc.format <;> simp [channelBytes] <;> omega
  have hheight : 0 < max desc.height.toNat 1 := by omega
  have hdepth : 0 < max desc.depth.toNat 1 := by omega
  rw [hsize]
  exact Nat.mul_pos (Nat.mul_pos (Nat.mul_pos (Nat.mul_pos hwidth hheight) hdepth) hchannels) hpos

/-! ## What is charged -/

/-- The product that the size formulas share, had they the bytes of a channel. -/
def flatSize (desc : CUDA_ARRAY3D_DESCRIPTOR) (bytes : Nat) : Nat :=
  desc.width.toNat * desc.height.toNat * desc.numChannels.toNat * bytes

/-- The depth that a size formula multiplies by. -/
def chargedDepth : ApiCall → Nat
  | .cuMipmappedArrayCreate _ desc _ => desc.depth.toNat
  | _ => 1

/-- The call creates 3D arrays and does not look at their depth. -/
def ignoresDepth : ApiCall → Bool
  | .cuArray3DCreate_v2 .. => true
  | .cuArray3DCreate .. => true
  | _ => false

theorem getArrayBaseSize_eq (hbytes : channelBytes desc.format = some bytes) :
    (getArrayBaseSize desc.format).toNat = 8 * bytes := by
  revert hbytes
  cases desc.format <;> simp [channelBytes, getArrayBaseSize] <;> omega

theorem toNat_mul_mul_mul (a b c e : UInt64) :
    (a * b * c * e).toNat = a.toNat * b.toNat * c.toNat * e.toNat % 2 ^ 64 := by
  simp only [UInt64.toNat_mul, Nat.mod_mul_mod]

/-- **A charge is in bits**, and of the extents as they stand in the descriptor. -/
theorem toNat_charge (hc : arrayOf c = some desc) (hbytes : channelBytes desc.format = some bytes) :
    ∃ p n, request c = some (p, n) ∧
      n.toNat = 8 * (flatSize desc bytes * chargedDepth c) % 2 ^ 64 := by
  have hflat : (getArrayBaseSize desc.format * desc.numChannels.toUInt64 * desc.height *
      desc.width).toNat = 8 * flatSize desc bytes % 2 ^ 64 := by
    rw [toNat_mul_mul_mul, getArrayBaseSize_eq hbytes, UInt32.toNat_toUInt64, flatSize]
    congr 1
    ring
  have hone : ∀ y : Nat, 8 * y % 2 ^ 64 = 8 * (y * 1) % 2 ^ 64 := by
    intro y
    rw [Nat.mul_one]
  cases c with
  | cuArrayCreate_v2 pHandle desc' =>
      cases hc
      exact ⟨pHandle, _, rfl, hflat.trans (hone _)⟩
  | cuArrayCreate pHandle desc' =>
      cases hc
      exact ⟨pHandle, _, rfl, hflat.trans (hone _)⟩
  | cuArray3DCreate_v2 pHandle desc' =>
      cases hc
      exact ⟨pHandle, _, rfl, hflat.trans (hone _)⟩
  | cuArray3DCreate pHandle desc' =>
      cases hc
      exact ⟨pHandle, _, rfl, hflat.trans (hone _)⟩
  | cuMipmappedArrayCreate pHandle desc' levels =>
      obtain ⟨_, hdesc⟩ := Option.ite_none_right_eq_some.mp hc
      cases hdesc
      refine ⟨pHandle, _, rfl, ?_⟩
      rw [mipmappedRequestSize, UInt64.toNat_mul, hflat, chargedDepth, Nat.mod_mul_mod,
        Nat.mul_assoc 8]
  | _ => cases hc

theorem charge_iff (hc : arrayOf c = some desc)
    (hbytes : channelBytes desc.format = some bytes) :
    (∃ p n, request c = some (p, n) ∧ n.toNat = k) ↔
      8 * (flatSize desc bytes * chargedDepth c) % 2 ^ 64 = k := by
  obtain ⟨p, n, hreq, hn⟩ := toNat_charge hc hbytes
  rw [← hn]
  constructor
  · rintro ⟨p', n', hreq', heq⟩
    cases hreq.symm.trans hreq'
    exact heq
  · intro heq
    exact ⟨p, n, hreq, heq⟩

/-- **Which arrays are charged nothing**: those with a zero among the extents that count, and those
whose charge wraps around to it. -/
theorem charge_eq_zero_iff (hc : arrayOf c = some desc)
    (hbytes : channelBytes desc.format = some bytes) :
    (∃ p n, request c = some (p, n) ∧ n.toNat = 0) ↔
      2 ^ 61 ∣ flatSize desc bytes * chargedDepth c := by
  rw [charge_iff hc hbytes, ← Nat.dvd_iff_mod_eq_zero, show (2 : Nat) ^ 64 = 8 * 2 ^ 61 by norm_num]
  exact Nat.mul_dvd_mul_iff_left (by decide)

/-! ## When that is the size -/

/-- In 64 bits, a multiple that fits is eight times the number only if it is the eightfold. -/
theorem eight_mul_mod_eq_iff (hx : 0 < x) (hk : 0 < k) (hfit : x * k < 2 ^ 64) :
    8 * x % 2 ^ 64 = x * k ↔ k = 8 := by
  constructor
  · intro heq
    rcases Nat.lt_or_ge k 8 with hlt | hge
    · have hdvd : 2 ^ 64 ∣ x * (8 - k) := by
        have hsub := Nat.dvd_sub_mod (n := 2 ^ 64) (8 * x)
        rwa [heq, Nat.mul_comm 8, ← Nat.mul_sub] at hsub
      -- only what `8 - k` shares with `2 ^ 64` helps, and that divides `k` as well
      have hgcd : 2 ^ 64 ∣ x * Nat.gcd (8 - k) (2 ^ 64) := by
        rw [← Nat.gcd_mul_left]
        exact Nat.dvd_gcd hdvd (Nat.dvd_mul_left _ _)
      have hle : Nat.gcd (8 - k) (2 ^ 64) ≤ k := by
        interval_cases k <;> decide
      have hpos : 0 < x * Nat.gcd (8 - k) (2 ^ 64) :=
        Nat.mul_pos hx (Nat.gcd_pos_of_pos_right _ (Nat.two_pow_pos 64))
      have hbig := Nat.le_of_dvd hpos hgcd
      exact absurd (Nat.lt_of_le_of_lt (Nat.mul_le_mul_left x hle) hfit) (Nat.not_lt.mpr hbig)
    · have hle : x * 8 ≤ x * k := Nat.mul_le_mul_left x hge
      have hmod : 8 * x % 2 ^ 64 = 8 * x := Nat.mod_eq_of_lt (by omega)
      rw [hmod, Nat.mul_comm] at heq
      exact (Nat.eq_of_mul_eq_mul_left hx heq).symm
  · rintro rfl
    have hmod : 8 * x % 2 ^ 64 = 8 * x := Nat.mod_eq_of_lt (by omega)
    rw [hmod, Nat.mul_comm]

/-- The other formulas take the depth as it is, and a depth of `0` for nothing. -/
theorem chargedDepth_eq (hc : arrayOf c = some desc) (hi : ignoresDepth c = false) :
    chargedDepth c = max desc.depth.toNat 1 ∨ chargedDepth c = 0 := by
  cases c with
  | cuArrayCreate_v2 pHandle desc' =>
      cases hc
      exact Or.inl rfl
  | cuArrayCreate pHandle desc' =>
      cases hc
      exact Or.inl rfl
  | cuMipmappedArrayCreate pHandle desc' levels =>
      obtain ⟨_, hdesc⟩ := Option.ite_none_right_eq_some.mp hc
      cases hdesc
      show desc.depth.toNat = _ ∨ desc.depth.toNat = 0
      omega
  | cuArray3DCreate_v2 pHandle desc' => cases hi
  | cuArray3DCreate pHandle desc' => cases hi
  | _ => cases hc

theorem chargedDepth_of_ignores (hi : ignoresDepth c = true) : chargedDepth c = 1 := by
  cases c with
  | cuArray3DCreate_v2 pHandle desc => rfl
  | cuArray3DCreate pHandle desc => rfl
  | _ => cases hi

theorem flatSize_of_height_eq_zero (hheight : desc.height = 0) : flatSize desc bytes = 0 := by
  simp [flatSize, hheight]

/-- With a height, the size is the common product for every layer. -/
theorem Describes.size_eq_flatSize (hd : Describes desc size) (hheight : desc.height ≠ 0) :
    ∃ bytes, channelBytes desc.format = some bytes ∧
      size = flatSize desc bytes * max desc.depth.toNat 1 := by
  obtain ⟨bytes, hbytes, hsize⟩ := hd.size_eq
  have hpos : 0 < desc.height.toNat := UInt64.pos_iff_ne_zero.mpr hheight
  have hmax : max desc.height.toNat 1 = desc.height.toNat := by omega
  refine ⟨bytes, hbytes, ?_⟩
  rw [hsize, hmax, flatSize]
  ring

/-- **When the charge of an array is its size in bytes.** -/
theorem charge_eq_size_iff (hc : arrayOf c = some desc) (hd : Describes desc size) :
    (∃ p n, request c = some (p, n) ∧ n.toNat = size) ↔
      ignoresDepth c = true ∧ desc.height ≠ 0 ∧ desc.depth = 8 := by
  have hpos := hd.pos
  by_cases hheight : desc.height = 0
  · -- a 1D array is charged nothing
    obtain ⟨bytes, hbytes, _⟩ := hd.size_eq
    rw [charge_iff hc hbytes, flatSize_of_height_eq_zero hheight]
    refine iff_of_false ?_ fun h => h.2.1 hheight
    omega
  · obtain ⟨bytes, hbytes, hsize⟩ := hd.size_eq_flatSize hheight
    have hfits := hd.fits
    rw [charge_iff hc hbytes]
    cases hi : ignoresDepth c with
    | true =>
        rw [hsize] at hpos hfits ⊢
        have hdepth : desc.depth = 8 ↔ desc.depth.toNat = 8 := UInt64.toNat_inj.symm
        rw [chargedDepth_of_ignores hi, Nat.mul_one, hdepth,
          eight_mul_mod_eq_iff (Nat.pos_of_mul_pos_right hpos) (by omega) hfits]
        simp only [true_and, hheight, not_false_eq_true, ne_eq]
        omega
    | false =>
        refine iff_of_false ?_ fun h => Bool.false_ne_true h.1
        rcases chargedDepth_eq hc hi with hdepth | hdepth
        · -- eight times the size
          rw [hdepth, ← hsize]
          intro heq
          have hone := eight_mul_mod_eq_iff hpos Nat.one_pos (by rwa [Nat.mul_one])
          rw [Nat.mul_one] at hone
          exact absurd (hone.mp heq) (by decide)
        · rw [hdepth]
          omega

/-- A 3D array of 160 elements of 16 bits in two channels. -/
theorem charge_eq_size_of_eight : ∃ p n,
    request (.cuArray3DCreate_v2 16 ⟨10, 2, 8, .CU_AD_FORMAT_HALF, 2, 0⟩) = some (p, n) ∧
      n.toNat = 640 := by
  have hd : Describes ⟨10, 2, 8, .CU_AD_FORMAT_HALF, 2, 0⟩ 640 :=
    ⟨by decide, by decide, ⟨2, rfl, rfl⟩, by decide⟩
  exact (charge_eq_size_iff rfl hd).mpr ⟨rfl, by decide, rfl⟩

/-- **Not for other arrays**: one of eighty bytes is charged 640. -/
theorem not_charge_eq_size :
    ¬ ∀ (c : ApiCall) (desc : CUDA_ARRAY3D_DESCRIPTOR) (size : Nat), arrayOf c = some desc →
      Describes desc size → ∃ p n, request c = some (p, n) ∧ n.toNat = size := by
  intro hall
  have hd : Describes ⟨10, 2, 0, .CU_AD_FORMAT_HALF, 2, 0⟩ 80 :=
    ⟨by decide, by decide, ⟨2, rfl, rfl⟩, by decide⟩
  obtain ⟨p, n, hreq, hn⟩ :=
    hall (.cuArrayCreate_v2 16 ⟨10, 2, .CU_AD_FORMAT_HALF, 2⟩) _ 80 rfl hd
  cases hreq
  exact absurd hn (by decide)

end Vcuda.Hijack
