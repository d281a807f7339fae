import Vcuda.Rnm.Steps
import Mathlib.Tactic.IntervalCases

/-!
# Probe paths

`hash` adds in 64 bits before it takes the remainder. Where the sum does not wrap around, the probe
positions of a key are those of linear probing: each slot once, from `pre_hash` on. The keys that
`set_process` installs for a running process are far below the wrap, so for them `insert_rnode`
fails only when the table is full (`insertRnode_null_iff_full`).
-/

namespace Vcuda.RNM

open Traced Probing

/-- No sum of the probe sequence wraps around. -/
def NoWrap (d : Dims) (key : PidSt) : Prop := (preHash key).toNat + d.lenRnode ≤ 2 ^ 64

/-- A positive pid, and a start time below `2 ^ 63`. -/
structure OfRunning (key : PidSt) : Prop where
  pid : 0 < key.1
  stime : key.2.toNat < 2 ^ 63

variable {d : Dims} {t : Tables} {key : PidSt} {val : RNode} {i s : Nat}

/-! ## In 64 bits -/

/-- The remainder of `hash` is one of 64-bit numbers as well. -/
theorem ofNat_hash (hlen : d.hashD < 2 ^ 64) :
    UInt64.ofNat (hash d key i) = (preHash key + UInt64.ofNat i) % UInt64.ofNat d.hashD := by
  apply UInt64.toNat_inj.mp
  rw [UInt64.toNat_mod, UInt64.toNat_ofNat_of_lt' hlen, UInt64.toNat_ofNat_of_lt']
  · rfl
  · exact Nat.lt_trans (Nat.mod_lt _ d.rnode_pos) hlen

/-- A positive pid is widened to itself. -/
theorem toNat_toUInt64_of_pos {pid : Int32} (hpid : 0 < pid) :
    pid.toInt64.toUInt64.toNat = pid.toNatClampNeg := by
  have hnonneg : 0 ≤ pid.toInt64 := by
    rw [Int64.le_iff_toInt_le, Int32.toInt_toInt64]
    exact Int.le_of_lt (Int32.lt_iff_toInt_lt.mp hpid)
  rw [Int64.toNat_toUInt64_of_le hnonneg, Int32.toNatClampNeg_toInt64]

/-- Neither the shift nor the sum of `pre_hash` wraps around. -/
theorem toNat_preHash (hkey : OfRunning key) :
    (preHash key).toNat = key.1.toNatClampNeg * 2 ^ 6 + key.2.toNat := by
  have hpid := Int32.toNatClampNeg_lt key.1
  have hstime := hkey.stime
  have hshift : (key.1.toInt64.toUInt64 <<< 6).toNat = key.1.toNatClampNeg * 2 ^ 6 := by
    rw [UInt64.toNat_shiftLeft, toNat_toUInt64_of_pos hkey.pid, Nat.shiftLeft_eq]
    change key.1.toNatClampNeg * 2 ^ 6 % 2 ^ 64 = _
    exact Nat.mod_eq_of_lt (by omega)
  rw [preHash, UInt64.toNat_add, hshift]
  exact Nat.mod_eq_of_lt (by omega)

theorem noWrap_of_running (hlen : d.lenRnode < 2 ^ 31) (hkey : OfRunning key) :
    NoWrap d key := by
  have hpid := Int32.toNatClampNeg_lt key.1
  have hstime := hkey.stime
  unfold NoWrap
  rw [toNat_preHash hkey]
  omega

/-! ## The path -/

theorem hash_of_noWrap (hw : NoWrap d key) (hi : i < d.lenRnode) :
    hash d key i = ((preHash key).toNat + i) % d.lenRnode := by
  have hseed := (preHash key).toNat_lt
  unfold NoWrap at hw
  have hi' : (UInt64.ofNat i).toNat = i := by
    rw [UInt64.toNat_ofNat']
    exact Nat.mod_eq_of_lt (by omega)
  have hsum : (preHash key + UInt64.ofNat i).toNat = (preHash key).toNat + i := by
    rw [UInt64.toNat_add, hi']
    exact Nat.mod_eq_of_lt (by omega)
  rw [hash, hsum]
  rfl

theorem probes_of_noWrap (hw : NoWrap d key) :
    probes d key = linearPath d.lenRnode (preHash key).toNat := by
  apply List.map_congr_left
  intro i hi
  exact hash_of_noWrap hw (List.mem_range.mp hi)

/-- **When `insert_rnode` has no slot for a process.** -/
theorem insertPos_eq_none_iff :
    insertPos d t key = none ↔ ∀ s ∈ probes d key, Exists d t s ∧ t.keyOf s ≠ key := by
  rw [insertPos_eq_place, place_eq_none_iff]
  constructor
  · intro hall s hs
    obtain ⟨key', hne, hfull⟩ := hall s hs
    obtain ⟨hex, hkey⟩ := slots_eq_full.mp hfull
    exact ⟨hex, hkey ▸ hne⟩
  · intro hall s hs
    obtain ⟨hex, hne⟩ := hall s hs
    exact ⟨t.keyOf s, hne, slots_eq_full.mpr ⟨hex, rfl⟩⟩

/-- **Insertion fails only when the table is full.** -/
theorem insertRnode_null_iff_full (hlen : d.lenRnode < 2 ^ 31) (hkey : OfRunning key) :
    (probes d key).Perm (List.range d.lenRnode) ∧
      ∀ (t : Tables) (val : RNode), ∃ r t', Returns (insertRnode d key val) t r t' ∧
        (r = none ↔ ∀ s, s < d.lenRnode → Exists d t s ∧ t.keyOf s ≠ key) ∧
        (r = none → t' = t) := by
  have hpath := probes_of_noWrap (noWrap_of_running hlen hkey)
  refine ⟨by rw [hpath]; exact linearPath_perm _ _, ?_⟩
  intro t val
  obtain ⟨r, t', hr, hnull, hsame⟩ := insertRnode_returns d t key val
  refine ⟨r, t', hr, ?_, hsame⟩
  rw [hnull, insertPos_eq_none_iff, hpath]
  simp only [mem_linearPath]

/-- Two processes, in a table of two slots. -/
def twoProcesses : Tables :=
  (initialTables.putRnode 0 (.new 1 0 (-1))).putRnode 1 (.new 2 0 (-1))

/-- There is no room for a third. -/
theorem insertRnode_null_of_twoProcesses :
    Returns (insertRnode smallDims (3, 0) (.new 3 0 (-1))) twoProcesses none twoProcesses := by
  have hkey : OfRunning (3, 0) := ⟨by decide, by decide⟩
  obtain ⟨r, t', hr, hnull, hsame⟩ :=
    (insertRnode_null_iff_full (d := smallDims) (by decide) hkey).2 twoProcesses (.new 3 0 (-1))
  have hfull : ∀ s, s < 2 → Exists smallDims twoProcesses s ∧ twoProcesses.keyOf s ≠ (3, 0) := by
    intro s hs
    interval_cases s
    · exact ⟨⟨by decide, by decide⟩, by decide⟩
    · exact ⟨⟨by decide, by decide⟩, by decide⟩
  obtain rfl := hnull.mpr hfull
  rw [← hsame rfl] at hr ⊢
  exact hr

end Vcuda.RNM
