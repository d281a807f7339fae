import Vcuda.Common.Probing
import Vcuda.Rnm.Ops

/-!
# The process table as an open-addressed table

`find_rnode` and `insert_rnode` are the two walks of `Common/Probing` along the probe positions
`hash(key, 0), …, hash(key, len_rnode - 1)`. This module is the bridge: after it no proof unfolds
their loops.
-/

namespace Vcuda.RNM

open Probing

/-! ## The bridge -/

/-- A process slot, seen as a slot of an open-addressed table. -/
def slotOf (rn : RNode) : Slot PidSt :=
  match rn.stat with
  | .NONEXIST => .never
  | .DELETED => .tomb
  | .EXIST => .full (rn.pid, rn.t)

/-- The process table; positions past its end count as never used. -/
def slots (d : Dims) (t : Tables) (s : Nat) : Slot PidSt :=
  if s < d.lenRnode then slotOf (t.rnode s) else .never

/-- The probe positions of a key. -/
def probes (d : Dims) (key : PidSt) : List Nat := (List.range d.lenRnode).map (hash d key)

variable {d : Dims} {t : Tables} {key key' : PidSt} {s s' : Nat}

theorem hash_lt (i : Nat) : hash d key i < d.lenRnode := Nat.mod_lt _ d.rnode_pos

theorem lt_of_mem_probes (h : s ∈ probes d key) : s < d.lenRnode := by
  obtain ⟨i, _, rfl⟩ := List.mem_map.mp h
  exact hash_lt i

/-- Some process occupies the slot. -/
def Exists (d : Dims) (t : Tables) (s : Nat) : Prop := s < d.lenRnode ∧ (t.rnode s).stat = .EXIST

theorem slots_eq_full :
    slots d t s = .full key ↔ Exists d t s ∧ t.keyOf s = key := by
  unfold slots slotOf Exists Tables.keyOf
  by_cases hs : s < d.lenRnode
  · cases h : (t.rnode s).stat <;> simp [hs]
  · simp [hs]

theorem slots_hash (i : Nat) : slots d t (hash d key i) = slotOf (t.rnode (hash d key i)) :=
  if_pos (hash_lt i)

theorem findRnode_eq_lookup : findRnode d t key = lookup (slots d t) key (probes d key) := by
  unfold findRnode probes
  induction List.range d.lenRnode with
  | nil => rfl
  | cons i is ih =>
      have hslot : slots d t (hash d key i) = slotOf (t.rnode (hash d key i)) := slots_hash i
      rw [findRnode.go, List.map_cons, lookup]
      unfold slotOf at hslot
      cases h : (t.rnode (hash d key i)).stat <;> simp [h] at hslot <;> simp [hslot, ih]

theorem insertPos_eq_place : insertPos d t key = place (slots d t) key (probes d key) := by
  unfold insertPos probes
  induction List.range d.lenRnode with
  | nil => rfl
  | cons i is ih =>
      have hslot : slots d t (hash d key i) = slotOf (t.rnode (hash d key i)) := slots_hash i
      rw [insertPos.go, List.map_cons, place]
      unfold slotOf at hslot
      cases h : (t.rnode (hash d key i)).stat <;> simp [h] at hslot <;> simp [hslot, ih]

/-! ## What `find_rnode` and `insert_rnode` return -/

theorem findRnode_eq_some (h : findRnode d t key = some s) :
    Exists d t s ∧ t.keyOf s = key := by
  rw [findRnode_eq_lookup] at h
  exact slots_eq_full.mp (lookup_eq_some h).2

theorem insertPos_lt (h : insertPos d t key = some s) : s < d.lenRnode := by
  rw [insertPos_eq_place] at h
  exact lt_of_mem_probes (place_mem h)

/-- What `add_gmem` relies on without checking: when `find_rnode` finds no slot, the slot that
`insert_rnode` overwrites is not in use. -/
theorem not_exists_of_insertPos (hf : findRnode d t key = none) (h : insertPos d t key = some s) :
    ¬ Exists d t s := by
  rw [findRnode_eq_lookup] at hf
  rw [insertPos_eq_place] at h
  intro hs
  have hfull : slots d t s = .full _ := slots_eq_full.mpr ⟨hs, rfl⟩
  rcases vacant_of_lookup_eq_none hf h with hv | hv
  · rw [hv] at hfull; cases hfull
  · rw [hv] at hfull; cases hfull

/-! ## Updates -/

theorem slots_putRnode (hs : s < d.lenRnode) (rn : RNode) :
    slots d (t.putRnode s rn) = Function.update (slots d t) s (slotOf rn) := by
  funext s'
  by_cases h : s' = s
  · subst h
    rw [Function.update_self]
    simp [slots, hs]
  · rw [Function.update_of_ne h]
    simp [slots, Tables.putRnode_rnode_ne h]

/-- Only occupancy and keys matter to the probing. -/
theorem slots_congr {t' : Tables} (h : ∀ s, s < d.lenRnode →
    slotOf (t'.rnode s) = slotOf (t.rnode s)) : slots d t' = slots d t := by
  funext s
  unfold slots
  split
  · next hs => exact h s hs
  · rfl

@[simp] theorem slots_modifyGmem {i : Int} {f : GMem → GMem} :
    slots d (t.modifyGmem i f) = slots d t := rfl

@[simp] theorem slots_setEntry {i : Int} : slots d (t.setEntry s i) = slots d t := by
  apply slots_congr
  intro s' _
  by_cases h : s' = s
  · subst h; simp [Tables.setEntry, slotOf]
  · rw [Tables.setEntry_rnode_ne h]

theorem exists_congr {t' : Tables} (h : slots d t' = slots d t) :
    Exists d t' s ↔ Exists d t s := by
  have hs := congrFun h s
  constructor
  · intro hex
    have hfull := slots_eq_full.mpr ⟨hex, rfl⟩
    rw [hs] at hfull
    exact (slots_eq_full.mp hfull).1
  · intro hex
    have hfull := slots_eq_full.mpr ⟨hex, rfl⟩
    rw [← hs] at hfull
    exact (slots_eq_full.mp hfull).1

theorem keyOf_of_slots {t' : Tables} (h : slots d t' = slots d t) (hex : Exists d t s) :
    t'.keyOf s = t.keyOf s := by
  have hfull := slots_eq_full.mpr ⟨hex, rfl⟩
  rw [← h] at hfull
  exact (slots_eq_full.mp hfull).2

/-! ### What is in the slot alone -/

theorem exists_of_rnode {t' : Tables} (hrn : t'.rnode s = t.rnode s) :
    Exists d t' s ↔ Exists d t s := by
  unfold Exists
  rw [hrn]

theorem entry_of_rnode {t' : Tables} (hrn : t'.rnode s = t.rnode s) : t'.entry s = t.entry s := by
  unfold Tables.entry
  rw [hrn]

theorem keyOf_of_rnode {t' : Tables} (hrn : t'.rnode s = t.rnode s) : t'.keyOf s = t.keyOf s := by
  unfold Tables.keyOf
  rw [hrn]

theorem exists_putRnode_ne {rn : RNode} (h : s' ≠ s) :
    Exists d (t.putRnode s rn) s' ↔ Exists d t s' :=
  exists_of_rnode (Tables.putRnode_rnode_ne h)

end Vcuda.RNM
