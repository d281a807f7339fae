import Vcuda.Common.Traced
import Vcuda.Cuda
import Mathlib.Logic.Function.Basic
import Mathlib.Data.List.Basic

/-!
# The shared tables

The data model of `gmem.hpp` and `rnode.hpp`: a record (`GMem`) for an allocation, a process slot
(`RNode`), and the two tables in shared memory.

A table is the memory behind its pointer, so `ptr_gmem` is a total function on indices. The table
proper is the part below `Dims.lenGmem`; what the code finds at an index outside it (it reads index
`-1` at the end of every chain) is part of the state like everything else. Nothing is assumed of it
here: `Tables.Sentinel` is the assumption that it reads as an empty record, and theorems that need
it say so.
-/

namespace Vcuda

/-- The identity of a process: `std::tuple<int32_t, uint64_t>`, its pid and start time. -/
abbrev PidSt := Int32 × UInt64

/-! ## Records -/

/-- `GMem`: the host variable that holds the handle, the bytes charged, the next record. -/
structure GMem where
  ptr : Ptr
  bytes : UInt64
  next : Int
  deriving DecidableEq

namespace GMem

def initialized : GMem := ⟨0, 0, -1⟩

def new (ptr : Ptr) (bytes : UInt64) : GMem := ⟨ptr, bytes, -1⟩

def setNext (g : GMem) (idx : Int) : GMem := { g with next := idx }

def setRes (g : GMem) (ptr : Ptr) (bytes : UInt64) : GMem := { g with ptr := ptr, bytes := bytes }

def empty (g : GMem) : Bool := g.ptr == 0

def isTail (g : GMem) : Bool := g.ptr != 0 && g.next == -1

/-- The bytes stay: only the variable and the link are reset. -/
def shallowDelete (g : GMem) : GMem := { g with ptr := 0, next := -1 }

variable {g : GMem} {p : Ptr} {n : UInt64} {i : Int}

@[simp] theorem empty_iff : g.empty = true ↔ g.ptr = 0 := by simp [empty]

@[simp] theorem empty_eq_false : g.empty = false ↔ g.ptr ≠ 0 := by simp [empty]

@[simp] theorem isTail_iff : g.isTail = true ↔ g.ptr ≠ 0 ∧ g.next = -1 := by simp [isTail]

@[simp] theorem setNext_ptr : (g.setNext i).ptr = g.ptr := rfl
@[simp] theorem setNext_bytes : (g.setNext i).bytes = g.bytes := rfl
@[simp] theorem setNext_next : (g.setNext i).next = i := rfl
@[simp] theorem setRes_ptr : (g.setRes p n).ptr = p := rfl
@[simp] theorem setRes_bytes : (g.setRes p n).bytes = n := rfl
@[simp] theorem setRes_next : (g.setRes p n).next = g.next := rfl
@[simp] theorem shallowDelete_ptr : g.shallowDelete.ptr = 0 := rfl
@[simp] theorem shallowDelete_bytes : g.shallowDelete.bytes = g.bytes := rfl
@[simp] theorem shallowDelete_next : g.shallowDelete.next = -1 := rfl
@[simp] theorem new_ptr : (new p n).ptr = p := rfl
@[simp] theorem new_bytes : (new p n).bytes = n := rfl
@[simp] theorem initialized_ptr : initialized.ptr = 0 := rfl
@[simp] theorem initialized_next : initialized.next = -1 := rfl

end GMem

/-! ## Process slots -/

inductive RNodeStatus where
  | NONEXIST
  | DELETED
  | EXIST
  deriving DecidableEq

/-- `RNode`: a process and the index of its first record. -/
structure RNode where
  pid : Int32
  t : UInt64
  resEntryIdx : Int
  stat : RNodeStatus
  deriving DecidableEq

namespace RNode

def initialized : RNode := ⟨-1, 0, -1, .NONEXIST⟩

def new (npid : Int32) (nt : UInt64) (nresEntryIdx : Int) : RNode :=
  ⟨npid, nt, nresEntryIdx, .EXIST⟩

def setRecEntry (rn : RNode) (idx : Int) : RNode := { rn with resEntryIdx := idx }

def sameKey (rn : RNode) (key : PidSt) : Bool := rn.pid == key.1 && rn.t == key.2

def shallowDelete (rn : RNode) : RNode := { rn with stat := .DELETED }

variable {rn : RNode} {key : PidSt} {i : Int}

@[simp] theorem sameKey_iff : rn.sameKey key = true ↔ (rn.pid, rn.t) = key := by
  simp [sameKey, Prod.ext_iff]

@[simp] theorem setRecEntry_pid : (rn.setRecEntry i).pid = rn.pid := rfl
@[simp] theorem setRecEntry_t : (rn.setRecEntry i).t = rn.t := rfl
@[simp] theorem setRecEntry_stat : (rn.setRecEntry i).stat = rn.stat := rfl
@[simp] theorem setRecEntry_resEntryIdx : (rn.setRecEntry i).resEntryIdx = i := rfl
@[simp] theorem shallowDelete_stat : rn.shallowDelete.stat = .DELETED := rfl
@[simp] theorem shallowDelete_resEntryIdx : rn.shallowDelete.resEntryIdx = rn.resEntryIdx := rfl
@[simp] theorem new_pid {p : Int32} {t : UInt64} : (new p t i).pid = p := rfl
@[simp] theorem new_t {p : Int32} {t : UInt64} : (new p t i).t = t := rfl
@[simp] theorem new_stat {p : Int32} {t : UInt64} : (new p t i).stat = .EXIST := rfl
@[simp] theorem new_resEntryIdx {p : Int32} {t : UInt64} : (new p t i).resEntryIdx = i := rfl
@[simp] theorem initialized_stat : initialized.stat = .NONEXIST := rfl

end RNode

/-! ## The tables -/

/-- The table sizes an `RNM` was built with. The process table is never empty: its length is the
modulus of the hash. -/
structure Dims where
  lenRnode : Nat
  lenGmem : Nat
  rnode_pos : 0 < lenRnode

/-- `RNM::init` sets `hash_d` to `len_rnode`. -/
def Dims.hashD (d : Dims) : Nat := d.lenRnode

/-- An index into the record table. -/
def InRange (d : Dims) (i : Int) : Prop := 0 ≤ i ∧ i < d.lenGmem

instance (d : Dims) : DecidablePred (InRange d) := fun _ => inferInstanceAs (Decidable (_ ∧ _))

theorem inRange_natCast {d : Dims} {j : Nat} : InRange d j ↔ j < d.lenGmem := by
  unfold InRange
  omega

theorem InRange.exists_nat {d : Dims} {i : Int} (h : InRange d i) :
    ∃ j : Nat, i = j ∧ j < d.lenGmem := by
  obtain ⟨j, rfl⟩ := Int.eq_ofNat_of_zero_le h.1
  exact ⟨j, rfl, inRange_natCast.mp h⟩

theorem InRange.ne_sentinel {d : Dims} {i : Int} (h : InRange d i) : i ≠ -1 := by
  have := h.1
  omega

/-- The two tables in shared memory, as `ptr_rnode` and `ptr_gmem` address them. -/
structure Tables where
  rnode : Nat → RNode
  gmem : Int → GMem

namespace Tables

/-- Change the record at index `i`. -/
def modifyGmem (t : Tables) (i : Int) (f : GMem → GMem) : Tables :=
  { t with gmem := Function.update t.gmem i (f (t.gmem i)) }

/-- Overwrite the process slot at `s`. -/
def putRnode (t : Tables) (s : Nat) (rn : RNode) : Tables :=
  { t with rnode := Function.update t.rnode s rn }

/-- The index of the first record of the process in slot `s`. -/
def entry (t : Tables) (s : Nat) : Int := (t.rnode s).resEntryIdx

/-- The key of the process in slot `s`. -/
def keyOf (t : Tables) (s : Nat) : PidSt := ((t.rnode s).pid, (t.rnode s).t)

def setEntry (t : Tables) (s : Nat) (i : Int) : Tables :=
  t.putRnode s ((t.rnode s).setRecEntry i)

/-- The successor of a record. -/
def next (t : Tables) (i : Int) : Int := (t.gmem i).next

/-- The record at `i` is in use. -/
def Live (t : Tables) (i : Int) : Prop := (t.gmem i).ptr ≠ 0

/-- What `RNM::init` leaves in newly created segments. -/
structure Fresh (d : Dims) (t : Tables) : Prop where
  rnode : ∀ s, s < d.lenRnode → t.rnode s = RNode.initialized
  gmem : ∀ i, InRange d i → t.gmem i = GMem.initialized

/-- Index `-1`, one below the table, reads as an empty record that links nowhere. -/
structure Sentinel (t : Tables) : Prop where
  ptr : (t.gmem (-1)).ptr = 0
  next : (t.gmem (-1)).next = -1

variable {t : Tables} {s s' : Nat} {i j : Int} {f : GMem → GMem} {rn : RNode}

@[simp] theorem modifyGmem_rnode : (t.modifyGmem i f).rnode = t.rnode := rfl
@[simp] theorem modifyGmem_keyOf : (t.modifyGmem i f).keyOf s = t.keyOf s := rfl
@[simp] theorem modifyGmem_entry : (t.modifyGmem i f).entry s = t.entry s := rfl
@[simp] theorem putRnode_gmem : (t.putRnode s rn).gmem = t.gmem := rfl
@[simp] theorem putRnode_next : (t.putRnode s rn).next = t.next := rfl
@[simp] theorem putRnode_Live : (t.putRnode s rn).Live = t.Live := rfl
@[simp] theorem setEntry_gmem : (t.setEntry s i).gmem = t.gmem := rfl
@[simp] theorem setEntry_next : (t.setEntry s i).next = t.next := rfl
@[simp] theorem setEntry_Live : (t.setEntry s i).Live = t.Live := rfl

@[simp] theorem modifyGmem_gmem_self : (t.modifyGmem i f).gmem i = f (t.gmem i) :=
  Function.update_self ..

theorem modifyGmem_gmem_ne (h : j ≠ i) : (t.modifyGmem i f).gmem j = t.gmem j :=
  Function.update_of_ne h ..

@[simp] theorem putRnode_rnode_self : (t.putRnode s rn).rnode s = rn := Function.update_self ..

@[simp] theorem putRnode_entry_self : (t.putRnode s rn).entry s = rn.resEntryIdx := by
  rw [entry, putRnode_rnode_self]

theorem putRnode_rnode_ne (h : s' ≠ s) : (t.putRnode s rn).rnode s' = t.rnode s' :=
  Function.update_of_ne h ..

theorem putRnode_entry_ne (h : s' ≠ s) : (t.putRnode s rn).entry s' = t.entry s' := by
  unfold entry
  rw [putRnode_rnode_ne h]

@[simp] theorem setEntry_entry_self : (t.setEntry s i).entry s = i := by
  simp [setEntry, entry]

theorem setEntry_rnode_ne (h : s' ≠ s) : (t.setEntry s i).rnode s' = t.rnode s' :=
  putRnode_rnode_ne h

theorem setEntry_entry_ne (h : s' ≠ s) : (t.setEntry s i).entry s' = t.entry s' := by
  unfold entry
  rw [setEntry_rnode_ne h]

@[simp] theorem setEntry_keyOf : (t.setEntry s i).keyOf s' = t.keyOf s' := by
  unfold keyOf
  by_cases h : s' = s
  · subst h; simp [setEntry]
  · rw [setEntry_rnode_ne h]

@[simp] theorem setEntry_stat : ((t.setEntry s i).rnode s').stat = (t.rnode s').stat := by
  by_cases h : s' = s
  · subst h; simp [setEntry]
  · rw [setEntry_rnode_ne h]

theorem Sentinel.not_live (h : t.Sentinel) : ¬ t.Live (-1) := fun hl => hl h.ptr

theorem ne_sentinel_of_live (h : t.Sentinel) (hi : t.Live i) : i ≠ -1 :=
  fun he => h.not_live (he ▸ hi)

end Tables

/-! ## Running code on the tables -/

/-- Why a call may not return. `outOfFuel` stands for a walk that was cut short; a walk that ends
this way for every amount of fuel never ends. -/
inductive Fault where
  | outOfFuel
  | nullRNode
  | nullHost
  | divByZero
  deriving DecidableEq

/-- What the code touches: a record of `ptr_gmem` by its index (`setRes` when it is given a new
variable and size), a host variable by its address, the driver. -/
inductive Event where
  | gmem (i : Int)
  | setRes (i : Int)
  | host (p : Ptr)
  | driver (c : ApiCall)
  deriving DecidableEq

/-- The index with which `ptr_gmem` was accessed. -/
def Event.idx? : Event → Option Int
  | .gmem i => some i
  | .setRes i => some i
  | .host _ => none
  | .driver _ => none

/-- The record that was registered. -/
def Event.setRes? : Event → Option Int
  | .setRes i => some i
  | _ => none

/-- The records a trace registers. -/
def registered (tr : List Event) : List Int := tr.filterMap Event.setRes?

@[simp] theorem registered_nil : registered [] = [] := rfl

@[simp] theorem registered_append (tr₁ tr₂ : List Event) :
    registered (tr₁ ++ tr₂) = registered tr₁ ++ registered tr₂ := List.filterMap_append ..

@[simp] theorem registered_gmem (i : Int) (tr : List Event) :
    registered (.gmem i :: tr) = registered tr := rfl

@[simp] theorem registered_host (p : Ptr) (tr : List Event) :
    registered (.host p :: tr) = registered tr := rfl

@[simp] theorem registered_setRes (i : Int) (tr : List Event) :
    registered (.setRes i :: tr) = i :: registered tr := rfl

@[simp] theorem registered_driver (c : ApiCall) (tr : List Event) :
    registered (.driver c :: tr) = registered tr := rfl

/-- Code that runs on a state `σ`. -/
abbrev Exec (σ : Type) := Traced Fault Event σ

end Vcuda
