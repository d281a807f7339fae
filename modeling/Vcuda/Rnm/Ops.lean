import Vcuda.Rnm.Basic

/-!
# The operations of `RNM`

`resource.cxx`, function by function. The process an `RNM` object belongs to enters as its key
(`pid`, `stime`) and its own memory `mem`, which the record code dereferences. The chain walks take
fuel, one unit for each record they look at.

The template parameter of `find_gmem`, `add_gmem` and `remove_gmem` only selects the width of the
load through a record's pointer, eight bytes in all three instances, so each is one definition.
-/

namespace Vcuda.RNM

open Traced

/-! ## Accessing memory -/

/-- Read `ptr_gmem[i]`. -/
def ptrGmem (i : Int) : Exec Tables GMem := do
  emit (.gmem i)
  read (·.gmem i)

/-- `ptr_gmem[i].set_next(idx)` -/
def setNext (i idx : Int) : Exec Tables Unit := do
  emit (.gmem i)
  update (·.modifyGmem i (·.setNext idx))

/-- `ptr_gmem[i].set_res(ptr, bytes)` -/
def setRes (i : Int) (ptr : Ptr) (bytes : UInt64) : Exec Tables Unit := do
  emit (.setRes i)
  update (·.modifyGmem i (·.setRes ptr bytes))

/-- `ptr_gmem[i].shallow_delete()` -/
def shallowDelete (i : Int) : Exec Tables Unit := do
  emit (.gmem i)
  update (·.modifyGmem i GMem.shallowDelete)

/-- `*static_cast<T*>(p)` in the memory of the running process. -/
def deref (mem : HostMem) (p : Ptr) : Exec Tables Handle := do
  emit (.host p)
  if p = 0 then fail .nullHost else pure (mem p)

/-- Go through an `RNode *`, which is the null pointer when it is `none`. -/
def derefRNode : Option Nat → Exec Tables Nat
  | none => fail .nullRNode
  | some s => pure s

/-! ## The process table -/

def preHash (key : PidSt) : UInt64 := (key.1.toInt64.toUInt64 <<< 6) + key.2

def hash (d : Dims) (key : PidSt) (i : Nat) : Nat :=
  (preHash key + UInt64.ofNat i).toNat % d.hashD

/-- Where `insert_rnode` writes, `none` when the table is full. -/
def insertPos (d : Dims) (t : Tables) (key : PidSt) : Option Nat := go (List.range d.lenRnode)
where
  go : List Nat → Option Nat
    | [] => none
    | i :: is =>
        let pos := hash d key i
        if (t.rnode pos).stat = .NONEXIST ∨ (t.rnode pos).stat = .DELETED then some pos
        else if (t.rnode pos).sameKey key then some pos
        else go is

def insertRnode (d : Dims) (key : PidSt) (val : RNode) : Exec Tables (Option Nat) := do
  match ← read (insertPos d · key) with
  | some pos => do
      update (·.putRnode pos val)
      pure (some pos)
  | none => pure none

def findRnode (d : Dims) (t : Tables) (key : PidSt) : Option Nat := go (List.range d.lenRnode)
where
  go : List Nat → Option Nat
    | [] => none
    | i :: is =>
        let pos := hash d key i
        if (t.rnode pos).stat = .NONEXIST then none
        else if (t.rnode pos).stat = .EXIST then
          if (t.rnode pos).sameKey key then some pos else go is
        else go is

def deleteRnode (d : Dims) (key : PidSt) : Exec Tables Unit := do
  match ← read (findRnode d · key) with
  | some delPtr => update fun t => t.putRnode delPtr (t.rnode delPtr).shallowDelete
  | none => pure ()

/-! ## The record chains -/

/-- Take the first empty record; `-1` when there is none. -/
def pushGmem (d : Dims) (gm : GMem) : Exec Tables Int := go (List.range d.lenGmem)
where
  go : List Nat → Exec Tables Int
    | [] => pure (-1)
    | i :: is => do
        let r ← ptrGmem i
        if r.empty then do
          setRes i gm.ptr gm.bytes
          setNext i (-1)
          pure i
        else go is

def lastRec : Nat → Int → Exec Tables Int
  | 0, _ => fail .outOfFuel
  | fuel + 1, idx => do
      let r ← ptrGmem idx
      if r.isTail then pure idx else lastRec fuel r.next

def linkRnodeGmem (fuel : Nat) (rn : Nat) (gmemIdx : Int) : Exec Tables Unit := do
  let entry ← read (·.entry rn)
  if entry = -1 then update (·.setEntry rn gmemIdx)
  else do
    let tailIdx ← lastRec fuel entry
    if tailIdx ≠ gmemIdx then setNext tailIdx gmemIdx else pure ()

/-- The loop of `find_gmem` from the record `gIdx`. -/
def findGmemFrom (mem : HostMem) (dptr : Handle) : Nat → Int → Exec Tables Int
  | 0, _ => fail .outOfFuel
  | fuel + 1, gIdx => do
      let r ← ptrGmem gIdx
      if r.empty then pure (-1)
      else do
        let v ← deref mem r.ptr
        if v = dptr then pure gIdx else findGmemFrom mem dptr fuel r.next

def findGmem (fuel : Nat) (mem : HostMem) (rn : Nat) (dptr : Handle) : Exec Tables Int := do
  let gIdx ← read (·.entry rn)
  findGmemFrom mem dptr fuel gIdx

/-- The record part of `add_gmem`, the same text in both of its branches: update the record that
holds the handle or push a new one, then link it. -/
def registerGmem (d : Dims) (fuel : Nat) (mem : HostMem) (rn : Option Nat) (dptr : Ptr)
    (bytes : UInt64) : Exec Tables Unit := do
  let handle ← deref mem dptr
  let rn ← derefRNode rn
  let found ← findGmem fuel mem rn handle
  if found = -1 then do
    let gIdx ← pushGmem d (GMem.new dptr bytes)
    linkRnodeGmem fuel rn gIdx
  else do
    setRes found dptr bytes
    linkRnodeGmem fuel rn found

def addGmem (d : Dims) (fuel : Nat) (key : PidSt) (mem : HostMem) (dptr : Ptr) (bytes : UInt64) :
    Exec Tables Unit := do
  match ← read (findRnode d · key) with
  | some targetRn => registerGmem d fuel mem (some targetRn) dptr bytes
  | none => do
      let rn ← insertRnode d key (RNode.new key.1 key.2 (-1))
      registerGmem d fuel mem rn dptr bytes

/-- What `remove_gmem_by_dptr` does to the record `gIdx` when it holds the handle. -/
def unlinkGmem (prevIdx gIdx : Int) : Exec Tables Unit := do
  if prevIdx = -1 then shallowDelete gIdx
  else do
    let r ← ptrGmem gIdx
    setNext prevIdx r.next
    shallowDelete gIdx

/-- The conditional in the body of `remove_gmem_by_dptr`; `v` is what the variable holds. -/
def releaseGmem (v dptr : Handle) (prevIdx gIdx : Int) : Exec Tables Unit :=
  if v = dptr then unlinkGmem prevIdx gIdx else pure ()

def removeGmemByDptr (mem : HostMem) (dptr : Handle) : Nat → Int → Int → Exec Tables Unit
  | 0, _, _ => fail .outOfFuel
  | fuel + 1, prevIdx, gIdx => do
      let r ← ptrGmem gIdx
      if r.empty then pure ()
      else do
        let v ← deref mem r.ptr
        releaseGmem v dptr prevIdx gIdx
        -- read again: after an unlinking the successor is `-1`
        let r' ← ptrGmem gIdx
        removeGmemByDptr mem dptr fuel gIdx r'.next

/-- `print_gmem` looks at every record; what it prints is not modelled. `print_rnodes`, called
before it, reads only process slots. -/
def printGmem (d : Dims) : Exec Tables Unit := go (List.range d.lenGmem)
where
  go : List Nat → Exec Tables Unit
    | [] => pure ()
    | i :: is => do
        let _ ← ptrGmem i
        go is

def removeGmem (d : Dims) (fuel : Nat) (key : PidSt) (mem : HostMem) (dptr : Handle) :
    Exec Tables Unit := do
  printGmem d
  match ← read (findRnode d · key) with
  | none => pure ()
  | some targetRn => do
      let gIdx ← read (·.entry targetRn)
      removeGmemByDptr mem dptr fuel (-1) gIdx

/-! ## The sum -/

/-- The inner loop of `gmem_used` for the process in slot `i`. Its step reads the record at the
*slot's* index, `gi = ptr_gmem[i].next`. -/
def gmemUsedChain (i : Nat) : Nat → Int → UInt64 → Exec Tables UInt64
  | 0, _, _ => fail .outOfFuel
  | fuel + 1, gi, used =>
      if gi > -1 then do
        let r ← ptrGmem gi
        let r' ← ptrGmem i
        gmemUsedChain i fuel r'.next (used + r.bytes)
      else pure used

/-- `gmem_used`; `processExist` is what `RNode::process_exist` finds out about a process. -/
def gmemUsed (d : Dims) (fuel : Nat) (processExist : RNode → Bool) : Exec Tables UInt64 :=
  go (List.range d.lenRnode) 0
where
  go : List Nat → UInt64 → Exec Tables UInt64
    | [], used => pure used
    | i :: is, used => do
        let rn ← read (·.rnode i)
        if rn.stat = .EXIST ∧ processExist rn then do
          let used ← gmemUsedChain i fuel rn.resEntryIdx used
          go is used
        else go is used

end Vcuda.RNM
