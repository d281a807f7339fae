import Vcuda.Rnm.Contracts

/-!
# The stores of the operations

A process can be killed between any two stores to the tables. `Op.stores` are the stores of an
operation, one after the other, and the tables it leaves are what they make of the tables before,
for every operation and fuel (`exec_state`). So the tables after a kill are what some first part of
them makes, also in a call that would not have come to an end.
-/

namespace Vcuda.RNM

open Traced Tables Probing

/-- A store to a member of a slot or of a record. -/
inductive Store where
  | rnode (s : Nat) (f : RNode → RNode)
  | gmem (i : Int) (f : GMem → GMem)

/-- What a store makes of the tables. -/
def Store.apply (t : Tables) : Store → Tables
  | rnode s f => t.putRnode s (f (t.rnode s))
  | gmem i f => t.modifyGmem i f

def applyAll (t : Tables) (l : List Store) : Tables := l.foldl Store.apply t

/-! ## The stores of the operations -/

/-- `ptr_rnode[s] = val` -/
def assignStores (s : Nat) (val : RNode) : List Store :=
  [.rnode s fun rn => { rn with pid := val.pid }, .rnode s fun rn => { rn with t := val.t },
    .rnode s (·.setRecEntry val.resEntryIdx), .rnode s fun rn => { rn with stat := val.stat }]

/-- `set_res` -/
def setResStores (i : Int) (p : Ptr) (n : UInt64) : List Store :=
  [.gmem i fun r => { r with ptr := p }, .gmem i fun r => { r with bytes := n }]

/-- `GMem::shallow_delete` -/
def shallowDeleteStores (i : Int) : List Store :=
  [.gmem i fun r => { r with ptr := 0 }, .gmem i (·.setNext (-1))]

/-- The stores of `push_gmem`, and what it returns. -/
def pushStores (d : Dims) (p : Ptr) (n : UInt64) (t : Tables) : List Store × Int :=
  match firstEmpty d t with
  | some j => (setResStores j p n ++ [.gmem j (·.setNext (-1))], j)
  | none => ([], -1)

/-- The store of `link_rnode_gmem`: to the slot of an empty list, or else to the last record, unless
that is the record to be linked. -/
def linkStores (fuel : Nat) (rn : Nat) (gmemIdx : Int) (t : Tables) : List Store :=
  if t.entry rn = -1 then [.rnode rn (·.setRecEntry gmemIdx)]
  else
    match (lastRec fuel (t.entry rn) t).result with
    | .ok tailIdx => if tailIdx ≠ gmemIdx then [.gmem tailIdx (·.setNext gmemIdx)] else []
    | .error _ => []

/-- The stores of `add_gmem` once its process has the slot `rn`. -/
def registerStores (d : Dims) (fuel : Nat) (mem : HostMem) (rn : Nat) (p : Ptr) (n : UInt64)
    (t : Tables) : List Store :=
  if p = 0 then []
  else
    match (findGmem fuel mem rn (mem p) t).result with
    | .ok found =>
        let l := if found = -1 then pushStores d p n t else (setResStores found p n, found)
        l.1 ++ linkStores fuel rn l.2 (applyAll t l.1)
    | .error _ => []

/-- The stores to the record before the one released, if there is one, and to that. -/
def unlinkStores (prevIdx gIdx : Int) (t : Tables) : List Store :=
  if prevIdx = -1 then shallowDeleteStores gIdx
  else .gmem prevIdx (·.setNext (t.next gIdx)) :: shallowDeleteStores gIdx

/-- The stores of `remove_gmem_by_dptr`, along its walk. -/
def removeStores (mem : HostMem) (h : Handle) : Nat → Int → Int → Tables → List Store
  | 0, _, _, _ => []
  | fuel + 1, prevIdx, gIdx, t =>
      if (t.gmem gIdx).empty then []
      else
        let l := if mem (t.gmem gIdx).ptr = h then unlinkStores prevIdx gIdx t else []
        l ++ removeStores mem h fuel gIdx ((applyAll t l).next gIdx) (applyAll t l)

/-- The stores of an operation with this fuel, in the order they are made. -/
def Op.stores (d : Dims) (fuel : Nat) (t : Tables) : Op → List Store
  | .addGmem key mem p n =>
      match findRnode d t key with
      | some s => registerStores d fuel mem s p n t
      | none =>
          match insertPos d t key with
          | some s =>
              let l := assignStores s (RNode.new key.1 key.2 (-1))
              l ++ registerStores d fuel mem s p n (applyAll t l)
          | none => []
  | .removeGmem key mem h =>
      match findRnode d t key with
      | some s => removeStores mem h fuel (-1) (t.entry s) t
      | none => []
  | .deleteRnode key =>
      match findRnode d t key with
      | some s => [.rnode s RNode.shallowDelete]
      | none => []
  | .gmemUsed _ => []

variable {d : Dims} {t t' : Tables} {key : PidSt} {mem : HostMem} {h : Handle} {p : Ptr}
  {n : UInt64} {op : Op} {s s' i fuel : Nat} {g x : Int} {l l₁ l₂ : List Store} {st : Store}
  {c : Nat → List Int}

theorem applyAll_append : applyAll t (l₁ ++ l₂) = applyAll (applyAll t l₁) l₂ := List.foldl_append

theorem putRnode_putRnode {rn rn' : RNode} :
    (t.putRnode s rn).putRnode s rn' = t.putRnode s rn' := by
  unfold putRnode
  rw [Function.update_idem]

/-- An assignment of a slot, member by member. -/
theorem applyAll_assignStores {val : RNode} :
    applyAll t (assignStores s val) = t.putRnode s val := by
  simp only [applyAll, assignStores, List.foldl_cons, List.foldl_nil, Store.apply,
    putRnode_rnode_self, putRnode_putRnode]
  rfl

/-- Together the stores of a member function do what it does. -/
theorem applyAll_setResStores :
    applyAll t (setResStores g p n) = t.modifyGmem g (·.setRes p n) := by
  simp only [applyAll, setResStores, List.foldl_cons, List.foldl_nil, Store.apply,
    modifyGmem_modifyGmem]
  rfl

/-- The new record of `push_gmem`. -/
theorem applyAll_pushStores :
    applyAll t (setResStores g p n ++ [.gmem g (·.setNext (-1))]) = putNew t g p n := by
  rw [applyAll_append, applyAll_setResStores]
  simp only [applyAll, List.foldl_cons, List.foldl_nil, Store.apply, modifyGmem_modifyGmem]
  rfl

theorem applyAll_shallowDeleteStores :
    applyAll t (shallowDeleteStores g) = t.modifyGmem g GMem.shallowDelete := by
  simp only [applyAll, shallowDeleteStores, List.foldl_cons, List.foldl_nil, Store.apply,
    modifyGmem_modifyGmem]
  rfl

/-- The record is cut out and emptied. -/
theorem applyAll_unlinkStores : applyAll t (unlinkStores x g t) = unlink t x g := by
  unfold unlinkStores unlink
  split
  · exact applyAll_shallowDeleteStores
  · exact applyAll_shallowDeleteStores

/-! ## They are what an operation does -/

/-- A search only reads, also one that does not end. -/
theorem findGmem_state : (findGmem fuel mem s h t).state = t := by
  have hfrom : (findGmemFrom mem h fuel (t.entry s) t).state = t := by
    generalize t.entry s = g
    induction fuel generalizing g with
    | zero => rfl
    | succ fuel ih =>
        rw [findGmemFrom, (ptrGmem_returns g).state_bind]
        split
        · rfl
        · next hlive =>
          rw [(deref_returns fun hp => hlive (GMem.empty_iff.mpr hp)).state_bind]
          split
          · rfl
          · exact ih _
  rwa [findGmem, (returns_read _ t).state_bind]

/-- So does the walk to the last record. -/
theorem lastRec_state : (lastRec fuel g t).state = t := by
  induction fuel generalizing g with
  | zero => rfl
  | succ fuel ih =>
      rw [lastRec, (ptrGmem_returns g).state_bind]
      split
      · rfl
      · exact ih

/-- Linking makes its one store after the walk, and none if the walk does not end. -/
theorem linkRnodeGmem_state :
    (linkRnodeGmem fuel s g t).state = applyAll t (linkStores fuel s g t) := by
  rw [linkRnodeGmem, (returns_read _ t).state_bind]
  unfold linkStores
  split
  · rfl
  · cases hlast : (lastRec fuel (t.entry s) t).result with
    | error e =>
        rw [Faults.state_bind hlast]
        exact lastRec_state
    | ok tailIdx =>
        have hret := (runs_of_ok hlast).returns
        rw [lastRec_state] at hret
        rw [hret.state_bind]
        dsimp only
        split
        · exact congrArg Outcome.state (setNext_returns tailIdx g).choose_spec
        · rfl

/-- `push_gmem` returns the record that its stores fill. -/
theorem pushGmem_state : Returns (pushGmem d (GMem.new p n)) t (pushStores d p n t).2
    (applyAll t (pushStores d p n t).1) := by
  unfold pushStores
  cases hj : firstEmpty d t with
  | none => exact pushGmem_of_none hj
  | some j =>
      dsimp only
      rw [applyAll_pushStores]
      exact pushGmem_of_some hj

/-- A registration makes its stores in the order of the code. -/
theorem registerGmem_state : (registerGmem d fuel mem (some s) p n t).state =
    applyAll t (registerStores d fuel mem s p n t) := by
  unfold registerStores
  by_cases hp : p = 0
  · subst hp
    rw [if_pos rfl, registerGmem, deref_faults_null.state_bind]
    rfl
  · have hslot : Returns (derefRNode (some s)) t s t := returns_pure s t
    rw [if_neg hp, registerGmem, (deref_returns hp).state_bind, hslot.state_bind]
    cases hfind : (findGmem fuel mem s (mem p) t).result with
    | error e =>
        rw [Faults.state_bind hfind]
        exact findGmem_state
    | ok found =>
        have hret := (runs_of_ok hfind).returns
        rw [findGmem_state] at hret
        rw [hret.state_bind]
        dsimp only
        split
        · rw [pushGmem_state.state_bind, linkRnodeGmem_state, applyAll_append]
        · rw [(setRes_returns found p n).state_bind, linkRnodeGmem_state, applyAll_append,
            applyAll_setResStores]

/-- The walk of `remove_gmem` goes on from what its stores have left. -/
theorem removeGmemByDptr_state {prev : Int} : (removeGmemByDptr mem h fuel prev g t).state =
    applyAll t (removeStores mem h fuel prev g t) := by
  induction fuel generalizing prev g t with
  | zero => rfl
  | succ fuel ih =>
      rw [removeGmemByDptr, (ptrGmem_returns g).state_bind, removeStores]
      split
      · rfl
      · next hlive =>
        rw [(deref_returns fun hp => hlive (GMem.empty_iff.mpr hp)).state_bind]
        have hrelease : Returns (releaseGmem (mem (t.gmem g).ptr) h prev g) t ()
            (applyAll t (if mem (t.gmem g).ptr = h then unlinkStores prev g t else [])) := by
          unfold releaseGmem
          split
          · rw [applyAll_unlinkStores]
            exact unlinkGmem_returns prev g
          · exact returns_pure _ t
        rw [hrelease.state_bind, (ptrGmem_returns g).state_bind, ih, applyAll_append]
        rfl

/-- `gmem_used` only reads, also when it does not end. -/
theorem gmemUsed_state {pe : RNode → Bool} : (gmemUsed d fuel pe t).state = t := by
  have hchain : ∀ {i : Nat} {fuel : Nat} {g : Int} {used : UInt64},
      (gmemUsedChain i fuel g used t).state = t := by
    intro i fuel g used
    induction fuel generalizing g used with
    | zero => rfl
    | succ fuel ih =>
        rw [gmemUsedChain]
        split
        · rw [(ptrGmem_returns g).state_bind, (ptrGmem_returns i).state_bind]
          exact ih
        · rfl
  unfold gmemUsed
  generalize List.range d.lenRnode = is, (0 : UInt64) = used
  induction is generalizing used with
  | nil => rfl
  | cons i is ih =>
      rw [gmemUsed.go, (returns_read _ t).state_bind]
      split
      · cases hsum : (gmemUsedChain i fuel (t.rnode i).resEntryIdx used t).result with
        | error e =>
            rw [Faults.state_bind hsum]
            exact hchain
        | ok used' =>
            have hret := (runs_of_ok hsum).returns
            rw [hchain] at hret
            rw [hret.state_bind]
            exact ih used'
      · exact ih used

/-- **The stores of an operation are what it does**, whether it returns, crashes or goes on. -/
theorem exec_state : (op.exec d fuel t).state = applyAll t (op.stores d fuel t) := by
  cases op with
  | addGmem key mem p n =>
      show (addGmem d fuel key mem p n t).state = _
      rw [addGmem, (returns_read _ t).state_bind, Op.stores]
      cases hfind : findRnode d t key with
      | some s => exact registerGmem_state
      | none =>
          dsimp only
          cases hpos : insertPos d t key with
          | some s =>
              rw [(insertRnode_of_insertPos hpos).state_bind, registerGmem_state]
              dsimp only
              rw [applyAll_append, applyAll_assignStores]
          | none =>
              rw [(insertRnode_of_full hpos).state_bind]
              by_cases hp : p = 0
              · subst hp
                rw [registerGmem, deref_faults_null.state_bind]
                rfl
              · rw [registerGmem, (deref_returns hp).state_bind]
                rfl
  | removeGmem key mem h =>
      show (removeGmem d fuel key mem h t).state = _
      rw [removeGmem, (printGmem_returns d t).state_bind, (returns_read _ t).state_bind, Op.stores]
      cases hfind : findRnode d t key with
      | none => rfl
      | some s =>
          dsimp only
          rw [(returns_read _ t).state_bind]
          exact removeGmemByDptr_state
  | deleteRnode key =>
      show (deleteRnode d key t).state = _
      rw [deleteRnode, (returns_read _ t).state_bind, Op.stores]
      cases findRnode d t key with
      | some s => rfl
      | none => rfl
  | gmemUsed pe =>
      show ((gmemUsed d fuel pe >>= fun _ => pure () : Exec Tables Unit) t).state = t
      cases hused : (gmemUsed d fuel pe t).result with
      | error e =>
          rw [Faults.state_bind hused]
          exact gmemUsed_state
      | ok used =>
          rw [(runs_of_ok hused).returns.state_bind]
          exact gmemUsed_state

end Vcuda.RNM
