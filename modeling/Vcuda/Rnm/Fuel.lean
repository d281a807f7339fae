import Vcuda.Rnm.Invariants

/-!
# More fuel

The fuel of the walks is an artefact of the model. An operation with more of it does exactly the
same, unless it ran out before: no answer, no table and no other fault depends on how much there
was.
-/

namespace Vcuda.RNM

open Traced

variable {d : Dims} {key : PidSt} {mem : HostMem} {h : Handle} {p : Ptr} {n : UInt64}
  {processExist : RNode → Bool} {fuel fuel' : Nat}

/-- The search, by induction on the smaller fuel: a step of it does not look at the fuel. -/
theorem findGmemFrom_approx (hle : fuel ≤ fuel') (g : Int) :
    Approx .outOfFuel (findGmemFrom mem h fuel g) (findGmemFrom mem h fuel' g) := by
  induction fuel generalizing fuel' g with
  | zero => exact Approx.fail _
  | succ fuel ih =>
      obtain ⟨fuel', rfl⟩ := Nat.exists_eq_succ_of_ne_zero (Nat.ne_zero_of_lt hle)
      refine (Approx.refl _).bind fun r => (Approx.refl _).ite ?_
      refine (Approx.refl _).bind fun v => (Approx.refl _).ite ?_
      exact ih (Nat.le_of_succ_le_succ hle) r.next

/-- So for the walk to the last record. -/
theorem lastRec_approx (hle : fuel ≤ fuel') (g : Int) :
    Approx .outOfFuel (lastRec fuel g) (lastRec fuel' g) := by
  induction fuel generalizing fuel' g with
  | zero => exact Approx.fail _
  | succ fuel ih =>
      obtain ⟨fuel', rfl⟩ := Nat.exists_eq_succ_of_ne_zero (Nat.ne_zero_of_lt hle)
      refine (Approx.refl _).bind fun r => (Approx.refl _).ite ?_
      exact ih (Nat.le_of_succ_le_succ hle) r.next

theorem linkRnodeGmem_approx (hle : fuel ≤ fuel') (rn : Nat) (g : Int) :
    Approx .outOfFuel (linkRnodeGmem fuel rn g) (linkRnodeGmem fuel' rn g) := by
  refine (Approx.refl _).bind fun entry => (Approx.refl _).ite ?_
  exact (lastRec_approx hle entry).bind fun _ => Approx.refl _

/-- The two walks of `add_gmem` are the only parts of it with fuel. -/
theorem registerGmem_approx (hle : fuel ≤ fuel') (rn : Option Nat) :
    Approx .outOfFuel (registerGmem d fuel mem rn p n) (registerGmem d fuel' mem rn p n) := by
  refine (Approx.refl _).bind fun v => (Approx.refl _).bind fun s => ?_
  refine ((Approx.refl _).bind fun g => findGmemFrom_approx hle g).bind fun found => ?_
  refine ((Approx.refl _).bind fun g => ?_).ite ((Approx.refl _).bind fun _ => ?_)
  · exact linkRnodeGmem_approx hle s g
  · exact linkRnodeGmem_approx hle s found

theorem addGmem_approx (hle : fuel ≤ fuel') :
    Approx .outOfFuel (addGmem d fuel key mem p n) (addGmem d fuel' key mem p n) := by
  refine (Approx.refl _).bind fun rn => ?_
  cases rn with
  | some s => exact registerGmem_approx hle (some s)
  | none => exact (Approx.refl _).bind fun rn => registerGmem_approx hle rn

/-- The walk of `remove_gmem`, which goes on behind the record it has released. -/
theorem removeGmemByDptr_approx (hle : fuel ≤ fuel') (prev g : Int) :
    Approx .outOfFuel (removeGmemByDptr mem h fuel prev g)
      (removeGmemByDptr mem h fuel' prev g) := by
  induction fuel generalizing fuel' prev g with
  | zero => exact Approx.fail _
  | succ fuel ih =>
      obtain ⟨fuel', rfl⟩ := Nat.exists_eq_succ_of_ne_zero (Nat.ne_zero_of_lt hle)
      refine (Approx.refl _).bind fun r => (Approx.refl _).ite ?_
      refine (Approx.refl _).bind fun v => (Approx.refl _).bind fun _ => ?_
      refine (Approx.refl _).bind fun r' => ?_
      exact ih (Nat.le_of_succ_le_succ hle) g r'.next

theorem removeGmem_approx (hle : fuel ≤ fuel') :
    Approx .outOfFuel (removeGmem d fuel key mem h) (removeGmem d fuel' key mem h) := by
  refine (Approx.refl _).bind fun _ => (Approx.refl _).bind fun rn => ?_
  cases rn with
  | none => exact Approx.refl _
  | some s => exact (Approx.refl _).bind fun g => removeGmemByDptr_approx hle (-1) g

/-- The sum over the records of one process. -/
theorem gmemUsedChain_approx (hle : fuel ≤ fuel') (i : Nat) (g : Int) (used : UInt64) :
    Approx .outOfFuel (gmemUsedChain i fuel g used) (gmemUsedChain i fuel' g used) := by
  induction fuel generalizing fuel' g used with
  | zero => exact Approx.fail _
  | succ fuel ih =>
      obtain ⟨fuel', rfl⟩ := Nat.exists_eq_succ_of_ne_zero (Nat.ne_zero_of_lt hle)
      refine Approx.ite ?_ (Approx.refl _)
      refine (Approx.refl _).bind fun r => (Approx.refl _).bind fun r' => ?_
      exact ih (Nat.le_of_succ_le_succ hle) r'.next _

/-- The sum over all processes, where each of them gets the same fuel. -/
theorem gmemUsed_approx (hle : fuel ≤ fuel') :
    Approx .outOfFuel (gmemUsed d fuel processExist) (gmemUsed d fuel' processExist) := by
  have hgo : ∀ is used, Approx .outOfFuel (gmemUsed.go fuel processExist is used)
      (gmemUsed.go fuel' processExist is used) := by
    intro is
    induction is with
    | nil => exact fun _ => Approx.refl _
    | cons i is ih =>
        intro used
        refine (Approx.refl _).bind fun rn => Approx.ite ?_ (ih used)
        exact (gmemUsedChain_approx hle i _ used).bind fun used => ih used
  exact hgo _ 0

/-- **An operation with more fuel does the same**, unless it ran out. -/
theorem Op.exec_approx (hle : fuel ≤ fuel') (op : Op) :
    Approx .outOfFuel (op.exec d fuel) (op.exec d fuel') := by
  cases op with
  | addGmem key mem p n => exact addGmem_approx hle
  | removeGmem key mem h => exact removeGmem_approx hle
  | deleteRnode key => exact Approx.refl _
  | gmemUsed pe => exact (gmemUsed_approx hle).bind fun _ => Approx.refl _

/-- **What a completed call leaves behind does not depend on the fuel.** -/
theorem Step.unique {t t₁ t₂ : Tables} {op : Op} (h₁ : Step d t op t₁) (h₂ : Step d t op t₂) :
    t₁ = t₂ := by
  obtain ⟨fuel₁, tr₁, hr₁⟩ := h₁
  obtain ⟨fuel₂, tr₂, hr₂⟩ := h₂
  have hr₁' := (op.exec_approx (Nat.le_max_left fuel₁ fuel₂)).runs hr₁
  have hr₂' := (op.exec_approx (Nat.le_max_right fuel₁ fuel₂)).runs hr₂
  exact (hr₁'.unique hr₂').2.1

/-! ## Only fuel stops the sum -/

/-- The sum over one process dereferences no pointer that could be null. -/
theorem gmemUsedChain_faults {t : Tables} {i : Nat} {g : Int} {used : UInt64} {e : Fault}
    (hf : Faults (gmemUsedChain i fuel g used) t e) : e = .outOfFuel := by
  induction fuel generalizing g used with
  | zero => exact (faults_fail.mp hf).symm
  | succ fuel ih =>
      rw [gmemUsedChain] at hf
      split at hf
      · rw [(ptrGmem_returns g).faults_bind_iff, (ptrGmem_returns i).faults_bind_iff] at hf
        exact ih hf
      · exact absurd hf faults_pure

/-- Neither does `gmem_used`: it returns, or it goes on for ever. -/
theorem gmemUsed_faults {t : Tables} {e : Fault} (hf : Faults (gmemUsed d fuel processExist) t e) :
    e = .outOfFuel := by
  unfold gmemUsed at hf
  generalize List.range d.lenRnode = is, (0 : UInt64) = used at hf
  induction is generalizing used with
  | nil => exact absurd hf faults_pure
  | cons i is ih =>
      rw [gmemUsed.go, (returns_read _ t).faults_bind_iff] at hf
      split at hf
      · rcases faults_bind.mp hf with hchain | ⟨used', t', tr, hr, hrest⟩
        · exact gmemUsedChain_faults hchain
        · obtain ⟨rfl, _⟩ := gmemUsedChain_runs hr
          exact ih _ hrest
      · exact ih _ hf

end Vcuda.RNM
