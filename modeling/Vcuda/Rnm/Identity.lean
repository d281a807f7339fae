import Vcuda.Rnm.Invariants

/-!
# One slot per process

`find_rnode` before `insert_rnode` is all that keeps a process from getting a second slot. Along a
history of `add_gmem` and `remove_gmem` calls the process table stays a sound open-addressed table
(`Step.keyed`), so the lookup of a key finds the one slot under that key, and no later call moves
it: only a vacant slot is ever written with a new key.
-/

namespace Vcuda.RNM

open Traced Tables

variable {d : Dims} {t t' : Tables} {key : PidSt} {mem : HostMem} {p : Ptr} {n : UInt64}
  {op : Op} {s : Nat} {r : List (Op × Tables)}

/-- A completed `add_gmem` leaves its process in the process table. -/
theorem Step.exists_findRnode (hs : t.Sentinel) (hk : Keyed d t)
    (hstep : Step d t (.addGmem key mem p n) t') : ∃ s, findRnode d t' key = some s := by
  have hk' := hstep.keyed hs hk trivial
  obtain ⟨_, s, t₁, reg, hacq, hreg⟩ := step_addGmem hs hstep
  have hfull : slots d t' s = .full key := by
    rw [hreg.slots]
    exact hacq.full
  exact ⟨s, hk'.findRnode_eq_some_iff.mpr (slots_eq_full.mp hfull)⟩

/-- A process that has a slot keeps it, whatever it or another process does. -/
theorem Step.findRnode_eq_some (hs : t.Sentinel) (hk : Keyed d t) (hop : op.IsBook)
    (hstep : Step d t op t') (hfind : findRnode d t key = some s) :
    findRnode d t' key = some s := by
  have hk' := hstep.keyed hs hk hop.isAccounting
  have hfull : slots d t s = .full key := slots_eq_full.mpr (hk.findRnode_eq_some_iff.mp hfind)
  have hfull' : slots d t' s = .full key := by
    cases op with
    | addGmem key' mem p n =>
        obtain ⟨_, s', t₁, reg, hacq, hreg⟩ := step_addGmem hs hstep
        rw [hreg.slots]
        exact hacq.slots_of_full hfull
    | removeGmem key' mem h =>
        rw [step_removeGmem_slots hs hstep]
        exact hfull
    | deleteRnode key' => exact absurd hop id
    | gmemUsed pe => exact absurd hop id
  exact hk'.findRnode_eq_some_iff.mpr (slots_eq_full.mp hfull')

/-- The sound tables whose process `key` sits in slot `s`. -/
def Settled (d : Dims) (key : PidSt) (s : Nat) (t : Tables) : Prop :=
  t.Sentinel ∧ Keyed d t ∧ findRnode d t key = some s

/-- **One slot per process, for ever.** In every state of a history no two slots carry the same
key, and after the first `add_gmem` of a process `find_rnode` returns one and the same slot for it
in all states that follow. -/
theorem one_slot_per_process (hf : Fresh d t) (hs : t.Sentinel) (hr : Along (Step d) t r)
    (hops : ∀ x ∈ r, x.1.IsBook) :
    (∀ t' ∈ states t r, ∀ s s', Exists d t' s → Exists d t' s' → t'.keyOf s = t'.keyOf s' →
      s = s') ∧
    ∀ r₁ key mem p n t₁ r₂, r = r₁ ++ (.addGmem key mem p n, t₁) :: r₂ →
      ∃ s, ∀ t' ∈ states t₁ r₂, findRnode d t' key = some s := by
  have hbook : Along (fun t op t' => Step d t op t' ∧ op.IsBook) t r := hr.and_label hops
  have hI : t.Sentinel ∧ Keyed d t := ⟨hs, keyed_of_fresh hf⟩
  have hstep : ∀ t op t', t.Sentinel ∧ Keyed d t → Step d t op t' ∧ op.IsBook →
      t'.Sentinel ∧ Keyed d t' := by
    intro t op t' ht hstep
    exact ⟨hstep.1.sentinel ht.1, hstep.1.keyed ht.1 ht.2 hstep.2.isAccounting⟩
  constructor
  · intro t' ht' s s' hex hex' hkey
    have hk :=
      (Along.invariant_states (I := fun t => t.Sentinel ∧ Keyed d t) hI hbook hstep t' ht').2
    exact hk.unique s s' _ (slots_eq_full.mpr ⟨hex, hkey⟩) (slots_eq_full.mpr ⟨hex', rfl⟩)
  · intro r₁ key mem p n t₁ r₂ hsplit
    subst hsplit
    obtain ⟨hbook₁, hadd, hbook₂⟩ := Along.append_iff.mp hbook
    -- the states before the call are sound, the call finds or makes a slot, and it stays
    obtain ⟨hs₀, hk₀⟩ := Along.invariant_states (I := fun t => t.Sentinel ∧ Keyed d t) hI hbook₁
      hstep _ (final_mem_states t r₁)
    obtain ⟨s, hfind⟩ := hadd.1.exists_findRnode hs₀ hk₀
    have hk₁ := hadd.1.keyed hs₀ hk₀ hadd.2.isAccounting
    have hsettled : Settled d key s t₁ := ⟨hadd.1.sentinel hs₀, hk₁, hfind⟩
    refine ⟨s, ?_⟩
    intro t' ht'
    have hall := Along.invariant_states (I := Settled d key s) hsettled hbook₂ ?_ t' ht'
    · exact hall.2.2
    · intro t op t' ht hstep
      obtain ⟨hs, hk, hfind⟩ := ht
      exact ⟨hstep.1.sentinel hs, hstep.1.keyed hs hk hstep.2.isAccounting,
        hstep.1.findRnode_eq_some hs hk hstep.2 hfind⟩

/-- Two processes whose keys collide allocate, one of them releases and allocates again. -/
def collidingCalls : List Op :=
  [.addGmem (1, 0) ownAddress 16 100, .addGmem (3, 0) ownAddress 24 200,
   .removeGmem (1, 0) ownAddress 16, .addGmem (1, 0) ownAddress 32 50]

theorem one_slot_per_process_collidingCalls :
    ∃ s, ∀ t' ∈ states (Op.exec smallDims 3 (.addGmem (1, 0) ownAddress 16 100) initialTables).state
        (replay smallDims 3
          (Op.exec smallDims 3 (.addGmem (1, 0) ownAddress 16 100) initialTables).state
          collidingCalls.tail), findRnode smallDims t' (1, 0) = some s := by
  have hr : Along (Step smallDims) initialTables
      (replay smallDims 3 initialTables collidingCalls) := along_replay (by decide)
  have hops : ∀ x ∈ replay smallDims 3 initialTables collidingCalls, x.1.IsBook := by
    exact forall_label_trajectory.mpr (by simp [collidingCalls, Op.IsBook])
  exact (one_slot_per_process (fresh_initialTables _) sentinel_initialTables hr hops).2
    [] _ _ _ _ _ _ rfl

end Vcuda.RNM
