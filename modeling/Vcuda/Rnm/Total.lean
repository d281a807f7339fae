import Vcuda.Rnm.Chained
import Vcuda.Rnm.Fuel
import Mathlib.Algebra.BigOperators.Group.Finset.Basic

/-!
# What `gmem_used` adds up

The inner loop steps to the successor of the record at the *slot's* index, `ptr_gmem[i].next`. For a
process with records it adds the bytes of the first one and then looks at that successor: it stops
there, or it never stops. So the sum is over the first records only (`gmemUsed_returns_iff`).
-/

namespace Vcuda.RNM

open Traced Tables

/-- `gmem_used` sums over the list of the process in slot `s`. -/
def Summed (t : Tables) (processExist : RNode → Bool) (s : Nat) : Prop :=
  (t.rnode s).stat = .EXIST ∧ processExist (t.rnode s) = true

/-- The inner loop of `gmem_used` for the slot `s` never ends: it steps to the successor of the
record at the *slot's* index again and again. -/
def SumLoops (t : Tables) (s : Nat) : Prop := t.entry s > -1 ∧ t.next s > -1

instance {t : Tables} {pe : RNode → Bool} : DecidablePred (Summed t pe) := fun _ =>
  inferInstanceAs (Decidable (_ ∧ _))

/-- The bytes of the record that the loop starts at. -/
def startBytes (t : Tables) (gi : Int) : UInt64 := if gi > -1 then (t.gmem gi).bytes else 0

/-- What the slot `s` adds. -/
def slotBytes (t : Tables) (pe : RNode → Bool) (s : Nat) : Nat :=
  if Summed t pe s then (startBytes t (t.entry s)).toNat else 0

/-- What all slots add. -/
def headTotal (d : Dims) (t : Tables) (pe : RNode → Bool) : Nat :=
  ∑ s ∈ Finset.range d.lenRnode, slotBytes t pe s

variable {d : Dims} {t t' : Tables} {pe : RNode → Bool} {s fuel : Nat} {g : Int} {r used : UInt64}
  {tr : List Event}

/-- A sum that completes does not loop. -/
theorem not_loops_of_gmemUsedChain {used r : UInt64}
    (hr : Runs (gmemUsedChain s fuel g used) t r t' tr) : ¬ (g > -1 ∧ t.next s > -1) := by
  induction fuel generalizing g used tr with
  | zero => exact absurd hr runs_fail
  | succ fuel ih =>
      rw [gmemUsedChain] at hr
      rintro ⟨hg, hnext⟩
      rw [if_pos hg] at hr
      obtain ⟨_, _, _, _, hread, hrest, _⟩ := runs_bind.mp hr
      obtain ⟨rfl, rfl, _⟩ := ptrGmem_runs.mp hread
      obtain ⟨_, _, _, _, hread', hrec, _⟩ := runs_bind.mp hrest
      obtain ⟨rfl, rfl, _⟩ := ptrGmem_runs.mp hread'
      exact ih hrec ⟨hnext, hnext⟩

theorem gmemUsedChain_returns (hloop : ¬ (g > -1 ∧ t.next s > -1)) :
    Returns (gmemUsedChain s (fuel + 2) g used) t (used + startBytes t g) t := by
  unfold startBytes
  by_cases hg : g > -1
  · have hnext : ¬ t.next s > -1 := fun hnext => hloop ⟨hg, hnext⟩
    -- one round, and the step leads to an index that ends the loop
    rw [gmemUsedChain, if_pos hg, if_pos hg]
    refine (ptrGmem_returns g).bind ((ptrGmem_returns s).bind ?_)
    show Returns (gmemUsedChain s (fuel + 1) (t.next s) (used + (t.gmem g).bytes)) t _ t
    rw [gmemUsedChain, if_neg hnext]
    exact returns_pure _ t
  · rw [gmemUsedChain, if_neg hg, if_neg hg, UInt64.add_zero]
    exact returns_pure used t

/-- Two units of fuel are enough for every sum that ends. -/
theorem gmemUsedChain_returns_iff : Returns (gmemUsedChain s (fuel + 2) g used) t r t' ↔
    t' = t ∧ ¬ (g > -1 ∧ t.next s > -1) ∧ r = used + startBytes t g := by
  constructor
  · intro hr
    have hloop := not_loops_of_gmemUsedChain hr.choose_spec
    obtain ⟨hval, hstate⟩ := hr.unique (gmemUsedChain_returns hloop)
    exact ⟨hstate, hloop, hval⟩
  · rintro ⟨rfl, hloop, rfl⟩
    exact gmemUsedChain_returns hloop

theorem gmemUsed_go_returns_iff {is : List Nat} :
    Returns (gmemUsed.go (fuel + 2) pe is used) t r t' ↔
      t' = t ∧ (∀ s ∈ is, Summed t pe s → ¬ SumLoops t s) ∧
        r = used + UInt64.ofNat (is.map (slotBytes t pe)).sum := by
  induction is generalizing used with
  | nil =>
      rw [gmemUsed.go, returns_pure_iff]
      simp
  | cons i is ih =>
      rw [gmemUsed.go, (returns_read _ t).bind_iff, List.forall_mem_cons, List.map_cons,
        List.sum_cons, UInt64.ofNat_add, ← UInt64.add_assoc]
      -- either the slot adds its chain, or the loop passes it over
      by_cases hsum : Summed t pe i
      · have hcond : (t.rnode i).stat = .EXIST ∧ pe (t.rnode i) = true := hsum
        rw [if_pos hcond, slotBytes, if_pos hsum, UInt64.ofNat_toNat]
        by_cases hloop : SumLoops t i
        · -- the loop of this slot never ends
          refine iff_of_false ?_ fun h => h.2.1.1 hsum hloop
          intro hr
          obtain ⟨_, _, hchain, _⟩ := returns_bind.mp hr
          exact (gmemUsedChain_returns_iff.mp hchain).2.1 hloop
        · have hchain : Returns (gmemUsedChain i (fuel + 2) (t.entry i) used) t _ t :=
            gmemUsedChain_returns hloop
          show Returns (gmemUsedChain i (fuel + 2) (t.entry i) used >>= _) t r t' ↔ _
          rw [hchain.bind_iff, ih]
          simp [hsum, hloop]
      · have hcond : ¬ ((t.rnode i).stat = .EXIST ∧ pe (t.rnode i) = true) := hsum
        rw [if_neg hcond, ih, slotBytes, if_neg hsum]
        simp [hsum]

/-- **What `gmem_used` returns**: the bytes of the first records, in 64 bits, unless the sum of some
process never ends. -/
theorem gmemUsed_returns_iff : (∃ fuel, Returns (gmemUsed d fuel pe) t r t) ↔
    (∀ s, s < d.lenRnode → Summed t pe s → ¬ SumLoops t s) ∧
      r = UInt64.ofNat (headTotal d t pe) := by
  have hbody : ∀ fuel, Returns (gmemUsed d (fuel + 2) pe) t r t ↔
      (∀ s, s < d.lenRnode → Summed t pe s → ¬ SumLoops t s) ∧
        r = UInt64.ofNat (headTotal d t pe) := by
    intro fuel
    show Returns (gmemUsed.go (fuel + 2) pe (List.range d.lenRnode) 0) t r t ↔ _
    rw [gmemUsed_go_returns_iff, UInt64.zero_add]
    simp only [List.mem_range, true_and]
    rfl
  constructor
  · intro ⟨fuel, hr⟩
    exact (hbody fuel).mp ((gmemUsed_approx (Nat.le_add_right fuel 2)).returns hr)
  · intro h
    exact ⟨2, (hbody 0).mpr h⟩

theorem slotBytes_congr (hrn : t'.rnode s = t.rnode s)
    (hbytes : Summed t pe s → (t'.gmem (t.entry s)).bytes = (t.gmem (t.entry s)).bytes) :
    slotBytes t' pe s = slotBytes t pe s := by
  have hsum : Summed t' pe s ↔ Summed t pe s := by
    unfold Summed
    rw [hrn]
  unfold slotBytes startBytes
  rw [entry_of_rnode hrn]
  by_cases h : Summed t pe s
  · rw [if_pos h, if_pos (hsum.mpr h), hbytes h]
  · rw [if_neg h, if_neg fun h' => h (hsum.mp h')]

/-- The total changes with the slots it is made of. -/
theorem headTotal_congr (h : ∀ s, s < d.lenRnode → slotBytes t' pe s = slotBytes t pe s) :
    headTotal d t' pe = headTotal d t pe :=
  Finset.sum_congr rfl fun s hs => h s (Finset.mem_range.mp hs)

/-- Sums that differ in one place. -/
theorem sum_exchange {ι M : Type} [DecidableEq ι] [AddCommMonoid M] {S : Finset ι} {i : ι}
    {f f' : ι → M} (hi : i ∈ S) (h : ∀ k ∈ S, k ≠ i → f' k = f k) :
    ∑ k ∈ S, f' k + f i = ∑ k ∈ S, f k + f' i := by
  have hrest : ∑ k ∈ S.erase i, f' k = ∑ k ∈ S.erase i, f k := by
    apply Finset.sum_congr rfl
    intro k hk
    obtain ⟨hne, hk⟩ := Finset.mem_erase.mp hk
    exact h k hk hne
  rw [← Finset.add_sum_erase S f' hi, ← Finset.add_sum_erase S f hi, hrest]
  ac_rfl

/-- A slot that added nothing before. -/
theorem headTotal_add (hs : s < d.lenRnode) (hzero : slotBytes t pe s = 0)
    (h : ∀ s', s' < d.lenRnode → s' ≠ s → slotBytes t' pe s' = slotBytes t pe s') :
    headTotal d t' pe = headTotal d t pe + slotBytes t' pe s := by
  have hsum := sum_exchange (Finset.mem_range.mpr hs) fun s' hs' => h s' (Finset.mem_range.mp hs')
  rw [hzero, Nat.add_zero] at hsum
  exact hsum

/-! ## Against the sum over the lists -/

/-- Following `next` from a process visits the records `c s` of the table and ends at `-1`; no
record is visited from two processes. (`gmem_used` does not ask whether a record is in use.) -/
structure Listed (d : Dims) (t : Tables) (c : Nat → List Int) : Prop where
  walk : ∀ s, Exists d t s → Walk t.next (InRange d) (t.entry s) (c s) (-1)
  disjoint : ∀ s s', Exists d t s → Exists d t s' → s ≠ s' → (c s).Disjoint (c s')

/-- The bytes of the records. -/
def listBytes (t : Tables) (l : List Int) : Nat := (l.map fun g => (t.gmem g).bytes.toNat).sum

/-- The bytes of all records of the processes that are summed over. -/
def listTotal (d : Dims) (t : Tables) (pe : RNode → Bool) (c : Nat → List Int) : Nat :=
  ∑ s ∈ Finset.range d.lenRnode, if Summed t pe s then listBytes t (c s) else 0

/-- Those of the records behind the first ones. -/
def restTotal (d : Dims) (t : Tables) (pe : RNode → Bool) (c : Nat → List Int) : Nat :=
  ∑ s ∈ Finset.range d.lenRnode, if Summed t pe s then listBytes t (c s).tail else 0

variable {c : Nat → List Int}

theorem Listed.startBytes_add (hc : Listed d t c) (hex : Exists d t s) :
    listBytes t (c s) = (startBytes t (t.entry s)).toNat + listBytes t (c s).tail := by
  have hwalk := hc.walk s hex
  unfold startBytes
  cases hl : c s with
  | nil =>
      rw [hl] at hwalk
      have hentry : t.entry s = -1 := hwalk
      rw [hentry]
      simp [listBytes]
  | cons g l =>
      rw [hl] at hwalk
      obtain ⟨hentry, hg, _⟩ := hwalk
      have hpos : g > -1 := by
        have := hg.1
        omega
      rw [hentry, if_pos hpos]
      simp [listBytes]

/-- `gmem_used` misses what is behind the first records. -/
theorem Listed.listTotal_eq (hc : Listed d t c) :
    listTotal d t pe c = headTotal d t pe + restTotal d t pe c := by
  unfold listTotal headTotal restTotal
  rw [← Finset.sum_add_distrib]
  apply Finset.sum_congr rfl
  intro s hs
  unfold slotBytes
  by_cases hsum : Summed t pe s
  · rw [if_pos hsum, if_pos hsum, if_pos hsum]
    exact hc.startBytes_add ⟨Finset.mem_range.mp hs, hsum.1⟩
  · rw [if_neg hsum, if_neg hsum, if_neg hsum]

theorem ofNat_add_eq_left {a b : Nat} : UInt64.ofNat (a + b) = UInt64.ofNat a ↔ b % 2 ^ 64 = 0 := by
  rw [← UInt64.toNat_inj, UInt64.toNat_ofNat', UInt64.toNat_ofNat']
  omega

/-- **When `gmem_used` is the sum over the lists**: the loop ends for every process, and the records
behind the first ones add nothing, in 64 bits. -/
theorem gmemUsed_sums_iff (hc : Listed d t c) :
    (∃ fuel, Returns (gmemUsed d fuel pe) t (UInt64.ofNat (listTotal d t pe c)) t) ↔
      (∀ s, s < d.lenRnode → Summed t pe s → ¬ SumLoops t s) ∧
        restTotal d t pe c % 2 ^ 64 = 0 := by
  rw [gmemUsed_returns_iff, hc.listTotal_eq, ofNat_add_eq_left]

instance {t : Tables} : DecidablePred (SumLoops t) := fun _ =>
  inferInstanceAs (Decidable (_ ∧ _))

/-- Both processes have one record left; the third record still has the bytes it was released
with. -/
theorem listed_handedOn : Listed smallDims (handedOn 4) fun s => [(s : Int)] := by
  constructor
  · intro s hs
    rcases slot_smallDims hs with rfl | rfl
    · have hend : (handedOn 4).next 0 = -1 := by decide
      exact ⟨by decide, by decide, hend⟩
    · have hend : (handedOn 4).next 1 = -1 := by decide
      exact ⟨by decide, by decide, hend⟩
  · intro s s' _ _ hne
    rw [List.disjoint_singleton, List.mem_singleton]
    omega

theorem not_sumLoops_handedOn {s : Nat} (hs : s < smallDims.lenRnode) :
    ¬ SumLoops (handedOn 4) s := by
  have hs : s < 2 := hs
  interval_cases s
  · decide
  · decide

theorem gmemUsed_sums_handedOn :
    ∃ fuel, Returns (gmemUsed smallDims fuel fun _ => true) (handedOn 4)
      (UInt64.ofNat (listTotal smallDims (handedOn 4) (fun _ => true) fun s => [(s : Int)]))
      (handedOn 4) := by
  exact (gmemUsed_sums_iff listed_handedOn).mpr
    ⟨fun s hs _ => not_sumLoops_handedOn hs, by decide⟩

theorem listed_twoRecords : Listed smallDims twoRecords fun _ => [0, 1] := by
  constructor
  · intro s hs
    obtain rfl := exists_twoRecords.mp hs
    have hend : twoRecords.next 1 = -1 := by decide
    exact ⟨by decide, by decide, by decide, by decide, hend⟩
  · exact chained_twoRecords.disjoint

/-- **The sum over two records of one process does not end.** -/
theorem not_gmemUsed_sums :
    ¬ ∀ (d : Dims) (t : Tables) (c : Nat → List Int) (pe : RNode → Bool),
      d.lenRnode ≤ d.lenGmem → Listed d t c →
      ∃ fuel, Returns (gmemUsed d fuel pe) t (UInt64.ofNat (listTotal d t pe c)) t := by
  intro hall
  have hsum := hall smallDims twoRecords _ (fun _ => true) (by decide) listed_twoRecords
  have hloops : SumLoops twoRecords 0 := by decide
  exact (gmemUsed_returns_iff.mp hsum).1 0 (by decide) (by decide) hloops

end Vcuda.RNM
