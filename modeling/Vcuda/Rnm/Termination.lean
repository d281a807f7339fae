import Vcuda.Rnm.Reach
import Vcuda.Rnm.RecordLists

/-!
# When the chain walks end

`find_gmem`, `last_rec` and `remove_gmem_by_dptr` each stop on a test of their own, so a state from
which every further call finishes is described by the lists alone (`ListsEnd.allFinish`,
`AllFinish.listsEnd`): the list of every process ends at `-1` (`Ended`), or it starts at an empty
record that is the one the next `push_gmem` takes (`Parked`). The second is what releasing the first
record leaves behind, and it is fragile: `Releasable` is what a release has to satisfy so that no
list, of no process, is left hanging. Whole histories are in `allFinish_iff_keepsEnds`.
-/

namespace Vcuda.RNM

open Traced Tables

variable {d : Dims} {t t' t₁ : Tables} {key : PidSt} {mem : HostMem} {h : Handle} {p : Ptr}
  {n : UInt64} {op : Op} {s s' : Nat} {g i j x : Int} {l : List Int} {fuel : Nat} {tr : List Event}

/-- Some amount of fuel is enough for the walks of the call: it returns, or crashes. -/
def Finishes (d : Dims) (t : Tables) (op : Op) : Prop :=
  ∃ fuel, ¬ Faults (op.exec d fuel) t .outOfFuel

/-- Every further `add_gmem` or `remove_gmem` finishes. -/
def AllFinish (d : Dims) (t : Tables) : Prop := ∀ op : Op, op.IsBook → Finishes d t op

/-! ## Lists that end -/

/-- The list of the process in slot `s` ends at `-1`. -/
def Ended (t : Tables) (s : Nat) : Prop := ∃ l, t.Chain (t.entry s) l (-1)

/-- The process in slot `s` points at the lowest empty record. -/
def Parked (d : Dims) (t : Tables) (s : Nat) : Prop :=
  ∃ j : Nat, firstEmpty d t = some j ∧ t.entry s = j

/-- Every process has a list that ends, or points at the lowest empty record. -/
def ListsEnd (d : Dims) (t : Tables) : Prop := ∀ s, Exists d t s → Ended t s ∨ Parked d t s

theorem Parked.not_live (hp : Parked d t s) : ¬ t.Live (t.entry s) := by
  obtain ⟨j, hj, he⟩ := hp
  rw [he]
  exact (firstEmpty_eq_some.mp hj).2.1

/-- A list with a record to find is not parked, so it ends. -/
theorem ListsEnd.ended_of_walk {P : Int → Prop} (hl : ListsEnd d t) (hex : Exists d t s)
    (hwalk : Walk t.next P (t.entry s) l x) (hP : ∀ i, P i → t.Live i) (hx : t.Live x) :
    Ended t s := by
  apply (hl s hex).resolve_right
  intro hpark
  have hc : t.Chain (t.entry s) l x := Walk.mono hwalk fun b _ hb => hP b hb
  exact hpark.not_live (hc.live_start hx)

/-! ## They suffice -/

theorem removeGmem_finishes (hs : t.Sentinel) (hl : ListsEnd d t) :
    Finishes d t (.removeGmem key mem h) := by
  cases hfind : findRnode d t key with
  | none =>
      have hr : Returns (removeGmem d 0 key mem h) t () t := removeGmem_of_findRnode_none hfind
      exact ⟨0, hr.not_faults⟩
  | some s =>
      rcases hl s (findRnode_eq_some hfind).1 with ⟨l, hc⟩ | hpark
      · obtain ⟨l₁, x, _, hwalk, hhit | hempty⟩ := exists_search hs hc mem h
        · exact ⟨_, (removeGmem_of_hit hs hfind hwalk hhit).not_faults⟩
        · exact ⟨_, (removeGmem_of_miss hfind hwalk hempty).not_faults⟩
      · have hstart : Walk t.next (t.Miss mem h) (t.entry s) [] (t.entry s) := rfl
        exact ⟨_, (removeGmem_of_miss hfind hstart hpark.not_live).not_faults⟩

/-- On a list that ends, or at the lowest empty record, the record part of `add_gmem` returns. -/
theorem registerGmem_returns (hs : t.Sentinel) (hp : p ≠ 0) (hl : Ended t s ∨ Parked d t s) :
    ∃ fuel t', Returns (registerGmem d fuel mem (some s) p n) t () t' := by
  rcases hl with ⟨l, hc⟩ | ⟨j, hj, he⟩
  · obtain ⟨l₁, x, hle, hwalk, hstop⟩ := exists_search hs hc mem (mem p)
    have hlen : l₁.length < l.length + 2 := by omega
    rcases hstop with hhit | hempty
    · have hfind := findGmem_of_walk hwalk hhit.not_miss hlen
      have hx1 := ne_sentinel_of_live hs hhit.1
      have hs₂ : (t.modifyGmem x (·.setRes p n)).Sentinel := hs.modifyGmem hx1
      have hc₂ : (t.modifyGmem x (·.setRes p n)).Chain (t.entry s) l (-1) := Chain.setRes hc hp
      have hlen₂ : l.length < l.length + 2 := by omega
      obtain ⟨t', hlink⟩ := linkRnodeGmem_of_chain (g := x) hs₂ hc₂ hlen₂
      rw [if_pos hhit.1] at hfind
      exact ⟨_, t', registerGmem_of_found hp hfind hx1 hlink⟩
    · have hfind := findGmem_of_walk hwalk (not_miss_of_not_live hempty) hlen
      rw [if_neg hempty] at hfind
      cases hj : firstEmpty d t with
      | none =>
          have hlen₂ : l.length < l.length + 2 := by omega
          obtain ⟨t', hlink⟩ := linkRnodeGmem_of_chain (g := -1) hs hc hlen₂
          exact ⟨_, t', registerGmem_of_full hp hfind hj hlink⟩
      | some j =>
          have hjl : (j : Int) ∉ l :=
            fun hmem => (firstEmpty_eq_some.mp hj).2.1 (hc.live_of_mem _ hmem)
          have hs₂ : (putNew t j p n).Sentinel := hs.modifyGmem (by omega)
          have hc₂ : (putNew t j p n).Chain (t.entry s) l (-1) := Chain.modifyGmem hc hjl
          have hlen₂ : l.length < l.length + 2 := by omega
          obtain ⟨t', hlink⟩ := linkRnodeGmem_of_chain (g := j) hs₂ hc₂ hlen₂
          exact ⟨_, t', registerGmem_of_pushed hp hfind hj hlink⟩
  · -- the search ends at once, and the record pushed is the one the process points at
    have hempty : ¬ t.Live (t.entry s) := by
      rw [he]
      exact (firstEmpty_eq_some.mp hj).2.1
    have hstart : Walk t.next (t.Miss mem (mem p)) (t.entry s) [] (t.entry s) := rfl
    have hfind : Returns (findGmem 1 mem s (mem p)) t _ t :=
      findGmem_of_walk hstart (not_miss_of_not_live hempty) (by simp)
    rw [if_neg hempty] at hfind
    have he₂ : (putNew t j p n).entry s = j := he
    have htail : (putNew t j p n).Tail ((putNew t j p n).entry s) := by
      rw [he₂]
      exact tail_putNew hp
    have hne : (putNew t j p n).entry s ≠ -1 := by
      rw [he₂]
      omega
    have hlink : Returns (linkRnodeGmem 1 s j) (putNew t j p n) () _ :=
      linkRnodeGmem_of_walk (l := []) hne rfl htail (by simp)
    exact ⟨1, _, registerGmem_of_pushed hp hfind hj hlink⟩

/-- A process that acquires a slot has an empty list there. -/
theorem ListsEnd.acquire (hl : ListsEnd d t) (hacq : Acquires d t key s t₁) : ListsEnd d t₁ := by
  rcases hacq with ⟨_, rfl⟩ | ⟨hfind, hpos, rfl⟩
  · exact hl
  · intro s' hs'
    by_cases hne : s' = s
    · subst hne
      left
      refine ⟨[], ?_⟩
      simp [Tables.entry]
    · have hs' := hl s' ((exists_putRnode_ne hne).mp hs')
      unfold Ended Parked at *
      rw [putRnode_entry_ne hne]
      exact hs'

theorem addGmem_finishes (hs : t.Sentinel) (hl : ListsEnd d t) :
    Finishes d t (.addGmem key mem p n) := by
  by_cases hp : p = 0
  · subst hp
    refine ⟨0, ?_⟩
    intro hf
    cases hf.unique addGmem_faults_of_null
  · rcases acquires_or_full d t key with ⟨s, t₁, hacq⟩ | ⟨hfind, hpos⟩
    · have hs₁ : t₁.Sentinel := hs.congr (by rw [hacq.gmem])
      have hret : ∃ fuel t', Returns (registerGmem d fuel mem (some s) p n) t₁ () t' :=
        registerGmem_returns hs₁ hp (hl.acquire hacq s hacq.exists_self)
      obtain ⟨fuel, t', hr⟩ := hret
      exact ⟨fuel, (addGmem_of_registerGmem hacq hr).not_faults⟩
    · refine ⟨0, ?_⟩
      intro hf
      cases hf.unique (addGmem_faults_of_full hp hfind hpos)

theorem ListsEnd.allFinish (hs : t.Sentinel) (hl : ListsEnd d t) : AllFinish d t := by
  intro op hop
  cases op with
  | addGmem key mem p n => exact addGmem_finishes hs hl
  | removeGmem key mem h => exact removeGmem_finishes hs hl
  | deleteRnode key => exact absurd hop id
  | gmemUsed pe => exact absurd hop id

/-! ## They are necessary -/

/-- A walk of `last_rec` that ends at all ends at a tail. -/
theorem lastRec_stops (hf : ¬ Faults (lastRec fuel g) t .outOfFuel) :
    ∃ l r, Walk t.next t.NotTail g l r ∧ t.Tail r := by
  induction fuel generalizing g with
  | zero => exact absurd (faults_fail.mpr rfl) hf
  | succ fuel ih =>
      by_cases htail : t.Tail g
      · exact ⟨[], g, rfl, htail⟩
      · have hrest : ¬ Faults (lastRec fuel (t.next g)) t .outOfFuel := by
          intro hrec
          apply hf
          refine (ptrGmem_returns g).faults_bind ?_
          rw [if_neg fun ht => htail (GMem.isTail_iff.mp ht)]
          exact hrec
        obtain ⟨l, r, hwalk, hr⟩ := ih hrest
        exact ⟨g :: l, r, ⟨rfl, htail, hwalk⟩, hr⟩

/-- A walk of `remove_gmem_by_dptr` that ends at all meets a hit or an empty record. -/
theorem removeGmemByDptr_stops {prev : Int}
    (hf : ¬ Faults (removeGmemByDptr mem h fuel prev g) t .outOfFuel) :
    ∃ l x, Walk t.next (t.Miss mem h) g l x ∧ ¬ t.Miss mem h x := by
  induction fuel generalizing g prev with
  | zero => exact absurd (faults_fail.mpr rfl) hf
  | succ fuel ih =>
      by_cases hmiss : t.Miss mem h g
      · have hrest : ¬ Faults (removeGmemByDptr mem h fuel g (t.next g)) t .outOfFuel := by
          intro hrec
          apply hf
          have hkeep : Returns (releaseGmem (mem (t.gmem g).ptr) h prev g) t () t := by
            rw [releaseGmem, if_neg hmiss.2]
            exact returns_pure () t
          refine (ptrGmem_returns g).faults_bind ?_
          rw [if_neg hmiss.1.not_empty]
          refine (deref_returns hmiss.1).faults_bind (hkeep.faults_bind ?_)
          exact (ptrGmem_returns g).faults_bind hrec
        obtain ⟨l, x, hwalk, hx⟩ := ih hrest
        exact ⟨g :: l, x, ⟨rfl, hmiss, hwalk⟩, hx⟩
      · exact ⟨[], g, rfl, hmiss⟩

/-- An `add_gmem` that runs into an empty record in `link_rnode_gmem` does not finish. -/
theorem lastRec_faults (hs : t.Sentinel) (hwalk : Walk t.next t.NotTail g l x)
    (hx : ¬ t.Live x) (hnext : t.next x = -1) : Faults (lastRec fuel g) t .outOfFuel := by
  by_contra hf
  exact no_tail_past_empty hs hwalk hx hnext (lastRec_stops hf)

theorem addGmem_not_finishes_of_found (hs : t.Sentinel) (hfind : findRnode d t key = some s)
    (hp : p ≠ 0) (hhit : t.Hit mem (mem p) (t.entry s)) (hc : t.Chain (t.entry s) l x)
    (hx : ¬ t.Live x) (hx1 : x ≠ -1) (hnext : t.next x = -1) :
    ¬ Finishes d t (.addGmem key mem p n) := by
  rintro ⟨fuel, hf⟩
  apply hf
  apply addGmem_faults_of_registerGmem (Or.inl ⟨hfind, rfl⟩)
  cases fuel with
  | zero =>
      apply registerGmem_faults_of_findGmem hp
      exact (returns_read _ t).faults_bind (faults_fail.mpr rfl)
  | succ fuel =>
      have hstart : Walk t.next (t.Miss mem (mem p)) (t.entry s) [] (t.entry s) := rfl
      have hfound : Returns (findGmem (fuel + 1) mem s (mem p)) t _ t :=
        findGmem_of_walk hstart hhit.not_miss (by simp)
      rw [if_pos hhit.1] at hfound
      have hentry := ne_sentinel_of_live hs hhit.1
      apply registerGmem_faults_of_found hp hfound hentry
      -- the record rewritten is not the empty one the list runs into
      have hxe : x ≠ t.entry s := fun he => hx (he ▸ hhit.1)
      have hc₂ : (t.modifyGmem (t.entry s) (·.setRes p n)).Chain (t.entry s) l x :=
        Chain.setRes hc hp
      have hs₂ : (t.modifyGmem (t.entry s) (·.setRes p n)).Sentinel := hs.modifyGmem hentry
      have hentry₂ : (t.modifyGmem (t.entry s) (·.setRes p n)).entry s ≠ -1 := hentry
      apply linkRnodeGmem_faults hentry₂
      apply lastRec_faults hs₂ (notTail_of_chain hs₂ hc₂ hx1)
      · rw [modifyGmem_live_ne hxe]
        exact hx
      · rw [modifyGmem_next_ne hxe]
        exact hnext

theorem addGmem_not_finishes_of_pushed {j : Nat} (hs : t.Sentinel)
    (hfind : findRnode d t key = some s) (hp : p ≠ 0) (hx : ¬ t.Live (t.entry s))
    (hx1 : t.entry s ≠ -1) (hnext : t.next (t.entry s) = -1) (hj : firstEmpty d t = some j)
    (hne : t.entry s ≠ j) : ¬ Finishes d t (.addGmem key mem p n) := by
  rintro ⟨fuel, hf⟩
  apply hf
  apply addGmem_faults_of_registerGmem (Or.inl ⟨hfind, rfl⟩)
  cases fuel with
  | zero =>
      apply registerGmem_faults_of_findGmem hp
      exact (returns_read _ t).faults_bind (faults_fail.mpr rfl)
  | succ fuel =>
      have hstart : Walk t.next (t.Miss mem (mem p)) (t.entry s) [] (t.entry s) := rfl
      have hfound : Returns (findGmem (fuel + 1) mem s (mem p)) t _ t :=
        findGmem_of_walk hstart (not_miss_of_not_live hx) (by simp)
      rw [if_neg hx] at hfound
      apply registerGmem_faults_of_pushed hp hfound hj
      have hs₂ : (putNew t j p n).Sentinel := hs.modifyGmem (by omega)
      have hentry₂ : (putNew t j p n).entry s ≠ -1 := hx1
      apply linkRnodeGmem_faults hentry₂
      apply lastRec_faults (l := []) hs₂ rfl
      · show ¬ (putNew t j p n).Live (t.entry s)
        rw [putNew, modifyGmem_live_ne hne]
        exact hx
      · show (putNew t j p n).next (t.entry s) = -1
        rw [putNew, modifyGmem_next_ne hne]
        exact hnext

/-- **Where every further call finishes, every list ends or starts at the lowest empty record.** A
`remove_gmem` that finds nothing follows the whole list; an `add_gmem` of a new handle has to get
past a start at an empty record, one of a handle in the first record past an end at one. -/
theorem AllFinish.listsEnd (hs : t.Sentinel) (hw : Wired d t) (hk : Keyed d t)
    (hall : AllFinish d t) : ListsEnd d t := by
  intro s hex
  have hfind : findRnode d t (t.keyOf s) = some s := hk.findRnode_eq_some_iff.mpr ⟨hex, rfl⟩
  obtain ⟨fuel, hf⟩ := hall (.removeGmem (t.keyOf s) (fun _ => 0) 1) trivial
  obtain ⟨l, x, hwalk, hx⟩ := removeGmemByDptr_stops fun hrec => hf (removeGmem_faults hfind hrec)
  have hempty : ¬ t.Live x := by
    rcases hit_or_not_live_of_not_miss hx with hhit | hempty
    · have habs : (0 : Handle) = 1 := hhit.2
      exact absurd habs (by decide)
    · exact hempty
  have hc : t.Chain (t.entry s) l x := Chain.of_miss hwalk
  by_cases hx1 : x = -1
  · subst hx1
    exact Or.inl ⟨l, hc⟩
  right
  have hxr : InRange d x := (hw.walk hs (hw.entry s hex) hwalk).resolve_left hx1
  have hnext := hw.empty x hxr hempty
  cases l with
  | nil =>
      obtain rfl : t.entry s = x := hwalk
      cases hj : firstEmpty d t with
      | none => exact absurd (firstEmpty_eq_none.mp hj _ hxr) hempty
      | some j =>
          refine ⟨j, hj, ?_⟩
          by_contra hne
          have hadd := hall (.addGmem (t.keyOf s) (fun _ => 0) 1 0) trivial
          exact addGmem_not_finishes_of_pushed hs hfind (by decide) hempty hx1 hnext hj hne hadd
  | cons a l =>
      obtain ⟨rfl, ha, _⟩ := hwalk
      have hhit : t.Hit (fun _ => 0) 0 (t.entry s) := ⟨ha.1, rfl⟩
      have hadd := hall (.addGmem (t.keyOf s) (fun _ => 0) 1 0) trivial
      exact absurd hadd
        (addGmem_not_finishes_of_found hs hfind (by decide) hhit hc hempty hx1 hnext)

/-! ## What keeps the lists ending -/

/-- The record `x`, which a search reached past the records `l`, can be released without leaving a
list hanging:

* where a process points at `x`, it will point at the lowest empty record,
* every list that gets to `x` otherwise gets there from the same record as the search, which is
  relinked,
* a process that points at an empty record points at one below `x`. -/
structure Releasable (d : Dims) (t : Tables) (l : List Int) (x : Int) : Prop where
  head : ∀ s, Exists d t s → t.entry s = x → ∀ i : Int, 0 ≤ i → i < x → t.Live i
  link : ∀ s l' b, Exists d t s → t.Chain (t.entry s) (l' ++ [b]) x → prevOf (-1) l = b
  parked : ∀ s, Exists d t s → ¬ t.Live (t.entry s) → t.entry s < x

/-- The call, made in the state `t`, keeps the lists ending. -/
def Op.KeepsEnds (d : Dims) (t : Tables) : Op → Prop
  | .addGmem key mem p _ => HitsLast d t key mem p
  | .removeGmem key mem h => ∀ s l x, findRnode d t key = some s →
      Walk t.next (t.Miss mem h) (t.entry s) l x → t.Hit mem h x → Releasable d t l x
  | .deleteRnode _ => True
  | .gmemUsed _ => True

/-! ### Adding -/

theorem Parked.congr (hlive : ∀ i, InRange d i → (t'.Live i ↔ t.Live i))
    (hentry : t'.entry s = t.entry s) : Parked d t' s ↔ Parked d t s := by
  unfold Parked
  rw [firstEmpty_congr hlive, hentry]

/-- After a new record, every list ends: the processes that pointed at an empty record point at the
new one. -/
theorem ListsEnd.push {j : Nat} (hs : t.Sentinel) (hl : ListsEnd d t) (hex : Exists d t s)
    (hp : p ≠ 0) (hj : firstEmpty d t = some j) (hlinks : Links (putNew t j p n) s j t') :
    ListsEnd d t' := by
  obtain ⟨_, hempty, _⟩ := firstEmpty_eq_some.mp hj
  have hj1 : (j : Int) ≠ -1 := by omega
  have hs₂ : (putNew t j p n).Sentinel := hs.modifyGmem hj1
  have hself : (putNew t j p n).Chain j [(j : Int)] (-1) := ⟨rfl, tail_putNew hp⟩
  -- before the link: lists that ended end, and parked processes have the new record
  have hended : ∀ s', Exists d t s' → Ended (putNew t j p n) s' := by
    intro s' hs'
    rcases hl s' hs' with ⟨l, hc⟩ | ⟨j', hj', he⟩
    · have hjl : (j : Int) ∉ l := fun hmem => hempty (hc.live_of_mem _ hmem)
      exact ⟨l, Chain.modifyGmem hc hjl⟩
    · rw [hj] at hj'
      obtain rfl := Option.some.inj hj'
      refine ⟨[(j : Int)], ?_⟩
      show (putNew t j p n).Chain (t.entry s') _ _
      rw [he]
      exact hself
  intro s' hs'
  have hs' := (exists_congr hlinks.slots).mp hs'
  left
  obtain ⟨l', hc'⟩ := hended s' hs'
  obtain ⟨l, hc⟩ := hended s hex
  rcases links_of_chain hs₂ hc hlinks with ⟨hnil, rfl⟩ | ⟨l₀, a, hla, ⟨_, rfl⟩ | ⟨hne, rfl⟩⟩
  · by_cases hne : s' = s
    · refine ⟨[(j : Int)], ?_⟩
      rw [hne, setEntry_entry_self]
      exact hself
    · refine ⟨l', ?_⟩
      rw [setEntry_entry_ne hne]
      exact hc'
  · exact ⟨l', hc'⟩
  · by_cases ha : a ∈ l'
    · -- this list had the same last record, and gets the new one too
      obtain ⟨m₁, m₂, rfl, hm₁, _⟩ := hc'.split_at_mem ha
      have halive := hc'.live_of_mem a ha
      have ham₁ : a ∉ m₁ := fun hmem =>
        List.disjoint_of_nodup_append (hc'.nodup hs₂.not_live) hmem (by simp)
      exact ⟨_, chain_setNext_tail hm₁ ham₁ halive (tail_putNew hp) (Ne.symm hne)⟩
    · exact ⟨l', Chain.modifyGmem hc' ha⟩

/-- Only the emptiness and the successors of the records, and the heads of the lists, matter. -/
theorem ListsEnd.congr (hl : ListsEnd d t) (hslots : slots d t' = slots d t)
    (hentry : ∀ s, t'.entry s = t.entry s) (hlive : ∀ i, t'.Live i ↔ t.Live i)
    (hnext : ∀ i, t'.next i = t.next i) : ListsEnd d t' := by
  intro s hs
  rcases hl s ((exists_congr hslots).mp hs) with ⟨l, hc⟩ | hpark
  · left
    refine ⟨l, ?_⟩
    rw [hentry]
    apply hc.congr
    intro b hb
    exact ⟨hnext b, (hlive b).mpr (hc.live_of_mem b hb)⟩
  · exact Or.inr ((Parked.congr (fun i _ => hlive i) (hentry s)).mpr hpark)

theorem step_addGmem_keepsEnds (hs : t.Sentinel) (hl : ListsEnd d t)
    (hstep : Step d t (.addGmem key mem p n) t') :
    ListsEnd d t' ↔ (Op.addGmem key mem p n).KeepsEnds d t := by
  obtain ⟨hp, s, t₁, reg, hacq, hr⟩ := step_addGmem hs hstep
  have hs₁ : t₁.Sentinel := hs.congr (by rw [hacq.gmem])
  have hl₁ := hl.acquire hacq
  have hex := hacq.exists_self
  refine Iff.trans ?_ (hitsLast_iff hs hacq).symm
  constructor
  · intro hl' l x hwalk hhit
    by_contra hne
    obtain ⟨l₀, hc⟩ := hl₁.ended_of_walk hex hwalk (fun _ hm => hm.1) hhit.1
    have hforever := not_chain_of_registers hs₁ hp hc hr hwalk hhit hne
    rcases hl' s (hr.exists_iff.mpr hex) with ⟨l', hc'⟩ | hpark
    · exact (hr.sentinel hs₁).not_live (hforever _ _ hc')
    · -- the walk of no steps from the head stops nowhere either
      exact hpark.not_live (hforever [] _ rfl)
  · intro hsafe
    obtain ⟨m, x, hwalk, ⟨_, j, hj, hlinks, _⟩ | ⟨_, hfull, hlinks, _⟩ | ⟨hhit, hlinks, _⟩⟩ := hr
    · exact hl₁.push hs₁ hex hp hj hlinks
    · rw [hlinks.eq_of_sentinel]
      exact hl₁
    · obtain ⟨l, hc⟩ := hl₁.ended_of_walk hex hwalk (fun _ hm => hm.1) hhit.1
      obtain ⟨l₂, rfl, hrest⟩ := chain_split_at_hit hs₁ hc hwalk hhit.1
      rw [hsafe m x hwalk hhit] at hrest
      obtain rfl := eq_nil_of_chain hs₁ hrest
      obtain rfl := links_last hs₁ hc hp hlinks
      refine hl₁.congr rfl (fun _ => rfl) ?_ ?_
      · intro i
        by_cases hi : i = x
        · subst hi
          rw [modifyGmem_live_self]
          exact iff_of_true hp hhit.1
        · exact modifyGmem_live_ne hi
      · intro i
        by_cases hi : i = x
        · subst hi
          exact modifyGmem_next_self _
        · exact modifyGmem_next_ne hi

/-! ### Removing -/

/-- A list that does not visit the record released stays as it is: it does not visit the record
before it either. -/
theorem chain_unlink_of_notMem {prev : Int} (hc : t.Chain g l j) (hx : x ∉ l)
    (hj : j ≠ x) (hprev : prev ≠ -1 → t.next prev = x) : (unlink t prev x).Chain g l j := by
  apply hc.congr
  intro b hb
  have hbx : b ≠ x := fun he => hx (he ▸ hb)
  refine ⟨?_, unlink_live.mpr ⟨hbx, hc.live_of_mem b hb⟩⟩
  have hbp : prev ≠ -1 → b ≠ prev := by
    intro hne he
    obtain ⟨l₁, l₂, hl, _, hrest⟩ := hc.split_at_mem hb
    rw [he, hprev hne] at hrest
    cases l₂ with
    | nil => exact hj (hrest : x = j).symm
    | cons a l₂ =>
        have hxa : x = a := hrest.1
        exact hx (by simp [hl, hxa])
  unfold Tables.next
  rw [unlink_gmem_ne hbx hbp]

/-- The record before a hit links to it. -/
theorem prevOf_next (hwalk : Walk t.next (t.Miss mem h) (t.entry s) l x)
    (hne : prevOf (-1) l ≠ -1) : t.next (prevOf (-1) l) = x := by
  rcases List.eq_nil_or_concat' l with rfl | ⟨l₀, a, rfl⟩
  · exact absurd rfl hne
  · rw [prevOf_snoc]
    exact (Walk.of_snoc hwalk).2.2

theorem ListsEnd.unlink (hs : t.Sentinel) (hl : ListsEnd d t)
    (hwalk : Walk t.next (t.Miss mem h) (t.entry s) l x) (hx : t.Live x) (hxr : InRange d x)
    (hrel : Releasable d t l x) : ListsEnd d (unlink t (prevOf (-1) l) x) := by
  have hprev := prevOf_next hwalk
  intro s' hex'
  have hs' : Exists d t s' := unlink_exists.mp hex'
  clear hex'
  rcases hl s' hs' with ⟨l', hc⟩ | ⟨j, hj, he⟩
  · by_cases hmem : x ∈ l'
    · obtain ⟨l₁, l₂, rfl, hto, _⟩ := hc.split_at_mem hmem
      rcases List.eq_nil_or_concat' l₁ with rfl | ⟨l₀, b, rfl⟩
      · -- the list starts at `x`
        right
        have he : t.entry s' = x := hto
        obtain ⟨k, rfl, hk⟩ := hxr.exists_nat
        refine ⟨k, firstEmpty_eq_some.mpr ⟨hk, ?_, ?_⟩, ?_⟩
        · intro hlive
          exact (unlink_live.mp hlive).1 rfl
        · intro i h0 hi
          exact unlink_live.mpr ⟨by omega, hrel.head s' hs' he i h0 hi⟩
        · rw [unlink_entry]
          exact he
      · -- the list gets to `x` from the record that is relinked
        left
        rw [hrel.link s' l₀ b hs' hto]
        have hlist : l₀ ++ [b] ++ x :: l₂ = l₀ ++ b :: x :: l₂ := by simp
        rw [hlist] at hc
        refine ⟨l₀ ++ b :: l₂, ?_⟩
        rw [unlink_entry]
        exact chain_unlink hs hc
    · left
      refine ⟨l', ?_⟩
      rw [unlink_entry]
      exact chain_unlink_of_notMem hc hmem hxr.ne_sentinel.symm hprev
  · right
    obtain ⟨hjr, hempty, hbefore⟩ := firstEmpty_eq_some.mp hj
    have hjx : (j : Int) < x := by
      have hlt := hrel.parked s' hs'
      rw [he] at hlt
      exact hlt hempty
    refine ⟨j, firstEmpty_eq_some.mpr ⟨hjr, ?_, ?_⟩, ?_⟩
    · intro hlive
      exact hempty (unlink_live.mp hlive).2
    · intro i h0 hi
      exact unlink_live.mpr ⟨by omega, hbefore i h0 hi⟩
    · rw [unlink_entry]
      exact he

section Released

variable (hs : t.Sentinel) (hl : ListsEnd d t)
  (hwalk : Walk t.next (t.Miss mem h) (t.entry s) l x) (hx : t.Live x) (hxr : InRange d x)
  (hl' : ListsEnd d (unlink t (prevOf (-1) l) x)) (hs' : Exists d t s')

include hxr hl' hs'

/-- Where a process points at the record released, all below it are in use. -/
theorem live_below_of_released (he : t.entry s' = x) {i : Int} (h0 : 0 ≤ i) (hi : i < x) :
    t.Live i := by
  rcases hl' s' (unlink_exists.mpr hs') with hend | ⟨j, hj, he'⟩
  · exact absurd hend (not_chain_of_unlink_head he hxr.ne_sentinel)
  · rw [unlink_entry, he] at he'
    subst he'
    exact (unlink_live.mp ((firstEmpty_eq_some.mp hj).2.2 i h0 hi)).2

include hl hx

/-- A process that points at an empty record points at one below the one released. -/
theorem parked_below_of_released (hempty : ¬ t.Live (t.entry s')) : t.entry s' < x := by
  rcases hl s' hs' with ⟨l', hc⟩ | ⟨j, hj, he⟩
  · -- an ended list with an empty head is the empty list
    have he : t.entry s' = -1 := by
      cases l' with
      | nil => exact hc
      | cons a l' => exact absurd (hc.1 ▸ hc.2.1) hempty
    have := hxr.1
    omega
  · have hjx : (j : Int) ≠ x := by
      intro hjx
      rw [he, hjx] at hempty
      exact hempty hx
    rcases hl' s' (unlink_exists.mpr hs') with ⟨l', hc⟩ | ⟨j', hj', he'⟩
    · rw [unlink_entry, he] at hc
      cases l' with
      | nil =>
          have : (j : Int) = -1 := hc
          omega
      | cons a l' =>
          have hlive := (unlink_live.mp (hc.1 ▸ hc.2.1)).2
          rw [he] at hempty
          exact absurd hlive hempty
    · rw [unlink_entry, he] at he'
      have hjj : j = j' := by omega
      subst hjj
      rw [he]
      by_contra hlt
      -- below the lowest empty record nothing is empty, and `x` is
      have hxlive := (firstEmpty_eq_some.mp hj').2.2 x hxr.1 (by omega)
      exact (unlink_live.mp hxlive).1 rfl

include hs hwalk

/-- A list that gets to the record released gets there from where the search did. -/
theorem prevOf_of_released {l' : List Int} {b : Int} (hc : t.Chain (t.entry s') (l' ++ [b]) x) :
    prevOf (-1) l = b := by
  by_contra hne
  -- the list of `s'` still gets to `x`, which is empty now
  have hlink := (Walk.of_snoc hc).2.2
  obtain ⟨l₀, hend⟩ := hl.ended_of_walk hs' hc (fun _ hi => hi) hx
  obtain ⟨l₂, hl₂, hrest⟩ := hend.extends_of_stopped hs.not_live hc
  have hxl : x ∉ l' ++ [b] := by
    have hnodup := hend.nodup hs.not_live
    cases l₂ with
    | nil => exact fun _ => hxr.ne_sentinel hrest
    | cons a l₂ =>
        have hxa : x = a := hrest.1
        subst hxa
        rw [hl₂] at hnodup
        exact fun hmem => List.disjoint_of_nodup_append hnodup hmem (by simp)
  have hc' : (RNM.unlink t (prevOf (-1) l) x).Chain (t.entry s') (l' ++ [b]) x := by
    apply hc.congr
    intro a ha
    have hax : a ≠ x := fun he => hxl (he ▸ ha)
    have hap : prevOf (-1) l ≠ -1 → a ≠ prevOf (-1) l := by
      intro hp he
      -- both `a` and `b` would link to `x`
      have hnexta : t.next a = x := by
        rw [he]
        exact prevOf_next hwalk hp
      have hmema : a ∈ l₀ := by
        rw [hl₂]
        exact List.mem_append_left _ ha
      have hmemb : b ∈ l₀ := by
        rw [hl₂]
        simp
      have hab := hend.next_injOn hs.not_live hmema hmemb (hnexta.trans hlink.symm)
      exact hne (he.symm.trans hab)
    refine ⟨?_, unlink_live.mpr ⟨hax, hc.live_of_mem a ha⟩⟩
    unfold Tables.next
    rw [unlink_gmem_ne hax hap]
  have hempty : ¬ (RNM.unlink t (prevOf (-1) l) x).Live x :=
    fun hlive => (unlink_live.mp hlive).1 rfl
  rcases hl' s' (unlink_exists.mpr hs') with ⟨m, hm⟩ | hpark
  · rw [unlink_entry] at hm
    have hsen' : (RNM.unlink t (prevOf (-1) l) x).Sentinel := sentinel_unlink hs hx
    exact hxr.ne_sentinel (hm.unique hsen'.not_live hc' hempty).2.symm
  · apply hpark.not_live
    rw [unlink_entry]
    obtain ⟨hb, hlive, _⟩ := Walk.of_snoc hc'
    exact hb.live_start hlive

omit hs' in
theorem releasable_of_listsEnd : Releasable d t l x where
  head _ hs' he _ h0 hi := live_below_of_released hxr hl' hs' he h0 hi
  link _ _ _ hs' hc := prevOf_of_released hs hl hwalk hx hxr hl' hs' hc
  parked _ hs' hempty := parked_below_of_released hl hx hxr hl' hs' hempty

end Released

theorem step_removeGmem_keepsEnds (hs : t.Sentinel) (hw : Wired d t) (hl : ListsEnd d t)
    (hstep : Step d t (.removeGmem key mem h) t') :
    ListsEnd d t' ↔ (Op.removeGmem key mem h).KeepsEnds d t := by
  rcases step_removeGmem hs hstep with
    ⟨hnone, rfl⟩ | ⟨s, l, x, hfind, hwalk, ⟨hx, rfl⟩ | ⟨hhit, rfl⟩⟩
  · apply iff_of_true hl
    intro s l x hfind
    rw [hnone] at hfind
    cases hfind
  · apply iff_of_true hl
    intro s' l' x' hfind' hwalk' hhit'
    rw [hfind] at hfind'
    obtain rfl := Option.some.inj hfind'
    exact absurd ⟨l', hwalk', hhit'⟩ (not_findsAt_of_walk hwalk hx)
  · have hex := (findRnode_eq_some hfind).1
    have hxr := Wired.inRange_of_live hs (hw.walk hs (hw.entry s hex) hwalk) hhit.1
    constructor
    · intro hl' s' l' x' hfind' hwalk' hhit'
      rw [hfind] at hfind'
      obtain rfl := Option.some.inj hfind'
      obtain ⟨rfl, rfl⟩ := hwalk.unique hhit.not_miss hwalk' hhit'.not_miss
      exact releasable_of_listsEnd hs hl hwalk hhit.1 hxr hl'
    · intro hrel
      exact hl.unlink hs hwalk hhit.1 hxr (hrel s l x hfind hwalk hhit)

/-! ## Histories -/

/-- What the proofs about histories carry along. -/
structure Sound (d : Dims) (t : Tables) : Prop where
  sentinel : t.Sentinel
  wired : Wired d t
  keyed : Keyed d t

theorem Sound.step (h : Sound d t) (hstep : Step d t op t') (hop : op.IsBook) : Sound d t' :=
  ⟨hstep.sentinel h.sentinel, hstep.wired h.sentinel h.wired,
    hstep.keyed h.sentinel h.keyed hop.isAccounting⟩

theorem sound_of_fresh (hf : Fresh d t) (hs : t.Sentinel) : Sound d t :=
  ⟨hs, wired_of_fresh hf, keyed_of_fresh hf⟩

theorem sound_states {r : List (Op × Tables)} (hf : Fresh d t) (hs : t.Sentinel)
    (hr : Along (Step d) t r) (hops : ∀ x ∈ r, x.1.IsBook) : ∀ t' ∈ states t r, Sound d t' := by
  apply Along.invariant_states (sound_of_fresh hf hs) (hr.and_label hops)
  intro t op t' ht hstep
  exact ht.step hstep.1 hstep.2

theorem listsEnd_of_fresh (hf : Fresh d t) : ListsEnd d t :=
  fun _ hs => absurd hs (not_exists_of_fresh hf)

theorem step_keepsEnds (h : Sound d t) (hl : ListsEnd d t) (hop : op.IsBook)
    (hstep : Step d t op t') : ListsEnd d t' ↔ op.KeepsEnds d t := by
  cases op with
  | addGmem key mem p n => exact step_addGmem_keepsEnds h.sentinel hl hstep
  | removeGmem key mem h' => exact step_removeGmem_keepsEnds h.sentinel h.wired hl hstep
  | deleteRnode key => exact absurd hop id
  | gmemUsed pe => exact absurd hop id

/-- **In which histories the walks end.** From every state of a history every further `add_gmem` or
`remove_gmem`, by any process and whatever its memory, finishes exactly when every call of the
history satisfies `Op.KeepsEnds` in the state it is made in. -/
theorem allFinish_iff_keepsEnds {r : List (Op × Tables)} (hf : Fresh d t) (hs : t.Sentinel)
    (hr : Along (Step d) t r) (hops : ∀ x ∈ r, x.1.IsBook) :
    (∀ t' ∈ states t r, AllFinish d t') ↔ Along (fun t op _ => op.KeepsEnds d t) t r := by
  apply Along.states_iff (I := fun t => Sound d t ∧ ListsEnd d t)
    ⟨sound_of_fresh hf hs, listsEnd_of_fresh hf⟩ (hr.and_label hops)
  · intro t ht
    exact ht.2.allFinish ht.1.sentinel
  · intro t op t' ht hstep hkeep
    have ht' := ht.1.step hstep.1 hstep.2
    exact ⟨ht', (step_keepsEnds ht.1 ht.2 hstep.2 hstep.1).mpr hkeep⟩
  · intro t op t' ht hstep hall
    have ht' := ht.1.step hstep.1 hstep.2
    have hl' := hall.listsEnd ht'.sentinel ht'.wired ht'.keyed
    exact (step_keepsEnds ht.1 ht.2 hstep.2 hstep.1).mp hl'

/-- The record that `recordHandedOn` releases is the second one of its list, and no other process
points at it. -/
theorem releasable_handedOn :
    (Op.removeGmem (1, 0) ownAddress 32).KeepsEnds smallDims (handedOn 3) := by
  have hs : (handedOn 3).Sentinel := ⟨by decide, by decide⟩
  have hfind : findRnode smallDims (handedOn 3) (1, 0) = some 0 := by decide
  have hc : (handedOn 3).Chain ((handedOn 3).entry 0) [0, 2] (-1) :=
    ⟨by decide, by decide, by decide, by decide, (by decide : (handedOn 3).next 2 = -1)⟩
  have hother : (handedOn 3).Chain ((handedOn 3).entry 1) [1] (-1) :=
    chain_single (by decide) (by decide) (by decide)
  have hlive : (handedOn 3).Live 2 := by decide
  intro s l x hfind' hwalk hhit
  obtain rfl := Option.some.inj (hfind.symm.trans hfind')
  obtain ⟨rfl, rfl⟩ : l = [0] ∧ x = 2 := by
    obtain ⟨l₂, hl, _⟩ := chain_split_at_hit hs hc hwalk hhit.1
    rcases l with _ | ⟨a, _ | ⟨b, l⟩⟩
    · obtain ⟨rfl, _⟩ := List.cons.inj hl
      exact absurd hhit.2 (by decide)
    · simp only [List.cons_append, List.nil_append, List.cons.injEq] at hl
      obtain ⟨rfl, rfl, _⟩ := hl
      exact ⟨rfl, rfl⟩
    · simp at hl
  refine ⟨?_, ?_, ?_⟩
  · intro s hex hentry
    rcases slot_smallDims hex with rfl | rfl
    · exact absurd hentry (by decide)
    · exact absurd hentry (by decide)
  · intro s l' b hex hc'
    rcases slot_smallDims hex with rfl | rfl
    · obtain ⟨l₂, hl, _⟩ := chain_split_at_live hs hc hc' hlive
      have hlen := congrArg List.length hl
      cases l' with
      | nil => exact (List.cons.inj hl).1
      | cons a l' =>
          simp at hlen
          omega
    · obtain ⟨l₂, hl, _⟩ := chain_split_at_live hs hother hc' hlive
      have hlen := congrArg List.length hl
      simp at hlen
      omega
  · intro s hex hempty
    rcases slot_smallDims hex with rfl | rfl
    · exact absurd (by decide) hempty
    · exact absurd (by decide) hempty

theorem allFinish_recordHandedOn : AllFinish smallDims (handedOn 5) := by
  have hr : Along (Step smallDims) initialTables
      (replay smallDims 3 initialTables recordHandedOn) := along_replay (by decide)
  have hops : ∀ x ∈ replay smallDims 3 initialTables recordHandedOn, x.1.IsBook := by
    exact forall_label_trajectory.mpr (by simp [recordHandedOn, Op.IsBook])
  obtain ⟨hfirst, hsecond, hthird, hlast⟩ := hitsLast_handedOn
  refine (allFinish_iff_keepsEnds (fresh_initialTables _) sentinel_initialTables hr hops).mpr ?_ _
    (final_mem_states _ _)
  exact ⟨hfirst, hsecond, hthird, releasable_handedOn, hlast, trivial⟩

/-- Two processes allocate once each, and both release. -/
def allocationsAndReleases : List Op :=
  [.addGmem (1, 0) ownAddress 16 100, .addGmem (2, 0) ownAddress 24 200,
   .removeGmem (2, 0) ownAddress 24, .removeGmem (1, 0) ownAddress 16]

def afterReleases : Tables :=
  final initialTables (replay smallDims 2 initialTables allocationsAndReleases)

/-- **The walks need not end**: after both releases the second process points at an empty record
that is not the lowest one, and some further call of its hangs. -/
theorem not_allFinish_of_releases :
    ¬ ∀ (d : Dims) (t : Tables) (r : List (Op × Tables)), Fresh d t → t.Sentinel →
      Along (Step d) t r → (∀ x ∈ r, x.1.IsBook) → ∀ t' ∈ states t r, AllFinish d t' := by
  intro hall
  have hr : Along (Step smallDims) initialTables
      (replay smallDims 2 initialTables allocationsAndReleases) := along_replay (by decide)
  have hops : ∀ x ∈ replay smallDims 2 initialTables allocationsAndReleases, x.1.IsBook := by
    exact forall_label_trajectory.mpr (by simp [allocationsAndReleases, Op.IsBook])
  have hmem : afterReleases ∈
      states initialTables (replay smallDims 2 initialTables allocationsAndReleases) :=
    final_mem_states _ _
  have hsound := sound_states (fresh_initialTables _) sentinel_initialTables hr hops _ hmem
  have hfinish := hall smallDims initialTables _ (fresh_initialTables _) sentinel_initialTables
    hr hops _ hmem
  have hentry : afterReleases.entry 1 = 1 := by decide
  have hempty : ¬ afterReleases.Live 1 := by decide
  have hlowest : firstEmpty smallDims afterReleases = some 0 := by decide
  have hl := hfinish.listsEnd hsound.sentinel hsound.wired hsound.keyed
  rcases hl 1 ⟨by decide, by decide⟩ with ⟨l, hc⟩ | ⟨j, hj, he⟩
  · rw [hentry] at hc
    obtain rfl := hc.eq_nil_of_not_live hempty
    cases hc
  · rw [hlowest] at hj
    rw [hentry, ← Option.some.inj hj] at he
    cases he

end Vcuda.RNM
