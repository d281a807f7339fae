import Vcuda.Rnm.Chained

/-!
# The record lists of the processes

The representation invariant of the two tables: every process slot has a list of distinct records
in use that ends at `-1`, and every record in use is on the list of exactly one process
(`RecordLists`, `RepInv`).

The operations do not keep it. `Op.KeepsLists` is what a call has to satisfy, in the state it is
made in, and it is exact: `step_keepsLists` says that a step from a state of the invariant ends in
one exactly when the call satisfies it, `repInv_iff_keepsLists` the same of whole histories.
-/

namespace Vcuda.RNM

open Traced Tables

variable {d : Dims} {t t' t₁ : Tables} {key : PidSt} {mem : HostMem} {h : Handle} {p : Ptr}
  {n : UInt64} {op : Op} {s s' : Nat} {g : Int} {c : Nat → List Int} {l : List Int}

/-! ## The invariant -/

/-- The lists `c` are the record lists of the processes. -/
structure RecordLists (d : Dims) (t : Tables) (c : Nat → List Int) : Prop where
  chain : ∀ s, Exists d t s → t.Chain (t.entry s) (c s) (-1)
  nodup : ∀ s, Exists d t s → (c s).Nodup
  inRange : ∀ s, Exists d t s → ∀ g ∈ c s, InRange d g
  owner : ∀ g, InRange d g → t.Live g → ∃! s, Exists d t s ∧ g ∈ c s

/-- The representation invariant. -/
def RepInv (d : Dims) (t : Tables) : Prop := ∃ c, RecordLists d t c

theorem RecordLists.live (hc : RecordLists d t c) (hs : Exists d t s) (hg : g ∈ c s) :
    t.Live g := (hc.chain s hs).live_of_mem g hg

/-- No record is shared. -/
theorem RecordLists.eq_of_mem (hc : RecordLists d t c) (hs : Exists d t s) (hs' : Exists d t s')
    (hg : g ∈ c s) (hg' : g ∈ c s') : s = s' :=
  (hc.owner g (hc.inRange s hs g hg) (hc.live hs hg)).unique ⟨hs, hg⟩ ⟨hs', hg'⟩

theorem RecordLists.chained (hc : RecordLists d t c) : Chained d t c := by
  refine ⟨hc.chain, ?_⟩
  intro s s' hs hs' hne g hg hg'
  exact hne (hc.eq_of_mem hs hs' hg hg')

/-- **One list at a time.** When an operation replaces the list of the process in slot `s` by `l`,
takes its new records from the empty ones and leaves what is on neither list alone, the lists of the
others are as before. -/
theorem RecordLists.replace (hc : RecordLists d t c) (hs : Exists d t' s) (hsen : t'.Sentinel)
    (hexists : ∀ s', s' ≠ s → (Exists d t' s' ↔ Exists d t s'))
    (hentry : ∀ s', s' ≠ s → t'.entry s' = t.entry s')
    (hchain : t'.Chain (t'.entry s) l (-1)) (hrange : ∀ g ∈ l, InRange d g)
    (hnew : ∀ g ∈ l, g ∈ listOf d t c s ∨ ¬ t.Live g)
    (hgone : ∀ g ∈ listOf d t c s, g ∉ l → ¬ t'.Live g)
    (hframe : ∀ g, g ∉ listOf d t c s → g ∉ l → t'.gmem g = t.gmem g) :
    RecordLists d t' (Function.update c s l) := by
  have hc' := hc.chained.replace hexists hentry hchain hnew hframe
  refine ⟨hc'.chain, fun s' hs' => (hc'.chain s' hs').nodup hsen.not_live, ?_, ?_⟩
  · intro s' hs'
    by_cases hne : s' = s
    · subst hne
      rw [Function.update_self]
      exact hrange
    · rw [Function.update_of_ne hne]
      exact hc.inRange s' ((hexists s' hne).mp hs')
  · intro g hg hlive
    by_cases hgl : g ∈ l
    · have hmem : g ∈ Function.update c s l s := by
        rw [Function.update_self]
        exact hgl
      refine ⟨s, ⟨hs, hmem⟩, ?_⟩
      rintro s' ⟨hs', hmem'⟩
      by_contra hne
      exact hc'.disjoint s' s hs' hs hne hmem' hmem
    · -- a record on neither list is as it was, and so is its owner
      have hgold : g ∉ listOf d t c s := fun hmem => hgone g hmem hgl hlive
      have hlive' : t.Live g := by
        unfold Tables.Live at hlive ⊢
        rw [← hframe g hgold hgl]
        exact hlive
      obtain ⟨s₀, ⟨hs₀, hmem₀⟩, huniq⟩ := hc.owner g hg hlive'
      have hne₀ : s₀ ≠ s := fun he => hgold (mem_listOf.mpr (he ▸ ⟨hs₀, hmem₀⟩))
      refine ⟨s₀, ⟨(hexists s₀ hne₀).mpr hs₀, ?_⟩, ?_⟩
      · rw [Function.update_of_ne hne₀]
        exact hmem₀
      · rintro s' ⟨hs', hmem⟩
        by_cases hne : s' = s
        · subst hne
          rw [Function.update_self] at hmem
          exact absurd hmem hgl
        · rw [Function.update_of_ne hne] at hmem
          exact huniq s' ⟨(hexists s' hne).mp hs', hmem⟩

/-- A process that gets a slot starts with an empty list. -/
theorem RecordLists.acquire (hsen : t.Sentinel) (hc : RecordLists d t c)
    (hacq : Acquires d t key s t₁) :
    ∃ c', RecordLists d t₁ c' ∧ ∀ s' g, g ∈ c' s' → Exists d t₁ s' → Exists d t s' ∧ g ∈ c s' := by
  have hs₁ : t₁.Sentinel := hsen.congr (by rw [hacq.gmem])
  refine ⟨Function.update c s (listOf d t c s), ?_, ?_⟩
  · apply hc.replace hacq.exists_self hs₁ (fun _ => hacq.exists_of_ne) (fun _ => hacq.entry_of_ne)
      (hacq.chain hc.chained)
    · intro g hg
      obtain ⟨hex, hg⟩ := mem_listOf.mp hg
      exact hc.inRange s hex g hg
    · exact fun g hg => Or.inl hg
    · exact fun g hg hgl => absurd hg hgl
    · intro g _ _
      rw [hacq.gmem]
  · intro s' g hg hs'
    by_cases hne : s' = s
    · subst hne
      rw [Function.update_self] at hg
      exact mem_listOf.mp hg
    · rw [Function.update_of_ne hne] at hg
      exact ⟨(hacq.exists_of_ne hne).mp hs', hg⟩

/-- A new record goes to the end of the list of its process. -/
theorem RecordLists.push {j : Nat} (hs : t.Sentinel) (hc : RecordLists d t c) (hex : Exists d t s)
    (hp : p ≠ 0) (hj : firstEmpty d t = some j) (hl : Links (putNew t j p n) s j t') :
    RecordLists d t' (Function.update c s (c s ++ [(j : Int)])) := by
  obtain ⟨hjr, _⟩ := firstEmpty_eq_some.mp hj
  have hj1 : (j : Int) ≠ -1 := by omega
  have hslots : slots d t' = slots d t := hl.slots
  obtain ⟨hchain, _, hnew, hframe⟩ := hc.chained.pushed hs hex hp hj hl
  apply hc.replace ((exists_congr hslots).mpr hex) (hl.sentinel (hs.modifyGmem hj1))
    (fun _ _ => exists_congr hslots) (fun _ => hl.entry_of_ne) hchain _ hnew _ hframe
  · intro g hg
    rcases List.mem_append.mp hg with hg | hg
    · exact hc.inRange s hex g hg
    · rw [List.mem_singleton.mp hg]
      exact inRange_natCast.mpr hjr
  · intro g hg hgl
    exact absurd (List.mem_append_left _ (mem_listOf.mp hg).2) hgl

/-! ## What keeps it -/

/-- A search of the process for the handle in `p` finds it in the last record of the list, or
nowhere. -/
def HitsLast (d : Dims) (t : Tables) (key : PidSt) (mem : HostMem) (p : Ptr) : Prop :=
  ∀ s l x, findRnode d t key = some s → Walk t.next (t.Miss mem (mem p)) (t.entry s) l x →
    t.Hit mem (mem p) x → t.next x = -1

/-- A process without a slot has nothing to search. -/
theorem hitsLast_of_new (hfind : findRnode d t key = none) : HitsLast d t key mem p := by
  intro s l x hfind'
  rw [hfind] at hfind'
  cases hfind'

/-- A handle that no record of the list holds is found nowhere. -/
theorem hitsLast_of_chain (hs : t.Sentinel) (hfind : findRnode d t key = some s)
    (hc : t.Chain (t.entry s) l (-1)) (hmiss : ∀ g ∈ l, mem (t.gmem g).ptr ≠ mem p) :
    HitsLast d t key mem p := by
  intro s' l' x hfind' hwalk hhit
  obtain rfl := Option.some.inj (hfind.symm.trans hfind')
  obtain ⟨l₂, rfl, _⟩ := chain_split_at_hit hs hc hwalk hhit.1
  exact absurd hhit.2 (hmiss x (by simp))

/-- The call, made in the state `t`, keeps the record lists:

* an `add_gmem` that finds a record holding its handle (the "which should not accur" branch) finds
  the last one of the list,
* a `remove_gmem` does not find its handle in the first record of the list,
* a `delete_rnode` deletes a process without records. -/
def Op.KeepsLists (d : Dims) (t : Tables) : Op → Prop
  | .addGmem key mem p _ => HitsLast d t key mem p
  | .removeGmem key mem h => ∀ s, findRnode d t key = some s → ¬ t.Hit mem h (t.entry s)
  | .deleteRnode key => ∀ s, findRnode d t key = some s → t.entry s = -1
  | .gmemUsed _ => True

/-! ### Adding -/

/-- A call that finds its handle at the end of the list, or nowhere, keeps the lists. -/
theorem RecordLists.registers {reg : List Int} (hs : t.Sentinel) (hc : RecordLists d t c)
    (hex : Exists d t s) (hp : p ≠ 0) (hr : Registers d t mem s p n t' reg)
    (hsafe : ∀ l x, Walk t.next (t.Miss mem (mem p)) (t.entry s) l x →
      t.Hit mem (mem p) x → t.next x = -1) : ∃ c', RecordLists d t' c' := by
  have hslots := hr.slots (d := d)
  have hsen := hr.sentinel hs
  have hchain := hc.chain s hex
  have hexists : ∀ s', s' ≠ s → (Exists d t' s' ↔ Exists d t s') := fun _ _ => hr.exists_iff
  have hself : Exists d t' s := hr.exists_iff.mpr hex
  obtain ⟨l, x, hwalk, ⟨_, j, hj, hl, _⟩ | ⟨_, _, hl, _⟩ | ⟨hhit, hl, _⟩⟩ := hr
  · -- a new record at the end
    exact ⟨_, hc.push hs hex hp hj hl⟩
  · -- no record to be had
    rw [hl.eq_of_sentinel]
    exact ⟨c, hc⟩
  · -- the last record, registered again
    obtain ⟨l₂, hl₂, hrest⟩ := chain_split_at_hit hs hchain hwalk hhit.1
    rw [hsafe l x hwalk hhit] at hrest
    obtain rfl := eq_nil_of_chain hs hrest
    have hx : x ∈ c s := by simp [hl₂]
    have hchain₂ : (t.modifyGmem x (·.setRes p n)).Chain (t.entry s) (c s) (-1) :=
      Chain.setRes hchain hp
    rw [hl₂] at hchain
    obtain rfl := links_last hs hchain hp hl
    have hlist : listOf d t c s = c s := listOf_of_exists hex
    refine ⟨_, hc.replace hself hsen hexists ?_ hchain₂ (hc.inRange s hex) ?_ ?_ ?_⟩
    · intro s' _
      rfl
    · intro g hg
      exact Or.inl (hlist ▸ hg)
    · intro g hg hgl
      exact absurd (hlist ▸ hg) hgl
    · intro g hg _
      exact modifyGmem_gmem_ne fun he => hg (he ▸ hlist ▸ hx)

/-- A call that finds its handle elsewhere leaves the process without a list that ends. -/
theorem not_chain_of_registers {reg : List Int} (hs : t.Sentinel) (hp : p ≠ 0)
    (hchain : t.Chain (t.entry s) l (-1)) (hr : Registers d t mem s p n t' reg) {m : List Int}
    (hwalk : Walk t.next (t.Miss mem (mem p)) (t.entry s) m g) (hhit : t.Hit mem (mem p) g)
    (hne : t.next g ≠ -1) : ∀ l' j, t'.Chain (t'.entry s) l' j → t'.Live j := by
  -- the search of the call stops where this one does
  have hl := (hr.of_hit hwalk hhit).1
  obtain ⟨l₂, rfl, hrest⟩ := chain_split_at_hit hs hchain hwalk hhit.1
  have hs₂ : (t.modifyGmem g (·.setRes p n)).Sentinel :=
    hs.modifyGmem (ne_sentinel_of_live hs hhit.1)
  have hchain₂ : (t.modifyGmem g (·.setRes p n)).Chain (t.entry s) (m ++ g :: l₂) (-1) :=
    Chain.setRes hchain hp
  intro l' j hc'
  exact live_of_relink hs₂ hchain₂ (ne_nil_of_chain hne hrest) hl hc'

/-- A process that just got its slot has no record to find. -/
theorem hitsLast_iff (hs : t.Sentinel) (hacq : Acquires d t key s t₁) :
    HitsLast d t key mem p ↔ ∀ l x, Walk t₁.next (t₁.Miss mem (mem p)) (t₁.entry s) l x →
      t₁.Hit mem (mem p) x → t₁.next x = -1 := by
  rcases hacq with ⟨hfind, rfl⟩ | ⟨hnone, _, rfl⟩
  · constructor
    · intro hsafe l x
      exact hsafe s l x hfind
    · intro hsafe s' l x hfind'
      rw [hfind] at hfind'
      rw [← Option.some.inj hfind']
      exact hsafe l x
  · apply iff_of_true
    · intro s' l x hfind
      rw [hnone] at hfind
      cases hfind
    · intro l x hwalk hhit
      rw [putRnode_entry_self, RNode.new_resEntryIdx] at hwalk
      exact absurd hhit.1 (hs.not_live_of_walk hwalk fun _ hm => hm.1)

theorem step_addGmem_keepsLists (hs : t.Sentinel) (hinv : RepInv d t)
    (hstep : Step d t (.addGmem key mem p n) t') :
    RepInv d t' ↔ (Op.addGmem key mem p n).KeepsLists d t := by
  obtain ⟨c, hc⟩ := hinv
  obtain ⟨hp, s, t₁, reg, hacq, hr⟩ := step_addGmem hs hstep
  have hs₁ : t₁.Sentinel := hs.congr (by rw [hacq.gmem])
  obtain ⟨c₁, hc₁, _⟩ := hc.acquire hs hacq
  have hex := hacq.exists_self
  refine Iff.trans ?_ (hitsLast_iff hs hacq).symm
  constructor
  · rintro ⟨c', hc'⟩ l x hwalk hhit
    by_contra hne
    have hchain' := hc'.chain s (hr.exists_iff.mpr hex)
    exact (hr.sentinel hs₁).not_live
      (not_chain_of_registers hs₁ hp (hc₁.chain s hex) hr hwalk hhit hne _ _ hchain')
  · intro hsafe
    exact hc₁.registers hs₁ hex hp hr hsafe

/-! ### Removing and deleting -/

/-- A record behind another goes off the list of its process. -/
theorem RecordLists.unlink {b x : Int} {l₀ l₂ : List Int} (hs : t.Sentinel)
    (hc : RecordLists d t c) (hex : Exists d t s) (hl : c s = l₀ ++ b :: x :: l₂) :
    RecordLists d (RNM.unlink t b x) (Function.update c s (l₀ ++ b :: l₂)) := by
  have hx : t.Live x := hc.live hex (by simp [hl])
  obtain ⟨hchain, hsub, hframe⟩ := hc.chained.cut hs hex hl
  apply hc.replace (unlink_exists.mpr hex) (sentinel_unlink hs hx) (fun _ _ => unlink_exists)
    (fun s' _ => unlink_entry b x s') hchain
  · exact fun g hg => hc.inRange s hex g (mem_listOf.mp (hsub g hg)).2
  · exact fun g hg => Or.inl (hsub g hg)
  · intro g hg hgl
    -- the only record that left the list is the one released
    have hgx : g = x := by
      rw [listOf_of_exists hex, hl] at hg
      simp only [List.mem_append, List.mem_cons] at hg hgl
      tauto
    rw [hgx]
    exact not_live_iff.mpr (unlink_gmem_self b x).1
  · exact fun g hg _ => hframe g hg

theorem step_removeGmem_keepsLists (hs : t.Sentinel) (hinv : RepInv d t)
    (hstep : Step d t (.removeGmem key mem h) t') :
    RepInv d t' ↔ (Op.removeGmem key mem h).KeepsLists d t := by
  obtain ⟨c, hc⟩ := hinv
  rcases step_removeGmem hs hstep with
    ⟨hnone, rfl⟩ | ⟨s, l, x, hfind, hwalk, ⟨hx, rfl⟩ | ⟨hhit, rfl⟩⟩
  · refine iff_of_true ⟨c, hc⟩ ?_
    intro s hfind
    rw [hnone] at hfind
    cases hfind
  · refine iff_of_true ⟨c, hc⟩ ?_
    intro s' hfind' hhit
    rw [hfind] at hfind'
    obtain rfl := Option.some.inj hfind'
    -- the search would have stopped at the first record
    exact not_findsAt_of_walk hwalk hx ⟨[], rfl, hhit⟩
  · have hex := (findRnode_eq_some hfind).1
    rcases List.eq_nil_or_concat' l with rfl | ⟨l₀, b, rfl⟩
    · -- the first record: its process keeps pointing at it
      have hentry : t.entry s = x := hwalk
      have hx1 : x ≠ -1 := ne_sentinel_of_live hs hhit.1
      refine iff_of_false ?_ ?_
      · intro ⟨c', hc'⟩
        exact not_chain_of_unlink_head hentry hx1 ⟨c' s, hc'.chain s (unlink_exists.mpr hex)⟩
      · intro hsafe
        exact hsafe s hfind (hentry ▸ hhit)
    · refine iff_of_true ?_ ?_
      · obtain ⟨l₂, hl₂, _⟩ := chain_split_at_hit hs (hc.chain s hex) hwalk hhit.1
        have hl : c s = l₀ ++ b :: x :: l₂ := by simp [hl₂]
        rw [prevOf_snoc]
        exact ⟨_, hc.unlink hs hex hl⟩
      · intro s' hfind' hhit'
        rw [hfind] at hfind'
        obtain rfl := Option.some.inj hfind'
        have hstart : Walk t.next (t.Miss mem h) (t.entry s) [] (t.entry s) := rfl
        have hnil := (hstart.unique hhit'.not_miss hwalk hhit.not_miss).1
        simp at hnil

theorem step_deleteRnode_keepsLists (hs : t.Sentinel) (hinv : RepInv d t)
    (hstep : Step d t (.deleteRnode key) t') :
    RepInv d t' ↔ (Op.deleteRnode key).KeepsLists d t := by
  obtain ⟨c, hc⟩ := hinv
  rcases step_deleteRnode hstep with ⟨hnone, rfl⟩ | ⟨s, hfind, rfl⟩
  · refine iff_of_true ⟨c, hc⟩ ?_
    intro s hfind
    rw [hnone] at hfind
    cases hfind
  · have hex := (findRnode_eq_some hfind).1
    constructor
    · rintro ⟨c', hc'⟩ s₀ hfind₀
      rw [hfind] at hfind₀
      obtain rfl := Option.some.inj hfind₀
      by_contra hne
      -- the first record of the deleted process is left without an owner
      obtain ⟨g, l, hg⟩ := List.exists_cons_of_ne_nil (ne_nil_of_chain hne (hc.chain s hex))
      have hmem : g ∈ c s := by simp [hg]
      have hrange := hc.inRange s hex g hmem
      obtain ⟨s', ⟨hs', hmem'⟩, _⟩ := hc'.owner g hrange (hc.live hex hmem)
      have hchain' := hc'.chain s' hs'
      obtain ⟨hne', hs'⟩ := exists_shallowDelete.mp hs'
      rw [putRnode_entry_ne hne'] at hchain'
      have hsame := (hchain'.unique hs.not_live (hc.chain s' hs') hs.not_live).1
      rw [hsame] at hmem'
      exact hne' (hc.eq_of_mem hs' hex hmem' hmem)
    · intro hsafe
      have hchain := hc.chain s hex
      rw [hsafe s hfind] at hchain
      have hnil := eq_nil_of_chain hs hchain
      refine ⟨c, ?_, ?_, ?_, ?_⟩
      · intro s' hs'
        obtain ⟨hne, hs'⟩ := exists_shallowDelete.mp hs'
        rw [putRnode_entry_ne hne]
        exact hc.chain s' hs'
      · intro s' hs'
        exact hc.nodup s' (exists_shallowDelete.mp hs').2
      · intro s' hs'
        exact hc.inRange s' (exists_shallowDelete.mp hs').2
      · intro g hg hlive
        obtain ⟨s', ⟨hs', hmem⟩, huniq⟩ := hc.owner g hg hlive
        have hne : s' ≠ s := by
          intro he
          rw [he, hnil] at hmem
          cases hmem
        refine ⟨s', ⟨exists_shallowDelete.mpr ⟨hne, hs'⟩, hmem⟩, ?_⟩
        intro s'' hs''
        exact huniq s'' ⟨(exists_shallowDelete.mp hs''.1).2, hs''.2⟩

/-- **The condition is exact.** -/
theorem step_keepsLists (hs : t.Sentinel) (hinv : RepInv d t) (hstep : Step d t op t') :
    RepInv d t' ↔ op.KeepsLists d t := by
  cases op with
  | addGmem key mem p n => exact step_addGmem_keepsLists hs hinv hstep
  | removeGmem key mem h => exact step_removeGmem_keepsLists hs hinv hstep
  | deleteRnode key => exact step_deleteRnode_keepsLists hs hinv hstep
  | gmemUsed pe =>
      rw [step_gmemUsed hstep]
      exact iff_of_true hinv trivial

/-! ## Histories -/

theorem repInv_of_fresh (hf : Fresh d t) : RepInv d t := by
  refine ⟨fun _ => [], ?_, ?_, ?_, ?_⟩
  · intro s hs
    exact absurd hs (not_exists_of_fresh hf)
  · intro s hs
    exact absurd hs (not_exists_of_fresh hf)
  · intro s hs
    exact absurd hs (not_exists_of_fresh hf)
  · intro g hg hlive
    unfold Tables.Live at hlive
    rw [hf.gmem g hg] at hlive
    exact absurd rfl hlive

/-- **Which histories keep the representation invariant.** Every state of a history satisfies it
exactly when every call of the history satisfies `Op.KeepsLists` in the state it is made in. -/
theorem repInv_iff_keepsLists {r : List (Op × Tables)} (hf : Fresh d t) (hs : t.Sentinel)
    (hr : Along (Step d) t r) :
    (∀ t' ∈ states t r, RepInv d t') ↔ Along (fun t op _ => op.KeepsLists d t) t r := by
  apply Along.states_iff (I := fun t => t.Sentinel ∧ RepInv d t) ⟨hs, repInv_of_fresh hf⟩ hr
  · intro t ht
    exact ht.2
  · intro t op t' ht hstep hsafe
    exact ⟨hstep.sentinel ht.1, (step_keepsLists ht.1 ht.2 hstep).mpr hsafe⟩
  · intro t op t' ht hstep hinv
    exact (step_keepsLists ht.1 ht.2 hstep).mp hinv

/-- The adds of `recordHandedOn` find no record holding their handle. -/
theorem hitsLast_handedOn :
    HitsLast smallDims (handedOn 0) (1, 0) ownAddress 16 ∧
    HitsLast smallDims (handedOn 1) (2, 0) ownAddress 24 ∧
    HitsLast smallDims (handedOn 2) (1, 0) ownAddress 32 ∧
    HitsLast smallDims (handedOn 4) (2, 0) ownAddress 40 := by
  refine ⟨hitsLast_of_new (by decide), hitsLast_of_new (by decide), ?_, ?_⟩
  · have hfind : findRnode smallDims (handedOn 2) (1, 0) = some 0 := by decide
    have hc : (handedOn 2).Chain ((handedOn 2).entry 0) [0] (-1) :=
      chain_single (by decide) (by decide) (by decide)
    exact hitsLast_of_chain ⟨by decide, by decide⟩ hfind hc (by decide)
  · have hfind : findRnode smallDims (handedOn 4) (2, 0) = some 1 := by decide
    have hc : (handedOn 4).Chain ((handedOn 4).entry 1) [1] (-1) :=
      chain_single (by decide) (by decide) (by decide)
    exact hitsLast_of_chain ⟨by decide, by decide⟩ hfind hc (by decide)

/-- The record they release is the second one of its list. -/
theorem keepsLists_handedOn :
    (Op.removeGmem (1, 0) ownAddress 32).KeepsLists smallDims (handedOn 3) := by
  intro s hfind hhit
  have hslot : findRnode smallDims (handedOn 3) (1, 0) = some 0 := by decide
  obtain rfl := Option.some.inj (hslot.symm.trans hfind)
  have hvar : ownAddress ((handedOn 3).gmem ((handedOn 3).entry 0)).ptr ≠ 32 := by decide
  exact hvar hhit.2

theorem repInv_recordHandedOn : RepInv smallDims (handedOn 5) := by
  have hr : Along (Step smallDims) initialTables
      (replay smallDims 3 initialTables recordHandedOn) := along_replay (by decide)
  obtain ⟨hfirst, hsecond, hthird, hlast⟩ := hitsLast_handedOn
  refine (repInv_iff_keepsLists (fresh_initialTables _) sentinel_initialTables hr).mpr ?_ _
    (final_mem_states _ _)
  exact ⟨hfirst, hsecond, hthird, keepsLists_handedOn, hlast, trivial⟩

/-- A process allocates once and releases the allocation. -/
def allocationAndRelease : List Op :=
  [.addGmem (1, 0) ownAddress 16 100, .removeGmem (1, 0) ownAddress 16]

def afterRelease : Tables :=
  final initialTables (replay smallDims 2 initialTables allocationAndRelease)

/-- **The code does not keep the representation invariant**: a process that releases its first
record is left pointing at it. -/
theorem not_repInv_of_release :
    ¬ ∀ (d : Dims) (t : Tables) (r : List (Op × Tables)), Fresh d t → t.Sentinel →
      (∀ x ∈ r, ∀ pe, x.1 ≠ .gmemUsed pe) → Along (Step d) t r →
      ∀ t' ∈ states t r, RepInv d t' := by
  intro hall
  have hr : Along (Step smallDims) initialTables
      (replay smallDims 2 initialTables allocationAndRelease) := along_replay (by decide)
  have hops : ∀ x ∈ replay smallDims 2 initialTables allocationAndRelease,
      ∀ pe, x.1 ≠ .gmemUsed pe := by
    apply (forall_label_trajectory (L := fun op : Op => ∀ pe, op ≠ .gmemUsed pe)).mpr
    simp [allocationAndRelease]
  obtain ⟨c, hc⟩ := hall smallDims initialTables _ (fresh_initialTables _) sentinel_initialTables
    hops hr afterRelease (final_mem_states _ _)
  have hchain := hc.chain 0 ⟨by decide, by decide⟩
  have hentry : afterRelease.entry 0 = 0 := by decide
  have hempty : ¬ afterRelease.Live 0 := by decide
  rw [hentry] at hchain
  cases hl : c 0 with
  | nil =>
      rw [hl] at hchain
      cases hchain
  | cons g l =>
      rw [hl] at hchain
      obtain ⟨rfl, hlive, _⟩ := hchain
      exact hempty hlive

end Vcuda.RNM
