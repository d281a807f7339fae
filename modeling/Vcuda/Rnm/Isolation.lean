import Vcuda.Rnm.Identity
import Vcuda.Rnm.Reach

/-!
# Isolation between processes

Which process a record belongs to is not in the tables, so histories are run over `Owned`: the
tables, for every record the process that registered it last, and the variables every process has
registered. The invariant (`OwnLists`) is that a process reaches only its own records.

It is lost when `push_gmem` hands out a record that another process still points at, which is what
a release of a first record leaves behind. `Op.SparesOthers` excludes just that, and
`isolated_iff_sparesOthers` shows that nothing less will do: the next call of the other process
would change a record that is not its own.
-/

namespace Vcuda.RNM

open Traced Tables

/-- The tables and whose the records are: a record belongs to the process that registered it last,
as long as it is in use. -/
structure Owned where
  tables : Tables
  owner : Int → Option PidSt
  vars : List (PidSt × Ptr)

/-- The variable the call registers. -/
def Op.vars : Op → List (PidSt × Ptr)
  | .addGmem key _ dptr _ => [(key, dptr)]
  | _ => []

/-- The owners after a call that registered the records `reg`. -/
def Owned.after (o : Owned) (op : Op) (t' : Tables) (reg : List Int) : Owned where
  tables := t'
  owner i := if i ∈ reg then op.caller else o.owner i
  vars := op.vars ++ o.vars

/-- The call, run to completion, with its bookkeeping of owners. -/
def OwnedStep (d : Dims) (o : Owned) (op : Op) (o' : Owned) : Prop :=
  ∃ fuel t' tr, Runs (op.exec d fuel) o.tables () t' tr ∧ o' = o.after op t' (registered tr)

/-- The record `i` is in use and was registered by `key`. -/
def RegisteredBy (o : Owned) (key : PidSt) (i : Int) : Prop :=
  o.tables.Live i ∧ o.owner i = some key

/-- A call of `key` that leads from `o.tables` to `t'` and does `tr` leaves the others alone: their
process slots, their records, and their variables. -/
structure LeavesOthers (d : Dims) (o : Owned) (key : PidSt) (vars : List (PidSt × Ptr))
    (t' : Tables) (tr : List Event) : Prop where
  slot : ∀ s, Exists d o.tables s → o.tables.keyOf s ≠ key → t'.rnode s = o.tables.rnode s
  record : ∀ key' i, key' ≠ key → RegisteredBy o key' i → t'.gmem i = o.tables.gmem i
  host : ∀ p, Event.host p ∈ tr → (key, p) ∈ vars ++ o.vars

/-- Every further `add_gmem` or `remove_gmem` leaves the others alone. -/
def Isolated (d : Dims) (o : Owned) : Prop :=
  ∀ (op : Op) key fuel t' tr, op.IsBook → op.caller = some key →
    Runs (op.exec d fuel) o.tables () t' tr → LeavesOthers d o key op.vars t' tr

/-- A process reaches only its own records, and registered their variables. -/
structure OwnLists (d : Dims) (o : Owned) : Prop where
  sentinel : o.tables.Sentinel
  wired : Wired d o.tables
  keyed : Keyed d o.tables
  own : ∀ s, Exists d o.tables s → ∀ i, Reaches o.tables s i → o.tables.Live i →
    o.owner i = some (o.tables.keyOf s)
  vars : ∀ key i, RegisteredBy o key i → (key, (o.tables.gmem i).ptr) ∈ o.vars

/-- The call, made in the state `t`, hands out no record that another process points at: an
`add_gmem` that finds no record holding its handle takes an empty one that no other process
reaches. -/
def Op.SparesOthers (d : Dims) (t : Tables) : Op → Prop
  | .addGmem key mem p _ => ∀ j : Nat, firstEmpty d t = some j →
      (∀ s l x, findRnode d t key = some s → Walk t.next (t.Miss mem (mem p)) (t.entry s) l x →
        ¬ t.Hit mem (mem p) x) →
      ∀ s, Exists d t s → t.keyOf s ≠ key → ¬ Reaches t s j
  | _ => True

variable {d : Dims} {t t' t₁ : Tables} {key : PidSt} {mem : HostMem} {h : Handle} {p : Ptr}
  {n : UInt64} {op : Op} {s s' : Nat} {i : Int} {l : List Int} {o o' : Owned} {tr : List Event}
  {reg : List Int} {fuel : Nat}

/-! ## A call stays with its process -/

/-- What a call did to the tables once its process had the slot `s`. -/
structure Touches (d : Dims) (t t' : Tables) (s : Nat) (reg : List Int) : Prop where
  confined : Confined t t' s reg
  slots : slots d t' = slots d t
  rnode : ∀ s', s' ≠ s → t'.rnode s' = t.rnode s'
  ptr : ∀ a, a ∉ reg → t'.Live a → (t'.gmem a).ptr = (t.gmem a).ptr

/-- The records registered have the new variable, the others the old one. -/
theorem Registers.ptr (hr : Registers d t mem s p n t' reg) (i : Int) :
    (i ∈ reg → (t'.gmem i).ptr = p) ∧ (i ∉ reg → (t'.gmem i).ptr = (t.gmem i).ptr) := by
  have hset : ∀ j f, (∀ r : GMem, (f r).ptr = p) →
      (i ∈ [j] → ((t.modifyGmem j f).gmem i).ptr = p) ∧
      (i ∉ [j] → ((t.modifyGmem j f).gmem i).ptr = (t.gmem i).ptr) := by
    intro j f hf
    rw [List.mem_singleton]
    constructor
    · rintro rfl
      rw [modifyGmem_gmem_self]
      exact hf _
    · intro hij
      rw [modifyGmem_gmem_ne hij]
  obtain ⟨l, x, _, ⟨_, j, _, hl, rfl⟩ | ⟨_, _, hl, rfl⟩ | ⟨_, hl, rfl⟩⟩ := hr
  · rw [(hl.ptr_bytes i).1]
    exact hset j _ fun _ => rfl
  · rw [(hl.ptr_bytes i).1]
    simp
  · rw [(hl.ptr_bytes i).1]
    exact hset x _ fun _ => rfl

theorem Registers.touches (hs : t.Sentinel) (hw : Wired d t) (hex : Exists d t s) (hp : p ≠ 0)
    (hr : Registers d t mem s p n t' reg) : Touches d t t' s reg :=
  ⟨hr.confined hs hw hex hp, hr.slots, fun _ => hr.rnode_of_ne, fun a ha _ => (hr.ptr a).2 ha⟩

theorem touches_unlink (hs : t.Sentinel) {x : Int}
    (hwalk : Walk t.next (t.Miss mem h) (t.entry s) l x) (hhit : t.Hit mem h x) :
    Touches d t (unlink t (prevOf (-1) l) x) s [] := by
  refine ⟨confined_unlink hs hwalk hhit, ?_, ?_, ?_⟩
  · apply slots_congr
    intro s' _
    rw [unlink_rnode]
  · intro s' _
    rw [unlink_rnode]
  · intro a _ hlive
    have hax := (unlink_live.mp hlive).1
    by_cases hp : prevOf (-1) l ≠ -1 ∧ a = prevOf (-1) l
    · rw [hp.2, unlink_gmem_prev (hp.2 ▸ hax) hp.1]
      rfl
    · rw [unlink_gmem_ne hax fun hne he => hp ⟨hne, he⟩]

/-! ## The invariant -/

theorem reaches_congr (hg : t'.gmem = t.gmem) (he : t'.entry s = t.entry s) :
    Reaches t' s i ↔ Reaches t s i := by
  have hnext : t'.next = t.next := by
    funext a
    unfold Tables.next
    rw [hg]
  have hlive : t'.Live = t.Live := by
    funext a
    unfold Tables.Live
    rw [hg]
  unfold Reaches Tables.Chain
  rw [he, hnext, hlive]

theorem Acquires.reaches_iff (hacq : Acquires d t key s t₁) (hne : s' ≠ s) :
    Reaches t₁ s' i ↔ Reaches t s' i := reaches_congr hacq.gmem (hacq.entry_of_ne hne)

/-- The slot a process acquires is not another's. -/
theorem Acquires.ne_of_keyOf_ne (hacq : Acquires d t key s t₁) (hex : Exists d t s')
    (hkey : t.keyOf s' ≠ key) : s' ≠ s := by
  rintro rfl
  rcases hacq with ⟨hfind, _⟩ | ⟨hfind, hpos, _⟩
  · exact hkey (findRnode_eq_some hfind).2
  · exact not_exists_of_insertPos hfind hpos hex

/-- A process that acquires a slot reaches nothing from it yet, or has had it before. -/
theorem OwnLists.acquire (ho : OwnLists d o) (hacq : Acquires d o.tables key s t₁) :
    OwnLists d { o with tables := t₁ } := by
  have hs₁ : t₁.Sentinel := ho.sentinel.congr (by rw [hacq.gmem])
  refine ⟨hs₁, hacq.wired ho.wired, hacq.keyed ho.keyed, ?_, ?_⟩
  · intro s' hs' i hreach hlive
    by_cases hne : s' = s
    · subst hne
      rcases hacq with ⟨_, rfl⟩ | ⟨_, _, rfl⟩
      · exact ho.own s' hs' i hreach hlive
      · obtain ⟨l, hc⟩ := hreach
        simp only [putRnode_entry_self, RNode.new_resEntryIdx] at hc
        exact absurd hlive (hs₁.not_live_of_walk hc fun _ hi => hi)
    · have hlive' : o.tables.Live i := hacq.live_iff.mp hlive
      have hown := ho.own s' ((hacq.exists_of_ne hne).mp hs') i ((hacq.reaches_iff hne).mp hreach)
        hlive'
      rw [hown]
      show _ = some (t₁.keyOf s')
      rw [keyOf_of_rnode (hacq.rnode_of_ne hne)]
  · intro key' i hreg
    have hreg' : RegisteredBy o key' i := ⟨hacq.live_iff.mp hreg.1, hreg.2⟩
    have hmem := ho.vars key' i hreg'
    show (key', (t₁.gmem i).ptr) ∈ o.vars
    rw [hacq.gmem]
    exact hmem

/-- Two processes reach no record in use together. -/
theorem OwnLists.eq_of_reaches (ho : OwnLists d o) (hex : Exists d o.tables s)
    (hex' : Exists d o.tables s') (hi : Reaches o.tables s i) (hi' : Reaches o.tables s' i)
    (hlive : o.tables.Live i) : s = s' := by
  have hkey := (ho.own s hex i hi hlive).symm.trans (ho.own s' hex' i hi' hlive)
  have hfull := slots_eq_full.mpr ⟨hex, rfl⟩
  have hfull' := slots_eq_full.mpr ⟨hex', (Option.some.inj hkey).symm⟩
  exact ho.keyed.unique s s' _ hfull hfull'

/-- Nothing the call touched is reached by another process. -/
theorem OwnLists.not_reaches (ho : OwnLists d o) (hex : Exists d o.tables s)
    (hc : Confined o.tables t' s reg)
    (hspare : ∀ a ∈ reg, ¬ o.tables.Live a → ∀ s', Exists d o.tables s' → s' ≠ s →
      ¬ Reaches o.tables s' a)
    (hex' : Exists d o.tables s') (hne : s' ≠ s) {a : Int}
    (ha : (Reaches o.tables s a ∧ o.tables.Live a) ∨ a ∈ reg) : ¬ Reaches o.tables s' a := by
  intro hreach
  rcases ha with ⟨hown, hlive⟩ | hreg
  · exact hne (ho.eq_of_reaches hex' hex hreach hown hlive)
  · by_cases hlive : o.tables.Live a
    · exact hne (ho.eq_of_reaches hex' hex hreach (hc.registered a hreg hlive) hlive)
    · exact hspare a hreg hlive s' hex' hne hreach

/-- A process whose records the call did not touch walks as before. -/
theorem Touches.reaches (ht : Touches d t t' s reg) (hne : s' ≠ s)
    (hsame : ∀ a, Reaches t s' a → t'.gmem a = t.gmem a) (hr : Reaches t' s' i) :
    Reaches t s' i := by
  have hentry : t'.entry s' = t.entry s' := entry_of_rnode (ht.rnode s' hne)
  obtain ⟨l, hwalk⟩ := hr
  rw [hentry] at hwalk
  refine ⟨l, hwalk.of_agree ?_⟩
  intro l₁ b hb
  have hb' := hsame b ⟨l₁, hb⟩
  unfold Tables.next Tables.Live
  rw [hb']
  exact ⟨rfl, id⟩

/-- **A call that hands out no record another process points at keeps the invariant.** -/
theorem OwnLists.touch (ho : OwnLists d o) (hex : Exists d o.tables s)
    (hcaller : op.caller = some (o.tables.keyOf s)) (hs' : t'.Sentinel) (hw' : Wired d t')
    (hk' : Keyed d t') (ht : Touches d o.tables t' s reg)
    (hvars : ∀ a ∈ reg, t'.Live a → (o.tables.keyOf s, (t'.gmem a).ptr) ∈ op.vars)
    (hspare : ∀ a ∈ reg, ¬ o.tables.Live a → ∀ s', Exists d o.tables s' → s' ≠ s →
      ¬ Reaches o.tables s' a) :
    OwnLists d (o.after op t' reg) := by
  have hc := ht.confined
  refine ⟨hs', hw', hk', ?_, ?_⟩
  · intro s' hex' i hreach hlive
    have hex₀ := (exists_congr ht.slots).mp hex'
    show (if i ∈ reg then op.caller else o.owner i) = some (t'.keyOf s')
    rw [keyOf_of_slots ht.slots hex₀]
    by_cases hne : s' = s
    · subst hne
      split
      · exact hcaller
      · next hreg =>
        have hlive₀ := (hc.live i hlive).resolve_right hreg
        rcases hc.reaches hreach with hreach₀ | hmem | rfl
        · exact ho.own s' hex₀ i hreach₀ hlive₀
        · exact absurd hmem hreg
        · exact absurd hlive hs'.not_live
    · have hsame : ∀ a, Reaches o.tables s' a → t'.gmem a = o.tables.gmem a := by
        intro a ha
        by_contra hchanged
        exact ho.not_reaches hex hc hspare hex₀ hne (hc.changed a hchanged) ha
      have hreach₀ := ht.reaches hne hsame hreach
      have hlive₀ : o.tables.Live i := by
        unfold Tables.Live at hlive ⊢
        rw [← hsame i hreach₀]
        exact hlive
      rw [if_neg fun hmem => ho.not_reaches hex hc hspare hex₀ hne (Or.inr hmem) hreach₀]
      exact ho.own s' hex₀ i hreach₀ hlive₀
  · intro key' i hreg
    obtain ⟨hlive, howner⟩ := hreg
    have howner : (if i ∈ reg then op.caller else o.owner i) = some key' := howner
    show (key', (t'.gmem i).ptr) ∈ op.vars ++ o.vars
    rw [List.mem_append]
    split at howner
    · next hmem =>
      left
      rw [hcaller] at howner
      rw [← Option.some.inj howner]
      exact hvars i hmem hlive
    · next hmem =>
      right
      rw [ht.ptr i hmem hlive]
      exact ho.vars key' i ⟨(hc.live i hlive).resolve_right hmem, howner⟩

/-! ## Every call from the invariant leaves the others alone -/

theorem OwnLists.leavesOthers {vars : List (PidSt × Ptr)} (ho : OwnLists d o)
    (hacq : Acquires d o.tables key s t₁) (ht : Touches d t₁ t' s reg)
    (hhost : ∀ p, Event.host p ∈ tr → (key, p) ∈ vars ++ o.vars) :
    LeavesOthers d o key vars t' tr := by
  refine ⟨?_, ?_, hhost⟩
  · intro s' hs' hkey
    have hne := hacq.ne_of_keyOf_ne hs' hkey
    rw [ht.rnode s' hne]
    exact hacq.rnode_of_ne hne
  · intro key' i hkey hreg
    by_contra hchanged
    have ho₁ := ho.acquire hacq
    have hlive : t₁.Live i := hacq.live_iff.mpr hreg.1
    rw [← hacq.gmem] at hchanged
    -- a record in use that the call touched is one its process reaches, so its own
    have hreach : Reaches t₁ s i := by
      rcases ht.confined.changed i hchanged with ⟨hreach, _⟩ | hmem
      · exact hreach
      · exact ht.confined.registered i hmem hlive
    have hown := ho₁.own s hacq.exists_self i hreach hlive
    have howner := hreg.2.symm.trans hown
    exact hkey ((Option.some.inj howner).trans hacq.keyOf_self)

/-- The variables of the records a process reaches are its own. -/
theorem OwnLists.host (ho : OwnLists d o) (hfind : findRnode d o.tables key = some s)
    (hreach : Reaches o.tables s i) (hlive : o.tables.Live i) :
    (key, (o.tables.gmem i).ptr) ∈ o.vars := by
  obtain ⟨hex, hkey⟩ := findRnode_eq_some hfind
  have hown := ho.own s hex i hreach hlive
  rw [hkey] at hown
  exact ho.vars key i ⟨hlive, hown⟩

/-- If the event dereferences a variable, it is one of `key`. -/
def OwnVar (key : PidSt) (vars : List (PidSt × Ptr)) : Event → Prop
  | .host p => (key, p) ∈ vars
  | _ => True

theorem OwnLists.emits (ho : OwnLists d o) (hop : op.IsBook) (hcaller : op.caller = some key) :
    Emits (OwnVar key (op.vars ++ o.vars)) (op.exec d fuel) o.tables := by
  have hgmem : ∀ i, OwnVar key (op.vars ++ o.vars) (.gmem i) := fun _ => trivial
  have hset : ∀ i, OwnVar key (op.vars ++ o.vars) (.setRes i) := fun _ => trivial
  cases op with
  | addGmem key' mem p n =>
      obtain rfl := Option.some.inj hcaller
      refine addGmem_emits hgmem hset ho.sentinel ?_ ?_
      · exact List.mem_append_left _ List.mem_cons_self
      · intro s hfind i hreach hlive
        exact List.mem_append_right _ (ho.host hfind hreach hlive)
  | removeGmem key' mem h =>
      obtain rfl := Option.some.inj hcaller
      refine removeGmem_emits hgmem ho.sentinel ?_
      intro s hfind i hreach hlive
      exact List.mem_append_right _ (ho.host hfind hreach hlive)
  | deleteRnode key' => exact absurd hop id
  | gmemUsed pe => exact absurd hop id

theorem OwnLists.isolated (ho : OwnLists d o) : Isolated d o := by
  intro op key fuel t' tr hop hcaller hr
  have hhost : ∀ p, Event.host p ∈ tr → (key, p) ∈ op.vars ++ o.vars := by
    intro p hp
    exact hr.emits.mp (ho.emits hop hcaller) _ hp
  cases op with
  | addGmem key' mem p n =>
      obtain rfl := Option.some.inj hcaller
      obtain ⟨hp, s, t₁, hacq, hreg⟩ := addGmem_runs ho.sentinel hr
      have ho₁ := ho.acquire hacq
      exact ho.leavesOthers hacq (hreg.touches ho₁.sentinel ho₁.wired hacq.exists_self hp) hhost
  | removeGmem key' mem h =>
      obtain rfl := Option.some.inj hcaller
      obtain ⟨_, ⟨_, rfl⟩ | ⟨s, hfind, l, x, hwalk, ⟨_, rfl⟩ | ⟨hhit, rfl⟩⟩⟩ :=
        removeGmem_runs ho.sentinel hr
      · exact ⟨fun _ _ _ => rfl, fun _ _ _ _ => rfl, hhost⟩
      · exact ⟨fun _ _ _ => rfl, fun _ _ _ _ => rfl, hhost⟩
      · exact ho.leavesOthers (Or.inl ⟨hfind, rfl⟩) (touches_unlink ho.sentinel hwalk hhit) hhost
  | deleteRnode key' => exact absurd hop id
  | gmemUsed pe => exact absurd hop id

/-! ## The condition is exact -/

theorem OwnedStep.step (hstep : OwnedStep d o op o') : Step d o.tables op o'.tables := by
  obtain ⟨fuel, t', tr, hr, rfl⟩ := hstep
  exact ⟨fuel, hr.returns⟩

/-- An `add_gmem` that registered an empty record did so because it found its handle nowhere. -/
theorem Registers.pushed (hr : Registers d t mem s p n t' reg) (hi : i ∈ reg)
    (hempty : ¬ t.Live i) : ∃ j : Nat, i = j ∧ firstEmpty d t = some j ∧
      (∀ l x, Walk t.next (t.Miss mem (mem p)) (t.entry s) l x → ¬ t.Hit mem (mem p) x) ∧
      Links (putNew t j p n) s j t' ∧ reg = [(j : Int)] := by
  obtain ⟨m, y, hwalk, ⟨hy, j, hj, hl, rfl⟩ | ⟨_, _, _, rfl⟩ | ⟨hhit, _, rfl⟩⟩ := hr
  · refine ⟨j, List.mem_singleton.mp hi, hj, ?_, hl, rfl⟩
    intro l x hwalk' hhit
    exact not_findsAt_of_walk hwalk hy ⟨l, hwalk', hhit⟩
  · cases hi
  · rw [List.mem_singleton.mp hi] at hempty
    exact absurd hhit.1 hempty

/-- In the tables with the slot acquired, `Op.SparesOthers` says that an empty record registered is
reached by no other process. -/
theorem Acquires.spares (hacq : Acquires d t key s t₁) (hr : Registers d t₁ mem s p n t' reg)
    (hspare : (Op.addGmem key mem p n).SparesOthers d t) (hi : i ∈ reg) (hempty : ¬ t₁.Live i)
    (hs' : Exists d t₁ s') (hne : s' ≠ s) (hkey : t₁.keyOf s' ≠ key) : ¬ Reaches t₁ s' i := by
  obtain ⟨j, rfl, hj, hnone, _⟩ := hr.pushed hi hempty
  rw [hacq.reaches_iff hne]
  rw [keyOf_of_rnode (hacq.rnode_of_ne hne)] at hkey
  rw [hacq.firstEmpty_eq] at hj
  apply hspare j hj _ s' ((hacq.exists_of_ne hne).mp hs') hkey
  intro s₀ l x hfind
  rcases hacq with ⟨hfind', rfl⟩ | ⟨hfind', _, _⟩
  · rw [hfind] at hfind'
    obtain rfl := Option.some.inj hfind'
    exact hnone l x
  · rw [hfind] at hfind'
    cases hfind'

theorem OwnLists.step (ho : OwnLists d o) (hop : op.IsBook) (hspare : op.SparesOthers d o.tables)
    (hstep : OwnedStep d o op o') : OwnLists d o' := by
  have hsen := hstep.step.sentinel ho.sentinel
  have hwired := hstep.step.wired ho.sentinel ho.wired
  have hkeyed := hstep.step.keyed ho.sentinel ho.keyed hop.isAccounting
  obtain ⟨fuel, t', tr, hr, rfl⟩ := hstep
  cases op with
  | addGmem key mem p n =>
      obtain ⟨hp, s, t₁, hacq, hreg⟩ := addGmem_runs ho.sentinel hr
      have ho₁ := ho.acquire hacq
      have hkey := hacq.keyOf_self
      have ht := hreg.touches ho₁.sentinel ho₁.wired hacq.exists_self hp
      have hcaller : (Op.addGmem key mem p n).caller = some (t₁.keyOf s) := congrArg some hkey.symm
      apply ho₁.touch hacq.exists_self hcaller hsen hwired hkeyed ht
      · intro a ha _
        show (t₁.keyOf s, (t'.gmem a).ptr) ∈ [(key, p)]
        rw [(hreg.ptr a).1 ha, hkey]
        exact List.mem_cons_self
      · intro a ha hempty s' hs' hne
        apply hacq.spares hreg hspare ha hempty hs' hne
        intro hkey'
        have hfull' := slots_eq_full.mpr ⟨hs', hkey'⟩
        exact hne (ho₁.keyed.unique s' s key hfull' hacq.full)
  | removeGmem key mem h =>
      obtain ⟨hreg, hcases⟩ := removeGmem_runs ho.sentinel hr
      have hafter : ∀ t', (o.after (.removeGmem key mem h) t' (registered tr)) =
          { o with tables := t' } := by
        intro t'
        simp [Owned.after, hreg, Op.vars]
      rcases hcases with ⟨_, rfl⟩ | ⟨s, hfind, l, x, hwalk, ⟨_, rfl⟩ | ⟨hhit, rfl⟩⟩
      · rw [hafter]
        exact ho
      · rw [hafter]
        exact ho
      · obtain ⟨hex, hkey⟩ := findRnode_eq_some hfind
        have hcaller : (Op.removeGmem key mem h).caller = some (o.tables.keyOf s) :=
          congrArg some hkey.symm
        rw [hreg]
        apply ho.touch hex hcaller hsen hwired hkeyed (touches_unlink ho.sentinel hwalk hhit)
        · intro a ha
          cases ha
        · intro a ha
          cases ha
  | deleteRnode key => exact absurd hop id
  | gmemUsed pe => exact absurd hop id

/-- **A process that reaches a tail can change it**: it registers a handle that it finds in its
first record, and `link_rnode_gmem` links the tail to that. -/
theorem exists_change_of_tail (hs : t.Sentinel) (hfind : findRnode d t key = some s)
    (hc : t.Chain (t.entry s) l i) (hi : t.Tail i) :
    ∃ (op : Op) (fuel : Nat) (t' : Tables), op.IsBook ∧ op.caller = some key ∧
      Returns (op.exec d fuel) t () t' ∧ t'.gmem i ≠ t.gmem i := by
  have hi1 := ne_sentinel_of_live hs hi.1
  have hone : (1 : Ptr) ≠ 0 := by decide
  have hentry : t.Live (t.entry s) := hc.live_start hi.1
  have hentry1 := ne_sentinel_of_live hs hentry
  have hstart : Walk t.next (t.Miss (fun _ => 0) 0) (t.entry s) [] (t.entry s) := rfl
  have hhit : t.Hit (fun _ => 0) 0 (t.entry s) := ⟨hentry, rfl⟩
  have hfound : Returns (findGmem (l.length + 1) (fun _ => 0) s 0) t _ t :=
    findGmem_of_walk hstart hhit.not_miss (by simp)
  rw [if_pos hentry] at hfound
  let n := (t.gmem i).bytes + 1
  have hn : n ≠ (t.gmem i).bytes := by
    intro he
    simp [n] at he
  let t₂ := t.modifyGmem (t.entry s) (·.setRes 1 n)
  have hs₂ : t₂.Sentinel := hs.modifyGmem hentry1
  have hc₂ : t₂.Chain (t₂.entry s) l i := Chain.setRes hc hone
  have hwalk := notTail_of_chain hs₂ hc₂ hi1
  have htail : t₂.Tail i := by
    by_cases he : i = t.entry s
    · rw [he] at hi ⊢
      exact ⟨(modifyGmem_live_self _).mpr hone, (modifyGmem_next_self _).trans hi.2⟩
    · exact ⟨(modifyGmem_live_ne he).mpr hi.1, (modifyGmem_next_ne he).trans hi.2⟩
  have hentry₂ : t₂.entry s ≠ -1 := hentry1
  have hlen : l.length < l.length + 1 := by omega
  have hlink : Returns (linkRnodeGmem (l.length + 1) s (t.entry s)) t₂ () _ :=
    linkRnodeGmem_of_walk hentry₂ hwalk htail hlen
  have hret := addGmem_of_registerGmem (d := d) (Or.inl ⟨hfind, rfl⟩)
    (registerGmem_of_found hone hfound hentry1 hlink)
  refine ⟨.addGmem key (fun _ => 0) 1 n, l.length + 1, _, trivial, rfl, hret, ?_⟩
  by_cases he : i = t.entry s
  · -- the tail is the first record: its size changes
    rw [if_pos he, he]
    show (t.modifyGmem (t.entry s) (·.setRes 1 n)).gmem (t.entry s) ≠ t.gmem (t.entry s)
    rw [modifyGmem_gmem_self]
    intro hsame
    rw [← he] at hsame
    exact hn (congrArg GMem.bytes hsame)
  · rw [if_neg he, modifyGmem_gmem_self]
    intro hsame
    have hnext : t.entry s = (t.gmem i).next := congrArg GMem.next hsame
    exact hentry1 (hnext.trans hi.2)

/-- An `add_gmem` that finds its handle nowhere takes the lowest empty record. -/
theorem Acquires.pushes {j : Nat} (hs : t.Sentinel) (hacq : Acquires d t key s t₁)
    (hr : Registers d t₁ mem s p n t' reg) (hj : firstEmpty d t = some j)
    (hnone : ∀ s l x, findRnode d t key = some s →
      Walk t.next (t.Miss mem (mem p)) (t.entry s) l x → ¬ t.Hit mem (mem p) x) :
    Links (putNew t₁ j p n) s j t' ∧ reg = [(j : Int)] := by
  obtain ⟨l, x, hwalk, ⟨_, j', hj', hl, hreg⟩ | ⟨_, hfull, _⟩ | ⟨hhit, _⟩⟩ := hr
  · rw [hacq.firstEmpty_eq, hj] at hj'
    rw [← Option.some.inj hj'] at hl hreg
    exact ⟨hl, hreg⟩
  · rw [hacq.firstEmpty_eq, hj] at hfull
    cases hfull
  · exfalso
    rcases hacq with ⟨hfind, rfl⟩ | ⟨_, _, rfl⟩
    · exact hnone s l x hfind hwalk hhit
    · rw [putRnode_entry_self, RNode.new_resEntryIdx] at hwalk
      exact hs.not_live_of_walk hwalk (fun _ hm => hm.1) hhit.1

/-- A record that was pushed ends the list it is linked to. -/
theorem Links.tail_self {j : Int} (hp : p ≠ 0) (hl : Links (putNew t j p n) s j t') :
    t'.Tail j := by
  rcases hl with ⟨_, rfl⟩ | ⟨_, l, r, _, _, ⟨_, rfl⟩ | ⟨hne, rfl⟩⟩
  · exact tail_putNew hp
  · exact tail_putNew hp
  · have hjr : j ≠ r := Ne.symm hne
    exact ⟨(modifyGmem_live_ne hjr).mpr (tail_putNew hp).1,
      (modifyGmem_next_ne hjr).trans (tail_putNew hp).2⟩

/-- The walk of another process is still there after a call that touched no record in use but those
of its own process. -/
theorem OwnLists.chain_of_other {j : Int} (ho : OwnLists d o) (hex : Exists d o.tables s)
    (hex' : Exists d o.tables s') (hne : s' ≠ s) (ht : Touches d o.tables t' s [j])
    (hempty : ¬ o.tables.Live j) (hc : o.tables.Chain (o.tables.entry s') l i) :
    t'.Chain (t'.entry s') l i := by
  have hentry : t'.entry s' = o.tables.entry s' := entry_of_rnode (ht.rnode s' hne)
  rw [hentry]
  apply hc.congr
  intro b hb
  have hblive := hc.live_of_mem b hb
  obtain ⟨l₁, l₂, _, hto, _⟩ := hc.split_at_mem hb
  have hsame : t'.gmem b = o.tables.gmem b := by
    by_contra hchanged
    rcases ht.confined.changed b hchanged with ⟨hown, _⟩ | hmem
    · exact hne (ho.eq_of_reaches hex' hex ⟨l₁, hto⟩ hown hblive)
    · rw [List.mem_singleton] at hmem
      exact hempty (hmem ▸ hblive)
  unfold Tables.next Tables.Live
  rw [hsame]
  exact ⟨rfl, hblive⟩

theorem OwnedStep.sparesOthers (ho : OwnLists d o) (hop : op.IsBook)
    (hstep : OwnedStep d o op o') (hiso : Isolated d o') : op.SparesOthers d o.tables := by
  have hsen := hstep.step.sentinel ho.sentinel
  have hkeyed := hstep.step.keyed ho.sentinel ho.keyed hop.isAccounting
  obtain ⟨fuel, t', tr, hr, rfl⟩ := hstep
  cases op with
  | addGmem key mem p n =>
      intro j hj hnone s' hs' hkey hreach
      obtain ⟨hp, s, t₁, hacq, hreg⟩ := addGmem_runs ho.sentinel hr
      have ho₁ := ho.acquire hacq
      have hne := hacq.ne_of_keyOf_ne hs' hkey
      have hex' := (hacq.exists_of_ne hne).mpr hs'
      have ht := hreg.touches ho₁.sentinel ho₁.wired hacq.exists_self hp
      obtain ⟨hl, hregs⟩ := hacq.pushes ho.sentinel hreg hj hnone
      have hempty : ¬ t₁.Live j := (firstEmpty_eq_some.mp (hacq.firstEmpty_eq.trans hj)).2.1
      -- the walk of the other process to `j` is still there, and `j` ends it
      obtain ⟨l, hc⟩ := (hacq.reaches_iff hne).mpr hreach
      rw [hregs] at ht
      have hc' := ho₁.chain_of_other hacq.exists_self hex' hne ht hempty hc
      have htail : t'.Tail j := hl.tail_self hp
      have hfind : findRnode d t' (t₁.keyOf s') = some s' := by
        apply hkeyed.findRnode_eq_some_iff.mpr
        have hfull := slots_eq_full.mpr ⟨hex', rfl⟩
        rw [← ht.slots] at hfull
        exact slots_eq_full.mp hfull
      obtain ⟨op, fuel', t'', hop', hcaller, ⟨tr', hr'⟩, hchanged⟩ :=
        exists_change_of_tail hsen hfind hc' htail
      -- but the record belongs to the process that was handed it
      have hleaves := hiso op _ fuel' t'' tr' hop' hcaller hr'
      apply hchanged
      refine hleaves.record key j ?_ ⟨htail.1, ?_⟩
      · rw [keyOf_of_rnode (hacq.rnode_of_ne hne)]
        exact Ne.symm hkey
      · show (if (j : Int) ∈ registered tr then some key else o.owner j) = some key
        rw [hregs, if_pos List.mem_cons_self]
  | removeGmem key mem h => trivial
  | deleteRnode key => exact absurd hop id
  | gmemUsed pe => exact absurd hop id

/-- Freshly created tables: no record belongs to anyone. -/
def Owned.initial (t : Tables) : Owned := ⟨t, fun _ => none, []⟩

theorem ownLists_initial (hf : Fresh d t) (hs : t.Sentinel) : OwnLists d (Owned.initial t) := by
  refine ⟨hs, wired_of_fresh hf, keyed_of_fresh hf, ?_, ?_⟩
  · intro s hex
    exact absurd hex (not_exists_of_fresh hf)
  · intro key i hreg
    cases hreg.2

/-- **Which histories isolate the processes.** From every state of a history every further
`add_gmem` or `remove_gmem` leaves the other processes alone exactly when every call of the history
satisfies `Op.SparesOthers` in the state it is made in. -/
theorem isolated_iff_sparesOthers {r : List (Op × Owned)} (hf : Fresh d t) (hs : t.Sentinel)
    (hr : Along (OwnedStep d) (Owned.initial t) r) (hops : ∀ x ∈ r, x.1.IsBook) :
    (∀ o ∈ states (Owned.initial t) r, Isolated d o) ↔
      Along (fun o op _ => op.SparesOthers d o.tables) (Owned.initial t) r := by
  apply Along.states_iff (ownLists_initial hf hs) (hr.and_label hops)
  · intro o ho
    exact ho.isolated
  · intro o op o' ho hstep hspare
    exact ho.step hstep.2 hspare hstep.1
  · intro o op o' ho hstep hiso
    exact hstep.1.sparesOthers ho hstep.2 hiso

/-! ### Computed histories -/

/-- The call of a computed history. -/
def ownedNext (d : Dims) (fuel : Nat) (o : Owned) (op : Op) : Owned :=
  let x := op.exec d fuel o.tables
  o.after op x.state (registered x.trace)

/-- The run that the calls make. -/
def ownedReplay (d : Dims) (fuel : Nat) : Owned → List Op → List (Op × Owned) :=
  trajectory (ownedNext d fuel)

theorem along_ownedReplay {ops : List Op} (hdone : allSteps (ownedNext d fuel)
      (fun o op => (op.exec d fuel o.tables).result.isOk) o ops = true) :
    Along (OwnedStep d) o (ownedReplay d fuel o ops) := by
  apply along_trajectory _ hdone
  intro o op hok
  exact ⟨fuel, _, _, runs_of_isOk hok, rfl⟩

/-- Past a proper list of the only other process an `add_gmem` disturbs nobody. -/
theorem sparesOthers_of_chain {j : Nat} (hs : t.Sentinel) (hj : firstEmpty d t = some j)
    (honly : ∀ s', Exists d t s' → t.keyOf s' ≠ key → s' = s)
    (hc : t.Chain (t.entry s) l (-1)) (hnot : (j : Int) ∉ l) :
    (Op.addGmem key mem p n).SparesOthers d t := by
  intro j' hj' _ s' hex hother
  obtain rfl := Option.some.inj (hj.symm.trans hj')
  obtain rfl := honly s' hex hother
  exact not_reaches_of_chain hs hc hnot (by omega)

theorem sparesOthers_handedOn :
    (Op.addGmem (2, 0) ownAddress 24 200).SparesOthers smallDims (handedOn 1) ∧
    (Op.addGmem (1, 0) ownAddress 32 50).SparesOthers smallDims (handedOn 2) ∧
    (Op.addGmem (2, 0) ownAddress 40 70).SparesOthers smallDims (handedOn 4) := by
  refine ⟨?_, ?_, ?_⟩
  · have hc : (handedOn 1).Chain ((handedOn 1).entry 0) [0] (-1) :=
      chain_single (by decide) (by decide) (by decide)
    refine sparesOthers_of_chain (j := 1) ⟨by decide, by decide⟩ (by decide) ?_ hc (by decide)
    intro s hex _
    rcases slot_smallDims hex with rfl | rfl
    · rfl
    · exact absurd hex.2 (by decide)
  · have hc : (handedOn 2).Chain ((handedOn 2).entry 1) [1] (-1) :=
      chain_single (by decide) (by decide) (by decide)
    refine sparesOthers_of_chain (j := 2) ⟨by decide, by decide⟩ (by decide) ?_ hc (by decide)
    intro s hex hother
    rcases slot_smallDims hex with rfl | rfl
    · exact absurd (by decide) hother
    · rfl
  · -- the second record of the first process is empty again
    have hc : (handedOn 4).Chain ((handedOn 4).entry 0) [0] (-1) :=
      chain_single (by decide) (by decide) (by decide)
    refine sparesOthers_of_chain (j := 2) ⟨by decide, by decide⟩ (by decide) ?_ hc (by decide)
    intro s hex hother
    rcases slot_smallDims hex with rfl | rfl
    · rfl
    · exact absurd (by decide) hother

theorem isolated_recordHandedOn :
    Isolated smallDims (final (Owned.initial initialTables)
      (ownedReplay smallDims 3 (Owned.initial initialTables) recordHandedOn)) := by
  have hr : Along (OwnedStep smallDims) (Owned.initial initialTables)
      (ownedReplay smallDims 3 (Owned.initial initialTables) recordHandedOn) :=
    along_ownedReplay (by decide)
  have hops : ∀ x ∈ ownedReplay smallDims 3 (Owned.initial initialTables) recordHandedOn,
      x.1.IsBook := by
    exact forall_label_trajectory.mpr (by simp [recordHandedOn, Op.IsBook])
  obtain ⟨hsecond, hthird, hlast⟩ := sparesOthers_handedOn
  refine (isolated_iff_sparesOthers (fresh_initialTables _) sentinel_initialTables hr hops).mpr ?_ _
    (final_mem_states _ _)
  refine ⟨?_, hsecond, hthird, trivial, hlast, trivial⟩
  intro j _ _ s hex
  exact absurd hex (not_exists_of_fresh (fresh_initialTables smallDims))

/-- A process allocates and releases, and another one is handed its record. -/
def reusedRecord : List Op :=
  [.addGmem (1, 0) ownAddress 16 100, .removeGmem (1, 0) ownAddress 16,
   .addGmem (2, 0) ownAddress 24 200]

def afterReuse : Owned :=
  final (Owned.initial initialTables)
    (ownedReplay smallDims 2 (Owned.initial initialTables) reusedRecord)

/-- **The processes are not isolated**: the first process still points at the record the second one
was handed, and some further call of it changes that record. -/
theorem not_isolated_of_reuse :
    ¬ ∀ (d : Dims) (t : Tables) (r : List (Op × Owned)), Fresh d t → t.Sentinel →
      Along (OwnedStep d) (Owned.initial t) r → (∀ x ∈ r, x.1.IsBook) →
      ∀ o ∈ states (Owned.initial t) r, Isolated d o := by
  intro hall
  have hr : Along (OwnedStep smallDims) (Owned.initial initialTables)
      (ownedReplay smallDims 2 (Owned.initial initialTables) reusedRecord) :=
    along_ownedReplay (by decide)
  have hops : ∀ x ∈ ownedReplay smallDims 2 (Owned.initial initialTables) reusedRecord,
      x.1.IsBook := by
    exact forall_label_trajectory.mpr (by simp [reusedRecord, Op.IsBook])
  have hiso := hall smallDims initialTables _ (fresh_initialTables _) sentinel_initialTables hr hops
    afterReuse (final_mem_states _ _)
  have hs : afterReuse.tables.Sentinel := ⟨by decide, by decide⟩
  have hfind : findRnode smallDims afterReuse.tables (1, 0) = some 0 := by decide
  have hc : afterReuse.tables.Chain (afterReuse.tables.entry 0) [] 0 :=
    (by decide : afterReuse.tables.entry 0 = 0)
  have htail : afterReuse.tables.Tail 0 := ⟨by decide, by decide⟩
  obtain ⟨op, fuel, t', hop, hcaller, ⟨tr, hrun⟩, hchanged⟩ :=
    exists_change_of_tail hs hfind hc htail
  have hleaves := hiso op _ fuel t' tr hop hcaller hrun
  have howner : afterReuse.owner 0 = some (2, 0) := by decide
  exact hchanged (hleaves.record (2, 0) 0 (by decide) ⟨htail.1, howner⟩)

end Vcuda.RNM
