import Vcuda.Rnm.Chains

/-!
# What the tables depend on

A record holds the address of a variable, and every search loads through it again. So two runs that
make the same calls can part when the application wrote different values into its variables between
them. `TwinStep` runs the same call in two such runs side by side. The tables stay equal exactly as
long as every search finds the same record in both runs (`tablesEqual_iff_sameFinds`): what the
variables hold matters to nothing else, but to that it always matters.
-/

namespace Vcuda.RNM

open Traced Tables

/-- The same call in two runs: what is passed is the same, and so is the handle an `add_gmem` finds
in its variable. Everything else in the memory may differ. -/
inductive Twins : Op → Op → Prop
  | addGmem {key : PidSt} {mem mem' : HostMem} {p : Ptr} {n : UInt64} (hv : mem p = mem' p) :
      Twins (.addGmem key mem p n) (.addGmem key mem' p n)
  | removeGmem {key : PidSt} {mem mem' : HostMem} {h : Handle} :
      Twins (.removeGmem key mem h) (.removeGmem key mem' h)

/-- Two runs side by side, each of which makes its version of the call. -/
structure TwinStep (d : Dims) (ts : Tables × Tables) (ops : Op × Op) (ts' : Tables × Tables) :
    Prop where
  left : Step d ts.1 ops.1 ts'.1
  right : Step d ts.2 ops.2 ts'.2
  twins : Twins ops.1 ops.2

/-- The call finds its handle in the record `x`. -/
def Op.Finds (d : Dims) (t : Tables) : Op → Int → Prop
  | .addGmem key mem p _, x => ∃ s, findRnode d t key = some s ∧ FindsAt t mem (mem p) s x
  | .removeGmem key mem h, x => ∃ s, findRnode d t key = some s ∧ FindsAt t mem h s x
  | _, _ => False

/-- Both versions of the call find the same record, or neither finds one. -/
def SameFind (d : Dims) (t : Tables) (ops : Op × Op) : Prop :=
  ∀ x, ops.1.Finds d t x ↔ ops.2.Finds d t x

variable {d : Dims} {t t' t₁ t₂ : Tables} {key : PidSt} {mem mem' : HostMem} {h : Handle} {p : Ptr}
  {n : UInt64} {s : Nat} {g x y : Int} {l : List Int} {reg reg' : List Int} {ops : Op × Op}

/-! ## Searches -/

/-- A record that would be found in the other memory as well is the one found there. -/
theorem FindsAt.transfer (hx : FindsAt t mem h s x) (hhit : t.Hit mem' h x)
    (hwalk : Walk t.next (t.Miss mem' h) (t.entry s) l y) (hy : ¬ t.Miss mem h y) : x = y := by
  obtain ⟨l', hwalk', _⟩ := hx
  rcases hwalk'.compare hwalk with ⟨_, hxy⟩ | hmem | hmem
  · exact hxy
  · exact absurd (hwalk.live_of_mem x hmem) hhit.not_miss
  · exact absurd (hwalk'.live_of_mem y hmem) hy

/-! ## Linking has one outcome -/

theorem Links.unique (h₁ : Links t s g t₁) (h₂ : Links t s g t₂) : t₁ = t₂ := by
  rcases h₁ with ⟨he, rfl⟩ | ⟨hne, l, r, hwalk, htail, hrest⟩
  · rcases h₂ with ⟨_, rfl⟩ | ⟨hne, _⟩
    · rfl
    · exact absurd he hne
  · rcases h₂ with ⟨he, _⟩ | ⟨_, l', r', hwalk', htail', hrest'⟩
    · exact absurd he hne
    · have hr := (hwalk.unique (not_not.mpr htail) hwalk' (not_not.mpr htail')).2
      subst hr
      rcases hrest with ⟨hg, rfl⟩ | ⟨hg, rfl⟩
      · rcases hrest' with ⟨_, rfl⟩ | ⟨hg', _⟩
        · rfl
        · exact absurd hg hg'
      · rcases hrest' with ⟨hg', _⟩ | ⟨_, rfl⟩
        · exact absurd hg' hg
        · rfl

theorem Acquires.unique {s' : Nat} (h₁ : Acquires d t key s t₁) (h₂ : Acquires d t key s' t₂) :
    s = s' ∧ t₁ = t₂ := by
  rcases h₁ with ⟨hfind, rfl⟩ | ⟨hfind, hpos, rfl⟩
  · rcases h₂ with ⟨hfind', rfl⟩ | ⟨hfind', _, _⟩
    · exact ⟨Option.some.inj (hfind.symm.trans hfind'), rfl⟩
    · cases hfind.symm.trans hfind'
  · rcases h₂ with ⟨hfind', _⟩ | ⟨_, hpos', rfl⟩
    · cases hfind.symm.trans hfind'
    · obtain rfl := Option.some.inj (hpos.symm.trans hpos')
      exact ⟨rfl, rfl⟩

/-- Registering a handle that is found rewrites the record; one that is not found goes into the
lowest empty record, if there is one. -/
theorem Registers.cases_find (hr : Registers d t mem s p n t' reg) :
    (∃ x, FindsAt t mem (mem p) s x ∧ Links (t.modifyGmem x (·.setRes p n)) s x t') ∨
    (∃ l x, Walk t.next (t.Miss mem (mem p)) (t.entry s) l x ∧ ¬ t.Live x ∧
      ((∃ j : Nat, firstEmpty d t = some j ∧ Links (putNew t j p n) s j t') ∨
       (firstEmpty d t = none ∧ t' = t))) := by
  obtain ⟨l, x, hwalk, ⟨hx, j, hj, hl, _⟩ | ⟨hx, hfull, hl, _⟩ | ⟨hhit, hl, _⟩⟩ := hr
  · exact Or.inr ⟨l, x, hwalk, hx, Or.inl ⟨j, hj, hl⟩⟩
  · exact Or.inr ⟨l, x, hwalk, hx, Or.inr ⟨hfull, hl.eq_of_sentinel⟩⟩
  · exact Or.inl ⟨x, ⟨l, hwalk, hhit⟩, hl⟩

/-! ## `add_gmem` -/

/-- After a rewriting the record has the new variable, and the others keep theirs. -/
theorem ptr_of_rewritten (hl : Links (t.modifyGmem x (·.setRes p n)) s x t') :
    (t'.gmem x).ptr = p ∧ ∀ i, i ≠ x → (t'.gmem i).ptr = (t.gmem i).ptr := by
  constructor
  · rw [(hl.ptr_bytes x).1, modifyGmem_gmem_self]
    rfl
  · intro i hi
    rw [(hl.ptr_bytes i).1, modifyGmem_gmem_ne hi]

/-- A record whose variable is the one registered holds the handle, in every memory. -/
theorem hit_of_ptr (hx : t.Live x) (hptr : (t.gmem x).ptr = p) : t.Hit mem (mem p) x :=
  ⟨hx, by rw [hptr]⟩

/-- If both versions lead to the same tables, what the first finds the second finds. -/
theorem Registers.finds_of_eq (hp : p ≠ 0) (hv : mem p = mem' p)
    (h₁ : Registers d t mem s p n t' reg) (h₂ : Registers d t mem' s p n t' reg')
    (hx : FindsAt t mem (mem p) s x) : FindsAt t mem' (mem' p) s x := by
  obtain ⟨l, hwalk, hhit⟩ := id hx
  have hlive : t.Live x := hhit.1
  have hl : Links (t.modifyGmem x (·.setRes p n)) s x t' := (h₁.of_hit hwalk hhit).1
  obtain ⟨hself, hother⟩ := ptr_of_rewritten hl
  rcases h₂.cases_find with ⟨y, hy, hl'⟩ | ⟨l', z, hwalk', hz, ⟨j, hj, hl'⟩ | ⟨_, rfl⟩⟩
  · by_cases hxy : x = y
    · rw [hxy]
      exact hy
    · -- both records already had the variable, so either memory finds the first of them
      obtain ⟨hself', hother'⟩ := ptr_of_rewritten hl'
      have hpx : (t.gmem x).ptr = p := (hother' x hxy).symm.trans hself
      have hpy : (t.gmem y).ptr = p := (hother y (Ne.symm hxy)).symm.trans hself'
      obtain ⟨l', hwalk', hhit'⟩ := hy
      have hmiss : ¬ t.Miss mem (mem p) y := (hit_of_ptr hhit'.1 hpy).not_miss
      rw [hv] at hx hmiss
      exact absurd (hx.transfer (hit_of_ptr hlive hpx) hwalk' hmiss) hxy
  · -- the second version fills a record that the first leaves empty
    have hempty := (firstEmpty_eq_some.mp hj).2.1
    have hjx : (j : Int) ≠ x := fun he => hempty (he ▸ hlive)
    have hptr : (t'.gmem j).ptr = p := by
      rw [(hl'.ptr_bytes j).1, putNew, modifyGmem_gmem_self]
      rfl
    rw [hother j hjx] at hptr
    exact absurd (not_live_iff.mp hempty) (hptr ▸ hp)
  · -- no record is left for the second version; then the first has changed nothing
    rw [hv] at hx
    have hxz := hx.transfer (hit_of_ptr hlive hself) hwalk' (not_miss_of_not_live hz)
    exact absurd hlive (hxz ▸ hz)

theorem Registers.eq_iff (hp : p ≠ 0) (hv : mem p = mem' p)
    (h₁ : Registers d t mem s p n t₁ reg) (h₂ : Registers d t mem' s p n t₂ reg') :
    t₁ = t₂ ↔ ∀ x, FindsAt t mem (mem p) s x ↔ FindsAt t mem' (mem' p) s x := by
  constructor
  · rintro rfl x
    exact ⟨h₁.finds_of_eq hp hv h₂, h₂.finds_of_eq hp hv.symm h₁⟩
  · intro hsame
    rcases h₁.cases_find with ⟨x, hx, hl⟩ | ⟨l, z, hwalk, hz, hpush⟩
    · rcases h₂.cases_find with ⟨y, hy, hl'⟩ | ⟨l', z', hwalk', hz', _⟩
      · obtain rfl := hx.unique ((hsame y).mpr hy)
        exact hl.unique hl'
      · exact absurd ((hsame x).mp hx) (not_findsAt_of_walk hwalk' hz')
    · rcases h₂.cases_find with ⟨y, hy, hl'⟩ | ⟨l', z', _, _, hpush'⟩
      · exact absurd ((hsame y).mpr hy) (not_findsAt_of_walk hwalk hz)
      · rcases hpush with ⟨j, hj, hl⟩ | ⟨hnone, rfl⟩
        · rcases hpush' with ⟨j', hj', hl'⟩ | ⟨hnone, _⟩
          · obtain rfl := Option.some.inj (hj.symm.trans hj')
            exact hl.unique hl'
          · cases hj.symm.trans hnone
        · rcases hpush' with ⟨j', hj', _⟩ | ⟨_, rfl⟩
          · cases hj'.symm.trans hnone
          · rfl

/-- A process without a slot finds nothing, and neither does it in its new slot. -/
theorem finds_addGmem_iff (hs : t.Sentinel) (hacq : Acquires d t key s t₁) :
    (Op.addGmem key mem p n).Finds d t x ↔ FindsAt t₁ mem (mem p) s x := by
  show (∃ s', findRnode d t key = some s' ∧ FindsAt t mem (mem p) s' x) ↔ _
  rcases hacq with ⟨hfind, rfl⟩ | ⟨hfind, _, rfl⟩
  · constructor
    · rintro ⟨s', hs', hx⟩
      obtain rfl := Option.some.inj (hfind.symm.trans hs')
      exact hx
    · intro hx
      exact ⟨s, hfind, hx⟩
  · refine iff_of_false ?_ ?_
    · rintro ⟨s', hs', _⟩
      cases hfind.symm.trans hs'
    · rintro ⟨l, hwalk, hhit⟩
      rw [putRnode_entry_self, RNode.new_resEntryIdx] at hwalk
      exact hs.not_live_of_walk hwalk (fun _ hm => hm.1) hhit.1

theorem addGmem_eq_iff (hs : t.Sentinel) (hv : mem p = mem' p)
    (h₁ : Step d t (.addGmem key mem p n) t₁) (h₂ : Step d t (.addGmem key mem' p n) t₂) :
    t₁ = t₂ ↔ SameFind d t (.addGmem key mem p n, .addGmem key mem' p n) := by
  obtain ⟨hp, s, ta, reg, hacq, hreg⟩ := step_addGmem hs h₁
  obtain ⟨_, s', ta', reg', hacq', hreg'⟩ := step_addGmem hs h₂
  obtain ⟨rfl, rfl⟩ := hacq.unique hacq'
  rw [hreg.eq_iff hp hv hreg']
  refine forall_congr' fun x => ?_
  rw [finds_addGmem_iff hs hacq, finds_addGmem_iff hs hacq]

/-! ## `remove_gmem` -/

/-- If both versions lead to the same tables, what the first finds the second finds. -/
theorem removeGmem_finds_of_eq (hs : t.Sentinel) (h₁ : Step d t (.removeGmem key mem h) t')
    (h₂ : Step d t (.removeGmem key mem' h) t') (hx : (Op.removeGmem key mem h).Finds d t x) :
    (Op.removeGmem key mem' h).Finds d t x := by
  obtain ⟨s, hfind, l, hwalk, hhit⟩ := hx
  have hgone : ¬ t'.Live x := by
    rw [step_removeGmem_of_hit hs hfind hwalk hhit h₁]
    exact fun hlive => (unlink_live.mp hlive).1 rfl
  rcases step_removeGmem hs h₂ with ⟨_, rfl⟩ | ⟨s', l', y, hs', hwalk', ⟨_, rfl⟩ | ⟨hhit', rfl⟩⟩
  · exact absurd hhit.1 hgone
  · exact absurd hhit.1 hgone
  · have hxy : x = y := by
      by_contra hne
      exact hgone (unlink_live.mpr ⟨hne, hhit.1⟩)
    rw [hxy]
    exact ⟨s', hs', l', hwalk', hhit'⟩

theorem removeGmem_eq_iff (hs : t.Sentinel) (h₁ : Step d t (.removeGmem key mem h) t₁)
    (h₂ : Step d t (.removeGmem key mem' h) t₂) :
    t₁ = t₂ ↔ SameFind d t (.removeGmem key mem h, .removeGmem key mem' h) := by
  constructor
  · rintro rfl x
    exact ⟨removeGmem_finds_of_eq hs h₁ h₂, removeGmem_finds_of_eq hs h₂ h₁⟩
  · intro hsame
    rcases step_removeGmem hs h₁ with ⟨hnone, rfl⟩ | ⟨s, l, x, hfind, hwalk, hx⟩
    · rcases step_removeGmem hs h₂ with ⟨_, rfl⟩ | ⟨s', _, _, hs', _⟩
      · rfl
      · cases hnone.symm.trans hs'
    · rcases step_removeGmem hs h₂ with ⟨hnone, _⟩ | ⟨s', l', x', hs', hwalk', hx'⟩
      · cases hfind.symm.trans hnone
      · obtain rfl := Option.some.inj (hfind.symm.trans hs')
        rcases hx with ⟨hx, rfl⟩ | ⟨hhit, rfl⟩
        · rcases hx' with ⟨_, rfl⟩ | ⟨hhit', _⟩
          · rfl
          · obtain ⟨s', hs', hfound⟩ := (hsame x').mpr ⟨s, hfind, l', hwalk', hhit'⟩
            obtain rfl := Option.some.inj (hfind.symm.trans hs')
            exact absurd hfound (not_findsAt_of_walk hwalk hx)
        · obtain ⟨s', hs', l₂, hwalk₂, hhit₂⟩ := (hsame x).mp ⟨s, hfind, l, hwalk, hhit⟩
          obtain rfl := Option.some.inj (hfind.symm.trans hs')
          have ht₂ := step_removeGmem_of_hit hs hfind hwalk₂ hhit₂ h₂
          -- the same record, so also the same one before it
          have hll : l = l₂ := by
            rcases hwalk.compare hwalk₂ with ⟨hll, _⟩ | hmem | hmem
            · exact hll
            · exact absurd (hwalk₂.live_of_mem x hmem) hhit₂.not_miss
            · exact absurd (hwalk.live_of_mem x hmem) hhit.not_miss
          rw [ht₂, hll]

/-! ## Runs side by side -/

theorem twinStep_eq_iff {ts' : Tables × Tables} (hs : t.Sentinel)
    (hstep : TwinStep d (t, t) ops ts') : ts'.1 = ts'.2 ↔ SameFind d t ops := by
  obtain ⟨op₁, op₂⟩ := ops
  obtain ⟨h₁, h₂, htwins⟩ := hstep
  cases htwins with
  | addGmem hv => exact addGmem_eq_iff hs hv h₁ h₂
  | removeGmem => exact removeGmem_eq_iff hs h₁ h₂

/-- **When the tables depend only on the calls.** For two runs side by side from the same tables,
the tables are equal after every call exactly when every call finds the same record in both. -/
theorem tablesEqual_iff_sameFinds {r : List ((Op × Op) × (Tables × Tables))} (hs : t.Sentinel)
    (hr : Along (TwinStep d) (t, t) r) :
    (∀ ts ∈ states (t, t) r, ts.1 = ts.2) ↔
      Along (fun ts ops _ => SameFind d ts.1 ops) (t, t) r := by
  apply Along.states_iff (I := fun ts : Tables × Tables => ts.1 = ts.2 ∧ ts.1.Sentinel) ⟨rfl, hs⟩ hr
  · intro ts hts
    exact hts.1
  · intro ts ops ts' hts hstep hsame
    obtain ⟨t₁, t₂⟩ := ts
    obtain ⟨htt, hs₁⟩ := hts
    have htt : t₁ = t₂ := htt
    subst htt
    exact ⟨(twinStep_eq_iff hs₁ hstep).mpr hsame, hstep.left.sentinel hs₁⟩
  · intro ts ops ts' hts hstep heq
    obtain ⟨t₁, t₂⟩ := ts
    obtain ⟨htt, hs₁⟩ := hts
    have htt : t₁ = t₂ := htt
    subst htt
    exact (twinStep_eq_iff hs₁ hstep).mp heq

/-- The runs that the versions of the calls make. -/
def replayTwins (d : Dims) (fuel : Nat) : Tables × Tables → List (Op × Op) →
    List ((Op × Op) × (Tables × Tables)) :=
  trajectory fun ts ops => ((ops.1.exec d fuel ts.1).state, (ops.2.exec d fuel ts.2).state)

/-- Each of them completes, on both sides. -/
def completeTwins (d : Dims) (fuel : Nat) : Tables × Tables → List (Op × Op) → Bool :=
  allSteps (fun ts ops => ((ops.1.exec d fuel ts.1).state, (ops.2.exec d fuel ts.2).state))
    fun ts ops => (ops.1.exec d fuel ts.1).result.isOk && (ops.2.exec d fuel ts.2).result.isOk

theorem along_replayTwins {fuel : Nat} {ts : Tables × Tables} {calls : List (Op × Op)}
    (hdone : completeTwins d fuel ts calls = true) (htwins : ∀ ops ∈ calls, Twins ops.1 ops.2) :
    Along (TwinStep d) ts (replayTwins d fuel ts calls) := by
  have hsteps : Along (fun ts ops ts' => Step d ts.1 ops.1 ts'.1 ∧ Step d ts.2 ops.2 ts'.2) ts
      (replayTwins d fuel ts calls) := by
    apply along_trajectory _ hdone
    intro ts ops hok
    obtain ⟨hl, hr⟩ := (Bool.and_eq_true _ _).mp hok
    exact ⟨⟨fuel, (runs_of_isOk hl).returns⟩, ⟨fuel, (runs_of_isOk hr).returns⟩⟩
  refine (hsteps.and_label (forall_label_trajectory.mpr htwins)).mono ?_
  intro ts ops ts' hstep
  exact ⟨hstep.1.1, hstep.1.2, hstep.2⟩

/-- A process allocates, with the handle `16` in its variable at `16`, and releases the handle. The
memories are those of the release. -/
def allocateAndRelease (mem mem' : HostMem) : List (Op × Op) :=
  [(.addGmem (1, 0) ownAddress 16 100, .addGmem (1, 0) ownAddress 16 100),
   (.removeGmem (1, 0) mem 16, .removeGmem (1, 0) mem' 16)]

theorem twins_allocateAndRelease (mem mem' : HostMem) :
    ∀ ops ∈ allocateAndRelease mem mem', Twins ops.1 ops.2 :=
  List.forall_mem_cons.mpr ⟨.addGmem rfl,
    List.forall_mem_cons.mpr ⟨.removeGmem, fun _ h => by cases h⟩⟩

/-- Only the variable at `16` matters to the release. -/
theorem finds_afterAllocate (hmem : mem 16 = 16) :
    (Op.removeGmem (1, 0) mem 16).Finds smallDims afterAllocate x ↔ x = 0 := by
  have hslot : findRnode smallDims afterAllocate (1, 0) = some 0 := by decide
  have hentry : afterAllocate.entry 0 = 0 := by decide
  have hptr : (afterAllocate.gmem 0).ptr = 16 := by decide
  have hfound : FindsAt afterAllocate mem 16 0 0 :=
    ⟨[], hentry, by decide, by rw [hptr, hmem]⟩
  constructor
  · rintro ⟨s, hs, hx⟩
    obtain rfl := Option.some.inj (hslot.symm.trans hs)
    exact hx.unique hfound
  · rintro rfl
    exact ⟨0, hslot, hfound⟩

/-- Only the variable that was registered still holds its value. -/
def othersCleared : HostMem := fun p => if p = 16 then 16 else 0

/-- What the calls lead to in the two memories. -/
def afterOthersCleared : Tables × Tables :=
  final (initialTables, initialTables) (replayTwins smallDims 2 (initialTables, initialTables)
    (allocateAndRelease ownAddress othersCleared))

theorem tablesEqual_othersCleared : afterOthersCleared.1 = afterOthersCleared.2 := by
  have hr : Along (TwinStep smallDims) (initialTables, initialTables)
      (replayTwins smallDims 2 (initialTables, initialTables)
        (allocateAndRelease ownAddress othersCleared)) :=
    along_replayTwins (by decide) (twins_allocateAndRelease _ _)
  refine (tablesEqual_iff_sameFinds sentinel_initialTables hr).mpr ?_ _ (final_mem_states _ _)
  refine ⟨fun _ => Iff.rfl, ?_, trivial⟩
  -- the release finds record `0` in both runs
  intro x
  show (Op.removeGmem (1, 0) ownAddress 16).Finds smallDims afterAllocate x ↔
    (Op.removeGmem (1, 0) othersCleared 16).Finds smallDims afterAllocate x
  rw [finds_afterAllocate rfl, finds_afterAllocate (by decide)]

/-- **The tables do not depend on the calls alone**: with the variable cleared before the release,
the record stays. -/
theorem not_tablesEqual_of_cleared :
    ¬ ∀ (d : Dims) (t : Tables) (key : PidSt) (r : List ((Op × Op) × (Tables × Tables))),
      t.Sentinel → Along (TwinStep d) (t, t) r → (∀ x ∈ r, x.1.1.caller = some key) →
      ∀ ts ∈ states (t, t) r, ts.1 = ts.2 := by
  intro hall
  have hr : Along (TwinStep smallDims) (initialTables, initialTables)
      (replayTwins smallDims 2 (initialTables, initialTables)
        (allocateAndRelease ownAddress fun _ => 0)) :=
    along_replayTwins (by decide) (twins_allocateAndRelease _ _)
  have hkey : ∀ x ∈ replayTwins smallDims 2 (initialTables, initialTables)
      (allocateAndRelease ownAddress fun _ => 0), x.1.1.caller = some (1, 0) := by
    apply (forall_label_trajectory (L := fun ops : Op × Op => ops.1.caller = some (1, 0))).mpr
    simp [allocateAndRelease, Op.caller]
  have heq := hall smallDims initialTables (1, 0) _ sentinel_initialTables hr hkey _
    (final_mem_states _ _)
  have hptr := congrArg (fun t : Tables => (t.gmem 0).ptr) heq
  exact absurd hptr (by decide)

end Vcuda.RNM
