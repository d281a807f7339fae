import Vcuda.Rnm.Termination
import Vcuda.Rnm.Chained

/-!
# What one call is for

The contracts of the book-keeping calls, over separate chains (`Chained`): `remove_gmem` takes
exactly the record of its handle off the list, `add_gmem` of a recorded handle rewrites that record
in place, and `add_gmem` of a new handle appends one record.

The third holds (`addGmem_appends`). The other two hold at one end of the list only: a record is
taken off unless it is the first (`removeGmem_removes_iff`), and rewritten in place only if it is
the last (`addGmem_updates_iff`).
-/

namespace Vcuda.RNM

open Traced Tables

variable {d : Dims} {t t' t₁ : Tables} {key : PidSt} {mem : HostMem} {h : Handle} {p : Ptr}
  {n : UInt64} {s s' : Nat} {g i j x : Int} {c : Nat → List Int} {l : List Int}

/-! ## Removing -/

/-- The record `x` has gone from the list of the process in slot `s`, and nothing else has
happened. -/
structure Removed (d : Dims) (t t' : Tables) (c : Nat → List Int) (s : Nat) (x : Int) : Prop where
  /-- The list is the old one without the record, in the same order. -/
  chain : ∃ l₁ l₂, c s = l₁ ++ x :: l₂ ∧ t'.Chain (t'.entry s) (l₁ ++ l₂) (-1)
  empty : (t'.gmem x).empty = true
  /-- `push_gmem` gets no further than this record. -/
  available : InRange d x → ∃ j : Nat, firstEmpty d t' = some j ∧ (j : Int) ≤ x
  /-- No process points at the record or gets to it. -/
  unreached : ∀ s', Exists d t' s' → ∀ l i, Walk t'.next (fun _ => True) (t'.entry s') l i → i ≠ x
  contents : ∀ i, i ≠ x → (t'.gmem i).ptr = (t.gmem i).ptr ∧ (t'.gmem i).bytes = (t.gmem i).bytes
  /-- Of the other records only the one before it on the list is linked anew. -/
  records : ∀ i, i ≠ x → i ∉ c s ∨ t.next i ≠ x → t'.gmem i = t.gmem i
  slot : t'.rnode s = (t.rnode s).setRecEntry (t'.entry s)
  slots : ∀ s', s' ≠ s → t'.rnode s' = t.rnode s'

/-- `remove_gmem` takes a record of the handle off the list of its process, or, when there is none,
changes nothing. -/
def RemovesExactly (d : Dims) (t : Tables) (c : Nat → List Int) (key : PidSt) (mem : HostMem)
    (h : Handle) : Prop :=
  ∃ fuel t', Returns (removeGmem d fuel key mem h) t () t' ∧
    ((∃ s x, findRnode d t key = some s ∧ x ∈ c s ∧ t.Hit mem h x ∧ Removed d t t' c s x) ∨
     ((∀ s, findRnode d t key = some s → ∀ x ∈ c s, ¬ t.Hit mem h x) ∧ t' = t))

theorem firstEmpty_le (hx : InRange d x) (hempty : ¬ t.Live x) :
    ∃ j : Nat, firstEmpty d t = some j ∧ (j : Int) ≤ x := by
  cases hj : firstEmpty d t with
  | none => exact absurd (firstEmpty_eq_none.mp hj x hx) hempty
  | some j =>
      refine ⟨j, rfl, ?_⟩
      by_contra hlt
      exact hempty ((firstEmpty_eq_some.mp hj).2.2 x hx.1 (by omega))

/-- A record behind another is taken off as it should. -/
theorem removed_of_hit {b : Int} {l₀ : List Int} (hs : t.Sentinel) (hc : Chained d t c)
    (hex : Exists d t s) (hwalk : Walk t.next (t.Miss mem h) (t.entry s) (l₀ ++ [b]) x)
    (hhit : t.Hit mem h x) : Removed d t (unlink t b x) c s x := by
  obtain ⟨l₂, hl, _⟩ := hc.split_at_hit hs hex hwalk hhit
  have hl' : c s = l₀ ++ b :: x :: l₂ := by simp [hl]
  obtain ⟨_, hb, hbx⟩ := Walk.of_snoc hwalk
  have hc' := hc.unlink hs hex hl'
  have hs' : (unlink t b x).Sentinel := sentinel_unlink hs hhit.1
  have hempty : ¬ (unlink t b x).Live x := fun hlive => (unlink_live.mp hlive).1 rfl
  have hxb : b ≠ x := by
    rintro rfl
    exact hhit.not_miss hb
  refine ⟨⟨l₀ ++ [b], l₂, hl, ?_⟩, empty_iff_not_live.mpr hempty, ?_, ?_, ?_, ?_, ?_, ?_⟩
  · have hchain := hc'.chain s (unlink_exists.mpr hex)
    rw [Function.update_self] at hchain
    simpa using hchain
  · exact fun hx => firstEmpty_le hx hempty
  · intro s' hs₀ l i hto
    rcases hc'.reached hs' hs₀ hto with hi | rfl
    · rintro rfl
      exact hempty (hc'.live hs₀ hi)
    · exact (ne_sentinel_of_live hs hhit.1).symm
  · intro i hi
    refine ⟨?_, unlink_bytes b x i⟩
    by_cases hib : i = b
    · subst hib
      rw [unlink_gmem_prev hxb (ne_sentinel_of_live hs hb.1), GMem.setNext_ptr]
    · rw [unlink_gmem_ne hi fun _ => hib]
  · intro i hi hother
    apply unlink_gmem_ne hi
    rintro _ rfl
    rcases hother with hmem | hnext
    · exact hmem (by simp [hl'])
    · exact hnext hbx
  · rw [unlink_entry, unlink_rnode]
    rfl
  · intro s' _
    rw [unlink_rnode]

theorem removesExactly_of_notFirst (hs : t.Sentinel) (hc : Chained d t c)
    (hfirst : ∀ s, findRnode d t key = some s → ¬ t.Hit mem h (t.entry s)) :
    RemovesExactly d t c key mem h := by
  cases hfind : findRnode d t key with
  | none =>
      refine ⟨0, t, removeGmem_of_findRnode_none hfind, Or.inr ⟨?_, rfl⟩⟩
      intro s hs₀
      rw [hfind] at hs₀
      cases hs₀
  | some s =>
      have hex := (findRnode_eq_some hfind).1
      obtain ⟨l, x, _, hwalk, hhit | hempty⟩ := exists_search hs (hc.chain s hex) mem h
      · have hr := removeGmem_of_hit hs hfind hwalk hhit
        refine ⟨_, _, hr, Or.inl ⟨s, x, hfind, ?_, hhit, ?_⟩⟩
        · obtain ⟨l₂, hl, _⟩ := hc.split_at_hit hs hex hwalk hhit
          simp [hl]
        · rcases List.eq_nil_or_concat' l with rfl | ⟨l₀, b, rfl⟩
          · -- the walk stopped at the first record
            have hentry : t.entry s = x := hwalk
            exact absurd (hentry ▸ hhit) (hfirst s hfind)
          · rw [prevOf_snoc]
            exact removed_of_hit hs hc hex hwalk hhit
      · refine ⟨_, t, removeGmem_of_miss hfind hwalk hempty, Or.inr ⟨?_, rfl⟩⟩
        intro s' hfind'
        rw [hfind] at hfind'
        obtain rfl := Option.some.inj hfind'
        exact hc.not_hit_of_walk hs hex hwalk hempty

/-- The first record is emptied, but its process keeps pointing at it. -/
theorem not_removesExactly_of_first (hs : t.Sentinel) (hc : Chained d t c)
    (hfind : findRnode d t key = some s) (hhit : t.Hit mem h (t.entry s)) :
    ¬ RemovesExactly d t c key mem h := by
  rintro ⟨fuel, t', hr, hspec⟩
  have hex := (findRnode_eq_some hfind).1
  have hstart : Walk t.next (t.Miss mem h) (t.entry s) [] (t.entry s) := rfl
  have hentry := ne_sentinel_of_live hs hhit.1
  have hstep : Step d t (.removeGmem key mem h) t' := ⟨fuel, hr⟩
  have ht' : t' = unlink t (-1) (t.entry s) := step_removeGmem_of_hit hs hfind hstart hhit hstep
  subst ht'
  rcases hspec with ⟨s', x, hfind', _, _, hrem⟩ | ⟨hnone, _⟩
  · rw [hfind] at hfind'
    obtain rfl := Option.some.inj hfind'
    obtain ⟨l₁, l₂, _, hchain⟩ := hrem.chain
    exact not_chain_of_unlink_head rfl hentry ⟨_, hchain⟩
  · -- the first record is on the list
    have hmem : t.entry s ∈ c s := by
      obtain ⟨l₂, hl, _⟩ := hc.split_at_hit hs hex hstart hhit
      simp [hl]
    exact hnone s hfind (t.entry s) hmem hhit

/-- **`remove_gmem` removes exactly the record of its handle unless it is the first of the
list.** -/
theorem removeGmem_removes_iff (hs : t.Sentinel) (hc : Chained d t c) :
    RemovesExactly d t c key mem h ↔
      ∀ s, findRnode d t key = some s → ¬ t.Hit mem h (t.entry s) := by
  constructor
  · intro hrem s hfind hhit
    exact not_removesExactly_of_first hs hc hfind hhit hrem
  · exact removesExactly_of_notFirst hs hc

theorem findRnode_twoRecords : findRnode smallDims twoRecords (1, 0) = some 0 := by decide

theorem hit_twoRecords (h : Handle) (hx : x ∈ ([0, 1] : List Int))
    (hhit : twoRecords.Hit ownAddress h x) : (x = 0 ∧ h = 16) ∨ (x = 1 ∧ h = 24) := by
  have hzero : ownAddress (twoRecords.gmem 0).ptr = 16 := by decide
  have hone : ownAddress (twoRecords.gmem 1).ptr = 24 := by decide
  rcases List.mem_pair.mp hx with rfl | rfl
  · exact Or.inl ⟨rfl, hhit.2.symm.trans hzero⟩
  · exact Or.inr ⟨rfl, hhit.2.symm.trans hone⟩

theorem only_first_twoRecords :
    ∀ y ∈ ([0, 1] : List Int), twoRecords.Hit ownAddress 16 y → y = 0 := by
  intro y hy hhit
  rcases hit_twoRecords _ hy hhit with ⟨rfl, _⟩ | ⟨_, hne⟩
  · rfl
  · exact absurd hne (by decide)

theorem only_second_twoRecords :
    ∀ y ∈ ([0, 1] : List Int), twoRecords.Hit ownAddress 24 y → y = 1 := by
  intro y hy hhit
  rcases hit_twoRecords _ hy hhit with ⟨_, hne⟩ | ⟨rfl, _⟩
  · exact absurd hne (by decide)
  · rfl

theorem removeGmem_removes_second :
    RemovesExactly smallDims twoRecords (fun _ => [0, 1]) (1, 0) ownAddress 24 := by
  refine (removeGmem_removes_iff sentinel_twoRecords chained_twoRecords).mpr ?_
  intro s hfind
  rw [findRnode_twoRecords] at hfind
  obtain rfl := Option.some.inj hfind
  intro hhit
  exact absurd hhit.2 (by decide)

/-- **A first record is not removed as it should be.** -/
theorem not_removesExactly :
    ¬ ∀ (d : Dims) (t : Tables) (c : Nat → List Int) (key : PidSt) (mem : HostMem) (h : Handle),
      t.Sentinel → Chained d t c →
      (∀ s, findRnode d t key = some s → ∀ x ∈ c s, ∀ y ∈ c s, t.Hit mem h x → t.Hit mem h y →
        x = y) →
      RemovesExactly d t c key mem h := by
  intro hall
  have hhit : twoRecords.Hit ownAddress 16 (twoRecords.entry 0) := ⟨by decide, by decide⟩
  apply not_removesExactly_of_first sentinel_twoRecords chained_twoRecords findRnode_twoRecords hhit
  apply hall _ _ _ _ _ _ sentinel_twoRecords chained_twoRecords
  intro s _ x hx y hy hhx hhy
  rw [only_first_twoRecords x hx hhx, only_first_twoRecords y hy hhy]

/-! ## Recording a handle again -/

/-- The record `x` holds the variable and the size, and nothing else has happened. -/
structure Rewritten (t t' : Tables) (l : List Int) (s : Nat) (x : Int) (p : Ptr) (n : UInt64) :
    Prop where
  record : t'.gmem x = ⟨p, n, t.next x⟩
  /-- The list has the same records in the same order. -/
  chain : t'.Chain (t'.entry s) l (-1)
  records : ∀ i, i ≠ x → t'.gmem i = t.gmem i
  slots : t'.rnode = t.rnode

/-- `add_gmem` of a handle that the record `x` holds updates that record in place. -/
def UpdatesInPlace (d : Dims) (t : Tables) (l : List Int) (s : Nat) (x : Int) (key : PidSt)
    (mem : HostMem) (p : Ptr) (n : UInt64) : Prop :=
  ∃ fuel t', Returns (addGmem d fuel key mem p n) t () t' ∧ Rewritten t t' l s x p n

/-- The only record of a list that holds the handle is the one a search finds. -/
theorem Chained.walk_of_hit (hs : t.Sentinel) (hc : Chained d t c) (hex : Exists d t s)
    (hx : x ∈ c s) (hhit : t.Hit mem h x) (honly : ∀ y ∈ c s, t.Hit mem h y → y = x) :
    ∃ l, Walk t.next (t.Miss mem h) (t.entry s) l x := by
  obtain ⟨l, y, _, hwalk, hhit' | hempty⟩ := exists_search hs (hc.chain s hex) mem h
  · obtain ⟨l₂, hl, _⟩ := hc.split_at_hit hs hex hwalk hhit'
    have hmem : y ∈ c s := by simp [hl]
    obtain rfl := honly y hmem hhit'
    exact ⟨l, hwalk⟩
  · exact absurd hhit (hc.not_hit_of_walk hs hex hwalk hempty x hx)

theorem rewritten_of_last (hc : t.Chain (t.entry s) l (-1)) (hp : p ≠ 0) :
    Rewritten t (t.modifyGmem x (·.setRes p n)) l s x p n := by
  refine ⟨modifyGmem_gmem_self, Chain.setRes hc hp, ?_, rfl⟩
  intro i hi
  exact modifyGmem_gmem_ne hi

/-- What a call did that found the record `x`. -/
theorem step_addGmem_of_hit {m : List Int} (hs : t.Sentinel) (hfind : findRnode d t key = some s)
    (hwalk : Walk t.next (t.Miss mem (mem p)) (t.entry s) m x) (hhit : t.Hit mem (mem p) x)
    (hstep : Step d t (.addGmem key mem p n) t') :
    ∃ reg, Registers d t mem s p n t' reg ∧ Links (t.modifyGmem x (·.setRes p n)) s x t' := by
  obtain ⟨_, s', t₁, reg, hacq, hr⟩ := step_addGmem hs hstep
  rcases hacq with ⟨hfind', rfl⟩ | ⟨hnone, _⟩
  · rw [hfind] at hfind'
    obtain rfl := Option.some.inj hfind'
    exact ⟨reg, hr, (hr.of_hit hwalk hhit).1⟩
  · rw [hfind] at hnone
    cases hnone

theorem updatesInPlace_of_last (hs : t.Sentinel) (hc : Chained d t c)
    (hfind : findRnode d t key = some s) (hp : p ≠ 0) (hx : x ∈ c s) (hhit : t.Hit mem (mem p) x)
    (honly : ∀ y ∈ c s, t.Hit mem (mem p) y → y = x) (hlast : t.next x = -1) :
    UpdatesInPlace d t (c s) s x key mem p n := by
  have hex := (findRnode_eq_some hfind).1
  have hchain := hc.chain s hex
  obtain ⟨m, hwalk⟩ := hc.walk_of_hit hs hex hx hhit honly
  have hended : Ended t s := ⟨c s, hchain⟩
  obtain ⟨fuel, t', hr⟩ := registerGmem_returns (d := d) (n := n) hs hp (Or.inl hended)
  have hadd := addGmem_of_registerGmem (Or.inl ⟨hfind, rfl⟩) hr
  refine ⟨fuel, t', hadd, ?_⟩
  obtain ⟨_, _, hl⟩ := step_addGmem_of_hit hs hfind hwalk hhit ⟨fuel, hadd⟩
  obtain ⟨l₂, hlist, hrest⟩ := hc.split_at_hit hs hex hwalk hhit
  rw [hlast] at hrest
  obtain rfl := eq_nil_of_chain hs hrest
  rw [hlist] at hchain
  obtain rfl := links_last hs hchain hp hl
  rw [hlist]
  exact rewritten_of_last hchain hp

/-- The last record is made to link to the one found, which closes a cycle. -/
theorem not_updatesInPlace_of_notLast (hs : t.Sentinel) (hc : Chained d t c)
    (hfind : findRnode d t key = some s) (hp : p ≠ 0) (hx : x ∈ c s) (hhit : t.Hit mem (mem p) x)
    (honly : ∀ y ∈ c s, t.Hit mem (mem p) y → y = x) (hne : t.next x ≠ -1) :
    ¬ UpdatesInPlace d t (c s) s x key mem p n := by
  rintro ⟨fuel, t', hr, hrew⟩
  have hex := (findRnode_eq_some hfind).1
  obtain ⟨m, hwalk⟩ := hc.walk_of_hit hs hex hx hhit honly
  obtain ⟨reg, hreg, _⟩ := step_addGmem_of_hit hs hfind hwalk hhit ⟨fuel, hr⟩
  have hlive := not_chain_of_registers hs hp (hc.chain s hex) hreg hwalk hhit hne _ _ hrew.chain
  exact (hreg.sentinel hs).not_live hlive

/-- **`add_gmem` of a recorded handle is an in-place update when the record is the last of the list,
and only then.** -/
theorem addGmem_updates_iff (hs : t.Sentinel) (hc : Chained d t c)
    (hfind : findRnode d t key = some s) (hp : p ≠ 0) (hx : x ∈ c s) (hhit : t.Hit mem (mem p) x)
    (honly : ∀ y ∈ c s, t.Hit mem (mem p) y → y = x) :
    UpdatesInPlace d t (c s) s x key mem p n ↔ t.next x = -1 := by
  constructor
  · intro hupd
    by_contra hne
    exact not_updatesInPlace_of_notLast hs hc hfind hp hx hhit honly hne hupd
  · exact updatesInPlace_of_last hs hc hfind hp hx hhit honly

theorem addGmem_updates_second :
    UpdatesInPlace smallDims twoRecords [0, 1] 0 1 (1, 0) ownAddress 24 300 :=
  (addGmem_updates_iff sentinel_twoRecords chained_twoRecords findRnode_twoRecords (by decide)
    (by decide) ⟨by decide, by decide⟩ only_second_twoRecords).mpr (by decide)

/-- **A record that is not the last is not updated in place.** -/
theorem not_updatesInPlace :
    ¬ ∀ (d : Dims) (t : Tables) (c : Nat → List Int) (s : Nat) (x : Int) (key : PidSt)
      (mem : HostMem) (p : Ptr) (n : UInt64), t.Sentinel → Chained d t c →
      findRnode d t key = some s → p ≠ 0 → x ∈ c s → t.Hit mem (mem p) x →
      (∀ y ∈ c s, t.Hit mem (mem p) y → y = x) → UpdatesInPlace d t (c s) s x key mem p n := by
  intro hall
  have hhit : twoRecords.Hit ownAddress (ownAddress 16) 0 := ⟨by decide, by decide⟩
  have hupd := hall _ _ _ _ _ _ _ 16 300 sentinel_twoRecords chained_twoRecords
    findRnode_twoRecords (by decide) (by decide) hhit only_first_twoRecords
  exact not_updatesInPlace_of_notLast sentinel_twoRecords chained_twoRecords findRnode_twoRecords
    (by decide) (by decide) hhit only_first_twoRecords (by decide) hupd

/-! ## Recording a new handle -/

/-- The lists `c` are separate chains of distinct records of the table, and `find_rnode` finds every
process. -/
structure WellFormed (d : Dims) (t : Tables) (c : Nat → List Int) : Prop extends
    Chained d t c where
  nodup : ∀ s, Exists d t s → (c s).Nodup
  inRange : ∀ s, Exists d t s → ∀ g ∈ c s, InRange d g
  distinct : ∀ s s', Exists d t s → Exists d t s' → t.keyOf s = t.keyOf s' → s = s'
  found : ∀ s, Exists d t s → findRnode d t (t.keyOf s) = some s

/-- The process `key`, in slot `s`, has got one record more, `j`, and nothing else has happened. -/
structure Appended (d : Dims) (t t' : Tables) (c : Nat → List Int) (key : PidSt) (s : Nat)
    (j : Int) (p : Ptr) (n : UInt64) : Prop where
  slot : Exists d t' s ∧ t'.keyOf s = key
  /-- The slot was that of the process, or it was free and the process had none. -/
  origin : (Exists d t s ∧ t.keyOf s = key) ∨
    (¬ Exists d t s ∧ ∀ s', Exists d t s' → t.keyOf s' ≠ key)
  free : InRange d j ∧ ¬ t.Live j
  /-- The list is the old one and the record behind it. -/
  chain : t'.Chain (t'.entry s) (listOf d t c s ++ [j]) (-1)
  record : t'.gmem j = ⟨p, n, -1⟩
  contents : ∀ i, i ≠ j → (t'.gmem i).ptr = (t.gmem i).ptr ∧ (t'.gmem i).bytes = (t.gmem i).bytes
  records : ∀ i, i ≠ j → i ∉ listOf d t c s → t'.gmem i = t.gmem i
  slots : ∀ s', s' ≠ s → t'.rnode s' = t.rnode s'
  others : ∀ s', s' ≠ s → Exists d t s' → t'.Chain (t'.entry s') (c s') (-1)
  wellFormed : WellFormed d t' (Function.update c s (listOf d t c s ++ [j]))

theorem WellFormed.keyed (hw : WellFormed d t c) : Keyed d t := keyed_of_found hw.found

theorem Acquires.origin (hw : WellFormed d t c) (hacq : Acquires d t key s t₁) :
    (Exists d t s ∧ t.keyOf s = key) ∨
      (¬ Exists d t s ∧ ∀ s', Exists d t s' → t.keyOf s' ≠ key) := by
  rcases hacq with ⟨hfind, _⟩ | ⟨hfind, hpos, _⟩
  · exact Or.inl (findRnode_eq_some hfind)
  · right
    refine ⟨not_exists_of_insertPos hfind hpos, ?_⟩
    rintro s' hex rfl
    rw [hw.found s' hex] at hfind
    cases hfind

/-- A record pushed behind the list of a process leaves the state well formed. -/
theorem WellFormed.push {j : Nat} (hs : t.Sentinel) (hw : WellFormed d t c) (hp : p ≠ 0)
    (hacq : Acquires d t key s t₁) (hj : firstEmpty d t₁ = some j)
    (hl : Links (putNew t₁ j p n) s j t') :
    WellFormed d t' (Function.update c s (listOf d t c s ++ [(j : Int)])) := by
  have hs₁ : t₁.Sentinel := hs.congr (by rw [hacq.gmem])
  have hjr : InRange d j := inRange_natCast.mpr (firstEmpty_eq_some.mp hj).1
  have hs' : t'.Sentinel := hl.sentinel (hs₁.modifyGmem hjr.ne_sentinel)
  have hk' : Keyed d t' := (hacq.keyed hw.keyed).congr hl.slots
  -- the process gets its slot, and then the record goes behind its list
  have hc' := (hw.toChained.acquire hacq).push hs₁ hacq.exists_self hp hj hl
  rw [Function.update_idem, Function.update_self] at hc'
  refine ⟨hc', ?_, ?_, ?_, ?_⟩
  · intro s' hex
    exact (hc'.chain s' hex).nodup hs'.not_live
  · intro s' hex g hg
    by_cases hne : s' = s
    · subst hne
      rw [Function.update_self] at hg
      rcases List.mem_append.mp hg with hg | hg
      · obtain ⟨hex₀, hg⟩ := mem_listOf.mp hg
        exact hw.inRange s' hex₀ g hg
      · rw [List.mem_singleton.mp hg]
        exact hjr
    · rw [Function.update_of_ne hne] at hg
      have hrnode := (hl.rnode_of_ne hne).trans (hacq.rnode_of_ne hne)
      exact hw.inRange s' ((exists_of_rnode hrnode).mp hex) g hg
  · intro s₁ s₂ hex₁ hex₂ hkey
    exact hk'.unique s₁ s₂ _ (slots_eq_full.mpr ⟨hex₁, hkey⟩) (slots_eq_full.mpr ⟨hex₂, rfl⟩)
  · intro s' hex
    exact hk'.findRnode_eq_some_iff.mpr ⟨hex, rfl⟩

/-- What pushing a record for the process in slot `s` makes of a well-formed state. -/
theorem appended_of_links {j : Nat} (hs : t.Sentinel) (hw : WellFormed d t c) (hp : p ≠ 0)
    (hacq : Acquires d t key s t₁) (hj : firstEmpty d t₁ = some j)
    (hl : Links (putNew t₁ j p n) s j t') : Appended d t t' c key s j p n := by
  have hs₁ : t₁.Sentinel := hs.congr (by rw [hacq.gmem])
  have hjr : InRange d j := inRange_natCast.mpr (firstEmpty_eq_some.mp hj).1
  have hjl : ¬ t.Live j := fun hlive =>
    (firstEmpty_eq_some.mp hj).2.1 (hacq.live_iff.mpr hlive)
  have hw' := hw.push hs hp hacq hj hl
  have hslots : slots d t' = slots d t₁ := hl.slots
  have hfull : slots d t' s = .full key := by
    rw [hslots]
    exact hacq.full
  have hrnode : ∀ s', s' ≠ s → t'.rnode s' = t.rnode s' :=
    fun s' hne => (hl.rnode_of_ne hne).trans (hacq.rnode_of_ne hne)
  obtain ⟨hchain, hrecord, _, hframe⟩ :=
    (hw.toChained.acquire hacq).pushed hs₁ hacq.exists_self hp hj hl
  rw [listOf_of_exists hacq.exists_self] at hframe
  simp only [Function.update_self] at hchain hframe
  refine ⟨slots_eq_full.mp hfull, hacq.origin hw, ⟨hjr, hjl⟩, hchain, hrecord, ?_, ?_, hrnode, ?_,
    hw'⟩
  · intro i hij
    obtain ⟨hptr, hbytes⟩ := hl.ptr_bytes i
    rw [hptr, hbytes, putNew, modifyGmem_gmem_ne hij, hacq.gmem]
    exact ⟨rfl, rfl⟩
  · intro i hij hi
    rw [hframe i hi (by simp [hi, hij]), hacq.gmem]
  · intro s' hne hex
    have hchain' := hw'.chain s' ((exists_of_rnode (hrnode s' hne)).mpr hex)
    rw [Function.update_of_ne hne] at hchain'
    exact hchain'

/-- **`add_gmem` of a new handle appends one record.** -/
theorem addGmem_appends (hs : t.Sentinel) (hw : WellFormed d t c) (hp : p ≠ 0)
    (hempty : ∃ i, InRange d i ∧ ¬ t.Live i)
    (hslot : (∃ s, Exists d t s ∧ t.keyOf s = key) ∨ ∃ s ∈ probes d key, ¬ Exists d t s)
    (hnew : ∀ s, Exists d t s → t.keyOf s = key → ∀ g ∈ c s, mem (t.gmem g).ptr ≠ mem p) :
    ∃ fuel t', Returns (addGmem d fuel key mem p n) t () t' ∧
      ∃ s j, Appended d t t' c key s j p n := by
  have hacq : ∃ s t₁, Acquires d t key s t₁ := by
    refine (acquires_or_full d t key).resolve_right ?_
    rintro ⟨hfind, hpos⟩
    rcases hslot with ⟨s, hex, rfl⟩ | ⟨s, hprobe, hfree⟩
    · rw [hw.found s hex] at hfind
      cases hfind
    · obtain ⟨s', hpos'⟩ := exists_insertPos_of_not_exists (t := t) hprobe hfree
      rw [hpos] at hpos'
      cases hpos'
  obtain ⟨s, t₁, hacq⟩ := hacq
  have hs₁ : t₁.Sentinel := hs.congr (by rw [hacq.gmem])
  have hchain₁ := hacq.chain hw.toChained
  have hended : Ended t₁ s := ⟨_, hchain₁⟩
  obtain ⟨fuel, t', hr⟩ := registerGmem_returns (d := d) (n := n) hs₁ hp (Or.inl hended)
  refine ⟨fuel, t', addGmem_of_registerGmem hacq hr, s, ?_⟩
  obtain ⟨_, hr⟩ := hr
  obtain ⟨_, s', hs', l, x, hwalk, hcase⟩ := registerGmem_runs hs₁ hr
  obtain rfl := Option.some.inj hs'
  rcases hcase with ⟨_, j, hj, hl, _⟩ | ⟨_, hfull, _⟩ | ⟨hhit, _⟩
  · exact ⟨j, appended_of_links hs hw hp hacq hj hl⟩
  · obtain ⟨i, hir, hi⟩ := hempty
    rw [hacq.firstEmpty_eq] at hfull
    exact absurd (firstEmpty_eq_none.mp hfull i hir) hi
  · -- the search can only find a record of the list
    obtain ⟨l₂, hl, _⟩ := chain_split_at_hit hs₁ hchain₁ hwalk hhit.1
    have hmem : x ∈ listOf d t c s := by simp [hl]
    obtain ⟨hex, hx⟩ := mem_listOf.mp hmem
    have hkey : t.keyOf s = key := by
      rcases hacq.origin hw with ⟨_, hkey⟩ | ⟨hfree, _⟩
      · exact hkey
      · exact absurd hex hfree
    have hval := hhit.2
    rw [hacq.gmem] at hval
    exact absurd hval (hnew s hex hkey x hx)

theorem wellFormed_twoRecords : WellFormed smallDims twoRecords fun _ => [0, 1] := by
  refine ⟨chained_twoRecords, ?_, ?_, ?_, ?_⟩
  · intro s _
    decide
  · intro s _ g hg
    rcases List.mem_pair.mp hg with rfl | rfl
    · exact ⟨by decide, by decide⟩
    · exact ⟨by decide, by decide⟩
  · intro s s' hs hs' _
    exact (exists_twoRecords.mp hs).trans (exists_twoRecords.mp hs').symm
  · intro s hs
    obtain rfl := exists_twoRecords.mp hs
    decide

theorem addGmem_appends_third :
    ∃ fuel t', Returns (addGmem smallDims fuel (1, 0) ownAddress 32 300) twoRecords () t' ∧
      ∃ s j, Appended smallDims twoRecords t' (fun _ => [0, 1]) (1, 0) s j 32 300 := by
  apply addGmem_appends sentinel_twoRecords wellFormed_twoRecords (by decide)
  · exact ⟨2, by decide, by decide⟩
  · exact Or.inl ⟨0, by decide, by decide⟩
  · intro s _ _ g hg
    rcases List.mem_pair.mp hg with rfl | rfl
    · decide
    · decide

end Vcuda.RNM
