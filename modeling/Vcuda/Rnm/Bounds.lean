import Vcuda.Rnm.Total
import Mathlib.Tactic.IntervalCases

/-!
# Which accesses stay in the record table

`-1` is at once the end of a chain, the entry of a process without records and the answer of
`push_gmem` when the table is full. `gmem_used` tests for it before it indexes; `find_gmem`,
`last_rec` and `remove_gmem_by_dptr` index first. `Op.StaysInside` says, of the state before a call,
when no access of the call leaves the table, and `accessesInside_iff_staysInside` that this is
exact. Over histories little is left: the first record of a process is searched for from index
`-1`, so a history stays inside only as long as nothing is registered
(`accessesInside_iff_registersNothing`).

Nothing is assumed here of what lies outside of the table.
-/

namespace Vcuda.RNM

open Traced Tables

/-- The event is not an access to `ptr_gmem` outside of the table. -/
def Inside (d : Dims) (e : Event) : Prop := ∀ i, e.idx? = some i → InRange d i

/-- However far the call gets, it accesses `ptr_gmem` inside of the table only. -/
def AccessesInside (d : Dims) (t : Tables) (op : Op) : Prop :=
  ∀ fuel, Emits (Inside d) (op.exec d fuel) t

/-- A walk from `g` past the indices in `P` gets to indices of the table only. -/
def WalksInside (d : Dims) (t : Tables) (P : Int → Prop) (g : Int) : Prop :=
  ∀ l x, Walk t.next P g l x → InRange d x

/-- The record part of `add_gmem`, for the process in slot `s`: the search for the handle stays in
the table, and so does the search for the last record that follows it. The latter stops at the
record just pushed, the lowest empty one. -/
structure RegistersInside (d : Dims) (t : Tables) (mem : HostMem) (s : Nat) (p : Ptr) : Prop where
  search : WalksInside d t (t.Miss mem (mem p)) (t.entry s)
  hit : ∀ l x, Walk t.next (t.Miss mem (mem p)) (t.entry s) l x → t.Hit mem (mem p) x →
    WalksInside d t t.NotTail (t.entry s)
  pushed : ∀ l x, Walk t.next (t.Miss mem (mem p)) (t.entry s) l x → ¬ t.Live x →
    ∀ j : Nat, firstEmpty d t = some j → WalksInside d t (fun i => t.NotTail i ∧ i ≠ j) (t.entry s)

/-- The inner loop of `gmem_used` for the slot `s` reads the first record of the process, the record
at the slot's index, and the successor of that one. -/
def SumInside (d : Dims) (t : Tables) (s : Nat) (gi : Int) : Prop :=
  gi > -1 → InRange d gi ∧ InRange d s ∧ (t.next s > -1 → InRange d (t.next s))

/-- What the state before the call has to satisfy. -/
def Op.StaysInside (d : Dims) (t : Tables) : Op → Prop
  | .addGmem key mem p _ =>
      p = 0 ∨ (findRnode d t key = none ∧ insertPos d t key = none) ∨
        ∃ s, findRnode d t key = some s ∧ RegistersInside d t mem s p
  | .removeGmem key mem h =>
      ∀ s, findRnode d t key = some s →
        ∀ l x, Walk t.next (t.Miss mem h) (t.entry s) l x → InRange d x ∧ ¬ t.Hit mem h x
  | .deleteRnode _ => True
  | .gmemUsed pe =>
      ∀ s, s < d.lenRnode → Summed t pe s →
        (∀ s', s' < s → Summed t pe s' → ¬ SumLoops t s') → SumInside d t s (t.entry s)

/-- The operation registers an allocation. -/
def Op.IsAdd : Op → Prop
  | .addGmem .. => True
  | _ => False

variable {d : Dims} {t t' : Tables} {key : PidSt} {mem : HostMem} {h : Handle} {p : Ptr}
  {n : UInt64} {s j : Nat} {g x prev : Int} {l : List Int} {fuel : Nat} {tr : List Event}
  {P : Int → Prop} {pe : RNode → Bool}

@[simp] theorem inside_gmem {i : Int} : Inside d (.gmem i) ↔ InRange d i := by
  simp [Inside, Event.idx?]

@[simp] theorem inside_setRes {i : Int} : Inside d (.setRes i) ↔ InRange d i := by
  simp [Inside, Event.idx?]

@[simp] theorem inside_host : Inside d (.host p) := by
  intro i hi
  cases hi

/-! ## Walks, one record at a time -/

theorem walksInside_iff :
    WalksInside d t P g ↔ InRange d g ∧ (P g → WalksInside d t P (t.next g)) := by
  constructor
  · intro hall
    refine ⟨hall [] g rfl, ?_⟩
    intro hg l x hwalk
    exact hall (g :: l) x ⟨rfl, hg, hwalk⟩
  · intro hall l x hwalk
    cases l with
    | nil =>
        have hgx : g = x := hwalk
        exact hgx ▸ hall.1
    | cons a l =>
        obtain ⟨rfl, hg, hrest⟩ := hwalk
        exact hall.2 hg l x hrest

/-- A loop with fuel that checks one index after the other along the walk past `P`. -/
structure Follows (d : Dims) (t : Tables) (P : Int → Prop) (F : Nat → Int → Prop) : Prop where
  zero : ∀ g, F 0 g
  succ : ∀ n g, F (n + 1) g ↔ InRange d g ∧ (P g → F n (t.next g))

theorem Follows.inRange {F : Nat → Int → Prop} (hF : Follows d t P F) (hg : F fuel g)
    (hwalk : Walk t.next P g l x) (hfuel : l.length < fuel) : InRange d x := by
  induction l generalizing g fuel with
  | nil =>
      have hgx : g = x := hwalk
      obtain ⟨fuel, rfl⟩ := Nat.exists_eq_succ_of_ne_zero (Nat.ne_of_gt hfuel)
      exact hgx ▸ ((hF.succ fuel g).mp hg).1
  | cons a l ih =>
      obtain ⟨rfl, ha, hrest⟩ := hwalk
      obtain ⟨fuel, rfl⟩ := Nat.exists_eq_succ_of_ne_zero (Nat.ne_zero_of_lt hfuel)
      exact ih (((hF.succ fuel g).mp hg).2 ha) hrest (Nat.lt_of_succ_lt_succ hfuel)

theorem Follows.of_walksInside {F : Nat → Int → Prop} (hF : Follows d t P F)
    (hw : WalksInside d t P g) : F fuel g := by
  induction fuel generalizing g with
  | zero => exact hF.zero g
  | succ fuel ih =>
      obtain ⟨hg, hnext⟩ := walksInside_iff.mp hw
      exact (hF.succ fuel g).mpr ⟨hg, fun hp => ih (hnext hp)⟩

theorem lastRec_follows :
    Follows d t t.NotTail fun fuel g => Emits (Inside d) (lastRec fuel g) t := by
  refine ⟨fun _ => emits_fail, ?_⟩
  intro fuel g
  rw [lastRec, emits_bind_of_returns (ptrGmem_returns g), ptrGmem_emits, inside_gmem]
  refine and_congr_right fun _ => ?_
  by_cases htail : t.Tail g
  · rw [if_pos (GMem.isTail_iff.mpr htail)]
    exact iff_of_true emits_pure fun hg => absurd htail hg
  · rw [if_neg fun ht => htail (GMem.isTail_iff.mp ht)]
    exact ⟨fun he _ => he, fun he => he htail⟩

theorem findGmemFrom_follows :
    Follows d t (t.Miss mem h) fun fuel g => Emits (Inside d) (findGmemFrom mem h fuel g) t := by
  refine ⟨fun _ => emits_fail, ?_⟩
  intro fuel g
  rw [findGmemFrom, emits_bind_of_returns (ptrGmem_returns g), ptrGmem_emits, inside_gmem]
  refine and_congr_right fun _ => ?_
  by_cases hlive : t.Live g
  · rw [if_neg hlive.not_empty, emits_bind_of_returns (deref_returns hlive)]
    by_cases hd : mem (t.gmem g).ptr = h
    · rw [if_pos hd]
      exact iff_of_true ⟨deref_emits.mpr inside_host, emits_pure⟩ fun hmiss => absurd hd hmiss.2
    · rw [if_neg hd, deref_emits, forall_prop_of_true ⟨hlive, hd⟩]
      exact and_iff_right inside_host
  · rw [if_pos (empty_iff_not_live.mpr hlive)]
    exact iff_of_true emits_pure fun hmiss => absurd hmiss.1 hlive

/-! ## `add_gmem` -/

/-- With records to follow, linking reads where `last_rec` goes. -/
theorem linkRnodeGmem_inside (hw : WalksInside d t t.NotTail (t.entry s)) :
    Emits (Inside d) (linkRnodeGmem fuel s g) t := by
  refine emits_bind.mpr ⟨emits_read, ?_⟩
  intro entry t' tr hr
  obtain ⟨rfl, rfl, _⟩ := runs_read.mp hr
  split
  · exact emits_update
  · refine emits_bind.mpr ⟨lastRec_follows.of_walksInside hw, ?_⟩
    intro r t' tr hr
    obtain ⟨rfl, _, l, hwalk, _⟩ := lastRec_runs hr
    split
    · exact setNext_emits.mpr (inside_gmem.mpr (hw l r hwalk))
    · exact emits_pure

theorem inRange_of_linkRnodeGmem (he : Emits (Inside d) (linkRnodeGmem fuel s g) t)
    (hentry : t.entry s ≠ -1) (hwalk : Walk t.next t.NotTail (t.entry s) l x)
    (hfuel : l.length < fuel) : InRange d x := by
  rw [linkRnodeGmem, emits_bind_of_returns (returns_read _ t), if_neg hentry] at he
  exact lastRec_follows.inRange (emits_bind.mp he.2).1 hwalk hfuel

/-- Once the record `j` is pushed, the search for the last one stops there. -/
theorem walk_putNew_iff (hp : p ≠ 0) :
    Walk (putNew t j p n).next (putNew t j p n).NotTail g l x ↔
      Walk t.next (fun i => t.NotTail i ∧ i ≠ j) g l x := by
  have hne : ∀ i : Int, i ≠ j →
      ((putNew t j p n).next i = t.next i ∧ ((putNew t j p n).NotTail i ↔ t.NotTail i)) := by
    intro i hi
    have hnext : (putNew t j p n).next i = t.next i := modifyGmem_next_ne hi
    refine ⟨hnext, ?_⟩
    unfold NotTail Tail
    rw [hnext, putNew, modifyGmem_live_ne hi]
  constructor
  · intro hwalk
    refine hwalk.congr fun i hi => ?_
    have hnt := hwalk.live_of_mem i hi
    have hij : i ≠ j := by
      rintro rfl
      exact hnt (tail_putNew hp)
    exact ⟨(hne i hij).1.symm, (hne i hij).2.mp hnt, hij⟩
  · intro hwalk
    refine hwalk.congr fun i hi => ?_
    obtain ⟨hnt, hij⟩ := hwalk.live_of_mem i hi
    exact ⟨(hne i hij).1, (hne i hij).2.mpr hnt⟩

/-- Rewriting a record does not change where `last_rec` goes. -/
theorem walk_setRes_iff (hp : p ≠ 0) (hg : t.Live g) {i : Int} :
    Walk (t.modifyGmem g (·.setRes p n)).next (t.modifyGmem g (·.setRes p n)).NotTail i l x ↔
      Walk t.next t.NotTail i l x := by
  have hsame : ∀ i, (t.modifyGmem g (·.setRes p n)).next i = t.next i ∧
      ((t.modifyGmem g (·.setRes p n)).NotTail i ↔ t.NotTail i) := by
    intro i
    unfold NotTail Tail
    by_cases hi : i = g
    · subst hi
      have hnext : (t.modifyGmem i (·.setRes p n)).next i = t.next i := modifyGmem_next_self _
      have hlive : (t.modifyGmem i (·.setRes p n)).Live i ↔ t.Live i := by
        rw [modifyGmem_live_self]
        exact iff_of_true hp hg
      exact ⟨hnext, by rw [hnext, hlive]⟩
    · rw [modifyGmem_next_ne hi, modifyGmem_live_ne hi]
      exact ⟨rfl, Iff.rfl⟩
  constructor
  · intro hwalk
    exact hwalk.congr fun i hi => ⟨(hsame i).1.symm, (hsame i).2.mp (hwalk.live_of_mem i hi)⟩
  · intro hwalk
    exact hwalk.congr fun i hi => ⟨(hsame i).1, (hsame i).2.mpr (hwalk.live_of_mem i hi)⟩

theorem registerGmem_inside (hw : RegistersInside d t mem s p) :
    Emits (Inside d) (registerGmem d fuel mem (some s) p n) t := by
  refine emits_bind.mpr ⟨deref_emits.mpr inside_host, ?_⟩
  intro v t' tr hv
  obtain ⟨hp, rfl, rfl, _⟩ := deref_runs.mp hv
  refine emits_bind.mpr ⟨emits_pure, ?_⟩
  intro s' t' tr hs
  obtain ⟨rfl, rfl, _⟩ := runs_pure.mp hs
  refine emits_bind.mpr ⟨?_, ?_⟩
  · refine emits_bind.mpr ⟨emits_read, ?_⟩
    intro entry t' tr hentry
    obtain ⟨rfl, rfl, _⟩ := runs_read.mp hentry
    exact findGmemFrom_follows.of_walksInside hw.search
  · intro found t' tr hfind
    obtain ⟨_, _, _, _, hentry, hloop, _⟩ := runs_bind.mp hfind
    obtain ⟨rfl, rfl, _⟩ := runs_read.mp hentry
    obtain ⟨rfl, _, l, x, hwalk, hx⟩ := findGmemFrom_runs hloop
    have hxr := hw.search l x hwalk
    split
    · next hneg =>
      have hempty : ¬ t.Live x := by
        rcases hx with ⟨hx, _⟩ | ⟨_, hrx⟩
        · exact hx
        · exact absurd (hrx ▸ hneg) hxr.ne_sentinel
      have hin : ∀ i, InRange d i → Inside d (.gmem i) ∧ Inside d (.setRes i) :=
        fun i hi => ⟨inside_gmem.mpr hi, inside_setRes.mpr hi⟩
      refine emits_bind.mpr ⟨pushGmem_emits hin _, ?_⟩
      intro g t' tr hpush
      rcases pushGmem_runs hpush with ⟨j, hj, rfl, rfl, _⟩ | ⟨hfull, _⟩
      · apply linkRnodeGmem_inside
        intro l' x' hwalk'
        exact hw.pushed l x hwalk hempty j hj l' x' ((walk_putNew_iff hp).mp hwalk')
      · exact absurd (firstEmpty_eq_none.mp hfull x hxr) hempty
    · next hne =>
      obtain ⟨hhit, rfl⟩ := hx.resolve_left fun hx => hne hx.2
      refine emits_bind.mpr ⟨setRes_emits.mpr (inside_setRes.mpr hxr), ?_⟩
      intro _ t' tr hset
      obtain ⟨rfl, _⟩ := setRes_runs.mp hset
      apply linkRnodeGmem_inside
      intro l' x' hwalk'
      exact hw.hit l found hwalk hhit l' x' ((walk_setRes_iff hp hhit.1).mp hwalk')

/-- What the record part of `add_gmem` does once it has its handle and its slot. -/
theorem emits_registerGmem {Q : Event → Prop} (hp : p ≠ 0)
    (he : Emits Q (registerGmem d fuel mem (some s) p n) t) :
    Emits Q (do
      let found ← findGmem fuel mem s (mem p)
      if found = -1 then do
        let gIdx ← pushGmem d (GMem.new p n)
        linkRnodeGmem fuel s gIdx
      else do
        setRes found p n
        linkRnodeGmem fuel s found) t := by
  rw [registerGmem, emits_bind_of_returns (deref_returns hp)] at he
  exact ((emits_bind_of_returns (returns_pure s t)).mp he.2).2

theorem walksInside_of_registerGmem (hp : p ≠ 0)
    (hall : ∀ fuel, Emits (Inside d) (registerGmem d fuel mem (some s) p n) t) :
    WalksInside d t (t.Miss mem (mem p)) (t.entry s) := by
  intro l x hwalk
  have hfind := (emits_bind.mp (emits_registerGmem hp (hall (l.length + 1)))).1
  rw [findGmem, emits_bind_of_returns (returns_read _ t)] at hfind
  exact findGmemFrom_follows.inRange hfind.2 hwalk (by omega)

theorem linkRnodeGmem_of_hit {Q : Event → Prop} (hp : p ≠ 0)
    (he : Emits Q (registerGmem d fuel mem (some s) p n) t)
    (hwalk : Walk t.next (t.Miss mem (mem p)) (t.entry s) l x) (hhit : t.Hit mem (mem p) x)
    (hx : x ≠ -1) (hfuel : l.length < fuel) :
    Emits Q (linkRnodeGmem fuel s x) (t.modifyGmem x (·.setRes p n)) := by
  have hfind := findGmem_of_walk hwalk hhit.not_miss hfuel
  rw [if_pos hhit.1] at hfind
  have hafter := ((emits_bind_of_returns hfind).mp (emits_registerGmem hp he)).2
  rw [if_neg hx] at hafter
  exact ((emits_bind_of_returns (setRes_returns x p n)).mp hafter).2

theorem linkRnodeGmem_of_pushed {Q : Event → Prop} (hp : p ≠ 0)
    (he : Emits Q (registerGmem d fuel mem (some s) p n) t)
    (hwalk : Walk t.next (t.Miss mem (mem p)) (t.entry s) l x) (hempty : ¬ t.Live x)
    (hj : firstEmpty d t = some j) (hfuel : l.length < fuel) :
    Emits Q (linkRnodeGmem fuel s j) (putNew t j p n) := by
  have hfind := findGmem_of_walk hwalk (not_miss_of_not_live hempty) hfuel
  rw [if_neg hempty] at hfind
  have hafter := ((emits_bind_of_returns hfind).mp (emits_registerGmem hp he)).2
  rw [if_pos rfl] at hafter
  exact ((emits_bind_of_returns (pushGmem_of_some hj)).mp hafter).2

theorem registersInside_of_emits (hp : p ≠ 0)
    (hall : ∀ fuel, Emits (Inside d) (registerGmem d fuel mem (some s) p n) t) :
    RegistersInside d t mem s p := by
  have hsearch := walksInside_of_registerGmem hp hall
  have hentry : t.entry s ≠ -1 := (hsearch [] _ rfl).ne_sentinel
  refine ⟨hsearch, ?_, ?_⟩
  · intro l x hwalk hhit l' x' hwalk'
    have hlen : l.length < l.length + l'.length + 1 := by omega
    have hlen' : l'.length < l.length + l'.length + 1 := by omega
    have hx := (hsearch l x hwalk).ne_sentinel
    have hlink := linkRnodeGmem_of_hit hp (hall _) hwalk hhit hx hlen
    exact inRange_of_linkRnodeGmem hlink hentry ((walk_setRes_iff hp hhit.1).mpr hwalk') hlen'
  · intro l x hwalk hempty j hj l' x' hwalk'
    have hlen : l.length < l.length + l'.length + 1 := by omega
    have hlen' : l'.length < l.length + l'.length + 1 := by omega
    have hlink := linkRnodeGmem_of_pushed hp (hall _) hwalk hempty hj hlen
    exact inRange_of_linkRnodeGmem hlink hentry ((walk_putNew_iff hp).mpr hwalk') hlen'

/-- Finding or making the slot reads no record. -/
theorem addGmem_emits_of_acquires {Q : Event → Prop} {t₁ : Tables}
    (hacq : Acquires d t key s t₁) :
    Emits Q (addGmem d fuel key mem p n) t ↔
      Emits Q (registerGmem d fuel mem (some s) p n) t₁ := by
  rw [addGmem, emits_bind_of_returns (returns_read _ t), and_iff_right emits_read]
  rcases hacq with ⟨hfind, rfl⟩ | ⟨hfind, hpos, rfl⟩
  · rw [hfind]
  · have hins : Emits Q (insertRnode d key (RNode.new key.1 key.2 (-1))) t := by
      rw [insertRnode, emits_bind_of_returns (returns_read _ t), hpos]
      exact ⟨emits_read, emits_bind.mpr ⟨emits_update, fun _ _ _ _ => emits_pure⟩⟩
    rw [hfind]
    show Emits Q (insertRnode d key (RNode.new key.1 key.2 (-1)) >>= _) t ↔ _
    rw [emits_bind_of_returns (insertRnode_of_insertPos hpos), and_iff_right hins]

theorem addGmem_emits_of_full {Q : Event → Prop} (hfind : findRnode d t key = none)
    (hpos : insertPos d t key = none) (hhost : Q (.host p)) :
    Emits Q (addGmem d fuel key mem p n) t := by
  have hins : Emits Q (insertRnode d key (RNode.new key.1 key.2 (-1))) t := by
    rw [insertRnode, emits_bind_of_returns (returns_read _ t), hpos]
    exact ⟨emits_read, emits_pure⟩
  rw [addGmem, emits_bind_of_returns (returns_read _ t), hfind]
  refine ⟨emits_read, ?_⟩
  show Emits Q (insertRnode d key (RNode.new key.1 key.2 (-1)) >>= _) t
  rw [emits_bind_of_returns (insertRnode_of_full hpos), and_iff_right hins]
  refine emits_bind.mpr ⟨deref_emits.mpr hhost, ?_⟩
  intro v t' tr _
  exact emits_bind.mpr ⟨emits_fail, fun _ _ _ hr => absurd hr runs_fail⟩

theorem addGmem_inside_iff :
    (∀ fuel, Emits (Inside d) (addGmem d fuel key mem p n) t) ↔
      (Op.addGmem key mem p n).StaysInside d t := by
  rcases acquires_or_full d t key with ⟨s, t₁, hacq⟩ | hfull
  · have hbody : ∀ fuel, Emits (Inside d) (addGmem d fuel key mem p n) t ↔
        Emits (Inside d) (registerGmem d fuel mem (some s) p n) t₁ :=
      fun fuel => addGmem_emits_of_acquires hacq
    constructor
    · intro hall
      by_cases hp : p = 0
      · exact Or.inl hp
      · have hreg : RegistersInside d t₁ mem s p :=
          registersInside_of_emits hp fun fuel => (hbody fuel).mp (hall fuel)
        rcases hacq with ⟨hfind, rfl⟩ | ⟨hfind, hpos, rfl⟩
        · exact Or.inr (Or.inr ⟨s, hfind, hreg⟩)
        · -- a process that just got its slot searches from `-1`
          have hentry := (hreg.search [] _ rfl).ne_sentinel
          rw [putRnode_entry_self] at hentry
          exact absurd rfl hentry
    · rintro (hp | ⟨hnone, hpos⟩ | ⟨s', hs', hw⟩) fuel
      · rw [hbody]
        refine emits_bind.mpr ⟨deref_emits.mpr inside_host, ?_⟩
        intro v t' tr hv
        exact absurd hp (deref_runs.mp hv).1
      · exact addGmem_emits_of_full hnone hpos inside_host
      · rcases hacq with ⟨hfind, rfl⟩ | ⟨hfind, _, _⟩
        · rw [hfind] at hs'
          cases hs'
          exact (hbody fuel).mpr (registerGmem_inside hw)
        · rw [hfind] at hs'
          cases hs'
  · refine iff_of_true ?_ (Or.inr (Or.inl hfull))
    intro fuel
    exact addGmem_emits_of_full hfull.1 hfull.2 inside_host

/-! ## `remove_gmem` -/

/-- One record of `remove_gmem_by_dptr`: after a release it goes to index `-1`. -/
theorem removeGmemByDptr_inside_succ :
    Emits (Inside d) (removeGmemByDptr mem h (fuel + 1) prev g) t ↔
      InRange d g ∧
      (t.Miss mem h g → Emits (Inside d) (removeGmemByDptr mem h fuel g (t.next g)) t) ∧
      (t.Hit mem h g → Emits (Inside d) (unlinkGmem prev g) t ∧
        Emits (Inside d) (removeGmemByDptr mem h fuel g (-1)) (unlink t prev g)) := by
  rw [removeGmemByDptr, emits_bind_of_returns (ptrGmem_returns g), ptrGmem_emits, inside_gmem]
  refine and_congr_right fun hg => ?_
  by_cases hlive : t.Live g
  · rw [if_neg hlive.not_empty, emits_bind_of_returns (deref_returns hlive), deref_emits,
      and_iff_right inside_host]
    by_cases hd : mem (t.gmem g).ptr = h
    · have hhit : t.Hit mem h g := ⟨hlive, hd⟩
      rw [releaseGmem, if_pos hd, emits_bind_of_returns (unlinkGmem_returns prev g),
        emits_bind_of_returns (ptrGmem_returns g), ptrGmem_emits, inside_gmem, and_iff_right hg,
        (unlink_gmem_self prev g).2]
      constructor
      · intro he
        exact ⟨fun hmiss => absurd hmiss hhit.not_miss, fun _ => he⟩
      · intro he
        exact he.2 hhit
    · have hmiss : t.Miss mem h g := ⟨hlive, hd⟩
      rw [releaseGmem, if_neg hd, emits_bind_of_returns (returns_pure () t),
        emits_bind_of_returns (ptrGmem_returns g), ptrGmem_emits, inside_gmem, and_iff_right hg,
        and_iff_right emits_pure]
      constructor
      · intro he
        exact ⟨fun _ => he, fun hhit => absurd hmiss hhit.not_miss⟩
      · intro he
        exact he.1 hmiss
  · rw [if_pos (empty_iff_not_live.mpr hlive)]
    exact iff_of_true emits_pure
      ⟨fun hmiss => absurd hmiss.1 hlive, fun hhit => absurd hhit.1 hlive⟩

theorem removeGmemByDptr_inside_iff :
    (∀ fuel, Emits (Inside d) (removeGmemByDptr mem h fuel prev g) t) ↔
      ∀ l x, Walk t.next (t.Miss mem h) g l x → InRange d x ∧ ¬ t.Hit mem h x := by
  constructor
  · intro hall l x hwalk
    have hone := hall (l.length + 2)
    clear hall
    induction l generalizing prev g with
    | nil =>
        have hgx : g = x := hwalk
        subst hgx
        obtain ⟨hg, _, hhit⟩ := removeGmemByDptr_inside_succ.mp hone
        refine ⟨hg, ?_⟩
        intro hx
        have hsen := (removeGmemByDptr_inside_succ.mp (hhit hx).2).1
        exact hsen.ne_sentinel rfl
    | cons a l ih =>
        obtain ⟨rfl, hmiss, hrest⟩ := hwalk
        exact ih hrest ((removeGmemByDptr_inside_succ.mp hone).2.1 hmiss)
  · intro hall fuel
    induction fuel generalizing prev g with
    | zero => exact emits_fail
    | succ fuel ih =>
        obtain ⟨hg, hnot⟩ := hall [] g rfl
        refine removeGmemByDptr_inside_succ.mpr ⟨hg, ?_, fun hhit => absurd hhit hnot⟩
        intro hmiss
        apply ih
        intro l x hwalk
        exact hall (g :: l) x ⟨rfl, hmiss, hwalk⟩

theorem removeGmem_inside_iff :
    (∀ fuel, Emits (Inside d) (removeGmem d fuel key mem h) t) ↔
      (Op.removeGmem key mem h).StaysInside d t := by
  have hbody : ∀ fuel, Emits (Inside d) (removeGmem d fuel key mem h) t ↔
      ∀ s, findRnode d t key = some s →
        Emits (Inside d) (removeGmemByDptr mem h fuel (-1) (t.entry s)) t := by
    intro fuel
    have hprint : Emits (Inside d) (printGmem d) t :=
      printGmem_emits fun i hi => inside_gmem.mpr hi
    rw [removeGmem, emits_bind_of_returns (printGmem_returns d t), and_iff_right hprint,
      emits_bind_of_returns (returns_read _ t), and_iff_right emits_read]
    cases hfind : findRnode d t key with
    | none => exact iff_of_true emits_pure fun s hs => by cases hs
    | some s =>
        show Emits _ (read _ >>= _) t ↔ _
        rw [emits_bind_of_returns (returns_read _ t), and_iff_right emits_read]
        constructor
        · intro he s' hs'
          cases hs'
          exact he
        · intro he
          exact he s rfl
  constructor
  · intro hall s hs
    exact removeGmemByDptr_inside_iff.mp fun fuel => (hbody fuel).mp (hall fuel) s hs
  · intro hw fuel
    rw [hbody]
    intro s hs
    exact removeGmemByDptr_inside_iff.mpr (hw s hs) fuel

/-! ## `gmem_used` -/

theorem gmemUsedChain_inside_succ {used : UInt64} :
    Emits (Inside d) (gmemUsedChain s (fuel + 1) g used) t ↔
      (g > -1 → InRange d g ∧ InRange d s ∧
        Emits (Inside d) (gmemUsedChain s fuel (t.next s) (used + (t.gmem g).bytes)) t) := by
  rw [gmemUsedChain]
  by_cases hg : g > -1
  · rw [if_pos hg, emits_bind_of_returns (ptrGmem_returns g), ptrGmem_emits, inside_gmem,
      emits_bind_of_returns (ptrGmem_returns s), ptrGmem_emits, inside_gmem]
    exact ⟨fun he _ => he, fun he => he hg⟩
  · rw [if_neg hg]
    exact iff_of_true emits_pure fun hg' => absurd hg' hg

theorem gmemUsedChain_inside {used : UInt64} (hsum : SumInside d t s g) :
    Emits (Inside d) (gmemUsedChain s fuel g used) t := by
  induction fuel generalizing g used with
  | zero => exact emits_fail
  | succ fuel ih =>
      rw [gmemUsedChain_inside_succ]
      intro hg
      obtain ⟨hgr, hs, hnext⟩ := hsum hg
      refine ⟨hgr, hs, ih ?_⟩
      intro hg'
      exact ⟨hnext hg', hs, fun _ => hnext hg'⟩

theorem sumInside_of_emits {used : UInt64}
    (he : Emits (Inside d) (gmemUsedChain s (fuel + 2) g used) t) : SumInside d t s g := by
  intro hg
  obtain ⟨hgr, hs, hrest⟩ := gmemUsedChain_inside_succ.mp he hg
  refine ⟨hgr, hs, ?_⟩
  intro hg'
  exact (gmemUsedChain_inside_succ.mp hrest hg').1

/-- One slot of `gmem_used`. -/
theorem gmemUsed_go_emits {Q : Event → Prop} {i : Nat} {is : List Nat} {used : UInt64} :
    Emits Q (gmemUsed.go fuel pe (i :: is) used) t ↔
      (¬ Summed t pe i → Emits Q (gmemUsed.go fuel pe is used) t) ∧
      (Summed t pe i → Emits Q (gmemUsedChain i fuel (t.entry i) used) t ∧
        ∀ r, Returns (gmemUsedChain i fuel (t.entry i) used) t r t →
          Emits Q (gmemUsed.go fuel pe is r) t) := by
  rw [gmemUsed.go, emits_bind_of_returns (returns_read _ t), and_iff_right emits_read]
  by_cases hsum : Summed t pe i
  · have hcond : (t.rnode i).stat = .EXIST ∧ pe (t.rnode i) = true := hsum
    rw [if_pos hcond, emits_bind]
    constructor
    · intro he
      refine ⟨fun hnot => absurd hsum hnot, fun _ => ⟨he.1, ?_⟩⟩
      rintro r ⟨tr, hr⟩
      exact he.2 r t tr hr
    · intro he
      obtain ⟨hchain, hrest⟩ := he.2 hsum
      refine ⟨hchain, ?_⟩
      intro r t' tr hr
      obtain ⟨rfl, _⟩ := gmemUsedChain_runs hr
      exact hrest r ⟨tr, hr⟩
  · have hcond : ¬ ((t.rnode i).stat = .EXIST ∧ pe (t.rnode i) = true) := hsum
    rw [if_neg hcond]
    exact ⟨fun he => ⟨fun _ => he, fun hyes => absurd hyes hsum⟩, fun he => he.1 hsum⟩

/-- The slots in `is` are summed in order, up to the first one whose sum never ends. -/
def SumsInside (d : Dims) (t : Tables) (pe : RNode → Bool) (is : List Nat) : Prop :=
  ∀ l₁ s l₂, is = l₁ ++ s :: l₂ → Summed t pe s →
    (∀ s' ∈ l₁, Summed t pe s' → ¬ SumLoops t s') → SumInside d t s (t.entry s)

theorem sumsInside_cons {i : Nat} {is : List Nat} :
    SumsInside d t pe (i :: is) ↔
      (Summed t pe i → SumInside d t i (t.entry i)) ∧
      ((Summed t pe i → ¬ SumLoops t i) → SumsInside d t pe is) := by
  constructor
  · intro hall
    refine ⟨?_, ?_⟩
    · intro hsum
      exact hall [] i is rfl hsum fun _ hs => by cases hs
    · intro hi l₁ s l₂ his hsum hbefore
      refine hall (i :: l₁) s l₂ (by rw [his]; rfl) hsum ?_
      exact List.forall_mem_cons.mpr ⟨hi, hbefore⟩
  · rintro ⟨hfirst, hrest⟩ l₁ s l₂ his hsum hbefore
    cases l₁ with
    | nil =>
        obtain ⟨rfl, rfl⟩ := List.cons.inj his
        exact hfirst hsum
    | cons a l₁ =>
        obtain ⟨rfl, rfl⟩ := List.cons.inj his
        obtain ⟨hi, hbefore⟩ := List.forall_mem_cons.mp hbefore
        exact hrest hi l₁ s l₂ rfl hsum hbefore

theorem gmemUsed_go_inside {is : List Nat} {used : UInt64} (hw : SumsInside d t pe is) :
    Emits (Inside d) (gmemUsed.go fuel pe is used) t := by
  induction is generalizing used with
  | nil => exact emits_pure
  | cons i is ih =>
      obtain ⟨hfirst, hrest⟩ := sumsInside_cons.mp hw
      refine gmemUsed_go_emits.mpr ⟨?_, ?_⟩
      · intro hnot
        exact ih (hrest fun hsum => absurd hsum hnot)
      · intro hsum
        refine ⟨gmemUsedChain_inside (hfirst hsum), ?_⟩
        rintro r ⟨tr, hr⟩
        exact ih (hrest fun _ => not_loops_of_gmemUsedChain hr)

/-- Two units of fuel are enough to see it. -/
theorem sumsInside_of_emits {is : List Nat} {used : UInt64}
    (he : Emits (Inside d) (gmemUsed.go (fuel + 2) pe is used) t) : SumsInside d t pe is := by
  induction is generalizing used with
  | nil =>
      intro l₁ s l₂ hnil
      simp at hnil
  | cons i is ih =>
      obtain ⟨hskip, htake⟩ := gmemUsed_go_emits.mp he
      refine sumsInside_cons.mpr ⟨fun hsum => sumInside_of_emits (htake hsum).1, ?_⟩
      intro hloop
      by_cases hsum : Summed t pe i
      · exact ih ((htake hsum).2 _ (gmemUsedChain_returns (hloop hsum)))
      · exact ih (hskip hsum)

theorem sumsInside_range :
    SumsInside d t pe (List.range d.lenRnode) ↔ (Op.gmemUsed pe).StaysInside d t := by
  constructor
  · intro hall s hs hsum hbefore
    have hsplit : List.range d.lenRnode =
        List.range s ++ s :: (List.range (d.lenRnode - s - 1)).map (s + 1 + ·) := by
      have hlen : d.lenRnode = s + 1 + (d.lenRnode - s - 1) := by omega
      rw [hlen, List.range_add, List.range_succ, List.append_assoc, ← hlen]
      rfl
    exact hall _ s _ hsplit hsum fun s' hs' => hbefore s' (List.mem_range.mp hs')
  · intro hall l₁ s l₂ hsplit hsum hbefore
    have hs : s ∈ List.range d.lenRnode := by
      rw [hsplit]
      simp
    refine hall s (List.mem_range.mp hs) hsum ?_
    intro s' hs'
    apply hbefore
    -- what comes before `s` in the range is what is below it
    have hpair := hsplit ▸ List.pairwise_lt_range (n := d.lenRnode)
    have hmem : s' ∈ l₁ ++ s :: l₂ := by
      rw [← hsplit, List.mem_range]
      have := List.mem_range.mp hs
      omega
    rcases List.mem_append.mp hmem with hmem | hmem
    · exact hmem
    · rcases List.mem_cons.mp hmem with rfl | hmem
      · omega
      · have hlt := List.rel_of_pairwise_cons (List.pairwise_append.mp hpair).2.1 hmem
        omega

theorem gmemUsed_inside_iff :
    (∀ fuel, Emits (Inside d) (gmemUsed d fuel pe) t) ↔ (Op.gmemUsed pe).StaysInside d t := by
  rw [← sumsInside_range]
  constructor
  · intro hall
    exact sumsInside_of_emits (hall 2)
  · intro hw fuel
    exact gmemUsed_go_inside hw

/-! ## Single calls and histories -/

/-- **When the accesses of a call stay in the table**, in any state. -/
theorem accessesInside_iff_staysInside {op : Op} : AccessesInside d t op ↔ op.StaysInside d t := by
  cases op with
  | addGmem key mem p n => exact addGmem_inside_iff
  | removeGmem key mem h => exact removeGmem_inside_iff
  | deleteRnode key =>
      refine iff_of_true ?_ trivial
      intro fuel
      show Emits (Inside d) (deleteRnode d key) t
      rw [deleteRnode, emits_bind_of_returns (returns_read _ t)]
      refine ⟨emits_read, ?_⟩
      split
      · exact emits_update
      · exact emits_pure
  | gmemUsed pe =>
      rw [← gmemUsed_inside_iff]
      have hbody : ∀ fuel, Emits (Inside d) ((Op.gmemUsed pe).exec d fuel) t ↔
          Emits (Inside d) (gmemUsed d fuel pe) t := by
        intro fuel
        show Emits (Inside d) (gmemUsed d fuel pe >>= _) t ↔ _
        rw [emits_bind]
        exact and_iff_left fun _ _ _ _ => emits_pure
      exact forall_congr' hbody

/-- While no process has a slot nothing but an `add_gmem` does anything, and an `add_gmem` that
completes searches from index `-1`. -/
theorem step_of_not_exists {op : Op} (hno : ∀ s, ¬ Exists d t s) (hop : op.IsAccounting)
    (hstep : Step d t op t') : (AccessesInside d t op ↔ ¬ op.IsAdd) ∧ (¬ op.IsAdd → t' = t) := by
  have hfind : ∀ key, findRnode d t key = none := by
    intro key
    cases hf : findRnode d t key with
    | none => rfl
    | some s => exact absurd (findRnode_eq_some hf).1 (hno s)
  obtain ⟨fuel, tr, hr⟩ := hstep
  rw [accessesInside_iff_staysInside]
  cases op with
  | addGmem key mem p n =>
      refine ⟨iff_of_false ?_ (not_not.mpr trivial), fun hadd => absurd trivial hadd⟩
      rintro (rfl | ⟨hnone, hpos⟩ | ⟨s, hs, _⟩)
      · exact addGmem_faults_of_null.not_runs hr
      · by_cases hp : p = 0
        · subst hp
          exact addGmem_faults_of_null.not_runs hr
        · exact (addGmem_faults_of_full hp hnone hpos).not_runs hr
      · rw [hfind] at hs
        cases hs
  | removeGmem key mem h =>
      refine ⟨iff_of_true ?_ id, ?_⟩
      · intro s hs
        rw [hfind] at hs
        cases hs
      · intro _
        have hret : Returns (removeGmem d fuel key mem h) t () t :=
          removeGmem_of_findRnode_none (hfind key)
        obtain ⟨tr', hr'⟩ := hret
        exact (hr.unique hr').2.1
  | deleteRnode key => exact absurd hop id
  | gmemUsed pe =>
      refine ⟨iff_of_true ?_ id, ?_⟩
      · intro s hs hsum
        exact absurd ⟨hs, hsum.1⟩ (hno s)
      · intro _
        exact (step_gmemUsed ⟨fuel, tr, hr⟩)

/-- **Which histories stay in the table**: those that register nothing. -/
theorem accessesInside_iff_registersNothing {r : List (Op × Tables)} (hf : Fresh d t)
    (hr : Along (Step d) t r) (hops : ∀ x ∈ r, x.1.IsAccounting) :
    Along (fun t op _ => AccessesInside d t op) t r ↔ ∀ x ∈ r, ¬ x.1.IsAdd := by
  have hno : ∀ s, ¬ Exists d t s := by
    intro s hs
    have hstat := hs.2
    rw [hf.rnode s hs.1] at hstat
    cases hstat
  clear hf
  induction r generalizing t with
  | nil => simp
  | cons x r ih =>
      obtain ⟨op, t'⟩ := x
      obtain ⟨hop, hrest⟩ := List.forall_mem_cons.mp hops
      obtain ⟨hfirst, hsame⟩ := step_of_not_exists hno hop hr.1
      rw [List.forall_mem_cons, Along.cons_iff]
      constructor
      · rintro ⟨hin, hall⟩
        have hadd := hfirst.mp hin
        have ht := hsame hadd
        exact ⟨hadd, (ih hr.2 hrest (ht ▸ hno)).mp hall⟩
      · rintro ⟨hadd, hall⟩
        have ht := hsame hadd
        exact ⟨hfirst.mpr hadd, (ih hr.2 hrest (ht ▸ hno)).mpr hall⟩

/-- **When record indices stay in range.** In every state of a history, the accesses of a further
call stay in the table exactly when the state satisfies `Op.StaysInside`. The calls of the history
itself stayed in the table exactly when none of them registered anything. -/
theorem indicesInside_iff {r : List (Op × Tables)} (hf : Fresh d t) (hr : Along (Step d) t r)
    (hops : ∀ x ∈ r, x.1.IsAccounting) :
    (∀ t' ∈ states t r, ∀ op : Op, op.IsAccounting →
      (AccessesInside d t' op ↔ op.StaysInside d t')) ∧
    (Along (fun t op _ => AccessesInside d t op) t r ↔ ∀ x ∈ r, ¬ x.1.IsAdd) :=
  ⟨fun _ _ _ _ => accessesInside_iff_staysInside, accessesInside_iff_registersNothing hf hr hops⟩

theorem indicesInside_firstAllocations :
    AccessesInside smallDims
      (final initialTables (replay smallDims 2 initialTables firstAllocations))
      (.gmemUsed fun _ => true) ∧
    ¬ Along (fun t op _ => AccessesInside smallDims t op) initialTables
      (replay smallDims 2 initialTables firstAllocations) := by
  have hr : Along (Step smallDims) initialTables
      (replay smallDims 2 initialTables firstAllocations) := along_replay (by decide)
  have hops : ∀ x ∈ replay smallDims 2 initialTables firstAllocations, x.1.IsAccounting := by
    exact forall_label_trajectory.mpr (by simp [firstAllocations, Op.IsAccounting])
  obtain ⟨hcall, hrun⟩ := indicesInside_iff (fresh_initialTables _) hr hops
  constructor
  · apply (hcall _ (final_mem_states _ _) (.gmemUsed fun _ => true) trivial).mpr
    -- slot and record have the same index for both processes
    intro s hs _ _
    have hs2 : s < 2 := hs
    interval_cases s
    · exact fun _ => by decide
    · exact fun _ => by decide
  · rw [hrun]
    intro hno
    exact hno _ List.mem_cons_self trivial

/-- **The very first call leaves the table**: it searches the empty list of its process. -/
theorem not_accessesInside_of_firstAllocation :
    ¬ ∀ (d : Dims) (t : Tables) (r : List (Op × Tables)), 0 < d.lenGmem → Fresh d t →
      Along (Step d) t r → (∀ x ∈ r, x.1.IsAccounting) →
      ∀ t' ∈ states t r, ∀ op : Op, op.IsAccounting → AccessesInside d t' op := by
  intro hall
  have hin := hall smallDims initialTables [] (by decide) (fresh_initialTables _) trivial
    (fun x hx => by cases hx) initialTables (mem_states_self _ _)
    (.addGmem (1, 0) ownAddress 16 100) trivial
  rcases accessesInside_iff_staysInside.mp hin with hp | ⟨_, hpos⟩ | ⟨s, hs, _⟩
  · exact absurd hp (by decide)
  · exact absurd hpos (by decide)
  · have hnone : findRnode smallDims initialTables (1, 0) = none := by decide
    rw [hnone] at hs
    cases hs

end Vcuda.RNM
