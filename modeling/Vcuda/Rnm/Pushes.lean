import Vcuda.Common.Claiming
import Vcuda.Rnm.Steps
import Mathlib.Data.Fintype.Basic

/-!
# Processes that push at once

Nothing locks the tables. Here several processes are in `push_gmem` at the same time, and each load
of a `ptr` and each store to a member of a record is a step of its own; the steps of the processes
are interleaved in any order, and a load sees the last store. A record that a process has found
empty is its own for the others only when it has stored `ptr` there.

The calls then do what they would do one after the other exactly when no process finds a record
empty that another one has found empty and not yet stored to (`serializable_iff_noRace`).
-/

namespace Vcuda.RNM

open Traced Tables Claiming

/-! ## The accesses of `push_gmem` -/

/-- What a process does next. -/
inductive PushPc where
  /-- `ptr_gmem[i].empty()` -/
  | test (i : Nat)
  /-- The first store of `set_res`. -/
  | storePtr (i : Nat)
  /-- The second one. -/
  | storeBytes (i : Nat)
  /-- The store of `set_next`. -/
  | storeNext (i : Nat)
  | returned (i : Nat)
  /-- `-1` is returned. -/
  | full
  deriving DecidableEq

/-- The tables, and where the processes are. -/
structure Pushers (π : Type) where
  tables : Tables
  pc : π → PushPc

variable {π : Type} [DecidableEq π]

def Pushers.goTo (s : Pushers π) (p : π) (pc : PushPc) : Pushers π :=
  { s with pc := Function.update s.pc p pc }

def Pushers.store (s : Pushers π) (i : Nat) (f : GMem → GMem) : Pushers π :=
  { s with tables := s.tables.modifyGmem i f }

/-- The next step of the process `p`, whose call is `push_gmem(gm p)`. -/
def Pushers.step (d : Dims) (gm : π → GMem) (s : Pushers π) (p : π) : Pushers π :=
  match s.pc p with
  | .test i =>
      if i < d.lenGmem then
        s.goTo p (if (s.tables.gmem i).empty then .storePtr i else .test (i + 1))
      else s.goTo p .full
  | .storePtr i => (s.store i fun r => { r with ptr := (gm p).ptr }).goTo p (.storeBytes i)
  | .storeBytes i => (s.store i fun r => { r with bytes := (gm p).bytes }).goTo p (.storeNext i)
  | .storeNext i => (s.store i fun r => { r with next := -1 }).goTo p (.returned i)
  | .returned _ => s
  | .full => s

/-- Every process is at the beginning of its call. -/
def Pushers.start (t : Tables) : Pushers π := ⟨t, fun _ => .test 0⟩

/-- The calls have returned. -/
def Pushers.Done (s : Pushers π) : Prop := ∀ p, (∃ i, s.pc p = .returned i) ∨ s.pc p = .full

/-- An interleaving of steps. -/
def PushRun (d : Dims) (gm : π → GMem) (s : Pushers π) (r : List (π × Pushers π)) : Prop :=
  Along (fun s p s' => s' = s.step d gm p) s r

/-- `p` is about to find a record empty that `q` has found empty and not yet stored to. -/
def Races (d : Dims) (s : Pushers π) (p : π) : Prop :=
  ∃ i q, s.pc p = .test i ∧ i < d.lenGmem ∧ (s.tables.gmem i).empty = true ∧ s.pc q = .storePtr i

/-- The call of `p` as one step. -/
def Pushes (d : Dims) (gm : π → GMem) (t : Tables) (p : π) (i : Nat) (t' : Tables) : Prop :=
  Returns (pushGmem d (gm p)) t i t'

/-- The calls have returned, and left in the tables, what they would have if they had been made one
after the other. -/
def Serializable (d : Dims) (gm : π → GMem) (t : Tables) (s : Pushers π) : Prop :=
  ∃ order : List (π × Nat),
    (order.map Prod.fst).Nodup ∧ (∀ p i, (p, i) ∈ order ↔ s.pc p = .returned i) ∧
    Serially (Pushes d gm) t order s.tables ∧
    ∀ p, s.pc p = .full → Returns (pushGmem d (gm p)) s.tables (-1) s.tables

/-! ## The records as cells -/

/-- Where a process is on its way along the records. -/
def PushPc.place (d : Dims) : PushPc → Place Nat
  | .test i => .scanning ((List.range d.lenGmem).drop i)
  | .storePtr i => .window i
  | .storeBytes i => .claimed i
  | .storeNext i => .claimed i
  | .returned i => .claimed i
  | .full => .nowhere

/-- The processes as parties that claim records. -/
def Pushers.view (d : Dims) (s : Pushers π) : Claiming.State Nat π :=
  ⟨fun i => (s.tables.gmem i).empty, fun p => (s.pc p).place d⟩

variable {d : Dims} {gm : π → GMem} {t t' : Tables} {s s' : Pushers π} {p q : π} {i j : Nat}
  {r : List (π × Pushers π)}

theorem view_goTo (s : Pushers π) (p : π) (pc : PushPc) :
    (s.goTo p pc).view d = (s.view d).goTo p (pc.place d) :=
  congrArg (Claiming.State.mk _) (Function.comp_update (PushPc.place d) s.pc p pc)

omit [DecidableEq π] in
/-- A store that leaves `ptr` cannot be seen. -/
theorem view_store {f : GMem → GMem} (hf : ∀ r, (f r).ptr = r.ptr) :
    (s.store i f).view d = s.view d := by
  have hfree : (fun j : Nat => ((s.tables.modifyGmem i f).gmem j).empty) =
      fun j : Nat => (s.tables.gmem j).empty := by
    funext j
    by_cases hj : (j : Int) = i
    · rw [hj, modifyGmem_gmem_self, GMem.empty, hf]
      rfl
    · rw [modifyGmem_gmem_ne hj]
  exact congrArg (Claiming.State.mk · _) hfree

omit [DecidableEq π] in
/-- The store of `ptr` takes the record. -/
theorem view_storePtr {f : GMem → GMem} (hf : ∀ r, (f r).ptr ≠ 0) :
    (s.store i f).view d = (s.view d).take i := by
  have hfree : (fun j : Nat => ((s.tables.modifyGmem i f).gmem j).empty) =
      Function.update (fun j : Nat => (s.tables.gmem j).empty) i false := by
    funext j
    by_cases hj : j = i
    · subst hj
      rw [modifyGmem_gmem_self, Function.update_self, GMem.empty_eq_false]
      exact hf _
    · rw [modifyGmem_gmem_ne (by omega), Function.update_of_ne hj]
  exact congrArg (Claiming.State.mk · _) hfree

theorem drop_range (hi : i < d.lenGmem) :
    (List.range d.lenGmem).drop i = i :: (List.range d.lenGmem).drop (i + 1) := by
  rw [List.drop_eq_getElem_cons (by simpa using hi), List.getElem_range]

omit [DecidableEq π] in
theorem place_view {pc : PushPc} (hp : s.pc p = pc) : (s.view d).place p = pc.place d :=
  congrArg (PushPc.place d) hp

/-- **The steps of `push_gmem` are those of a party.** -/
theorem step_view (hgm : ∀ p, (gm p).ptr ≠ 0) (s : Pushers π) (p : π) :
    Claiming.Step (s.view d) p ((s.step d gm p).view d) := by
  unfold Pushers.step
  cases hp : s.pc p with
  | test i =>
      have hplace := place_view (d := d) hp
      by_cases hi : i < d.lenGmem
      · rw [PushPc.place, drop_range hi] at hplace
        simp only [if_pos hi]
        rw [view_goTo]
        cases hempty : (s.tables.gmem i).empty with
        | true => exact .pass hplace hempty
        | false => exact .skip hplace hempty
      · have hnil : (List.range d.lenGmem).drop i = [] := by
          rw [List.drop_eq_nil_iff, List.length_range]
          exact Nat.le_of_not_lt hi
        rw [PushPc.place, hnil] at hplace
        simp only [if_neg hi]
        rw [view_goTo]
        exact .giveUp hplace
  | storePtr i =>
      simp only []
      rw [view_goTo, view_storePtr]
      · exact .claim (place_view hp)
      · exact fun _ => hgm p
  | storeBytes i =>
      have hplace : (s.view d).place p = PushPc.place d (.storeNext i) := by
        rw [place_view hp]
        rfl
      simp only []
      rw [view_goTo, view_store, goTo_eq_self hplace]
      · exact .stay
      · exact fun _ => rfl
  | storeNext i =>
      have hplace : (s.view d).place p = PushPc.place d (.returned i) := by
        rw [place_view hp]
        rfl
      simp only []
      rw [view_goTo, view_store, goTo_eq_self hplace]
      · exact .stay
      · exact fun _ => rfl
  | returned i => exact .stay
  | full => exact .stay

theorem place_eq_window {pc : PushPc} : pc.place d = .window i ↔ pc = .storePtr i := by
  cases pc <;> simp [PushPc.place]

theorem place_eq_scanning {pc : PushPc} {rest : List Nat} (h : pc.place d = .scanning (i :: rest)) :
    i < d.lenGmem ∧ pc = .test i := by
  cases pc with
  | test j =>
      rw [PushPc.place, Place.scanning.injEq] at h
      have hj : j < d.lenGmem := by
        by_contra hj
        rw [List.drop_eq_nil_iff.mpr (by simpa using hj)] at h
        cases h
      rw [drop_range hj] at h
      rw [(List.cons.inj h).1] at hj ⊢
      exact ⟨hj, rfl⟩
  | _ => cases h

/-- A race is a collision. -/
theorem races_iff (hgm : ∀ p, (gm p).ptr ≠ 0) (s : Pushers π) (p : π) :
    Races d s p ↔ Collides (s.view d) p ((s.step d gm p).view d) := by
  rw [collides_iff (.step (step_view hgm s p))]
  constructor
  · rintro ⟨i, q, hp, hi, hempty, hq⟩
    have hstep : s.step d gm p = s.goTo p (.storePtr i) := by
      unfold Pushers.step
      simp only [hp, if_pos hi, hempty, if_true]
    refine ⟨i, _, q, (place_view hp).trans (congrArg _ (drop_range hi)), hempty, place_view hq, ?_⟩
    rw [hstep, view_goTo, place_goTo_self]
    rfl
  · rintro ⟨i, rest, q, hp, hempty, hq, _⟩
    obtain ⟨hi, hp⟩ := place_eq_scanning hp
    exact ⟨i, q, hp, hi, hempty, place_eq_window.mp hq⟩

/-! ## What a call does in the end -/

/-- The stores that are still to come to the record. -/
def PushPc.rest (g : GMem) : PushPc → GMem → GMem
  | .storeBytes _ => fun r => { r with bytes := g.bytes, next := -1 }
  | .storeNext _ => fun r => { r with next := -1 }
  | _ => id

/-- `t` is what the tables are once the records that have been taken are filled. -/
structure Settles (d : Dims) (gm : π → GMem) (s : Pushers π) (t : Tables) : Prop where
  rnode : t.rnode = s.tables.rnode
  taken : ∀ p i, (s.view d).place p = .claimed i →
    t.gmem i = (s.pc p).rest (gm p) (s.tables.gmem i)
  other : ∀ i : Int, (∀ p j, (s.view d).place p = .claimed j → (j : Int) ≠ i) →
    t.gmem i = s.tables.gmem i

omit [DecidableEq π] in
theorem Settles.empty (h : Settles d gm s t) (i : Int) :
    (t.gmem i).empty = (s.tables.gmem i).empty := by
  by_cases htaken : ∃ p j, (s.view d).place p = .claimed j ∧ (j : Int) = i
  · obtain ⟨p, j, hp, rfl⟩ := htaken
    rw [h.taken p j hp]
    cases s.pc p <;> rfl
  · rw [h.other i fun p j hp hj => htaken ⟨p, j, hp, hj⟩]

omit [DecidableEq π] in
theorem settles_start : Settles d gm (.start t) t where
  rnode := rfl
  taken p i hp := by cases hp
  other _ _ := rfl

omit [DecidableEq π] in
/-- When the calls have returned, everything is filled. -/
theorem Settles.eq (h : Settles d gm s t) (hdone : s.Done) : t = s.tables := by
  have hgmem : t.gmem = s.tables.gmem := by
    funext i
    by_cases htaken : ∃ p j, (s.view d).place p = .claimed j ∧ (j : Int) = i
    · obtain ⟨p, j, hp, rfl⟩ := htaken
      rw [h.taken p j hp]
      rcases hdone p with ⟨k, hpc⟩ | hpc
      · rw [hpc]
        rfl
      · rw [hpc]
        rfl
    · exact h.other i fun p j hp hj => htaken ⟨p, j, hp, hj⟩
  cases t
  cases hs : s.tables
  rw [hs] at hgmem
  have hrnode := h.rnode
  rw [hs] at hrnode
  simp only at hgmem hrnode
  rw [hgmem, hrnode]

@[simp] theorem pc_goTo_self (s : Pushers π) (p : π) (pc : PushPc) : (s.goTo p pc).pc p = pc :=
  Function.update_self ..

theorem pc_goTo_ne (h : q ≠ p) (s : Pushers π) (pc : PushPc) : (s.goTo p pc).pc q = s.pc q :=
  Function.update_of_ne h ..

@[simp] theorem tables_goTo (s : Pushers π) (p : π) (pc : PushPc) :
    (s.goTo p pc).tables = s.tables := rfl

omit [DecidableEq π] in
@[simp] theorem tables_store (s : Pushers π) (i : Nat) (f : GMem → GMem) :
    (s.store i f).tables = s.tables.modifyGmem i f := rfl

omit [DecidableEq π] in
@[simp] theorem pc_store (s : Pushers π) (i : Nat) (f : GMem → GMem) : (s.store i f).pc = s.pc :=
  rfl

/-- Looking for a record. -/
theorem Settles.goTo {pc : PushPc} (h : Settles d gm s t)
    (hp : ∀ i, (s.view d).place p ≠ .claimed i) (hpc : ∀ i, pc.place d ≠ .claimed i) :
    Settles d gm (s.goTo p pc) t := by
  have hiff : ∀ q i, ((s.goTo p pc).view d).place q = .claimed i ↔
      (s.view d).place q = .claimed i := by
    intro q i
    rw [view_goTo]
    by_cases hqp : q = p
    · subst hqp
      rw [place_goTo_self]
      exact iff_of_false (hpc i) (hp i)
    · rw [place_goTo_ne hqp]
  refine ⟨h.rnode, ?_, ?_⟩
  · intro q i hq
    have hbefore := (hiff q i).mp hq
    have hqp : q ≠ p := by
      rintro rfl
      exact hp i hbefore
    rw [pc_goTo_ne hqp]
    exact h.taken q i hbefore
  · intro i hi
    exact h.other i fun q j hq => hi q j ((hiff q j).mpr hq)

/-- Filling a record that one has taken. -/
theorem Settles.fill {pc : PushPc} {f : GMem → GMem} (h : Settles d gm s t)
    (he : Exclusive (s.view d)) (hp : (s.view d).place p = .claimed j)
    (hview : ((s.store j f).goTo p pc).view d = s.view d)
    (hrest : ∀ r, pc.rest (gm p) (f r) = (s.pc p).rest (gm p) r) :
    Settles d gm ((s.store j f).goTo p pc) t := by
  refine ⟨h.rnode, ?_, ?_⟩
  · intro q i hq
    rw [hview] at hq
    by_cases hqp : q = p
    · subst hqp
      obtain rfl : j = i := by simpa [hp] using hq
      rw [pc_goTo_self, h.taken q j hq, ← hrest, tables_goTo, tables_store, modifyGmem_gmem_self]
    · have hij : i ≠ j := by
        rintro rfl
        exact hqp (he.unique q p i (Or.inr hq) (Or.inr hp))
      rw [pc_goTo_ne hqp, pc_store, h.taken q i hq, tables_goTo, tables_store,
        modifyGmem_gmem_ne (by omega)]
  · intro i hi
    rw [hview] at hi
    have hij : i ≠ j := (hi p j hp).symm
    rw [h.other i hi, tables_goTo, tables_store, modifyGmem_gmem_ne hij]

/-- **Taking a record** is the whole call. -/
theorem Settles.take (h : Settles d gm s t) (he : Exclusive (s.view d))
    (hp : s.pc p = .storePtr j) :
    Settles d gm ((s.store j fun r => { r with ptr := (gm p).ptr }).goTo p (.storeBytes j))
      (putNew t j (gm p).ptr (gm p).bytes) := by
  have hother : ∀ q i, q ≠ p → (s.view d).place q = .claimed i → i ≠ j := by
    rintro q i hqp hq rfl
    exact hqp (he.unique q p i (Or.inr hq) (Or.inl (place_view hp)))
  have hplace : ∀ q, q ≠ p →
      (((s.store j fun r => { r with ptr := (gm p).ptr }).goTo p (.storeBytes j)).view d).place q =
        (s.view d).place q := by
    intro q hqp
    rw [view_goTo, place_goTo_ne hqp]
    rfl
  refine ⟨h.rnode, ?_, ?_⟩
  · intro q i hq
    by_cases hqp : q = p
    · subst hqp
      rw [view_goTo, place_goTo_self] at hq
      obtain rfl : j = i := by simpa [PushPc.place] using hq
      rw [pc_goTo_self, tables_goTo, tables_store, putNew, modifyGmem_gmem_self,
        modifyGmem_gmem_self]
      rfl
    · rw [hplace q hqp] at hq
      have hij := hother q i hqp hq
      have hij' : (i : Int) ≠ j := by omega
      rw [pc_goTo_ne hqp, pc_store, tables_goTo, tables_store, putNew, modifyGmem_gmem_ne hij',
        modifyGmem_gmem_ne hij', h.taken q i hq]
  · intro i hi
    have hij : i ≠ j := by
      refine (hi p j ?_).symm
      rw [view_goTo, place_goTo_self]
      rfl
    rw [tables_goTo, tables_store, putNew, modifyGmem_gmem_ne hij, modifyGmem_gmem_ne hij]
    apply h.other i
    intro q k hq hk
    by_cases hqp : q = p
    · rw [hqp, place_view hp] at hq
      cases hq
    · exact hi q k ((hplace q hqp).trans hq) hk

/-! ## One after the other -/

/-- A call does not look at the `next` of what it pushes. -/
theorem pushGmem_new (g : GMem) : pushGmem d g = pushGmem d (GMem.new g.ptr g.bytes) := by
  unfold pushGmem
  induction List.range d.lenGmem with
  | nil => rfl
  | cons i is ih =>
      rw [pushGmem.go, pushGmem.go, ih]
      rfl

theorem pushGmem_of_firstEmpty {g : GMem} (hi : firstEmpty d t = some i) :
    Returns (pushGmem d g) t i (putNew t i g.ptr g.bytes) := by
  rw [pushGmem_new]
  exact pushGmem_of_some hi

/-- A call takes an empty record. -/
theorem pushGmem_takes {g : GMem} (hg : g.ptr ≠ 0) (hr : Returns (pushGmem d g) t i t') :
    ¬ t.Live i ∧ t'.Live i ∧ ∀ j : Nat, t.Live j → t'.Live j := by
  rw [pushGmem_new] at hr
  obtain ⟨tr, hr⟩ := hr
  rcases pushGmem_runs hr with ⟨j, hj, hij, rfl, _⟩ | ⟨_, hi, _⟩
  · obtain rfl : i = j := by omega
    obtain ⟨_, hempty, _⟩ := firstEmpty_eq_some.mp hj
    refine ⟨hempty, (modifyGmem_live_self _).mpr hg, fun k hk => ?_⟩
    have hne : (k : Int) ≠ i := by
      intro heq
      exact hempty (heq ▸ hk)
    exact (modifyGmem_live_ne hne).mpr hk
  · omega

omit [DecidableEq π] in
/-- What is empty is empty in the settled tables, too. -/
theorem Settles.firstEmpty (h : Settles d gm s t)
    (hfind : (List.range d.lenGmem).find? (s.view d).free = some i) :
    RNM.firstEmpty d t = some i := by
  have hsame : (fun i : Nat => (t.gmem i).empty) = (s.view d).free := by
    funext i
    exact h.empty i
  unfold RNM.firstEmpty
  rw [hsame, hfind]

/-- The path of every process. -/
abbrev records (d : Dims) (_ : π) : List Nat := List.range d.lenGmem

/-- What the steps of a run without races keep. -/
structure Orderly (d : Dims) (s : Pushers π) : Prop where
  exclusive : Exclusive (s.view d)
  behind : Behind (records d) (s.view d)

omit [DecidableEq π] in
theorem orderly_start : Orderly d (.start t : Pushers π) := by
  have hstart : ∀ p : π, ((Pushers.start t).view d).place p = .scanning (records d p) :=
    fun _ => rfl
  exact ⟨exclusive_of_scanning fun p => ⟨_, hstart p⟩, behind_of_start hstart⟩

theorem Orderly.step (hgm : ∀ p, (gm p).ptr ≠ 0) (h : Orderly d s) (hno : ¬ Races d s p) :
    Orderly d (s.step d gm p) :=
  ⟨exclusive_step h.exclusive (step_view hgm s p) fun hc => hno ((races_iff hgm s p).mpr hc),
    behind_step h.behind (step_view hgm s p)⟩

/-- A step that does not take a record changes nothing in the settled tables. -/
theorem Settles.keep (h : Settles d gm s t) (ho : Orderly d s)
    (hp : ∀ i, s.pc p ≠ .storePtr i) : Settles d gm (s.step d gm p) t := by
  unfold Pushers.step
  cases hpc : s.pc p with
  | test i =>
      have hscan : ∀ i, (s.view d).place p ≠ .claimed i := by
        intro i
        rw [place_view hpc]
        nofun
      simp only []
      split
      · refine h.goTo hscan ?_
        intro j
        split
        · nofun
        · nofun
      · exact h.goTo hscan nofun
  | storePtr i => exact absurd hpc (hp i)
  | storeBytes i =>
      have hplace : (s.view d).place p = PushPc.place d (.storeNext i) := by
        rw [place_view hpc]
        rfl
      refine h.fill ho.exclusive (place_view hpc) ?_ ?_
      · rw [view_goTo, view_store, goTo_eq_self hplace]
        exact fun _ => rfl
      · intro r
        rw [hpc]
        rfl
  | storeNext i =>
      have hplace : (s.view d).place p = PushPc.place d (.returned i) := by
        rw [place_view hpc]
        rfl
      refine h.fill ho.exclusive (place_view hpc) ?_ ?_
      · rw [view_goTo, view_store, goTo_eq_self hplace]
        exact fun _ => rfl
      · intro r
        rw [hpc]
        rfl
  | returned i => exact h
  | full => exact h

theorem step_storePtr (gm : π → GMem) (hp : s.pc p = .storePtr i) : s.step d gm p =
    (s.store i fun r => { r with ptr := (gm p).ptr }).goTo p (.storeBytes i) := by
  unfold Pushers.step
  rw [hp]

theorem claim?_of_storePtr (hgm : ∀ p, (gm p).ptr ≠ 0) (hp : s.pc p = .storePtr i) :
    claim? (s.view d) p ((s.step d gm p).view d) = some i := by
  rw [step_storePtr gm hp, view_goTo, view_storePtr]
  · exact claim?_of_claim (place_view hp)
  · exact fun _ => hgm p

/-- A store to `ptr` is the whole call. -/
theorem Settles.claim (h : Settles d gm s t) (ho : Orderly d s)
    (hc : claim? (s.view d) p ((s.step d gm p).view d) = some i) :
    ∃ t', Pushes d gm t p i t' ∧ Settles d gm (s.step d gm p) t' := by
  have hp : s.pc p = .storePtr i := place_eq_window.mp (claim?_eq_some hc)
  have hfind := find_of_window ho.exclusive ho.behind (claim?_eq_some hc)
  refine ⟨_, pushGmem_of_firstEmpty (h.firstEmpty hfind), ?_⟩
  rw [step_storePtr gm hp]
  exact h.take ho.exclusive hp

/-- What the steps of a run without races do. -/
theorem orderly_of_run (hgm : ∀ p, (gm p).ptr ≠ 0) (hr : PushRun d gm s r) (ho : Orderly d s)
    (hno : Along (fun s p _ => ¬ Races d s p) s r) :
    Along (fun s p s' => s' = s.step d gm p ∧ Orderly d s) s r ∧ Orderly d (final s r) := by
  have hstep : ∀ s p s', Orderly d s → (s' = s.step d gm p ∧ ¬ Races d s p) →
      Orderly d s' ∧ (s' = s.step d gm p ∧ Orderly d s) := by
    rintro s p s' ho ⟨rfl, hrace⟩
    exact ⟨ho.step hgm hrace, rfl, ho⟩
  obtain ⟨hall, hsteps⟩ := Along.invariant ho (Along.and_iff.mpr ⟨hr, hno⟩) hstep
  exact ⟨hsteps, hall _ (final_mem_states s r)⟩

omit [DecidableEq π] in
theorem place_eq_claimed (hdone : s.Done) :
    (s.view d).place p = .claimed i ↔ s.pc p = .returned i := by
  show (s.pc p).place d = _ ↔ _
  rcases hdone p with ⟨j, hp⟩ | hp
  · simp [hp, PushPc.place]
  · simp [hp, PushPc.place]

theorem run_view (hgm : ∀ p, (gm p).ptr ≠ 0) (hr : PushRun d gm s r) :
    Claiming.Run (Pushers.view d) s r :=
  hr.mono fun s p _ h => h ▸ .step (step_view hgm s p)

/-- **Without races** the calls are serializable, in the order of their stores to `ptr`. -/
theorem serializable_of_noRace (hgm : ∀ p, (gm p).ptr ≠ 0) (hr : PushRun d gm (.start t) r)
    (hdone : (final (.start t) r).Done) (hno : Along (fun s p _ => ¬ Races d s p) (.start t) r) :
    Serializable d gm t (final (.start t) r) := by
  obtain ⟨hsteps, horderly⟩ := orderly_of_run hgm hr orderly_start hno
  have hkeep : ∀ s p s' t, Settles d gm s t → (s' = s.step d gm p ∧ Orderly d s) →
      claim? (s.view d) p (s'.view d) = none → Settles d gm s' t := by
    rintro s p s' t h ⟨rfl, ho⟩ hc
    refine h.keep ho fun i hp => ?_
    rw [claim?_of_storePtr hgm hp] at hc
    cases hc
  have hclaim : ∀ s p s' t i, Settles d gm s t → (s' = s.step d gm p ∧ Orderly d s) →
      claim? (s.view d) p (s'.view d) = some i →
        ∃ t', Pushes d gm t p i t' ∧ Settles d gm s' t' := by
    rintro s p s' t i h ⟨rfl, ho⟩ hc
    exact h.claim ho hc
  obtain ⟨t', hserial, hsettles⟩ :=
    serially_of_run (Pushers.view d) hsteps settles_start hkeep hclaim
  obtain rfl := hsettles.eq hdone
  refine ⟨_, nodup_claims (run_view hgm hr), ?_, hserial, ?_⟩
  · intro p i
    rw [mem_claims (run_view hgm hr) fun _ _ => nofun]
    exact place_eq_claimed hdone
  · intro p hp
    have hfind := find_of_nowhere horderly.behind (place_view hp)
    have hnone : firstEmpty d (final (.start t) r).tables = none := hfind
    rw [pushGmem_new]
    exact pushGmem_of_none hnone

omit [DecidableEq π] in
/-- One after the other, no two calls return the same record. -/
theorem distinct_of_serializable (hgm : ∀ p, (gm p).ptr ≠ 0) (hdone : s.Done)
    (h : Serializable d gm t s) : Distinct (s.view d) := by
  obtain ⟨order, _, hmem, hserial, _⟩ := h
  have hnodup := hserial.nodup (fun t i => t.Live i) (fun _ _ => True) trivial
    fun t p i l t' _ hop => ⟨pushGmem_takes (hgm p) hop, trivial⟩
  intro p q i hp hq
  exact eq_of_nodup hnodup ((hmem p i).mpr ((place_eq_claimed hdone).mp hp))
    ((hmem q i).mpr ((place_eq_claimed hdone).mp hq))

/-- **When calls that are made at once do what they would do one after the other**: exactly when
there is no race. -/
theorem serializable_iff_noRace (hgm : ∀ p, (gm p).ptr ≠ 0) (hr : PushRun d gm (.start t) r)
    (hdone : (final (.start t) r).Done) :
    Serializable d gm t (final (.start t) r) ↔ Along (fun s p _ => ¬ Races d s p) (.start t) r := by
  constructor
  · intro h
    have hwindow : ∀ p i, ((final (.start t) r).view d).place p ≠ .window i := by
      intro p i hp
      have hpc := place_eq_window.mp hp
      rcases hdone p with ⟨j, hj⟩ | hj
      · rw [hj] at hpc
        cases hpc
      · rw [hj] at hpc
        cases hpc
    have hstart : Orderly d (.start t : Pushers π) := orderly_start
    have hno := (distinct_iff hstart.exclusive (run_view hgm hr) hwindow).mp
      (distinct_of_serializable hgm hdone h)
    refine (Along.and_iff.mpr ⟨hr, hno⟩).mono ?_
    rintro s p s' ⟨rfl, hcollides⟩ hraces
    exact hcollides ((races_iff hgm s p).mp hraces)
  · exact serializable_of_noRace hgm hr hdone

instance [Fintype π] (s : Pushers π) (p : π) : Decidable (Races d s p) :=
  match hp : s.pc p with
  | .test i =>
      decidable_of_iff (i < d.lenGmem ∧ (s.tables.gmem i).empty = true ∧ ∃ q, s.pc q = .storePtr i)
        ⟨fun ⟨hi, hempty, q, hq⟩ => ⟨i, q, hp, hi, hempty, hq⟩, by
          rintro ⟨j, q, hj, hi, hempty, hq⟩
          obtain rfl : i = j := by simpa [hp] using hj
          exact ⟨hi, hempty, q, hq⟩⟩
  | .storePtr _ => isFalse fun ⟨_, _, h, _⟩ => by simp [hp] at h
  | .storeBytes _ => isFalse fun ⟨_, _, h, _⟩ => by simp [hp] at h
  | .storeNext _ => isFalse fun ⟨_, _, h, _⟩ => by simp [hp] at h
  | .returned _ => isFalse fun ⟨_, _, h, _⟩ => by simp [hp] at h
  | .full => isFalse fun ⟨_, _, h, _⟩ => by simp [hp] at h

/-- Two processes, and what they push. -/
def twoPushes (p : Bool) : GMem := if p then .new 8 100 else .new 16 50

/-- The run in which the processes take their steps in this order. -/
def pushesInOrder (schedule : List Bool) : List (Bool × Pushers Bool) :=
  trajectory (Pushers.step smallDims twoPushes) (.start initialTables) schedule

theorem pushRun_pushesInOrder (schedule : List Bool) :
    PushRun smallDims twoPushes (.start initialTables) (pushesInOrder schedule) :=
  along_step_trajectory

theorem twoPushes_ne_zero (p : Bool) : (twoPushes p).ptr ≠ 0 := by
  cases p <;> decide

/-- The second process looks for a record once the first one has stored its `ptr`, and before it has
stored the rest. -/
def afterStore : List Bool :=
  [true, true, false, true, false, false, false, false, true]

/-- It looks before that. -/
def beforeStore : List Bool := [true, false, true, true, true, false, false, false]

theorem serializable_afterStore :
    Serializable smallDims twoPushes initialTables
      (final (.start initialTables) (pushesInOrder afterStore)) ∧
    ¬ Serializable smallDims twoPushes initialTables
      (final (.start initialTables) (pushesInOrder beforeStore)) := by
  constructor
  · refine (serializable_iff_noRace twoPushes_ne_zero (pushRun_pushesInOrder _) ?_).mpr ?_
    · intro p
      cases p
      · exact Or.inl ⟨1, rfl⟩
      · exact Or.inl ⟨0, rfl⟩
    · have hok : ∀ (s : Pushers Bool) p, decide (¬ Races smallDims s p) = true →
          ¬ Races smallDims s p := fun _ _ => of_decide_eq_true
      exact along_trajectory hok (by decide)
  · intro h
    have hno := (serializable_iff_noRace twoPushes_ne_zero (pushRun_pushesInOrder _) ?_).mp h
    · exact hno.2.1 ⟨0, true, rfl, by decide, by decide, rfl⟩
    · intro p
      cases p
      · exact Or.inl ⟨0, rfl⟩
      · exact Or.inl ⟨0, rfl⟩

end Vcuda.RNM
