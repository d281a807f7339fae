import Vcuda.Common.Claiming
import Vcuda.Rnm.Steps
import Mathlib.Data.Fintype.Basic

/-!
# Processes that register at once

Here several processes, with different keys, are in `insert_rnode` at the same time, each because
`find_rnode` has not found its key. Each load of a member of a slot and each of the four stores of
`ptr_rnode[pos] = val` is a step of its own; the steps of the processes are interleaved in any
order. `stat` is stored last, so for the others a slot stays vacant until the node is complete.

The calls then do what they would do one after the other exactly when no process comes to a slot
that another one is filling (`inserts_serializable_iff_noRace`).
-/

namespace Vcuda.RNM

open Traced Tables Claiming

/-! ## The accesses of `insert_rnode` -/

/-- What a process does next. -/
inductive InsertPc where
  /-- `get_stat() == NONEXIST`, for the probe `i`. -/
  | testNonexist (i : Nat)
  /-- `get_stat() == DELETED` -/
  | testDeleted (i : Nat)
  /-- `pid == std::get<0>(key)`, in `same_key`. -/
  | comparePid (i : Nat)
  /-- `t == std::get<1>(key)` -/
  | compareT (i : Nat)
  /-- The stores of `operator=`. -/
  | storePid (pos : Nat)
  | storeT (pos : Nat)
  | storeEntry (pos : Nat)
  | storeStat (pos : Nat)
  | returned (pos : Nat)
  /-- `nullptr` is returned. -/
  | full
  deriving DecidableEq

/-- The tables, and where the processes are. -/
structure Inserters (π : Type) where
  tables : Tables
  pc : π → InsertPc

/-- What `add_gmem` inserts. -/
def newNode (key : PidSt) : RNode := RNode.new key.1 key.2 (-1)

/-- The slot that a process is filling. -/
def InsertPc.filling? : InsertPc → Option Nat
  | .storePid pos => some pos
  | .storeT pos => some pos
  | .storeEntry pos => some pos
  | .storeStat pos => some pos
  | _ => none

variable {π : Type} [DecidableEq π]

namespace Inserters

def goTo (s : Inserters π) (p : π) (pc : InsertPc) : Inserters π :=
  { s with pc := Function.update s.pc p pc }

def store (s : Inserters π) (pos : Nat) (f : RNode → RNode) : Inserters π :=
  { s with tables := s.tables.putRnode pos (f (s.tables.rnode pos)) }

/-- The next step of the process `p`, whose call is `insert_rnode(key, RNode(pid, stime, -1))` with
the key of its own pid and start time. -/
def step (d : Dims) (key : π → PidSt) (s : Inserters π) (p : π) : Inserters π :=
  match s.pc p with
  | .testNonexist i =>
      let pos := hash d (key p) i
      if i < d.lenRnode then
        s.goTo p (if (s.tables.rnode pos).stat = .NONEXIST then .storePid pos else .testDeleted i)
      else s.goTo p .full
  | .testDeleted i =>
      let pos := hash d (key p) i
      s.goTo p (if (s.tables.rnode pos).stat = .DELETED then .storePid pos else .comparePid i)
  | .comparePid i =>
      let pos := hash d (key p) i
      s.goTo p (if (s.tables.rnode pos).pid = (key p).1 then .compareT i else .testNonexist (i + 1))
  | .compareT i =>
      let pos := hash d (key p) i
      s.goTo p (if (s.tables.rnode pos).t = (key p).2 then .storePid pos else .testNonexist (i + 1))
  | .storePid pos =>
      (s.store pos fun rn => { rn with pid := (newNode (key p)).pid }).goTo p (.storeT pos)
  | .storeT pos =>
      (s.store pos fun rn => { rn with t := (newNode (key p)).t }).goTo p (.storeEntry pos)
  | .storeEntry pos =>
      (s.store pos fun rn => { rn with resEntryIdx := (newNode (key p)).resEntryIdx }).goTo p
        (.storeStat pos)
  | .storeStat pos =>
      (s.store pos fun rn => { rn with stat := (newNode (key p)).stat }).goTo p (.returned pos)
  | .returned _ => s
  | .full => s

/-- Every process is at the beginning of its call. -/
def start (t : Tables) : Inserters π := ⟨t, fun _ => .testNonexist 0⟩

/-- The calls have returned. -/
def Done (s : Inserters π) : Prop := ∀ p, (∃ pos, s.pc p = .returned pos) ∨ s.pc p = .full

/-- `p` comes to a slot that another process is filling. -/
def Races (d : Dims) (key : π → PidSt) (s : Inserters π) (p : π) : Prop :=
  ∃ q, q ≠ p ∧ (s.pc q).filling? ≠ none ∧ (s.pc p).filling? ≠ (s.pc q).filling? ∧
    ((s.step d key p).pc p).filling? = (s.pc q).filling?

/-- The calls have returned, and left in the tables, what they would have if they had been made one
after the other. -/
def Serializable (d : Dims) (key : π → PidSt) (t : Tables) (s : Inserters π) : Prop :=
  ∃ order : List (π × Nat),
    (order.map Prod.fst).Nodup ∧ (∀ p pos, (p, pos) ∈ order ↔ s.pc p = .returned pos) ∧
    Serially (fun t p pos t' => Returns (insertRnode d (key p) (newNode (key p))) t (some pos) t')
      t order s.tables ∧
    ∀ p, s.pc p = .full →
      Returns (insertRnode d (key p) (newNode (key p))) s.tables none s.tables

end Inserters

/-- An interleaving of steps. -/
def InsertRun (d : Dims) (key : π → PidSt) (s : Inserters π) (r : List (π × Inserters π)) : Prop :=
  Along (fun s p s' => s' = s.step d key p) s r

/-! ## The slots as cells -/

/-- Where a process is on its way along its probes. -/
def InsertPc.place (d : Dims) (key : PidSt) : InsertPc → Place Nat
  | .testNonexist i => .scanning ((probes d key).drop i)
  | .testDeleted i => .scanning ((probes d key).drop i)
  | .comparePid i => .scanning ((probes d key).drop (i + 1))
  | .compareT i => .scanning ((probes d key).drop (i + 1))
  | .storePid pos => .window pos
  | .storeT pos => .window pos
  | .storeEntry pos => .window pos
  | .storeStat pos => .window pos
  | .returned pos => .claimed pos
  | .full => .nowhere

/-- What a process has seen of the slot it looks at, and stored in the slot it fills. -/
def InsertPc.Knows (d : Dims) (key : PidSt) (t : Tables) : InsertPc → Prop
  | .testDeleted i => i < d.lenRnode ∧ (t.rnode (hash d key i)).stat ≠ .NONEXIST
  | .comparePid i => (t.rnode (hash d key i)).stat = .EXIST
  | .compareT i => (t.rnode (hash d key i)).stat = .EXIST ∧ (t.rnode (hash d key i)).pid = key.1
  | .storeT pos => (t.rnode pos).pid = key.1
  | .storeEntry pos => (t.rnode pos).pid = key.1 ∧ (t.rnode pos).t = key.2
  | .storeStat pos => { t.rnode pos with stat := .EXIST } = newNode key
  | _ => True

namespace Inserters

/-- The processes as parties that claim slots. -/
def view (d : Dims) (key : π → PidSt) (s : Inserters π) : Claiming.State Nat π :=
  ⟨fun pos => decide ((s.tables.rnode pos).stat ≠ .EXIST), fun p => (s.pc p).place d (key p)⟩

/-- What the steps of a run without races keep. -/
structure Orderly (d : Dims) (key : π → PidSt) (s : Inserters π) : Prop where
  exclusive : Exclusive (s.view d key)
  behind : Behind (fun p => probes d (key p)) (s.view d key)
  knows : ∀ p, (s.pc p).Knows d (key p) s.tables
  /-- No slot carries the key of a process that has not completed its own. -/
  unknown : ∀ p pos, (∀ pos', s.pc p ≠ .returned pos') → Exists d s.tables pos →
    s.tables.keyOf pos ≠ key p

variable {d : Dims} {key : π → PidSt} {t t' : Tables} {s s' : Inserters π} {p q : π} {i pos : Nat}
  {pc : InsertPc} {k : PidSt} {f : RNode → RNode} {r : List (π × Inserters π)}

@[simp] theorem pc_goTo_self (s : Inserters π) (p : π) (pc : InsertPc) : (s.goTo p pc).pc p = pc :=
  Function.update_self ..

theorem pc_goTo_ne (h : q ≠ p) (s : Inserters π) (pc : InsertPc) : (s.goTo p pc).pc q = s.pc q :=
  Function.update_of_ne h ..

@[simp] theorem tables_goTo (s : Inserters π) (p : π) (pc : InsertPc) :
    (s.goTo p pc).tables = s.tables := rfl

omit [DecidableEq π] in
@[simp] theorem tables_store (s : Inserters π) (pos : Nat) (f : RNode → RNode) :
    (s.store pos f).tables = s.tables.putRnode pos (f (s.tables.rnode pos)) := rfl

omit [DecidableEq π] in
@[simp] theorem pc_store (s : Inserters π) (pos : Nat) (f : RNode → RNode) :
    (s.store pos f).pc = s.pc := rfl

theorem place_eq_window : pc.place d k = .window pos ↔ pc.filling? = some pos := by
  cases pc <;> simp [InsertPc.place, InsertPc.filling?]

theorem place_eq_claimed : pc.place d k = .claimed pos ↔ pc = .returned pos := by
  cases pc <;> simp [InsertPc.place]

omit [DecidableEq π] in
theorem place_view (hp : s.pc p = pc) : (s.view d key).place p = pc.place d (key p) :=
  congrArg (InsertPc.place d (key p)) hp

omit [DecidableEq π] in
theorem window_of_filling (hp : (s.pc p).filling? = some pos) :
    (s.view d key).place p = .window pos :=
  place_eq_window.mpr hp

theorem view_goTo (s : Inserters π) (p : π) (pc : InsertPc) :
    (s.goTo p pc).view d key = (s.view d key).goTo p (pc.place d (key p)) := by
  refine congrArg (Claiming.State.mk _) ?_
  funext q
  by_cases hqp : q = p
  · subst hqp
    rw [pc_goTo_self, Function.update_self]
  · rw [pc_goTo_ne hqp, Function.update_of_ne hqp]
    rfl

omit [DecidableEq π] in
/-- A store that leaves `stat` cannot be seen. -/
theorem view_store (hf : ∀ rn, (f rn).stat = rn.stat) :
    (s.store pos f).view d key = s.view d key := by
  refine congrArg (Claiming.State.mk · _) ?_
  funext k
  by_cases hk : k = pos
  · subst hk
    rw [tables_store, putRnode_rnode_self, hf]
  · rw [tables_store, putRnode_rnode_ne hk]

omit [DecidableEq π] in
/-- The store of `stat` takes the slot. -/
theorem view_storeStat (hf : ∀ rn, (f rn).stat = .EXIST) :
    (s.store pos f).view d key = (s.view d key).take pos := by
  refine congrArg (Claiming.State.mk · _) ?_
  funext k
  by_cases hk : k = pos
  · subst hk
    rw [tables_store, putRnode_rnode_self, hf, Function.update_self]
    rfl
  · rw [tables_store, putRnode_rnode_ne hk, Function.update_of_ne hk]
    rfl

theorem drop_probes (hi : i < d.lenRnode) :
    (probes d k).drop i = hash d k i :: (probes d k).drop (i + 1) := by
  unfold probes
  rw [List.drop_eq_getElem_cons (by simpa using hi), List.getElem_map, List.getElem_range]

omit [DecidableEq π] in
theorem free_eq_true : (s.view d key).free pos = true ↔ (s.tables.rnode pos).stat ≠ .EXIST :=
  decide_eq_true_iff

omit [DecidableEq π] in
theorem free_eq_false : (s.view d key).free pos = false ↔ (s.tables.rnode pos).stat = .EXIST := by
  rw [view, decide_eq_false_iff_not, not_not]

/-- A step to a place that looks the same. -/
theorem step_goTo_same (h : (s.view d key).place p = pc.place d (key p)) :
    Claiming.Step (s.view d key) p ((s.goTo p pc).view d key) := by
  rw [view_goTo, goTo_eq_self h]
  exact .stay

/-- A step that stores something that cannot be seen. -/
theorem step_store_same (hf : ∀ rn, (f rn).stat = rn.stat) (hp : (s.pc p).filling? = some pos)
    (hpc : pc.filling? = some pos) :
    Claiming.Step (s.view d key) p (((s.store pos f).goTo p pc).view d key) := by
  have hplace : (s.view d key).place p = pc.place d (key p) := by
    rw [window_of_filling hp, place_eq_window.mpr hpc]
  rw [view_goTo, view_store hf, goTo_eq_self hplace]
  exact .stay

/-- **The steps of `insert_rnode` are those of a party**, as long as it cannot meet its own key. -/
theorem Orderly.step_view (h : Orderly d key s) (p : π) :
    Claiming.Step (s.view d key) p ((s.step d key p).view d key) := by
  have hknows := h.knows p
  unfold Inserters.step
  cases hp : s.pc p with
  | testNonexist i =>
      have hplace : (s.view d key).place p = _ := place_view hp
      dsimp only
      by_cases hi : i < d.lenRnode
      · rw [if_pos hi]
        by_cases hstat : (s.tables.rnode (hash d (key p) i)).stat = .NONEXIST
        · rw [if_pos hstat, view_goTo]
          rw [InsertPc.place, drop_probes hi] at hplace
          exact .pass hplace (free_eq_true.mpr (by simp [hstat]))
        · rw [if_neg hstat]
          exact step_goTo_same hplace
      · rw [if_neg hi, view_goTo]
        have hnil : (probes d (key p)).drop i = [] := by
          rw [List.drop_eq_nil_iff, probes, List.length_map, List.length_range]
          exact Nat.le_of_not_lt hi
        rw [InsertPc.place, hnil] at hplace
        exact .giveUp hplace
  | testDeleted i =>
      rw [hp] at hknows
      have hplace : (s.view d key).place p = _ := place_view hp
      rw [InsertPc.place, drop_probes hknows.1] at hplace
      dsimp only
      rw [view_goTo]
      by_cases hstat : (s.tables.rnode (hash d (key p) i)).stat = .DELETED
      · rw [if_pos hstat]
        exact .pass hplace (free_eq_true.mpr (by simp [hstat]))
      · rw [if_neg hstat]
        refine .skip hplace (free_eq_false.mpr ?_)
        cases hs : (s.tables.rnode (hash d (key p) i)).stat with
        | NONEXIST => exact absurd hs hknows.2
        | DELETED => exact absurd hs hstat
        | EXIST => rfl
  | comparePid i =>
      have hplace : (s.view d key).place p = _ := place_view hp
      dsimp only
      split
      · exact step_goTo_same hplace
      · exact step_goTo_same hplace
  | compareT i =>
      rw [hp] at hknows
      have hne : s.tables.keyOf (hash d (key p) i) ≠ key p := by
        refine h.unknown p _ ?_ ⟨hash_lt i, hknows.1⟩
        rw [hp]
        exact fun _ => nofun
      have ht : (s.tables.rnode (hash d (key p) i)).t ≠ (key p).2 :=
        fun ht => hne (Prod.ext hknows.2 ht)
      have hplace : (s.view d key).place p = _ := place_view hp
      dsimp only
      rw [if_neg ht]
      exact step_goTo_same hplace
  | storePid pos => exact step_store_same (fun _ => rfl) (by rw [hp]; rfl) rfl
  | storeT pos => exact step_store_same (fun _ => rfl) (by rw [hp]; rfl) rfl
  | storeEntry pos => exact step_store_same (fun _ => rfl) (by rw [hp]; rfl) rfl
  | storeStat pos =>
      rw [view_goTo, view_storeStat fun _ => rfl]
      exact .claim (place_view hp)
  | returned pos => exact .stay
  | full => exact .stay

/-! ## What a step does -/

/-- The steps of `p`, as the tables show them. -/
inductive Moves (s : Inserters π) (p : π) : Inserters π → Prop where
  | stay : Moves s p s
  | look {pc : InsertPc} (hp : (s.pc p).filling? = none) (hold : ∀ pos, s.pc p ≠ .returned pos)
      (hnew : ∀ pos, pc ≠ .returned pos) : Moves s p (s.goTo p pc)
  | fill {pos : Nat} {f : RNode → RNode} {pc : InsertPc} (hp : (s.pc p).filling? = some pos)
      (hpc : pc.filling? = some pos) (hf : ∀ rn, (f rn).stat = rn.stat) :
      Moves s p ((s.store pos f).goTo p pc)
  | complete {pos : Nat} (hp : s.pc p = .storeStat pos) :
      Moves s p ((s.store pos fun rn => { rn with stat := .EXIST }).goTo p (.returned pos))

theorem step_moves (d : Dims) (key : π → PidSt) (s : Inserters π) (p : π) :
    Moves s p (s.step d key p) := by
  unfold Inserters.step
  cases hp : s.pc p with
  | testNonexist i =>
      dsimp only
      split
      · refine .look (by rw [hp]; rfl) (fun _ => by rw [hp]; nofun) fun pos => ?_
        split <;> nofun
      · exact .look (by rw [hp]; rfl) (fun _ => by rw [hp]; nofun) nofun
  | testDeleted i =>
      refine .look (by rw [hp]; rfl) (fun _ => by rw [hp]; nofun) fun pos => ?_
      split <;> nofun
  | comparePid i =>
      refine .look (by rw [hp]; rfl) (fun _ => by rw [hp]; nofun) fun pos => ?_
      split <;> nofun
  | compareT i =>
      refine .look (by rw [hp]; rfl) (fun _ => by rw [hp]; nofun) fun pos => ?_
      split <;> nofun
  | storePid pos => exact .fill (by rw [hp]; rfl) rfl fun _ => rfl
  | storeT pos => exact .fill (by rw [hp]; rfl) rfl fun _ => rfl
  | storeEntry pos => exact .fill (by rw [hp]; rfl) rfl fun _ => rfl
  | storeStat pos => exact .complete hp
  | returned pos => exact .stay
  | full => exact .stay

/-- The others do not move. -/
theorem Moves.pc_ne (h : Moves s p s') (hq : q ≠ p) : s'.pc q = s.pc q := by
  cases h with
  | stay => rfl
  | look _ _ _ => exact pc_goTo_ne hq ..
  | fill _ _ _ => exact pc_goTo_ne hq ..
  | complete _ => exact pc_goTo_ne hq ..

/-- What is known of a slot stays true while another one, which is vacant, is stored to. -/
theorem knows_store (h : pc.Knows d k t) (hpc : pc.filling? ≠ some pos)
    (hpos : (t.rnode pos).stat ≠ .EXIST)
    (hf : ∀ rn, (f rn).stat = rn.stat ∨ (f rn).stat = .EXIST) :
    pc.Knows d k (t.putRnode pos (f (t.rnode pos))) := by
  have hexist : ∀ pos', (t.rnode pos').stat = .EXIST →
      (t.putRnode pos (f (t.rnode pos))).rnode pos' = t.rnode pos' := by
    rintro pos' hex
    refine putRnode_rnode_ne ?_
    rintro rfl
    exact hpos hex
  have hother : ∀ pos', some pos' ≠ some pos →
      (t.putRnode pos (f (t.rnode pos))).rnode pos' = t.rnode pos' := by
    intro pos' hne
    exact putRnode_rnode_ne fun heq => hne (congrArg some heq)
  cases pc with
  | testDeleted i =>
      refine ⟨h.1, ?_⟩
      by_cases hi : hash d k i = pos
      · rw [hi, putRnode_rnode_self]
        rcases hf (t.rnode pos) with hstat | hstat
        · rw [hstat, ← hi]
          exact h.2
        · rw [hstat]
          nofun
      · rw [putRnode_rnode_ne hi]
        exact h.2
  | comparePid i =>
      rw [InsertPc.Knows, hexist _ h]
      exact h
  | compareT i =>
      rw [InsertPc.Knows, hexist _ h.1]
      exact h
  | storeT pos' =>
      rw [InsertPc.Knows, hother pos' hpc]
      exact h
  | storeEntry pos' =>
      rw [InsertPc.Knows, hother pos' hpc]
      exact h
  | storeStat pos' =>
      rw [InsertPc.Knows, hother pos' hpc]
      exact h
  | _ => trivial

/-- What the process itself knows after its step. -/
theorem knows_step_self (h : (s.pc p).Knows d (key p) s.tables) :
    ((s.step d key p).pc p).Knows d (key p) (s.step d key p).tables := by
  unfold Inserters.step
  cases hp : s.pc p with
  | testNonexist i =>
      dsimp only
      split
      · next hi =>
        rw [pc_goTo_self, tables_goTo]
        split
        · trivial
        · next hstat => exact ⟨hi, hstat⟩
      · rw [pc_goTo_self]
        trivial
  | testDeleted i =>
      rw [hp] at h
      dsimp only
      rw [pc_goTo_self, tables_goTo]
      split
      · trivial
      · next hstat =>
        show (s.tables.rnode (hash d (key p) i)).stat = .EXIST
        cases hs : (s.tables.rnode (hash d (key p) i)).stat with
        | NONEXIST => exact absurd hs h.2
        | DELETED => exact absurd hs hstat
        | EXIST => rfl
  | comparePid i =>
      rw [hp] at h
      dsimp only
      rw [pc_goTo_self, tables_goTo]
      split
      · next hpid => exact ⟨h, hpid⟩
      · trivial
  | compareT i =>
      dsimp only
      rw [pc_goTo_self, tables_goTo]
      split <;> trivial
  | storePid pos =>
      dsimp only
      rw [pc_goTo_self, tables_goTo, tables_store, InsertPc.Knows, putRnode_rnode_self]
      rfl
  | storeT pos =>
      rw [hp] at h
      dsimp only
      rw [pc_goTo_self, tables_goTo, tables_store, InsertPc.Knows, putRnode_rnode_self]
      exact ⟨h, rfl⟩
  | storeEntry pos =>
      rw [hp] at h
      dsimp only
      rw [pc_goTo_self, tables_goTo, tables_store, InsertPc.Knows, putRnode_rnode_self, newNode,
        RNode.new, ← h.1, ← h.2]
  | storeStat pos =>
      dsimp only
      rw [pc_goTo_self]
      trivial
  | returned pos =>
      dsimp only
      rw [hp]
      trivial
  | full =>
      dsimp only
      rw [hp]
      trivial

omit [DecidableEq π] in
/-- A slot that somebody is filling is vacant. -/
theorem Orderly.vacant (h : Orderly d key s) (hp : (s.pc p).filling? = some pos) :
    (s.tables.rnode pos).stat ≠ .EXIST :=
  free_eq_true.mp (h.exclusive.window_free p pos (window_of_filling hp))

omit [DecidableEq π] in
/-- And nobody else is filling it. -/
theorem Orderly.filling_ne (h : Orderly d key s) (hp : (s.pc p).filling? = some pos) (hq : q ≠ p) :
    (s.pc q).filling? ≠ some pos := fun hfill =>
  hq (h.exclusive.unique q p pos (Or.inl (window_of_filling hfill)) (Or.inl (window_of_filling hp)))

theorem Orderly.knows_step (h : Orderly d key s) (p q : π) :
    ((s.step d key p).pc q).Knows d (key q) (s.step d key p).tables := by
  by_cases hq : q = p
  · subst hq
    exact knows_step_self (h.knows q)
  have hmoves := step_moves d key s p
  generalize s.step d key p = s' at hmoves ⊢
  rw [hmoves.pc_ne hq]
  cases hmoves with
  | stay => exact h.knows q
  | look _ _ _ => exact h.knows q
  | fill hp _ hf =>
      exact knows_store (h.knows q) (h.filling_ne hp hq) (h.vacant hp) fun rn => Or.inl (hf rn)
  | complete hp =>
      have hfill : (s.pc p).filling? = _ := congrArg InsertPc.filling? hp
      exact knows_store (f := fun rn => { rn with stat := .EXIST }) (h.knows q)
        (h.filling_ne hfill hq) (h.vacant hfill) fun _ => Or.inr rfl

theorem Orderly.unknown_step (hkey : Function.Injective key) (h : Orderly d key s) (p q : π)
    (hq : ∀ pos', (s.step d key p).pc q ≠ .returned pos')
    (hex : Exists d (s.step d key p).tables pos) :
    (s.step d key p).tables.keyOf pos ≠ key q := by
  have hmoves := step_moves d key s p
  generalize s.step d key p = s' at hmoves hq hex ⊢
  cases hmoves with
  | stay => exact h.unknown q pos hq hex
  | look hp hold hnew =>
      refine h.unknown q pos (fun pos' hret => ?_) hex
      by_cases hqp : q = p
      · subst hqp
        exact hold pos' hret
      · rw [pc_goTo_ne hqp] at hq
        exact hq pos' hret
  | @fill pos' f pc hp hpc hf =>
      have hne : pos ≠ pos' := by
        rintro rfl
        have hstat := hex.2
        rw [tables_goTo, tables_store, putRnode_rnode_self, hf] at hstat
        exact h.vacant hp hstat
      have hsame : ((s.store pos' f).goTo p pc).tables.rnode pos = s.tables.rnode pos :=
        putRnode_rnode_ne hne
      rw [keyOf_of_rnode hsame]
      refine h.unknown q pos (fun k hret => ?_) ((exists_of_rnode hsame).mp hex)
      by_cases hqp : q = p
      · subst hqp
        rw [hret] at hp
        cases hp
      · exact hq k ((pc_goTo_ne hqp ..).trans hret)
  | @complete pos' hp =>
      have hqp : q ≠ p := by
        rintro rfl
        exact hq pos' (pc_goTo_self ..)
      by_cases hpos : pos = pos'
      · subst hpos
        have hnode := h.knows p
        rw [hp] at hnode
        rw [Tables.keyOf, tables_goTo, tables_store, putRnode_rnode_self, hnode]
        exact fun heq => hqp (hkey heq).symm
      · have hsame : ((s.store pos' fun rn => { rn with stat := .EXIST }).goTo p
            (.returned pos')).tables.rnode pos = s.tables.rnode pos := putRnode_rnode_ne hpos
        rw [keyOf_of_rnode hsame]
        refine h.unknown q pos (fun k hret => ?_) ((exists_of_rnode hsame).mp hex)
        exact hq k ((pc_goTo_ne hqp ..).trans hret)

omit [DecidableEq π] in
theorem orderly_start (hnew : ∀ p pos, Exists d t pos → t.keyOf pos ≠ key p) :
    Orderly d key (.start t) where
  exclusive := exclusive_of_scanning fun _ => ⟨_, rfl⟩
  behind := behind_of_start fun _ => rfl
  knows _ := trivial
  unknown p pos _ := hnew p pos

/-- A race is a collision. -/
theorem races_iff : Races d key s p ↔ Collides (s.view d key) p ((s.step d key p).view d key) := by
  unfold Races Collides
  constructor
  · rintro ⟨q, hqp, hq, hp, hp'⟩
    obtain ⟨pos, hpos⟩ := Option.ne_none_iff_exists'.mp hq
    rw [hpos] at hp hp'
    exact ⟨pos, q, hqp, window_of_filling hpos, fun h => hp (place_eq_window.mp h),
      window_of_filling hp'⟩
  · rintro ⟨pos, q, hqp, hq, hp, hp'⟩
    have hpos := place_eq_window.mp hq
    refine ⟨q, hqp, by simp [hpos], ?_, ?_⟩
    · rw [hpos]
      exact fun h => hp (window_of_filling h)
    · rw [hpos]
      exact place_eq_window.mp hp'

theorem Orderly.step (hkey : Function.Injective key) (h : Orderly d key s)
    (hno : ¬ Races d key s p) : Orderly d key (s.step d key p) where
  exclusive := exclusive_step h.exclusive (h.step_view p) fun hc => hno (races_iff.mpr hc)
  behind := behind_step h.behind (h.step_view p)
  knows := h.knows_step p
  unknown q _ := h.unknown_step hkey p q

/-! ## What a call does in the end -/

/-- `t` is what the tables are without the slots that are being filled. -/
structure Settles (s : Inserters π) (t : Tables) : Prop where
  gmem : t.gmem = s.tables.gmem
  slot : ∀ pos, (∀ p, (s.pc p).filling? ≠ some pos) → t.rnode pos = s.tables.rnode pos
  stat : ∀ pos, (t.rnode pos).stat = (s.tables.rnode pos).stat

omit [DecidableEq π] in
theorem settles_start : Settles (.start t : Inserters π) t := ⟨rfl, fun _ _ => rfl, fun _ => rfl⟩

omit [DecidableEq π] in
theorem Settles.eq (h : Settles s t) (hdone : s.Done) : t = s.tables := by
  have hslot : t.rnode = s.tables.rnode := by
    funext pos
    refine h.slot pos fun p hp => ?_
    rcases hdone p with ⟨pos', hret⟩ | hret
    · rw [hret] at hp
      cases hp
    · rw [hret] at hp
      cases hp
  have hgmem := h.gmem
  cases t
  cases s
  simp only at hslot hgmem
  rw [hslot, hgmem]

/-- A step that does not complete a slot changes nothing that stays. -/
theorem Settles.keep (h : Settles s t) (hp : ∀ pos, s.pc p ≠ .storeStat pos) :
    Settles (s.step d key p) t := by
  have hmoves := step_moves d key s p
  generalize s.step d key p = s' at hmoves ⊢
  have hfilling : ∀ q, q ≠ p → s'.pc q = s.pc q := fun q hq => hmoves.pc_ne hq
  cases hmoves with
  | stay => exact h
  | look hnone _ _ =>
      refine ⟨h.gmem, fun pos hpos => h.slot pos fun q hq => ?_, h.stat⟩
      by_cases hqp : q = p
      · rw [hqp, hnone] at hq
        cases hq
      · exact hpos q (by rw [hfilling q hqp, hq])
  | @fill pos' f pc hfill hpc hf =>
      refine ⟨h.gmem, fun pos hpos => ?_, fun pos => ?_⟩
      · have hne : pos ≠ pos' := by
          rintro rfl
          exact hpos p (by rw [pc_goTo_self, hpc])
        rw [tables_goTo, tables_store, putRnode_rnode_ne hne]
        refine h.slot pos fun q hq => ?_
        by_cases hqp : q = p
        · rw [hqp, hfill, Option.some.injEq] at hq
          exact hne hq.symm
        · exact hpos q (by rw [hfilling q hqp, hq])
      · rw [tables_goTo, tables_store, h.stat]
        by_cases hne : pos = pos'
        · subst hne
          rw [putRnode_rnode_self, hf]
        · rw [putRnode_rnode_ne hne]
  | complete hstat => exact absurd hstat (hp _)

theorem step_storeStat (key : π → PidSt) (hp : s.pc p = .storeStat pos) : s.step d key p =
    (s.store pos fun rn => { rn with stat := .EXIST }).goTo p (.returned pos) := by
  unfold Inserters.step
  rw [hp]
  rfl

/-- **Completing a slot** is the whole call. -/
theorem Settles.complete (h : Settles s t) (ho : Orderly d key s) (hp : s.pc p = .storeStat pos) :
    Settles (s.step d key p) (t.putRnode pos (newNode (key p))) := by
  have hnode := ho.knows p
  rw [hp] at hnode
  have hfill : (s.pc p).filling? = some pos := congrArg InsertPc.filling? hp
  have hpos : (s.step d key p).tables.rnode pos = newNode (key p) := by
    rw [step_storeStat key hp, tables_goTo, tables_store, putRnode_rnode_self]
    exact hnode
  have hother : ∀ pos', pos' ≠ pos → (s.step d key p).tables.rnode pos' = s.tables.rnode pos' := by
    intro pos' hne
    rw [step_storeStat key hp]
    exact putRnode_rnode_ne hne
  refine ⟨?_, fun pos' hpos' => ?_, fun pos' => ?_⟩
  · rw [step_storeStat key hp]
    exact h.gmem
  · by_cases hne : pos' = pos
    · subst hne
      rw [putRnode_rnode_self, hpos]
    · rw [putRnode_rnode_ne hne, hother pos' hne]
      refine h.slot pos' fun q hq => ?_
      by_cases hqp : q = p
      · rw [hqp, hfill, Option.some.injEq] at hq
        exact hne hq.symm
      · exact hpos' q (by rw [(step_moves d key s p).pc_ne hqp, hq])
  · by_cases hne : pos' = pos
    · subst hne
      rw [putRnode_rnode_self, hpos]
    · rw [putRnode_rnode_ne hne, hother pos' hne]
      exact h.stat pos'

/-! ## One after the other -/

/-- Where `insert_rnode` writes when the key is in no slot. -/
theorem insertPos_of_unknown (hnew : ∀ pos, Exists d t pos → t.keyOf pos ≠ k) :
    insertPos d t k = (probes d k).find? fun pos => decide ((t.rnode pos).stat ≠ .EXIST) := by
  unfold insertPos probes
  induction List.range d.lenRnode with
  | nil => rfl
  | cons i is ih =>
      rw [insertPos.go, List.map_cons]
      cases hstat : (t.rnode (hash d k i)).stat with
      | NONEXIST => rw [List.find?_cons_of_pos (by simp [hstat]), if_pos (Or.inl rfl)]
      | DELETED => rw [List.find?_cons_of_pos (by simp [hstat]), if_pos (Or.inr rfl)]
      | EXIST =>
          have hkey : ¬ (t.rnode (hash d k i)).sameKey k = true := fun hsame =>
            hnew _ ⟨hash_lt i, hstat⟩ (RNode.sameKey_iff.mp hsame)
          rw [List.find?_cons_of_neg (by simp [hstat]), if_neg (by simp), if_neg hkey, ih]

omit [DecidableEq π] in
theorem Settles.insertPos (h : Settles s t) (ho : Orderly d key s)
    (hp : ∀ pos, s.pc p ≠ .returned pos) :
    RNM.insertPos d t (key p) = (probes d (key p)).find? (s.view d key).free := by
  have hnew : ∀ pos, Exists d t pos → t.keyOf pos ≠ key p := by
    rintro pos ⟨hlt, hstat⟩
    rw [h.stat] at hstat
    have hsame : t.rnode pos = s.tables.rnode pos :=
      h.slot pos fun q hq => ho.vacant hq hstat
    rw [keyOf_of_rnode hsame]
    exact ho.unknown p pos hp ⟨hlt, hstat⟩
  rw [insertPos_of_unknown hnew]
  congr 1
  funext pos
  rw [h.stat]
  rfl

omit [DecidableEq π] in
/-- The store of `stat` is the whole call. -/
theorem Settles.claim (h : Settles s t) (ho : Orderly d key s) (hp : s.pc p = .storeStat pos) :
    Returns (insertRnode d (key p) (newNode (key p))) t (some pos)
      (t.putRnode pos (newNode (key p))) := by
  have hfill : (s.pc p).filling? = some pos := congrArg InsertPc.filling? hp
  apply insertRnode_of_insertPos
  rw [h.insertPos ho fun _ => by rw [hp]; nofun]
  exact find_of_window ho.exclusive ho.behind (window_of_filling hfill)

/-- Which steps claim a slot. -/
theorem claim?_step (ho : Orderly d key s) :
    claim? (s.view d key) p ((s.step d key p).view d key) = some pos ↔ s.pc p = .storeStat pos := by
  constructor
  · intro hc
    have hwindow := claim?_eq_some hc
    have hmove : Claiming.Moves (s.view d key) p ((s.step d key p).view d key) :=
      .step (ho.step_view p)
    have hclaimed := hmove.claimed_iff.mpr (Or.inr ⟨rfl, hc⟩)
    have hret := place_eq_claimed.mp hclaimed
    have hmoves := step_moves d key s p
    generalize s.step d key p = s' at hmoves hret
    cases hmoves with
    | stay =>
        rw [place_view hret] at hwindow
        cases hwindow
    | look _ _ hnew =>
        rw [pc_goTo_self] at hret
        exact absurd hret (hnew pos)
    | fill _ hpc _ =>
        rw [pc_goTo_self] at hret
        rw [hret] at hpc
        cases hpc
    | complete hp =>
        rw [pc_goTo_self, InsertPc.returned.injEq] at hret
        rw [hp, hret]
  · intro hp
    rw [step_storeStat key hp, view_goTo, view_storeStat fun _ => rfl]
    exact claim?_of_claim (place_view hp)

/-- What the steps of a run without races do. -/
theorem orderly_of_run (hkey : Function.Injective key) (hr : InsertRun d key s r)
    (ho : Orderly d key s) (hno : Along (fun s p _ => ¬ Races d key s p) s r) :
    Along (fun s p s' => s' = s.step d key p ∧ Orderly d key s) s r ∧
      Orderly d key (final s r) := by
  have hstep : ∀ s p s', Orderly d key s → (s' = s.step d key p ∧ ¬ Races d key s p) →
      Orderly d key s' ∧ (s' = s.step d key p ∧ Orderly d key s) := by
    rintro s p s' ho ⟨rfl, hrace⟩
    exact ⟨ho.step hkey hrace, rfl, ho⟩
  obtain ⟨hall, hsteps⟩ := Along.invariant ho (Along.and_iff.mpr ⟨hr, hno⟩) hstep
  exact ⟨hsteps, hall _ (final_mem_states s r)⟩

/-- **Without races** the calls are serializable, in the order in which they complete their
slots. -/
theorem serializable_of_noRace (hkey : Function.Injective key)
    (hnew : ∀ p pos, Exists d t pos → t.keyOf pos ≠ key p) (hr : InsertRun d key (.start t) r)
    (hdone : (final (.start t) r).Done)
    (hno : Along (fun s p _ => ¬ Races d key s p) (.start t) r) :
    Serializable d key t (final (.start t) r) := by
  obtain ⟨hsteps, horderly⟩ := orderly_of_run hkey hr (orderly_start hnew) hno
  have hview : Claiming.Run (view d key) (.start t) r := hsteps.mono fun s p s' h => by
    rw [h.1]
    exact .step (h.2.step_view p)
  have hkeep : ∀ s p s' t, Settles s t → (s' = s.step d key p ∧ Orderly d key s) →
      claim? (s.view d key) p (s'.view d key) = none → Settles s' t := by
    rintro s p s' t h ⟨rfl, ho⟩ hc
    refine h.keep fun pos hp => ?_
    rw [(claim?_step ho).mpr hp] at hc
    cases hc
  have hclaim : ∀ s p s' t pos, Settles s t → (s' = s.step d key p ∧ Orderly d key s) →
      claim? (s.view d key) p (s'.view d key) = some pos →
      ∃ t', Returns (insertRnode d (key p) (newNode (key p))) t (some pos) t' ∧ Settles s' t' := by
    rintro s p s' t pos h ⟨rfl, ho⟩ hc
    have hp := (claim?_step ho).mp hc
    exact ⟨_, h.claim ho hp, h.complete ho hp⟩
  obtain ⟨t', hserial, hsettles⟩ :=
    serially_of_run (view d key) hsteps settles_start hkeep hclaim
  have hfinal := hsettles.eq hdone
  subst hfinal
  refine ⟨_, nodup_claims hview, ?_, hserial, ?_⟩
  · intro p pos
    rw [mem_claims hview fun _ _ => nofun]
    exact place_eq_claimed
  · intro p hp
    apply insertRnode_of_full
    rw [hsettles.insertPos horderly fun _ => by rw [hp]; nofun]
    exact find_of_nowhere horderly.behind (place_view hp)

/-- An insertion of a new key takes a slot that is not in use. -/
theorem insertRnode_takes (hnew : ∀ pos, Exists d t pos → t.keyOf pos ≠ k)
    (hr : Returns (insertRnode d k (newNode k)) t (some pos) t') :
    t' = t.putRnode pos (newNode k) ∧ pos < d.lenRnode ∧ ¬ Exists d t pos := by
  cases hpos : RNM.insertPos d t k with
  | none => exact absurd (hr.unique (insertRnode_of_full hpos)).1 nofun
  | some pos' =>
      obtain ⟨hsome, rfl⟩ := hr.unique (insertRnode_of_insertPos hpos)
      obtain rfl := Option.some.inj hsome
      refine ⟨rfl, insertPos_lt hpos, ?_⟩
      rw [insertPos_of_unknown hnew] at hpos
      have hstat := List.find?_some hpos
      exact fun hex => of_decide_eq_true hstat hex.2

omit [DecidableEq π] in
/-- One after the other, no two calls return the same slot. -/
theorem distinct_of_serializable (hkey : Function.Injective key)
    (hnew : ∀ p pos, Exists d t pos → t.keyOf pos ≠ key p) (h : Serializable d key t s) :
    Distinct (s.view d key) := by
  obtain ⟨order, honce, hmem, hserial, _⟩ := h
  -- the processes that are still to come are not in the table
  have hnodup := hserial.nodup (fun t pos => Exists d t pos)
    (fun t l => (l.map Prod.fst).Nodup ∧ ∀ x ∈ l, ∀ pos, Exists d t pos → t.keyOf pos ≠ key x.1)
    ⟨honce, fun x _ => hnew x.1⟩ ?_
  · intro p q pos hp hq
    exact eq_of_nodup hnodup ((hmem p pos).mpr (place_eq_claimed.mp hp))
      ((hmem q pos).mpr (place_eq_claimed.mp hq))
  · rintro t p pos l t' ⟨honce, hnew⟩ hop
    obtain ⟨hp, honce⟩ := List.nodup_cons.mp honce
    obtain ⟨hnewp, hnew⟩ := List.forall_mem_cons.mp hnew
    obtain ⟨rfl, hlt, hvacant⟩ := insertRnode_takes hnewp hop
    refine ⟨⟨hvacant, ⟨hlt, by rw [putRnode_rnode_self]; rfl⟩, fun pos' hex => ?_⟩, honce, ?_⟩
    · have hne : pos' ≠ pos := by
        rintro rfl
        exact hvacant hex
      exact (exists_of_rnode (putRnode_rnode_ne hne)).mpr hex
    · intro x hx pos' hex
      by_cases hne : pos' = pos
      · subst hne
        rw [Tables.keyOf, putRnode_rnode_self]
        intro heq
        exact hp (List.mem_map.mpr ⟨x, hx, (hkey heq).symm⟩)
      · have hsame : (t.putRnode pos (newNode (key p))).rnode pos' = t.rnode pos' :=
          putRnode_rnode_ne hne
        rw [keyOf_of_rnode hsame]
        exact hnew x hx pos' ((exists_of_rnode hsame).mp hex)

omit [DecidableEq π] in
theorem at_iff :
    At (s.view d key) p pos ↔ (s.pc p).filling? = some pos ∨ s.pc p = .returned pos :=
  or_congr place_eq_window place_eq_claimed

/-- Who has come to a slot completes that one, whatever else happens. -/
theorem at_step (h : At (s.view d key) q pos) : At ((s.step d key p).view d key) q pos := by
  have hmoves := step_moves d key s p
  generalize s.step d key p = s' at hmoves ⊢
  rw [at_iff] at h ⊢
  by_cases hqp : q = p
  · subst hqp
    cases hmoves with
    | stay => exact h
    | look hp hold _ =>
        rcases h with h | h
        · rw [hp] at h
          cases h
        · exact absurd h (hold pos)
    | fill hp hpc _ =>
        rcases h with h | h
        · rw [pc_goTo_self, hpc, ← hp]
          exact Or.inl h
        · rw [h] at hp
          cases hp
    | complete hp =>
        rw [hp] at h
        rcases h with h | h
        · rw [pc_goTo_self, Option.some.inj h]
          exact Or.inr rfl
        · cases h
  · rw [hmoves.pc_ne hqp]
    exact h

/-- **When processes that register at once get what they would get one after the other**: exactly
when none comes to a slot that another one is filling. -/
theorem inserts_serializable_iff_noRace (hkey : Function.Injective key)
    (hnew : ∀ p pos, Exists d t pos → t.keyOf pos ≠ key p) (hr : InsertRun d key (.start t) r)
    (hdone : (final (.start t) r).Done) :
    Serializable d key t (final (.start t) r) ↔
      Along (fun s p _ => ¬ Races d key s p) (.start t) r := by
  constructor
  · intro h
    have hkeep : Along (fun s _ s' => ∀ q pos, At (view d key s) q pos → At (view d key s') q pos)
        (.start t) r := by
      refine hr.mono ?_
      rintro s p s' rfl q pos hat
      exact at_step hat
    have hwindow : ∀ p pos, ((final (.start t) r).view d key).place p ≠ .window pos := by
      intro p pos hp
      have hfill := place_eq_window.mp hp
      rcases hdone p with ⟨pos', hret⟩ | hret
      · rw [hret] at hfill
        cases hfill
      · rw [hret] at hfill
        cases hfill
    have hno := noCollision_of_distinct hkeep hwindow (distinct_of_serializable hkey hnew h)
    refine (Along.and_iff.mpr ⟨hr, hno⟩).mono ?_
    rintro s p s' ⟨rfl, hcollides⟩ hraces
    exact hcollides (races_iff.mp hraces)
  · exact serializable_of_noRace hkey hnew hr hdone

instance [Fintype π] (s : Inserters π) (p : π) : Decidable (Races d key s p) :=
  inferInstanceAs (Decidable (∃ q, q ≠ p ∧ _ ∧ _ ∧ _))

/-- Two processes with the same first probe. -/
def twoKeys (p : Bool) : PidSt := if p then (2, 0) else (4, 0)

/-- The run in which the processes take their steps in this order. -/
def insertsInOrder (schedule : List Bool) : List (Bool × Inserters Bool) :=
  trajectory (Inserters.step smallDims twoKeys) (.start initialTables) schedule

theorem insertRun_insertsInOrder (schedule : List Bool) :
    InsertRun smallDims twoKeys (.start initialTables) (insertsInOrder schedule) :=
  along_step_trajectory

/-- The second process tests the slot when the first one has completed it. -/
def afterStat : List Bool :=
  [true, true, true, true, true] ++ List.replicate 9 false

/-- It tests it one step before that. -/
def beforeStat : List Bool :=
  [true, true, true, true, false, true] ++ List.replicate 4 false

theorem twoKeys_injective : Function.Injective twoKeys := by
  decide

theorem twoKeys_new (p : Bool) (pos : Nat) (hex : Exists smallDims initialTables pos) :
    initialTables.keyOf pos ≠ twoKeys p := by
  cases hex.2

theorem inserts_serializable_afterStat :
    Serializable smallDims twoKeys initialTables
      (final (.start initialTables) (insertsInOrder afterStat)) ∧
    ¬ Serializable smallDims twoKeys initialTables
      (final (.start initialTables) (insertsInOrder beforeStat)) := by
  constructor
  · refine (inserts_serializable_iff_noRace twoKeys_injective twoKeys_new
      (insertRun_insertsInOrder _) ?_).mpr ?_
    · intro p
      cases p
      · exact Or.inl ⟨1, rfl⟩
      · exact Or.inl ⟨0, rfl⟩
    · have hok : ∀ (s : Inserters Bool) p, decide (¬ Races smallDims twoKeys s p) = true →
          ¬ Races smallDims twoKeys s p := fun _ _ => of_decide_eq_true
      exact along_trajectory hok (by decide)
  · intro h
    have hno := (inserts_serializable_iff_noRace twoKeys_injective twoKeys_new
      (insertRun_insertsInOrder _) ?_).mp h
    · exact hno.2.2.2.2.1 ⟨true, by decide, by decide, by decide, by decide⟩
    · intro p
      cases p
      · exact Or.inl ⟨0, rfl⟩
      · exact Or.inl ⟨0, rfl⟩

end Inserters

end Vcuda.RNM
