import Vcuda.Rnm.Invariants
import Mathlib.Tactic.IntervalCases

/-!
# The process table as a finite map

What `insert_rnode`, `delete_rnode` and `find_rnode` are meant to implement: a map from processes
to their slots (`MapOp.meaning`). A history runs the operations on the table and on the map in
lockstep, and `represents_iff_single` says which histories keep the two together.

An insertion always does, also where it leaves an older slot of the same process behind further down
the probe path. A deletion then empties the newer slot only, and the older one comes back. So what
counts is that the process deleted has one slot (`MapOp.Single`).

The lookups themselves need no such condition: in every history, with insertions into a full table
among its steps, `find_rnode` finds each process that has a slot, and no operation changes what is
found under another key (`findRnode_complete`).
-/

namespace Vcuda.RNM

open Traced Tables Probing

variable {d : Dims} {t t' : Tables} {key : PidSt} {val : RNode} {s s' pos : Nat}

/-- What the table says about a process. -/
abbrev SlotMap := PidSt → Option RNode

/-- The value of the slot `find_rnode` returns. -/
def found (d : Dims) (t : Tables) (key : PidSt) : Option RNode :=
  (findRnode d t key).map t.rnode

inductive MapOp where
  | insertRnode (key : PidSt) (val : RNode)
  | deleteRnode (key : PidSt)

/-- The operation on the map. -/
def MapOp.meaning : MapOp → SlotMap → SlotMap
  | .insertRnode key val, m => Function.update m key (some val)
  | .deleteRnode key, m => Function.update m key none

/-- The operation on the table. The value inserted carries the key and is in use, and the table is
not full. -/
def MapOp.Performs (d : Dims) (t : Tables) : MapOp → Tables → Prop
  | .insertRnode key val, t' => (val.pid, val.t) = key ∧ val.stat = .EXIST ∧
      ∃ pos, Returns (RNM.insertRnode d key val) t (some pos) t'
  | .deleteRnode key, t' => Returns (RNM.deleteRnode d key) t () t'

/-- The operation on both. -/
def Lockstep (d : Dims) (x : Tables × SlotMap) (op : MapOp) (x' : Tables × SlotMap) : Prop :=
  op.Performs d x.1 x'.1 ∧ x'.2 = op.meaning x.2

/-- The table holds what the map says. -/
def Represents (d : Dims) (x : Tables × SlotMap) : Prop := found d x.1 = x.2

/-- The process deleted is in one slot at most. -/
def MapOp.Single (d : Dims) (t : Tables) : MapOp → Prop
  | .insertRnode _ _ => True
  | .deleteRnode key => ∀ s s', Exists d t s → Exists d t s' → t.keyOf s = key → t.keyOf s' = key →
      s = s'

/-! ## The operations on the slots -/

theorem found_eq_get : found d t = Probing.get (slots d t) t.rnode (probes d) := by
  funext key
  unfold found Probing.get
  rw [findRnode_eq_lookup]

theorem insertRnode_returns_some
    (hr : Returns (insertRnode d key val) t (some pos) t') :
    insertPos d t key = some pos ∧ t' = t.putRnode pos val := by
  cases hpos : insertPos d t key with
  | none =>
      have hval := (hr.unique (insertRnode_of_full hpos)).1
      cases hval
  | some s =>
      obtain ⟨hval, rfl⟩ := hr.unique (insertRnode_of_insertPos hpos)
      exact ⟨hval.symm, by rw [Option.some.inj hval]⟩

theorem deleteRnode_not_faults {e : Fault} : ¬ Faults (deleteRnode d key) t e := by
  intro hf
  rw [deleteRnode, (returns_read _ t).faults_bind_iff] at hf
  split at hf
  · exact faults_update hf
  · exact faults_pure hf

theorem slotOf_of_carries (hkey : (val.pid, val.t) = key) (hstat : val.stat = .EXIST) :
    slotOf val = .full key := by
  unfold slotOf
  rw [hstat, ← hkey]

/-- **An insertion is an update of the map.** -/
theorem insertRnode_found (hreach : Reachable (probes d) (slots d t))
    (hop : (MapOp.insertRnode key val).Performs d t t') :
    Reachable (probes d) (slots d t') ∧
      found d t' = Function.update (found d t) key (some val) := by
  obtain ⟨hkey, hstat, pos, hr⟩ := hop
  obtain ⟨hpos, rfl⟩ := insertRnode_returns_some hr
  have hslots := slots_putRnode (t := t) (insertPos_lt hpos) val
  rw [slotOf_of_carries hkey hstat] at hslots
  rw [insertPos_eq_place] at hpos
  rw [found_eq_get, found_eq_get, hslots]
  refine ⟨hreach.update_place hpos, get_update_place hreach hpos ?_ putRnode_rnode_self⟩
  exact fun q hq => putRnode_rnode_ne hq

/-- **A deletion removes the process from the map when it is in one slot only.** -/
theorem deleteRnode_found (hreach : Reachable (probes d) (slots d t))
    (hop : (MapOp.deleteRnode key).Performs d t t') :
    Reachable (probes d) (slots d t') ∧
      (found d t' = Function.update (found d t) key none ↔ (MapOp.deleteRnode key).Single d t) := by
  obtain ⟨tr, hr⟩ := hop
  rcases deleteRnode_runs hr with ⟨hnone, rfl⟩ | ⟨s, hfind, rfl⟩
  · -- there is no such process, in the table or in the map
    refine ⟨hreach, iff_of_true ?_ ?_⟩
    · have hfound : found d t' key = none := by simp [found, hnone]
      rw [← hfound, Function.update_eq_self]
    · intro s s' hex _ hkey _
      rw [findRnode_eq_lookup, lookup_eq_none_iff hreach] at hnone
      exact absurd (slots_eq_full.mpr ⟨hex, hkey⟩) (hnone s)
  · have hslots := slots_putRnode (t := t) (findRnode_eq_some hfind).1.1
      (t.rnode s).shallowDelete
    have htomb : slotOf (t.rnode s).shallowDelete = .tomb := rfl
    rw [htomb] at hslots
    have hself := findRnode_eq_some hfind
    rw [findRnode_eq_lookup] at hfind
    rw [found_eq_get, found_eq_get, hslots]
    refine ⟨hreach.update_tomb, ?_⟩
    -- the map is right again exactly when no other slot has the key
    rw [get_update_tomb hreach hfind fun q hq => putRnode_rnode_ne hq]
    constructor
    · intro honly s₁ s₂ hex₁ hex₂ hkey₁ hkey₂
      rw [honly s₁ (slots_eq_full.mpr ⟨hex₁, hkey₁⟩), honly s₂ (slots_eq_full.mpr ⟨hex₂, hkey₂⟩)]
    · intro hsingle q hq
      obtain ⟨hex, hkey⟩ := slots_eq_full.mp hq
      exact hsingle q s hex hself.1 hkey hself.2

/-! ## Histories -/

/-- A step keeps the table and the map together exactly when it satisfies the condition. -/
theorem lockstep_represents {op : MapOp} {x x' : Tables × SlotMap}
    (hreach : Reachable (probes d) (slots d x.1)) (hx : Represents d x)
    (hstep : Lockstep d x op x') :
    Reachable (probes d) (slots d x'.1) ∧ (Represents d x' ↔ op.Single d x.1) := by
  obtain ⟨hop, hm⟩ := hstep
  unfold Represents at *
  rw [hm, ← hx]
  cases op with
  | insertRnode key val =>
      obtain ⟨hreach', hfound⟩ := insertRnode_found hreach hop
      exact ⟨hreach', iff_of_true hfound trivial⟩
  | deleteRnode key => exact deleteRnode_found hreach hop

/-- **When the process table is a map.** From a freshly initialised table, the table holds what the
map says in every state of a history exactly when every process deleted is in one slot at most. -/
theorem represents_iff_single {r : List (MapOp × Tables × SlotMap)} (hf : Fresh d t)
    (hr : Along (Lockstep d) (t, fun _ => none) r) :
    (∀ x ∈ states (t, fun _ => none) r, Represents d x) ↔
      Along (fun x op _ => op.Single d x.1) (t, fun _ => none) r := by
  have hstart : Represents d (t, fun _ => none) := by
    show found d t = fun _ => none
    funext key
    unfold found
    have hreach := (keyed_of_fresh hf).reachable
    have hnone : findRnode d t key = none := by
      rw [findRnode_eq_lookup, lookup_eq_none_iff hreach]
      intro s hs
      exact not_exists_of_fresh hf (slots_eq_full.mp hs).1
    rw [hnone, Option.map_none]
  apply Along.states_iff
    (I := fun x => Reachable (probes d) (slots d x.1) ∧ Represents d x)
    ⟨(keyed_of_fresh hf).reachable, hstart⟩ hr
  · exact fun x hx => hx.2
  · intro x op x' hx hstep hsingle
    obtain ⟨hreach', hiff⟩ := lockstep_represents hx.1 hx.2 hstep
    exact ⟨hreach', hiff.mpr hsingle⟩
  · intro x op x' hx hstep hx'
    exact (lockstep_represents hx.1 hx.2 hstep).2.mp hx'

/-! ## What lookups find -/

/-- The process the operation is about. -/
def MapOp.process : MapOp → PidSt
  | .insertRnode key _ => key
  | .deleteRnode key => key

/-- The operation on the table, whether there is room for the process or not. The value inserted
carries the key and is in use. -/
def MapOp.Executes (d : Dims) (t : Tables) : MapOp → Tables → Prop
  | .insertRnode key val, t' => (val.pid, val.t) = key ∧ val.stat = .EXIST ∧
      ∃ r, Returns (RNM.insertRnode d key val) t r t'
  | .deleteRnode key, t' => Returns (RNM.deleteRnode d key) t () t'

/-- `find_rnode` returns the same slot for the process, with the same content. -/
def Undisturbed (d : Dims) (t t' : Tables) (key : PidSt) : Prop :=
  findRnode d t' key = findRnode d t key ∧ found d t' key = found d t key

theorem executes_insertRnode (hop : (MapOp.insertRnode key val).Executes d t t') :
    slotOf val = .full key ∧
      (t' = t ∨ ∃ pos, insertPos d t key = some pos ∧ t' = t.putRnode pos val) := by
  obtain ⟨hkey, hstat, r, hr⟩ := hop
  refine ⟨slotOf_of_carries hkey hstat, ?_⟩
  cases hpos : insertPos d t key with
  | none => exact Or.inl (hr.unique (insertRnode_of_full hpos)).2
  | some s => exact Or.inr ⟨s, rfl, (hr.unique (insertRnode_of_insertPos hpos)).2⟩

/-- Overwriting a slot that is not the process's by one that is not either disturbs no lookup of the
process. -/
theorem undisturbed_putRnode {rn : RNode} (hreach : Reachable (probes d) (slots d t))
    (hs : s < d.lenRnode) (hreach' : Reachable (probes d) (slots d (t.putRnode s rn)))
    (hold : slots d t s ≠ .full key) (hnew : slotOf rn ≠ .full key) (hused : slotOf rn ≠ .never) :
    Undisturbed d t (t.putRnode s rn) key := by
  unfold Undisturbed
  rw [slots_putRnode hs] at hreach'
  rw [findRnode_eq_lookup, findRnode_eq_lookup, found_eq_get, found_eq_get, slots_putRnode hs]
  constructor
  · exact lookup_update_of_ne hreach hreach' hold hnew hused
  · exact get_update_of_ne hreach hreach' hold hnew hused fun q hq => putRnode_rnode_ne hq

/-- **One operation** keeps every stored process reachable, and disturbs no other one. -/
theorem executes_step {op : MapOp} (hreach : Reachable (probes d) (slots d t))
    (hop : op.Executes d t t') :
    Reachable (probes d) (slots d t') ∧ ∀ key, key ≠ op.process → Undisturbed d t t' key := by
  cases op with
  | insertRnode key val =>
      obtain ⟨hval, rfl | ⟨pos, hpos, rfl⟩⟩ := executes_insertRnode hop
      · exact ⟨hreach, fun _ _ => ⟨rfl, rfl⟩⟩
      · have hlt := insertPos_lt hpos
        rw [insertPos_eq_place] at hpos
        have hreach' : Reachable (probes d) (slots d (t.putRnode pos val)) := by
          rw [slots_putRnode hlt, hval]
          exact hreach.update_place hpos
        refine ⟨hreach', ?_⟩
        intro key' hne
        have hnew : slotOf val ≠ .full key' := by
          rw [hval]
          exact fun h => hne (Slot.full.inj h).symm
        have hused : slotOf val ≠ .never := by
          rw [hval]
          exact nofun
        exact undisturbed_putRnode hreach hlt hreach' (not_full_of_place hpos hne) hnew hused
  | deleteRnode key =>
      obtain ⟨tr, hr⟩ := hop
      rcases deleteRnode_runs hr with ⟨_, rfl⟩ | ⟨s, hfind, rfl⟩
      · exact ⟨hreach, fun _ _ => ⟨rfl, rfl⟩⟩
      · obtain ⟨hex, hkey⟩ := findRnode_eq_some hfind
        have hreach' : Reachable (probes d) (slots d (t.putRnode s (t.rnode s).shallowDelete)) := by
          rw [slots_putRnode hex.1]
          exact hreach.update_tomb
        refine ⟨hreach', ?_⟩
        intro key' hne
        have hold : slots d t s ≠ .full key' := by
          intro hfull
          exact hne ((slots_eq_full.mp hfull).2.symm.trans hkey)
        exact undisturbed_putRnode hreach hex.1 hreach' hold nofun nofun

/-- In a sound table `find_rnode` finds exactly the processes that have a slot. -/
theorem findRnode_isSome_iff (hreach : Reachable (probes d) (slots d t)) :
    (findRnode d t key).isSome ↔ ∃ s, Exists d t s ∧ t.keyOf s = key := by
  rw [findRnode_eq_lookup, lookup_isSome_iff hreach]
  simp only [slots_eq_full]

/-- **`find_rnode` misses nothing, and operations on one key do not disturb another.** In every
state of a history from a freshly initialised table a process is found exactly when some slot is in
use under its key, and every step leaves what is found under other keys unchanged. -/
theorem findRnode_complete {r : List (MapOp × Tables)} (hf : Fresh d t)
    (hr : Along (fun x op x' => op.Executes d x x') t r) :
    (∀ x ∈ states t r, ∀ key,
      (findRnode d x key).isSome ↔ ∃ s, Exists d x s ∧ x.keyOf s = key) ∧
    Along (fun x op x' => ∀ key, key ≠ op.process → Undisturbed d x x' key) t r := by
  obtain ⟨hreach, hundisturbed⟩ :=
    Along.invariant (I := fun x => Reachable (probes d) (slots d x))
      (keyed_of_fresh hf).reachable hr fun _ _ _ hx hop => executes_step hx hop
  exact ⟨fun x hx key => findRnode_isSome_iff (hreach x hx), hundisturbed⟩

/-- The tables the operation leads to. -/
def MapOp.next (d : Dims) (t : Tables) : MapOp → Tables
  | .insertRnode key val => (RNM.insertRnode d key val t).state
  | .deleteRnode key => (RNM.deleteRnode d key t).state

/-- A value inserted carries the key and is in use. -/
def MapOp.carries : MapOp → Bool
  | .insertRnode key val => (val.pid, val.t) = key ∧ val.stat = .EXIST
  | .deleteRnode _ => true

theorem state_of_returns {α : Type} {y : Exec Tables α} {a : α} (hr : Returns y t a t') :
    (y t).state = t' := by
  obtain ⟨tr, hr⟩ := hr
  show (y t).state = t'
  rw [show y t = _ from hr]

theorem deleteRnode_next :
    Returns (deleteRnode d key) t () ((MapOp.deleteRnode key).next d t) := by
  rcases runs_or_faults (deleteRnode d key) t with ⟨_, t', _, hr⟩ | ⟨e, hf⟩
  · rw [MapOp.next, state_of_returns hr.returns]
    exact hr.returns
  · exact absurd hf deleteRnode_not_faults

/-- Every operation returns. -/
theorem executes_next {op : MapOp} (h : op.carries = true) : op.Executes d t (op.next d t) := by
  cases op with
  | insertRnode key val =>
      obtain ⟨hkey, hstat⟩ := of_decide_eq_true h
      obtain ⟨r, t', hr, _⟩ := insertRnode_returns d t key val
      refine ⟨hkey, hstat, r, ?_⟩
      rw [MapOp.next, state_of_returns hr]
      exact hr
  | deleteRnode key => exact deleteRnode_next

/-- Two processes fill the table, a third does not get in, and the first one goes. -/
def thirdStaysOut : List MapOp :=
  [.insertRnode (1, 0) (.new 1 0 (-1)), .insertRnode (2, 0) (.new 2 0 (-1)),
    .insertRnode (3, 0) (.new 3 0 (-1)), .deleteRnode (1, 0)]

/-- The second process is still found, behind the slot of the first. -/
theorem findRnode_thirdStaysOut :
    (findRnode smallDims
      (final initialTables (trajectory (MapOp.next smallDims) initialTables thirdStaysOut))
      (2, 0)).isSome := by
  have hr : Along (fun x op x' => op.Executes smallDims x x') initialTables
      (trajectory (MapOp.next smallDims) initialTables thirdStaysOut) :=
    along_trajectory (fun _ _ => executes_next) (by decide)
  refine ((findRnode_complete (fresh_initialTables _) hr).1 _ (final_mem_states _ _) (2, 0)).mpr ?_
  exact ⟨1, ⟨by decide, by decide⟩, by decide⟩

/-! ### Computed histories -/

/-- The state the operation leads to. -/
def MapOp.apply (d : Dims) (x : Tables × SlotMap) (op : MapOp) : Tables × SlotMap :=
  match op with
  | .insertRnode key val => ((RNM.insertRnode d key val x.1).state, op.meaning x.2)
  | .deleteRnode key => ((RNM.deleteRnode d key x.1).state, op.meaning x.2)

/-- The value carries the key and is in use, and there is room for it. -/
def MapOp.accepted (d : Dims) (x : Tables × SlotMap) : MapOp → Bool
  | .insertRnode key val =>
      (val.pid, val.t) = key ∧ val.stat = .EXIST ∧ (insertPos d x.1 key).isSome
  | .deleteRnode _ => true

theorem lockstep_apply {x : Tables × SlotMap} {op : MapOp} (h : op.accepted d x = true) :
    Lockstep d x op (op.apply d x) := by
  cases op with
  | insertRnode key val =>
      obtain ⟨hkey, hstat, hroom⟩ := of_decide_eq_true h
      obtain ⟨pos, hpos⟩ := Option.isSome_iff_exists.mp hroom
      have hr : Returns (insertRnode d key val) x.1 (some pos) (x.1.putRnode pos val) :=
        insertRnode_of_insertPos hpos
      refine ⟨⟨hkey, hstat, pos, ?_⟩, rfl⟩
      show Returns (insertRnode d key val) x.1 (some pos) (insertRnode d key val x.1).state
      rw [state_of_returns hr]
      exact hr
  | deleteRnode key => exact ⟨deleteRnode_next, rfl⟩

/-- The history of the operations, from a table without processes. -/
def mapHistory (d : Dims) : List MapOp → List (MapOp × Tables × SlotMap) :=
  trajectory (MapOp.apply d) (initialTables, fun _ => none)

theorem along_mapHistory {ops : List MapOp}
    (h : allSteps (MapOp.apply d) (MapOp.accepted d) (initialTables, fun _ => none) ops = true) :
    Along (Lockstep d) (initialTables, fun _ => none) (mapHistory d ops) :=
  along_trajectory (fun _ _ => lockstep_apply) h

/-- Two processes that hash to the same slot come, and the first goes. -/
def firstGoes : List MapOp :=
  [.insertRnode (1, 0) (.new 1 0 (-1)), .insertRnode (2, 0) (.new 2 0 (-1)), .deleteRnode (1, 0)]

theorem represents_firstGoes :
    Represents smallDims
      (final (initialTables, fun _ => none) (mapHistory smallDims firstGoes)) := by
  refine (represents_iff_single (fresh_initialTables _) (along_mapHistory (by decide))).mpr ?_ _
    (final_mem_states _ _)
  refine ⟨trivial, trivial, ?_, trivial⟩
  intro s s' hex hex' hkey hkey'
  have hlt : s < 2 := hex.1
  have hlt' : s' < 2 := hex'.1
  interval_cases s <;> interval_cases s'
  · rfl
  · exact absurd hkey' (by decide)
  · exact absurd hkey (by decide)
  · rfl

/-- The second process is then inserted again, before its old slot, and deleted. -/
def comesBack : List MapOp :=
  firstGoes ++ [.insertRnode (2, 0) (.new 2 0 7), .deleteRnode (2, 0)]

/-- **A deleted process comes back with an old value.** -/
theorem not_represents :
    ¬ ∀ (d : Dims) (t : Tables) (r : List (MapOp × Tables × SlotMap)), Fresh d t →
      Along (Lockstep d) (t, fun _ => none) r →
      ∀ x ∈ states (t, fun _ => none) r, Represents d x := by
  intro hall
  have hrep := hall smallDims initialTables (mapHistory smallDims comesBack)
    (fresh_initialTables _) (along_mapHistory (by decide)) _ (final_mem_states _ _)
  have hfound := congrFun hrep (2, 0)
  revert hfound
  decide

end Vcuda.RNM
