import Vcuda.Common.Sweep
import Vcuda.Hijack.Limit
import Vcuda.Proc.Attach
import Vcuda.Rnm.Links

/-!
# Processes that start at once

The constructor of `rnm` with its steps interleaved with those of other processes. For each of the
two tables, the process that creates the segment initialises the elements one by one, while the
others take it for complete and use it. A new segment is all zeros, which reads as an empty table.

What others have put into the table meanwhile is lost when the loop comes to it, and in no other way
(`nobody_dropped_iff`). Where the loop has not come, the `next` of an empty record is `0` and not
`-1`. So when the process is gone before the end of its loop, `gmem_used` does not end any more once
the process in a slot past that end has a record (`stalls_of_creator_gone`).

The calls of the processes that have been constructed are steps.
-/

namespace Vcuda.Proc

open Traced Vcuda.RNM Tables Hijack Sweeping

/-- `ptr_rnode` and `ptr_gmem`. -/
inductive Table where
  | rnode
  | gmem
  deriving DecidableEq

/-- Where a process is in the constructor of `rnm`. -/
inductive Phase where
  /-- at `init_rnode` or `init_gmem` -/
  | opens (τ : Table)
  /-- in the loop that follows, at `i` -/
  | clears (τ : Table) (i : Nat)
  | ready
  | ended
  deriving DecidableEq

/-- The processes, the segments that exist, and what is in them. -/
structure Startup where
  phase : PidSt → Phase
  made : Table → Bool
  tables : Tables

inductive Move where
  | construct (key : PidSt)
  | call (call : Call)
  -- also when it is killed
  | exit (key : PidSt)

namespace Table

def length (d : Dims) : Table → Nat
  | rnode => d.lenRnode
  | gmem => d.lenGmem

/-- `ptr_rnode[i].initialize()`, `ptr_gmem[i].initialize()` -/
def initializeAt (i : Nat) (t : Tables) : Table → Tables
  | rnode => t.putRnode i RNode.initialized
  | gmem => t.modifyGmem i fun _ => GMem.initialized

/-- What comes after it in `RNM::init`. -/
def after : Table → Phase
  | rnode => .opens gmem
  | gmem => .ready

/-- The element is in use. -/
def InUse (d : Dims) (t : Tables) (i : Nat) : Table → Prop
  | rnode => Exists d t i
  | gmem => t.Live i

end Table

namespace Startup

/-- There are no segments, and what they will be is `t`. -/
def boot (t : Tables) : Startup := ⟨fun _ => .opens .rnode, fun _ => false, t⟩

def goTo (m : Startup) (key : PidSt) (φ : Phase) : Startup :=
  { m with phase := Function.update m.phase key φ }

/-- The next step of the constructor. -/
def construct (d : Dims) (m : Startup) (key : PidSt) : Option Startup :=
  match m.phase key with
  | .opens τ =>
      -- `shmget` with `IPC_EXCL` succeeds for one process
      if m.made τ then some (m.goTo key τ.after)
      else some { m.goTo key (.clears τ 0) with made := Function.update m.made τ true }
  | .clears τ i =>
      if i < τ.length d then
        some { m.goTo key (.clears τ (i + 1)) with tables := τ.initializeAt i m.tables }
      else some (m.goTo key τ.after)
  | .ready => none
  | .ended => none

def next (d : Dims) (fuel : Nat) (m : Startup) : Move → Option Startup
  | .construct key => m.construct d key
  | .call call =>
      let o := call.exec d fuel m.tables
      if m.phase call.key = .ready ∧ o.result.isOk then some { m with tables := o.state } else none
  | .exit key => some (m.goTo key .ended)

end Startup

/-- A step of a process. -/
def StartupStep (d : Dims) (m : Startup) (a : Move) (m' : Startup) : Prop :=
  ∃ fuel, m.next d fuel a = some m'

/-- Segments as they are created. -/
structure Zeroed (d : Dims) (t : Tables) : Prop where
  rnode : ∀ s, s < d.lenRnode → t.rnode s = ⟨0, 0, 0, .NONEXIST⟩
  gmem : ∀ g, InRange d g → t.gmem g = ⟨0, 0, 0⟩

/-- Which element of the table the step initialises. -/
def initialized (d : Dims) (τ : Table) (m : Startup) : Move → Option Nat
  | .construct key =>
      match m.phase key with
      | .clears τ' i => if τ' = τ ∧ i < τ.length d then some i else none
      | _ => none
  | _ => none

/-- What the step initialises is not in use. -/
def Harmless (d : Dims) (m : Startup) (a : Move) : Prop :=
  ∀ τ i, initialized d τ m a = some i → ¬ τ.InUse d m.tables i

/-- A process loses its slot, or a record that no call removes is emptied. -/
def Drops (d : Dims) (m : Startup) (a : Move) (m' : Startup) : Prop :=
  (∃ key, Vcuda.RNM.Present d m.tables key ∧ ¬ Vcuda.RNM.Present d m'.tables key) ∨
  ((∀ call, a ≠ .call call) ∧ ∃ g, m.tables.Live g ∧ ¬ m'.tables.Live g)

/-! ## What a step does -/

/-- The steps, case by case. -/
inductive Moves (d : Dims) (m : Startup) : Move → Startup → Prop where
  | make {key τ} : m.phase key = .opens τ → m.made τ = false →
      Moves d m (.construct key)
        { m.goTo key (.clears τ 0) with made := Function.update m.made τ true }
  | find {key τ} : m.phase key = .opens τ → m.made τ = true →
      Moves d m (.construct key) (m.goTo key τ.after)
  | clear {key τ i} : m.phase key = .clears τ i → i < τ.length d →
      Moves d m (.construct key)
        { m.goTo key (.clears τ (i + 1)) with tables := τ.initializeAt i m.tables }
  | finish {key τ i} : m.phase key = .clears τ i → ¬ i < τ.length d →
      Moves d m (.construct key) (m.goTo key τ.after)
  | call {call t'} : m.phase call.key = .ready → CallStep d m.tables call t' →
      Moves d m (.call call) { m with tables := t' }
  | exit {key} : Moves d m (.exit key) (m.goTo key .ended)

variable {d : Dims} {t t' t₁ : Tables} {m m' m₁ : Startup} {a : Move} {key : PidSt} {τ : Table}
  {φ : Phase} {s i k : Nat} {p : Ptr} {n : UInt64} {call : Call} {r r₁ r₂ : List (Move × Startup)}

theorem StartupStep.moves (hstep : StartupStep d m a m') : Moves d m a m' := by
  obtain ⟨fuel, hnext⟩ := hstep
  cases a with
  | construct key =>
      simp only [Startup.next, Startup.construct] at hnext
      split at hnext
      · next τ hphase =>
        split at hnext
        · next hmade =>
          cases hnext
          exact .find hphase hmade
        · next hmade =>
          cases hnext
          exact .make hphase (Bool.eq_false_of_not_eq_true hmade)
      · next τ i hphase =>
        split at hnext
        · next hi =>
          cases hnext
          exact .clear hphase hi
        · next hi =>
          cases hnext
          exact .finish hphase hi
      · cases hnext
      · cases hnext
  | call call =>
      simp only [Startup.next] at hnext
      split at hnext
      · next hok =>
        cases hnext
        refine .call hok.1 ?_
        cases hx : (call.exec d fuel m.tables).result with
        | error e =>
            rw [hx] at hok
            cases hok.2
        | ok ret => exact ⟨fuel, ret, (runs_of_ok hx).returns⟩
      · cases hnext
  | exit key =>
      cases hnext
      exact .exit

/-! ## Who initialises -/

def Phase.next (τ : Table) : Phase → Option Nat
  | .clears τ' i => if τ' = τ then some i else none
  | _ => none

/-- The processes as parties that sweep a table. -/
def Startup.view (τ : Table) (m : Startup) : Sweeping.State PidSt :=
  ⟨m.made τ, fun key => (m.phase key).next τ⟩

theorem view_goTo :
    (m.goTo key φ).view τ = ⟨m.made τ, Function.update (m.view τ).next key (φ.next τ)⟩ :=
  congrArg (Sweeping.State.mk _) (Function.comp_update (Phase.next τ) m.phase key φ)

/-- A process that does not initialise the table now. -/
theorem leave_view (hφ : φ.next τ = none) :
    Sweeping.Step (m.view τ) none ((m.goTo key φ).view τ) := by
  rw [view_goTo, hφ]
  exact .leave key

theorem next_after (τ' : Table) : τ'.after.next τ = none := by
  cases τ' <;> rfl

/-- **The steps of the constructor are those of a party.** -/
theorem Moves.view (h : Moves d m a m') :
    Sweeping.Step (m.view τ) (initialized d τ m a) (m'.view τ) := by
  cases h with
  | @make key τ' hphase hmade =>
      have hnone : initialized d τ m (.construct key) = none := by
        simp only [initialized, hphase]
      rw [hnone]
      by_cases hτ : τ' = τ
      · subst hτ
        have hview : Startup.view τ' { m.goTo key (.clears τ' 0) with
            made := Function.update m.made τ' true } =
            ⟨true, Function.update (m.view τ').next key (some 0)⟩ := by
          have hnext := congrArg Sweeping.State.next (@view_goTo m key τ' (.clears τ' 0))
          simp only [Phase.next, if_true] at hnext
          exact congr (congrArg Sweeping.State.mk (Function.update_self ..)) hnext
        rw [hview]
        exact .make key hmade
      · have hview : Startup.view τ { m.goTo key (.clears τ' 0) with
            made := Function.update m.made τ' true } = (m.goTo key (.clears τ' 0)).view τ :=
          congrArg (Sweeping.State.mk · _) (Function.update_of_ne (Ne.symm hτ) ..)
        rw [hview]
        exact leave_view (if_neg hτ)
  | @find key τ' hphase hmade =>
      have hnone : initialized d τ m (.construct key) = none := by
        simp only [initialized, hphase]
      rw [hnone]
      exact leave_view (next_after τ')
  | @clear key τ' i hphase hi =>
      simp only [initialized, hphase]
      by_cases hτ : τ' = τ
      · subst hτ
        rw [if_pos ⟨rfl, hi⟩]
        show Sweeping.Step _ _ ((m.goTo key (.clears τ' (i + 1))).view τ')
        have hnext : (m.view τ').next key = some i := by
          show (m.phase key).next τ' = some i
          rw [hphase]
          exact if_pos rfl
        rw [view_goTo, Phase.next, if_pos rfl]
        exact .sweep key hnext
      · rw [if_neg fun h => hτ h.1]
        exact leave_view (if_neg hτ)
  | @finish key τ' i hphase hi =>
      have hnone : initialized d τ m (.construct key) = none := by
        simp only [initialized, hphase]
        refine if_neg ?_
        rintro ⟨rfl, hlt⟩
        exact hi hlt
      rw [hnone]
      exact leave_view (next_after τ')
  | call hphase hcall => exact .stay
  | exit => exact leave_view rfl

/-- What initialises an element is the step of a process in that loop. -/
theorem initialized_eq_some (h : initialized d τ m a = some i) :
    ∃ key, a = .construct key ∧ (m.view τ).next key = some i := by
  cases a with
  | construct key =>
      refine ⟨key, rfl, ?_⟩
      show (m.phase key).next τ = some i
      simp only [initialized] at h
      split at h
      · next τ' j hphase =>
        split at h
        · next hj =>
          obtain rfl := Option.some.inj h
          rw [hphase]
          exact if_pos hj.1
        · cases h
      · cases h
  | call call => cases h
  | exit key => cases h

/-- **What a step does to the tables**: it initialises an element, or makes a call, or nothing. -/
theorem Moves.tables (h : Moves d m a m') :
    (∃ τ i, i < τ.length d ∧ (∀ τ', initialized d τ' m a = if τ = τ' then some i else none) ∧
      (∀ call, a ≠ .call call) ∧ m'.tables = τ.initializeAt i m.tables) ∨
    ((∀ τ, initialized d τ m a = none) ∧
      (m'.tables = m.tables ∨ ∃ call, a = .call call ∧ CallStep d m.tables call m'.tables)) := by
  cases h with
  | make hphase hmade =>
      refine Or.inr ⟨fun τ => ?_, Or.inl rfl⟩
      simp only [initialized, hphase]
  | find hphase hmade =>
      refine Or.inr ⟨fun τ => ?_, Or.inl rfl⟩
      simp only [initialized, hphase]
  | @clear key τ i hphase hi =>
      have hmove : ∀ call, Move.construct key ≠ .call call := fun call h => Move.noConfusion h
      refine Or.inl ⟨τ, i, hi, fun τ' => ?_, hmove, rfl⟩
      simp only [initialized, hphase]
      by_cases hτ : τ = τ'
      · subst hτ
        rw [if_pos ⟨rfl, hi⟩, if_pos rfl]
      · rw [if_neg fun h => hτ h.1, if_neg hτ]
  | finish hphase hi =>
      refine Or.inr ⟨fun τ => ?_, Or.inl rfl⟩
      simp only [initialized, hphase]
      refine if_neg ?_
      rintro ⟨rfl, hlt⟩
      exact hi hlt
  | @call call t' hphase hcall => exact Or.inr ⟨fun _ => rfl, Or.inr ⟨call, rfl, hcall⟩⟩
  | exit => exact Or.inr ⟨fun _ => rfl, Or.inl rfl⟩

/-! ## A constructor that is not interrupted -/

/-- The steps of one process lead from `m` to `m'`. -/
def Undisturbed (d : Dims) (key : PidSt) (m m' : Startup) : Prop :=
  ∃ r, Along (StartupStep d) m r ∧ (∀ x ∈ r, x.1 = .construct key) ∧ final m r = m'

theorem Undisturbed.refl (m : Startup) : Undisturbed d key m m :=
  ⟨[], trivial, List.forall_mem_nil _, rfl⟩

theorem Undisturbed.head (hstep : m.construct d key = some m₁) (h : Undisturbed d key m₁ m') :
    Undisturbed d key m m' := by
  obtain ⟨r, hr, hkey, hfinal⟩ := h
  exact ⟨(.construct key, m₁) :: r, ⟨⟨0, hstep⟩, hr⟩, List.forall_mem_cons.mpr ⟨rfl, hkey⟩, hfinal⟩

theorem Undisturbed.trans (h : Undisturbed d key m m₁) (h₁ : Undisturbed d key m₁ m') :
    Undisturbed d key m m' := by
  obtain ⟨r, hr, hkey, rfl⟩ := h
  obtain ⟨r₁, hr₁, hkey₁, hfinal⟩ := h₁
  refine ⟨r ++ r₁, Along.append_iff.mpr ⟨hr, hr₁⟩, ?_, by rw [final_append, hfinal]⟩
  exact fun x hx => (List.mem_append.mp hx).elim (hkey x) (hkey₁ x)

/-- All elements from `i` on. -/
def Table.initializeFrom (d : Dims) (τ : Table) (i : Nat) (t : Tables) : Tables :=
  (List.range' i (τ.length d - i)).foldl (fun t i => τ.initializeAt i t) t

section

variable {phase : PidSt → Phase} {made : Table → Bool}

/-- The loop. -/
theorem undisturbed_clears (hphase : phase key = .clears τ i) :
    Undisturbed d key ⟨phase, made, t⟩
      ⟨Function.update phase key τ.after, made, τ.initializeFrom d i t⟩ := by
  unfold Table.initializeFrom
  induction hn : τ.length d - i generalizing phase i t with
  | zero =>
      have hstep : Startup.construct d ⟨phase, made, t⟩ key =
          some ⟨Function.update phase key τ.after, made, t⟩ := by
        simp only [Startup.construct, hphase]
        exact if_neg (by omega)
      exact .head hstep (.refl _)
  | succ n ih =>
      have hstep : Startup.construct d ⟨phase, made, t⟩ key =
          some ⟨Function.update phase key (.clears τ (i + 1)), made, τ.initializeAt i t⟩ := by
        simp only [Startup.construct, hphase]
        exact if_pos (by omega)
      have hrest := @ih (τ.initializeAt i t) (i + 1)
        (Function.update phase key (.clears τ (i + 1))) (Function.update_self ..) (by omega)
      rw [Function.update_idem] at hrest
      exact .head hstep hrest

/-- What begins with `init_rnode` or `init_gmem`. -/
theorem undisturbed_opens (hphase : phase key = .opens τ) :
    Undisturbed d key ⟨phase, made, t⟩ ⟨Function.update phase key τ.after,
      Function.update made τ true, if made τ then t else τ.initializeFrom d 0 t⟩ := by
  cases hmade : made τ with
  | true =>
      have hstep : Startup.construct d ⟨phase, made, t⟩ key =
          some ⟨Function.update phase key τ.after, made, t⟩ := by
        simp only [Startup.construct, hphase]
        exact if_pos hmade
      have hsame : Function.update made τ true = made := by rw [← hmade, Function.update_eq_self]
      rw [hsame]
      exact .head hstep (.refl _)
  | false =>
      have hstep : Startup.construct d ⟨phase, made, t⟩ key = some
          ⟨Function.update phase key (.clears τ 0), Function.update made τ true, t⟩ := by
        simp only [Startup.construct, hphase]
        exact if_neg (by rw [hmade]; exact Bool.false_ne_true)
      have hrest := @undisturbed_clears d t key τ 0 (Function.update phase key (.clears τ 0))
        (Function.update made τ true) (Function.update_self ..)
      rw [Function.update_idem] at hrest
      exact .head hstep hrest

/-- The segments that exist. -/
def segmentsOf (shm : Shm Ptr) : Table → Bool
  | .rnode => (shm.find keyRnode).isSome
  | .gmem => (shm.find keyGmem).isSome

/-- **A process that is not disturbed does what `init` does.** -/
theorem undisturbed_init {mem mem' : Memory} {process : PidSt} {lenRnode lenGmem : Int32}
    {ans : Answers} {rnm : RNM} (h : init mem process lenRnode lenGmem ans = some (rnm, mem'))
    (hpos : 0 < lenRnode) (hphase : phase key = .opens .rnode) :
    Undisturbed (dims lenRnode lenGmem hpos) key ⟨phase, segmentsOf mem.shm, mem.tables⟩
      ⟨Function.update phase key .ready, segmentsOf mem'.shm, mem'.tables⟩ := by
  obtain ⟨hlen₁, hlen₂, m₁, created₁, created₂, hcon⟩ := init_eq_some h
  have hmade : Function.update (Function.update (segmentsOf mem.shm) .rnode true) .gmem true =
      segmentsOf mem'.shm := by
    funext τ
    cases τ with
    | rnode => exact hcon.present.1.symm
    | gmem => exact hcon.present.2.symm
  have h₁ : created₁ = segmentsOf mem.shm .rnode := hcon.rnode.existed
  have h₂ : created₂ = Function.update (segmentsOf mem.shm) .rnode true .gmem := by
    rw [hcon.gmem.existed, hcon.rnode.find_ne _ keyRnode_ne.symm]
    rfl
  have hfrom₁ : ∀ t, Table.rnode.initializeFrom (dims lenRnode lenGmem hpos) 0 t =
      initializeRnode lenRnode t := by
    intro t
    unfold Table.initializeFrom initializeRnode
    rw [List.range_eq_range']
    rfl
  have hfrom₂ : ∀ t, Table.gmem.initializeFrom (dims lenRnode lenGmem hpos) 0 t =
      initializeGmem lenGmem t := by
    intro t
    unfold Table.initializeFrom initializeGmem
    rw [List.range_eq_range']
    rfl
  have htables := hcon.tables
  rw [h₁, h₂, hlen₁, hlen₂, ite_apply, ite_apply, id, id, ← hfrom₁, ← hfrom₂] at htables
  have hrnode := @undisturbed_opens (dims lenRnode lenGmem hpos) mem.tables key .rnode phase
    (segmentsOf mem.shm) hphase
  refine hrnode.trans ?_
  have hgmem := @undisturbed_opens (dims lenRnode lenGmem hpos)
    (if segmentsOf mem.shm .rnode then mem.tables
      else Table.rnode.initializeFrom (dims lenRnode lenGmem hpos) 0 mem.tables) key .gmem
    (Function.update phase key (.opens .gmem)) (Function.update (segmentsOf mem.shm) .rnode true)
    (Function.update_self ..)
  rw [Function.update_idem, hmade, ← htables] at hgmem
  exact hgmem

end

/-! ## What others have put into the tables -/

/-- The tables while they are initialised, the records up to `k`, and nothing has been lost. -/
structure Kept (d : Dims) (k : Nat) (t : Tables) : Prop where
  sentinel : t.Sentinel
  keyed : Keyed d t
  vacant : ∀ s, slots d t s ≠ .tomb
  linked : Linked d t
  proper : ∀ i : Nat, i < k → i < d.lenGmem → Proper d t i

theorem slots_zeroed (hz : Zeroed d t) (s : Nat) : slots d t s = .never := by
  unfold slots
  split
  · next hs =>
    rw [hz.rnode s hs]
    rfl
  · rfl

theorem kept_of_zeroed (hz : Zeroed d t) (hs : t.Sentinel) : Kept d 0 t := by
  have hnone : ∀ s, ¬ Exists d t s := by
    intro s hex
    cases (slots_zeroed hz s).symm.trans (slots_eq_full.mpr ⟨hex, rfl⟩)
  refine ⟨hs, ?_, ?_, ?_, nofun⟩
  · exact keyed_of_found fun s hex => absurd hex (hnone s)
  · intro s htomb
    cases (slots_zeroed hz s).symm.trans htomb
  · refine ⟨fun s hex => absurd hex (hnone s), fun g hg hlive => ?_⟩
    refine absurd ?_ hlive
    show (t.gmem g).ptr = 0
    rw [hz.gmem g hg]

/-- Nothing changes when a free slot is initialised. -/
theorem Kept.slots_putRnode (h : Kept d k t) (hi : i < d.lenRnode) (hfree : ¬ Exists d t i) :
    slots d (t.putRnode i RNode.initialized) = slots d t := by
  rw [Vcuda.RNM.slots_putRnode hi, Function.update_eq_self_iff]
  show Probing.Slot.never = _
  cases hslot : slots d t i with
  | never => rfl
  | tomb => exact absurd hslot (h.vacant i)
  | full key => exact absurd (slots_eq_full.mp hslot).1 hfree

theorem Kept.putRnode (h : Kept d k t) (hi : i < d.lenRnode) (hfree : ¬ Exists d t i) :
    Kept d k (t.putRnode i RNode.initialized) := by
  have hslots := h.slots_putRnode hi hfree
  refine ⟨h.sentinel.congr rfl, h.keyed.congr hslots, ?_, ⟨?_, h.linked.next⟩, h.proper⟩
  · rw [hslots]
    exact h.vacant
  · intro s hex
    have hex := (exists_congr hslots).mp hex
    have hne : s ≠ i := fun he => hfree (he ▸ hex)
    rw [putRnode_entry_ne hne]
    exact h.linked.entry s hex

theorem Kept.modifyGmem (h : Kept d k t) (hk : k < d.lenGmem) :
    Kept d (k + 1) (t.modifyGmem k fun _ => GMem.initialized) := by
  have hne : (k : Int) ≠ -1 := by omega
  have hrelinks : Relinks d t (t.modifyGmem k fun _ => GMem.initialized) :=
    relinks_modifyGmem h.linked (Or.inr rfl) fun hptr => absurd rfl hptr
  refine ⟨h.sentinel.modifyGmem hne, h.keyed.congr rfl, h.vacant, hrelinks.1, fun i hik hi => ?_⟩
  by_cases hold : i = k
  · subst hold
    exact Or.inr ⟨inRange_natCast.mpr hi, Or.inr (modifyGmem_next_self _)⟩
  · exact hrelinks.2 i (h.proper i (by omega) hi)

theorem Kept.step {op : Op} (h : Kept d k t) (hop : op.IsBook)
    (hstep : Vcuda.RNM.Step d t op t') : Kept d k t' := by
  have hrelinks := hstep.relinks h.sentinel h.linked hop
  have hkeyed := hstep.keyed h.sentinel h.keyed hop.isAccounting
  refine ⟨hstep.sentinel h.sentinel, hkeyed, fun s => ?_, hrelinks.1,
    fun i hik hi => hrelinks.2 i (h.proper i hik hi)⟩
  cases op with
  | addGmem key mem p n =>
      obtain ⟨_, s', t₁, reg, hacq, hreg⟩ := step_addGmem h.sentinel hstep
      rw [hreg.slots]
      rcases hacq with ⟨_, rfl⟩ | ⟨_, hpos, rfl⟩
      · exact h.vacant s
      · rw [slots_new hpos]
        by_cases hne : s = s'
        · subst hne
          rw [Function.update_self]
          nofun
        · rw [Function.update_of_ne hne]
          exact h.vacant s
  | removeGmem key mem h' =>
      rw [step_removeGmem_slots h.sentinel hstep]
      exact h.vacant s
  | deleteRnode key => cases hop
  | gmemUsed pe => cases hop

/-- At the end of the loop the tables are what they would be if they had been initialised first. -/
theorem Kept.sound (h : Kept d d.lenGmem t) : Sound d t := by
  have hproper : ∀ g, InRange d g → t.Live g ∨ t.next g = -1 := by
    intro g hg
    obtain ⟨i, rfl, hi⟩ := hg.exists_nat
    exact ((h.proper i hi hi).resolve_left hg.ne_sentinel).2
  refine ⟨h.sentinel, ⟨fun s hex => (h.linked.entry s hex).indexed, ?_, ?_⟩, h.keyed⟩
  · intro g hg
    rcases hproper g hg with hlive | hnext
    · exact (h.linked.next g hg hlive).indexed
    · exact Or.inl hnext
  · exact fun g hg hlive => (hproper g hg).resolve_left hlive

/-- **What a step loses is what it initialises.** -/
theorem Kept.drops_iff (h : Kept d k m.tables) (hstep : StartupStep d m a m') :
    Drops d m a m' ↔ ¬ Harmless d m a := by
  rcases hstep.moves.tables with ⟨τ, i, hi, hinit, hcall, htables⟩ | ⟨hinit, htables⟩
  · have hharmless : Harmless d m a ↔ ¬ τ.InUse d m.tables i := by
      constructor
      · intro hok
        apply hok τ i
        rw [hinit, if_pos rfl]
      · intro hfree τ' j hj
        rw [hinit] at hj
        split at hj
        · next hτ =>
          subst hτ
          rwa [← Option.some.inj hj]
        · cases hj
    rw [hharmless, not_not]
    unfold Drops
    rw [htables]
    cases τ with
    | rnode =>
        show _ ↔ Exists d m.tables i
        constructor
        · rintro (⟨key, hkey, hgone⟩ | ⟨_, g, hg, hgone⟩)
          · by_contra hfree
            exact hgone ((present_congr (h.slots_putRnode hi hfree)).mpr hkey)
          · exact absurd hg hgone
        · intro hex
          refine Or.inl ⟨m.tables.keyOf i, ⟨i, hex, rfl⟩, ?_⟩
          rintro ⟨s, hex', hkey⟩
          by_cases hne : s = i
          · subst hne
            have hstat : ((m.tables.putRnode s RNode.initialized).rnode s).stat = .EXIST := hex'.2
            rw [putRnode_rnode_self] at hstat
            cases hstat
          · have hsame : (m.tables.putRnode i RNode.initialized).keyOf s = m.tables.keyOf s :=
              keyOf_of_rnode (putRnode_rnode_ne hne)
            have hs : Exists d m.tables s := (exists_putRnode_ne hne).mp hex'
            exact hne (h.keyed.unique s i _ (slots_eq_full.mpr ⟨hs, hsame.symm.trans hkey⟩)
              (slots_eq_full.mpr ⟨hex, rfl⟩))
    | gmem =>
        have hclear : Table.gmem.initializeAt i m.tables =
            m.tables.modifyGmem i fun _ => GMem.initialized := rfl
        have hself : ¬ (m.tables.modifyGmem i fun _ => GMem.initialized).Live i :=
          fun hlive => (modifyGmem_live_self _).mp hlive rfl
        rw [hclear]
        show _ ↔ m.tables.Live i
        constructor
        · rintro (⟨key, hkey, hgone⟩ | ⟨_, g, hg, hgone⟩)
          · exact absurd hkey hgone
          · by_contra hfree
            have hne : g ≠ i := fun he => hfree (he ▸ hg)
            exact hgone ((modifyGmem_live_ne hne).mpr hg)
        · exact fun hlive => Or.inr ⟨hcall, i, hlive, hself⟩
  · refine iff_of_false ?_ fun hharm => hharm fun τ i hi => ?_
    · rcases htables with htables | ⟨call, rfl, hcall⟩
      · unfold Drops
        rw [htables]
        rintro (⟨key, hkey, hgone⟩ | ⟨_, g, hg, hgone⟩)
        · exact hgone hkey
        · exact hgone hg
      · rintro (⟨key, hkey, hgone⟩ | ⟨hno, _⟩)
        · rcases hcall.step with hsame | ⟨op, hop, hstep', _⟩
          · exact hgone (hsame ▸ hkey)
          · exact hgone ((hstep'.present_iff h.sentinel hop.isAccounting).mpr (Or.inl hkey))
        · exact hno call rfl
    · rw [hinit] at hi
      cases hi

/-- The tables, and who initialises the records. -/
structure Settling (d : Dims) (k : Nat) (m : Startup) : Prop where
  reached : Reached (m.view .gmem) k
  kept : Kept d k m.tables

theorem Settling.step (h : Settling d k m) (hstep : StartupStep d m a m') (hok : Harmless d m a) :
    Settling d (k + (initialized d .gmem m a).toList.length) m' := by
  have hmoves := hstep.moves
  obtain ⟨hnext, hreached⟩ := (hmoves.view (τ := .gmem)).reached h.reached
  refine ⟨hreached, ?_⟩
  rcases hmoves.tables with ⟨τ, i, hi, hinit, _, htables⟩ | ⟨hinit, htables⟩
  · have hfree : ¬ τ.InUse d m.tables i := by
      apply hok τ i
      rw [hinit, if_pos rfl]
    rw [hinit] at hnext ⊢
    rw [htables]
    cases τ with
    | rnode => exact h.kept.putRnode hi hfree
    | gmem =>
        obtain rfl := hnext i rfl
        exact h.kept.modifyGmem hi
  · rw [hinit]
    rcases htables with htables | ⟨call, rfl, hcall⟩
    · rw [htables]
      exact h.kept
    · rcases hcall.step with hsame | ⟨op, hop, hstep', _⟩
      · rw [hsame]
        exact h.kept
      · exact h.kept.step hop hstep'

/-- **What is lost in a start.** Each table is initialised by one process only, each element at most
once and in their order. No process loses its slot, and no record its content, exactly when nothing
is in use when it is initialised. Then the tables are sound at the end of the loop. -/
theorem nobody_dropped_iff (hz : Zeroed d t) (hs : t.Sentinel)
    (hr : Along (StartupStep d) (.boot t) r) :
    (∀ τ, (∃ k, positions (initialized d τ) (.boot t) r = List.range k) ∧
      ∃ key, Along (fun m a _ => ∀ i, initialized d τ m a = some i → a = .construct key)
        (.boot t) r) ∧
    (Along (fun m a m' => ¬ Drops d m a m') (.boot t) r ↔
      Along (fun m a _ => Harmless d m a) (.boot t) r) ∧
    (Along (fun m a _ => Harmless d m a) (.boot t) r →
      positions (initialized d .gmem) (.boot t) r = List.range d.lenGmem →
      Sound d (final (.boot t) r).tables) := by
  have hboot : Settling d 0 (.boot t) := ⟨reached_zero fun _ => rfl, kept_of_zeroed hz hs⟩
  refine ⟨fun τ => ?_, ?_, fun hok hall => ?_⟩
  · have hreached : Reached ((Startup.boot t).view τ) 0 := reached_zero fun _ => rfl
    have hview : ∀ m a m', StartupStep d m a m' →
        Sweeping.Step (m.view τ) (initialized d τ m a) (m'.view τ) :=
      fun m a m' hstep => hstep.moves.view
    constructor
    · refine ⟨(positions (initialized d τ) (.boot t) r).length, ?_⟩
      rw [List.range_eq_range']
      exact positions_eq_range hreached hr hview
    · obtain ⟨key, honly⟩ := only_one hreached hr hview
      refine ⟨key, honly.mono fun m a _ hm i hi => ?_⟩
      obtain ⟨key', rfl, hnext⟩ := initialized_eq_some hi
      rw [hm key' i hnext]
  · apply Along.steps_iff (I := fun m => ∃ k, Settling d k m) ⟨0, hboot⟩ hr
    · rintro m a m' ⟨k, h⟩ hstep hok
      exact ⟨_, h.step hstep hok⟩
    · rintro m a m' ⟨k, h⟩ hstep
      rw [h.kept.drops_iff hstep, not_not]
  · have hsettling : Settling d (0 + (positions (initialized d .gmem) (.boot t) r).length)
        (final (.boot t) r) :=
      counted hboot (Along.and_iff.mpr ⟨hr, hok⟩) fun k m a m' h hstep => h.step hstep.1 hstep.2
    rw [hall, List.length_range, Nat.zero_add] at hsettling
    exact hsettling.kept.sound

/-- What the actions lead to, step by step. -/
def Startup.run (d : Dims) (m : Startup) (moves : List Move) : List (Move × Startup) :=
  trajectory (fun m a => (m.next d 3 a).getD m) m moves

theorem along_startupRun {moves : List Move}
    (hok : allSteps (fun m a => (m.next d 3 a).getD m) (fun m a => (m.next d 3 a).isSome) m moves =
      true) : Along (StartupStep d) m (m.run d moves) := by
  apply along_trajectory _ hok
  intro m a hok
  obtain ⟨m', hnext⟩ := Option.isSome_iff_exists.mp hok
  refine ⟨3, ?_⟩
  rw [hnext]
  rfl

/-- New segments, and the memory before the records. -/
def zeroTables : Tables :=
  ⟨fun _ => ⟨0, 0, 0, .NONEXIST⟩, fun i => if i = -1 then GMem.initialized else ⟨0, 0, 0⟩⟩

theorem zeroed_zeroTables : Zeroed d zeroTables :=
  ⟨fun _ _ => rfl, fun _ hg => if_neg hg.ne_sentinel⟩

theorem sentinel_zeroTables : zeroTables.Sentinel := ⟨rfl, rfl⟩

/-- One process creates the first segment, and before it initialises anything, another one
allocates. -/
def early : List Move :=
  [.construct (1, 0)] ++ List.replicate 6 (.construct (2, 0)) ++
    [.call (grantedCall (2, 0) (.cuMemAlloc 16 30)), .construct (1, 0)]

theorem dropped_early :
    ¬ Along (fun m a m' => ¬ Drops smallDims m a m') (.boot zeroTables)
      (Startup.run smallDims (.boot zeroTables) early) := by
  have hr : Along (StartupStep smallDims) (.boot zeroTables)
      (Startup.run smallDims (.boot zeroTables) early) := along_startupRun (by decide)
  have hiff := (nobody_dropped_iff zeroed_zeroTables sentinel_zeroTables hr).2.1
  rw [hiff]
  intro hok
  have hlast := hok.2.2.2.2.2.2.2.2.1
  exact hlast .rnode 0 (by decide) ⟨by decide, by decide⟩

/-! ## A start that is not finished -/

theorem StartupStep.sentinel (hs : m.tables.Sentinel) (hstep : StartupStep d m a m') :
    m'.tables.Sentinel := by
  rcases hstep.moves.tables with ⟨τ, i, _, _, _, htables⟩ | ⟨_, htables | ⟨call, rfl, hcall⟩⟩
  · rw [htables]
    cases τ with
    | rnode => exact hs.congr rfl
    | gmem =>
        have hne : (i : Int) ≠ -1 := by omega
        show (m.tables.modifyGmem i fun _ => GMem.initialized).Sentinel
        exact hs.modifyGmem hne
  · rwa [htables]
  · rcases hcall.step with hsame | ⟨op, _, hstep', _⟩
    · rwa [hsame]
    · exact hstep'.sentinel hs

/-- A record that is zero stays so. -/
theorem StartupStep.zero (hs : m.tables.Sentinel) (hstep : StartupStep d m a m')
    (hzero : m.tables.gmem s = ⟨0, 0, 0⟩) (hnot : initialized d .gmem m a ≠ some s)
    (hfree : ∃ g : Nat, g ≤ s ∧ ¬ m'.tables.Live g) : m'.tables.gmem s = ⟨0, 0, 0⟩ := by
  rcases hstep.moves.tables with ⟨τ, i, _, hinit, _, htables⟩ | ⟨_, htables | ⟨call, rfl, hcall⟩⟩
  · rw [htables, ← hzero]
    cases τ with
    | rnode => rfl
    | gmem =>
        have hne : (s : Int) ≠ i := by
          intro he
          rw [hinit, if_pos rfl, Nat.cast_inj.mp he] at hnot
          exact hnot rfl
        show (m.tables.modifyGmem i fun _ => GMem.initialized).gmem s = _
        exact modifyGmem_gmem_ne hne
  · rw [htables, hzero]
  · rcases hcall.step with hsame | ⟨op, hop, hstep', _⟩
    · rw [hsame, hzero]
    · have hidle : ¬ m.tables.Live s := by
        intro hlive
        apply hlive
        rw [hzero]
      rcases hstep'.idle hs hop hidle with hsame | ⟨hlive, hbelow⟩
      · rw [hsame, hzero]
      · obtain ⟨g, hg, hgone⟩ := hfree
        rcases Nat.lt_or_eq_of_le hg with hlt | rfl
        · exact absurd (hbelow g (by omega) (by omega)) hgone
        · exact absurd hlive hgone

theorem zero_of_run (hs : m.tables.Sentinel) (hr : Along (StartupStep d) m r)
    (hzero : m.tables.gmem s = ⟨0, 0, 0⟩) (hnot : s ∉ positions (initialized d .gmem) m r)
    (hfree : ∀ m' ∈ states m r, ∃ g : Nat, g ≤ s ∧ ¬ m'.tables.Live g) :
    (final m r).tables.gmem s = ⟨0, 0, 0⟩ := by
  induction r generalizing m with
  | nil => exact hzero
  | cons x r ih =>
      obtain ⟨a, m'⟩ := x
      obtain ⟨hnow, hlater⟩ := not_or.mp fun h => hnot (List.mem_append.mpr h)
      rw [states_cons, List.forall_mem_cons] at hfree
      rw [Option.mem_toList] at hnow
      have hzero' := hr.1.zero hs hzero hnow (hfree.2 m' (mem_states_self m' r))
      exact ih (hr.1.sentinel hs) hr.2 hzero' hlater hfree.2

/-- **A start that is not finished.** The process that initialises the records is gone when it has
come to `k`. A process in a slot from there on that has a record makes all allocators wait for its
end, as long as some record up to this slot is free. -/
theorem stalls_of_creator_gone {c : PidSt} (hz : Zeroed d t) (hs : t.Sentinel)
    (hr : Along (StartupStep d) (.boot t) (r₁ ++ (.exit c, m₁) :: r₂))
    (hc : (final (.boot t) r₁).phase c = .clears .gmem k) (hk : k ≤ s) (hlt : s < d.lenGmem)
    (hfree : ∀ m ∈ states (.boot t) (r₁ ++ (.exit c, m₁) :: r₂),
      ∃ g : Nat, g ≤ s ∧ ¬ m.tables.Live g)
    (hex : Exists d (final m₁ r₂).tables s) (hentry : (final m₁ r₂).tables.entry s > -1)
    (hruns : call.processExist ((final m₁ r₂).tables.rnode s) = true)
    (hreq : request call.api = some (p, n)) (hasks : ignoresUsed call.api = false) :
    ¬ ∃ fuel ret t', Returns (call.exec d fuel) (final m₁ r₂).tables ret t' := by
  have hview : ∀ m a m', StartupStep d m a m' →
      Sweeping.Step (m.view .gmem) (initialized d .gmem m a) (m'.view .gmem) :=
    fun m a m' hstep => hstep.moves.view
  -- nobody initialises the records from `k` on
  have hnot : s ∉ positions (initialized d .gmem) (.boot t) (r₁ ++ (.exit c, m₁) :: r₂) := by
    obtain ⟨hr₁, hexit, hr₂⟩ := Along.append_iff.mp hr
    have hboot : Reached ((Startup.boot t).view .gmem) 0 := reached_zero fun _ => rfl
    have hreached : Reached ((final (.boot t) r₁).view .gmem)
        (0 + (positions (initialized d .gmem) (.boot t) r₁).length) :=
      counted (I := fun k m => Reached (m.view .gmem) k) hboot hr₁ fun k m a m' h hstep =>
        ((hview m a m' hstep).reached h).2
    have hnext : ((final (.boot t) r₁).view .gmem).next c = some k := by
      show Phase.next .gmem _ = _
      rw [hc, Phase.next, if_pos rfl]
    have hlength := hreached.next c k hnext
    have hm₁ : m₁ = (final (.boot t) r₁).goTo c .ended := by
      cases hexit.moves
      rfl
    have hover : Over (m₁.view .gmem) := by
      rw [hm₁, view_goTo]
      exact hreached.over_of_leave hnext
    have hbefore := positions_eq_range hboot hr₁ hview
    have hafter : positions (initialized d .gmem) m₁ r₂ = [] := positions_of_over hover hr₂ hview
    rw [positions_append, List.mem_append]
    rintro (hmem | hmem)
    · rw [hbefore, List.mem_range'_1] at hmem
      omega
    · change s ∈ [] ++ positions (initialized d .gmem) m₁ r₂ at hmem
      rw [hafter] at hmem
      cases hmem
  have hzero : (final m₁ r₂).tables.gmem s = ⟨0, 0, 0⟩ := by
    have hstart : t.gmem s = ⟨0, 0, 0⟩ := hz.gmem s (inRange_natCast.mpr hlt)
    have hend := zero_of_run (m := .boot t) hs hr hstart hnot hfree
    rwa [final_append, final_cons] at hend
  have hnext : (final m₁ r₂).tables.next s = 0 := by
    rw [Tables.next, hzero]
  rintro ⟨fuel, ret, t', hret⟩
  have huses : ∃ u, Uses d (final m₁ r₂).tables call u := by
    rcases (allocator_returns_iff hreq).mp ⟨fuel, hret⟩ with ⟨⟨u, hu, _⟩, _⟩ | ⟨⟨u, hu, _⟩, _⟩
    · exact ⟨u, hu⟩
    · exact ⟨u, hu⟩
  obtain ⟨u, hu⟩ := huses
  have hends := ((uses_of_asksUsed hasks).mp hu).1
  refine hends s hex.1 ⟨hex.2, hruns⟩ ⟨hentry, ?_⟩
  rw [hnext]
  decide

/-- A process creates both segments, and is killed before it initialises a record. -/
def killed : List Move := List.replicate 5 (.construct (1, 0))

/-- Another one allocates. -/
def survivor : List Move :=
  [.construct (2, 1), .construct (2, 1), .call (grantedCall (2, 1) (.cuMemAlloc 16 30))]

def atKill : Startup :=
  (final (.boot zeroTables) (Startup.run smallDims (.boot zeroTables) killed)).goTo (1, 0) .ended

theorem stalls_survivor :
    ¬ ∃ fuel ret t', Returns ((grantedCall (2, 1) (.cuMemAlloc 24 30)).exec smallDims fuel)
      (final atKill (Startup.run smallDims atKill survivor)).tables ret t' := by
  have hr : Along (StartupStep smallDims) (.boot zeroTables)
      (Startup.run smallDims (.boot zeroTables) killed ++
        (.exit (1, 0), atKill) :: Startup.run smallDims atKill survivor) :=
    Along.append_iff.mpr ⟨along_startupRun (by decide), ⟨0, rfl⟩, along_startupRun (by decide)⟩
  have hempty : ∀ m ∈ states (.boot zeroTables) (Startup.run smallDims (.boot zeroTables) killed ++
      (.exit (1, 0), atKill) :: Startup.run smallDims atKill survivor),
      (m.tables.gmem 1).ptr = 0 := by decide
  refine stalls_of_creator_gone (s := 1) zeroed_zeroTables sentinel_zeroTables hr rfl
    (Nat.zero_le 1) (by decide) ?_ ⟨by decide, by decide⟩ (by decide) rfl rfl rfl
  exact fun m hm => ⟨1, le_refl 1, not_not.mpr (hempty m hm)⟩

end Vcuda.Proc
