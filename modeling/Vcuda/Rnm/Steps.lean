import Vcuda.Rnm.Walks
import Vcuda.Common.Run

/-!
# What one operation does to the tables

`add_gmem` and `remove_gmem` as transitions: `addGmem_runs` and `removeGmem_runs` say everything a
completed call can have done, in every state whose index `-1` reads as an empty record. All
invariants are proved from these two lemmas, none by unfolding the code again.

`Op` collects the operations a history of the tables is made of, `Step` is one of them run to
completion. They are executable, so a history can also be computed: `along_replay` turns a
computation that completes into a run.
-/

namespace Vcuda.RNM

open Traced Tables

variable {d : Dims} {t t' : Tables} {key : PidSt} {mem : HostMem} {h : Handle} {p : Ptr}
  {n : UInt64} {tr : List Event} {u : Unit} {fuel s : Nat} {x y : Int} {l : List Int}

/-! ## Searching -/

/-- From the slot `s`, the first record whose variable holds `h` is `x`. -/
def FindsAt (t : Tables) (mem : HostMem) (h : Handle) (s : Nat) (x : Int) : Prop :=
  ∃ l, Walk t.next (t.Miss mem h) (t.entry s) l x ∧ t.Hit mem h x

theorem FindsAt.unique (hx : FindsAt t mem h s x) (hy : FindsAt t mem h s y) : x = y := by
  obtain ⟨l, hwalk, hhit⟩ := hx
  obtain ⟨l', hwalk', hhit'⟩ := hy
  exact (hwalk.unique hhit.not_miss hwalk' hhit'.not_miss).2

/-- A search that ends at an empty record finds nothing. -/
theorem not_findsAt_of_walk (hwalk : Walk t.next (t.Miss mem h) (t.entry s) l x)
    (hx : ¬ t.Live x) : ¬ FindsAt t mem h s y := by
  rintro ⟨l', hwalk', hhit⟩
  have hxy := (hwalk.unique (not_miss_of_not_live hx) hwalk' hhit.not_miss).2
  exact hx (hxy ▸ hhit.1)

/-! ## Removing -/

/-- Take the record `g` out of the chain, after `prev` or, when `prev` is `-1`, at its head. -/
def unlink (t : Tables) (prev g : Int) : Tables :=
  if prev = -1 then t.modifyGmem g GMem.shallowDelete
  else (t.modifyGmem prev (·.setNext (t.next g))).modifyGmem g GMem.shallowDelete

/-- The index before the arrival of a walk past `l`. -/
def prevOf (prev : Int) (l : List Int) : Int := l.getLast?.getD prev

@[simp] theorem prevOf_nil (prev : Int) : prevOf prev [] = prev := rfl

@[simp] theorem prevOf_cons (prev a : Int) (l : List Int) :
    prevOf prev (a :: l) = prevOf a l := by
  cases l with
  | nil => rfl
  | cons b l =>
      unfold prevOf
      rw [List.getLast?_cons_cons, List.getLast?_cons, Option.getD_some, Option.getD_some]

@[simp] theorem prevOf_snoc (prev a : Int) (l : List Int) : prevOf prev (l ++ [a]) = a := by
  simp [prevOf]

@[simp] theorem unlink_rnode (prev g : Int) : (unlink t prev g).rnode = t.rnode := by
  unfold unlink
  split <;> rfl

@[simp] theorem unlink_entry (prev g : Int) (s : Nat) : (unlink t prev g).entry s = t.entry s :=
  entry_of_rnode (by rw [unlink_rnode])

theorem unlink_gmem_self (prev g : Int) :
    ((unlink t prev g).gmem g).ptr = 0 ∧ ((unlink t prev g).gmem g).next = -1 := by
  unfold unlink
  split <;> simp

/-- The record is empty, and no other is emptied or filled. -/
theorem unlink_live {prev g i : Int} : (unlink t prev g).Live i ↔ i ≠ g ∧ t.Live i := by
  by_cases hig : i = g
  · subst hig
    simp [Live, (unlink_gmem_self prev i).1]
  · have hrelink : (t.modifyGmem prev (·.setNext (t.next g))).Live i ↔ t.Live i := by
      by_cases hip : i = prev
      · subst hip
        exact modifyGmem_live_self _
      · exact modifyGmem_live_ne hip
    unfold unlink
    split
    · rw [modifyGmem_live_ne hig]
      simp [hig]
    · rw [modifyGmem_live_ne hig, hrelink]
      simp [hig]

/-- Records other than the two involved are untouched. -/
theorem unlink_gmem_ne {prev g i : Int} (hg : i ≠ g) (hp : prev ≠ -1 → i ≠ prev) :
    (unlink t prev g).gmem i = t.gmem i := by
  unfold unlink
  split
  · exact modifyGmem_gmem_ne hg
  · next hne =>
    rw [modifyGmem_gmem_ne hg, modifyGmem_gmem_ne (hp hne)]

/-- The predecessor is relinked past the record. -/
theorem unlink_gmem_prev {prev g : Int} (hg : prev ≠ g) (hp : prev ≠ -1) :
    (unlink t prev g).gmem prev = (t.gmem prev).setNext (t.next g) := by
  unfold unlink
  rw [if_neg hp, modifyGmem_gmem_ne hg, modifyGmem_gmem_self]

/-- The bytes of a record outlive it. -/
theorem unlink_bytes (prev g i : Int) : ((unlink t prev g).gmem i).bytes = (t.gmem i).bytes := by
  unfold unlink
  split
  · exact modifyGmem_bytes (fun _ => GMem.shallowDelete_bytes) g i
  · rw [modifyGmem_bytes (fun _ => GMem.shallowDelete_bytes),
      modifyGmem_bytes fun _ => GMem.setNext_bytes]

theorem unlinkGmem_runs {prev g : Int} :
    Runs (unlinkGmem prev g) t u t' tr → t' = unlink t prev g ∧ registered tr = [] := by
  unfold unlinkGmem unlink
  split
  · next hp =>
    intro hr
    obtain ⟨rfl, rfl⟩ := shallowDelete_runs.mp hr
    exact ⟨rfl, rfl⟩
  · next hp =>
    intro hr
    obtain ⟨_, _, _, tr₁, hread, hrest, rfl⟩ := runs_bind.mp hr
    obtain ⟨rfl, rfl, rfl⟩ := ptrGmem_runs.mp hread
    obtain ⟨_, _, _, tr₂, hset, hdel, rfl⟩ := runs_bind.mp hrest
    obtain ⟨rfl, rfl⟩ := setNext_runs.mp hset
    obtain ⟨rfl, rfl⟩ := shallowDelete_runs.mp hdel
    exact ⟨rfl, rfl⟩

theorem unlinkGmem_returns (prev g : Int) :
    Returns (unlinkGmem prev g) t () (unlink t prev g) := by
  unfold unlinkGmem unlink
  split
  · exact shallowDelete_returns g
  · exact (ptrGmem_returns g).bind ((setNext_returns _ _).bind (shallowDelete_returns _))

/-- A completed `remove_gmem_by_dptr` walked past misses to an empty record, having changed
nothing, or to a hit, which it took out of the chain before it went on from the successor the
record had then. -/
theorem removeGmemByDptr_runs {prev g : Int}
    (hr : Runs (removeGmemByDptr mem h fuel prev g) t u t' tr) :
    registered tr = [] ∧ ∃ l x, Walk t.next (t.Miss mem h) g l x ∧
      ((¬ t.Live x ∧ t' = t) ∨
       (t.Hit mem h x ∧ ∃ fuel' tr', Runs (removeGmemByDptr mem h fuel' x (-1))
          (unlink t (prevOf prev l) x) u t' tr')) := by
  induction fuel generalizing prev g t tr with
  | zero => exact absurd hr runs_fail
  | succ fuel ih =>
      obtain ⟨_, _, _, tr₁, hread, hloop, rfl⟩ := runs_bind.mp hr
      obtain ⟨rfl, rfl, rfl⟩ := ptrGmem_runs.mp hread
      split at hloop
      · next he =>
        obtain ⟨_, rfl, rfl⟩ := runs_pure.mp hloop
        exact ⟨rfl, [], g, rfl, Or.inl ⟨empty_iff_not_live.mp he, rfl⟩⟩
      · next he =>
        have hlive := not_not.mp fun hn => he (empty_iff_not_live.mpr hn)
        obtain ⟨_, _, _, tr₂, hv, hbody, rfl⟩ := runs_bind.mp hloop
        obtain ⟨_, rfl, rfl, rfl⟩ := deref_runs.mp hv
        obtain ⟨_, t₁, tr₃, tr₄, hbranch, hrest, rfl⟩ := runs_bind.mp hbody
        obtain ⟨_, _, _, tr₅, hread', hrec, rfl⟩ := runs_bind.mp hrest
        obtain ⟨rfl, rfl, rfl⟩ := ptrGmem_runs.mp hread'
        obtain ⟨hreg, hspec⟩ := ih hrec
        unfold releaseGmem at hbranch
        split at hbranch
        · next hd =>
          obtain ⟨rfl, hreg₃⟩ := unlinkGmem_runs hbranch
          rw [(unlink_gmem_self prev g).2] at hrec
          exact ⟨by simp [hreg₃, hreg], [], g, rfl, Or.inr ⟨⟨hlive, hd⟩, fuel, _, hrec⟩⟩
        · next hd =>
          obtain ⟨_, rfl, rfl⟩ := runs_pure.mp hbranch
          obtain ⟨l, x, hwalk, hx⟩ := hspec
          refine ⟨by simpa using hreg, g :: l, x, ⟨rfl, ⟨hlive, hd⟩, hwalk⟩, ?_⟩
          rwa [prevOf_cons]

/-- It fills no record. -/
theorem removeGmemByDptr_live {prev g i : Int}
    (hr : Runs (removeGmemByDptr mem h fuel prev g) t u t' tr) (hi : t'.Live i) : t.Live i := by
  induction fuel generalizing prev g t tr with
  | zero => exact absurd hr runs_fail
  | succ fuel ih =>
      obtain ⟨_, _, _, _, hread, hloop, _⟩ := runs_bind.mp hr
      obtain ⟨rfl, rfl, _⟩ := ptrGmem_runs.mp hread
      split at hloop
      · obtain ⟨_, rfl, _⟩ := runs_pure.mp hloop
        exact hi
      · obtain ⟨_, _, _, _, hv, hbody, _⟩ := runs_bind.mp hloop
        obtain ⟨_, rfl, rfl, _⟩ := deref_runs.mp hv
        obtain ⟨_, t₁, _, _, hbranch, hrest, _⟩ := runs_bind.mp hbody
        obtain ⟨_, _, _, _, hread', hrec, _⟩ := runs_bind.mp hrest
        obtain ⟨rfl, rfl, _⟩ := ptrGmem_runs.mp hread'
        have hi₁ := ih hrec
        unfold releaseGmem at hbranch
        split at hbranch
        · obtain ⟨rfl, _⟩ := unlinkGmem_runs hbranch
          exact (unlink_live.mp hi₁).2
        · obtain ⟨_, rfl, _⟩ := runs_pure.mp hbranch
          exact hi₁

/-- At index `-1` the recursion ends. -/
theorem removeGmemByDptr_sentinel (hs : t.Sentinel) {prev : Int}
    (hr : Runs (removeGmemByDptr mem h fuel prev (-1)) t u t' tr) : t' = t := by
  obtain ⟨_, l, x, hwalk, hx⟩ := removeGmemByDptr_runs hr
  rcases hx with ⟨_, rfl⟩ | ⟨hhit, _⟩
  · rfl
  · exact absurd hhit.1 (hs.not_live_of_walk hwalk fun _ hm => hm.1)

theorem sentinel_unlink (hs : t.Sentinel) {prev g : Int} (hg : t.Live g) :
    (unlink t prev g).Sentinel := by
  refine hs.congr (unlink_gmem_ne (ne_sentinel_of_live hs hg).symm ?_)
  exact fun hne => hne.symm

/-- What a completed `remove_gmem_by_dptr` from a head did: nothing, when no variable on the way to
the first empty record holds the handle, or the first hit is gone. -/
theorem removeGmemByDptr_head_runs (hs : t.Sentinel) {g : Int}
    (hr : Runs (removeGmemByDptr mem h fuel (-1) g) t u t' tr) :
    registered tr = [] ∧ ∃ l x, Walk t.next (t.Miss mem h) g l x ∧
      ((¬ t.Live x ∧ t' = t) ∨ (t.Hit mem h x ∧ t' = unlink t (prevOf (-1) l) x)) := by
  obtain ⟨hreg, l, x, hwalk, hx⟩ := removeGmemByDptr_runs hr
  refine ⟨hreg, l, x, hwalk, ?_⟩
  rcases hx with hx | ⟨hhit, _, _, hrest⟩
  · exact Or.inl hx
  · exact Or.inr ⟨hhit, removeGmemByDptr_sentinel (sentinel_unlink hs hhit.1) hrest⟩

theorem removeGmemByDptr_of_miss {prev g x : Int} {l : List Int}
    (hwalk : Walk t.next (t.Miss mem h) g l x) (hx : ¬ t.Live x) (hfuel : l.length < fuel) :
    Returns (removeGmemByDptr mem h fuel prev g) t () t := by
  induction fuel generalizing prev g l with
  | zero => cases hfuel
  | succ fuel ih =>
      refine (ptrGmem_returns g).bind ?_
      cases l with
      | nil =>
          obtain rfl : g = x := hwalk
          rw [if_pos (empty_iff_not_live.mpr hx)]
          exact returns_pure () t
      | cons a l =>
          obtain ⟨rfl, hmiss, hwalk⟩ := hwalk
          rw [if_neg hmiss.1.not_empty]
          refine (deref_returns hmiss.1).bind ?_
          have hkeep : Returns (releaseGmem (mem (t.gmem g).ptr) h prev g) t () t := by
            rw [releaseGmem, if_neg hmiss.2]
            exact returns_pure () t
          refine hkeep.bind ((ptrGmem_returns g).bind ?_)
          exact ih hwalk (Nat.lt_of_succ_lt_succ hfuel)

theorem removeGmemByDptr_of_hit (hs : t.Sentinel) {prev g x : Int} {l : List Int}
    (hwalk : Walk t.next (t.Miss mem h) g l x) (hx : t.Hit mem h x)
    (hfuel : l.length + 1 < fuel) :
    Returns (removeGmemByDptr mem h fuel prev g) t () (unlink t (prevOf prev l) x) := by
  induction fuel generalizing prev g l with
  | zero => cases hfuel
  | succ fuel ih =>
      refine (ptrGmem_returns g).bind ?_
      cases l with
      | nil =>
          obtain rfl : g = x := hwalk
          rw [if_neg hx.1.not_empty]
          refine (deref_returns hx.1).bind ?_
          have hrelease : Returns (releaseGmem (mem (t.gmem g).ptr) h prev g) t ()
              (unlink t prev g) := by
            rw [releaseGmem, if_pos hx.2]
            exact unlinkGmem_returns prev g
          refine hrelease.bind ((ptrGmem_returns g).bind ?_)
          rw [(unlink_gmem_self prev g).2]
          have hempty : ¬ (unlink t prev g).Live (-1) := (sentinel_unlink hs hx.1).not_live
          exact removeGmemByDptr_of_miss (l := []) rfl hempty (Nat.lt_of_succ_lt_succ hfuel)
      | cons a l =>
          obtain ⟨rfl, hmiss, hwalk⟩ := hwalk
          rw [if_neg hmiss.1.not_empty]
          refine (deref_returns hmiss.1).bind ?_
          have hkeep : Returns (releaseGmem (mem (t.gmem g).ptr) h prev g) t () t := by
            rw [releaseGmem, if_neg hmiss.2]
            exact returns_pure () t
          refine hkeep.bind ((ptrGmem_returns g).bind ?_)
          rw [prevOf_cons]
          exact ih hwalk (Nat.lt_of_succ_lt_succ hfuel)

theorem printGmem_runs (hr : Runs (printGmem d) t u t' tr) : t = t' ∧ registered tr = [] := by
  unfold printGmem at hr
  generalize List.range d.lenGmem = is at hr
  induction is generalizing tr with
  | nil =>
      obtain ⟨_, rfl, rfl⟩ := runs_pure.mp hr
      exact ⟨rfl, rfl⟩
  | cons i is ih =>
      obtain ⟨_, _, _, tr₁, hread, hrest, rfl⟩ := runs_bind.mp hr
      obtain ⟨rfl, rfl, rfl⟩ := ptrGmem_runs.mp hread
      obtain ⟨rfl, hreg⟩ := ih hrest
      exact ⟨rfl, by simpa using hreg⟩

theorem printGmem_returns (d : Dims) (t : Tables) : Returns (printGmem d) t () t := by
  unfold printGmem
  induction List.range d.lenGmem with
  | nil => exact returns_pure () t
  | cons i is ih => exact (ptrGmem_returns i).bind ih

theorem printGmem_emits {P : Event → Prop} (hP : ∀ i, InRange d i → P (.gmem i)) :
    Emits P (printGmem d) t := by
  have hgo : ∀ is : List Nat, (∀ i ∈ is, i < d.lenGmem) → Emits P (printGmem.go is) t := by
    intro is
    induction is with
    | nil => exact fun _ => emits_pure
    | cons i is ih =>
        intro hall
        obtain ⟨hi, hrest⟩ := List.forall_mem_cons.mp hall
        rw [printGmem.go, emits_bind_of_returns (ptrGmem_returns _), ptrGmem_emits]
        exact ⟨hP i (inRange_natCast.mpr hi), ih hrest⟩
  exact hgo _ fun i hi => List.mem_range.mp hi

/-- **What a completed `remove_gmem` did.** -/
theorem removeGmem_runs (hs : t.Sentinel) (hr : Runs (removeGmem d fuel key mem h) t u t' tr) :
    registered tr = [] ∧
      ((findRnode d t key = none ∧ t' = t) ∨
       ∃ s, findRnode d t key = some s ∧
        ∃ l x, Walk t.next (t.Miss mem h) (t.entry s) l x ∧
          ((¬ t.Live x ∧ t' = t) ∨ (t.Hit mem h x ∧ t' = unlink t (prevOf (-1) l) x))) := by
  obtain ⟨_, _, tr₁, tr₂, hprint, hrest, rfl⟩ := runs_bind.mp hr
  obtain ⟨rfl, hreg₁⟩ := printGmem_runs hprint
  obtain ⟨_, _, _, tr₃, hfind, hbranch, rfl⟩ := runs_bind.mp hrest
  obtain ⟨rfl, rfl, rfl⟩ := runs_read.mp hfind
  split at hbranch
  · next hnone =>
    obtain ⟨_, rfl, rfl⟩ := runs_pure.mp hbranch
    exact ⟨by simp [hreg₁], Or.inl ⟨hnone, rfl⟩⟩
  · next s hsome =>
    obtain ⟨_, _, _, tr₄, hentry, hwalk, rfl⟩ := runs_bind.mp hbranch
    obtain ⟨rfl, rfl, rfl⟩ := runs_read.mp hentry
    obtain ⟨hreg, hspec⟩ := removeGmemByDptr_head_runs hs hwalk
    exact ⟨by simp [hreg₁, hreg], Or.inr ⟨s, hsome, hspec⟩⟩

/-! ## Adding -/

/-- The slot `s` that `add_gmem` works on, and the tables once it is there: the slot of the
process, or a new one. -/
def Acquires (d : Dims) (t : Tables) (key : PidSt) (s : Nat) (t₁ : Tables) : Prop :=
  (findRnode d t key = some s ∧ t₁ = t) ∨
  (findRnode d t key = none ∧ insertPos d t key = some s ∧
    t₁ = t.putRnode s (RNode.new key.1 key.2 (-1)))

theorem Acquires.gmem {s : Nat} {t₁ : Tables} (h : Acquires d t key s t₁) : t₁.gmem = t.gmem := by
  rcases h with ⟨_, rfl⟩ | ⟨_, _, rfl⟩ <;> rfl

/-- What `link_rnode_gmem` makes of the tables. -/
def Links (t : Tables) (s : Nat) (g : Int) (t' : Tables) : Prop :=
  (t.entry s = -1 ∧ t' = t.setEntry s g) ∨
  (t.entry s ≠ -1 ∧ ∃ l r, Walk t.next t.NotTail (t.entry s) l r ∧ t.Tail r ∧
    ((r = g ∧ t' = t) ∨ (r ≠ g ∧ t' = t.modifyGmem r (·.setNext g))))

/-- What the record part of `add_gmem` makes of the tables: a new record linked in, nothing but a
pointless link when every record is in use, or the record that holds the handle rewritten and
linked again. The last component is what it registers. -/
def Registers (d : Dims) (t : Tables) (mem : HostMem) (s : Nat) (p : Ptr) (n : UInt64)
    (t' : Tables) (reg : List Int) : Prop :=
  ∃ l x, Walk t.next (t.Miss mem (mem p)) (t.entry s) l x ∧
    ((¬ t.Live x ∧ ∃ j : Nat, firstEmpty d t = some j ∧ Links (putNew t j p n) s j t' ∧
        reg = [(j : Int)]) ∨
     (¬ t.Live x ∧ firstEmpty d t = none ∧ Links t s (-1) t' ∧ reg = []) ∨
     (t.Hit mem (mem p) x ∧ Links (t.modifyGmem x (·.setRes p n)) s x t' ∧ reg = [x]))

/-- A handle that a search finds is rewritten where it was found. -/
theorem Registers.of_hit {s : Nat} {reg l : List Int} {x : Int}
    (hr : Registers d t mem s p n t' reg)
    (hwalk : Walk t.next (t.Miss mem (mem p)) (t.entry s) l x) (hhit : t.Hit mem (mem p) x) :
    Links (t.modifyGmem x (·.setRes p n)) s x t' ∧ reg = [x] := by
  obtain ⟨m, y, hwalk', ⟨hy, _⟩ | ⟨hy, _⟩ | ⟨hy, hl, hreg⟩⟩ := hr
  · exact absurd ⟨l, hwalk, hhit⟩ (not_findsAt_of_walk hwalk' hy)
  · exact absurd ⟨l, hwalk, hhit⟩ (not_findsAt_of_walk hwalk' hy)
  · obtain rfl := (hwalk.unique hhit.not_miss hwalk' hy.not_miss).2
    exact ⟨hl, hreg⟩

theorem registerGmem_runs (hs : t.Sentinel) {rn : Option Nat}
    (hr : Runs (registerGmem d fuel mem rn p n) t u t' tr) :
    p ≠ 0 ∧ ∃ s, rn = some s ∧ Registers d t mem s p n t' (registered tr) := by
  obtain ⟨_, _, _, tr₁, hderef, hrest₁, rfl⟩ := runs_bind.mp hr
  obtain ⟨hp, rfl, rfl, rfl⟩ := deref_runs.mp hderef
  obtain ⟨s, _, tr₂, tr₃, hrn, hrest₂, rfl⟩ := runs_bind.mp hrest₁
  cases rn with
  | none => exact absurd hrn runs_fail
  | some s' =>
      obtain ⟨rfl, rfl, rfl⟩ := runs_pure.mp hrn
      obtain ⟨found, _, tr₄, tr₅, hfind, hbranch, rfl⟩ := runs_bind.mp hrest₂
      obtain ⟨_, _, _, tr₆, hentry, hloop, rfl⟩ := runs_bind.mp hfind
      obtain ⟨rfl, rfl, rfl⟩ := runs_read.mp hentry
      obtain ⟨rfl, hreg₆, l, x, hwalk, hx⟩ := findGmemFrom_runs hloop
      refine ⟨hp, s', rfl, l, x, hwalk, ?_⟩
      split at hbranch
      · next hneg =>
        -- a hit at index `-1` is excluded, so the walk ended at an empty record
        have hempty : ¬ t.Live x := by
          rcases hx with ⟨hx, _⟩ | ⟨hhit, rfl⟩
          · exact hx
          · exact fun _ => hs.not_live (hneg ▸ hhit.1)
        obtain ⟨g, t₂, tr₇, tr₈, hpush, hlink, rfl⟩ := runs_bind.mp hbranch
        obtain ⟨hreg₈, hlinks⟩ := linkRnodeGmem_runs hlink
        rcases pushGmem_runs hpush with ⟨j, hj, rfl, rfl, hreg₇⟩ | ⟨hfull, rfl, rfl, hreg₇⟩
        · refine Or.inl ⟨hempty, j, hj, hlinks, ?_⟩
          simp [hreg₆, hreg₇, hreg₈]
        · refine Or.inr (Or.inl ⟨hempty, hfull, hlinks, ?_⟩)
          simp [hreg₆, hreg₇, hreg₈]
      · next hne =>
        rcases hx with ⟨_, rfl⟩ | ⟨hhit, rfl⟩
        · exact absurd rfl hne
        · obtain ⟨_, _, tr₇, tr₈, hset, hlink, rfl⟩ := runs_bind.mp hbranch
          obtain ⟨rfl, rfl⟩ := setRes_runs.mp hset
          obtain ⟨hreg₈, hlinks⟩ := linkRnodeGmem_runs hlink
          refine Or.inr (Or.inr ⟨hhit, hlinks, ?_⟩)
          simp [hreg₆, hreg₈]

/-- **What a completed `add_gmem` did.** -/
theorem addGmem_runs (hs : t.Sentinel) (hr : Runs (addGmem d fuel key mem p n) t u t' tr) :
    p ≠ 0 ∧ ∃ s t₁, Acquires d t key s t₁ ∧ Registers d t₁ mem s p n t' (registered tr) := by
  obtain ⟨_, _, _, tr₁, hfind, hbranch, rfl⟩ := runs_bind.mp hr
  obtain ⟨rfl, rfl, rfl⟩ := runs_read.mp hfind
  split at hbranch
  · next s hsome =>
    obtain ⟨hp, s', hs', hreg⟩ := registerGmem_runs hs hbranch
    cases hs'
    exact ⟨hp, s, t, Or.inl ⟨hsome, rfl⟩, hreg⟩
  · next hnone =>
    obtain ⟨rn, t₁, tr₂, tr₃, hins, hregister, rfl⟩ := runs_bind.mp hbranch
    obtain ⟨_, _, _, tr₄, hpos, hput, rfl⟩ := runs_bind.mp hins
    obtain ⟨rfl, rfl, rfl⟩ := runs_read.mp hpos
    split at hput
    · next s hsome =>
      obtain ⟨_, _, _, tr₅, hupd, hret, rfl⟩ := runs_bind.mp hput
      obtain ⟨rfl, rfl⟩ := runs_update.mp hupd
      obtain ⟨rfl, rfl, rfl⟩ := runs_pure.mp hret
      have hs₁ : (t.putRnode s (RNode.new key.1 key.2 (-1))).Sentinel := hs.congr rfl
      obtain ⟨hp, s', hs', hreg⟩ := registerGmem_runs hs₁ hregister
      cases hs'
      exact ⟨hp, s, _, Or.inr ⟨hnone, hsome, rfl⟩, hreg⟩
    · next hfull =>
      obtain ⟨rfl, rfl, rfl⟩ := runs_pure.mp hput
      obtain ⟨_, s', hs', _⟩ := registerGmem_runs hs hregister
      cases hs'

/-! ## Producing runs -/

theorem registerGmem_of_found {s : Nat} {g : Int} (hp : p ≠ 0)
    (hfind : Returns (findGmem fuel mem s (mem p)) t g t) (hg : g ≠ -1)
    (hlink : Returns (linkRnodeGmem fuel s g) (t.modifyGmem g (·.setRes p n)) () t') :
    Returns (registerGmem d fuel mem (some s) p n) t () t' := by
  refine (deref_returns hp).bind ((returns_pure s t).bind (hfind.bind ?_))
  rw [if_neg hg]
  exact (setRes_returns g p n).bind hlink

theorem registerGmem_of_pushed {s j : Nat} (hp : p ≠ 0)
    (hfind : Returns (findGmem fuel mem s (mem p)) t (-1) t) (hj : firstEmpty d t = some j)
    (hlink : Returns (linkRnodeGmem fuel s j) (putNew t j p n) () t') :
    Returns (registerGmem d fuel mem (some s) p n) t () t' := by
  refine (deref_returns hp).bind ((returns_pure s t).bind (hfind.bind ?_))
  rw [if_pos rfl]
  exact (pushGmem_of_some hj).bind hlink

theorem registerGmem_of_full {s : Nat} (hp : p ≠ 0)
    (hfind : Returns (findGmem fuel mem s (mem p)) t (-1) t) (hfull : firstEmpty d t = none)
    (hlink : Returns (linkRnodeGmem fuel s (-1)) t () t') :
    Returns (registerGmem d fuel mem (some s) p n) t () t' := by
  refine (deref_returns hp).bind ((returns_pure s t).bind (hfind.bind ?_))
  rw [if_pos rfl]
  exact (pushGmem_of_none hfull).bind hlink

theorem registerGmem_faults_of_findGmem {s : Nat} {e : Fault} (hp : p ≠ 0)
    (hfind : Faults (findGmem fuel mem s (mem p)) t e) :
    Faults (registerGmem d fuel mem (some s) p n) t e :=
  (deref_returns hp).faults_bind
    ((returns_pure s t).faults_bind (faults_bind.mpr (Or.inl hfind)))

theorem registerGmem_faults_of_found {s : Nat} {g : Int} {e : Fault} (hp : p ≠ 0)
    (hfind : Returns (findGmem fuel mem s (mem p)) t g t) (hg : g ≠ -1)
    (hlink : Faults (linkRnodeGmem fuel s g) (t.modifyGmem g (·.setRes p n)) e) :
    Faults (registerGmem d fuel mem (some s) p n) t e := by
  refine (deref_returns hp).faults_bind ((returns_pure s t).faults_bind (hfind.faults_bind ?_))
  rw [if_neg hg]
  exact (setRes_returns g p n).faults_bind hlink

theorem registerGmem_faults_of_pushed {s j : Nat} {e : Fault} (hp : p ≠ 0)
    (hfind : Returns (findGmem fuel mem s (mem p)) t (-1) t) (hj : firstEmpty d t = some j)
    (hlink : Faults (linkRnodeGmem fuel s j) (putNew t j p n) e) :
    Faults (registerGmem d fuel mem (some s) p n) t e := by
  refine (deref_returns hp).faults_bind ((returns_pure s t).faults_bind (hfind.faults_bind ?_))
  rw [if_pos rfl]
  exact (pushGmem_of_some hj).faults_bind hlink

theorem findGmem_of_walk {s : Nat} {l : List Int} {x : Int}
    (hwalk : Walk t.next (t.Miss mem h) (t.entry s) l x) (hx : ¬ t.Miss mem h x)
    (hfuel : l.length < fuel) :
    Returns (findGmem fuel mem s h) t (if t.Live x then x else -1) t :=
  (returns_read _ t).bind (findGmemFrom_of_walk hwalk hx hfuel)

theorem insertRnode_of_insertPos {s : Nat} {val : RNode} (hpos : insertPos d t key = some s) :
    Returns (insertRnode d key val) t (some s) (t.putRnode s val) := by
  refine (returns_read _ t).bind ?_
  rw [hpos]
  exact (returns_update _ t).bind (returns_pure _ _)

theorem insertRnode_of_full {val : RNode} (hpos : insertPos d t key = none) :
    Returns (insertRnode d key val) t none t := by
  refine (returns_read _ t).bind ?_
  rw [hpos]
  exact returns_pure none t

/-- `insert_rnode` always returns, and changes nothing when it returns the null pointer. -/
theorem insertRnode_returns (d : Dims) (t : Tables) (key : PidSt) (val : RNode) :
    ∃ r t', Returns (insertRnode d key val) t r t' ∧ (r = none ↔ insertPos d t key = none) ∧
      (r = none → t' = t) := by
  cases hpos : insertPos d t key with
  | none => exact ⟨none, t, insertRnode_of_full hpos, by simp, fun _ => rfl⟩
  | some s => exact ⟨some s, t.putRnode s val, insertRnode_of_insertPos hpos, by simp, nofun⟩

theorem addGmem_of_registerGmem {s : Nat} {t₁ : Tables} (hacq : Acquires d t key s t₁)
    (hr : Returns (registerGmem d fuel mem (some s) p n) t₁ () t') :
    Returns (addGmem d fuel key mem p n) t () t' := by
  refine (returns_read _ t).bind ?_
  rcases hacq with ⟨hfind, rfl⟩ | ⟨hfind, hpos, rfl⟩
  · rw [hfind]
    exact hr
  · rw [hfind]
    exact (insertRnode_of_insertPos hpos).bind hr

/-- Whether `add_gmem` stops at a fault is decided once it has its slot. -/
theorem addGmem_faults_of_registerGmem {s : Nat} {t₁ : Tables} {e : Fault}
    (hacq : Acquires d t key s t₁) (hf : Faults (registerGmem d fuel mem (some s) p n) t₁ e) :
    Faults (addGmem d fuel key mem p n) t e := by
  refine (returns_read _ t).faults_bind ?_
  rcases hacq with ⟨hfind, rfl⟩ | ⟨hfind, hpos, rfl⟩
  · rw [hfind]
    exact hf
  · rw [hfind]
    exact (insertRnode_of_insertPos hpos).faults_bind hf

/-- A process without a slot, in a full process table, dereferences the null pointer that
`insert_rnode` returns. -/
theorem addGmem_faults_of_full (hp : p ≠ 0) (hfind : findRnode d t key = none)
    (hpos : insertPos d t key = none) : Faults (addGmem d fuel key mem p n) t .nullRNode := by
  refine (returns_read _ t).faults_bind ?_
  rw [hfind]
  refine (insertRnode_of_full hpos).faults_bind ((deref_returns hp).faults_bind ?_)
  exact faults_bind.mpr (Or.inl (faults_fail.mpr rfl))

theorem deref_faults_null : Faults (deref mem 0) t .nullHost :=
  faults_bind.mpr (Or.inr ⟨(), t, [.host 0], rfl, faults_fail.mpr rfl⟩)

theorem addGmem_faults_of_null : Faults (addGmem d fuel key mem 0 n) t .nullHost := by
  have hreg : ∀ rn t₁, Faults (registerGmem d fuel mem rn 0 n) t₁ .nullHost :=
    fun rn t₁ => faults_bind.mpr (Or.inl deref_faults_null)
  refine (returns_read _ t).faults_bind ?_
  split
  · exact hreg _ _
  · cases hpos : insertPos d t key with
    | none => exact (insertRnode_of_full hpos).faults_bind (hreg _ _)
    | some s => exact (insertRnode_of_insertPos hpos).faults_bind (hreg _ _)

/-- A process has a slot, gets one, or finds the process table full. -/
theorem acquires_or_full (d : Dims) (t : Tables) (key : PidSt) :
    (∃ s t₁, Acquires d t key s t₁) ∨ (findRnode d t key = none ∧ insertPos d t key = none) := by
  cases hfind : findRnode d t key with
  | some s => exact Or.inl ⟨s, t, Or.inl ⟨hfind, rfl⟩⟩
  | none =>
      cases hpos : insertPos d t key with
      | some s => exact Or.inl ⟨s, _, Or.inr ⟨hfind, hpos, rfl⟩⟩
      | none => exact Or.inr ⟨rfl, rfl⟩

theorem removeGmem_of_findRnode_none (hfind : findRnode d t key = none) :
    Returns (removeGmem d fuel key mem h) t () t := by
  refine (printGmem_returns d t).bind ((returns_read _ t).bind ?_)
  rw [hfind]
  exact returns_pure () t

theorem removeGmem_of_findRnode_some {s : Nat} (hfind : findRnode d t key = some s)
    (hr : Returns (removeGmemByDptr mem h fuel (-1) (t.entry s)) t () t') :
    Returns (removeGmem d fuel key mem h) t () t' := by
  refine (printGmem_returns d t).bind ((returns_read _ t).bind ?_)
  rw [hfind]
  exact (returns_read _ t).bind hr

theorem removeGmem_of_hit {s : Nat} (hs : t.Sentinel) (hfind : findRnode d t key = some s)
    (hwalk : Walk t.next (t.Miss mem h) (t.entry s) l x) (hhit : t.Hit mem h x) :
    Returns (removeGmem d (l.length + 2) key mem h) t () (unlink t (prevOf (-1) l) x) := by
  have hfuel : l.length + 1 < l.length + 2 := by omega
  exact removeGmem_of_findRnode_some hfind (removeGmemByDptr_of_hit hs hwalk hhit hfuel)

theorem removeGmem_of_miss {s : Nat} (hfind : findRnode d t key = some s)
    (hwalk : Walk t.next (t.Miss mem h) (t.entry s) l x) (hx : ¬ t.Live x) :
    Returns (removeGmem d (l.length + 1) key mem h) t () t := by
  have hfuel : l.length < l.length + 1 := by omega
  exact removeGmem_of_findRnode_some hfind (removeGmemByDptr_of_miss hwalk hx hfuel)

theorem removeGmem_faults {s : Nat} {e : Fault} (hfind : findRnode d t key = some s)
    (hf : Faults (removeGmemByDptr mem h fuel (-1) (t.entry s)) t e) :
    Faults (removeGmem d fuel key mem h) t e := by
  refine (printGmem_returns d t).faults_bind ((returns_read _ t).faults_bind ?_)
  rw [hfind]
  exact (returns_read _ t).faults_bind hf

/-! ## Histories -/

/-- The operations processes perform on the tables. -/
inductive Op where
  | addGmem (key : PidSt) (mem : HostMem) (dptr : Ptr) (bytes : UInt64)
  | removeGmem (key : PidSt) (mem : HostMem) (dptr : Handle)
  | deleteRnode (key : PidSt)
  | gmemUsed (processExist : RNode → Bool)

def Op.exec (d : Dims) (fuel : Nat) : Op → Exec Tables Unit
  | .addGmem key mem dptr bytes => RNM.addGmem d fuel key mem dptr bytes
  | .removeGmem key mem dptr => RNM.removeGmem d fuel key mem dptr
  | .deleteRnode key => RNM.deleteRnode d key
  | .gmemUsed processExist => do
      let _ ← RNM.gmemUsed d fuel processExist
      pure ()

/-- The operation, run to completion, leads from `t` to `t'`. -/
def Step (d : Dims) (t : Tables) (op : Op) (t' : Tables) : Prop :=
  ∃ fuel, Returns (op.exec d fuel) t () t'

/-- The operation is an `add_gmem` or a `remove_gmem`. -/
def Op.IsBook : Op → Prop
  | .addGmem .. => True
  | .removeGmem .. => True
  | .deleteRnode _ => False
  | .gmemUsed _ => False

/-- The operation is one of the three that read the record table. -/
def Op.IsAccounting : Op → Prop
  | .deleteRnode _ => False
  | _ => True

theorem Op.IsBook.isAccounting {op : Op} (hop : op.IsBook) : op.IsAccounting := by
  cases op with
  | addGmem key mem p n => trivial
  | removeGmem key mem h => trivial
  | deleteRnode key => cases hop
  | gmemUsed pe => cases hop

/-- The process that makes the call. -/
def Op.caller : Op → Option PidSt
  | .addGmem key _ _ _ => some key
  | .removeGmem key _ _ => some key
  | .deleteRnode key => some key
  | .gmemUsed _ => none

theorem deleteRnode_runs (hr : Runs (deleteRnode d key) t u t' tr) :
    (findRnode d t key = none ∧ t' = t) ∨
    ∃ s, findRnode d t key = some s ∧ t' = t.putRnode s (t.rnode s).shallowDelete := by
  obtain ⟨_, _, _, tr₁, hfind, hbranch, rfl⟩ := runs_bind.mp hr
  obtain ⟨rfl, rfl, rfl⟩ := runs_read.mp hfind
  split at hbranch
  · next s hsome =>
    obtain ⟨rfl, rfl⟩ := runs_update.mp hbranch
    exact Or.inr ⟨s, hsome, rfl⟩
  · next hnone =>
    obtain ⟨_, rfl, rfl⟩ := runs_pure.mp hbranch
    exact Or.inl ⟨hnone, rfl⟩

/-! ### Computed histories -/

/-- The tables as `RNM::init` creates them; nothing but initial records lies outside of them. -/
def initialTables : Tables := ⟨fun _ => RNode.initialized, fun _ => GMem.initialized⟩

theorem fresh_initialTables (d : Dims) : Fresh d initialTables := ⟨fun _ _ => rfl, fun _ _ => rfl⟩

theorem sentinel_initialTables : initialTables.Sentinel := ⟨rfl, rfl⟩

/-- The run that the operations make. -/
def replay (d : Dims) (fuel : Nat) : Tables → List Op → List (Op × Tables) :=
  trajectory fun t op => (op.exec d fuel t).state

/-- Each of them completes. -/
def completes (d : Dims) (fuel : Nat) : Tables → List Op → Bool :=
  allSteps (fun t op => (op.exec d fuel t).state) fun t op => (op.exec d fuel t).result.isOk

/-- Two slots, three records. -/
def smallDims : Dims := ⟨2, 3, by decide⟩

theorem slot_smallDims (hex : Exists smallDims t s) : s = 0 ∨ s = 1 := by
  have hlt : s < 2 := hex.1
  omega

/-- Two processes allocate once each. -/
def firstAllocations : List Op :=
  [.addGmem (1, 0) ownAddress 16 100, .addGmem (2, 0) ownAddress 24 200]

/-- Two processes allocate. The first one allocates again and releases that, and the second one is
handed the record. -/
def recordHandedOn : List Op :=
  [.addGmem (1, 0) ownAddress 16 100, .addGmem (2, 0) ownAddress 24 200,
   .addGmem (1, 0) ownAddress 32 50, .removeGmem (1, 0) ownAddress 32,
   .addGmem (2, 0) ownAddress 40 70]

/-- The tables after the first `k` of these calls. -/
def handedOn (k : Nat) : Tables :=
  final initialTables (replay smallDims 3 initialTables (recordHandedOn.take k))

/-- The first process has allocated. -/
def afterAllocate : Tables :=
  ((Op.addGmem (1, 0) ownAddress 16 100).exec smallDims 2 initialTables).state

theorem runs_of_isOk {op : Op} (h : (op.exec d fuel t).result.isOk = true) :
    Runs (op.exec d fuel) t () (op.exec d fuel t).state (op.exec d fuel t).trace := by
  apply runs_of_ok
  cases hx : (op.exec d fuel t).result with
  | error e =>
      rw [hx] at h
      cases h
  | ok u => rfl

/-- **A computation that completes is a run.** -/
theorem along_replay {ops : List Op} (h : completes d fuel t ops = true) :
    Along (Step d) t (replay d fuel t ops) := by
  apply along_trajectory _ h
  intro t op hok
  exact ⟨fuel, (runs_of_isOk hok).returns⟩

end Vcuda.RNM
