import Vcuda.Common.Walk
import Vcuda.Rnm.Slots

/-!
# The three walks over a record chain

What `find_gmem`, `last_rec` and `remove_gmem_by_dptr` compute, in terms of `Walk`. Each of the
three stops on a test of its own, so each has its own set of indices it passes:

* `find_gmem` and `remove_gmem_by_dptr` pass the live records whose variable does not hold the
  handle (`Miss`),
* `last_rec` passes everything that is not a tail, empty records included (`NotTail`).

For each walk there is one lemma that reads a completed run (`…_runs`) and one that produces it
from a stopped walk and enough fuel (`…_of_walk`). `push_gmem` and `link_rnode_gmem` get the same
treatment.
-/

namespace Vcuda

namespace Tables

instance (t : Tables) : DecidablePred t.Live := fun i =>
  inferInstanceAs (Decidable ((t.gmem i).ptr ≠ 0))

/-- The record at `i` is in use and its variable does not hold `d`. -/
def Miss (t : Tables) (mem : HostMem) (d : Handle) (i : Int) : Prop :=
  t.Live i ∧ mem (t.gmem i).ptr ≠ d

/-- The record at `i` is in use and its variable holds `d`. -/
def Hit (t : Tables) (mem : HostMem) (d : Handle) (i : Int) : Prop :=
  t.Live i ∧ mem (t.gmem i).ptr = d

/-- The record at `i` ends a chain. -/
def Tail (t : Tables) (i : Int) : Prop := t.Live i ∧ t.next i = -1

/-- `last_rec` goes past `i`. -/
def NotTail (t : Tables) (i : Int) : Prop := ¬ t.Tail i

/-- The live records `l` are linked one to the next, from `i` on, and the last links to `j`. -/
abbrev Chain (t : Tables) : Int → List Int → Int → Prop := Walk t.next t.Live

variable {t : Tables} {mem : HostMem} {d : Handle} {i j : Int}

theorem not_live_iff : ¬ t.Live i ↔ (t.gmem i).ptr = 0 := not_not

theorem empty_iff_not_live : (t.gmem i).empty = true ↔ ¬ t.Live i := by
  rw [GMem.empty_iff, not_live_iff]

theorem Live.not_empty (h : t.Live i) : ¬ (t.gmem i).empty = true :=
  fun he => empty_iff_not_live.mp he h

theorem Hit.not_miss (h : t.Hit mem d i) : ¬ t.Miss mem d i := fun hm => hm.2 h.2

theorem not_miss_of_not_live (h : ¬ t.Live i) : ¬ t.Miss mem d i := fun hm => h hm.1

theorem hit_or_not_live_of_not_miss (h : ¬ t.Miss mem d i) : t.Hit mem d i ∨ ¬ t.Live i := by
  by_cases hl : t.Live i
  · by_cases hd : mem (t.gmem i).ptr = d
    · exact Or.inl ⟨hl, hd⟩
    · exact absurd ⟨hl, hd⟩ h
  · exact Or.inr hl

/-- A walk past misses is a chain. -/
theorem Chain.of_miss {l : List Int} (h : Walk t.next (t.Miss mem d) i l j) : t.Chain i l j :=
  Walk.mono h fun _ _ hm => hm.1

/-- From `-1` no record in use is reached. -/
theorem Sentinel.not_live_of_walk {P : Int → Prop} {l : List Int} (hs : t.Sentinel)
    (hwalk : Walk t.next P (-1) l i) (hP : ∀ i, P i → t.Live i) : ¬ t.Live i := by
  intro hi
  have hc : t.Chain (-1) l i := Walk.mono hwalk fun b _ hb => hP b hb
  exact hs.not_live (hc.live_start hi)

/-! ### Frame lemmas for the record table -/

theorem modifyGmem_next_self (f : GMem → GMem) :
    (t.modifyGmem i f).next i = (f (t.gmem i)).next := by
  rw [next, modifyGmem_gmem_self]

theorem modifyGmem_next_ne {f : GMem → GMem} (h : j ≠ i) :
    (t.modifyGmem i f).next j = t.next j := by
  rw [next, modifyGmem_gmem_ne h, next]

theorem modifyGmem_live_self (f : GMem → GMem) :
    (t.modifyGmem i f).Live i ↔ (f (t.gmem i)).ptr ≠ 0 := by
  rw [Live, modifyGmem_gmem_self]

theorem modifyGmem_live_ne {f : GMem → GMem} (h : j ≠ i) :
    (t.modifyGmem i f).Live j ↔ t.Live j := by
  rw [Live, modifyGmem_gmem_ne h, Live]

/-- A chain does not depend on the records it does not visit. -/
theorem Chain.modifyGmem {l : List Int} {a : Int} {f : GMem → GMem} (h : t.Chain i l j)
    (ha : a ∉ l) : (t.modifyGmem a f).Chain i l j := by
  refine h.congr fun b hb => ?_
  have hba : b ≠ a := fun he => ha (he ▸ hb)
  exact ⟨modifyGmem_next_ne hba, (modifyGmem_live_ne hba).mpr (h.live_of_mem b hb)⟩

/-- Neither does it depend on the contents of the records, as long as they stay in use. -/
theorem Chain.setRes {l : List Int} {a : Int} {p : Ptr} {n : UInt64} (h : t.Chain i l j)
    (hp : p ≠ 0) : (t.modifyGmem a (·.setRes p n)).Chain i l j := by
  refine h.congr fun b hb => ?_
  by_cases hba : b = a
  · subst hba
    exact ⟨modifyGmem_next_self _, (modifyGmem_live_self _).mpr hp⟩
  · exact ⟨modifyGmem_next_ne hba, (modifyGmem_live_ne hba).mpr (h.live_of_mem b hb)⟩

/-- A change that keeps the bytes. -/
theorem modifyGmem_bytes {f : GMem → GMem} (hf : ∀ r, (f r).bytes = r.bytes) (i j : Int) :
    ((t.modifyGmem i f).gmem j).bytes = (t.gmem j).bytes := by
  by_cases h : j = i
  · subst h
    rw [modifyGmem_gmem_self, hf]
  · rw [modifyGmem_gmem_ne h]

theorem modifyGmem_modifyGmem {f g : GMem → GMem} :
    (t.modifyGmem i f).modifyGmem i g = t.modifyGmem i (fun r => g (f r)) := by
  simp [modifyGmem]

theorem Sentinel.modifyGmem {f : GMem → GMem} (h : t.Sentinel) (hi : i ≠ -1) :
    (t.modifyGmem i f).Sentinel := by
  constructor
  · rw [modifyGmem_gmem_ne (Ne.symm hi)]; exact h.ptr
  · rw [modifyGmem_gmem_ne (Ne.symm hi)]; exact h.next

theorem Sentinel.congr {t' : Tables} (h : t.Sentinel) (hg : t'.gmem (-1) = t.gmem (-1)) :
    t'.Sentinel := ⟨hg ▸ h.ptr, hg ▸ h.next⟩

end Tables

namespace RNM

open Traced Tables

variable {d : Dims} {t t' : Tables} {mem : HostMem} {h : Handle} {tr : List Event} {u : Unit}

/-! ## Primitive accesses -/

@[simp] theorem ptrGmem_runs {i : Int} {r : GMem} :
    Runs (ptrGmem i) t r t' tr ↔ r = t.gmem i ∧ t = t' ∧ tr = [.gmem i] := by
  simp only [ptrGmem, runs_bind, runs_emit, runs_read]
  constructor
  · rintro ⟨_, _, _, _, ⟨rfl, rfl⟩, ⟨rfl, rfl, rfl⟩, rfl⟩; exact ⟨rfl, rfl, rfl⟩
  · rintro ⟨rfl, rfl, rfl⟩; exact ⟨(), _, _, _, ⟨rfl, rfl⟩, ⟨rfl, rfl, rfl⟩, rfl⟩

@[simp] theorem setNext_runs {i j : Int} :
    Runs (setNext i j) t u t' tr ↔ t' = t.modifyGmem i (·.setNext j) ∧ tr = [.gmem i] := by
  simp only [setNext, runs_bind, runs_emit, runs_update]
  constructor
  · rintro ⟨_, _, _, _, ⟨rfl, rfl⟩, ⟨rfl, rfl⟩, rfl⟩; exact ⟨rfl, rfl⟩
  · rintro ⟨rfl, rfl⟩; exact ⟨(), _, _, _, ⟨rfl, rfl⟩, ⟨rfl, rfl⟩, rfl⟩

@[simp] theorem setRes_runs {i : Int} {p : Ptr} {n : UInt64} :
    Runs (setRes i p n) t u t' tr ↔ t' = t.modifyGmem i (·.setRes p n) ∧ tr = [.setRes i] := by
  simp only [setRes, runs_bind, runs_emit, runs_update]
  constructor
  · rintro ⟨_, _, _, _, ⟨rfl, rfl⟩, ⟨rfl, rfl⟩, rfl⟩; exact ⟨rfl, rfl⟩
  · rintro ⟨rfl, rfl⟩; exact ⟨(), _, _, _, ⟨rfl, rfl⟩, ⟨rfl, rfl⟩, rfl⟩

@[simp] theorem shallowDelete_runs {i : Int} :
    Runs (shallowDelete i) t u t' tr ↔
      t' = t.modifyGmem i GMem.shallowDelete ∧ tr = [.gmem i] := by
  simp only [shallowDelete, runs_bind, runs_emit, runs_update]
  constructor
  · rintro ⟨_, _, _, _, ⟨rfl, rfl⟩, ⟨rfl, rfl⟩, rfl⟩; exact ⟨rfl, rfl⟩
  · rintro ⟨rfl, rfl⟩; exact ⟨(), _, _, _, ⟨rfl, rfl⟩, ⟨rfl, rfl⟩, rfl⟩

@[simp] theorem deref_runs {p : Ptr} {v : Handle} :
    Runs (deref mem p) t v t' tr ↔ p ≠ 0 ∧ v = mem p ∧ t = t' ∧ tr = [.host p] := by
  simp only [deref, runs_bind, runs_emit]
  by_cases hp : p = 0
  · simp [hp]
  · simp only [if_neg hp, runs_pure]
    constructor
    · rintro ⟨_, _, _, _, ⟨rfl, rfl⟩, ⟨rfl, rfl, rfl⟩, rfl⟩; exact ⟨hp, rfl, rfl, rfl⟩
    · rintro ⟨_, rfl, rfl, rfl⟩; exact ⟨(), _, _, _, ⟨rfl, rfl⟩, ⟨rfl, rfl, rfl⟩, rfl⟩

@[simp] theorem ptrGmem_emits {P : Event → Prop} {i : Int} :
    Emits P (ptrGmem i) t ↔ P (.gmem i) := by
  simp [ptrGmem, emits_bind]

@[simp] theorem setNext_emits {P : Event → Prop} {i j : Int} :
    Emits P (setNext i j) t ↔ P (.gmem i) := by
  simp [setNext, emits_bind]

@[simp] theorem setRes_emits {P : Event → Prop} {i : Int} {p : Ptr} {n : UInt64} :
    Emits P (setRes i p n) t ↔ P (.setRes i) := by
  simp [setRes, emits_bind]

@[simp] theorem shallowDelete_emits {P : Event → Prop} {i : Int} :
    Emits P (shallowDelete i) t ↔ P (.gmem i) := by
  simp [shallowDelete, emits_bind]

@[simp] theorem deref_emits {P : Event → Prop} {p : Ptr} :
    Emits P (deref mem p) t ↔ P (.host p) := by
  rw [deref, emits_bind, emits_emit]
  refine and_iff_left ?_
  intro _ t' tr _
  split
  · exact emits_fail
  · exact emits_pure

theorem ptrGmem_returns (i : Int) : Returns (ptrGmem i) t (t.gmem i) t :=
  (ptrGmem_runs.mpr ⟨rfl, rfl, rfl⟩).returns

theorem setNext_returns (i j : Int) :
    Returns (setNext i j) t () (t.modifyGmem i (·.setNext j)) :=
  (setNext_runs.mpr ⟨rfl, rfl⟩).returns

theorem setRes_returns (i : Int) (p : Ptr) (n : UInt64) :
    Returns (setRes i p n) t () (t.modifyGmem i (·.setRes p n)) :=
  (setRes_runs.mpr ⟨rfl, rfl⟩).returns

theorem shallowDelete_returns (i : Int) :
    Returns (shallowDelete i) t () (t.modifyGmem i GMem.shallowDelete) :=
  (shallowDelete_runs.mpr ⟨rfl, rfl⟩).returns

theorem deref_returns {p : Ptr} (hp : p ≠ 0) : Returns (deref mem p) t (mem p) t :=
  (deref_runs.mpr ⟨hp, rfl, rfl, rfl⟩).returns

/-! ## `find_gmem` -/

/-- A completed `find_gmem` walked past misses to a hit, which it returns, or to an empty record. -/
theorem findGmemFrom_runs {fuel : Nat} {g r : Int}
    (hr : Runs (findGmemFrom mem h fuel g) t r t' tr) :
    t = t' ∧ registered tr = [] ∧ ∃ l x, Walk t.next (t.Miss mem h) g l x ∧
      ((¬ t.Live x ∧ r = -1) ∨ (t.Hit mem h x ∧ r = x)) := by
  induction fuel generalizing g tr with
  | zero => exact absurd hr runs_fail
  | succ fuel ih =>
      obtain ⟨_, _, _, tr₂, hread, hloop, rfl⟩ := runs_bind.mp hr
      obtain ⟨rfl, rfl, rfl⟩ := ptrGmem_runs.mp hread
      split at hloop
      · next he =>
        obtain ⟨rfl, rfl, rfl⟩ := runs_pure.mp hloop
        exact ⟨rfl, rfl, [], g, rfl, Or.inl ⟨empty_iff_not_live.mp he, rfl⟩⟩
      · next he =>
        have hlive := not_not.mp fun hn => he (empty_iff_not_live.mpr hn)
        obtain ⟨_, _, _, tr₃, hv, hrest, rfl⟩ := runs_bind.mp hloop
        obtain ⟨_, rfl, rfl, rfl⟩ := deref_runs.mp hv
        split at hrest
        · next hd =>
          obtain ⟨rfl, rfl, rfl⟩ := runs_pure.mp hrest
          exact ⟨rfl, rfl, [], g, rfl, Or.inr ⟨⟨hlive, hd⟩, rfl⟩⟩
        · next hd =>
          obtain ⟨rfl, hreg, l, x, hwalk, hx⟩ := ih hrest
          refine ⟨rfl, by simpa using hreg, g :: l, x, ⟨rfl, ⟨hlive, hd⟩, hwalk⟩, hx⟩

/-- With fuel for the whole walk, `find_gmem` returns. -/
theorem findGmemFrom_of_walk {fuel : Nat} {g x : Int} {l : List Int}
    (hwalk : Walk t.next (t.Miss mem h) g l x) (hx : ¬ t.Miss mem h x) (hfuel : l.length < fuel) :
    Returns (findGmemFrom mem h fuel g) t (if t.Live x then x else -1) t := by
  induction fuel generalizing g l with
  | zero => cases hfuel
  | succ fuel ih =>
      refine (ptrGmem_returns g).bind ?_
      cases l with
      | nil =>
          obtain rfl : g = x := hwalk
          rcases hit_or_not_live_of_not_miss hx with hhit | hempty
          · rw [if_neg hhit.1.not_empty, if_pos hhit.1]
            refine (deref_returns hhit.1).bind ?_
            rw [if_pos hhit.2]
            exact returns_pure g t
          · rw [if_pos (empty_iff_not_live.mpr hempty), if_neg hempty]
            exact returns_pure (-1) t
      | cons a l =>
          obtain ⟨rfl, hmiss, hwalk⟩ := hwalk
          rw [if_neg hmiss.1.not_empty]
          refine (deref_returns hmiss.1).bind ?_
          rw [if_neg hmiss.2]
          exact ih hwalk (Nat.lt_of_succ_lt_succ hfuel)

/-! ## `last_rec` -/

theorem lastRec_runs {fuel : Nat} {g r : Int} (hr : Runs (lastRec fuel g) t r t' tr) :
    t = t' ∧ registered tr = [] ∧ ∃ l, Walk t.next t.NotTail g l r ∧ t.Tail r := by
  induction fuel generalizing g tr with
  | zero => exact absurd hr runs_fail
  | succ fuel ih =>
      obtain ⟨_, _, _, tr₂, hread, hrest, rfl⟩ := runs_bind.mp hr
      obtain ⟨rfl, rfl, rfl⟩ := ptrGmem_runs.mp hread
      split at hrest
      · next ht =>
        obtain ⟨rfl, rfl, rfl⟩ := runs_pure.mp hrest
        exact ⟨rfl, rfl, [], rfl, GMem.isTail_iff.mp ht⟩
      · next ht =>
        obtain ⟨rfl, hreg, l, hwalk, htail⟩ := ih hrest
        have hnt : t.NotTail g := fun htl => ht (GMem.isTail_iff.mpr htl)
        exact ⟨rfl, by simpa using hreg, g :: l, ⟨rfl, hnt, hwalk⟩, htail⟩

theorem lastRec_of_walk {fuel : Nat} {g r : Int} {l : List Int}
    (hwalk : Walk t.next t.NotTail g l r) (hr : t.Tail r) (hfuel : l.length < fuel) :
    Returns (lastRec fuel g) t r t := by
  induction fuel generalizing g l with
  | zero => cases hfuel
  | succ fuel ih =>
      refine (ptrGmem_returns g).bind ?_
      cases l with
      | nil =>
          obtain rfl : g = r := hwalk
          rw [if_pos (GMem.isTail_iff.mpr hr)]
          exact returns_pure g t
      | cons a l =>
          obtain ⟨rfl, hnt, hwalk⟩ := hwalk
          rw [if_neg fun ht => hnt (GMem.isTail_iff.mp ht)]
          exact ih hwalk (Nat.lt_of_succ_lt_succ hfuel)

/-- On a chain that ends at `-1`, `last_rec` is the last record. -/
theorem walk_notTail_of_chain {g r : Int} {l : List Int} (hs : t.Sentinel)
    (hc : t.Chain g (l ++ [r]) (-1)) : Walk t.next t.NotTail g l r ∧ t.Tail r := by
  obtain ⟨hl, hr, hnext⟩ := Walk.of_snoc hc
  refine ⟨?_, hr, hnext⟩
  refine hl.congr fun b hb => ⟨rfl, ?_⟩
  intro htail
  obtain ⟨l₁, l₂, rfl, _, h₂⟩ := hl.split_at_mem hb
  -- a tail in the middle would end the chain before `r`
  rw [htail.2] at h₂
  cases l₂ with
  | nil => exact hs.not_live ((h₂ : (-1 : Int) = r) ▸ hr)
  | cons b l₂ => exact hs.not_live (h₂.1 ▸ h₂.2.1)

/-! ## `push_gmem` -/

/-- The slot `push_gmem` takes. -/
def firstEmpty (d : Dims) (t : Tables) : Option Nat :=
  (List.range d.lenGmem).find? fun i : Nat => (t.gmem i).empty

/-- It is the lowest empty record. -/
theorem firstEmpty_eq_some {j : Nat} :
    firstEmpty d t = some j ↔
      j < d.lenGmem ∧ ¬ t.Live j ∧ ∀ i : Int, 0 ≤ i → i < j → t.Live i := by
  rw [firstEmpty, List.find?_range_eq_some, empty_iff_not_live, List.mem_range]
  constructor
  · rintro ⟨hempty, hj, hbefore⟩
    refine ⟨hj, hempty, ?_⟩
    intro i h0 hi
    obtain ⟨k, rfl⟩ := Int.eq_ofNat_of_zero_le h0
    have hk := hbefore k (by omega)
    simpa [Live] using hk
  · rintro ⟨hj, hempty, hbefore⟩
    refine ⟨hempty, hj, ?_⟩
    intro k hk
    have hlive := hbefore k (by omega) (by omega)
    simpa [Live] using hlive

theorem firstEmpty_eq_none : firstEmpty d t = none ↔ ∀ i, InRange d i → t.Live i := by
  rw [firstEmpty, List.find?_eq_none]
  constructor
  · intro hall i hi
    obtain ⟨k, rfl, hk⟩ := hi.exists_nat
    have := hall k (List.mem_range.mpr hk)
    simpa [Live] using this
  · intro hall k hk
    have := hall k (inRange_natCast.mpr (List.mem_range.mp hk))
    simpa [Live] using this

/-- Only which records are in use matters to it. -/
theorem firstEmpty_congr {t' : Tables} (hlive : ∀ i, InRange d i → (t'.Live i ↔ t.Live i)) :
    firstEmpty d t' = firstEmpty d t := by
  apply Option.ext
  intro j
  rw [firstEmpty_eq_some, firstEmpty_eq_some]
  constructor
  · rintro ⟨hj, hempty, hbefore⟩
    refine ⟨hj, ?_, ?_⟩
    · rw [← hlive j (inRange_natCast.mpr hj)]
      exact hempty
    · intro i h0 hi
      exact (hlive i ⟨h0, by omega⟩).mp (hbefore i h0 hi)
  · rintro ⟨hj, hempty, hbefore⟩
    refine ⟨hj, ?_, ?_⟩
    · rw [hlive j (inRange_natCast.mpr hj)]
      exact hempty
    · intro i h0 hi
      exact (hlive i ⟨h0, by omega⟩).mpr (hbefore i h0 hi)

/-- Overwrite the record at `i` with a new one. -/
def putNew (t : Tables) (i : Int) (p : Ptr) (n : UInt64) : Tables :=
  t.modifyGmem i fun _ => GMem.new p n

theorem tail_putNew {i : Int} {p : Ptr} {n : UInt64} (hp : p ≠ 0) : (putNew t i p n).Tail i :=
  ⟨(modifyGmem_live_self _).mpr hp, modifyGmem_next_self _⟩

theorem pushGmem_go_runs {p : Ptr} {n : UInt64} {is : List Nat} {r : Int}
    (hr : Runs (pushGmem.go (GMem.new p n) is) t r t' tr) :
    (∃ j : Nat, is.find? (fun i : Nat => (t.gmem i).empty) = some j ∧ r = j ∧ t' = putNew t j p n ∧
      registered tr = [(j : Int)]) ∨
    (is.find? (fun i : Nat => (t.gmem i).empty) = none ∧ r = -1 ∧ t' = t ∧ registered tr = []) := by
  induction is generalizing tr with
  | nil =>
      obtain ⟨rfl, rfl, rfl⟩ := runs_pure.mp hr
      exact Or.inr ⟨rfl, rfl, rfl, rfl⟩
  | cons i is ih =>
      obtain ⟨_, _, _, tr₂, hread, hrest, rfl⟩ := runs_bind.mp hr
      obtain ⟨rfl, rfl, rfl⟩ := ptrGmem_runs.mp hread
      rw [List.find?_cons]
      split at hrest
      · next he =>
        obtain ⟨_, _, _, tr₃, hset, hlink, rfl⟩ := runs_bind.mp hrest
        obtain ⟨rfl, rfl⟩ := setRes_runs.mp hset
        obtain ⟨_, _, _, tr₄, hnext, hpure, rfl⟩ := runs_bind.mp hlink
        obtain ⟨rfl, rfl⟩ := setNext_runs.mp hnext
        obtain ⟨rfl, rfl, rfl⟩ := runs_pure.mp hpure
        refine Or.inl ⟨i, by rw [he], rfl, ?_, rfl⟩
        rw [modifyGmem_modifyGmem]
        rfl
      · next he =>
        rw [Bool.not_eq_true] at he
        rw [he]
        simpa using ih hrest

/-- `push_gmem` writes a new record into the first empty slot and returns it; with every record in
use it returns `-1` and changes nothing. -/
theorem pushGmem_runs {p : Ptr} {n : UInt64} {r : Int}
    (hr : Runs (pushGmem d (GMem.new p n)) t r t' tr) :
    (∃ j : Nat, firstEmpty d t = some j ∧ r = j ∧ t' = putNew t j p n ∧
      registered tr = [(j : Int)]) ∨
    (firstEmpty d t = none ∧ r = -1 ∧ t' = t ∧ registered tr = []) :=
  pushGmem_go_runs hr

theorem pushGmem_returns (gm : GMem) : ∃ r t', Returns (pushGmem d gm) t r t' := by
  unfold pushGmem
  induction List.range d.lenGmem with
  | nil => exact ⟨-1, t, returns_pure (-1) t⟩
  | cons i is ih =>
      by_cases he : (t.gmem i).empty = true
      · refine ⟨i, (t.modifyGmem i (·.setRes gm.ptr gm.bytes)).modifyGmem i (·.setNext (-1)),
          (ptrGmem_returns i).bind ?_⟩
        rw [if_pos he]
        exact (setRes_returns _ _ _).bind ((setNext_returns _ _).bind (returns_pure _ _))
      · obtain ⟨r, t', hrest⟩ := ih
        refine ⟨r, t', (ptrGmem_returns i).bind ?_⟩
        rw [if_neg he]
        exact hrest

theorem pushGmem_of_some {p : Ptr} {n : UInt64} {j : Nat} (hj : firstEmpty d t = some j) :
    Returns (pushGmem d (GMem.new p n)) t (j : Int) (putNew t j p n) := by
  obtain ⟨r, t', tr, hr⟩ := pushGmem_returns (d := d) (t := t) (GMem.new p n)
  rcases pushGmem_runs hr with ⟨j', hj', rfl, rfl, _⟩ | ⟨hnone, _⟩
  · rw [hj] at hj'
    rw [Option.some.inj hj']
    exact ⟨tr, hr⟩
  · rw [hj] at hnone
    cases hnone

theorem pushGmem_of_none {p : Ptr} {n : UInt64} (hnone : firstEmpty d t = none) :
    Returns (pushGmem d (GMem.new p n)) t (-1) t := by
  obtain ⟨r, t', tr, hr⟩ := pushGmem_returns (d := d) (t := t) (GMem.new p n)
  rcases pushGmem_runs hr with ⟨j, hj, _⟩ | ⟨_, rfl, rfl, _⟩
  · rw [hnone] at hj
    cases hj
  · exact ⟨tr, hr⟩

/-- It looks at records of the table only. -/
theorem pushGmem_emits {P : Event → Prop} (hP : ∀ i, InRange d i → P (.gmem i) ∧ P (.setRes i))
    (gm : GMem) : Emits P (pushGmem d gm) t := by
  have hgo : ∀ is : List Nat, (∀ i ∈ is, i < d.lenGmem) → Emits P (pushGmem.go gm is) t := by
    intro is
    induction is with
    | nil => exact fun _ => emits_pure
    | cons i is ih =>
        intro hall
        obtain ⟨hi, hrest⟩ := List.forall_mem_cons.mp hall
        obtain ⟨hget, hset⟩ := hP i (inRange_natCast.mpr hi)
        rw [pushGmem.go, emits_bind_of_returns (ptrGmem_returns _), ptrGmem_emits]
        refine ⟨hget, ?_⟩
        split
        · rw [emits_bind_of_returns (setRes_returns _ _ _), setRes_emits,
            emits_bind_of_returns (setNext_returns _ _), setNext_emits]
          exact ⟨hset, hget, emits_pure⟩
        · exact ih hrest
  exact hgo _ fun i hi => List.mem_range.mp hi

/-! ## `link_rnode_gmem` -/

/-- A completed `link_rnode_gmem` gave the process its first record, or made the tail of its chain
point to the new one unless that is the tail already. -/
theorem linkRnodeGmem_runs {fuel rn : Nat} {g : Int}
    (hr : Runs (linkRnodeGmem fuel rn g) t u t' tr) :
    registered tr = [] ∧
      ((t.entry rn = -1 ∧ t' = t.setEntry rn g) ∨
       (t.entry rn ≠ -1 ∧ ∃ l r, Walk t.next t.NotTail (t.entry rn) l r ∧ t.Tail r ∧
          ((r = g ∧ t' = t) ∨ (r ≠ g ∧ t' = t.modifyGmem r (·.setNext g))))) := by
  obtain ⟨_, _, _, tr₂, hread, hrest, rfl⟩ := runs_bind.mp hr
  obtain ⟨rfl, rfl, rfl⟩ := runs_read.mp hread
  split at hrest
  · next he =>
    obtain ⟨rfl, rfl⟩ := runs_update.mp hrest
    exact ⟨rfl, Or.inl ⟨he, rfl⟩⟩
  · next he =>
    obtain ⟨r, _, _, tr₃, hlast, hset, rfl⟩ := runs_bind.mp hrest
    obtain ⟨rfl, hreg, l, hwalk, htail⟩ := lastRec_runs hlast
    split at hset
    · next hne =>
      obtain ⟨rfl, rfl⟩ := setNext_runs.mp hset
      exact ⟨by simpa using hreg, Or.inr ⟨he, l, r, hwalk, htail, Or.inr ⟨hne, rfl⟩⟩⟩
    · next heq =>
      obtain ⟨_, rfl, rfl⟩ := runs_pure.mp hset
      exact ⟨by simpa using hreg, Or.inr ⟨he, l, r, hwalk, htail, Or.inl ⟨not_not.mp heq, rfl⟩⟩⟩

theorem linkRnodeGmem_of_entry {fuel rn : Nat} {g : Int} (he : t.entry rn = -1) :
    Returns (linkRnodeGmem fuel rn g) t () (t.setEntry rn g) := by
  refine (returns_read _ t).bind ?_
  rw [if_pos he]
  exact returns_update _ t

theorem linkRnodeGmem_faults {fuel rn : Nat} {g : Int} {e : Fault} (he : t.entry rn ≠ -1)
    (hf : Faults (lastRec fuel (t.entry rn)) t e) : Faults (linkRnodeGmem fuel rn g) t e := by
  refine (returns_read _ t).faults_bind ?_
  rw [if_neg he]
  exact faults_bind.mpr (Or.inl hf)

theorem linkRnodeGmem_of_walk {fuel rn : Nat} {g r : Int} {l : List Int} (he : t.entry rn ≠ -1)
    (hwalk : Walk t.next t.NotTail (t.entry rn) l r) (htail : t.Tail r) (hfuel : l.length < fuel) :
    Returns (linkRnodeGmem fuel rn g) t () (if r = g then t else t.modifyGmem r (·.setNext g)) := by
  refine (returns_read _ t).bind ?_
  rw [if_neg he]
  refine (lastRec_of_walk hwalk htail hfuel).bind ?_
  by_cases hrg : r = g
  · rw [if_neg (not_not.mpr hrg), if_pos hrg]
    exact returns_pure () t
  · rw [if_pos hrg, if_neg hrg]
    exact setNext_returns r g

end RNM

end Vcuda
