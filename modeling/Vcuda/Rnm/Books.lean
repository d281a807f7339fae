import Vcuda.Rnm.Contracts
import Vcuda.Rnm.Total
import Mathlib.Algebra.Order.Group.Multiset

/-!
# The books

The recorded allocations of all processes, as a multiset of owners and sizes. The order of the
records and where they lie do not matter, so two states with the same books charge everybody alike
(`SameBooks`).

`add_gmem` adds an entry, or changes the size of one; it leaves the books as they are only when the
process's last record holds the handle and the size already (`addGmem_sameBooks_iff`).
-/

namespace Vcuda.RNM

open Traced Tables

variable {d : Dims} {t t' t₁ : Tables} {key : PidSt} {mem : HostMem} {h : Handle} {p : Ptr}
  {n : UInt64} {s s' : Nat} {x : Int} {c c' : Nat → List Int} {l : List Int}

/-- What the records of the list charge to `key`. -/
def charges (t : Tables) (key : PidSt) (l : List Int) : Multiset (PidSt × UInt64) :=
  (l.map fun g => (key, (t.gmem g).bytes) : List (PidSt × UInt64))

/-- The owners and sizes of the recorded allocations. -/
def books (d : Dims) (t : Tables) (c : Nat → List Int) : Multiset (PidSt × UInt64) :=
  ∑ s ∈ Finset.range d.lenRnode, charges t (t.keyOf s) (listOf d t c s)

/-- Both states have lists, with the same recorded allocations. -/
def SameBooks (d : Dims) (t t' : Tables) : Prop :=
  ∃ c c', Chained d t c ∧ Chained d t' c' ∧ books d t c = books d t' c'

theorem charges_append {l₁ l₂ : List Int} :
    charges t key (l₁ ++ l₂) = charges t key l₁ + charges t key l₂ := by
  unfold charges
  rw [List.map_append, ← Multiset.coe_add]

theorem charges_singleton : charges t key [x] = {(key, (t.gmem x).bytes)} := by
  simp [charges]

theorem charges_congr (h : ∀ g ∈ l, (t'.gmem g).bytes = (t.gmem g).bytes) :
    charges t' key l = charges t key l := by
  unfold charges
  congr 1
  apply List.map_congr_left
  intro g hg
  rw [h g hg]

/-- A state has one set of lists. -/
theorem Chained.listOf_unique (hs : t.Sentinel) (hc : Chained d t c) (hc' : Chained d t c') :
    listOf d t c s = listOf d t c' s := by
  by_cases hex : Exists d t s
  · rw [listOf_of_exists hex, listOf_of_exists hex]
    exact ((hc.chain s hex).unique hs.not_live (hc'.chain s hex) hs.not_live).1
  · rw [listOf, listOf, if_neg hex, if_neg hex]

theorem Chained.books_unique (hs : t.Sentinel) (hc : Chained d t c) (hc' : Chained d t c') :
    books d t c = books d t c' := by
  unfold books
  apply Finset.sum_congr rfl
  intro s _
  rw [hc.listOf_unique hs hc']

/-- **One list at a time**: what the books gain and lose. -/
theorem Chained.books_replace (hc : Chained d t c) (hex : Exists d t' s)
    (hrnode : ∀ s', s' ≠ s → t'.rnode s' = t.rnode s')
    (hnew : ∀ g ∈ l, g ∈ listOf d t c s ∨ ¬ t.Live g)
    (hframe : ∀ g, g ∉ listOf d t c s → g ∉ l → t'.gmem g = t.gmem g) :
    books d t' (Function.update c s l) + charges t (t.keyOf s) (listOf d t c s) =
      books d t c + charges t' (t'.keyOf s) l := by
  have hself : listOf d t' (Function.update c s l) s = l := by
    rw [listOf_of_exists hex, Function.update_self]
  have hother : ∀ s' ∈ Finset.range d.lenRnode, s' ≠ s →
      charges t' (t'.keyOf s') (listOf d t' (Function.update c s l) s') =
        charges t (t.keyOf s') (listOf d t c s') := by
    intro s' _ hne
    have hexists : Exists d t' s' ↔ Exists d t s' := exists_of_rnode (hrnode s' hne)
    have hlist : listOf d t' (Function.update c s l) s' = listOf d t c s' := by
      unfold listOf
      simp only [hexists, Function.update_of_ne hne]
    rw [keyOf_of_rnode (hrnode s' hne), hlist]
    -- the records of another list are as they were
    apply charges_congr
    intro g hg
    obtain ⟨hs', hg⟩ := mem_listOf.mp hg
    obtain ⟨hold, hl⟩ := hc.not_mem_of_other hnew hs' hne hg
    rw [hframe g hold hl]
  have hsum := sum_exchange (Finset.mem_range.mpr hex.1) hother
  rw [hself] at hsum
  exact hsum

/-! ## What `add_gmem` does to the books -/

/-- Getting a slot is not an entry. -/
theorem Chained.books_acquire (hc : Chained d t c) (hacq : Acquires d t key s t₁) :
    books d t₁ (Function.update c s (listOf d t c s)) = books d t c := by
  have hsum := hc.books_replace hacq.exists_self (fun s' hne => hacq.rnode_of_ne hne)
    (fun g hg => Or.inl hg) (fun g _ _ => by rw [hacq.gmem])
  have hself : charges t₁ (t₁.keyOf s) (listOf d t c s) =
      charges t (t.keyOf s) (listOf d t c s) := by
    rw [charges_congr fun g _ => by rw [hacq.gmem]]
    rcases hacq with ⟨_, rfl⟩ | ⟨hfind, hpos, rfl⟩
    · rfl
    · rw [listOf, if_neg (not_exists_of_insertPos hfind hpos)]
      rfl
  rw [hself] at hsum
  exact add_right_cancel hsum

/-- A new record is a new entry. -/
theorem Chained.books_push {j : Nat} (hs : t.Sentinel) (hc : Chained d t c) (hex : Exists d t s)
    (hp : p ≠ 0) (hj : firstEmpty d t = some j) (hl : Links (putNew t j p n) s j t') :
    books d t' (Function.update c s (c s ++ [(j : Int)])) = books d t c + {(t.keyOf s, n)} := by
  have hslots : slots d t' = slots d t := hl.slots
  obtain ⟨_, hrecord, hnew, hframe⟩ := hc.pushed hs hex hp hj hl
  have hsum := hc.books_replace ((exists_congr hslots).mpr hex) (fun _ => hl.rnode_of_ne) hnew
    hframe
  have hkey : t'.keyOf s = t.keyOf s := keyOf_of_slots hslots hex
  have hold : charges t' (t.keyOf s) (c s) = charges t (t.keyOf s) (c s) := by
    apply charges_congr
    intro g hg
    have hgj : g ≠ j := fun he => (firstEmpty_eq_some.mp hj).2.1 (he ▸ hc.live hex hg)
    rw [(hl.ptr_bytes g).2, putNew, modifyGmem_gmem_ne hgj]
  rw [listOf_of_exists hex, hkey, charges_append, hold, charges_singleton, hrecord,
    GMem.new_bytes] at hsum
  apply add_left_cancel (a := charges t (t.keyOf s) (c s))
  rw [add_comm, hsum, add_left_comm]

/-- A record that is rewritten changes its entry. -/
theorem Chained.rewrite (hc : Chained d t c) (hex : Exists d t s) (hp : p ≠ 0)
    (hl : c s = l ++ [x]) (hnodup : (c s).Nodup) :
    Chained d (t.modifyGmem x (·.setRes p n)) c ∧
      books d (t.modifyGmem x (·.setRes p n)) c + {(t.keyOf s, (t.gmem x).bytes)} =
        books d t c + {(t.keyOf s, n)} := by
  have hupdate : Function.update c s (c s) = c := Function.update_eq_self s c
  have hchain : (t.modifyGmem x (·.setRes p n)).Chain (t.entry s) (c s) (-1) :=
    Chain.setRes (hc.chain s hex) hp
  have hnew : ∀ g ∈ c s, g ∈ listOf d t c s ∨ ¬ t.Live g := by
    rw [listOf_of_exists hex]
    exact fun g hg => Or.inl hg
  have hframe : ∀ g, g ∉ listOf d t c s → g ∉ c s →
      (t.modifyGmem x (·.setRes p n)).gmem g = t.gmem g := by
    intro g _ hg
    have hgx : g ≠ x := fun he => hg (by simp [hl, he])
    exact modifyGmem_gmem_ne hgx
  have hc' : Chained d (t.modifyGmem x (·.setRes p n)) (Function.update c s (c s)) :=
    hc.replace (fun _ _ => Iff.rfl) (fun _ _ => rfl) hchain hnew hframe
  have hsum : books d (t.modifyGmem x (·.setRes p n)) (Function.update c s (c s)) + _ = _ :=
    hc.books_replace hex (fun _ _ => rfl) hnew hframe
  rw [hupdate] at hc' hsum
  refine ⟨hc', ?_⟩
  have hxl : x ∉ l := by
    rw [hl] at hnodup
    exact fun hmem => List.disjoint_of_nodup_append hnodup hmem (by simp)
  have hold : charges (t.modifyGmem x (·.setRes p n)) (t.keyOf s) l = charges t (t.keyOf s) l := by
    apply charges_congr
    intro g hg
    have hgx : g ≠ x := fun he => hxl (he ▸ hg)
    rw [modifyGmem_gmem_ne hgx]
  rw [modifyGmem_keyOf, listOf_of_exists hex, hl, charges_append, charges_append, hold,
    charges_singleton, charges_singleton, modifyGmem_gmem_self, GMem.setRes_bytes] at hsum
  apply add_left_cancel (a := charges t (t.keyOf s) l)
  rw [add_left_comm, hsum, add_left_comm]

/-- The last record of the process holds the handle, no other does, and its size is `n`. -/
def LastHolds (d : Dims) (t : Tables) (c : Nat → List Int) (key : PidSt) (mem : HostMem)
    (h : Handle) (n : UInt64) : Prop :=
  ∃ s l x, findRnode d t key = some s ∧ c s = l ++ [x] ∧ (∀ g ∈ l, ¬ t.Hit mem h g) ∧
    t.Hit mem h x ∧ (t.gmem x).bytes = n

theorem sameBooks_iff_books_eq (hs : t.Sentinel) (hs' : t'.Sentinel) (hc : Chained d t c)
    (hc' : Chained d t' c') : SameBooks d t t' ↔ books d t c = books d t' c' := by
  constructor
  · intro ⟨c₁, c₂, hc₁, hc₂, heq⟩
    rw [hc.books_unique hs hc₁, hc'.books_unique hs' hc₂]
    exact heq
  · intro heq
    exact ⟨c, c', hc, hc', heq⟩

/-- In terms of the search for the handle. -/
theorem lastHolds_iff (hc : Chained d t c) (hfind : findRnode d t key = some s)
    (hwalk : Walk t.next (t.Miss mem h) (t.entry s) l x) (hx : ¬ t.Miss mem h x) :
    LastHolds d t c key mem h n ↔ c s = l ++ [x] ∧ t.Hit mem h x ∧ (t.gmem x).bytes = n := by
  constructor
  · intro ⟨s', l', x', hfind', hl', hnot, hhit, hbytes⟩
    rw [hfind] at hfind'
    obtain rfl := Option.some.inj hfind'
    have hchain := hc.chain s (findRnode_eq_some hfind).1
    rw [hl'] at hchain
    obtain ⟨hpass, _, _⟩ := Walk.of_snoc hchain
    have hsearch : Walk t.next (t.Miss mem h) (t.entry s) l' x' :=
      hpass.congr fun g hg => ⟨rfl, hpass.live_of_mem g hg, fun heq =>
        hnot g hg ⟨hpass.live_of_mem g hg, heq⟩⟩
    obtain ⟨rfl, rfl⟩ := hwalk.unique hx hsearch hhit.not_miss
    exact ⟨hl', hhit, hbytes⟩
  · intro ⟨hl, hhit, hbytes⟩
    exact ⟨s, l, x, hfind, hl, fun g hg hg' => hg'.not_miss (hwalk.live_of_mem g hg), hhit, hbytes⟩

/-- With a record to spare, a new handle is one entry more. -/
theorem not_sameBooks_of_push {j : Nat} (hs : t.Sentinel) (hs' : t'.Sentinel)
    (hc : Chained d t c) (hacq : Acquires d t key s t₁) (hp : p ≠ 0)
    (hj : firstEmpty d t₁ = some j) (hl : Links (putNew t₁ j p n) s j t') :
    ¬ SameBooks d t t' := by
  have hs₁ : t₁.Sentinel := hs.congr (by rw [hacq.gmem])
  have hc' := (hc.acquire hacq).push hs₁ hacq.exists_self hp hj hl
  have hbooks := (hc.acquire hacq).books_push hs₁ hacq.exists_self hp hj hl
  rw [sameBooks_iff_books_eq hs hs' hc hc', hbooks, hc.books_acquire hacq]
  simp

/-- A search that runs off the list found no last record that holds the handle. -/
theorem not_lastHolds_of_acquires (hc : Chained d t c) (hacq : Acquires d t key s t₁)
    (hwalk : Walk t₁.next (t₁.Miss mem h) (t₁.entry s) l x) (hx : ¬ t₁.Live x) :
    ¬ LastHolds d t c key mem h n := by
  rcases hacq with ⟨hfind, rfl⟩ | ⟨hnone, _⟩
  · rw [lastHolds_iff hc hfind hwalk (not_miss_of_not_live hx)]
    exact fun ⟨_, hhit, _⟩ => hx hhit.1
  · intro ⟨s', _, _, hfind, _⟩
    rw [hnone] at hfind
    cases hfind

/-- Only a process that had its slot has a record to find. -/
theorem Chained.found_of_hit (hs : t.Sentinel) (hc : Chained d t c) (hacq : Acquires d t key s t₁)
    (hwalk : Walk t₁.next (t₁.Miss mem h) (t₁.entry s) l x) (hhit : t₁.Hit mem h x) :
    findRnode d t key = some s ∧ t₁ = t := by
  rcases id hacq with hfound | ⟨hfind, hpos, _⟩
  · exact hfound
  · have hs₁ : t₁.Sentinel := hs.congr (by rw [hacq.gmem])
    obtain ⟨l₂, hl, _⟩ := (hc.acquire hacq).split_at_hit hs₁ hacq.exists_self hwalk hhit
    rw [Function.update_self, listOf, if_neg (not_exists_of_insertPos hfind hpos)] at hl
    simp at hl

/-- A record that is found is rewritten if it is the last, and otherwise the list is lost. -/
theorem sameBooks_iff_of_hit {reg : List Int} (hs : t.Sentinel) (hs' : t'.Sentinel)
    (hc : Chained d t c) (hp : p ≠ 0) (hfind : findRnode d t key = some s)
    (hreg : Registers d t mem s p n t' reg)
    (hwalk : Walk t.next (t.Miss mem (mem p)) (t.entry s) l x) (hhit : t.Hit mem (mem p) x)
    (hl : Links (t.modifyGmem x (·.setRes p n)) s x t') :
    SameBooks d t t' ↔ LastHolds d t c key mem (mem p) n := by
  have hex := (findRnode_eq_some hfind).1
  have hchain := hc.chain s hex
  rw [lastHolds_iff hc hfind hwalk hhit.not_miss]
  obtain ⟨l₂, hlist, hrest⟩ := hc.split_at_hit hs hex hwalk hhit
  cases l₂ with
  | nil =>
      -- the last record: the lists stay, and only its size can change
      have hnodup := hchain.nodup hs.not_live
      rw [hlist] at hchain
      obtain rfl := links_last hs hchain hp hl
      obtain ⟨hc', hbooks⟩ := hc.rewrite (n := n) hex hp hlist hnodup
      rw [sameBooks_iff_books_eq hs hs' hc hc']
      constructor
      · intro heq
        rw [heq] at hbooks
        have hentry := Multiset.singleton_inj.mp (add_left_cancel hbooks)
        exact ⟨hlist, hhit, congrArg Prod.snd hentry⟩
      · intro ⟨_, _, hbytes⟩
        rw [hbytes] at hbooks
        exact (add_right_cancel hbooks).symm
  | cons y l₂ =>
      -- any other: the list is closed to a cycle, so afterwards there are no books
      refine iff_of_false ?_ ?_
      · intro ⟨_, c', _, hc', _⟩
        have hne : t.next x ≠ -1 := by
          intro hnil
          rw [hnil] at hrest
          cases eq_nil_of_chain hs hrest
        have hchain' := hc'.chain s (hreg.exists_iff.mpr hex)
        exact hs'.not_live (not_chain_of_registers hs hp hchain hreg hwalk hhit hne _ _ hchain')
      · intro ⟨hlast, _⟩
        rw [hlist] at hlast
        simp at hlast

/-- **When `add_gmem` leaves the books as they are.** -/
theorem addGmem_sameBooks_iff (hs : t.Sentinel) (hc : Chained d t c)
    (hfree : firstEmpty d t ≠ none) (hstep : Step d t (.addGmem key mem p n) t') :
    SameBooks d t t' ↔ LastHolds d t c key mem (mem p) n := by
  have hs' : t'.Sentinel := hstep.sentinel hs
  obtain ⟨hp, s, t₁, reg, hacq, hreg⟩ := step_addGmem hs hstep
  obtain ⟨l, x, hwalk, ⟨hx, j, hj, hl, _⟩ | ⟨_, hfull, _⟩ | ⟨hhit, hl, _⟩⟩ := id hreg
  · exact iff_of_false (not_sameBooks_of_push hs hs' hc hacq hp hj hl)
      (not_lastHolds_of_acquires hc hacq hwalk hx)
  · rw [hacq.firstEmpty_eq] at hfull
    exact absurd hfull hfree
  · obtain ⟨hfind, rfl⟩ := hc.found_of_hit hs hacq hwalk hhit
    exact sameBooks_iff_of_hit hs hs' hc hp hfind hreg hwalk hhit hl

end Vcuda.RNM
