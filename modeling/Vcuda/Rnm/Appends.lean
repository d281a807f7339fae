import Vcuda.Common.Claiming
import Vcuda.Rnm.Chains
import Mathlib.Data.Fintype.Basic

/-!
# Threads that link at once

The threads of a process share its slot and its list. Here several of them are in `link_rnode_gmem`
at the same time, each with a record that it has pushed, and each load of a link and each store to
one is a step of its own; the steps are interleaved in any order. (`is_tail` also loads `ptr`, which
nobody stores to here.) A link that a thread has found to be the last one is loaded again by others,
until the thread stores to it.

The calls then do what they would do one after the other exactly when no thread finds the end of the
list where another one has found it and not yet stored, and otherwise a record is lost
(`linked_iff_noRace`).
-/

namespace Vcuda

/-! ## Links -/

namespace Tables

/-- What is in a link: `res_entry_idx` of the slot `s`, or `next` of a record. -/
def linkOf (t : Tables) (s : Nat) : Option Int → Int
  | none => t.entry s
  | some i => t.next i

/-- `rn->get_entry() == -1`, or `ptr_gmem[i].is_tail()`. -/
def endsAt (t : Tables) (s : Nat) : Option Int → Bool
  | none => t.entry s = -1
  | some i => (t.gmem i).isTail

/-- `rn->set_rec_entry(g)`, or `ptr_gmem[i].set_next(g)`. -/
def setLink (t : Tables) (s : Nat) (g : Int) : Option Int → Tables
  | none => t.setEntry s g
  | some i => t.modifyGmem i (·.setNext g)

variable {t : Tables} {s : Nat} {g i : Int} {c c' : Option Int}

theorem linkOf_setLink_self : (t.setLink s g c).linkOf s c = g := by
  cases c with
  | none => exact setEntry_entry_self
  | some i => exact modifyGmem_next_self (·.setNext g)

theorem linkOf_setLink_ne (h : c' ≠ c) : (t.setLink s g c).linkOf s c' = t.linkOf s c' := by
  cases c with
  | none =>
      cases c' with
      | none => exact absurd rfl h
      | some j => rfl
  | some i =>
      cases c' with
      | none => rfl
      | some j =>
          have hne : j ≠ i := fun he => h (congrArg some he)
          exact modifyGmem_next_ne (f := (·.setNext g)) hne

theorem live_setLink : (t.setLink s g c).Live i ↔ t.Live i := by
  cases c with
  | none => exact Iff.rfl
  | some j =>
      by_cases hij : i = j
      · subst hij
        exact modifyGmem_live_self (·.setNext g)
      · exact modifyGmem_live_ne (f := (·.setNext g)) hij

theorem endsAt_some : t.endsAt s (some i) = true ↔ t.Tail i := GMem.isTail_iff

theorem endsAt_setLink_self (hg : g ≠ -1) : (t.setLink s g c).endsAt s c = false := by
  have hlink : (t.setLink s g c).linkOf s c = g := linkOf_setLink_self
  cases c with
  | none =>
      show decide ((t.setLink s g none).linkOf s none = -1) = false
      rw [hlink, decide_eq_false_iff_not]
      exact hg
  | some i =>
      rw [← Bool.not_eq_true, endsAt_some]
      rintro ⟨_, htail⟩
      exact hg (hlink.symm.trans htail)

theorem endsAt_setLink_ne (h : c' ≠ c) : (t.setLink s g c).endsAt s c' = t.endsAt s c' := by
  cases c with
  | none =>
      cases c' with
      | none => exact absurd rfl h
      | some j => rfl
  | some i =>
      cases c' with
      | none => rfl
      | some j =>
          have hne : j ≠ i := fun he => h (congrArg some he)
          show ((t.modifyGmem i (·.setNext g)).gmem j).isTail = (t.gmem j).isTail
          rw [modifyGmem_gmem_ne hne]

/-- A link that does not end the list leads on. -/
theorem linkOf_ne_of_not_endsAt (hlive : ∀ i, c = some i → t.Live i) (h : t.endsAt s c = false) :
    t.linkOf s c ≠ -1 := by
  cases c with
  | none => exact of_decide_eq_false h
  | some i =>
      intro hnext
      have htail : t.endsAt s (some i) = true := endsAt_some.mpr ⟨hlive i rfl, hnext⟩
      rw [h] at htail
      cases htail

/-- The end of another list, or of a record that is on none. -/
theorem tail_setLink (hc : c ≠ some i) (h : t.Tail i) : (t.setLink s g c).Tail i := by
  apply (endsAt_some (s := s)).mp
  rw [endsAt_setLink_ne (Ne.symm hc)]
  exact endsAt_some.mpr h

theorem Sentinel.setLink (hs : t.Sentinel) (hc : ∀ i, c = some i → i ≠ -1) :
    (t.setLink s g c).Sentinel := by
  cases c with
  | none => exact hs.congr rfl
  | some i => exact hs.modifyGmem (f := (·.setNext g)) (hc i rfl)

end Tables

namespace RNM

open Traced Tables Claiming

/-! ## The accesses of `link_rnode_gmem` -/

/-- What a thread does next, at which link. -/
inductive LinkPc where
  /-- `rn->get_entry() == -1`, or `ptr_gmem[idx].is_tail()` in `last_rec`. -/
  | test (c : Option Int)
  /-- The index is loaded once more, to go on there. -/
  | load (c : Option Int)
  /-- `set_rec_entry` or `set_next` -/
  | store (c : Option Int)
  | returned (c : Option Int)
  deriving DecidableEq

def LinkPc.link : LinkPc → Option Int
  | .test c => c
  | .load c => c
  | .store c => c
  | .returned c => c

/-- The tables, and where the threads are. -/
structure Linkers (π : Type) where
  tables : Tables
  pc : π → LinkPc

variable {π : Type} [DecidableEq π]

namespace Linkers

def goTo (w : Linkers π) (p : π) (pc : LinkPc) : Linkers π :=
  { w with pc := Function.update w.pc p pc }

/-- The next step of the thread `p`, whose call is `link_rnode_gmem(ptr_rnode + s, g p)`. -/
def step (s : Nat) (g : π → Int) (w : Linkers π) (p : π) : Linkers π :=
  match w.pc p with
  | .test c =>
      if w.tables.endsAt s c then
        -- `tail_idx != gmem_idx`
        w.goTo p (if c = some (g p) then .returned c else .store c)
      else w.goTo p (.load c)
  | .load c => w.goTo p (.test (some (w.tables.linkOf s c)))
  | .store c => { w with tables := w.tables.setLink s (g p) c }.goTo p (.returned c)
  | .returned _ => w

/-- Every thread is at the beginning of its call. -/
def start (t : Tables) : Linkers π := ⟨t, fun _ => .test none⟩

/-- The calls have returned. -/
def Done (w : Linkers π) : Prop := ∀ p, ∃ c, w.pc p = .returned c

/-- `p` is about to find the end of the list where `q` has found it and not yet stored. -/
def Races (s : Nat) (w : Linkers π) (p : π) : Prop :=
  ∃ c q, w.pc p = .test c ∧ w.tables.endsAt s c = true ∧ w.pc q = .store c

/-- The calls have left in the tables what they would have if they had been made one after the
other. -/
def Serializable (s : Nat) (g : π → Int) (t : Tables) (w : Linkers π) : Prop :=
  ∃ order : List (π × Option Int),
    (order.map Prod.fst).Nodup ∧ (∀ p c, (p, c) ∈ order ↔ w.pc p = .returned c) ∧
    Serially (fun t p _ t' => ∃ fuel, Returns (linkRnodeGmem fuel s (g p)) t () t') t order w.tables

/-- The records of all threads are on the list of the process. -/
def AllLinked (s : Nat) (g : π → Int) (w : Linkers π) : Prop :=
  ∃ L, w.tables.Chain (w.tables.entry s) L (-1) ∧ ∀ p, g p ∈ L

end Linkers

/-- An interleaving of steps. -/
def LinkRun (s : Nat) (g : π → Int) (w : Linkers π) (r : List (π × Linkers π)) : Prop :=
  Along (fun w p w' => w' = w.step s g p) w r

/-- The process in slot `s` has the list `l`, and the threads have pushed the records `g`. -/
structure Pushed (t : Tables) (s : Nat) (l : List Int) (g : π → Int) : Prop where
  sentinel : t.Sentinel
  chain : t.Chain (t.entry s) l (-1)
  tail : ∀ p, t.Tail (g p)
  new : ∀ p, g p ∉ l
  inj : Function.Injective g

omit [DecidableEq π] in
theorem Pushed.ne_sentinel {t : Tables} {s : Nat} {l : List Int} {g : π → Int}
    (h : Pushed t s l g) (p : π) : g p ≠ -1 :=
  ne_sentinel_of_live h.sentinel (h.tail p).1

/-! ## The links as cells -/

/-- Where a thread is on its way along the list. -/
def LinkPc.place : LinkPc → Place (Option Int)
  | .test c => .scanning [c]
  | .load _ => .scanning []
  | .store c => .window c
  | .returned c => .claimed c

namespace Linkers

/-- The threads as parties that claim the ends of lists. -/
def view (s : Nat) (w : Linkers π) : Claiming.State (Option Int) π :=
  ⟨w.tables.endsAt s, fun p => (w.pc p).place⟩

variable {t t' : Tables} {s fuel : Nat} {g : π → Int} {w : Linkers π} {p q : π} {c : Option Int}
  {l L : List Int} {i : Int} {r : List (π × Linkers π)} {pc : LinkPc}

@[simp] theorem pc_goTo_self : (w.goTo p pc).pc p = pc := Function.update_self ..

theorem pc_goTo_ne (h : q ≠ p) : (w.goTo p pc).pc q = w.pc q := Function.update_of_ne h ..

@[simp] theorem tables_goTo : (w.goTo p pc).tables = w.tables := rfl

theorem view_goTo : (w.goTo p pc).view s = (w.view s).goTo p pc.place :=
  congrArg (Claiming.State.mk _) (Function.comp_update LinkPc.place w.pc p pc)

omit [DecidableEq π] in
theorem view_setLink (hg : i ≠ -1) :
    ({ w with tables := w.tables.setLink s i c } : Linkers π).view s = (w.view s).take c := by
  refine congrArg (Claiming.State.mk · _) ?_
  funext c'
  by_cases hc : c' = c
  · subst hc
    rw [Function.update_self, endsAt_setLink_self hg]
  · rw [Function.update_of_ne hc, endsAt_setLink_ne hc]
    rfl

theorem place_eq_window : pc.place = .window c ↔ pc = .store c := by
  cases pc <;> simp [LinkPc.place]

theorem place_eq_claimed : pc.place = .claimed c ↔ pc = .returned c := by
  cases pc <;> simp [LinkPc.place]

/-! ## What the threads find -/

/-- The record `i` is on the list, or has been linked. -/
def Known (l : List Int) (g : π → Int) (w : Linkers π) (i : Int) : Prop :=
  i ∈ l ∨ ∃ q c, w.pc q = .returned c ∧ g q = i

/-- What holds in every interleaving: the threads are at records that were on the list or have been
linked, and a link leads to such a record or nowhere. -/
structure Found (t : Tables) (s : Nat) (l : List Int) (g : π → Int) (w : Linkers π) : Prop where
  live : ∀ i, w.tables.Live i ↔ t.Live i
  visits : ∀ p i, (w.pc p).link = some i → Known l g w i
  links : ∀ c, (∀ i, c = some i → i ∈ l ∨ ∃ p, g p = i) → w.tables.linkOf s c = -1 ∨
    w.tables.linkOf s c ∈ l ∨ ∃ q, w.pc q = .returned c ∧ g q = w.tables.linkOf s c
  loads : ∀ p c, w.pc p = .load c → w.tables.linkOf s c ≠ -1

omit [DecidableEq π] in
theorem found_start (hp : Pushed t s l g) : Found t s l g (.start t) := by
  refine ⟨fun i => Iff.rfl, nofun, ?_, nofun⟩
  intro c hc
  cases c with
  | none =>
      have hchain := hp.chain
      cases l with
      | nil => exact Or.inl hchain
      | cons a l =>
          have hentry : t.entry s = a := hchain.1
          exact Or.inr (Or.inl (List.mem_cons.mpr (Or.inl hentry)))
  | some i =>
      rcases hc i rfl with hmem | ⟨p, rfl⟩
      · rcases hp.chain.next_mem hmem with hnext | hnext
        · exact Or.inr (Or.inl hnext)
        · exact Or.inl hnext
      · exact Or.inl (hp.tail p).2

omit [DecidableEq π] in
theorem Known.cell (h : Known l g w i) : i ∈ l ∨ ∃ p, g p = i := by
  rcases h with h | ⟨q, _, _, hq⟩
  · exact Or.inl h
  · exact Or.inr ⟨q, hq⟩

omit [DecidableEq π] in
theorem Found.cell (h : Found t s l g w) (hc : (w.pc p).link = c) :
    ∀ i, c = some i → i ∈ l ∨ ∃ p, g p = i := fun i hi => (h.visits p i (hc.trans hi)).cell

omit [DecidableEq π] in
/-- A thread does not come to its own record. -/
theorem Found.ne_own (hp : Pushed t s l g) (h : Found t s l g w) (hpc : w.pc p = .test c) :
    c ≠ some (g p) := by
  intro hc
  have hlink : (w.pc p).link = some (g p) := by
    rw [hpc]
    exact hc
  rcases h.visits p _ hlink with hmem | ⟨q, c', hq, hgq⟩
  · exact hp.new p hmem
  · obtain rfl := hp.inj hgq
    rw [hpc] at hq
    cases hq

/-- A step that stores nothing. -/
theorem Found.goTo (h : Found t s l g w) (hret : ∀ c, w.pc p ≠ .returned c)
    (hnew : ∀ c, pc ≠ .returned c) (hlink : ∀ i, pc.link = some i → Known l g w i)
    (hload : ∀ c, pc = .load c → w.tables.linkOf s c ≠ -1) : Found t s l g (w.goTo p pc) := by
  have hsame : ∀ q c, (w.goTo p pc).pc q = .returned c ↔ w.pc q = .returned c := by
    intro q c
    by_cases hqp : q = p
    · subst hqp
      rw [pc_goTo_self]
      exact iff_of_false (hnew c) (hret c)
    · rw [pc_goTo_ne hqp]
  have hknown : ∀ i, Known l g w i → Known l g (w.goTo p pc) i := by
    rintro i (hmem | ⟨q, c, hq, hgq⟩)
    · exact Or.inl hmem
    · exact Or.inr ⟨q, c, (hsame q c).mpr hq, hgq⟩
  refine ⟨h.live, ?_, ?_, ?_⟩
  · intro q i hq
    apply hknown
    by_cases hqp : q = p
    · rw [hqp, pc_goTo_self] at hq
      exact hlink i hq
    · rw [pc_goTo_ne hqp] at hq
      exact h.visits q i hq
  · intro c hc
    simp only [hsame]
    exact h.links c hc
  · intro q c hq
    by_cases hqp : q = p
    · rw [hqp, pc_goTo_self] at hq
      exact hload c hq
    · rw [pc_goTo_ne hqp] at hq
      exact h.loads q c hq

theorem Found.store (hp : Pushed t s l g) (h : Found t s l g w) (hpc : w.pc p = .store c) :
    Found t s l g ({ w with tables := w.tables.setLink s (g p) c }.goTo p (.returned c)) := by
  have hret : ∀ q c', w.pc q = .returned c' →
      ({ w with tables := w.tables.setLink s (g p) c }.goTo p (.returned c)).pc q =
        .returned c' := by
    intro q c' hq
    have hqp : q ≠ p := by
      rintro rfl
      rw [hpc] at hq
      cases hq
    exact (pc_goTo_ne hqp).trans hq
  have hknown : ∀ i, Known l g w i →
      Known l g ({ w with tables := w.tables.setLink s (g p) c }.goTo p (.returned c)) i := by
    rintro i (hmem | ⟨q, c', hq, hgq⟩)
    · exact Or.inl hmem
    · exact Or.inr ⟨q, c', hret q c' hq, hgq⟩
  refine ⟨fun i => live_setLink.trans (h.live i), ?_, ?_, ?_⟩
  · intro q i hq
    apply hknown
    by_cases hqp : q = p
    · rw [hqp, pc_goTo_self] at hq
      exact h.visits p i (by rw [hpc]; exact hq)
    · rw [pc_goTo_ne hqp] at hq
      exact h.visits q i hq
  · intro c' hc'
    show (w.tables.setLink s (g p) c).linkOf s c' = -1 ∨
      (w.tables.setLink s (g p) c).linkOf s c' ∈ l ∨ _
    by_cases hcc : c' = c
    · subst hcc
      exact Or.inr (Or.inr ⟨p, pc_goTo_self, linkOf_setLink_self.symm⟩)
    · rw [tables_goTo, linkOf_setLink_ne hcc]
      rcases h.links c' hc' with hend | hmem | ⟨q, hq, hgq⟩
      · exact Or.inl hend
      · exact Or.inr (Or.inl hmem)
      · exact Or.inr (Or.inr ⟨q, hret q c' hq, hgq⟩)
  · intro q c' hq
    have hqp : q ≠ p := by
      rintro rfl
      rw [pc_goTo_self] at hq
      cases hq
    rw [pc_goTo_ne hqp] at hq
    show (w.tables.setLink s (g p) c).linkOf s c' ≠ -1
    by_cases hcc : c' = c
    · rw [hcc, linkOf_setLink_self]
      exact hp.ne_sentinel p
    · rw [linkOf_setLink_ne hcc]
      exact h.loads q c' hq

theorem Found.step (hp : Pushed t s l g) (h : Found t s l g w) (p : π) :
    Found t s l g (w.step s g p) := by
  unfold Linkers.step
  cases hpc : w.pc p with
  | test c =>
      have hlink : ∀ i, c = some i → Known l g w i := fun i hi =>
        h.visits p i (by rw [hpc]; exact hi)
      dsimp only
      split
      · rw [if_neg (h.ne_own hp hpc)]
        exact h.goTo (by rw [hpc]; nofun) nofun hlink nofun
      · next hends =>
        refine h.goTo (by rw [hpc]; nofun) nofun hlink ?_
        intro c' hc'
        obtain rfl := LinkPc.load.inj hc'
        apply linkOf_ne_of_not_endsAt _ (Bool.not_eq_true _ ▸ hends)
        intro i hi
        rw [h.live]
        rcases h.cell (p := p) (c := c) (by rw [hpc]; rfl) i hi with hmem | ⟨q, rfl⟩
        · exact hp.chain.live_of_mem i hmem
        · exact (hp.tail q).1
  | load c =>
      refine h.goTo (by rw [hpc]; nofun) nofun ?_ nofun
      intro i hi
      have hi : w.tables.linkOf s c = i := Option.some.inj hi
      rw [← hi]
      have hcell := h.cell (p := p) (c := c) (by rw [hpc]; rfl)
      rcases h.links c hcell with hend | hmem | ⟨q, hq, hgq⟩
      · exact absurd hend (h.loads p c hpc)
      · exact Or.inl hmem
      · exact Or.inr ⟨q, c, hq, hgq⟩
  | store c => exact h.store hp hpc
  | returned c => exact h

/-- **The steps of `link_rnode_gmem` are those of a party** that finds its path on the way. -/
theorem Found.step_view (hp : Pushed t s l g) (h : Found t s l g w) (p : π) :
    Moves (w.view s) p ((w.step s g p).view s) := by
  have hplace : (w.view s).place p = (w.pc p).place := rfl
  unfold Linkers.step
  cases hpc : w.pc p with
  | test c =>
      rw [hpc] at hplace
      dsimp only
      split
      · next hends =>
        rw [if_neg (h.ne_own hp hpc), view_goTo]
        exact .step (.pass hplace hends)
      · next hends =>
        rw [view_goTo]
        exact .step (.skip hplace (Bool.not_eq_true _ ▸ hends))
  | load c =>
      rw [hpc] at hplace
      exact .follow hplace view_goTo
  | store c =>
      rw [hpc] at hplace
      dsimp only
      rw [view_goTo, view_setLink (hp.ne_sentinel p)]
      exact .step (.claim hplace)
  | returned c => exact .step .stay

/-- A race is a collision. -/
theorem races_iff (hp : Pushed t s l g) (h : Found t s l g w) :
    Races s w p ↔ Collides (w.view s) p ((w.step s g p).view s) := by
  rw [collides_iff (h.step_view hp p)]
  constructor
  · rintro ⟨c, q, hpc, hends, hq⟩
    have hstep : w.step s g p = w.goTo p (.store c) := by
      unfold Linkers.step
      simp only [hpc, hends, if_true, if_neg (h.ne_own hp hpc)]
    refine ⟨c, [], q, congrArg LinkPc.place hpc, hends, congrArg LinkPc.place hq, ?_⟩
    rw [hstep, view_goTo, place_goTo_self]
    rfl
  · rintro ⟨c, rest, q, hplace, hends, hq, _⟩
    refine ⟨c, q, ?_, hends, place_eq_window.mp hq⟩
    have hplace : (w.pc p).place = .scanning (c :: rest) := hplace
    cases hpc : w.pc p with
    | test c' =>
        rw [hpc, LinkPc.place, Place.scanning.injEq] at hplace
        rw [(List.cons.inj hplace).1]
    | load c' => simp [hpc, LinkPc.place] at hplace
    | store c' => simp [hpc, LinkPc.place] at hplace
    | returned c' => simp [hpc, LinkPc.place] at hplace

/-! ## One after the other -/

section

variable {g : Int}

/-- **At the end of the list**, the store of a thread is what a call does. -/
theorem setLink_of_chain (hs : t.Sentinel) (hc : t.Chain (t.entry s) L (-1))
    (hcell : ∀ i, c = some i → i ∈ L) (hends : t.endsAt s c = true) (hg : t.Tail g) (hnew : g ∉ L) :
    (t.setLink s g c).Chain ((t.setLink s g c).entry s) (L ++ [g]) (-1) ∧
      ∃ fuel, Returns (linkRnodeGmem fuel s g) t () (t.setLink s g c) := by
  cases c with
  | none =>
      have hentry : t.entry s = -1 := of_decide_eq_true hends
      rw [hentry] at hc
      obtain rfl := eq_nil_of_chain hs hc
      refine ⟨?_, 0, linkRnodeGmem_of_entry hentry⟩
      have hself : (t.setLink s g none).entry s = g := setEntry_entry_self
      rw [hself]
      exact ⟨rfl, hg⟩
  | some i =>
      have htail : t.Tail i := endsAt_some.mp hends
      obtain ⟨l₁, l₂, rfl, hto, hfrom⟩ := hc.split_at_mem (hcell i rfl)
      rw [htail.2] at hfrom
      obtain rfl := eq_nil_of_chain hs hfrom
      have hi : i ∉ l₁ := fun hmem =>
        List.disjoint_of_nodup_append (hc.nodup hs.not_live) hmem (by simp)
      have hne : g ≠ i := by
        rintro rfl
        simp at hnew
      have hentry : t.entry s ≠ -1 := by
        intro he
        rw [he] at hc
        exact absurd (eq_nil_of_chain hs hc) (by simp)
      obtain ⟨hwalk, _⟩ := walk_notTail_of_chain hs hc
      have hreturns := linkRnodeGmem_of_walk (g := g) hentry hwalk htail (Nat.lt_succ_self _)
      rw [if_neg (Ne.symm hne)] at hreturns
      exact ⟨chain_setNext_tail hto hi htail.1 hg hne, _, hreturns⟩

/-- And a call stores at the end of the list. -/
theorem exists_setLink (hs : t.Sentinel) (hc : t.Chain (t.entry s) L (-1)) (hnew : g ∉ L)
    (hret : Returns (linkRnodeGmem fuel s g) t () t') :
    ∃ c, (∀ i, c = some i → i ∈ L) ∧ t.endsAt s c = true ∧ t' = t.setLink s g c := by
  obtain ⟨tr, hr⟩ := hret
  rcases links_of_chain hs hc (linkRnodeGmem_runs hr).2 with
    ⟨rfl, rfl⟩ | ⟨l₀, a, rfl, ⟨rfl, _⟩ | ⟨_, rfl⟩⟩
  · exact ⟨none, nofun, decide_eq_true hc, rfl⟩
  · exact absurd (by simp) hnew
  · refine ⟨some a, ?_, endsAt_some.mpr (Walk.of_snoc hc).2, rfl⟩
    intro i hi
    obtain rfl := Option.some.inj hi
    simp

end

omit [DecidableEq π] in
/-- Calls that are made one after the other lose nothing. -/
theorem chain_of_serially {order : List (π × Option Int)} (hs : t.Sentinel)
    (hc : t.Chain (t.entry s) L (-1)) (hinj : Function.Injective g)
    (hnodup : (order.map Prod.fst).Nodup)
    (hnew : ∀ p ∈ order.map Prod.fst, t.Tail (g p) ∧ g p ∉ L)
    (hser : Serially (fun t p _ t' => ∃ fuel, Returns (linkRnodeGmem fuel s (g p)) t () t') t order
      t') :
    t'.Chain (t'.entry s) (L ++ order.map fun x => g x.1) (-1) := by
  induction order generalizing t L with
  | nil =>
      obtain rfl : t' = t := hser
      rw [List.map_nil, List.append_nil]
      exact hc
  | cons x order ih =>
      obtain ⟨t₁, ⟨fuel, hret⟩, hrest⟩ := hser
      rw [List.map_cons, List.nodup_cons] at hnodup
      rw [List.map_cons, List.forall_mem_cons] at hnew
      obtain ⟨⟨htail, hx⟩, hnew⟩ := hnew
      obtain ⟨c, hcell, hends, rfl⟩ := exists_setLink hs hc hx hret
      have hc₁ := (setLink_of_chain hs hc hcell hends htail hx).1
      have hs₁ : (t.setLink s (g x.1) c).Sentinel :=
        hs.setLink fun i hi => ne_sentinel_of_live hs (hc.live_of_mem i (hcell i hi))
      have hchain := ih hs₁ hc₁ hnodup.2 ?_ hrest
      · rw [List.append_assoc] at hchain
        exact hchain
      · intro p hp
        obtain ⟨htail', hp'⟩ := hnew p hp
        refine ⟨tail_setLink ?_ htail', ?_⟩
        · intro hi
          exact hp' (hcell _ hi)
        · rw [List.mem_append, List.mem_singleton, not_or]
          refine ⟨hp', fun he => hnodup.1 ?_⟩
          rw [← hinj he]
          exact hp

/-! ## What a call does in the end -/

/-- What the steps of a run without races keep: the list is the old one and the records that have
been linked. -/
structure Orderly (t : Tables) (s : Nat) (l : List Int) (g : π → Int) (w : Linkers π) : Prop where
  found : Found t s l g w
  exclusive : Exclusive (w.view s)
  sentinel : w.tables.Sentinel
  list : ∃ L, w.tables.Chain (w.tables.entry s) L (-1) ∧ ∀ i, i ∈ L ↔ Known l g w i
  waiting : ∀ p, (∀ c, w.pc p ≠ .returned c) → w.tables.Tail (g p)

omit [DecidableEq π] in
theorem orderly_start (hp : Pushed t s l g) : Orderly t s l g (.start t) := by
  refine ⟨found_start hp, ?_, hp.sentinel, ⟨l, hp.chain, fun i => ?_⟩, fun p _ => hp.tail p⟩
  · exact exclusive_of_scanning fun p => ⟨[none], rfl⟩
  · constructor
    · exact Or.inl
    · rintro (hmem | ⟨q, c, hq, _⟩)
      · exact hmem
      · cases hq

/-- A step that is no store. -/
theorem Found.step_quiet (hp : Pushed t s l g) (h : Found t s l g w)
    (hpc : ∀ c, w.pc p ≠ .store c) : (w.step s g p).tables = w.tables ∧
      ∀ q c, (w.step s g p).pc q = .returned c ↔ w.pc q = .returned c := by
  have hgoTo : ∀ pc : LinkPc, (∀ c, pc ≠ .returned c) → (∀ c, w.pc p ≠ .returned c) →
      ∀ q c, (w.goTo p pc).pc q = .returned c ↔ w.pc q = .returned c := by
    intro pc hnew hret q c
    by_cases hqp : q = p
    · subst hqp
      rw [pc_goTo_self]
      exact iff_of_false (hnew c) (hret c)
    · rw [pc_goTo_ne hqp]
  unfold Linkers.step
  cases hpc' : w.pc p with
  | test c =>
      have hret : ∀ c, w.pc p ≠ .returned c := by
        rw [hpc']
        nofun
      dsimp only
      split
      · rw [if_neg (h.ne_own hp hpc')]
        exact ⟨rfl, hgoTo _ nofun hret⟩
      · exact ⟨rfl, hgoTo _ nofun hret⟩
  | load c => exact ⟨rfl, hgoTo _ nofun (by rw [hpc']; nofun)⟩
  | store c => exact absurd hpc' (hpc c)
  | returned c => exact ⟨rfl, fun _ _ => Iff.rfl⟩

omit [DecidableEq π] in
/-- A thread that has found the end of the list is at the end of the list. -/
theorem Orderly.link (hp : Pushed t s l g) (h : Orderly t s l g w) (hpc : w.pc p = .store c) :
    ∃ L, (∀ i, i ∈ L ↔ Known l g w i) ∧ (∀ i, c = some i → i ∈ L) ∧
      (w.tables.setLink s (g p) c).Sentinel ∧
      (w.tables.setLink s (g p) c).Chain ((w.tables.setLink s (g p) c).entry s) (L ++ [g p]) (-1) ∧
      ∃ fuel, Returns (linkRnodeGmem fuel s (g p)) w.tables () (w.tables.setLink s (g p) c) := by
  obtain ⟨L, hchain, hmem⟩ := h.list
  have hends : w.tables.endsAt s c = true :=
    h.exclusive.window_free p c (congrArg LinkPc.place hpc)
  have hcell : ∀ i, c = some i → i ∈ L := fun i hi =>
    (hmem i).mpr (h.found.visits p i (by rw [hpc]; exact hi))
  have hret : ∀ c', w.pc p ≠ .returned c' := by
    rw [hpc]
    nofun
  have hnew : g p ∉ L := by
    intro hmem'
    rcases (hmem _).mp hmem' with hl | ⟨q, c', hq, hgq⟩
    · exact hp.new p hl
    · obtain rfl := hp.inj hgq
      exact hret c' hq
  obtain ⟨hchain', hreturns⟩ :=
    setLink_of_chain h.sentinel hchain hcell hends (h.waiting p hret) hnew
  refine ⟨L, hmem, hcell, h.sentinel.setLink ?_, hchain', hreturns⟩
  exact fun i hi => ne_sentinel_of_live h.sentinel (hchain.live_of_mem i (hcell i hi))

theorem Orderly.step (hp : Pushed t s l g) (h : Orderly t s l g w) (hno : ¬ Races s w p) :
    Orderly t s l g (w.step s g p) := by
  have hfound := h.found.step hp p
  have hexclusive := exclusive_move h.exclusive (h.found.step_view hp p)
    fun hc => hno ((races_iff hp h.found).mpr hc)
  by_cases hpc : ∃ c, w.pc p = .store c
  · obtain ⟨c, hpc⟩ := hpc
    obtain ⟨L, hmem, hcell, hsentinel, hchain, _⟩ := h.link hp hpc
    have hstep : w.step s g p =
        { w with tables := w.tables.setLink s (g p) c }.goTo p (.returned c) := by
      unfold Linkers.step
      rw [hpc]
    rw [hstep] at hfound hexclusive ⊢
    refine ⟨hfound, hexclusive, hsentinel, ⟨L ++ [g p], hchain, fun i => ?_⟩, ?_⟩
    · rw [List.mem_append, List.mem_singleton, hmem]
      constructor
      · rintro ((hl | ⟨q, c', hq, hgq⟩) | rfl)
        · exact Or.inl hl
        · have hqp : q ≠ p := by
            rintro rfl
            rw [hpc] at hq
            cases hq
          exact Or.inr ⟨q, c', (pc_goTo_ne hqp).trans hq, hgq⟩
        · exact Or.inr ⟨p, c, pc_goTo_self, rfl⟩
      · rintro (hl | ⟨q, c', hq, hgq⟩)
        · exact Or.inl (Or.inl hl)
        · by_cases hqp : q = p
          · subst hqp
            exact Or.inr hgq.symm
          · rw [pc_goTo_ne hqp] at hq
            exact Or.inl (Or.inr ⟨q, c', hq, hgq⟩)
    · intro q hq
      have hqp : q ≠ p := by
        rintro rfl
        exact hq c pc_goTo_self
      have hq' : ∀ c', w.pc q ≠ .returned c' := fun c' hret =>
        hq c' ((pc_goTo_ne hqp).trans hret)
      refine tail_setLink ?_ (h.waiting q hq')
      intro hc
      rcases (hmem _).mp (hcell _ hc) with hl | ⟨q', c', hret, hgq⟩
      · exact hp.new q hl
      · obtain rfl := hp.inj hgq
        exact hq' c' hret
  · have hpc : ∀ c, w.pc p ≠ .store c := fun c hc => hpc ⟨c, hc⟩
    obtain ⟨htables, hret⟩ := h.found.step_quiet hp hpc
    refine ⟨hfound, hexclusive, by rw [htables]; exact h.sentinel, ?_, ?_⟩
    · obtain ⟨L, hchain, hmem⟩ := h.list
      refine ⟨L, by rw [htables]; exact hchain, fun i => ?_⟩
      unfold Known
      simp only [hret]
      exact hmem i
    · intro q hq
      rw [htables]
      exact h.waiting q fun c hc => hq c ((hret q c).mpr hc)

/-! ## When nothing is lost -/

theorem found_of_run (hp : Pushed t s l g) (hr : LinkRun s g w r) (h : Found t s l g w) :
    Along (fun w p w' => w' = w.step s g p ∧ Found t s l g w) w r ∧
      Found t s l g (final w r) := by
  have hboth := Along.invariant (I := Found t s l g)
    (R := fun w p w' => w' = w.step s g p ∧ Found t s l g w) h hr
    fun _ p _ h hstep => ⟨hstep ▸ h.step hp p, hstep, h⟩
  exact ⟨hboth.2, hboth.1 _ (final_mem_states w r)⟩

theorem run_view (hp : Pushed t s l g) (hr : LinkRun s g w r) (h : Found t s l g w) :
    Claiming.Run (view s) w r :=
  (found_of_run hp hr h).1.mono fun _ p _ h => h.1 ▸ h.2.step_view hp p

omit [DecidableEq π] in
theorem place_eq_claimed_iff : (w.view s).place p = .claimed c ↔ w.pc p = .returned c :=
  place_eq_claimed

theorem claim?_of_step (hp : Pushed t s l g) :
    claim? (w.view s) p ((w.step s g p).view s) = some c ↔ w.pc p = .store c := by
  constructor
  · intro hc
    exact place_eq_window.mp (claim?_eq_some hc)
  · intro hpc
    have hstep : w.step s g p =
        { w with tables := w.tables.setLink s (g p) c }.goTo p (.returned c) := by
      unfold Linkers.step
      rw [hpc]
    rw [hstep, view_goTo, view_setLink (hp.ne_sentinel p)]
    exact claim?_of_claim (v := w.view s) (congrArg LinkPc.place hpc)

/-- **Without races** the calls are serializable, in the order of their stores. -/
theorem serializable_of_noRace (hp : Pushed t s l g) (hr : LinkRun s g (.start t) r)
    (hno : Along (fun w p _ => ¬ Races s w p) (.start t) r) :
    Serializable s g t (final (.start t) r) := by
  have hsteps : Along (fun w p w' => w' = w.step s g p ∧ Orderly t s l g w) (.start t) r := by
    refine (Along.invariant (I := Orderly t s l g) (orderly_start hp)
      (Along.and_iff.mpr ⟨hr, hno⟩) ?_).2
    rintro w p w' h ⟨rfl, hrace⟩
    exact ⟨h.step hp hrace, rfl, h⟩
  have hview := run_view hp hr (found_start hp)
  have hkeep : ∀ (w : Linkers π) p w' t', w.tables = t' →
      (w' = w.step s g p ∧ Orderly t s l g w) → claim? (w.view s) p (w'.view s) = none →
      w'.tables = t' := by
    rintro w p w' t' rfl ⟨rfl, h⟩ hc
    refine (h.found.step_quiet hp fun c hpc => ?_).1
    rw [(claim?_of_step hp).mpr hpc] at hc
    cases hc
  have hclaim : ∀ (w : Linkers π) p w' t' c, w.tables = t' →
      (w' = w.step s g p ∧ Orderly t s l g w) → claim? (w.view s) p (w'.view s) = some c →
      ∃ t'', (∃ fuel, Returns (linkRnodeGmem fuel s (g p)) t' () t'') ∧ w'.tables = t'' := by
    rintro w p w' t' c rfl ⟨rfl, h⟩ hc
    have hpc := (claim?_of_step hp).mp hc
    obtain ⟨_, _, _, _, _, hret⟩ := h.link hp hpc
    refine ⟨_, hret, ?_⟩
    unfold Linkers.step
    rw [hpc]
    rfl
  obtain ⟨t', hserial, htables⟩ := serially_of_run (view s)
    (G := fun w t' => w.tables = t') hsteps rfl hkeep hclaim
  refine ⟨_, nodup_claims hview, ?_, htables ▸ hserial⟩
  intro p c
  rw [mem_claims hview fun _ _ => nofun]
  exact place_eq_claimed_iff

omit [DecidableEq π] in
theorem allLinked_of_serializable (hp : Pushed t s l g) (hdone : w.Done)
    (h : Serializable s g t w) : AllLinked s g w := by
  obtain ⟨order, hnodup, hmem, hser⟩ := h
  refine ⟨_, chain_of_serially hp.sentinel hp.chain hp.inj hnodup ?_ hser, ?_⟩
  · exact fun p _ => ⟨hp.tail p, hp.new p⟩
  · intro p
    obtain ⟨c, hc⟩ := hdone p
    exact List.mem_append_right _ (List.mem_map.mpr ⟨(p, c), (hmem p c).mpr hc, rfl⟩)

omit [DecidableEq π] in
/-- **A record on the list is linked from where its thread stored it**, and the store of another
thread there would have removed it. -/
theorem distinct_of_allLinked (hp : Pushed t s l g) (h : Found t s l g w)
    (hall : AllLinked s g w) : Distinct (w.view s) := by
  obtain ⟨L, hchain, hL⟩ := hall
  have hend : ¬ w.tables.Live (-1) := fun hlive => hp.sentinel.not_live ((h.live _).mp hlive)
  -- what is on the list is known, so the links on it are
  have hclosed : ∀ i, i ∈ L → i ∈ l ∨ ∃ p, g p = i := by
    intro i hi
    obtain ⟨l₁, l₂, _, hto, _⟩ := hchain.split_at_mem hi
    have hstep : ∀ c, (∀ j, c = some j → j ∈ l ∨ ∃ p, g p = j) →
        w.tables.linkOf s c = -1 ∨ w.tables.linkOf s c ∈ l ∨ ∃ p, g p = w.tables.linkOf s c := by
      intro c hc
      rcases h.links c hc with hnone | hmem | ⟨q, _, hgq⟩
      · exact Or.inl hnone
      · exact Or.inr (Or.inl hmem)
      · exact Or.inr (Or.inr ⟨q, hgq⟩)
    have hreached : i = -1 ∨ i ∈ l ∨ ∃ p, g p = i := by
      apply hto.mem_of_closed (S := fun i => i = -1 ∨ i ∈ l ∨ ∃ p, g p = i) (hstep none nofun)
      rintro b (rfl | hb) hlive
      · exact absurd hlive hend
      · apply hstep (some b)
        intro j hj
        exact Option.some.inj hj ▸ hb
    refine hreached.resolve_left ?_
    rintro rfl
    exact hend (hchain.live_of_mem _ hi)
  have hlink : ∀ p c, w.pc p = .returned c → w.tables.linkOf s c = g p := by
    intro p c hc
    obtain ⟨l₁, l₂, hsplit, hto, _⟩ := hchain.split_at_mem (hL p)
    obtain ⟨c', hcell, hlink⟩ : ∃ c', (∀ j, c' = some j → j ∈ L) ∧
        w.tables.linkOf s c' = g p := by
      rcases List.eq_nil_or_concat' l₁ with rfl | ⟨l₀, a, rfl⟩
      · exact ⟨none, nofun, hto⟩
      · refine ⟨some a, ?_, (Walk.of_snoc hto).2.2⟩
        intro j hj
        rw [hsplit, ← Option.some.inj hj]
        simp
    rcases h.links c' fun j hj => hclosed j (hcell j hj) with hnone | hmem | ⟨q, hq, hgq⟩
    · exact absurd (hlink.symm.trans hnone) (hp.ne_sentinel p)
    · exact absurd (hlink ▸ hmem) (hp.new p)
    · obtain rfl := hp.inj (hgq.trans hlink)
      rw [hc] at hq
      rw [LinkPc.returned.inj hq]
      exact hlink
  intro p q c hpc hqc
  apply hp.inj
  rw [← hlink p c (place_eq_claimed_iff.mp hpc), hlink q c (place_eq_claimed_iff.mp hqc)]

theorem noRace_of_allLinked (hp : Pushed t s l g) (hr : LinkRun s g (.start t) r)
    (hdone : (final (.start t) r).Done) (hall : AllLinked s g (final (.start t) r)) :
    Along (fun w p _ => ¬ Races s w p) (.start t) r := by
  obtain ⟨hsteps, hfinal⟩ := found_of_run hp hr (found_start hp)
  have hwindow : ∀ p c, ((final (.start t) r).view s).place p ≠ .window c := by
    intro p c hwindow
    obtain ⟨c', hret⟩ := hdone p
    have hstore := place_eq_window.mp hwindow
    rw [hret] at hstore
    cases hstore
  have hno := (distinct_iff (orderly_start hp).exclusive (run_view hp hr (found_start hp))
    hwindow).mp (distinct_of_allLinked hp hfinal hall)
  refine (Along.and_iff.mpr ⟨hsteps, hno⟩).mono ?_
  rintro w p w' ⟨⟨rfl, h⟩, hcollides⟩ hraces
  exact hcollides ((races_iff hp h).mp hraces)

/-- **Threads that link at once** do what they would do one after the other exactly when there is no
race, and they lose a record exactly when there is one. -/
theorem linked_iff_noRace (hp : Pushed t s l g) (hr : LinkRun s g (.start t) r)
    (hdone : (final (.start t) r).Done) :
    (Serializable s g t (final (.start t) r) ↔
      Along (fun w p _ => ¬ Races s w p) (.start t) r) ∧
    (AllLinked s g (final (.start t) r) ↔ Along (fun w p _ => ¬ Races s w p) (.start t) r) := by
  constructor
  · constructor
    · intro h
      exact noRace_of_allLinked hp hr hdone (allLinked_of_serializable hp hdone h)
    · exact serializable_of_noRace hp hr
  · constructor
    · exact noRace_of_allLinked hp hr hdone
    · intro hno
      exact allLinked_of_serializable hp hdone (serializable_of_noRace hp hr hno)

instance [Fintype π] (s : Nat) (w : Linkers π) (p : π) : Decidable (Races s w p) :=
  match hpc : w.pc p with
  | .test c =>
      decidable_of_iff (w.tables.endsAt s c = true ∧ ∃ q, w.pc q = .store c)
        ⟨fun ⟨hends, q, hq⟩ => ⟨c, q, hpc, hends, hq⟩, by
          rintro ⟨c', q, hc', hends, hq⟩
          obtain rfl : c = c' := by simpa [hpc] using hc'
          exact ⟨hends, q, hq⟩⟩
  | .load _ => isFalse fun ⟨_, _, h, _⟩ => by simp [hpc] at h
  | .store _ => isFalse fun ⟨_, _, h, _⟩ => by simp [hpc] at h
  | .returned _ => isFalse fun ⟨_, _, h, _⟩ => by simp [hpc] at h

/-- The process in slot `0` has the record `0`, and two threads of it have pushed the others. -/
def twoPushed : Tables := putNew (putNew afterAllocate 1 24 50) 2 32 60

def pushedBy (p : Bool) : Int := if p then 1 else 2

theorem pushed_twoPushed : Pushed twoPushed 0 [0] pushedBy := by
  have hend : twoPushed.next 0 = -1 := by decide
  refine ⟨⟨by decide, by decide⟩, ⟨by decide, by decide, hend⟩, ?_, ?_, ?_⟩
  · intro p
    cases p
    · exact ⟨by decide, by decide⟩
    · exact ⟨by decide, by decide⟩
  · intro p
    cases p <;> decide
  · intro p q h
    cases p <;> cases q <;> first | rfl | cases h

/-- The run in which the threads take their steps in this order. -/
def linksInOrder (schedule : List Bool) : List (Bool × Linkers Bool) :=
  trajectory (step 0 pushedBy) (start twoPushed) schedule

theorem linkRun_linksInOrder (schedule : List Bool) :
    LinkRun 0 pushedBy (start twoPushed) (linksInOrder schedule) := along_step_trajectory

/-- The second thread comes to the end of the list once the first one has linked there. -/
def afterLink : List Bool :=
  [true, false, true, false, true, true, false, false, false, false]

/-- It comes there before. -/
def beforeLink : List Bool := [true, false, true, false, true, false, true, false]

theorem linked_afterLink :
    AllLinked 0 pushedBy (final (start twoPushed) (linksInOrder afterLink)) ∧
    ¬ AllLinked 0 pushedBy (final (start twoPushed) (linksInOrder beforeLink)) := by
  constructor
  · refine (linked_iff_noRace pushed_twoPushed (linkRun_linksInOrder _) ?_).2.mpr ?_
    · intro p
      cases p
      · exact ⟨some 1, rfl⟩
      · exact ⟨some 0, rfl⟩
    · have hok : ∀ (w : Linkers Bool) p, decide (¬ Races 0 w p) = true → ¬ Races 0 w p :=
        fun _ _ => of_decide_eq_true
      exact along_trajectory hok (by decide)
  · intro h
    have hno := (linked_iff_noRace pushed_twoPushed (linkRun_linksInOrder _) ?_).2.mp h
    · exact hno.2.2.2.2.2.1 ⟨some 0, true, rfl, by decide, rfl⟩
    · intro p
      cases p
      · exact ⟨some 0, rfl⟩
      · exact ⟨some 0, rfl⟩

end Linkers

end RNM

end Vcuda
