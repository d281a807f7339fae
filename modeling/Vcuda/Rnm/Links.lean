import Vcuda.Rnm.Invariants

/-!
# Links between records

An empty record that was never in use need not link to `-1`: in a new segment it links to `0`. What
the operations come to are other ones (`Step.relinks`). They leave a record that is empty before and
after as it is, and take one only when all records before it are in use (`Step.idle`).
-/

namespace Vcuda.RNM

open Traced Tables

/-- What the code may come to: it is `-1`, or has been in use or initialised. -/
def Proper (d : Dims) (t : Tables) (i : Int) : Prop :=
  i = -1 ∨ (InRange d i ∧ (t.Live i ∨ t.next i = -1))

/-- The links that are in use. -/
structure Linked (d : Dims) (t : Tables) : Prop where
  entry : ∀ s, Exists d t s → Proper d t (t.entry s)
  next : ∀ g, InRange d g → t.Live g → Proper d t (t.next g)

variable {d : Dims} {t t' t₁ : Tables} {key : PidSt} {mem : HostMem} {p : Ptr} {n : UInt64}
  {s : Nat} {g x : Int} {reg : List Int} {op : Op}

theorem Proper.indexed (h : Proper d t g) : Indexed d g := h.imp_right And.left

/-- What is proper and in use lies in the table. -/
theorem Proper.inRange (h : Proper d t g) (hs : t.Sentinel) (hlive : t.Live g) : InRange d g :=
  (h.resolve_left (ne_sentinel_of_live hs hlive)).1

/-- It stays proper if the record that changes is left in use or linking to `-1`. -/
theorem Proper.modifyGmem {f : GMem → GMem} (h : Proper d t x)
    (hf : (f (t.gmem g)).ptr ≠ 0 ∨ (f (t.gmem g)).next = -1) : Proper d (t.modifyGmem g f) x := by
  refine h.imp_right fun ⟨hx, hproper⟩ => ⟨hx, ?_⟩
  by_cases hxg : x = g
  · subst hxg
    rwa [modifyGmem_live_self, modifyGmem_next_self]
  · rwa [modifyGmem_live_ne hxg, modifyGmem_next_ne hxg]

/-- So do the links, if a record left in use links to something proper. -/
theorem Linked.modifyGmem {f : GMem → GMem} (hl : Linked d t)
    (hf : (f (t.gmem g)).ptr ≠ 0 ∨ (f (t.gmem g)).next = -1)
    (hnext : (f (t.gmem g)).ptr ≠ 0 → Proper d t (f (t.gmem g)).next) :
    Linked d (t.modifyGmem g f) := by
  refine ⟨fun s hex => (hl.entry s hex).modifyGmem hf, fun x hx hlive => ?_⟩
  by_cases hxg : x = g
  · subst hxg
    rw [modifyGmem_live_self] at hlive
    rw [modifyGmem_next_self]
    exact (hnext hlive).modifyGmem hf
  · rw [modifyGmem_live_ne hxg] at hlive
    rw [modifyGmem_next_ne hxg]
    exact (hl.next x hx hlive).modifyGmem hf

/-- A walk from something proper comes to proper things only. -/
theorem Linked.walk {P : Int → Prop} {i j : Int} {l : List Int} (hs : t.Sentinel)
    (hl : Linked d t) (hi : Proper d t i) (hwalk : Walk t.next P i l j) : Proper d t j := by
  induction l generalizing i with
  | nil =>
      have hij : i = j := hwalk
      rwa [← hij]
  | cons a l ih =>
      obtain ⟨rfl, _, hrest⟩ := hwalk
      apply ih _ hrest
      rcases hi with rfl | ⟨hi, hlive | hnext⟩
      · exact Or.inl hs.next
      · exact hl.next i hi hlive
      · exact Or.inl hnext

/-- A change of the tables keeps the links, and what is proper. -/
def Relinks (d : Dims) (t t' : Tables) : Prop :=
  Linked d t' ∧ ∀ x, Proper d t x → Proper d t' x

theorem Relinks.trans (h : Relinks d t t₁) (h₁ : Relinks d t₁ t') : Relinks d t t' :=
  ⟨h₁.1, fun x hx => h₁.2 x (h.2 x hx)⟩

theorem Linked.relinks (hl : Linked d t) : Relinks d t t := ⟨hl, fun _ hx => hx⟩

/-- A change of one record. -/
theorem relinks_modifyGmem {f : GMem → GMem} (hl : Linked d t)
    (hf : (f (t.gmem g)).ptr ≠ 0 ∨ (f (t.gmem g)).next = -1)
    (hnext : (f (t.gmem g)).ptr ≠ 0 → Proper d t (f (t.gmem g)).next) :
    Relinks d t (t.modifyGmem g f) :=
  ⟨hl.modifyGmem hf hnext, fun _ hx => hx.modifyGmem hf⟩

/-- A new process points at `-1`. -/
theorem Acquires.relinks (hl : Linked d t) (hacq : Acquires d t key s t₁) : Relinks d t t₁ := by
  rcases hacq with ⟨_, rfl⟩ | ⟨_, _, rfl⟩
  · exact hl.relinks
  · refine ⟨⟨fun s' hex => ?_, hl.next⟩, fun _ hx => hx⟩
    by_cases hne : s' = s
    · subst hne
      rw [putRnode_entry_self]
      exact Or.inl rfl
    · rw [putRnode_entry_ne hne]
      exact hl.entry s' ((exists_putRnode_ne hne).mp hex)

/-- Linking a proper record keeps the links: the record it is linked behind is a tail. -/
theorem Links.relinks (hs : t.Sentinel) (hl : Linked d t) (hg : Proper d t g) (hex : Exists d t s)
    (h : Links t s g t') : Relinks d t t' := by
  rcases h with ⟨_, rfl⟩ | ⟨_, l, r, hwalk, htail, ⟨_, rfl⟩ | ⟨_, rfl⟩⟩
  · refine ⟨⟨fun s' hex' => ?_, hl.next⟩, fun _ hx => hx⟩
    by_cases hne : s' = s
    · subst hne
      rw [setEntry_entry_self]
      exact hg
    · rw [setEntry_entry_ne hne]
      exact hl.entry s' ((exists_congr slots_setEntry).mp hex')
  · exact hl.relinks
  · exact relinks_modifyGmem hl (Or.inl htail.1) fun _ => hg

/-- The record that is registered is new, or was found by a walk. -/
theorem Registers.relinks (hs : t.Sentinel) (hl : Linked d t)
    (hex : Exists d t s) (hp : p ≠ 0) (hreg : Registers d t mem s p n t' reg) :
    Relinks d t t' := by
  obtain ⟨l, x, hwalk, ⟨_, j, hj, hlinks, _⟩ | ⟨_, _, hlinks, _⟩ | ⟨hhit, hlinks, _⟩⟩ := hreg
  · have hput : Relinks d t (putNew t j p n) :=
      relinks_modifyGmem hl (Or.inl hp) fun _ => Or.inl rfl
    have hrange : InRange d j := inRange_natCast.mpr (firstEmpty_eq_some.mp hj).1
    have hne : (j : Int) ≠ -1 := hrange.ne_sentinel
    exact hput.trans (hlinks.relinks (hs.modifyGmem hne) hput.1
      (Or.inr ⟨hrange, Or.inl (tail_putNew hp).1⟩) hex)
  · exact hlinks.relinks hs hl (Or.inl rfl) hex
  · have hx : Proper d t x := hl.walk hs (hl.entry s hex) hwalk
    have hset : Relinks d t (t.modifyGmem x (·.setRes p n)) :=
      relinks_modifyGmem hl (Or.inl hp) fun _ => hl.next x (hx.inRange hs hhit.1) hhit.1
    exact hset.trans (hlinks.relinks (hs.modifyGmem (ne_sentinel_of_live hs hhit.1)) hset.1
      (hset.2 x hx) hex)

/-- The record that is released is emptied and links to `-1`; the one before it takes its link. -/
theorem unlink_relinks {prev : Int} (hl : Linked d t) (hx : InRange d x) (hlive : t.Live x)
    (hprev : prev ≠ -1 → t.Live prev) : Relinks d t (unlink t prev x) := by
  unfold unlink
  split
  · exact relinks_modifyGmem hl (Or.inr rfl) fun hptr => absurd rfl hptr
  · next hne =>
    have hrelink : Relinks d t (t.modifyGmem prev (·.setNext (t.next x))) :=
      relinks_modifyGmem hl (Or.inl (hprev hne)) fun _ => hl.next x hx hlive
    exact hrelink.trans (relinks_modifyGmem hrelink.1 (Or.inr rfl) fun hptr => absurd rfl hptr)

/-- **No operation links to a record that was never in use.** -/
theorem Step.relinks (hs : t.Sentinel) (hl : Linked d t) (hop : op.IsBook)
    (hstep : Step d t op t') : Relinks d t t' := by
  cases op with
  | addGmem key mem p n =>
      obtain ⟨hp, s, t₁, reg, hacq, hreg⟩ := step_addGmem hs hstep
      have hs₁ : t₁.Sentinel := hs.congr (by rw [hacq.gmem])
      have hget := hacq.relinks hl
      exact hget.trans (hreg.relinks hs₁ hget.1 hacq.exists_self hp)
  | removeGmem key mem h =>
      rcases step_removeGmem hs hstep with
        ⟨_, rfl⟩ | ⟨s, l, x, hfind, hwalk, ⟨_, rfl⟩ | ⟨hhit, rfl⟩⟩
      · exact hl.relinks
      · exact hl.relinks
      · have hx : Proper d t x := hl.walk hs (hl.entry s (RNM.findRnode_eq_some hfind).1) hwalk
        exact unlink_relinks hl (hx.inRange hs hhit.1) hhit.1 (prevOf_live hwalk)
  | deleteRnode key => cases hop
  | gmemUsed pe => cases hop

/-! ## Empty records -/

/-- Linking changes records in use only. -/
theorem Links.idle (hl : Links t s g t') (hx : ¬ t.Live x) : t'.gmem x = t.gmem x := by
  rcases hl with ⟨_, rfl⟩ | ⟨_, l, r, _, htail, ⟨_, rfl⟩ | ⟨_, rfl⟩⟩
  · rfl
  · rfl
  · exact modifyGmem_gmem_ne fun he => hx (he ▸ htail.1)

/-- It leaves them in use. -/
theorem Links.live_iff (hl : Links t s g t') : t'.Live x ↔ t.Live x := by
  rcases hl with ⟨_, rfl⟩ | ⟨_, l, r, _, _, ⟨_, rfl⟩ | ⟨_, rfl⟩⟩
  · rfl
  · rfl
  · by_cases hx : x = r
    · subst hx
      exact modifyGmem_live_self _
    · exact modifyGmem_live_ne hx

/-- A registration takes an empty record only when all records before it are in use. -/
theorem Registers.idle (hp : p ≠ 0) (hreg : Registers d t mem s p n t' reg) (hx : ¬ t.Live x) :
    t'.gmem x = t.gmem x ∨ (t'.Live x ∧ ∀ i, 0 ≤ i → i < x → t'.Live i) := by
  obtain ⟨l, y, _, ⟨_, j, hj, hlinks, _⟩ | ⟨_, _, hlinks, _⟩ | ⟨hhit, hlinks, _⟩⟩ := hreg
  · have hlive : ∀ {i : Int}, i ≠ j → ((putNew t j p n).Live i ↔ t.Live i) := modifyGmem_live_ne
    by_cases hxj : x = j
    · subst hxj
      refine Or.inr ⟨hlinks.live_iff.mpr (tail_putNew hp).1, fun i h0 hi => ?_⟩
      rw [hlinks.live_iff, hlive (by omega)]
      exact (firstEmpty_eq_some.mp hj).2.2 i h0 hi
    · rw [hlinks.idle fun h => hx ((hlive hxj).mp h)]
      exact Or.inl (modifyGmem_gmem_ne hxj)
  · exact Or.inl (hlinks.idle hx)
  · have hxy : x ≠ y := fun he => hx (he ▸ hhit.1)
    rw [hlinks.idle fun h => hx ((modifyGmem_live_ne hxy).mp h)]
    exact Or.inl (modifyGmem_gmem_ne hxy)

/-- **An empty record stays as it is** until it is taken, and then all records before it are in
use. -/
theorem Step.idle (hs : t.Sentinel) (hop : op.IsBook) (hstep : Step d t op t')
    (hx : ¬ t.Live x) :
    t'.gmem x = t.gmem x ∨ (t'.Live x ∧ ∀ i, 0 ≤ i → i < x → t'.Live i) := by
  cases op with
  | addGmem key mem p n =>
      obtain ⟨hp, s, t₁, reg, hacq, hreg⟩ := step_addGmem hs hstep
      rw [← hacq.gmem]
      exact hreg.idle hp fun h => hx (hacq.live_iff.mp h)
  | removeGmem key mem h =>
      rcases step_removeGmem hs hstep with
        ⟨_, rfl⟩ | ⟨s, l, y, _, hwalk, ⟨_, rfl⟩ | ⟨hhit, rfl⟩⟩
      · exact Or.inl rfl
      · exact Or.inl rfl
      · refine Or.inl (unlink_gmem_ne (fun he => hx (he ▸ hhit.1)) fun hne he => ?_)
        exact hx (he ▸ prevOf_live hwalk hne)
  | deleteRnode key => cases hop
  | gmemUsed pe => cases hop

end Vcuda.RNM
