import Vcuda.Rnm.Chains
import Mathlib.Tactic.IntervalCases

/-!
# Separate chains

The shape invariant without an account of every record: the list of every process is a proper chain
and no record is on two of them (`Chained`). Records in use that are on no list are allowed. This is
all that the code needs to work on one list without disturbing another (`Chained.replace`).
-/

namespace Vcuda.RNM

open Traced Tables

variable {d : Dims} {t t' t₁ : Tables} {key : PidSt} {mem : HostMem} {h : Handle} {p : Ptr}
  {n : UInt64} {s s' : Nat} {g i j x : Int} {c : Nat → List Int} {l : List Int}

instance (d : Dims) (t : Tables) : DecidablePred (Exists d t) := fun _ =>
  inferInstanceAs (Decidable (_ ∧ _))

/-- The lists `c` are the chains of the processes: records in use, the last of which links to `-1`,
and no two of them share a record. -/
structure Chained (d : Dims) (t : Tables) (c : Nat → List Int) : Prop where
  chain : ∀ s, Exists d t s → t.Chain (t.entry s) (c s) (-1)
  disjoint : ∀ s s', Exists d t s → Exists d t s' → s ≠ s' → (c s).Disjoint (c s')

/-- The list of a slot, empty when no process occupies it. -/
def listOf (d : Dims) (t : Tables) (c : Nat → List Int) (s : Nat) : List Int :=
  if Exists d t s then c s else []

theorem listOf_of_exists (hex : Exists d t s) : listOf d t c s = c s := if_pos hex

theorem mem_listOf : g ∈ listOf d t c s ↔ Exists d t s ∧ g ∈ c s := by
  unfold listOf
  split
  · next hex => simp [hex]
  · next hex => simp [hex]

theorem Chained.live (hc : Chained d t c) (hs : Exists d t s) (hg : g ∈ c s) : t.Live g :=
  (hc.chain s hs).live_of_mem g hg

/-- What the list of `s` is replaced by has nothing of the lists of others. -/
theorem Chained.not_mem_of_other (hc : Chained d t c)
    (hnew : ∀ g ∈ l, g ∈ listOf d t c s ∨ ¬ t.Live g) (hs' : Exists d t s') (hne : s' ≠ s)
    (hg : g ∈ c s') : g ∉ listOf d t c s ∧ g ∉ l := by
  have hold : g ∉ listOf d t c s := by
    intro hmem
    obtain ⟨hs, hgs⟩ := mem_listOf.mp hmem
    exact hc.disjoint s' s hs' hs hne hg hgs
  refine ⟨hold, ?_⟩
  intro hl
  rcases hnew g hl with hmem | hempty
  · exact hold hmem
  · exact hempty (hc.live hs' hg)

/-- **One list at a time.** An operation that gives the process in slot `s` the list `l`, made of
its old records and empty ones, and touches no other record, keeps the other lists. -/
theorem Chained.replace (hc : Chained d t c)
    (hexists : ∀ s', s' ≠ s → (Exists d t' s' ↔ Exists d t s'))
    (hentry : ∀ s', s' ≠ s → t'.entry s' = t.entry s')
    (hchain : t'.Chain (t'.entry s) l (-1))
    (hnew : ∀ g ∈ l, g ∈ listOf d t c s ∨ ¬ t.Live g)
    (hframe : ∀ g, g ∉ listOf d t c s → g ∉ l → t'.gmem g = t.gmem g) :
    Chained d t' (Function.update c s l) := by
  have hother : ∀ s', Exists d t s' → s' ≠ s → ∀ g ∈ c s', g ∉ listOf d t c s ∧ g ∉ l :=
    fun s' hs' hne g hg => hc.not_mem_of_other hnew hs' hne hg
  constructor
  · intro s' hs'
    by_cases hne : s' = s
    · subst hne
      rw [Function.update_self]
      exact hchain
    · have hs' := (hexists s' hne).mp hs'
      rw [Function.update_of_ne hne, hentry s' hne]
      apply (hc.chain s' hs').congr
      intro g hg
      obtain ⟨hgold, hgl⟩ := hother s' hs' hne g hg
      have hsame := hframe g hgold hgl
      have hlive := hc.live hs' hg
      unfold Tables.next Tables.Live at *
      rw [hsame]
      exact ⟨rfl, hlive⟩
  · intro s₁ s₂ hs₁ hs₂ hne
    by_cases hne₁ : s₁ = s
    · subst hne₁
      have hs₂ := (hexists s₂ hne.symm).mp hs₂
      rw [Function.update_self, Function.update_of_ne hne.symm]
      intro g hg hg₂
      exact (hother s₂ hs₂ hne.symm g hg₂).2 hg
    · have hs₁ := (hexists s₁ hne₁).mp hs₁
      rw [Function.update_of_ne hne₁]
      by_cases hne₂ : s₂ = s
      · subst hne₂
        rw [Function.update_self]
        intro g hg₁ hg
        exact (hother s₁ hs₁ hne₁ g hg₁).2 hg
      · rw [Function.update_of_ne hne₂]
        exact hc.disjoint s₁ s₂ hs₁ ((hexists s₂ hne₂).mp hs₂) hne

/-! ## A process gets a slot -/

/-- Its list is the one it had, or empty. -/
theorem Acquires.chain (hc : Chained d t c) (hacq : Acquires d t key s t₁) :
    t₁.Chain (t₁.entry s) (listOf d t c s) (-1) := by
  rcases hacq with ⟨hfind, rfl⟩ | ⟨hfind, hpos, rfl⟩
  · have hex := (findRnode_eq_some hfind).1
    rw [listOf_of_exists hex]
    exact hc.chain s hex
  · rw [listOf, if_neg (not_exists_of_insertPos hfind hpos), putRnode_entry_self]
    rfl

theorem Chained.acquire (hc : Chained d t c) (hacq : Acquires d t key s t₁) :
    Chained d t₁ (Function.update c s (listOf d t c s)) := by
  apply hc.replace
  · exact fun s' hne => hacq.exists_of_ne hne
  · exact fun s' hne => hacq.entry_of_ne hne
  · exact hacq.chain hc
  · exact fun g hg => Or.inl hg
  · intro g _ _
    rw [hacq.gmem]

/-! ## A record more -/

/-- A new record behind the list: what `Chained.replace` asks of it. -/
theorem Chained.pushed {j : Nat} (hs : t.Sentinel) (hc : Chained d t c) (hex : Exists d t s)
    (hp : p ≠ 0) (hj : firstEmpty d t = some j) (hl : Links (putNew t j p n) s j t') :
    t'.Chain (t'.entry s) (c s ++ [(j : Int)]) (-1) ∧ t'.gmem j = GMem.new p n ∧
      (∀ g ∈ c s ++ [(j : Int)], g ∈ listOf d t c s ∨ ¬ t.Live g) ∧
      ∀ g, g ∉ listOf d t c s → g ∉ c s ++ [(j : Int)] → t'.gmem g = t.gmem g := by
  obtain ⟨hjr, hjl, _⟩ := firstEmpty_eq_some.mp hj
  have hj1 : (j : Int) ≠ -1 := by omega
  obtain ⟨hchain, hrecord, hframe⟩ := chain_push hs (hc.chain s hex) hjl hj1 hp hl
  rw [listOf_of_exists hex]
  refine ⟨hchain, hrecord, ?_, ?_⟩
  · intro g hg
    rcases List.mem_append.mp hg with hg | hg
    · exact Or.inl hg
    · rw [List.mem_singleton.mp hg]
      exact Or.inr hjl
  · intro g hg hgl
    simp only [List.mem_append, List.mem_singleton, not_or] at hgl
    exact hframe g hg hgl.2

theorem Chained.push {j : Nat} (hs : t.Sentinel) (hc : Chained d t c) (hex : Exists d t s)
    (hp : p ≠ 0) (hj : firstEmpty d t = some j) (hl : Links (putNew t j p n) s j t') :
    Chained d t' (Function.update c s (c s ++ [(j : Int)])) := by
  obtain ⟨hchain, _, hnew, hframe⟩ := hc.pushed hs hex hp hj hl
  have hslots : slots d t' = slots d t := hl.slots
  exact hc.replace (fun _ _ => exists_congr hslots) (fun _ hne => hl.entry_of_ne hne) hchain hnew
    hframe

/-! ## A search of a list -/

/-- The first record of the list whose variable holds the handle, with what is before and behind
it. -/
theorem Chained.split_at_hit (hs : t.Sentinel) (hc : Chained d t c) (hex : Exists d t s)
    (hwalk : Walk t.next (t.Miss mem h) (t.entry s) l x) (hx : t.Hit mem h x) :
    ∃ l₂, c s = l ++ x :: l₂ ∧ t.Chain (t.next x) l₂ (-1) :=
  chain_split_at_hit hs (hc.chain s hex) hwalk hx.1

/-- A search that runs off the list found no record of the list. -/
theorem Chained.not_hit_of_walk (hs : t.Sentinel) (hc : Chained d t c) (hex : Exists d t s)
    (hwalk : Walk t.next (t.Miss mem h) (t.entry s) l x) (hx : ¬ t.Live x) :
    ∀ g ∈ c s, ¬ t.Hit mem h g := by
  intro g hg hhit
  have hl := ((Chain.of_miss hwalk).unique hx (hc.chain s hex) hs.not_live).1
  rw [← hl] at hg
  exact hhit.not_miss (hwalk.live_of_mem g hg)

/-- From the first record of a process, `next` leads to the records of its list only. -/
theorem Chained.reached (hs : t.Sentinel) (hc : Chained d t c) (hex : Exists d t s)
    (hwalk : Walk t.next (fun _ => True) (t.entry s) l i) : i ∈ c s ∨ i = -1 := by
  have hchain := hc.chain s hex
  apply hwalk.mem_of_closed (S := fun i => i ∈ c s ∨ i = -1)
  · cases hcs : c s with
    | nil =>
        rw [hcs] at hchain
        exact Or.inr hchain
    | cons a l =>
        rw [hcs] at hchain
        rw [hchain.1]
        exact Or.inl List.mem_cons_self
  · rintro g (hg | rfl) _
    · exact hchain.next_mem hg
    · exact Or.inr hs.next

/-! ## Cutting a record out -/

/-- A record behind another goes off the list: what `Chained.replace` asks of it. -/
theorem Chained.cut {b : Int} {l₀ l₂ : List Int} (hs : t.Sentinel) (hc : Chained d t c)
    (hex : Exists d t s) (hl : c s = l₀ ++ b :: x :: l₂) :
    (unlink t b x).Chain ((unlink t b x).entry s) (l₀ ++ b :: l₂) (-1) ∧
      (∀ g ∈ l₀ ++ b :: l₂, g ∈ listOf d t c s) ∧
      ∀ g, g ∉ listOf d t c s → (unlink t b x).gmem g = t.gmem g := by
  have hchain := hc.chain s hex
  rw [hl] at hchain
  rw [listOf_of_exists hex, hl, unlink_entry]
  refine ⟨chain_unlink hs hchain, ?_, ?_⟩
  · intro g hg
    simp only [List.mem_append, List.mem_cons] at hg ⊢
    tauto
  · intro g hg
    have hgx : g ≠ x := by
      rintro rfl
      simp at hg
    have hgb : g ≠ b := by
      rintro rfl
      simp at hg
    exact unlink_gmem_ne hgx fun _ => hgb

theorem Chained.unlink {b : Int} {l₀ l₂ : List Int} (hs : t.Sentinel) (hc : Chained d t c)
    (hex : Exists d t s) (hl : c s = l₀ ++ b :: x :: l₂) :
    Chained d (unlink t b x) (Function.update c s (l₀ ++ b :: l₂)) := by
  obtain ⟨hchain, hsub, hframe⟩ := hc.cut hs hex hl
  exact hc.replace (fun _ _ => unlink_exists) (fun s' _ => unlink_entry b x s') hchain
    (fun g hg => Or.inl (hsub g hg)) fun g hg _ => hframe g hg

/-! ## A process with two records -/

/-- A process allocates twice. -/
def twoAllocations : List Op :=
  [.addGmem (1, 0) ownAddress 16 100, .addGmem (1, 0) ownAddress 24 200]

/-- The tables then: the process in slot `0`, its list in the records `0` and `1`. -/
def twoRecords : Tables := final initialTables (replay smallDims 2 initialTables twoAllocations)

theorem sentinel_twoRecords : twoRecords.Sentinel := ⟨by decide, by decide⟩

/-- There is one process. -/
theorem eq_zero_of_exists (hone : ¬ Exists smallDims t 1) (hex : Exists smallDims t s) : s = 0 := by
  have hlt : s < 2 := hex.1
  interval_cases s
  · rfl
  · exact absurd hex hone

theorem exists_twoRecords : Exists smallDims twoRecords s ↔ s = 0 := by
  constructor
  · exact eq_zero_of_exists (by decide)
  · rintro rfl
    decide

theorem chained_of_single (hone : ¬ Exists smallDims t 1)
    (hchain : t.Chain (t.entry 0) l (-1)) : Chained smallDims t fun _ => l := by
  constructor
  · intro s hs
    obtain rfl := eq_zero_of_exists hone hs
    exact hchain
  · intro s s' hs hs' hne
    exact absurd ((eq_zero_of_exists hone hs).trans (eq_zero_of_exists hone hs').symm) hne

theorem chained_twoRecords : Chained smallDims twoRecords fun _ => [0, 1] := by
  have hend : twoRecords.next 1 = -1 := by decide
  exact chained_of_single (by decide) ⟨by decide, by decide, by decide, by decide, hend⟩

end Vcuda.RNM
