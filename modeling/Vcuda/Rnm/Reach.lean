import Vcuda.Rnm.Chains

/-!
# What a call can reach

A process reaches records from its slot, through records in use. Everything an operation does stays
there: it changes records it reaches, or the one empty record `push_gmem` hands out (`Confined`),
and it dereferences only the variables of records it reaches and its own argument
(`addGmem_emits`, `removeGmem_emits`). Nothing is assumed about the shape of the lists: they may be
shared, cyclic, or end at an empty record.
-/

namespace Vcuda.RNM

open Traced Tables

variable {d : Dims} {t t' t₁ : Tables} {key : PidSt} {mem : HostMem} {h : Handle} {p : Ptr}
  {n : UInt64} {s s' : Nat} {g i j x : Int} {l : List Int} {fuel : Nat} {reg : List Int}

/-- From its slot `s` a process gets to the record `i`. -/
def Reaches (t : Tables) (s : Nat) (i : Int) : Prop := ∃ l, t.Chain (t.entry s) l i

theorem reaches_entry (t : Tables) (s : Nat) : Reaches t s (t.entry s) := ⟨[], rfl⟩

theorem Reaches.next (hr : Reaches t s i) (hi : t.Live i) : Reaches t s (t.next i) := by
  obtain ⟨l, hc⟩ := hr
  exact ⟨l ++ [i], hc.snoc hi⟩

/-- From a proper list a process gets to its records and to `-1` only. -/
theorem not_reaches_of_chain (hs : t.Sentinel) (hc : t.Chain (t.entry s) l (-1)) (hi : i ∉ l)
    (hne : i ≠ -1) : ¬ Reaches t s i := by
  rintro ⟨l', hc'⟩
  obtain ⟨l'', rfl, hrest⟩ := hc.extends_of_stopped hs.not_live hc'
  cases l'' with
  | nil => exact hne hrest
  | cons a l'' =>
      obtain ⟨rfl, _⟩ := hrest
      exact hi (by simp)

theorem reaches_of_miss (hwalk : Walk t.next (t.Miss mem h) (t.entry s) l x) : Reaches t s x :=
  ⟨l, Chain.of_miss hwalk⟩

/-- The record before a hit is reached and in use. -/
theorem reaches_prevOf (hwalk : Walk t.next (t.Miss mem h) (t.entry s) l x)
    (hne : prevOf (-1) l ≠ -1) : Reaches t s (prevOf (-1) l) ∧ t.Live (prevOf (-1) l) := by
  rcases List.eq_nil_or_concat' l with rfl | ⟨l₀, a, rfl⟩
  · exact absurd rfl hne
  · rw [prevOf_snoc]
    obtain ⟨hto, ha, _⟩ := Walk.of_snoc hwalk
    exact ⟨reaches_of_miss hto, ha.1⟩

/-! ## The walk of `last_rec` -/

/-- Past an empty record `last_rec` goes to `-1`, and from there to `-1` for ever. -/
theorem no_tail_past_empty (hs : t.Sentinel) (hwalk : Walk t.next t.NotTail g l x)
    (hx : ¬ t.Live x) (hnext : t.next x = -1) :
    ¬ ∃ l' r, Walk t.next t.NotTail g l' r ∧ t.Tail r := by
  have hsen : ∀ l r, Walk t.next t.NotTail (-1) l r → r = -1 := by
    intro l
    induction l with
    | nil =>
        intro r hr
        exact (hr : -1 = r).symm
    | cons a l ih =>
        intro r hr
        obtain ⟨rfl, _, hrest⟩ := hr
        have hnext : t.next (-1) = -1 := hs.next
        rw [hnext] at hrest
        exact ih r hrest
  rintro ⟨l', r, hwalk', hr⟩
  obtain ⟨l'', _, hrest⟩ := hwalk'.extends_of_stopped (not_not.mpr hr) hwalk
  cases l'' with
  | nil =>
      have hxr : x = r := hrest
      exact hx (hxr ▸ hr.1)
  | cons a l'' =>
      obtain ⟨rfl, _, hrest⟩ := hrest
      rw [hnext] at hrest
      have hr1 := hsen _ _ hrest
      exact hs.not_live (hr1 ▸ hr.1)

/-- So a walk of `last_rec` that finds a tail passed only records in use. -/
theorem chain_of_notTail (hs : t.Sentinel) (hw : Wired d t) (hg : Indexed d g)
    (hwalk : Walk t.next t.NotTail g l x) (hx : t.Tail x) : t.Chain g l x := by
  induction l generalizing g with
  | nil => exact hwalk
  | cons a l ih =>
      have hwalk' := hwalk
      obtain ⟨rfl, _, hrest⟩ := hwalk
      have hnext : Indexed d (t.next g) := by
        rcases hg with rfl | hg
        · exact Or.inl hs.next
        · exact hw.next g hg
      refine ⟨rfl, ?_, ih hnext hrest⟩
      by_contra hempty
      have hend : t.next g = -1 := by
        rcases hg with rfl | hg
        · exact hs.next
        · exact hw.empty g hg hempty
      have hstart : Walk t.next t.NotTail g [] g := rfl
      exact no_tail_past_empty hs hstart hempty hend ⟨_, x, hwalk', hx⟩

/-- A chain that does not end at `-1` has no tail. -/
theorem notTail_of_chain (hs : t.Sentinel) (hc : t.Chain g l x) (hx : x ≠ -1) :
    Walk t.next t.NotTail g l x := by
  apply hc.congr
  intro b hb
  refine ⟨rfl, ?_⟩
  intro htail
  obtain ⟨l₁, l₂, _, _, hrest⟩ := hc.split_at_mem hb
  rw [htail.2] at hrest
  cases l₂ with
  | nil => exact hx (hrest : -1 = x).symm
  | cons a l₂ => exact hs.not_live (hrest.1 ▸ hrest.2.1)

/-! ## What an operation touches -/

/-- The records a process reaches, the ones just registered, and the end of the chain. -/
def Region (t : Tables) (s : Nat) (reg : List Int) (a : Int) : Prop :=
  Reaches t s a ∨ a ∈ reg ∨ a = -1

/-- An operation on the process in slot `s`, which registered the records `reg`, stayed with what
that process reaches, and leads nowhere else. -/
structure Confined (t t' : Tables) (s : Nat) (reg : List Int) : Prop where
  changed : ∀ a, t'.gmem a ≠ t.gmem a → (Reaches t s a ∧ t.Live a) ∨ a ∈ reg
  registered : ∀ a ∈ reg, t.Live a → Reaches t s a
  live : ∀ a, t'.Live a → t.Live a ∨ a ∈ reg
  entry : Region t s reg (t'.entry s)
  next : ∀ a, Region t s reg a → t'.Live a → Region t s reg (t'.next a)

/-- Afterwards the process reaches nothing but what it reached and what was registered. -/
theorem Confined.reaches (hc : Confined t t' s reg) (hr : Reaches t' s i) : Region t s reg i := by
  obtain ⟨l, hwalk⟩ := hr
  exact Walk.mem_of_closed hwalk hc.entry hc.next

theorem Region.next (hs : t.Sentinel) (ha : Region t s reg i) (hreg : i ∉ reg) (hi : t.Live i) :
    Region t s reg (t.next i) := by
  rcases ha with ha | ha | rfl
  · exact Or.inl (ha.next hi)
  · exact absurd ha hreg
  · exact absurd hi hs.not_live

theorem Confined.refl (hs : t.Sentinel) : Confined t t s [] := by
  refine ⟨?_, ?_, ?_, Or.inl (reaches_entry t s), ?_⟩
  · intro a ha
    exact absurd rfl ha
  · intro a ha
    cases ha
  · intro a ha
    exact Or.inl ha
  · intro a ha
    exact ha.next hs List.not_mem_nil

/-- Writing the record `j` that is registered stays confined, if it is empty or reached and leads
on as before or to the end. -/
theorem Confined.modifyGmem {f : GMem → GMem} (hs : t.Sentinel) (hj : t.Live j → Reaches t s j)
    (hnext : Region t s [j] (f (t.gmem j)).next) : Confined t (t.modifyGmem j f) s [j] := by
  refine ⟨?_, ?_, ?_, Or.inl (reaches_entry t s), ?_⟩
  · intro a ha
    right
    by_contra hne
    rw [List.mem_singleton] at hne
    exact ha (modifyGmem_gmem_ne hne)
  · intro a ha
    rw [List.mem_singleton.mp ha]
    exact hj
  · intro a ha
    by_cases hne : a = j
    · exact Or.inr (List.mem_singleton.mpr hne)
    · exact Or.inl ((modifyGmem_live_ne hne).mp ha)
  · intro a ha hlive
    by_cases hne : a = j
    · subst hne
      rw [modifyGmem_next_self]
      exact hnext
    · rw [modifyGmem_live_ne hne] at hlive
      rw [modifyGmem_next_ne hne]
      exact ha.next hs (fun hmem => hne (List.mem_singleton.mp hmem)) hlive

/-- Linking changes one successor or the entry, both to `g`, and only of what is reached. -/
theorem Links.effect (hs : t.Sentinel) (hw : Wired d t) (hi : Indexed d (t.entry s))
    (hl : Links t s g t') :
    (t'.entry s = t.entry s ∨ t'.entry s = g) ∧ (∀ a, t'.next a = t.next a ∨ t'.next a = g) ∧
      ∀ a, t'.gmem a ≠ t.gmem a → Reaches t s a ∧ t.Live a := by
  rcases hl with ⟨_, rfl⟩ | ⟨_, l, r, hwalk, htail, ⟨_, rfl⟩ | ⟨_, rfl⟩⟩
  · exact ⟨Or.inr setEntry_entry_self, fun a => Or.inl rfl, fun a ha => absurd rfl ha⟩
  · exact ⟨Or.inl rfl, fun a => Or.inl rfl, fun a ha => absurd rfl ha⟩
  · refine ⟨Or.inl rfl, ?_, ?_⟩
    · intro a
      by_cases har : a = r
      · subst har
        exact Or.inr (modifyGmem_next_self _)
      · exact Or.inl (modifyGmem_next_ne har)
    · intro a ha
      have har : a = r := by
        by_contra har
        exact ha (modifyGmem_gmem_ne har)
      rw [har]
      exact ⟨⟨l, chain_of_notTail hs hw hi hwalk htail⟩, htail.1⟩

/-- So does linking it afterwards. -/
theorem Confined.link {t₂ : Tables} (hs : t₂.Sentinel) (hw : Wired d t₂)
    (hi : Indexed d (t₂.entry s)) (hc : Confined t t₂ s reg) (hg : Region t s reg g)
    (hl : Links t₂ s g t') : Confined t t' s reg := by
  have hlive : ∀ a, t'.Live a ↔ t₂.Live a := by
    intro a
    unfold Tables.Live
    rw [(hl.ptr_bytes a).1]
  obtain ⟨hentry, hnext, hchanged⟩ := hl.effect hs hw hi
  refine ⟨?_, hc.registered, ?_, ?_, ?_⟩
  · intro a ha
    by_cases hsame : t'.gmem a = t₂.gmem a
    · rw [hsame] at ha
      exact hc.changed a ha
    · obtain ⟨hr, hl₂⟩ := hchanged a hsame
      rcases hc.live a hl₂ with hla | hreg
      · rcases hc.reaches hr with hreach | hreg | rfl
        · exact Or.inl ⟨hreach, hla⟩
        · exact Or.inr hreg
        · exact absurd hl₂ hs.not_live
      · exact Or.inr hreg
  · intro a ha
    exact hc.live a ((hlive a).mp ha)
  · rcases hentry with he | he
    · rw [he]
      exact hc.entry
    · rw [he]
      exact hg
  · intro a ha hla
    rcases hnext a with hn | hn
    · rw [hn]
      exact hc.next a ha ((hlive a).mp hla)
    · rw [hn]
      exact hg

theorem Registers.confined (hs : t.Sentinel) (hw : Wired d t) (hex : Exists d t s) (hp : p ≠ 0)
    (hr : Registers d t mem s p n t' reg) : Confined t t' s reg := by
  have hi := hw.entry s hex
  obtain ⟨l, x, hwalk, ⟨_, j, hj, hl, rfl⟩ | ⟨_, _, hl, rfl⟩ | ⟨hhit, hl, rfl⟩⟩ := hr
  · obtain ⟨hjr, hempty, _⟩ := firstEmpty_eq_some.mp hj
    have hs₂ : (putNew t j p n).Sentinel := hs.modifyGmem (by omega)
    have hw₂ : Wired d (putNew t j p n) := hw.modifyGmem (Or.inl rfl) fun _ => rfl
    have hc₂ : Confined t (putNew t j p n) s [(j : Int)] :=
      Confined.modifyGmem hs (fun hlive => absurd hlive hempty) (Or.inr (Or.inr rfl))
    exact hc₂.link hs₂ hw₂ hi (Or.inr (Or.inl List.mem_cons_self)) hl
  · rw [hl.eq_of_sentinel]
    exact Confined.refl hs
  · have hreach := reaches_of_miss hwalk
    have hxr := Wired.inRange_of_live hs (hw.walk hs hi hwalk) hhit.1
    have hs₂ : (t.modifyGmem x (·.setRes p n)).Sentinel :=
      hs.modifyGmem (ne_sentinel_of_live hs hhit.1)
    have hw₂ : Wired d (t.modifyGmem x (·.setRes p n)) :=
      hw.modifyGmem (hw.next x hxr) fun hptr => absurd hptr hp
    have hc₂ : Confined t (t.modifyGmem x (·.setRes p n)) s [x] :=
      Confined.modifyGmem hs (fun _ => hreach) (Or.inl (hreach.next hhit.1))
    exact hc₂.link hs₂ hw₂ hi (Or.inl hreach) hl

theorem confined_unlink (hs : t.Sentinel)
    (hwalk : Walk t.next (t.Miss mem h) (t.entry s) l x) (hhit : t.Hit mem h x) :
    Confined t (unlink t (prevOf (-1) l) x) s [] := by
  have hreach := reaches_of_miss hwalk
  refine ⟨?_, ?_, ?_, ?_, ?_⟩
  · intro a ha
    left
    by_cases hax : a = x
    · rw [hax]
      exact ⟨hreach, hhit.1⟩
    · by_cases hp : prevOf (-1) l ≠ -1 ∧ a = prevOf (-1) l
      · rw [hp.2]
        exact reaches_prevOf hwalk hp.1
      · exact absurd (unlink_gmem_ne hax fun hne he => hp ⟨hne, he⟩) ha
  · intro a ha
    cases ha
  · intro a ha
    exact Or.inl (unlink_live.mp ha).2
  · rw [unlink_entry]
    exact Or.inl (reaches_entry t s)
  · intro a ha hlive
    obtain ⟨hax, hlive⟩ := unlink_live.mp hlive
    by_cases hp : prevOf (-1) l ≠ -1 ∧ a = prevOf (-1) l
    · -- the record before is relinked to what the released one led to
      have hnext : (unlink t (prevOf (-1) l) x).next a = t.next x := by
        unfold Tables.next
        rw [hp.2, unlink_gmem_prev (hp.2 ▸ hax) hp.1]
        rfl
      rw [hnext]
      exact Or.inl (hreach.next hhit.1)
    · have hsame : (unlink t (prevOf (-1) l) x).next a = t.next a := by
        unfold Tables.next
        rw [unlink_gmem_ne hax fun hne he => hp ⟨hne, he⟩]
      rw [hsame]
      exact ha.next hs List.not_mem_nil hlive

/-! ## What an operation dereferences -/

section Emits

variable {P : Event → Prop} (hgmem : ∀ i, P (.gmem i)) (hset : ∀ i, P (.setRes i))

include hgmem

theorem lastRec_emits : Emits P (lastRec fuel g) t := by
  induction fuel generalizing g with
  | zero => exact emits_fail
  | succ fuel ih =>
      refine emits_bind.mpr ⟨ptrGmem_emits.mpr (hgmem g), ?_⟩
      intro r t' tr hr
      obtain ⟨rfl, rfl, rfl⟩ := ptrGmem_runs.mp hr
      split
      · exact emits_pure
      · exact ih

theorem linkRnodeGmem_emits : Emits P (linkRnodeGmem fuel s g) t := by
  refine emits_bind.mpr ⟨emits_read, ?_⟩
  intro entry t' tr _
  split
  · exact emits_update
  · refine emits_bind.mpr ⟨lastRec_emits hgmem, ?_⟩
    intro r t'' tr' _
    split
    · exact setNext_emits.mpr (hgmem r)
    · exact emits_pure

/-- `find_gmem` dereferences only variables of records in use that it reaches. -/
theorem findGmemFrom_emits (hhost : ∀ l i, t.Chain g l i → t.Live i → P (.host (t.gmem i).ptr)) :
    Emits P (findGmemFrom mem h fuel g) t := by
  induction fuel generalizing g with
  | zero => exact emits_fail
  | succ fuel ih =>
      refine emits_bind.mpr ⟨ptrGmem_emits.mpr (hgmem g), ?_⟩
      intro r t' tr hr
      obtain ⟨rfl, rfl, rfl⟩ := ptrGmem_runs.mp hr
      split
      · exact emits_pure
      · next he =>
        have hlive := not_not.mp fun hn => he (empty_iff_not_live.mpr hn)
        refine emits_bind.mpr ⟨deref_emits.mpr (hhost [] g rfl hlive), ?_⟩
        intro v t' tr hv
        obtain ⟨_, _, rfl, _⟩ := deref_runs.mp hv
        split
        · exact emits_pure
        · apply ih
          intro l i hc
          exact hhost (g :: l) i ⟨rfl, hlive, hc⟩

/-- So does `remove_gmem_by_dptr`. -/
theorem removeGmemByDptr_emits {prev : Int} (hs : t.Sentinel)
    (hhost : ∀ l i, t.Chain g l i → t.Live i → P (.host (t.gmem i).ptr)) :
    Emits P (removeGmemByDptr mem h fuel prev g) t := by
  induction fuel generalizing prev g t with
  | zero => exact emits_fail
  | succ fuel ih =>
      refine emits_bind.mpr ⟨ptrGmem_emits.mpr (hgmem g), ?_⟩
      intro r t' tr hr
      obtain ⟨rfl, rfl, rfl⟩ := ptrGmem_runs.mp hr
      split
      · exact emits_pure
      · next he =>
        have hlive := not_not.mp fun hn => he (empty_iff_not_live.mpr hn)
        refine emits_bind.mpr ⟨deref_emits.mpr (hhost [] g rfl hlive), ?_⟩
        intro v t' tr hv
        obtain ⟨_, rfl, rfl, _⟩ := deref_runs.mp hv
        refine emits_bind.mpr ⟨?_, ?_⟩
        · unfold releaseGmem unlinkGmem
          split
          · split
            · exact shallowDelete_emits.mpr (hgmem g)
            · simp only [emits_bind, ptrGmem_emits, setNext_emits, shallowDelete_emits]
              exact ⟨hgmem g, fun _ _ _ _ => ⟨hgmem prev, fun _ _ _ _ => hgmem g⟩⟩
          · exact emits_pure
        · intro u t' tr hbranch
          refine emits_bind.mpr ⟨ptrGmem_emits.mpr (hgmem g), ?_⟩
          intro r' t'' tr' hread
          obtain ⟨rfl, rfl, rfl⟩ := ptrGmem_runs.mp hread
          unfold releaseGmem at hbranch
          split at hbranch
          · -- after an unlinking the walk goes to `-1`, where nothing is in use
            obtain ⟨rfl, _⟩ := unlinkGmem_runs hbranch
            have hs' : (unlink t prev g).Sentinel := sentinel_unlink hs hlive
            rw [(unlink_gmem_self prev g).2]
            apply ih hs'
            intro l i hc hi
            exact absurd hi (hs'.not_live_of_walk hc fun _ hi => hi)
          · obtain ⟨_, rfl, _⟩ := runs_pure.mp hbranch
            apply ih hs
            intro l i hc
            exact hhost (g :: l) i ⟨rfl, hlive, hc⟩

/-- `remove_gmem` dereferences only variables of records its process reaches. -/
theorem removeGmem_emits (hs : t.Sentinel) (hhost : ∀ s, findRnode d t key = some s →
      ∀ i, Reaches t s i → t.Live i → P (.host (t.gmem i).ptr)) :
    Emits P (removeGmem d fuel key mem h) t := by
  refine emits_bind.mpr ⟨printGmem_emits fun i _ => hgmem i, ?_⟩
  intro u t' tr hprint
  obtain ⟨rfl, _⟩ := printGmem_runs hprint
  refine emits_bind.mpr ⟨emits_read, ?_⟩
  intro rn t' tr hfind
  obtain ⟨rfl, rfl, _⟩ := runs_read.mp hfind
  split
  · exact emits_pure
  · next s hsome =>
    refine emits_bind.mpr ⟨emits_read, ?_⟩
    intro entry t' tr hentry
    obtain ⟨rfl, rfl, _⟩ := runs_read.mp hentry
    apply removeGmemByDptr_emits hgmem hs
    intro l i hc
    exact hhost s hsome i ⟨l, hc⟩

include hset

theorem registerGmem_emits {rn : Option Nat} (hp : P (.host p)) (hhost : ∀ s, rn = some s →
      ∀ i, Reaches t s i → t.Live i → P (.host (t.gmem i).ptr)) :
    Emits P (registerGmem d fuel mem rn p n) t := by
  refine emits_bind.mpr ⟨deref_emits.mpr hp, ?_⟩
  intro v t' tr hv
  obtain ⟨_, rfl, rfl, _⟩ := deref_runs.mp hv
  cases rn with
  | none => exact emits_bind.mpr ⟨emits_fail, fun _ _ _ hr => absurd hr runs_fail⟩
  | some s =>
      refine emits_bind.mpr ⟨emits_pure, ?_⟩
      intro s' t' tr hr
      obtain ⟨rfl, rfl, _⟩ := runs_pure.mp hr
      refine emits_bind.mpr ⟨?_, ?_⟩
      · refine emits_bind.mpr ⟨emits_read, ?_⟩
        intro entry t' tr hentry
        obtain ⟨rfl, rfl, _⟩ := runs_read.mp hentry
        apply findGmemFrom_emits hgmem
        intro l i hc
        exact hhost s rfl i ⟨l, hc⟩
      · intro found t' tr _
        split
        · refine emits_bind.mpr ⟨pushGmem_emits (fun i _ => ⟨hgmem i, hset i⟩) _, ?_⟩
          intro _ _ _ _
          exact linkRnodeGmem_emits hgmem
        · refine emits_bind.mpr ⟨setRes_emits.mpr (hset found), ?_⟩
          intro _ _ _ _
          exact linkRnodeGmem_emits hgmem

/-- `add_gmem` dereferences only its argument and variables of records its process reaches. -/
theorem addGmem_emits (hs : t.Sentinel) (hp : P (.host p))
    (hhost : ∀ s, findRnode d t key = some s →
      ∀ i, Reaches t s i → t.Live i → P (.host (t.gmem i).ptr)) :
    Emits P (addGmem d fuel key mem p n) t := by
  refine emits_bind.mpr ⟨emits_read, ?_⟩
  intro rn t' tr hfind
  obtain ⟨rfl, rfl, _⟩ := runs_read.mp hfind
  split
  · next s hsome =>
    apply registerGmem_emits hgmem hset hp
    intro s' hs'
    exact hhost s' (hsome.trans hs')
  · refine emits_bind.mpr ⟨?_, ?_⟩
    · refine emits_bind.mpr ⟨emits_read, ?_⟩
      intro pos t' tr _
      split
      · exact emits_bind.mpr ⟨emits_update, fun _ _ _ _ => emits_pure⟩
      · exact emits_pure
    · intro rn t' tr hins
      apply registerGmem_emits hgmem hset hp
      -- a slot that was just made reaches no record
      intro s hs' i hreach hlive
      obtain ⟨_, _, _, _, hpos, hput, _⟩ := runs_bind.mp hins
      obtain ⟨rfl, rfl, _⟩ := runs_read.mp hpos
      split at hput
      · obtain ⟨_, _, _, _, hupd, hret, _⟩ := runs_bind.mp hput
        obtain ⟨rfl, _⟩ := runs_update.mp hupd
        obtain ⟨rfl, rfl, _⟩ := runs_pure.mp hret
        obtain rfl := Option.some.inj hs'
        obtain ⟨l, hc⟩ := hreach
        rw [putRnode_entry_self, RNode.new_resEntryIdx] at hc
        exact absurd hlive (hs.not_live_of_walk hc fun _ hi => hi)
      · obtain ⟨rfl, _, _⟩ := runs_pure.mp hput
        cases hs'

end Emits

end Vcuda.RNM
