import Vcuda.Rnm.Steps

/-!
# What every history keeps

Three properties no operation ever breaks, whatever the processes do: index `-1` keeps reading as an
empty record (`Step.sentinel`), every index stored in the tables is `-1` or in range
(`Step.wired`), and the process table stays a sound open-addressed table (`Step.keyed`). The last
gives each process one slot for ever.
-/

namespace Vcuda.RNM

open Traced Tables Probing

variable {d : Dims} {t t' t₁ : Tables} {key : PidSt} {mem : HostMem} {h : Handle} {p : Ptr}
  {n : UInt64} {tr : List Event} {u : Unit} {fuel : Nat} {op : Op} {s s' : Nat} {g : Int}

/-! ## Steps read back -/

/-- The sum over the records of one process only reads. -/
theorem gmemUsedChain_runs {i : Nat} {gi : Int} {used r : UInt64}
    (hr : Runs (gmemUsedChain i fuel gi used) t r t' tr) : t = t' ∧ registered tr = [] := by
  induction fuel generalizing gi used tr with
  | zero => exact absurd hr runs_fail
  | succ fuel ih =>
      rw [gmemUsedChain] at hr
      split at hr
      · obtain ⟨_, _, _, tr₁, hread, hrest, rfl⟩ := runs_bind.mp hr
        obtain ⟨rfl, rfl, rfl⟩ := ptrGmem_runs.mp hread
        obtain ⟨_, _, _, tr₂, hread', hrec, rfl⟩ := runs_bind.mp hrest
        obtain ⟨rfl, rfl, rfl⟩ := ptrGmem_runs.mp hread'
        obtain ⟨rfl, hreg⟩ := ih hrec
        exact ⟨rfl, by simpa using hreg⟩
      · obtain ⟨_, rfl, rfl⟩ := runs_pure.mp hr
        exact ⟨rfl, rfl⟩

/-- `gmem_used` only reads. -/
theorem gmemUsed_runs {pe : RNode → Bool} {r : UInt64}
    (hr : Runs (gmemUsed d fuel pe) t r t' tr) : t = t' ∧ registered tr = [] := by
  unfold gmemUsed at hr
  generalize List.range d.lenRnode = is, (0 : UInt64) = used at hr
  induction is generalizing used tr with
  | nil =>
      obtain ⟨_, rfl, rfl⟩ := runs_pure.mp hr
      exact ⟨rfl, rfl⟩
  | cons i is ih =>
      obtain ⟨_, _, _, tr₁, hread, hrest, rfl⟩ := runs_bind.mp hr
      obtain ⟨rfl, rfl, rfl⟩ := runs_read.mp hread
      split at hrest
      · obtain ⟨_, _, _, tr₂, hchain, hrec, rfl⟩ := runs_bind.mp hrest
        obtain ⟨rfl, hreg₁⟩ := gmemUsedChain_runs hchain
        obtain ⟨rfl, hreg₂⟩ := ih _ hrec
        exact ⟨rfl, by simp [hreg₁, hreg₂]⟩
      · obtain ⟨rfl, hreg⟩ := ih _ hrest
        exact ⟨rfl, by simpa using hreg⟩

/-- An `add_gmem` gets the caller a slot, and registers its variable there. -/
theorem step_addGmem (hs : t.Sentinel) (hstep : Step d t (.addGmem key mem p n) t') :
    p ≠ 0 ∧ ∃ s t₁ reg, Acquires d t key s t₁ ∧ Registers d t₁ mem s p n t' reg := by
  obtain ⟨fuel, tr, hr⟩ := hstep
  obtain ⟨hp, s, t₁, hacq, hreg⟩ := addGmem_runs hs hr
  exact ⟨hp, s, t₁, _, hacq, hreg⟩

/-- A `remove_gmem` does nothing, or cuts out the record that its search ends at. -/
theorem step_removeGmem (hs : t.Sentinel) (hstep : Step d t (.removeGmem key mem h) t') :
    (findRnode d t key = none ∧ t' = t) ∨
    ∃ s l x, findRnode d t key = some s ∧ Walk t.next (t.Miss mem h) (t.entry s) l x ∧
      ((¬ t.Live x ∧ t' = t) ∨ (t.Hit mem h x ∧ t' = unlink t (prevOf (-1) l) x)) := by
  obtain ⟨fuel, tr, hr⟩ := hstep
  obtain ⟨_, hnone | ⟨s, hfind, l, x, hwalk, hx⟩⟩ := removeGmem_runs hs hr
  · exact Or.inl hnone
  · exact Or.inr ⟨s, l, x, hfind, hwalk, hx⟩

/-- A handle that a search finds goes off the list there. -/
theorem step_removeGmem_of_hit {l : List Int} {x : Int} (hs : t.Sentinel)
    (hfind : findRnode d t key = some s) (hwalk : Walk t.next (t.Miss mem h) (t.entry s) l x)
    (hhit : t.Hit mem h x) (hstep : Step d t (.removeGmem key mem h) t') :
    t' = unlink t (prevOf (-1) l) x := by
  rcases step_removeGmem hs hstep with ⟨hnone, _⟩ | ⟨s', m, y, hfind', hwalk', hy⟩
  · cases hfind.symm.trans hnone
  · obtain rfl := Option.some.inj (hfind.symm.trans hfind')
    rcases hy with ⟨hy, _⟩ | ⟨hy, rfl⟩
    · exact absurd ⟨l, hwalk, hhit⟩ (not_findsAt_of_walk hwalk' hy)
    · obtain ⟨rfl, rfl⟩ := hwalk.unique hhit.not_miss hwalk' hy.not_miss
      rfl

/-- A `delete_rnode` marks the slot that its search finds. -/
theorem step_deleteRnode (hstep : Step d t (.deleteRnode key) t') :
    (findRnode d t key = none ∧ t' = t) ∨
    ∃ s, findRnode d t key = some s ∧ t' = t.putRnode s (t.rnode s).shallowDelete := by
  obtain ⟨fuel, tr, hr⟩ := hstep
  exact deleteRnode_runs hr

/-- A `gmem_used` leaves the tables as they are. -/
theorem step_gmemUsed {pe : RNode → Bool} (hstep : Step d t (.gmemUsed pe) t') : t' = t := by
  obtain ⟨fuel, tr, hr⟩ := hstep
  obtain ⟨_, _, _, tr₁, hused, hret, rfl⟩ := runs_bind.mp hr
  obtain ⟨rfl, _⟩ := gmemUsed_runs hused
  obtain ⟨_, rfl, _⟩ := runs_pure.mp hret
  rfl

/-! ## Index `-1` -/

/-- Linking changes a record in use, which index `-1` is not. -/
theorem Links.sentinel (hs : t.Sentinel) (hl : Links t s g t') : t'.Sentinel := by
  rcases hl with ⟨_, rfl⟩ | ⟨_, l, r, _, htail, ⟨_, rfl⟩ | ⟨_, rfl⟩⟩
  · exact hs.congr rfl
  · exact hs
  · exact hs.modifyGmem (ne_sentinel_of_live hs htail.1)

/-- A registration takes a record of the table, or one in use. -/
theorem Registers.sentinel {reg : List Int} (hs : t.Sentinel)
    (hr : Registers d t mem s p n t' reg) : t'.Sentinel := by
  obtain ⟨l, x, _, ⟨_, j, hj, hlinks, _⟩ | ⟨_, _, hlinks, _⟩ | ⟨hhit, hlinks, _⟩⟩ := hr
  · have hne : (j : Int) ≠ -1 := by omega
    exact hlinks.sentinel (hs.modifyGmem hne)
  · exact hlinks.sentinel hs
  · exact hlinks.sentinel (hs.modifyGmem (ne_sentinel_of_live hs hhit.1))

/-- **Index `-1` keeps reading as an empty record.** -/
theorem Step.sentinel (hs : t.Sentinel) (hstep : Step d t op t') : t'.Sentinel := by
  cases op with
  | addGmem key mem p n =>
      obtain ⟨_, s, t₁, reg, hacq, hreg⟩ := step_addGmem hs hstep
      have hs₁ : t₁.Sentinel := hs.congr (by rw [hacq.gmem])
      exact hreg.sentinel hs₁
  | removeGmem key mem h =>
      rcases step_removeGmem hs hstep with ⟨_, rfl⟩ | ⟨s, l, x, _, _, ⟨_, rfl⟩ | ⟨hhit, rfl⟩⟩
      · exact hs
      · exact hs
      · exact sentinel_unlink hs hhit.1
  | deleteRnode key =>
      rcases step_deleteRnode hstep with ⟨_, rfl⟩ | ⟨s, _, rfl⟩
      · exact hs
      · exact hs.congr rfl
  | gmemUsed pe =>
      rw [step_gmemUsed hstep]
      exact hs

/-! ## The process table -/

/-- The process table is a sound open-addressed table: every process is found where it is, and
nowhere else. -/
structure Keyed (d : Dims) (t : Tables) : Prop where
  reachable : Reachable (probes d) (slots d t)
  unique : Unique (slots d t)

/-- The search finds a process in its slot, and nowhere else. -/
theorem Keyed.findRnode_eq_some_iff (hk : Keyed d t) :
    findRnode d t key = some s ↔ Exists d t s ∧ t.keyOf s = key := by
  constructor
  · exact findRnode_eq_some
  · intro hs
    rw [findRnode_eq_lookup]
    exact lookup_eq_some_of_full hk.reachable hk.unique (slots_eq_full.mpr hs)

/-- It is enough that every process is found where it is. -/
theorem keyed_of_found (hfound : ∀ s, Exists d t s → findRnode d t (t.keyOf s) = some s) :
    Keyed d t := by
  have hlookup : ∀ s key, slots d t s = .full key →
      lookup (slots d t) key (probes d key) = some s := by
    intro s key hs
    obtain ⟨hex, rfl⟩ := slots_eq_full.mp hs
    rw [← findRnode_eq_lookup]
    exact hfound s hex
  constructor
  · intro s key hs
    obtain ⟨pre, post, hpath, hpre, _⟩ := lookup_eq_some_iff.mp (hlookup s key hs)
    exact ⟨pre, post, hpath, fun q hq => (hpre q hq).1⟩
  · intro s s' key hs hs'
    exact Option.some.inj ((hlookup s key hs).symm.trans (hlookup s' key hs'))

/-- A slot on the probe path that no process occupies is one that `insert_rnode` can take. -/
theorem exists_insertPos_of_not_exists (hs : s ∈ probes d key) (hex : ¬ Exists d t s) :
    ∃ s', insertPos d t key = some s' := by
  rw [insertPos_eq_place]
  apply exists_place_of_vacant hs
  cases hslot : slots d t s with
  | never => exact Or.inl rfl
  | tomb => exact Or.inr rfl
  | full key' => exact absurd (slots_eq_full.mp hslot).1 hex

theorem Keyed.congr (hk : Keyed d t) (hslots : slots d t' = slots d t) : Keyed d t' :=
  ⟨by rw [hslots]; exact hk.reachable, by rw [hslots]; exact hk.unique⟩

/-- Linking leaves it open who is in which slot: it changes `res_entry_idx` at most. -/
theorem Links.slots (hl : Links t s g t') : slots d t' = slots d t := by
  rcases hl with ⟨_, rfl⟩ | ⟨_, l, r, _, _, ⟨_, rfl⟩ | ⟨_, rfl⟩⟩
  · exact slots_setEntry
  · rfl
  · rfl

theorem Registers.slots {reg : List Int} (hr : Registers d t mem s p n t' reg) :
    slots d t' = slots d t := by
  obtain ⟨l, x, _, ⟨_, j, _, hlinks, _⟩ | ⟨_, _, hlinks, _⟩ | ⟨_, hlinks, _⟩⟩ := hr
  · rw [hlinks.slots]
    rfl
  · exact hlinks.slots
  · rw [hlinks.slots]
    rfl

/-- `insert_rnode` fills the slot it has found. -/
theorem slots_new (hpos : insertPos d t key = some s) :
    slots d (t.putRnode s (RNode.new key.1 key.2 (-1))) =
      Function.update (slots d t) s (.full key) := by
  rw [slots_putRnode (insertPos_lt hpos)]
  rfl

/-- The slot `add_gmem` works on is the caller's, now. -/
theorem Acquires.full (hacq : Acquires d t key s t₁) : slots d t₁ s = .full key := by
  rcases hacq with ⟨hfind, rfl⟩ | ⟨_, hpos, rfl⟩
  · exact slots_eq_full.mpr (findRnode_eq_some hfind)
  · rw [slots_new hpos, Function.update_self]

/-- Acquiring a slot takes no slot from another process. -/
theorem Acquires.slots_of_full {key' : PidSt} (hacq : Acquires d t key s t₁)
    (hfull : slots d t s' = .full key') : slots d t₁ s' = .full key' := by
  rcases hacq with ⟨_, rfl⟩ | ⟨hfind, hpos, rfl⟩
  · exact hfull
  · have hne : s' ≠ s := by
      intro he
      subst he
      exact not_exists_of_insertPos hfind hpos (slots_eq_full.mp hfull).1
    rw [slots_new hpos, Function.update_of_ne hne]
    exact hfull

/-- The slot is taken where a search of the new process comes to first. -/
theorem Acquires.keyed (hk : Keyed d t) (hacq : Acquires d t key s t₁) : Keyed d t₁ := by
  rcases hacq with ⟨_, rfl⟩ | ⟨hfind, hpos, rfl⟩
  · exact hk
  · rw [insertPos_eq_place] at hpos
    rw [findRnode_eq_lookup] at hfind
    have hslots := slots_new ((insertPos_eq_place (d := d)).trans hpos)
    constructor
    · rw [hslots]
      exact hk.reachable.update_place hpos
    · rw [hslots]
      exact hk.unique.update_place hk.reachable hfind

/-- A release gives no slot back. -/
theorem step_removeGmem_slots (hs : t.Sentinel) (hstep : Step d t (.removeGmem key mem h) t') :
    slots d t' = slots d t := by
  rcases step_removeGmem hs hstep with ⟨_, rfl⟩ | ⟨s, l, x, _, _, ⟨_, rfl⟩ | ⟨_, rfl⟩⟩
  · rfl
  · rfl
  · apply slots_congr
    intro s' _
    rw [unlink_rnode]

/-- **The process table stays a sound open-addressed table**, as long as no process is deleted. -/
theorem Step.keyed (hs : t.Sentinel) (hk : Keyed d t) (hstep : Step d t op t')
    (hop : op.IsAccounting) : Keyed d t' := by
  cases op with
  | addGmem key mem p n =>
      obtain ⟨_, s, t₁, reg, hacq, hreg⟩ := step_addGmem hs hstep
      exact (hacq.keyed hk).congr hreg.slots
  | removeGmem key mem h => exact hk.congr (step_removeGmem_slots hs hstep)
  | deleteRnode key => exact absurd hop id
  | gmemUsed pe =>
      rw [step_gmemUsed hstep]
      exact hk

theorem slots_of_fresh (hf : Fresh d t) (s : Nat) : slots d t s = .never := by
  unfold slots
  split
  · next hs =>
    rw [hf.rnode s hs]
    rfl
  · rfl

theorem not_exists_of_fresh (hf : Fresh d t) : ¬ Exists d t s := by
  intro hex
  have hfull := slots_eq_full.mpr ⟨hex, rfl⟩
  rw [slots_of_fresh hf] at hfull
  cases hfull

/-- A fresh process table is sound, having no process in it. -/
theorem keyed_of_fresh (hf : Fresh d t) : Keyed d t := by
  constructor
  · intro s key hs
    exact absurd (slots_eq_full.mp hs).1 (not_exists_of_fresh hf)
  · intro s s' key hs
    exact absurd (slots_eq_full.mp hs).1 (not_exists_of_fresh hf)

theorem Registers.exists_iff {reg : List Int} (hr : Registers d t mem s p n t' reg) :
    Exists d t' s' ↔ Exists d t s' := exists_congr hr.slots

theorem Acquires.exists_self (hacq : Acquires d t key s t₁) : Exists d t₁ s :=
  (slots_eq_full.mp hacq.full).1

/-- Deleting a process frees its slot and no other. -/
theorem exists_shallowDelete :
    Exists d (t.putRnode s (t.rnode s).shallowDelete) s' ↔ s' ≠ s ∧ Exists d t s' := by
  by_cases hne : s' = s
  · subst hne
    simp [Exists]
  · rw [exists_putRnode_ne hne]
    simp [hne]

/-- The other slots stay as they are. -/
theorem Acquires.rnode_of_ne (hacq : Acquires d t key s t₁) (hne : s' ≠ s) :
    t₁.rnode s' = t.rnode s' := by
  rcases hacq with ⟨_, rfl⟩ | ⟨_, _, rfl⟩
  · rfl
  · exact putRnode_rnode_ne hne

theorem Acquires.entry_of_ne (hacq : Acquires d t key s t₁) (hne : s' ≠ s) :
    t₁.entry s' = t.entry s' := entry_of_rnode (hacq.rnode_of_ne hne)

theorem Acquires.exists_of_ne (hacq : Acquires d t key s t₁) (hne : s' ≠ s) :
    Exists d t₁ s' ↔ Exists d t s' := exists_of_rnode (hacq.rnode_of_ne hne)

theorem Acquires.live_iff {i : Int} (hacq : Acquires d t key s t₁) : t₁.Live i ↔ t.Live i := by
  unfold Tables.Live
  rw [hacq.gmem]

theorem Acquires.firstEmpty_eq (hacq : Acquires d t key s t₁) :
    firstEmpty d t₁ = firstEmpty d t := firstEmpty_congr fun _ _ => hacq.live_iff

theorem Acquires.keyOf_self (hacq : Acquires d t key s t₁) : t₁.keyOf s = key :=
  (slots_eq_full.mp hacq.full).2

/-- Linking changes no slot but the caller's. -/
theorem Links.rnode_of_ne (hl : Links t s g t') (hne : s' ≠ s) : t'.rnode s' = t.rnode s' := by
  rcases hl with ⟨_, rfl⟩ | ⟨_, l, r, _, _, ⟨_, rfl⟩ | ⟨_, rfl⟩⟩
  · exact setEntry_rnode_ne hne
  · rfl
  · rfl

/-- Neither does a registration. -/
theorem Registers.rnode_of_ne {reg : List Int} (hr : Registers d t mem s p n t' reg)
    (hne : s' ≠ s) : t'.rnode s' = t.rnode s' := by
  obtain ⟨l, x, _, ⟨_, j, _, hl, _⟩ | ⟨_, _, hl, _⟩ | ⟨_, hl, _⟩⟩ := hr
  · exact hl.rnode_of_ne hne
  · exact hl.rnode_of_ne hne
  · exact hl.rnode_of_ne hne

@[simp] theorem unlink_exists {prev : Int} : Exists d (unlink t prev g) s ↔ Exists d t s :=
  exists_of_rnode (by rw [unlink_rnode])

/-! ## Indices in the tables -/

/-- What `res_entry_idx` and `next` may hold. -/
def Indexed (d : Dims) (i : Int) : Prop := i = -1 ∨ InRange d i

/-- Every index in the tables is `-1` or in range, and an empty record links nowhere. -/
structure Wired (d : Dims) (t : Tables) : Prop where
  entry : ∀ s, Exists d t s → Indexed d (t.entry s)
  next : ∀ g, InRange d g → Indexed d (t.next g)
  empty : ∀ g, InRange d g → ¬ t.Live g → t.next g = -1

/-- A walk never leaves the table, except to `-1`. -/
theorem Wired.walk {P : Int → Prop} {i j : Int} {l : List Int} (hs : t.Sentinel)
    (hw : Wired d t) (hi : Indexed d i) (hwalk : Walk t.next P i l j) : Indexed d j := by
  induction l generalizing i with
  | nil =>
      have hij : i = j := hwalk
      rw [← hij]
      exact hi
  | cons a l ih =>
      obtain ⟨rfl, _, hrest⟩ := hwalk
      apply ih _ hrest
      rcases hi with rfl | hi
      · exact Or.inl hs.next
      · exact hw.next i hi

theorem Wired.inRange_of_live (hs : t.Sentinel) (hi : Indexed d g) (hg : t.Live g) :
    InRange d g := hi.resolve_left (ne_sentinel_of_live hs hg)

/-- A new process points at `-1`. -/
theorem Acquires.wired (hw : Wired d t) (hacq : Acquires d t key s t₁) : Wired d t₁ := by
  refine ⟨?_, ?_, ?_⟩
  · intro s' hs'
    by_cases hne : s' = s
    · subst hne
      rcases hacq with ⟨_, rfl⟩ | ⟨_, _, rfl⟩
      · exact hw.entry s' hs'
      · exact Or.inl (by simp [Tables.entry])
    · rw [hacq.entry_of_ne hne]
      exact hw.entry s' ((hacq.exists_of_ne hne).mp hs')
  · intro g hg
    unfold Tables.next
    rw [hacq.gmem]
    exact hw.next g hg
  · intro g hg hlive
    unfold Tables.next Tables.Live at *
    rw [hacq.gmem] at *
    exact hw.empty g hg hlive

/-- A change of one record keeps the indices if its own is right, and `-1` when it is empty. -/
theorem Wired.modifyGmem {f : GMem → GMem} (hw : Wired d t) (hnext : Indexed d (f (t.gmem g)).next)
    (hempty : (f (t.gmem g)).ptr = 0 → (f (t.gmem g)).next = -1) :
    Wired d (t.modifyGmem g f) := by
  refine ⟨hw.entry, ?_, ?_⟩
  · intro i hi
    by_cases hig : i = g
    · subst hig
      rw [modifyGmem_next_self]
      exact hnext
    · rw [modifyGmem_next_ne hig]
      exact hw.next i hi
  · intro i hi hlive
    by_cases hig : i = g
    · subst hig
      rw [modifyGmem_live_self, not_not] at hlive
      rw [modifyGmem_next_self]
      exact hempty hlive
    · rw [modifyGmem_live_ne hig] at hlive
      rw [modifyGmem_next_ne hig]
      exact hw.empty i hi hlive

/-- What is linked is a record of the table, or `-1`. -/
theorem Links.wired (hw : Wired d t) (hg : Indexed d g) (hl : Links t s g t') : Wired d t' := by
  rcases hl with ⟨_, rfl⟩ | ⟨_, l, r, _, htail, ⟨_, rfl⟩ | ⟨_, rfl⟩⟩
  · refine ⟨?_, hw.next, hw.empty⟩
    intro s' hs'
    by_cases hne : s' = s
    · subst hne
      rw [setEntry_entry_self]
      exact hg
    · rw [setEntry_entry_ne hne]
      exact hw.entry s' ((exists_congr slots_setEntry).mp hs')
  · exact hw
  · exact hw.modifyGmem hg fun hptr => absurd hptr htail.1

/-- The record that is registered is new, or the walk has come to it. -/
theorem Registers.wired {reg : List Int} (hs : t.Sentinel) (hw : Wired d t) (hex : Exists d t s)
    (hp : p ≠ 0) (hr : Registers d t mem s p n t' reg) : Wired d t' := by
  obtain ⟨l, x, hwalk, ⟨_, j, hj, hlinks, _⟩ | ⟨_, _, hlinks, _⟩ | ⟨hhit, hlinks, _⟩⟩ := hr
  · have hjr : InRange d j := inRange_natCast.mpr (firstEmpty_eq_some.mp hj).1
    have hnew : Wired d (putNew t j p n) := hw.modifyGmem (Or.inl rfl) fun _ => rfl
    exact hlinks.wired hnew (Or.inr hjr)
  · exact hlinks.wired hw (Or.inl rfl)
  · have hx : Indexed d x := hw.walk hs (hw.entry s hex) hwalk
    have hxr := Wired.inRange_of_live hs hx hhit.1
    have hset : Wired d (t.modifyGmem x (·.setRes p n)) :=
      hw.modifyGmem (hw.next x hxr) fun hptr => absurd hptr hp
    exact hlinks.wired hset hx

/-- The record before takes the link of the one released, which then links to `-1`. -/
theorem wired_unlink {prev x : Int} (hw : Wired d t) (hx : InRange d x)
    (hprev : prev ≠ -1 → t.Live prev) : Wired d (unlink t prev x) := by
  unfold unlink
  split
  · exact hw.modifyGmem (Or.inl rfl) fun _ => rfl
  · next hne =>
    have hrelink : Wired d (t.modifyGmem prev (·.setNext (t.next x))) :=
      hw.modifyGmem (hw.next x hx) fun hptr => absurd hptr (hprev hne)
    exact hrelink.modifyGmem (Or.inl rfl) fun _ => rfl

/-- The record before a hit, if there is one, is in use. -/
theorem prevOf_live {l : List Int} {i x : Int} (hwalk : Walk t.next (t.Miss mem h) i l x)
    (hne : prevOf (-1) l ≠ -1) : t.Live (prevOf (-1) l) := by
  rcases List.eq_nil_or_concat' l with rfl | ⟨l₀, a, rfl⟩
  · exact absurd rfl hne
  · rw [prevOf_snoc]
    exact (hwalk.live_of_mem a (by simp)).1

/-- **Every index in the tables stays `-1` or in range.** -/
theorem Step.wired (hs : t.Sentinel) (hw : Wired d t) (hstep : Step d t op t') : Wired d t' := by
  cases op with
  | addGmem key mem p n =>
      obtain ⟨hp, s, t₁, reg, hacq, hreg⟩ := step_addGmem hs hstep
      have hs₁ : t₁.Sentinel := hs.congr (by rw [hacq.gmem])
      exact hreg.wired hs₁ (hacq.wired hw) hacq.exists_self hp
  | removeGmem key mem h =>
      rcases step_removeGmem hs hstep with
        ⟨_, rfl⟩ | ⟨s, l, x, hfind, hwalk, ⟨_, rfl⟩ | ⟨hhit, rfl⟩⟩
      · exact hw
      · exact hw
      · have hx : Indexed d x := hw.walk hs (hw.entry s (findRnode_eq_some hfind).1) hwalk
        exact wired_unlink hw (Wired.inRange_of_live hs hx hhit.1) (prevOf_live hwalk)
  | deleteRnode key =>
      rcases step_deleteRnode hstep with ⟨_, rfl⟩ | ⟨s, _, rfl⟩
      · exact hw
      · refine ⟨?_, hw.next, hw.empty⟩
        intro s' hs'
        obtain ⟨hne, hs'⟩ := exists_shallowDelete.mp hs'
        rw [putRnode_entry_ne hne]
        exact hw.entry s' hs'
  | gmemUsed pe =>
      rw [step_gmemUsed hstep]
      exact hw

/-- All indices of fresh tables are `-1`. -/
theorem wired_of_fresh (hf : Fresh d t) : Wired d t := by
  refine ⟨?_, ?_, ?_⟩
  · intro s hs
    exact absurd hs (not_exists_of_fresh hf)
  · intro g hg
    unfold Tables.next
    rw [hf.gmem g hg]
    exact Or.inl rfl
  · intro g hg _
    unfold Tables.next
    rw [hf.gmem g hg]
    rfl

end Vcuda.RNM
