import Vcuda.Rnm.RecordLists
import Vcuda.Rnm.Stores

/-!
# Processes that are killed

A process can be killed between any two stores of a call. The others do not notice: they keep their
slots, are found there and keep their lists, and at most one record is in use that was not
(`others_kept_of_kill`).

What a history does to the lists of the processes that are left is decided by the calls that return,
however many processes were killed and wherever (`survivors_iff_keepsLists`).
-/

namespace Vcuda.RNM

open Traced Tables Probing

/-- The tables, and the processes that were killed. -/
structure World where
  tables : Tables
  dead : List PidSt

/-- A call that returns, or one in which its process is killed. -/
inductive Act where
  | call (op : Op)
  | kill (op : Op)

def Act.op : Act → Op
  | .call op => op
  | .kill op => op

/-- A killed process makes no further call. -/
def World.Step (d : Dims) (w : World) (act : Act) (w' : World) : Prop :=
  ∃ k, act.op.caller = some k ∧ k ∉ w.dead ∧
    match act with
    | .call op => RNM.Step d w.tables op w'.tables ∧ w'.dead = w.dead
    | .kill op => ∃ fuel l, l <+: op.stores d fuel w.tables ∧
        w' = ⟨applyAll w.tables l, k :: w.dead⟩

/-- The slot is that of a process that was not killed. -/
def World.Alive (d : Dims) (w : World) (s : Nat) : Prop :=
  Exists d w.tables s ∧ w.tables.keyOf s ∉ w.dead

/-- The lists `c` are those of the processes that are left. -/
structure Survivors (d : Dims) (w : World) (c : Nat → List Int) : Prop where
  sentinel : w.tables.Sentinel
  keyed : Keyed d w.tables
  chain : ∀ s, w.Alive d s → w.tables.Chain (w.tables.entry s) (c s) (-1)
  disjoint : ∀ s s', w.Alive d s → w.Alive d s' → s ≠ s' → (c s).Disjoint (c s')

/-- What a process `key` that gets to `t'` leaves to the others. -/
structure Spares (d : Dims) (w : World) (key : PidSt) (c : Nat → List Int) (t' : Tables) :
    Prop where
  sentinel : t'.Sentinel
  keyed : Keyed d t'
  rnode : ∀ s, Exists d w.tables s → w.tables.keyOf s ≠ key → t'.rnode s = w.tables.rnode s
  old : ∀ s, Exists d t' s → t'.keyOf s ≠ key → Exists d w.tables s ∧ w.tables.keyOf s ≠ key
  gmem : ∀ s, w.Alive d s → w.tables.keyOf s ≠ key → ∀ g ∈ c s, t'.gmem g = w.tables.gmem g
  fresh : ∃ g, ∀ x, t'.Live x → ¬ w.tables.Live x → x = g

variable {d : Dims} {t t' : Tables} {key : PidSt} {mem : HostMem} {h : Handle} {p : Ptr}
  {n : UInt64} {op : Op} {s s' fuel : Nat} {g x : Int} {l l₁ l₂ : List Store} {st : Store}
  {c : Nat → List Int}

/-! ## What they are made to -/

/-- The store is to the slot `s`, to a record of `m`, or to the first empty record. -/
def Store.Within (d : Dims) (t : Tables) (s : Nat) (m : List Int) : Store → Prop
  | .rnode s' _ => s' = s
  | .gmem g _ => g ∈ m ∨ ∃ j : Nat, firstEmpty d t = some j ∧ g = j

/-- The store does not change who is in a slot. -/
def Store.Quiet : Store → Prop
  | .rnode _ f => ∀ rn, slotOf (f rn) = slotOf rn
  | .gmem _ _ => True

theorem applyAll_rnode {m : List Int} (hl : ∀ st ∈ l, st.Within d t s m) (hne : s' ≠ s) :
    (applyAll t' l).rnode s' = t'.rnode s' := by
  induction l generalizing t' with
  | nil => rfl
  | cons st l ih =>
      obtain ⟨hst, hl⟩ := List.forall_mem_cons.mp hl
      show (applyAll (st.apply t') l).rnode s' = _
      rw [ih hl]
      cases st with
      | rnode s₁ f =>
          obtain rfl : s₁ = s := hst
          exact putRnode_rnode_ne hne
      | gmem g f => rfl

theorem applyAll_gmem {m : List Int} (hl : ∀ st ∈ l, st.Within d t s m) (hx : x ∉ m)
    (hfirst : ∀ j : Nat, firstEmpty d t = some j → x ≠ j) :
    (applyAll t' l).gmem x = t'.gmem x := by
  induction l generalizing t' with
  | nil => rfl
  | cons st l ih =>
      obtain ⟨hst, hl⟩ := List.forall_mem_cons.mp hl
      show (applyAll (st.apply t') l).gmem x = _
      rw [ih hl]
      cases st with
      | rnode s₁ f => rfl
      | gmem g f =>
          have hne : x ≠ g := by
            rintro rfl
            rcases hst with hmem | ⟨j, hj, hxj⟩
            · exact hx hmem
            · exact hfirst j hj hxj
          exact modifyGmem_gmem_ne hne

theorem slots_applyAll (hl : ∀ st ∈ l, st.Quiet) : slots d (applyAll t l) = slots d t := by
  induction l generalizing t with
  | nil => rfl
  | cons st l ih =>
      obtain ⟨hst, hl⟩ := List.forall_mem_cons.mp hl
      show slots d (applyAll (st.apply t) l) = _
      rw [ih hl]
      cases st with
      | rnode s f =>
          apply slots_congr
          intro s' _
          by_cases hne : s' = s
          · subst hne
            show slotOf ((t.putRnode s' (f (t.rnode s'))).rnode s') = _
            rw [putRnode_rnode_self]
            exact hst _
          · exact congrArg slotOf (putRnode_rnode_ne hne)
      | gmem g f => rfl

/-- From the first record of a list, `next` leads to its records only. -/
theorem reached_of_chain {P : Int → Prop} {m l : List Int} {y : Int} (hs : t.Sentinel)
    (hchain : t.Chain y m (-1)) (hwalk : Walk t.next P y l x) : x ∈ m ∨ x = -1 := by
  apply hwalk.mem_of_closed (S := fun x => x ∈ m ∨ x = -1)
  · cases m with
    | nil => exact Or.inr hchain
    | cons a m => exact Or.inl (hchain.1 ▸ List.mem_cons_self)
  · rintro g (hg | rfl) _
    · exact hchain.next_mem hg
    · exact Or.inr hs.next

/-- What the stores of the process are made to, and that they leave its slot to it. -/
def Store.Keeps (d : Dims) (t : Tables) (s : Nat) (m : List Int) (st : Store) : Prop :=
  st.Within d t s m ∧ st.Quiet

section

variable {m : List Int} {t₁ : Tables}

theorem linkStores_keeps (hs : t₁.Sentinel) (hchain : t₁.Chain (t₁.entry s) m (-1)) :
    ∀ st ∈ linkStores fuel s g t₁, st.Keeps d t s m := by
  unfold linkStores
  split
  · exact List.forall_mem_singleton.mpr ⟨rfl, fun _ => rfl⟩
  · split
    · next tailIdx hlast =>
      split
      · refine List.forall_mem_singleton.mpr ⟨Or.inl ?_, trivial⟩
        obtain ⟨_, _, l, hwalk, htail⟩ := lastRec_runs (runs_of_ok hlast)
        exact (reached_of_chain hs hchain hwalk).resolve_right (ne_sentinel_of_live hs htail.1)
      · exact List.forall_mem_nil _
    · exact List.forall_mem_nil _

theorem setResStores_keeps (hg : g ∈ m ∨ ∃ j : Nat, firstEmpty d t = some j ∧ g = j) :
    ∀ st ∈ setResStores g p n, st.Keeps d t s m :=
  List.forall_mem_cons.mpr ⟨⟨hg, trivial⟩, List.forall_mem_singleton.mpr ⟨hg, trivial⟩⟩

/-- In the tables with the slot of the process. -/
theorem registerStores_keeps (hs : t₁.Sentinel) (hchain : t₁.Chain (t₁.entry s) m (-1))
    (hgmem : t₁.gmem = t.gmem) : ∀ st ∈ registerStores d fuel mem s p n t₁, st.Keeps d t s m := by
  unfold registerStores
  split
  · exact List.forall_mem_nil _
  · next hp =>
    split
    · next found hfind =>
      obtain ⟨_, _, _, tr, hread, hfrom, _⟩ := runs_bind.mp (runs_of_ok hfind)
      obtain ⟨rfl, rfl, _⟩ := runs_read.mp hread
      obtain ⟨_, _, l, x, hwalk, hx⟩ := findGmemFrom_runs hfrom
      dsimp only
      by_cases hfound : found = -1
      · rw [if_pos hfound]
        unfold pushStores
        cases hj : firstEmpty d t₁ with
        | none => exact linkStores_keeps hs hchain
        | some j =>
            have hj' : firstEmpty d t = some j := by
              rw [← hj]
              refine firstEmpty_congr fun i _ => ?_
              unfold Tables.Live
              rw [hgmem]
            have hfirst : (j : Int) ∈ m ∨ ∃ j' : Nat, firstEmpty d t = some j' ∧ (j : Int) = j' :=
              Or.inr ⟨j, hj', rfl⟩
            have hne : (j : Int) ≠ -1 := by omega
            have hnew : (j : Int) ∉ m := fun hmem =>
              (firstEmpty_eq_some.mp hj).2.1 (hchain.live_of_mem _ hmem)
            dsimp only
            rw [applyAll_pushStores, List.forall_mem_append, List.forall_mem_append]
            have hnext : ∀ st ∈ [Store.gmem j (·.setNext (-1))], st.Keeps d t s m :=
              List.forall_mem_singleton.mpr ⟨hfirst, trivial⟩
            refine ⟨⟨setResStores_keeps hfirst, hnext⟩, ?_⟩
            exact linkStores_keeps (hs.modifyGmem hne) (hchain.modifyGmem hnew)
      · rw [if_neg hfound]
        obtain ⟨hhit, rfl⟩ := hx.resolve_left fun h => hfound h.2
        have hmem : found ∈ m :=
          (reached_of_chain hs hchain hwalk).resolve_right (ne_sentinel_of_live hs hhit.1)
        refine List.forall_mem_append.mpr ⟨setResStores_keeps (Or.inl hmem), ?_⟩
        rw [applyAll_setResStores]
        exact linkStores_keeps (hs.modifyGmem hfound) (hchain.setRes hp)
    · exact List.forall_mem_nil _

theorem removeStores_keeps {prev : Int} (hs : t₁.Sentinel)
    (hnext : ∀ x ∈ m, t₁.next x ∈ m ∨ t₁.next x = -1) (hprev : prev ≠ -1 → prev ∈ m)
    (hg : g ∈ m ∨ g = -1) : ∀ st ∈ removeStores mem h fuel prev g t₁, st.Keeps d t s m := by
  induction fuel generalizing prev g t₁ with
  | zero => exact List.forall_mem_nil _
  | succ fuel ih =>
      rw [removeStores]
      split
      · exact List.forall_mem_nil _
      · next hnot =>
        have hlive : t₁.Live g := fun hptr => hnot (GMem.empty_iff.mpr hptr)
        have hmem : g ∈ m := hg.resolve_right (ne_sentinel_of_live hs hlive)
        dsimp only
        rw [List.forall_mem_append]
        split
        · rw [applyAll_unlinkStores]
          constructor
          · have hdelete : ∀ st ∈ shallowDeleteStores g, st.Keeps d t s m :=
              List.forall_mem_cons.mpr ⟨⟨Or.inl hmem, trivial⟩,
                List.forall_mem_singleton.mpr ⟨Or.inl hmem, trivial⟩⟩
            unfold unlinkStores
            split
            · exact hdelete
            · next hne => exact List.forall_mem_cons.mpr ⟨⟨Or.inl (hprev hne), trivial⟩, hdelete⟩
          · have hself : (unlink t₁ prev g).next g = -1 := (unlink_gmem_self prev g).2
            refine ih (sentinel_unlink hs hlive) ?_ (fun _ => hmem) (Or.inr hself)
            intro x hx
            by_cases hxg : x = g
            · rw [hxg]
              exact Or.inr hself
            · by_cases hxp : prev ≠ -1 ∧ x = prev
              · obtain ⟨hne, rfl⟩ := hxp
                rw [Tables.next, unlink_gmem_prev hxg hne]
                exact hnext g hmem
              · rw [Tables.next, unlink_gmem_ne hxg fun hne he => hxp ⟨hne, he⟩]
                exact hnext x hx
        · exact ⟨List.forall_mem_nil _, ih hs hnext (fun _ => hmem) (hnext g hmem)⟩

end

/-! ## The first part of a call -/

/-- The stores of a call of process `key`: none, stores to its slot and its records, or first the
assignment to a free slot. -/
theorem stores_cases (hs : t.Sentinel)
    (hchain : ∀ s, findRnode d t key = some s → t.Chain (t.entry s) (c s) (-1)) (hop : op.IsBook)
    (hcaller : op.caller = some key) :
    op.stores d fuel t = [] ∨
    (∃ s, findRnode d t key = some s ∧ ∀ st ∈ op.stores d fuel t, st.Keeps d t s (c s)) ∨
    ∃ s l, findRnode d t key = none ∧ insertPos d t key = some s ∧
      op.stores d fuel t = assignStores s (RNode.new key.1 key.2 (-1)) ++ l ∧
      ∀ st ∈ l, st.Keeps d t s [] := by
  cases op with
  | addGmem key' mem p n =>
      obtain rfl := Option.some.inj hcaller
      rw [Op.stores]
      cases hfind : findRnode d t key' with
      | some s =>
          exact Or.inr (Or.inl ⟨s, rfl, registerStores_keeps hs (hchain s hfind) rfl⟩)
      | none =>
          cases hpos : insertPos d t key' with
          | none => exact Or.inl rfl
          | some s =>
              refine Or.inr (Or.inr ⟨s, _, rfl, rfl, rfl, ?_⟩)
              rw [applyAll_assignStores]
              exact registerStores_keeps (hs.congr rfl) putRnode_entry_self rfl
  | removeGmem key' mem h =>
      obtain rfl := Option.some.inj hcaller
      rw [Op.stores]
      cases hfind : findRnode d t key' with
      | none => exact Or.inl rfl
      | some s =>
          have hc := hchain s hfind
          refine Or.inr (Or.inl ⟨s, rfl, ?_⟩)
          apply removeStores_keeps hs (fun x hx => hc.next_mem hx) (fun hne => absurd rfl hne)
          exact reached_of_chain (P := fun _ => True) (l := []) hs hc rfl
  | deleteRnode key' => exact absurd hop id
  | gmemUsed pe => exact absurd hop id

/-- Stores to a free slot do not show until its status is stored. -/
theorem slots_applyAll_torn (hfree : (t.rnode s).stat ≠ .EXIST)
    (hl : ∀ st ∈ l, ∃ f, st = .rnode s f ∧ ∀ rn : RNode, (f rn).stat = rn.stat) :
    slots d (applyAll t l) = slots d t := by
  induction l generalizing t with
  | nil => rfl
  | cons st l ih =>
      obtain ⟨⟨f, rfl, hf⟩, hrest⟩ := List.forall_mem_cons.mp hl
      have hstat : ((t.putRnode s (f (t.rnode s))).rnode s).stat = (t.rnode s).stat := by
        rw [putRnode_rnode_self, hf]
      show slots d (applyAll (t.putRnode s (f (t.rnode s))) l) = _
      rw [ih (by rwa [hstat]) hrest]
      apply slots_congr
      intro s' _
      by_cases hne : s' = s
      · subst hne
        unfold slotOf
        rw [hstat]
        cases hst : (t.rnode s').stat with
        | NONEXIST => rfl
        | DELETED => rfl
        | EXIST => exact absurd hst hfree
      · exact congrArg slotOf (putRnode_rnode_ne hne)

/-- Killed anywhere, a process has the slot it had or the one it was to get. -/
theorem slots_of_prefix (hs : t.Sentinel)
    (hchain : ∀ s, findRnode d t key = some s → t.Chain (t.entry s) (c s) (-1)) (hop : op.IsBook)
    (hcaller : op.caller = some key) (hl : l <+: op.stores d fuel t) :
    slots d (applyAll t l) = slots d t ∨
    ∃ s t₁, Acquires d t key s t₁ ∧ slots d (applyAll t l) = slots d t₁ := by
  rcases stores_cases hs hchain hop hcaller with
    hnil | ⟨s, hfind, hkeeps⟩ | ⟨s, l₂, hfind, hpos, hstores, hkeeps⟩
  · rw [hnil] at hl
    rw [List.prefix_nil.mp hl]
    exact Or.inl rfl
  · exact Or.inl (slots_applyAll fun st hst => (hkeeps st (hl.subset hst)).2)
  · rw [hstores] at hl
    have hfree : (t.rnode s).stat ≠ .EXIST := fun hex =>
      not_exists_of_insertPos hfind hpos ⟨insertPos_lt hpos, hex⟩
    rcases List.prefix_or_prefix_of_prefix hl (List.prefix_append _ _) with hl | ⟨l₁, rfl⟩
    · -- killed in the assignment
      rcases List.prefix_concat_iff.mp (show l <+: [_, _, _] ++ [_] from hl) with rfl | hl
      · refine Or.inr ⟨s, _, Or.inr ⟨hfind, hpos, rfl⟩, ?_⟩
        exact congrArg (slots d) applyAll_assignStores
      · refine Or.inl (slots_applyAll_torn hfree fun st hst => ?_)
        have hmem := hl.subset hst
        simp only [List.mem_cons, List.not_mem_nil, or_false] at hmem
        rcases hmem with rfl | rfl | rfl
        · exact ⟨_, rfl, fun _ => rfl⟩
        · exact ⟨_, rfl, fun _ => rfl⟩
        · exact ⟨_, rfl, fun _ => rfl⟩
    · have hl₁ := (List.prefix_append_right_inj _).mp hl
      refine Or.inr ⟨s, _, Or.inr ⟨hfind, hpos, rfl⟩, ?_⟩
      rw [applyAll_append, applyAll_assignStores]
      exact slots_applyAll fun st hst => (hkeeps st (hl₁.subset hst)).2

/-! ## The processes that are left -/

section

variable {w w' : World}

theorem alive_of_findRnode (hkey : key ∉ w.dead) (hfind : findRnode d w.tables key = some s) :
    w.Alive d s ∧ w.tables.keyOf s = key := by
  obtain ⟨hex, rfl⟩ := findRnode_eq_some hfind
  exact ⟨⟨hex, hkey⟩, rfl⟩

theorem Survivors.own_chain (hw : Survivors d w c) (hkey : key ∉ w.dead) :
    ∀ s, findRnode d w.tables key = some s →
      w.tables.Chain (w.tables.entry s) (c s) (-1) :=
  fun s hfind => hw.chain s (alive_of_findRnode hkey hfind).1

/-- Where the stores of a call go: a slot that no other process has, and records that are empty or
the caller's. -/
theorem Survivors.stores_within (hw : Survivors d w c) (hop : op.IsBook)
    (hcaller : op.caller = some key) (hkey : key ∉ w.dead) :
    ∃ s m, (∀ s', Exists d w.tables s' → w.tables.keyOf s' ≠ key → s' ≠ s) ∧
      (∀ g ∈ m, w.Alive d s ∧ w.tables.keyOf s = key ∧ g ∈ c s) ∧
      ∀ st ∈ op.stores d fuel w.tables, st.Within d w.tables s m := by
  rcases stores_cases hw.sentinel (hw.own_chain hkey) hop hcaller with
    hnil | ⟨s, hfind, hkeeps⟩ | ⟨s, l, hfind, hpos, hstores, hkeeps⟩
  · refine ⟨d.lenRnode, [], ?_, by simp, ?_⟩
    · intro s' hex _
      exact Nat.ne_of_lt hex.1
    · rw [hnil]
      exact List.forall_mem_nil _
  · obtain ⟨halive, hkeyOf⟩ := alive_of_findRnode hkey hfind
    refine ⟨s, c s, ?_, fun g hg => ⟨halive, hkeyOf, hg⟩, fun st hst => (hkeeps st hst).1⟩
    rintro s' _ hne rfl
    exact hne hkeyOf
  · refine ⟨s, [], ?_, by simp, ?_⟩
    · rintro s' hex _ rfl
      exact not_exists_of_insertPos hfind hpos hex
    · rw [hstores, List.forall_mem_append]
      refine ⟨?_, fun st hst => (hkeeps st hst).1⟩
      simp [assignStores, Store.Within]

/-- **The first part of a call leaves the others what they have.** -/
theorem Survivors.spares (hw : Survivors d w c) (hop : op.IsBook) (hcaller : op.caller = some key)
    (hkey : key ∉ w.dead) (hl : l <+: op.stores d fuel w.tables) :
    Spares d w key c (applyAll w.tables l) := by
  obtain ⟨s, m, hslot, hm, hwithin⟩ := hw.stores_within hop hcaller hkey
  have hl' : ∀ st ∈ l, st.Within d w.tables s m := fun st hst => hwithin st (hl.subset hst)
  have hslots := slots_of_prefix hw.sentinel (hw.own_chain hkey) hop hcaller hl
  have hlive : ∀ g ∈ m, w.tables.Live g := fun g hg =>
    (hw.chain s (hm g hg).1).live_of_mem g (hm g hg).2.2
  have hend : (applyAll w.tables l).gmem (-1) = w.tables.gmem (-1) := by
    apply applyAll_gmem hl'
    · exact fun hmem => hw.sentinel.not_live (hlive _ hmem)
    · intro j _
      omega
  constructor
  · exact hw.sentinel.congr hend
  · rcases hslots with hsame | ⟨s₁, t₁, hacq, hsame⟩
    · exact hw.keyed.congr hsame
    · exact (hacq.keyed hw.keyed).congr hsame
  · exact fun s' hex hne => applyAll_rnode hl' (hslot s' hex hne)
  · intro s' hex hne
    rcases hslots with hsame | ⟨s₁, t₁, hacq, hsame⟩
    · have hex' := (exists_congr hsame).mp hex
      exact ⟨hex', fun he => hne ((keyOf_of_slots hsame hex').trans he)⟩
    · have hex₁ := (exists_congr hsame).mp hex
      rw [keyOf_of_slots hsame hex₁] at hne
      have hne₁ : s' ≠ s₁ := by
        rintro rfl
        exact hne hacq.keyOf_self
      rw [keyOf_of_rnode (hacq.rnode_of_ne hne₁)] at hne
      exact ⟨(hacq.exists_of_ne hne₁).mp hex₁, hne⟩
  · intro s' halive hne g hg
    have hglive := (hw.chain s' halive).live_of_mem g hg
    apply applyAll_gmem hl'
    · intro hmem
      obtain ⟨halive', hkeyOf, hg'⟩ := hm g hmem
      have hss : s' ≠ s := hslot s' halive.1 hne
      exact hw.disjoint s' s halive halive' hss hg hg'
    · rintro j hj rfl
      exact (firstEmpty_eq_some.mp hj).2.1 hglive
  · cases hj : firstEmpty d w.tables with
    | none =>
        refine ⟨-1, fun x hx hempty => absurd ?_ hempty⟩
        have hsame : (applyAll w.tables l).gmem x = w.tables.gmem x := by
          apply applyAll_gmem hl' (fun hmem => hempty (hlive x hmem))
          intro j hj'
          rw [hj] at hj'
          cases hj'
        unfold Tables.Live at hx ⊢
        rwa [hsame] at hx
    | some j =>
        refine ⟨j, fun x hx hempty => ?_⟩
        by_contra hne
        apply hempty
        have hsame : (applyAll w.tables l).gmem x = w.tables.gmem x := by
          apply applyAll_gmem hl' (fun hmem => hempty (hlive x hmem))
          intro j' hj'
          rw [hj] at hj'
          rwa [← Option.some.inj hj']
        unfold Tables.Live at hx ⊢
        rwa [hsame] at hx

/-! ### A kill -/

theorem Spares.alive_iff (hsp : Spares d w key c t') :
    (⟨t', key :: w.dead⟩ : World).Alive d s ↔ w.Alive d s ∧ w.tables.keyOf s ≠ key := by
  constructor
  · rintro ⟨hex, hkey⟩
    have hkey : t'.keyOf s ∉ key :: w.dead := hkey
    rw [List.mem_cons, not_or] at hkey
    obtain ⟨hex', hne⟩ := hsp.old s hex hkey.1
    rw [keyOf_of_rnode (hsp.rnode s hex' hne)] at hkey
    exact ⟨⟨hex', hkey.2⟩, hne⟩
  · rintro ⟨⟨hex, hkey⟩, hne⟩
    have hsame := hsp.rnode s hex hne
    refine ⟨(exists_of_rnode hsame).mpr hex, ?_⟩
    show t'.keyOf s ∉ key :: w.dead
    rw [keyOf_of_rnode hsame, List.mem_cons, not_or]
    exact ⟨hne, hkey⟩

/-- The list of another process is as it was. -/
theorem Spares.chain (hsp : Spares d w key c t') (hw : Survivors d w c) (halive : w.Alive d s)
    (hne : w.tables.keyOf s ≠ key) : t'.Chain (t'.entry s) (c s) (-1) := by
  rw [entry_of_rnode (hsp.rnode s halive.1 hne)]
  apply (hw.chain s halive).congr
  intro g hg
  have hlive := (hw.chain s halive).live_of_mem g hg
  have hsame := hsp.gmem s halive hne g hg
  unfold Tables.next Tables.Live at *
  rw [hsame]
  exact ⟨rfl, hlive⟩

theorem Survivors.kill (hw : Survivors d w c) (hsp : Spares d w key c t') :
    Survivors d ⟨t', key :: w.dead⟩ c := by
  refine ⟨hsp.sentinel, hsp.keyed, ?_, ?_⟩
  · intro s halive
    obtain ⟨halive, hne⟩ := hsp.alive_iff.mp halive
    exact hsp.chain hw halive hne
  · intro s s' halive halive' hne
    exact hw.disjoint s s' (hsp.alive_iff.mp halive).1 (hsp.alive_iff.mp halive').1 hne

/-- **Nobody else notices a kill**, at whatever store of whatever call: the processes that are left
are those there were, in their slots, where they are found, with their lists and the records on
them; at most one record is in use that was not. -/
theorem others_kept_of_kill (hw : Survivors d w c) (hop : op.IsBook)
    (hstep : w.Step d (.kill op) w') :
    Survivors d w' c ∧
      (∀ s, w'.Alive d s ↔ w.Alive d s ∧ op.caller ≠ some (w.tables.keyOf s)) ∧
      (∀ s, w'.Alive d s → w'.tables.rnode s = w.tables.rnode s ∧
        findRnode d w'.tables (w.tables.keyOf s) = some s ∧
        ∀ g ∈ c s, w'.tables.gmem g = w.tables.gmem g) ∧
      ∃ g, ∀ x, w'.tables.Live x → ¬ w.tables.Live x → x = g := by
  obtain ⟨key, hcaller, hkey, fuel, l, hl, rfl⟩ := hstep
  have hcaller : op.caller = some key := hcaller
  have hsp := hw.spares hop hcaller hkey hl
  refine ⟨hw.kill hsp, ?_, ?_, hsp.fresh⟩
  · intro s
    rw [hsp.alive_iff, hcaller, ne_eq, ne_eq, Option.some.injEq, eq_comm]
  · intro s halive
    obtain ⟨halive, hne⟩ := hsp.alive_iff.mp halive
    have hsame := hsp.rnode s halive.1 hne
    refine ⟨hsame, ?_, hsp.gmem s halive hne⟩
    exact hsp.keyed.findRnode_eq_some_iff.mpr
      ⟨(exists_of_rnode hsame).mpr halive.1, keyOf_of_rnode hsame⟩

/-- The stores of a process that is killed before its record is linked. -/
def storesUnlinked : List Store :=
  ((Op.addGmem (1, 0) ownAddress 40 70).stores smallDims 3 (handedOn 4)).take 3

/-- Both processes have one record when that happens. -/
def worldUnlinked : World := ⟨applyAll (handedOn 4) storesUnlinked, [(1, 0)]⟩

theorem step_worldUnlinked : (⟨handedOn 4, []⟩ : World).Step smallDims
    (.kill (.addGmem (1, 0) ownAddress 40 70)) worldUnlinked :=
  ⟨(1, 0), rfl, List.not_mem_nil, 3, storesUnlinked, List.take_prefix _ _, rfl⟩

theorem survivors_handedOn : Survivors smallDims ⟨handedOn 4, []⟩ fun s => [(s : Int)] := by
  refine ⟨⟨by decide, by decide⟩, ?_, ?_, ?_⟩
  · apply keyed_of_found
    intro s hex
    rcases slot_smallDims hex with rfl | rfl
    · decide
    · decide
  · intro s halive
    rcases slot_smallDims halive.1 with rfl | rfl
    · exact chain_single (by decide) (by decide) (by decide)
    · exact chain_single (by decide) (by decide) (by decide)
  · intro s s' _ _ hne
    rw [List.disjoint_singleton, List.mem_singleton]
    omega

/-- The second process keeps its slot and its record. -/
theorem others_kept_of_kill_unlinked :
    Survivors smallDims worldUnlinked (fun s => [(s : Int)]) ∧
      worldUnlinked.tables.rnode 1 = (handedOn 4).rnode 1 ∧
      findRnode smallDims worldUnlinked.tables (2, 0) = some 1 ∧
      worldUnlinked.tables.gmem 1 = (handedOn 4).gmem 1 ∧
      ∃ g, ∀ x, worldUnlinked.tables.Live x → ¬ (handedOn 4).Live x → x = g := by
  have hop : (Op.addGmem (1, 0) ownAddress 40 70).IsBook := trivial
  obtain ⟨hsurvivors, halive, hkept, hfresh⟩ :=
    others_kept_of_kill survivors_handedOn hop step_worldUnlinked
  have hsecond : worldUnlinked.Alive smallDims 1 :=
    (halive 1).mpr ⟨⟨⟨by decide, by decide⟩, List.not_mem_nil⟩, by decide⟩
  obtain ⟨hrnode, hfind, hgmem⟩ := hkept 1 hsecond
  exact ⟨hsurvivors, hrnode, hfind, hgmem 1 List.mem_cons_self, hfresh⟩

/-- The new record stays in use, on no list. -/
example : worldUnlinked.tables.gmem 2 = ⟨40, 70, -1⟩ ∧ worldUnlinked.tables.next 0 = -1 := by
  decide

/-! ### A call that returns -/

/-- A call that returns has made all its stores. -/
theorem Survivors.spares_of_call (hw : Survivors d w c) (hop : op.IsBook)
    (hcaller : op.caller = some key) (hkey : key ∉ w.dead)
    (hstep : RNM.Step d w.tables op t') : Spares d w key c t' := by
  obtain ⟨fuel, tr, hr⟩ := hstep
  have hr : op.exec d fuel w.tables = ⟨.ok (), t', tr⟩ := hr
  have hstate : t' = applyAll w.tables (op.stores d fuel w.tables) := by
    rw [← exec_state, hr]
  rw [hstate]
  exact hw.spares hop hcaller hkey (List.prefix_refl _)

/-- The list of the caller changes, to its records and empty ones. -/
theorem Survivors.call {m : List Int} (hw : Survivors d w c) (hkey : key ∉ w.dead)
    (hsp : Spares d w key c t') (hfull : slots d t' s = .full key)
    (hchain : t'.Chain (t'.entry s) m (-1))
    (hnew : ∀ g ∈ m, g ∈ listOf d w.tables c s ∨ ¬ w.tables.Live g) :
    Survivors d ⟨t', w.dead⟩ (Function.update c s m) := by
  have hother : ∀ s', (⟨t', w.dead⟩ : World).Alive d s' → s' ≠ s →
      w.Alive d s' ∧ w.tables.keyOf s' ≠ key := by
    rintro s' ⟨hex, hdead⟩ hne
    have hkeyOf : t'.keyOf s' ≠ key := fun he =>
      hne (hsp.keyed.unique s' s key (slots_eq_full.mpr ⟨hex, he⟩) hfull)
    obtain ⟨hex', hne'⟩ := hsp.old s' hex hkeyOf
    refine ⟨⟨hex', ?_⟩, hne'⟩
    rw [← keyOf_of_rnode (hsp.rnode s' hex' hne')]
    exact hdead
  -- the records of the caller are on no other list
  have hapart : ∀ s', w.Alive d s' → w.tables.keyOf s' ≠ key → (c s').Disjoint m := by
    intro s' halive hne g hg hgm
    rcases hnew g hgm with hmem | hempty
    · obtain ⟨hex, hgs⟩ := mem_listOf.mp hmem
      have hown : w.tables.keyOf s = key := by
        by_contra hne'
        rw [← keyOf_of_rnode (hsp.rnode s hex hne')] at hne'
        exact hne' (slots_eq_full.mp hfull).2
      refine hw.disjoint s' s halive ⟨hex, hown ▸ hkey⟩ ?_ hg hgs
      rintro rfl
      exact hne hown
    · exact hempty ((hw.chain s' halive).live_of_mem g hg)
  refine ⟨hsp.sentinel, hsp.keyed, ?_, ?_⟩
  · intro s' halive
    by_cases hne : s' = s
    · subst hne
      rw [Function.update_self]
      exact hchain
    · obtain ⟨halive', hne'⟩ := hother s' halive hne
      rw [Function.update_of_ne hne]
      exact hsp.chain hw halive' hne'
  · intro s₁ s₂ halive₁ halive₂ hne
    by_cases hne₁ : s₁ = s
    · subst hne₁
      obtain ⟨halive', hne'⟩ := hother s₂ halive₂ hne.symm
      rw [Function.update_self, Function.update_of_ne hne.symm]
      exact fun g hm hg => hapart s₂ halive' hne' hg hm
    · obtain ⟨halive₁', hne₁'⟩ := hother s₁ halive₁ hne₁
      rw [Function.update_of_ne hne₁]
      by_cases hne₂ : s₂ = s
      · subst hne₂
        rw [Function.update_self]
        exact hapart s₁ halive₁' hne₁'
      · rw [Function.update_of_ne hne₂]
        exact hw.disjoint s₁ s₂ halive₁' (hother s₂ halive₂ hne₂).1 hne

/-- Where an `add_gmem` that keeps the list of its process leaves it. -/
theorem Registers.ownChain {m reg : List Int} (hs : t.Sentinel)
    (hchain : t.Chain (t.entry s) m (-1)) (hp : p ≠ 0) (hr : Registers d t mem s p n t' reg)
    (hsafe : ∀ l x, Walk t.next (t.Miss mem (mem p)) (t.entry s) l x → t.Hit mem (mem p) x →
      t.next x = -1) :
    ∃ m', t'.Chain (t'.entry s) m' (-1) ∧ ∀ g ∈ m', g ∈ m ∨ ¬ t.Live g := by
  obtain ⟨l, x, hwalk, ⟨_, j, hj, hl, _⟩ | ⟨_, _, hl, _⟩ | ⟨hhit, hl, _⟩⟩ := hr
  · have hempty := (firstEmpty_eq_some.mp hj).2.1
    have hj1 : (j : Int) ≠ -1 := by omega
    refine ⟨_, (chain_push hs hchain hempty hj1 hp hl).1, ?_⟩
    intro g hg
    rcases List.mem_append.mp hg with hg | hg
    · exact Or.inl hg
    · rw [List.mem_singleton.mp hg]
      exact Or.inr hempty
  · rw [hl.eq_of_sentinel]
    exact ⟨m, hchain, fun g hg => Or.inl hg⟩
  · obtain ⟨l₂, hm, hrest⟩ := chain_split_at_hit hs hchain hwalk hhit.1
    rw [hsafe l x hwalk hhit] at hrest
    obtain rfl := eq_nil_of_chain hs hrest
    have hlast := hchain
    rw [hm] at hlast
    obtain rfl := links_last hs hlast hp hl
    exact ⟨m, Chain.setRes hchain hp, fun g hg => Or.inl hg⟩

/-- The list the caller of `add_gmem` starts from. -/
theorem Survivors.acquire {t₁ : Tables} (hw : Survivors d w c) (hkey : key ∉ w.dead)
    (hacq : Acquires d w.tables key s t₁) :
    t₁.Chain (t₁.entry s) (listOf d w.tables c s) (-1) := by
  rcases hacq with ⟨hfind, rfl⟩ | ⟨hfind, hpos, rfl⟩
  · rw [listOf_of_exists (findRnode_eq_some hfind).1]
    exact hw.own_chain hkey s hfind
  · rw [listOf, if_neg (not_exists_of_insertPos hfind hpos), putRnode_entry_self]
    rfl

/-- The processes that are left have lists. -/
def World.Kept (d : Dims) (w : World) : Prop := ∃ c, Survivors d w c

theorem kept_addGmem_iff (hw : w.Kept d) (hkey : key ∉ w.dead)
    (hstep : RNM.Step d w.tables (.addGmem key mem p n) t') :
    (⟨t', w.dead⟩ : World).Kept d ↔ (Op.addGmem key mem p n).KeepsLists d w.tables := by
  obtain ⟨c, hw⟩ := hw
  have hbook : (Op.addGmem key mem p n).IsBook := trivial
  have hsp := hw.spares_of_call hbook rfl hkey hstep
  obtain ⟨hp, s, t₁, reg, hacq, hr⟩ := step_addGmem hw.sentinel hstep
  have hs₁ : t₁.Sentinel := hw.sentinel.congr (by rw [hacq.gmem])
  have hchain := hw.acquire hkey hacq
  have hfull : slots d t' s = .full key := hr.slots.symm ▸ hacq.full
  refine Iff.trans ?_ (hitsLast_iff hw.sentinel hacq).symm
  constructor
  · rintro ⟨c', hw'⟩ l x hwalk hhit
    by_contra hne
    obtain ⟨hex, hkeyOf⟩ := slots_eq_full.mp hfull
    have hchain' := hw'.chain s ⟨hex, by show t'.keyOf s ∉ w.dead; rwa [hkeyOf]⟩
    exact hsp.sentinel.not_live (not_chain_of_registers hs₁ hp hchain hr hwalk hhit hne _ _ hchain')
  · intro hsafe
    obtain ⟨m, hchain', hm⟩ := hr.ownChain hs₁ hchain hp hsafe
    refine ⟨_, hw.call hkey hsp hfull hchain' ?_⟩
    intro g hg
    rw [← hacq.live_iff]
    exact hm g hg

theorem alive_unlink : (⟨unlink w.tables g x, w.dead⟩ : World).Alive d s ↔ w.Alive d s := by
  have hsame : (unlink w.tables g x).rnode s = w.tables.rnode s := by rw [unlink_rnode]
  show Exists d (unlink w.tables g x) s ∧ (unlink w.tables g x).keyOf s ∉ w.dead ↔ _
  rw [exists_of_rnode hsame, keyOf_of_rnode hsame]
  rfl

theorem kept_removeGmem_iff (hw : w.Kept d) (hkey : key ∉ w.dead)
    (hstep : RNM.Step d w.tables (.removeGmem key mem h) t') :
    (⟨t', w.dead⟩ : World).Kept d ↔ (Op.removeGmem key mem h).KeepsLists d w.tables := by
  obtain ⟨c, hw⟩ := hw
  have hbook : (Op.removeGmem key mem h).IsBook := trivial
  have hsp := hw.spares_of_call hbook rfl hkey hstep
  rcases step_removeGmem hw.sentinel hstep with
    ⟨hnone, rfl⟩ | ⟨s, l, x, hfind, hwalk, ⟨hx, rfl⟩ | ⟨hhit, rfl⟩⟩
  · refine iff_of_true ⟨c, hw⟩ ?_
    intro s hfind
    rw [hnone] at hfind
    cases hfind
  · refine iff_of_true ⟨c, hw⟩ ?_
    intro s' hfind' hhit
    rw [hfind] at hfind'
    obtain rfl := Option.some.inj hfind'
    exact not_findsAt_of_walk hwalk hx ⟨[], rfl, hhit⟩
  · obtain ⟨halive, hkeyOf⟩ := alive_of_findRnode hkey hfind
    rcases List.eq_nil_or_concat' l with rfl | ⟨l₀, b, rfl⟩
    · -- the first record: its process keeps pointing at it
      have hentry : w.tables.entry s = x := hwalk
      have hx1 : x ≠ -1 := ne_sentinel_of_live hw.sentinel hhit.1
      refine iff_of_false ?_ ?_
      · rintro ⟨c', hw'⟩
        apply not_chain_of_unlink_head (t := w.tables) (g := prevOf (-1) []) hentry hx1
        exact ⟨c' s, hw'.chain s (alive_unlink.mpr halive)⟩
      · intro hsafe
        exact hsafe s hfind (hentry ▸ hhit)
    · refine iff_of_true ?_ ?_
      · obtain ⟨l₂, hl₂, _⟩ := chain_split_at_hit hw.sentinel (hw.chain s halive) hwalk hhit.1
        have hl : c s = l₀ ++ b :: x :: l₂ := by simp [hl₂]
        have hchain := hw.chain s halive
        rw [hl] at hchain
        rw [prevOf_snoc] at hsp ⊢
        refine ⟨_, hw.call (m := l₀ ++ b :: l₂) hkey hsp (s := s) ?_ ?_ ?_⟩
        · have hsame : (unlink w.tables b x).rnode s = w.tables.rnode s := by rw [unlink_rnode]
          exact slots_eq_full.mpr
            ⟨unlink_exists.mpr halive.1, (keyOf_of_rnode hsame).trans hkeyOf⟩
        · rw [unlink_entry]
          exact chain_unlink hw.sentinel hchain
        · intro g hg
          refine Or.inl (mem_listOf.mpr ⟨halive.1, ?_⟩)
          rw [hl]
          simp only [List.mem_append, List.mem_cons] at hg ⊢
          tauto
      · intro s' hfind' hhit'
        rw [hfind] at hfind'
        obtain rfl := Option.some.inj hfind'
        have hstart : Walk w.tables.next (w.tables.Miss mem h) (w.tables.entry s) []
          (w.tables.entry s) := rfl
        have hnil := (hstart.unique hhit'.not_miss hwalk hhit.not_miss).1
        simp at hnil

/-! ### Histories -/

/-- A call that returns keeps the lists. Of one that does not, nothing is asked. -/
def Act.KeepsLists (d : Dims) (t : Tables) : Act → Prop
  | .call op => op.KeepsLists d t
  | .kill _ => True

theorem World.Step.kept_iff {act : Act} (hw : w.Kept d) (hop : act.op.IsBook)
    (hstep : w.Step d act w') : w'.Kept d ↔ act.KeepsLists d w.tables := by
  obtain ⟨key, hcaller, hkey, hstep⟩ := hstep
  cases act with
  | kill op =>
      obtain ⟨c, hw⟩ := hw
      obtain ⟨fuel, l, hl, rfl⟩ := hstep
      exact iff_of_true ⟨c, hw.kill (hw.spares hop hcaller hkey hl)⟩ trivial
  | call op =>
      obtain ⟨hstep, hdead⟩ := hstep
      have hw' : w' = ⟨w'.tables, w.dead⟩ := by rw [← hdead]
      rw [hw']
      cases op with
      | addGmem key' mem p n =>
          obtain rfl := Option.some.inj hcaller
          exact kept_addGmem_iff hw hkey hstep
      | removeGmem key' mem h =>
          obtain rfl := Option.some.inj hcaller
          exact kept_removeGmem_iff hw hkey hstep
      | deleteRnode key' => exact absurd hop id
      | gmemUsed pe => exact absurd hop id

theorem kept_of_fresh (hf : Fresh d t) (hs : t.Sentinel) : (⟨t, []⟩ : World).Kept d := by
  refine ⟨fun _ => [], hs, keyed_of_fresh hf, ?_, ?_⟩
  · intro s halive
    exact absurd halive.1 (not_exists_of_fresh hf)
  · intro s s' halive
    exact absurd halive.1 (not_exists_of_fresh hf)

/-- **Kills do no harm.** In a history of calls, in which any number of processes are killed at any
of their stores, the processes that are left have their slots and lists in every state exactly when
the calls that returned satisfy `Op.KeepsLists`. -/
theorem survivors_iff_keepsLists {r : List (Act × World)} (hf : Fresh d t) (hs : t.Sentinel)
    (hr : Along (World.Step d) ⟨t, []⟩ r) (hops : ∀ x ∈ r, x.1.op.IsBook) :
    (∀ w ∈ states ⟨t, []⟩ r, w.Kept d) ↔
      Along (fun w act _ => act.KeepsLists d w.tables) ⟨t, []⟩ r := by
  have hbook := hr.and_label (L := fun act => act.op.IsBook) hops
  apply Along.states_iff (kept_of_fresh hf hs) hbook (fun w hw => hw)
  · intro w act w' hw hstep hsafe
    exact (hstep.1.kept_iff hw hstep.2).mpr hsafe
  · intro w act w' hw hstep hw'
    exact (hstep.1.kept_iff hw hstep.2).mp hw'

end

theorem survivors_iff_keepsLists_unlinked : worldUnlinked.Kept smallDims := by
  have hcalls : Along (RNM.Step smallDims) initialTables
      (replay smallDims 3 initialTables (recordHandedOn.take 4)) := along_replay (by decide)
  obtain ⟨h₁, h₂, h₃, h₄, _⟩ := hcalls
  have hr : Along (World.Step smallDims) ⟨initialTables, []⟩
      [(.call (.addGmem (1, 0) ownAddress 16 100), ⟨handedOn 1, []⟩),
        (.call (.addGmem (2, 0) ownAddress 24 200), ⟨handedOn 2, []⟩),
        (.call (.addGmem (1, 0) ownAddress 32 50), ⟨handedOn 3, []⟩),
        (.call (.removeGmem (1, 0) ownAddress 32), ⟨handedOn 4, []⟩),
        (.kill (.addGmem (1, 0) ownAddress 40 70), worldUnlinked)] :=
    ⟨⟨(1, 0), rfl, List.not_mem_nil, h₁, rfl⟩, ⟨(2, 0), rfl, List.not_mem_nil, h₂, rfl⟩,
      ⟨(1, 0), rfl, List.not_mem_nil, h₃, rfl⟩, ⟨(1, 0), rfl, List.not_mem_nil, h₄, rfl⟩,
      step_worldUnlinked, trivial⟩
  obtain ⟨hfirst, hsecond, hthird, _⟩ := hitsLast_handedOn
  apply (survivors_iff_keepsLists (fresh_initialTables _) sentinel_initialTables hr ?_).mpr
  · exact ⟨hfirst, hsecond, hthird, keepsLists_handedOn, trivial, trivial⟩
  · exact final_mem_states _ _
  · simp [Act.op, Op.IsBook]

end Vcuda.RNM
