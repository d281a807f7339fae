import Vcuda.Hijack.Sessions

/-!
# Full tables

`push_gmem` answers `-1` when every record is in use and `insert_rnode` answers null when every slot
is another process's. `add_gmem` checks neither. It dereferences the null, and it links the `-1`,
which leaves the tables as they are: the driver has allocated, the call succeeds, and no record says
so. An allocation of a new handle is recorded exactly when there is room for it: a process slot and
an empty record (`recordsAllocation_iff`). A record of its size is on the chain also when an older
one of that size is (`recordsCall_iff_hasRoom`).
-/

namespace Vcuda.Hijack

open Traced RNM Tables

/-- A record in use on the chain of the process `key` has the size `n`. -/
def OnChain (d : Dims) (t : Tables) (key : PidSt) (n : UInt64) : Prop :=
  ∃ s i, findRnode d t key = some s ∧ Reaches t s i ∧ t.Live i ∧ (t.gmem i).bytes = n

/-- The record of the variable `p` is on the chain of the process `key`, with the size `n`. -/
def HasRecord (d : Dims) (t : Tables) (key : PidSt) (p : Ptr) (n : UInt64) : Prop :=
  ∃ s i, findRnode d t key = some s ∧ Reaches t s i ∧ (t.gmem i).ptr = p ∧ (t.gmem i).bytes = n

/-- After every success of the call a record of the size is on the caller's chain, and no null slot
is dereferenced. -/
structure RecordsCall (d : Dims) (t : Tables) (call : Call) (n : UInt64) : Prop where
  recorded : ∀ fuel t', Returns (call.exec d fuel) t .CUDA_SUCCESS t' → OnChain d t' call.key n
  noNull : ∀ fuel, ¬ Faults (call.exec d fuel) t .nullRNode

/-- After every success of the call its variable is recorded with the size, and no null slot is
dereferenced. -/
structure RecordsAllocation (d : Dims) (t : Tables) (call : Call) (p : Ptr) (n : UInt64) :
    Prop where
  recorded : ∀ fuel t', Returns (call.exec d fuel) t .CUDA_SUCCESS t' → HasRecord d t' call.key p n
  noNull : ∀ fuel, ¬ Faults (call.exec d fuel) t .nullRNode

/-- The process has a slot or can get one, and there is an empty record; or else a record of the
same size happens to be on its chain already. -/
structure HasRoom (d : Dims) (t : Tables) (key : PidSt) (n : UInt64) : Prop where
  slot : findRnode d t key ≠ none ∨ insertPos d t key ≠ none
  record : firstEmpty d t ≠ none ∨ OnChain d t key n

variable {d : Dims} {t t' t₁ : Tables} {call : Call} {p : Ptr} {n : UInt64} {s : Nat}
  {c : Nat → List Int} {live : List Allocation} {fuel : Nat} {w : World} {key : PidSt}

/-- An `add_gmem` whose process gets a slot returns. -/
theorem Accounted.addGmem_returns (hacc : Accounted d ⟨t, live⟩ c)
    (hacq : Acquires d t call.key s t₁) (hp : p ≠ 0) :
    ∃ fuel t', Returns (addGmem d fuel call.key call.ctx.reply.mem p n) t () t' := by
  obtain ⟨c₁, hacc₁⟩ := hacc.acquire hacq
  have hended : Ended t₁ s := ⟨c₁ s, hacc₁.lists.chain s hacq.exists_self⟩
  obtain ⟨fuel, t', hreg⟩ := registerGmem_returns hacc₁.sound.sentinel hp (Or.inl hended)
  exact ⟨fuel, t', addGmem_of_registerGmem hacq hreg⟩

theorem Accounted.addGmem_not_null (hacc : Accounted d ⟨t, live⟩ c)
    (hacq : Acquires d t call.key s t₁) (hp : p ≠ 0) :
    ¬ Faults (addGmem d fuel call.key call.ctx.reply.mem p n) t .nullRNode := by
  intro hf
  obtain ⟨fuel', t', hr⟩ := hacc.addGmem_returns hacq hp
  have hr' := (addGmem_approx (Nat.le_max_right fuel fuel')).returns hr
  exact hr'.not_faults ((addGmem_approx (Nat.le_max_left fuel fuel')).faults hf (by simp))

/-- No record of the process is for the variable of a new handle. -/
theorem Accounted.not_recorded (hacc : Accounted d ⟨t, live⟩ c) (hnew : NewHandle live call p) :
    ¬ HasRecord d t call.key p n := by
  rintro ⟨s, i, hfind, ⟨l, hto⟩, hptr, _⟩
  obtain ⟨hex, hkey⟩ := findRnode_eq_some hfind
  have hlive : t.Live i := by
    rw [Live, hptr]
    exact hnew.var
  obtain ⟨l₂, hl, _⟩ :=
    chain_split_at_live hacc.sound.sentinel (hacc.lists.chain s hex) hto hlive
  obtain ⟨a, ha, howner, hvar⟩ := hacc.named s hex i (by simp [hl])
  exact hnew.own a ha (howner.trans hkey) (hvar.symm.trans hptr)

/-- A new record is the last of the list, with the variable and the size. -/
theorem Accounted.recorded_of_links {j : Nat} (hacc : Accounted d ⟨t, live⟩ c)
    (hkeyed : Keyed d t') (hp : p ≠ 0) (hfull : slots d t s = .full call.key)
    (hj : firstEmpty d t = some j) (hl : Links (putNew t j p n) s j t') :
    HasRecord d t' call.key p n := by
  have hs := hacc.sound.sentinel
  have hex := (slots_eq_full.mp hfull).1
  obtain ⟨hjr, hjlive, _⟩ := firstEmpty_eq_some.mp hj
  have hj1 : (j : Int) ≠ -1 := by omega
  obtain ⟨hchain, hrec, _⟩ := chain_push hs (hacc.lists.chain s hex) hjlive hj1 hp hl
  have hslots : slots d t' = slots d t := hl.slots
  have hfull' := (congrFun hslots s).trans hfull
  have hfind := hkeyed.findRnode_eq_some_iff.mpr (slots_eq_full.mp hfull')
  obtain ⟨y, hto, hlast⟩ := hchain.split
  obtain ⟨rfl, _⟩ := hlast
  exact ⟨s, j, hfind, ⟨c s, hto⟩, by rw [hrec, GMem.new_ptr], by rw [hrec, GMem.new_bytes]⟩

/-- **An `add_gmem` of a new handle** records it if some record is empty. Otherwise all it does is
to take a slot if the caller had none. -/
theorem Accounted.step_cases (hacc : Accounted d ⟨t, live⟩ c) (hnew : NewHandle live call p)
    (hstep : Step d t (.addGmem call.key call.ctx.reply.mem p n) t') :
    (firstEmpty d t ≠ none ∧ HasRecord d t' call.key p n) ∨
    (firstEmpty d t = none ∧ ∃ s, Acquires d t call.key s t') := by
  have hsound := hacc.sound.step hstep trivial
  obtain ⟨hp, s, t₁, reg, hacq, hreg⟩ := step_addGmem hacc.sound.sentinel hstep
  obtain ⟨c₁, hacc₁⟩ := hacc.acquire hacq
  rw [← hacq.firstEmpty_eq]
  rcases hacc₁.registers hnew hacq.exists_self hacq.keyOf_self hreg with
    ⟨j, hj, hl⟩ | ⟨hnone, rfl⟩
  · refine Or.inl ⟨by simp [hj], ?_⟩
    exact hacc₁.recorded_of_links hsound.keyed hp hacq.full hj hl
  · exact Or.inr ⟨hnone, s, hacq⟩

/-- What an `add_gmem` of a new handle leaves on the caller's chain. -/
theorem Accounted.recorded_of_step (hacc : Accounted d ⟨t, live⟩ c) (hnew : NewHandle live call p)
    (hstep : Step d t (.addGmem call.key call.ctx.reply.mem p n) t') :
    HasRecord d t' call.key p n ↔ firstEmpty d t ≠ none := by
  rcases hacc.step_cases hnew hstep with ⟨hroom, hrec⟩ | ⟨hnone, s, hacq⟩
  · exact iff_of_true hrec hroom
  · obtain ⟨c₁, hacc₁⟩ := hacc.acquire hacq
    exact iff_of_false (hacc₁.not_recorded hnew) (not_not.mpr hnone)

theorem HasRecord.onChain (hr : HasRecord d t key p n) (hp : p ≠ 0) : OnChain d t key n := by
  obtain ⟨s, i, hfind, hreach, rfl, hbytes⟩ := hr
  exact ⟨s, i, hfind, hreach, hp, hbytes⟩

/-- A slot that is taken adds no record to the chain. -/
theorem Accounted.onChain_of_acquires (hacc : Accounted d ⟨t, live⟩ c)
    (hacq : Acquires d t key s t') : OnChain d t' key n ↔ OnChain d t key n := by
  have hs' : t'.Sentinel := hacc.sound.sentinel.congr (by rw [hacq.gmem])
  have hkeyed := hacq.keyed hacc.sound.keyed
  have hfind' := hkeyed.findRnode_eq_some_iff.mpr (slots_eq_full.mp hacq.full)
  rcases hacq with ⟨_, rfl⟩ | ⟨hnone, hpos, rfl⟩
  · rfl
  · apply iff_of_false
    · rintro ⟨s', i, hfind, ⟨l, hchain⟩, hlive, _⟩
      obtain rfl := Option.some.inj (hfind'.symm.trans hfind)
      rw [putRnode_entry_self, RNode.new_resEntryIdx] at hchain
      exact (hs'.not_live_of_walk hchain fun _ hb => hb) hlive
    · rintro ⟨s', _, hfind, _⟩
      rw [hnone] at hfind
      cases hfind

theorem Accounted.onChain_of_step (hacc : Accounted d ⟨t, live⟩ c) (hnew : NewHandle live call p)
    (hstep : Step d t (.addGmem call.key call.ctx.reply.mem p n) t') :
    OnChain d t' call.key n ↔ firstEmpty d t ≠ none ∨ OnChain d t call.key n := by
  rcases hacc.step_cases hnew hstep with ⟨hroom, hrec⟩ | ⟨hnone, s, hacq⟩
  · exact iff_of_true (hrec.onChain hnew.var) (Or.inl hroom)
  · rw [hacc.onChain_of_acquires hacq, or_iff_right (not_not.mpr hnone)]

/-- What every success of the call leaves, where the tables decide it, and that no null slot is
dereferenced. -/
theorem Accounted.succeeds_iff {Q : Tables → Prop} {R : Prop} (hacc : Accounted d ⟨t, live⟩ c)
    (hreq : request call.api = some (p, n)) (hnew : NewHandle live call p)
    (hQ : ∀ t', Step d t (.addGmem call.key call.ctx.reply.mem p n) t' → (Q t' ↔ R)) :
    ((∀ fuel t', Returns (call.exec d fuel) t .CUDA_SUCCESS t' → Q t') ∧
        ∀ fuel, ¬ Faults (call.exec d fuel) t .nullRNode) ↔
      (Granted d t call n →
        (findRnode d t call.key ≠ none ∨ insertPos d t call.key ≠ none) ∧ R) := by
  constructor
  · rintro ⟨hall, hnonull⟩ hgrant
    rcases acquires_or_full d t call.key with ⟨s, t₁, hacq⟩ | ⟨hnone, hpos⟩
    · obtain ⟨fuel, t', hadd⟩ := hacc.addGmem_returns (n := n) hacq hnew.var
      obtain ⟨fuel', hcall⟩ := hgrant.returns hreq hadd
      have hslot : findRnode d t call.key ≠ none ∨ insertPos d t call.key ≠ none := by
        rcases hacq with ⟨hfind, _⟩ | ⟨_, hpos, _⟩
        · exact Or.inl (by simp [hfind])
        · exact Or.inr (by simp [hpos])
      exact ⟨hslot, (hQ t' ⟨fuel, hadd⟩).mp (hall fuel' t' hcall)⟩
    · have hnull : Faults (addGmem d 0 call.key call.ctx.reply.mem p n) t .nullRNode :=
        addGmem_faults_of_full hnew.var hnone hpos
      obtain ⟨fuel', hcall⟩ := hgrant.faults hreq (by simp) hnull
      exact absurd hcall (hnonull fuel')
  · intro hroom
    constructor
    · intro fuel t' hcall
      obtain ⟨_, hstep⟩ := allocation_step hreq hcall
      exact (hQ t' hstep).mpr (hroom (granted_of_returns hreq hcall)).2
    · intro fuel hcall
      obtain ⟨hgrant, hnull⟩ := granted_of_faults hreq hcall (by simp)
      rcases acquires_or_full d t call.key with ⟨s, t₁, hacq⟩ | ⟨hnone, hpos⟩
      · exact hacc.addGmem_not_null hacq hnew.var hnull
      · rcases (hroom hgrant).1 with hslot | hslot
        · exact hslot hnone
        · exact hslot hpos

/-- The call records its allocation exactly when there is room for it. -/
theorem Accounted.recordsCall_iff (hacc : Accounted d ⟨t, live⟩ c)
    (hreq : request call.api = some (p, n)) (hnew : NewHandle live call p) :
    RecordsCall d t call n ↔ (Granted d t call n → HasRoom d t call.key n) := by
  have hcall := hacc.succeeds_iff hreq hnew fun _ => hacc.onChain_of_step hnew
  constructor
  · intro ⟨hrec, hnull⟩ hgrant
    obtain ⟨hslot, hroom⟩ := hcall.mp ⟨hrec, hnull⟩ hgrant
    exact ⟨hslot, hroom⟩
  · intro hroom
    obtain ⟨hrec, hnull⟩ := hcall.mpr fun hgrant => ⟨(hroom hgrant).slot, (hroom hgrant).record⟩
    exact ⟨hrec, hnull⟩

theorem accounted_states {r : List (Call × World)} (hf : Fresh d t) (hs : t.Sentinel)
    (hr : Along (AllocStep d) ⟨t, []⟩ r) : ∀ w ∈ states ⟨t, []⟩ r, ∃ c, Accounted d w c := by
  apply Along.invariant_states (I := fun w => ∃ c, Accounted d w c) (accounted_of_fresh hf hs) hr
  intro w call w' ⟨c, hacc⟩ hstep
  exact hstep.accounted hacc

/-- **When a success is recorded.** In every state that allocations of new handles lead to, and for
every further one: it records what it allocates, and dereferences no null slot, exactly when there
is room for it or it is not granted in the first place. -/
theorem recordsCall_iff_hasRoom {r : List (Call × World)} (hf : Fresh d t) (hs : t.Sentinel)
    (hr : Along (AllocStep d) ⟨t, []⟩ r) (hw : w ∈ states ⟨t, []⟩ r)
    (hreq : request call.api = some (p, n)) (hnew : NewHandle w.live call p) :
    RecordsCall d w.tables call n ↔
      (Granted d w.tables call n → HasRoom d w.tables call.key n) := by
  obtain ⟨c, hacc⟩ := accounted_states hf hs hr w hw
  exact hacc.recordsCall_iff hreq hnew

def firstCall : Call := grantedCall (1, 0) (.cuMemAlloc_v2 16 80)

def secondCall : Call := grantedCall (1, 0) (.cuMemAlloc 24 30)

/-- What the first of the two leads to. -/
def afterFirstCall (d : Dims) : World := allocNext d 2 ⟨initialTables, []⟩ firstCall

theorem along_firstCall (d : Dims)
    (hdone : allocOk d 2 ⟨initialTables, []⟩ firstCall = true) :
    Along (AllocStep d) ⟨initialTables, []⟩ [(firstCall, afterFirstCall d)] :=
  ⟨allocStep_allocNext hdone, trivial⟩

theorem recordsCall_secondCall :
    RecordsCall smallDims (afterFirstCall smallDims).tables secondCall 30 := by
  have hr := along_firstCall smallDims (by decide)
  have hnew : NewHandle (afterFirstCall smallDims).live secondCall 24 := by decide
  apply (recordsCall_iff_hasRoom (fresh_initialTables _) sentinel_initialTables hr
    (final_mem_states _ _) rfl hnew).mpr
  intro _
  exact ⟨Or.inl (by decide), Or.inl (by decide)⟩

/-- Room for two processes and one record. -/
def oneRecord : Dims := ⟨2, 1, Nat.two_pos⟩

/-- **When a success is recorded under its own variable**: exactly when the caller has a slot or can
get one, and there is an empty record, or it is not granted in the first place. -/
theorem recordsAllocation_iff {r : List (Call × World)} (hf : Fresh d t) (hs : t.Sentinel)
    (hr : Along (AllocStep d) ⟨t, []⟩ r) (hw : w ∈ states ⟨t, []⟩ r)
    (hreq : request call.api = some (p, n)) (hnew : NewHandle w.live call p) :
    RecordsAllocation d w.tables call p n ↔
      (Granted d w.tables call n →
        (findRnode d w.tables call.key ≠ none ∨ insertPos d w.tables call.key ≠ none) ∧
          firstEmpty d w.tables ≠ none) := by
  obtain ⟨c, hacc⟩ := accounted_states hf hs hr w hw
  rw [← hacc.succeeds_iff hreq hnew fun _ => hacc.recorded_of_step hnew]
  exact ⟨fun ⟨hrec, hnull⟩ => ⟨hrec, hnull⟩, fun ⟨hrec, hnull⟩ => ⟨hrec, hnull⟩⟩

/-- The first process asks for as much again. -/
def sameSizeCall : Call := grantedCall (1, 0) (.cuMemAlloc 24 80)

/-- With one record it is not recorded, although a record of its size is on the chain. -/
theorem recordsAllocation_sameSize :
    RecordsAllocation smallDims (afterFirstCall smallDims).tables sameSizeCall 24 80 ∧
      ¬ RecordsAllocation oneRecord (afterFirstCall oneRecord).tables sameSizeCall 24 80 := by
  constructor
  · apply (recordsAllocation_iff (fresh_initialTables _) sentinel_initialTables
      (along_firstCall smallDims (by decide)) (final_mem_states _ _) rfl (by decide)).mpr
    intro _
    exact ⟨Or.inl (by decide), by decide⟩
  · intro hrec
    have hgrant : Granted oneRecord (afterFirstCall oneRecord).tables sameSizeCall 80 := by
      have hres : (sameSizeCall.exec oneRecord 2 (afterFirstCall oneRecord).tables).result =
          .ok .CUDA_SUCCESS := by decide
      exact granted_of_returns rfl (runs_of_ok hres).returns
    obtain ⟨_, hempty⟩ := (recordsAllocation_iff (fresh_initialTables _) sentinel_initialTables
      (along_firstCall oneRecord (by decide)) (final_mem_states _ _) rfl (by decide)).mp hrec hgrant
    exact hempty (by decide)

theorem not_onChain_afterFirstCall :
    ¬ OnChain oneRecord (afterFirstCall oneRecord).tables (1, 0) 30 := by
  intro ⟨s, i, hfind, ⟨l, hchain⟩, hlive, hbytes⟩
  have hslot : findRnode oneRecord (afterFirstCall oneRecord).tables (1, 0) = some 0 := by decide
  obtain rfl : 0 = s := Option.some.inj (hslot.symm.trans hfind)
  have hentry : (afterFirstCall oneRecord).tables.entry 0 = 0 := by decide
  have hnext : (afterFirstCall oneRecord).tables.next 0 = -1 := by decide
  have hsen : (afterFirstCall oneRecord).tables.Sentinel := ⟨by decide, by decide⟩
  rw [hentry] at hchain
  cases l with
  | nil =>
      obtain rfl : 0 = i := hchain
      exact absurd hbytes (by decide)
  | cons a l =>
      obtain ⟨rfl, _, hrest⟩ := hchain
      rw [hnext] at hrest
      exact hsen.not_live_of_walk hrest (fun _ hb => hb) hlive

/-- **A success can go unrecorded**: the second allocation finds the only record in use. -/
theorem not_recordsCall_of_full :
    ¬ ∀ (d : Dims) (t : Tables) (r : List (Call × World)) (w : World) (call : Call) (p : Ptr)
      (n : UInt64), Fresh d t → t.Sentinel → Along (AllocStep d) ⟨t, []⟩ r →
      w ∈ states ⟨t, []⟩ r → request call.api = some (p, n) → NewHandle w.live call p →
      RecordsCall d w.tables call n := by
  intro hall
  have hr := along_firstCall oneRecord (by decide)
  have hmem := final_mem_states ⟨initialTables, []⟩ [(firstCall, afterFirstCall oneRecord)]
  have hrec := hall oneRecord initialTables _ (afterFirstCall oneRecord) secondCall 24 30
    (fresh_initialTables _) sentinel_initialTables hr hmem rfl (by decide)
  obtain ⟨c, hacc⟩ := accounted_states (fresh_initialTables _) sentinel_initialTables hr _ hmem
  have hgrant : Granted oneRecord (afterFirstCall oneRecord).tables secondCall 30 := by
    have hres : (secondCall.exec oneRecord 2 (afterFirstCall oneRecord).tables).result =
        .ok .CUDA_SUCCESS := by decide
    exact granted_of_returns rfl (runs_of_ok hres).returns
  have hroom := (hacc.recordsCall_iff rfl (by decide)).mp hrec hgrant
  rcases hroom.record with hempty | hchain
  · exact hempty (by decide)
  · exact not_onChain_afterFirstCall hchain

end Vcuda.Hijack
