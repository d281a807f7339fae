import Vcuda.Hijack.Sessions
import Vcuda.Rnm.Total

/-!
# Is the accounting exact?

`get_gmem_used()` against the sum of the charges of the live allocations. It sums the first record
of every process only, and a release leaves the first record's bytes and the process's index of it
in place. So it is exact as long as every process allocates once and nothing is released, and with
charges that are not zero it is exact no longer (`exact_iff_keepsExact`).
-/

namespace Vcuda.Hijack

open Traced RNM Tables

/-- `process_exist` finds every process alive. -/
abbrev alive : RNode → Bool := fun _ => true

/-- The sum of the charges of live allocations. -/
def charged (live : List Allocation) : Nat := (live.map (·.bytes.toNat)).sum

/-- `get_gmem_used()` returns the sum of the charges. -/
def Exact (d : Dims) (w : World) : Prop :=
  ∃ fuel used, Returns (gmemUsed d fuel alive) w.tables used w.tables ∧
    used.toNat = charged w.live

/-- A successful release of a live allocation. -/
def FreeStep (d : Dims) (w : World) (call : Call) (w' : World) : Prop :=
  ∃ a ∈ w.live, a.owner = call.key ∧ role call.api = .frees a.handle ∧
    StillHeld w.live call.key call.ctx.mem ∧
    (∃ fuel, Returns (call.exec d fuel) w.tables .CUDA_SUCCESS w'.tables) ∧
    w'.live = w.live.erase a

/-- A successful allocation of a new handle, while there are records, or a successful release. The
charges stay below `2^64`. -/
def SessionStep (d : Dims) (w : World) (call : Call) (w' : World) : Prop :=
  ((AllocStep d w call w' ∧ firstEmpty d w.tables ≠ none) ∨ FreeStep d w call w') ∧
    charged w'.live < 2 ^ 64

/-- The call is the first allocation of its process. (The slot that it gets may lie beyond the
record table; then `gmem_used` must not find a successor there.) -/
def KeepsExact (d : Dims) (w : World) (call : Call) : Prop :=
  role call.api = .allocates ∧ findRnode d w.tables call.key = none ∧
    ∀ s, insertPos d w.tables call.key = some s → s < d.lenGmem ∨ ¬ w.tables.next s > -1

/-- The call does not ask for nothing. -/
def Charges (call : Call) : Prop := ∀ p n, request call.api = some (p, n) → n ≠ 0

variable {d : Dims} {t t' : Tables} {call : Call} {key : PidSt} {p : Ptr} {n : UInt64} {s j : Nat}
  {live : List Allocation} {w w' : World} {fuel : Nat}

@[simp] theorem charged_nil : charged [] = 0 := rfl

@[simp] theorem charged_cons (a : Allocation) (live : List Allocation) :
    charged (a :: live) = a.bytes.toNat + charged live := by
  simp [charged]

theorem charged_erase {a : Allocation} (ha : a ∈ live) :
    a.bytes.toNat + charged (live.erase a) = charged live := by
  have hperm := List.perm_cons_erase ha
  rw [← charged_cons]
  exact ((hperm.map _).sum_nat).symm

/-! ## Exactness in a state -/

/-- The sums of all processes end, and make up the charges. -/
theorem exact_iff : Exact d w ↔
    (∀ s, Exists d w.tables s → ¬ SumLoops w.tables s) ∧
      headTotal d w.tables alive % 2 ^ 64 = charged w.live := by
  have hsums : (∀ s, s < d.lenRnode → Summed w.tables alive s → ¬ SumLoops w.tables s) ↔
      ∀ s, Exists d w.tables s → ¬ SumLoops w.tables s := by
    constructor
    · intro h s hex
      exact h s hex.1 ⟨hex.2, rfl⟩
    · intro h s hs hsum
      exact h s ⟨hs, hsum.1⟩
  rw [← hsums]
  constructor
  · intro ⟨fuel, used, hr, hval⟩
    obtain ⟨hloops, rfl⟩ := gmemUsed_returns_iff.mp ⟨fuel, hr⟩
    refine ⟨hloops, ?_⟩
    rw [← hval, UInt64.toNat_ofNat']
  · intro ⟨hloops, htotal⟩
    obtain ⟨fuel, hr⟩ := gmemUsed_returns_iff.mpr ⟨hloops, rfl⟩
    refine ⟨fuel, _, hr, ?_⟩
    rw [UInt64.toNat_ofNat']
    exact htotal

/-- Every process has a first record, which links nowhere, and these records are the allocations. -/
structure Tally (d : Dims) (w : World) : Prop where
  accounted : ∃ c, Accounted d w c
  heads : ∀ s, Exists d w.tables s → w.tables.Live (w.tables.entry s)
  flat : ∀ i, InRange d i → w.tables.next i = -1
  ends : ∀ s, Exists d w.tables s → ¬ w.tables.next s > -1
  total : headTotal d w.tables alive = charged w.live
  fits : charged w.live < 2 ^ 64

theorem tally_of_fresh (hf : Fresh d t) (hs : t.Sentinel) : Tally d ⟨t, []⟩ := by
  have hno : ∀ s, ¬ Exists d t s := fun s => not_exists_of_fresh hf
  refine ⟨accounted_of_fresh hf hs, ?_, ?_, ?_, ?_, by simp⟩
  · intro s hex
    exact absurd hex (hno s)
  · intro i hi
    show (t.gmem i).next = -1
    rw [hf.gmem i hi]
    rfl
  · intro s hex
    exact absurd hex (hno s)
  · apply Finset.sum_eq_zero
    intro s hs
    have hsum : ¬ Summed t alive s := fun h => hno s ⟨Finset.mem_range.mp hs, h.1⟩
    rw [slotBytes, if_neg hsum]

theorem Tally.exact (ht : Tally d w) : Exact d w := by
  refine exact_iff.mpr ⟨fun s hex hloop => ht.ends s hex hloop.2, ?_⟩
  rw [ht.total]
  exact Nat.mod_eq_of_lt ht.fits

/-! ## What the calls make of it -/

/-- The process `key` gets the slot `s`, with the record `j` as its first. -/
structure Opens (d : Dims) (t : Tables) (key : PidSt) (p : Ptr) (n : UInt64) (s j : Nat)
    (t' : Tables) : Prop where
  fresh : findRnode d t key = none
  pos : insertPos d t key = some s
  taken : Exists d t' s
  entry : t'.entry s = j
  others : ∀ s', s' ≠ s → t'.rnode s' = t.rnode s'
  gmem : t'.gmem = (putNew t j p n).gmem

section Opens

variable (hop : Opens d t key p n s j t')

include hop

theorem Opens.gmem_self : t'.gmem j = GMem.new p n := by
  rw [hop.gmem, putNew, modifyGmem_gmem_self]

theorem Opens.gmem_ne {i : Int} (hi : i ≠ j) : t'.gmem i = t.gmem i := by
  rw [hop.gmem]
  exact modifyGmem_gmem_ne hi

theorem Opens.next_ne {i : Int} (hi : i ≠ j) : t'.next i = t.next i := by
  unfold Tables.next
  rw [hop.gmem_ne hi]

theorem Opens.next_self : t'.next j = -1 := by
  unfold Tables.next
  rw [hop.gmem_self]
  rfl

theorem Opens.exists_ne {s' : Nat} (hne : s' ≠ s) : Exists d t' s' ↔ Exists d t s' :=
  exists_of_rnode (hop.others s' hne)

theorem Opens.entry_ne {s' : Nat} (hne : s' ≠ s) : t'.entry s' = t.entry s' :=
  entry_of_rnode (hop.others s' hne)

/-- The size of the new record is added, when it was the first one of no other process. -/
theorem Opens.headTotal
    (hheads : ∀ s', s' ≠ s → Exists d t s' → t.entry s' ≠ j) :
    headTotal d t' alive = headTotal d t alive + n.toNat := by
  have hzero : slotBytes t alive s = 0 := by
    have hno := not_exists_of_insertPos hop.fresh hop.pos
    rw [slotBytes, if_neg fun h => hno ⟨hop.taken.1, h.1⟩]
  have hself : slotBytes t' alive s = n.toNat := by
    have hj1 : (j : Int) > -1 := by omega
    rw [slotBytes, if_pos ⟨hop.taken.2, rfl⟩, startBytes, hop.entry, if_pos hj1, hop.gmem_self,
      GMem.new_bytes]
  have hothers : ∀ s', s' < d.lenRnode → s' ≠ s →
      slotBytes t' alive s' = slotBytes t alive s' := by
    intro s' hs' hne
    apply slotBytes_congr (hop.others s' hne)
    intro hsum
    rw [hop.gmem_ne (hheads s' hne ⟨hs', hsum.1⟩)]
  rw [headTotal_add hop.taken.1 hzero hothers, hself]

end Opens

/-- What an allocation does while there are records: it adds one behind those of its process, or
opens a slot with it. -/
theorem AllocStep.cases (hacc : ∃ c, Accounted d w c) (hstep : AllocStep d w call w')
    (hroom : firstEmpty d w.tables ≠ none) :
    ∃ p n s j, request call.api = some (p, n) ∧ p ≠ 0 ∧ firstEmpty d w.tables = some j ∧
      w'.live = call.allocation p n :: w.live ∧
      ((findRnode d w.tables call.key = some s ∧ Links (putNew w.tables j p n) s j w'.tables) ∨
        Opens d w.tables call.key p n s j w'.tables) := by
  obtain ⟨c, hacc⟩ := hacc
  obtain ⟨p, n, hreq, hnew, ⟨fuel, hr⟩, hlive⟩ := hstep
  obtain ⟨_, hadd⟩ := allocation_step hreq hr
  obtain ⟨hp, s, t₁, reg, hacq, hreg⟩ := step_addGmem hacc.sound.sentinel hadd
  obtain ⟨c₁, hacc₁⟩ := hacc.acquire hacq
  have hfirst := hacq.firstEmpty_eq
  rcases hacc₁.registers hnew hacq.exists_self hacq.keyOf_self hreg with ⟨j, hj, hl⟩ | ⟨hfull, _⟩
  · refine ⟨p, n, s, j, hreq, hp, hfirst ▸ hj, hlive, ?_⟩
    have htaken : Exists d w'.tables s := (exists_congr hl.slots).mpr hacq.exists_self
    rcases hacq with ⟨hfind, rfl⟩ | ⟨hnone, hpos, rfl⟩
    · exact Or.inl ⟨hfind, hl⟩
    · right
      have hentry : (putNew (w.tables.putRnode s (RNode.new call.key.1 call.key.2 (-1))) j p
          n).entry s = -1 := by simp [putNew]
      rcases hl with ⟨_, ht'⟩ | ⟨hne, _⟩
      · refine ⟨hnone, hpos, htaken, ?_, ?_, ?_⟩
        · rw [ht', setEntry_entry_self]
        · intro s' hne
          rw [ht', setEntry_rnode_ne hne]
          exact putRnode_rnode_ne hne
        · rw [ht']
          rfl
      · exact absurd hentry hne
  · exact absurd (hfirst ▸ hfull) hroom

/-- The first records keep their bytes when a record is added behind one of them. -/
theorem Tally.headTotal_of_links (ht : Tally d w) (hj : firstEmpty d w.tables = some j)
    (hex : Exists d w.tables s) (hl : Links (putNew w.tables j p n) s j t') :
    headTotal d t' alive = headTotal d w.tables alive := by
  obtain ⟨c, hacc⟩ := ht.accounted
  have hentry : w.tables.entry s ≠ -1 :=
    ne_sentinel_of_live hacc.sound.sentinel (ht.heads s hex)
  have hrn : t'.rnode = w.tables.rnode := by
    rcases hl with ⟨he, _⟩ | ⟨_, l, r, _, _, ⟨_, rfl⟩ | ⟨_, rfl⟩⟩
    · exact absurd he hentry
    · rfl
    · rfl
  apply headTotal_congr
  intro s' hs'
  apply slotBytes_congr (congrFun hrn s')
  intro hsum
  exact (ptr_of_registered hj hl (ht.heads s' ⟨hs', hsum.1⟩)).2

/-- A release keeps all bytes. -/
theorem headTotal_of_release {mem : HostMem} {h : Handle} (hs : t.Sentinel)
    (hstep : Step d t (.removeGmem key mem h) t') :
    headTotal d t' alive = headTotal d t alive := by
  rcases step_removeGmem hs hstep with
    ⟨_, rfl⟩ | ⟨s, l, x, _, _, ⟨_, rfl⟩ | ⟨_, rfl⟩⟩
  · rfl
  · rfl
  · apply headTotal_congr
    intro s' _
    apply slotBytes_congr (congrFun (unlink_rnode ..) s')
    intro _
    exact unlink_bytes ..

/-- **The first allocation of a process keeps the tally.** -/
theorem Tally.opens (ht : Tally d w) (hacc' : ∃ c, Accounted d w' c) (hp : p ≠ 0)
    (hj : firstEmpty d w.tables = some j) (hlive : w'.live = call.allocation p n :: w.live)
    (hop : Opens d w.tables call.key p n s j w'.tables)
    (hend : s < d.lenGmem ∨ ¬ w.tables.next s > -1) (hfit : charged w'.live < 2 ^ 64) :
    Tally d w' := by
  obtain ⟨hjr, hjlive, _⟩ := firstEmpty_eq_some.mp hj
  -- the first records of the others are in use, so the new one is none of them
  have hheads : ∀ s', s' ≠ s → Exists d w.tables s' → w.tables.entry s' ≠ j :=
    fun s' _ hex he => hjlive (he ▸ ht.heads s' hex)
  refine ⟨hacc', ?_, ?_, ?_, ?_, hfit⟩
  · intro s' hex
    unfold Tables.Live
    by_cases hne : s' = s
    · rw [hne, hop.entry, hop.gmem_self]
      exact hp
    · have hex := (hop.exists_ne hne).mp hex
      rw [hop.entry_ne hne, hop.gmem_ne (hheads s' hne hex)]
      exact ht.heads s' hex
  · intro i hi
    by_cases hij : i = j
    · rw [hij]
      exact hop.next_self
    · rw [hop.next_ne hij]
      exact ht.flat i hi
  · intro s' hex
    by_cases hsj : (s' : Int) = j
    · rw [hsj, hop.next_self]
      simp
    · rw [hop.next_ne hsj]
      by_cases hne : s' = s
      · subst hne
        rcases hend with hs | hs
        · rw [ht.flat s' (inRange_natCast.mpr hs)]
          simp
        · exact hs
      · exact ht.ends s' ((hop.exists_ne hne).mp hex)
  · rw [hop.headTotal hheads, ht.total, hlive, charged_cons]
    exact Nat.add_comm ..

/-- A step that satisfies `KeepsExact` keeps the tally. -/
theorem Tally.step (ht : Tally d w) (hstep : SessionStep d w call w')
    (hkeep : KeepsExact d w call) : Tally d w' := by
  obtain ⟨hrole, hnone, hend⟩ := hkeep
  rcases hstep.1 with ⟨halloc, hroom⟩ | ⟨a, _, _, hfree, _⟩
  · have hacc' : ∃ c, Accounted d w' c := by
      obtain ⟨c, hacc⟩ := ht.accounted
      exact halloc.accounted hacc
    obtain ⟨p, n, s, j, _, hp, hj, hlive, ⟨hfind, _⟩ | hop⟩ := halloc.cases ht.accounted hroom
    · rw [hnone] at hfind
      cases hfind
    · exact ht.opens hacc' hp hj hlive hop (hend s hop.pos) hstep.2
  · rw [hrole] at hfree
    cases hfree

/-- No other step leads to an exact sum. -/
theorem Tally.keepsExact (ht : Tally d w) (hpos : ∀ a ∈ w.live, a.bytes.toNat ≠ 0)
    (hstep : SessionStep d w call w') (hcharge : Charges call) (hexact : Exact d w') :
    KeepsExact d w call := by
  obtain ⟨hloops, htotal⟩ := exact_iff.mp hexact
  obtain ⟨⟨halloc, hroom⟩ | ⟨a, ha, _, hfree, _, ⟨fuel, hr⟩, hlive⟩, hfit⟩ := hstep
  · obtain ⟨p, n, s, j, hreq, _, hj, hlive, ⟨hfind, hl⟩ | hop⟩ := halloc.cases ht.accounted hroom
    · -- a second record: the sum is still that of the first ones
      have hsame := ht.headTotal_of_links hj (findRnode_eq_some hfind).1 hl
      have hn : n.toNat ≠ 0 := fun hz => hcharge p n hreq (UInt64.toNat_inj.mp hz)
      rw [hsame, ht.total, hlive, charged_cons] at htotal
      rw [hlive, charged_cons] at hfit
      change _ = n.toNat + _ at htotal
      change n.toNat + _ < _ at hfit
      omega
    · refine ⟨role_of_request hreq, hop.fresh, ?_⟩
      intro s' hpos'
      obtain rfl := Option.some.inj (hop.pos.symm.trans hpos')
      by_contra hno
      obtain ⟨hfar, hnext⟩ := not_or.mp hno
      obtain ⟨hjr, _, _⟩ := firstEmpty_eq_some.mp hj
      have hsj : (s : Int) ≠ j := by omega
      -- the sum of the new process never ends
      refine hloops s hop.taken ⟨?_, ?_⟩
      · rw [hop.entry]
        omega
      · rw [hop.next_ne hsj]
        exact not_not.mp hnext
  · obtain ⟨c, hacc⟩ := ht.accounted
    rw [headTotal_of_release hacc.sound.sentinel (release_step hfree hr), ht.total, hlive] at htotal
    have hgone := charged_erase ha
    have hbytes := hpos a ha
    have hfits := ht.fits
    omega

theorem SessionStep.charges (hstep : SessionStep d w call w') (hcharge : Charges call)
    (hpos : ∀ a ∈ w.live, a.bytes.toNat ≠ 0) : ∀ a ∈ w'.live, a.bytes.toNat ≠ 0 := by
  rcases hstep.1 with ⟨⟨p, n, hreq, _, _, hlive⟩, _⟩ | ⟨a, _, _, _, _, _, hlive⟩
  · rw [hlive]
    apply List.forall_mem_cons.mpr ⟨?_, hpos⟩
    intro hz
    exact hcharge p n hreq (UInt64.toNat_inj.mp hz)
  · rw [hlive]
    intro b hb
    exact hpos b (List.mem_of_mem_erase hb)

/-- **When the accounting is exact.** Along every run of successful calls, `get_gmem_used()` returns
the sum of the charges in every state if each call is the first allocation of its process, and, if
no charge is zero, only then. -/
theorem exact_iff_keepsExact {r : List (Call × World)} (hf : Fresh d t) (hs : t.Sentinel)
    (hr : Along (SessionStep d) ⟨t, []⟩ r) :
    (Along (fun w call _ => KeepsExact d w call) ⟨t, []⟩ r → ∀ w ∈ states ⟨t, []⟩ r, Exact d w) ∧
    ((∀ x ∈ r, Charges x.1) → (∀ w ∈ states ⟨t, []⟩ r, Exact d w) →
      Along (fun w call _ => KeepsExact d w call) ⟨t, []⟩ r) := by
  have hstart := tally_of_fresh hf hs
  constructor
  · intro hkeep w hw
    have hboth := Along.and_iff.mpr ⟨hr, hkeep⟩
    have ht : ∀ w ∈ states ⟨t, []⟩ r, Tally d w := by
      apply Along.invariant_states hstart hboth
      intro w call w' ht hstep
      exact ht.step hstep.1 hstep.2
    exact (ht w hw).exact
  · intro hcharges
    apply (Along.states_iff (I := fun w => Tally d w ∧ ∀ a ∈ w.live, a.bytes.toNat ≠ 0)
      ⟨hstart, by simp⟩ (hr.and_label hcharges) ?_ ?_ ?_).mp
    · intro w hw
      exact hw.1.exact
    · intro w call w' hw hstep hkeep
      exact ⟨hw.1.step hstep.1 hkeep, hstep.1.charges hstep.2 hw.2⟩
    · intro w call w' hw hstep hexact
      exact hw.1.keepsExact hw.2 hstep.1 hstep.2 hexact

/-- The run that allocations make. -/
def sessionRun (d : Dims) (fuel : Nat) : World → List Call → List (Call × World) :=
  trajectory (allocNext d fuel)

/-- An allocation succeeds, with a record for it, and the charges stay below `2^64`. -/
def sessionOk (d : Dims) (fuel : Nat) (w : World) (call : Call) : Bool :=
  allocOk d fuel w call && (firstEmpty d w.tables).isSome &&
    decide (charged (allocNext d fuel w call).live < 2 ^ 64)

theorem along_sessionRun {calls : List Call}
    (hdone : allSteps (allocNext d fuel) (sessionOk d fuel) w calls = true) :
    Along (SessionStep d) w (sessionRun d fuel w calls) := by
  apply along_trajectory _ hdone
  intro w call hok
  simp only [sessionOk, Bool.and_eq_true, decide_eq_true_eq] at hok
  obtain ⟨⟨halloc, hroom⟩, hfit⟩ := hok
  exact ⟨Or.inl ⟨allocStep_allocNext halloc, Option.isSome_iff_ne_none.mp hroom⟩, hfit⟩

/-- Two processes, one allocation each. -/
def oneEach : List Call :=
  [grantedCall (1, 0) (.cuMemAlloc_v2 16 80), grantedCall (2, 0) (.cuMemAllocManaged 24 30 1)]

theorem exact_oneEach :
    Exact smallDims
      (final ⟨initialTables, []⟩ (sessionRun smallDims 2 ⟨initialTables, []⟩ oneEach)) := by
  have hr : Along (SessionStep smallDims) ⟨initialTables, []⟩
      (sessionRun smallDims 2 ⟨initialTables, []⟩ oneEach) := along_sessionRun (by decide)
  -- every slot is the index of a record, too
  have hnear : ∀ (w : World) (key : PidSt) (s : Nat), insertPos smallDims w.tables key = some s →
      s < smallDims.lenGmem ∨ ¬ w.tables.next s > -1 := by
    intro w key s hpos
    exact Or.inl (Nat.lt_of_lt_of_le (insertPos_lt hpos) (by decide))
  refine (exact_iff_keepsExact (fresh_initialTables _) sentinel_initialTables hr).1 ?_ _
    (final_mem_states _ _)
  exact ⟨⟨rfl, by decide, hnear _ _⟩, ⟨rfl, by decide, hnear _ _⟩, trivial⟩

/-- Two allocations of one process, which gets slot `1`. (The sum of one in slot `0` would not even
end: `ptr_gmem[0].next` is the second record.) -/
def twoByOne : List Call :=
  [grantedCall (1, 1) (.cuMemAlloc_v2 16 80), grantedCall (1, 1) (.cuMemAlloc 24 30)]

/-- **The accounting is not exact**: the second allocation of a process is not counted. -/
theorem not_exact_of_twoByOne :
    ¬ ∀ (d : Dims) (t : Tables) (r : List (Call × World)), Fresh d t → t.Sentinel →
      Along (SessionStep d) ⟨t, []⟩ r → ∀ w ∈ states ⟨t, []⟩ r, Exact d w := by
  intro hall
  have hr : Along (SessionStep smallDims) ⟨initialTables, []⟩
      (sessionRun smallDims 2 ⟨initialTables, []⟩ twoByOne) := along_sessionRun (by decide)
  have hexact := hall smallDims initialTables _ (fresh_initialTables _) sentinel_initialTables hr _
    (final_mem_states _ _)
  exact absurd (exact_iff.mp hexact).2 (by decide)

end Vcuda.Hijack
