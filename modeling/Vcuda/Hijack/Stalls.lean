import Vcuda.Hijack.Capacity
import Vcuda.Hijack.History
import Vcuda.Rnm.ProbePaths
import Vcuda.Rnm.Total

/-!
# When the check of the quota does not end

For a process in slot `s`, `gmem_used` adds the size of its first allocation, and then follows the
link of the record number `s`, which is that of the allocation number `s` of all processes. Whether
a call gets past its check is therefore decided by who has allocated when
(`gmemUsed_of_history`). A process that is alone gets past it one time more than its slot has
predecessors, and then never again (`lone_process_stalls`).
-/

namespace Vcuda.Hijack

open Traced RNM Tables LogChains

/-- The allocation number `j` has been followed by another one of its process. -/
def Followed (log : List Allocation) (j : Nat) : Prop :=
  ∃ (i : Nat) (a b : Allocation),
    j < i ∧ log[j]? = some a ∧ log[i]? = some b ∧ b.owner = a.owner

/-- The size of the first allocation of a process. -/
def firstBytes (log : List Allocation) (key : PidSt) : Nat :=
  match log.find? (·.owner = key) with
  | some a => a.bytes.toNat
  | none => 0

variable {d : Dims} {t : Tables} {log : List Allocation} {a : Allocation} {call : Call}
  {key : PidSt} {p : Ptr} {n used : UInt64} {s i j : Nat} {w w' : World} {pe : RNode → Bool}
  {r : List (Call × World)}

theorem index_gt {o : Option Nat} : index o > -1 ↔ o ≠ none := by
  cases o with
  | none => simp [index]
  | some i =>
      simp only [index, ne_eq, reduceCtorEq, not_false_eq_true, iff_true]
      omega

/-- The link of a record, whoever's it is. -/
theorem Logged.next_gt (h : Logged d t log) (hs : s < d.lenGmem) :
    t.next s > -1 ↔ Followed log s := by
  cases ha : log[s]? with
  | none =>
      have hle := List.getElem?_eq_none_iff.mp ha
      have hnext : t.next s = -1 := by
        rw [Tables.next, h.unused s hle hs]
        rfl
      rw [hnext]
      refine iff_of_false (by simp) ?_
      rintro ⟨i, a, b, _, ha', _⟩
      rw [ha] at ha'
      cases ha'
  | some a =>
      rw [h.next ha, index_gt, Ne, nextFrom_eq_none]
      constructor
      · intro hex
        by_contra hnone
        refine hex fun m hm hkey => hnone ?_
        obtain ⟨b, hb, howner⟩ := exists_of_getElem?_owners hkey
        exact ⟨m, a, b, hm, ha, hb, howner⟩
      · rintro ⟨i, a', b, hi, ha', hb, howner⟩ hall
        obtain rfl := Option.some.inj (ha.symm.trans ha')
        exact hall i hi (howner ▸ getElem?_owners hb)

theorem Logged.entry_gt (h : Logged d t log) (hex : Exists d t s) :
    t.entry s > -1 ↔ t.keyOf s ∈ owners log := by
  rw [h.entry s hex, index_gt, nextFrom_zero_ne_none]

/-- What the sum starts with is the first allocation. -/
theorem Logged.startBytes (h : Logged d t log) (hex : Exists d t s) :
    (startBytes t (t.entry s)).toNat = firstBytes log (t.keyOf s) := by
  unfold RNM.startBytes firstBytes
  rw [h.entry s hex]
  cases hm : nextFrom (owners log) (t.keyOf s) 0 with
  | none =>
      have hfind : log.find? (·.owner = t.keyOf s) = none := by
        rw [List.find?_eq_none]
        intro a ha howner
        obtain ⟨j, hj⟩ := List.mem_iff_getElem?.mp ha
        refine nextFrom_eq_none.mp hm j (Nat.zero_le j) ?_
        rw [getElem?_owners hj, of_decide_eq_true howner]
      rw [hfind]
      rfl
  | some m =>
      obtain ⟨_, hkey, hbefore⟩ := nextFrom_eq_some.mp hm
      obtain ⟨a, ha, howner⟩ := exists_of_getElem?_owners hkey
      obtain ⟨hlt, hget⟩ := List.getElem?_eq_some_iff.mp ha
      have hfind : log.find? (·.owner = t.keyOf s) = some a := by
        rw [List.find?_eq_some_iff_getElem]
        refine ⟨decide_eq_true howner, m, hlt, hget, fun j hj => ?_⟩
        have hjlt := Nat.lt_trans hj hlt
        rw [Bool.not_eq_true', decide_eq_false_iff_not]
        intro heq
        refine hbefore j (Nat.zero_le j) hj ?_
        rw [getElem?_owners (List.getElem?_eq_getElem hjlt), heq]
      have hpos : index (some m) > -1 := index_gt.mpr nofun
      rw [hfind, if_pos hpos]
      show (t.gmem m).bytes.toNat = _
      rw [h.record m a ha]

/-- The sum over a log. -/
theorem Logged.gmemUsed_returns_iff (h : Logged d t log) (hlen : d.lenRnode ≤ d.lenGmem) :
    (∃ fuel, Returns (gmemUsed d fuel pe) t used t) ↔
      (∀ s, Exists d t s → pe (t.rnode s) = true → t.keyOf s ∈ owners log → ¬ Followed log s) ∧
      used = UInt64.ofNat (∑ s ∈ Finset.range d.lenRnode,
        if Summed t pe s then firstBytes log (t.keyOf s) else 0) := by
  have htotal : headTotal d t pe = ∑ s ∈ Finset.range d.lenRnode,
      if Summed t pe s then firstBytes log (t.keyOf s) else 0 := by
    refine Finset.sum_congr rfl fun s hs => ?_
    unfold slotBytes
    split
    · next hsum => exact h.startBytes ⟨Finset.mem_range.mp hs, hsum.1⟩
    · rfl
  have hloops : (∀ s, s < d.lenRnode → Summed t pe s → ¬ SumLoops t s) ↔
      ∀ s, Exists d t s → pe (t.rnode s) = true → t.keyOf s ∈ owners log → ¬ Followed log s := by
    constructor
    · intro hno s hex hpe hmem hfollowed
      refine hno s hex.1 ⟨hex.2, hpe⟩ ⟨(h.entry_gt hex).mpr hmem, ?_⟩
      exact (h.next_gt (Nat.lt_of_lt_of_le hex.1 hlen)).mpr hfollowed
    · intro hno s hs hsum hloop
      have hex : Exists d t s := ⟨hs, hsum.1⟩
      refine hno s hex hsum.2 ((h.entry_gt hex).mp hloop.1) ?_
      exact (h.next_gt (Nat.lt_of_lt_of_le hs hlen)).mp hloop.2
  rw [RNM.gmemUsed_returns_iff, htotal, hloops]

/-- **When `gmem_used` returns, and what**: after any allocations it ends exactly when, for every
slot `s` of a live process that has a record, the allocation number `s` is the last one of its
process; and it counts the first allocation of each live process. -/
theorem gmemUsed_of_history (hlen : d.lenRnode ≤ d.lenGmem) (hf : Fresh d t) (hs : t.Sentinel)
    (hr : Along (AllocStep d) ⟨t, []⟩ r) (hw : w ∈ states ⟨t, []⟩ r) (pe : RNode → Bool)
    (used : UInt64) :
    (∃ fuel, Returns (gmemUsed d fuel pe) w.tables used w.tables) ↔
      (∀ s, Exists d w.tables s → pe (w.tables.rnode s) = true →
        w.tables.keyOf s ∈ owners (recorded d w) → ¬ Followed (recorded d w) s) ∧
      used = UInt64.ofNat (∑ s ∈ Finset.range d.lenRnode,
        if Summed w.tables pe s then firstBytes (recorded d w) (w.tables.keyOf s) else 0) :=
  (recorded_states hf hs hr w hw).2.logged.gmemUsed_returns_iff hlen

/-- **It can fail to end**: once the first process has allocated again, the record number `0` links
on, and that is the number of its slot. -/
theorem gmemUsed_inTurns :
    (∃ fuel, Returns (gmemUsed smallDims fuel fun _ => true)
      (final ⟨initialTables, []⟩ (allocRun smallDims 3 ⟨initialTables, []⟩ (inTurns.take 2))).tables
      110
      (final ⟨initialTables, []⟩
        (allocRun smallDims 3 ⟨initialTables, []⟩ (inTurns.take 2))).tables) ∧
    ¬ ∃ fuel used, Returns (gmemUsed smallDims fuel fun _ => true)
      (final ⟨initialTables, []⟩ (allocRun smallDims 3 ⟨initialTables, []⟩ inTurns)).tables used
      (final ⟨initialTables, []⟩ (allocRun smallDims 3 ⟨initialTables, []⟩ inTurns)).tables := by
  have hiff : ∀ calls, allSteps (allocNext smallDims 3) (allocOk smallDims 3) ⟨initialTables, []⟩
      calls = true → _ := fun calls hok =>
    gmemUsed_of_history (by decide) (fresh_initialTables smallDims) sentinel_initialTables
      (along_allocRun hok) (final_mem_states _ _) fun _ => true
  constructor
  · refine (hiff (inTurns.take 2) (by decide) 110).mpr ⟨?_, by decide⟩
    rintro s - - - ⟨i, a, b, hi, ha, hb, howner⟩
    have hlog : recorded smallDims (final ⟨initialTables, []⟩
        (allocRun smallDims 3 ⟨initialTables, []⟩ (inTurns.take 2))) =
        [⟨(1, 0), 16, 16, 80⟩, ⟨(2, 0), 24, 24, 30⟩] := by decide
    rw [hlog] at ha hb
    have hi2 : i < 2 := (List.getElem?_eq_some_iff.mp hb).1
    obtain rfl : i = 1 := by omega
    obtain rfl : s = 0 := by omega
    obtain rfl := Option.some.inj ha
    obtain rfl := Option.some.inj hb
    exact absurd howner (by decide)
  · rintro ⟨fuel, used, hr⟩
    refine ((hiff inTurns (by decide) used).mp ⟨fuel, hr⟩).1 0 ⟨by decide, by decide⟩ rfl
      (by decide) ?_
    exact ⟨2, ⟨(1, 0), 16, 16, 80⟩, ⟨(1, 0), 32, 32, 5⟩, by decide, by decide, by decide, rfl⟩

/-! ## A process that is alone -/

/-- A call of the process, which finds it alive and asks what is used. -/
structure Asks (key : PidSt) (call : Call) : Prop where
  caller : call.key = key
  used : ignoresUsed call.api = false
  exist : ∀ rn : RNode, (rn.pid, rn.t) = key → call.processExist rn = true

/-- Nobody else has allocated. -/
structure Alone (d : Dims) (key : PidSt) (w : World) : Prop where
  accounted : ∃ c, Accounted d w c
  recorded : Recorded d w
  owner : ∀ a ∈ w.live, a.owner = key
  slot : ∀ s, Exists d w.tables s → s = hash d key 0

theorem Alone.keyOf (h : Alone d key w) (hex : Exists d w.tables s) : w.tables.keyOf s = key := by
  obtain ⟨a, ha, howner⟩ := (h.recorded.keys _).mp ⟨s, hex, rfl⟩
  rw [← howner, h.owner a ha]

/-- Without other processes the first probe is free. -/
theorem insertPos_of_none (hno : ∀ s, ¬ Exists d t s) :
    insertPos d t key = some (hash d key 0) := by
  obtain ⟨m, hm⟩ := Nat.exists_eq_succ_of_ne_zero d.rnode_pos.ne'
  unfold insertPos
  rw [hm, List.range_succ_eq_map, insertPos.go]
  have hstat : (t.rnode (hash d key 0)).stat ≠ .EXIST := fun h => hno _ ⟨hash_lt 0, h⟩
  cases hs : (t.rnode (hash d key 0)).stat with
  | NONEXIST => simp
  | DELETED => simp
  | EXIST => exact absurd hs hstat

theorem Alone.step (h : Alone d key w) (hkey : call.key = key) (hstep : AllocStep d w call w') :
    Alone d key w' := by
  obtain ⟨c, hacc⟩ := h.accounted
  refine ⟨hstep.accounted hacc, hstep.recorded hacc h.recorded, ?_, ?_⟩
  · obtain ⟨p, n, _, _, _, hlive⟩ := hstep
    rw [hlive]
    exact List.forall_mem_cons.mpr ⟨hkey, h.owner⟩
  · obtain ⟨p, n, hreq, _, ⟨fuel, hr⟩, _⟩ := hstep
    obtain ⟨_, hadd⟩ := allocation_step hreq hr
    obtain ⟨_, s, t₁, reg, hacq, hreg⟩ := step_addGmem hacc.sound.sentinel hadd
    intro s' hex
    have hex₁ : Exists d t₁ s' := (exists_congr hreg.slots).mp hex
    by_cases hs : s' = s
    · subst hs
      rcases hacq with ⟨hfind, _⟩ | ⟨hfind, hpos, _⟩
      · exact h.slot s' (findRnode_eq_some hfind).1
      · have hno : ∀ s, ¬ Exists d w.tables s := by
          intro s hex
          have hsome := hacc.sound.keyed.findRnode_eq_some_iff.mpr ⟨hex, h.keyOf hex⟩
          rw [hkey, hsome] at hfind
          cases hfind
        rw [insertPos_of_none hno, Option.some.injEq] at hpos
        rw [← hpos, hkey]
    · exact h.slot s' ((hacq.exists_of_ne hs).mp hex₁)

theorem alone_of_fresh (hf : Fresh d t) (hs : t.Sentinel) : Alone d key ⟨t, []⟩ :=
  ⟨accounted_of_fresh hf hs, recorded_of_fresh hf, nofun,
    fun _ hex => absurd hex (not_exists_of_fresh hf)⟩

/-- Every allocation but the last is followed by another one. -/
theorem Alone.followed_iff (h : Alone d key w) (hlen : d.lenRnode < d.lenGmem) :
    Followed (Hijack.recorded d w) (hash d key 0) ↔ hash d key 0 + 1 < w.live.length := by
  have hslot : hash d key 0 < d.lenRnode := hash_lt 0
  have hmem : ∀ {j : Nat} {a}, (Hijack.recorded d w)[j]? = some a → a.owner = key := by
    intro j a hj
    exact h.owner a (List.mem_reverse.mp (List.mem_of_mem_take (List.mem_of_getElem? hj)))
  constructor
  · rintro ⟨i, a, b, hi, _, hb, _⟩
    have hlt := (List.getElem?_eq_some_iff.mp hb).1
    rw [length_recorded] at hlt
    omega
  · intro hlive
    have hlt : hash d key 0 + 1 < (Hijack.recorded d w).length := by
      rw [length_recorded]
      omega
    have ha := List.getElem?_eq_getElem (Nat.lt_of_succ_lt hlt)
    have hb := List.getElem?_eq_getElem hlt
    exact ⟨_, _, _, Nat.lt_succ_self _, ha, hb, (hmem hb).trans (hmem ha).symm⟩

/-- **When its next call gets past the check.** -/
theorem Alone.gmemUsed_returns_iff (h : Alone d key w) (hlen : d.lenRnode < d.lenGmem)
    (hask : Asks key call) :
    (∃ fuel used, Returns (gmemUsed d fuel call.processExist) w.tables used w.tables) ↔
      w.live.length ≤ hash d key 0 + 1 := by
  have hiff := fun used =>
    @Logged.gmemUsed_returns_iff d w.tables (Hijack.recorded d w) used call.processExist
      h.recorded.logged (Nat.le_of_lt hlen)
  constructor
  · rintro ⟨fuel, used, hr⟩
    by_contra hlt
    have hlive : w.live ≠ [] := by
      intro hnil
      rw [hnil] at hlt
      exact hlt (Nat.zero_le _)
    obtain ⟨a, ha⟩ := List.exists_mem_of_ne_nil _ hlive
    obtain ⟨s, hex, hkey⟩ := (h.recorded.keys key).mpr ⟨a, ha, h.owner a ha⟩
    obtain rfl := h.slot s hex
    have hfollowed := (h.followed_iff hlen).mpr (Nat.lt_of_not_le hlt)
    obtain ⟨i, a', b, _, ha', _, _⟩ := id hfollowed
    have hmem : w.tables.keyOf (hash d key 0) ∈ owners (Hijack.recorded d w) := by
      have hmem' := List.mem_of_getElem? ha'
      rw [hkey, ← h.owner a' (List.mem_reverse.mp (List.mem_of_mem_take hmem'))]
      exact List.mem_map_of_mem hmem'
    exact ((hiff used).mp ⟨fuel, hr⟩).1 _ hex (hask.exist _ hkey) hmem hfollowed
  · intro hle
    obtain ⟨fuel, hr⟩ := (hiff _).mpr ⟨fun s hex _ _ hfollowed => by
      obtain rfl := h.slot s hex
      exact absurd ((h.followed_iff hlen).mp hfollowed) (Nat.not_lt_of_le hle), rfl⟩
    exact ⟨fuel, _, hr⟩

/-- The process has a slot, or gets one. -/
theorem Alone.acquires (h : Alone d key w) : ∃ s t₁, Acquires d w.tables key s t₁ := by
  rcases acquires_or_full d w.tables key with hacq | ⟨_, hpos⟩
  · exact hacq
  · have hmem : hash d key 0 ∈ probes d key :=
      List.mem_map.mpr ⟨0, List.mem_range.mpr d.rnode_pos, rfl⟩
    obtain ⟨hex, hne⟩ := insertPos_eq_none_iff.mp hpos _ hmem
    exact absurd (h.keyOf hex) hne

/-- **Past the check** every call returns. -/
theorem Alone.returns_iff (h : Alone d key w) (hlen : d.lenRnode < d.lenGmem)
    (hask : Asks key call) (hreq : request call.api = some (p, n))
    (hnew : NewHandle w.live call p) :
    (∃ fuel ret t', Returns (call.exec d fuel) w.tables ret t') ↔
      w.live.length ≤ hash d key 0 + 1 := by
  rw [← h.gmemUsed_returns_iff hlen hask]
  have hused : ∀ fuel, usedBy (rnmLedger d fuel call.key call.processExist) call.api =
      gmemUsed d fuel call.processExist := by
    intro fuel
    unfold usedBy
    rw [hask.used]
    rfl
  constructor
  · rintro ⟨fuel, ret, t', hr⟩
    rw [Call.exec, hijacked_of_request hreq, hused] at hr
    obtain ⟨used, t₁, hsum, _⟩ := returns_bind.mp hr
    obtain ⟨rfl, _⟩ := gmemUsed_runs hsum.choose_spec
    exact ⟨fuel, used, hsum⟩
  · rintro ⟨fuel, used, hsum⟩
    rw [← hused fuel] at hsum
    by_cases hgrant : used + n > call.ctx.limit ∨ call.ctx.reply.result ≠ .CUDA_SUCCESS
    · refine ⟨fuel, if used + n > call.ctx.limit then .CUDA_ERROR_OUT_OF_MEMORY
        else call.ctx.reply.result, w.tables, ?_⟩
      rw [Call.exec, hijacked_of_request hreq]
      refine hsum.bind (guardedCall_returns_iff.mpr ?_)
      by_cases hover : used + n > call.ctx.limit
      · exact Or.inl ⟨hover, if_pos hover, rfl⟩
      · exact Or.inr (Or.inl ⟨hover, hgrant.resolve_left hover, if_neg hover, rfl⟩)
    · obtain ⟨hfits, hok⟩ := not_or.mp hgrant
      obtain ⟨c, hacc⟩ := h.accounted
      obtain ⟨s, t₁, hacq⟩ := h.acquires
      rw [← hask.caller] at hacq
      obtain ⟨fuel', t', hadd⟩ := hacc.addGmem_returns (n := n) hacq hnew.var
      have hgranted : Granted d w.tables call n := ⟨not_not.mp hok, fuel, used, hsum, hfits⟩
      obtain ⟨fuel'', hr⟩ := hgranted.returns hreq hadd
      exact ⟨fuel'', _, t', hr⟩

theorem alone_of_run (hf : Fresh d t) (hs : t.Sentinel) (hr : Along (AllocStep d) ⟨t, []⟩ r)
    (hask : ∀ x ∈ r, Asks key x.1) : Alone d key (final ⟨t, []⟩ r) := by
  refine Along.invariant_states (alone_of_fresh hf hs) (hr.and_label hask) ?_ _
    (final_mem_states _ _)
  exact fun w call w' h hstep => h.step hstep.2.caller hstep.1

theorem length_live (hr : Along (AllocStep d) w r) :
    (final w r).live.length = w.live.length + r.length := by
  induction r generalizing w with
  | nil => rfl
  | cons x r ih =>
      obtain ⟨p, n, _, _, _, hlive⟩ := hr.1
      rw [final_cons, ih hr.2, hlive, List.length_cons, List.length_cons]
      omega

/-- **How far a process gets that is alone**: to as many allocations as its slot has predecessors,
and two more. The call after that does not end. -/
theorem lone_process_stalls (hlen : d.lenRnode < d.lenGmem) (hf : Fresh d t) (hs : t.Sentinel)
    (hr : Along (AllocStep d) ⟨t, []⟩ r) (hask : ∀ x ∈ r, Asks key x.1) :
    r.length ≤ hash d key 0 + 2 ∧
    ∀ call p n, Asks key call → request call.api = some (p, n) →
      NewHandle (final ⟨t, []⟩ r).live call p →
      ((∃ fuel ret t', Returns (call.exec d fuel) (final ⟨t, []⟩ r).tables ret t') ↔
        r.length ≤ hash d key 0 + 1) := by
  have hlength : ∀ {r : List (Call × World)}, Along (AllocStep d) ⟨t, []⟩ r →
      (final ⟨t, []⟩ r).live.length = r.length := by
    intro r hr
    rw [length_live hr]
    exact Nat.zero_add _
  constructor
  · rcases List.eq_nil_or_concat' r with rfl | ⟨r, x, rfl⟩
    · exact Nat.zero_le _
    · -- the last one has returned
      obtain ⟨hbefore, hlast, _⟩ := Along.append_iff.mp hr
      have hask' : ∀ y ∈ r, Asks key y.1 := fun y hy => hask y (List.mem_append_left _ hy)
      have halone := alone_of_run hf hs hbefore hask'
      obtain ⟨p, n, hreq, hnew, ⟨fuel, hcall⟩, _⟩ := hlast
      have hle := (halone.returns_iff hlen (hask x (by simp)) hreq hnew).mp ⟨fuel, _, _, hcall⟩
      rw [hlength hbefore] at hle
      rw [List.length_append, List.length_singleton]
      omega
  · intro call p n hcall hreq hnew
    rw [(alone_of_run hf hs hr hask).returns_iff hlen hcall hreq hnew, hlength hr]

/-- Two allocations of a process whose slot is the first one. -/
def twice : List Call :=
  [grantedCall (1, 0) (.cuMemAlloc_v2 16 80), grantedCall (1, 0) (.cuMemAlloc 24 30)]

theorem asks_grantedCall {api : ApiCall} (h : ignoresUsed api = false) :
    Asks key (grantedCall key api) :=
  ⟨rfl, h, fun _ _ => rfl⟩

theorem stalls_twice :
    ¬ ∃ fuel ret t', Returns ((grantedCall (1, 0) (.cuMemAlloc 32 5)).exec smallDims fuel)
      (final ⟨initialTables, []⟩
        (allocRun smallDims 3 ⟨initialTables, []⟩ twice)).tables ret t' := by
  have hask : ∀ x ∈ allocRun smallDims 3 ⟨initialTables, []⟩ twice, Asks (1, 0) x.1 := by
    refine forall_label_trajectory.mpr ?_
    exact List.forall_mem_cons.mpr
      ⟨asks_grantedCall rfl, List.forall_mem_singleton.mpr (asks_grantedCall rfl)⟩
  intro hr
  have hle := ((lone_process_stalls (by decide) (fresh_initialTables smallDims)
    sentinel_initialTables (along_allocRun (by decide)) hask).2 _ 32 5 (asks_grantedCall rfl) rfl
    (by decide)).mp hr
  exact absurd hle (by decide)

end Vcuda.Hijack
