import Vcuda.Common.LogChains
import Vcuda.Hijack.Sessions
import Vcuda.Rnm.Population

/-!
# The tables as a log

As long as processes only allocate, the record table is a log: the first `len_gmem` allocations are
its records, in the order in which they were made, whoever made them. A process's slot holds the
index of its first allocation, and each record links to the next allocation of its process
(`logged_of_run`). So the history of the calls determines what every later call finds.
-/

namespace Vcuda.Hijack

open Traced RNM Tables LogChains

/-- The allocations that have records, oldest first. -/
def recorded (d : Dims) (w : World) : List Allocation := w.live.reverse.take d.lenGmem

def owners (log : List Allocation) : List PidSt := log.map (·.owner)

/-- A link as it is stored. -/
def index : Option Nat → Int
  | some i => i
  | none => -1

/-- The tables hold the log. -/
structure Logged (d : Dims) (t : Tables) (log : List Allocation) : Prop where
  fits : log.length ≤ d.lenGmem
  var : ∀ a ∈ log, a.var ≠ 0
  record : ∀ (j : Nat) a, log[j]? = some a →
    t.gmem j = ⟨a.var, a.bytes, index (nextFrom (owners log) a.owner (j + 1))⟩
  unused : ∀ j : Nat, log.length ≤ j → j < d.lenGmem → t.gmem j = GMem.initialized
  entry : ∀ s, Exists d t s → t.entry s = index (nextFrom (owners log) (t.keyOf s) 0)

/-- The tables hold the log of the allocations, and the processes that have allocated. -/
structure Recorded (d : Dims) (w : World) : Prop where
  logged : Logged d w.tables (recorded d w)
  keys : ∀ key, Present d w.tables key ↔ ∃ a ∈ w.live, a.owner = key

variable {d : Dims} {t t' t₁ : Tables} {log : List Allocation} {a : Allocation} {call : Call}
  {key : PidSt} {p : Ptr} {n : UInt64} {s i j : Nat} {w w' : World}

@[simp] theorem index_eq_neg_one {o : Option Nat} : index o = -1 ↔ o = none := by
  cases o with
  | none => simp [index]
  | some i => simp [index]

@[simp] theorem length_owners : (owners log).length = log.length := List.length_map ..

theorem owners_append : owners (log ++ [a]) = owners log ++ [a.owner] := List.map_append ..

theorem getElem?_owners (h : log[j]? = some a) : (owners log)[j]? = some a.owner := by
  rw [owners, List.getElem?_map, h]
  rfl

theorem exists_of_getElem?_owners (h : (owners log)[j]? = some key) :
    ∃ a, log[j]? = some a ∧ a.owner = key := by
  rw [owners, List.getElem?_map, Option.map_eq_some_iff] at h
  exact h

/-! ## Reading the tables -/

theorem Logged.next (h : Logged d t log) (hj : log[j]? = some a) :
    t.next j = index (nextFrom (owners log) a.owner (j + 1)) := by
  unfold Tables.next
  rw [h.record j a hj]

theorem Logged.live (h : Logged d t log) (hj : log[j]? = some a) : t.Live j := by
  unfold Tables.Live
  rw [h.record j a hj]
  exact h.var a (List.mem_of_getElem? hj)

/-- The next record that is taken. -/
theorem Logged.firstEmpty (h : Logged d t log) :
    firstEmpty d t = if log.length < d.lenGmem then some log.length else none := by
  have hlive : ∀ i : Int, 0 ≤ i → i < log.length → t.Live i := by
    intro i h0 hi
    obtain ⟨k, rfl⟩ := Int.eq_ofNat_of_zero_le h0
    have hk : k < log.length := by omega
    exact h.live (List.getElem?_eq_getElem hk)
  split
  · next hroom =>
    refine firstEmpty_eq_some.mpr ⟨hroom, ?_, hlive⟩
    rw [Tables.Live, h.unused _ (Nat.le_refl _) hroom]
    exact fun hne => hne rfl
  · next hroom =>
    refine firstEmpty_eq_none.mpr fun i hi => hlive i hi.1 ?_
    have := hi.2
    omega

/-! ## Writing them -/

/-- A process gets a slot, and has not allocated yet. -/
theorem Logged.acquire (h : Logged d t log) (hacq : Acquires d t key s t₁)
    (hnew : findRnode d t key = none → key ∉ owners log) : Logged d t₁ log := by
  refine ⟨h.fits, h.var, ?_, ?_, ?_⟩
  · rw [hacq.gmem]
    exact h.record
  · rw [hacq.gmem]
    exact h.unused
  · intro s' hex
    rcases hacq with ⟨_, rfl⟩ | ⟨hnone, hpos, rfl⟩
    · exact h.entry s' hex
    · by_cases hs : s' = s
      · subst hs
        have hempty : nextFrom (owners log) key 0 = none := by
          by_contra hne
          exact hnew hnone (nextFrom_zero_ne_none.mp hne)
        rw [putRnode_entry_self, Tables.keyOf, putRnode_rnode_self]
        show (-1 : Int) = index (nextFrom (owners log) key 0)
        rw [hempty]
        rfl
      · have hsame : (t.putRnode s (RNode.new key.1 key.2 (-1))).rnode s' = t.rnode s' :=
          putRnode_rnode_ne hs
        rw [entry_of_rnode hsame, keyOf_of_rnode hsame]
        exact h.entry s' ((exists_of_rnode hsame).mp hex)

/-- The search for the end of a list finds it in the log. -/
theorem Logged.tail (h : Logged d t log) {l : List Int} {r : Int} (hi : log[i]? = some a)
    (hsame : ∀ j : Nat, j < log.length → t'.gmem j = t.gmem j)
    (hwalk : Walk t'.next t'.NotTail i l r) :
    ∃ m b, r = (m : Nat) ∧ log[m]? = some b ∧ b.owner = a.owner := by
  induction l generalizing i a with
  | nil => exact ⟨i, a, hwalk.symm, hi, rfl⟩
  | cons x l ih =>
      obtain ⟨rfl, hnot, hrest⟩ := hwalk
      obtain ⟨hlt, _⟩ := List.getElem?_eq_some_iff.mp hi
      have hgmem := hsame i hlt
      have hlive : t'.Live i := by
        unfold Tables.Live
        rw [hgmem]
        exact h.live hi
      have hnext : t'.next i = index (nextFrom (owners log) a.owner (i + 1)) := by
        rw [Tables.next, hgmem]
        exact h.next hi
      cases hlink : nextFrom (owners log) a.owner (i + 1) with
      | none =>
          rw [hlink] at hnext
          exact absurd ⟨hlive, hnext⟩ hnot
      | some m =>
          rw [hlink] at hnext
          rw [hnext] at hrest
          obtain ⟨_, hm, _⟩ := nextFrom_eq_some.mp hlink
          obtain ⟨b, hb, hbowner⟩ := exists_of_getElem?_owners hm
          obtain ⟨m', b', hr, hb', howner⟩ := ih hb hrest
          exact ⟨m', b', hr, hb', howner.trans hbowner⟩

/-- Appending leaves the links of other processes, and those that lead somewhere. -/
theorem nextFrom_owners_append (hi : i ≤ log.length)
    (h : a.owner ≠ key ∨ nextFrom (owners log) key i ≠ none) :
    nextFrom (owners (log ++ [a])) key i = nextFrom (owners log) key i := by
  rw [owners_append, nextFrom_append (by simpa using hi)]
  rcases h with h | h
  · rw [if_neg h, Option.or_none]
  · obtain ⟨m, hm⟩ := Option.ne_none_iff_exists'.mp h
    rw [hm]
    rfl

/-- The end of the process's own list now leads to the new record. -/
theorem nextFrom_owners_append_end (hi : i ≤ log.length)
    (h : nextFrom (owners log) a.owner i = none) :
    nextFrom (owners (log ++ [a])) a.owner i = some log.length := by
  rw [owners_append, nextFrom_append (by simpa using hi), h, if_pos rfl, length_owners]
  rfl

/-- What has to be shown of a new record. -/
theorem Logged.append (h : Logged d t log) (hslots : slots d t' = slots d t)
    (hroom : log.length < d.lenGmem) (hvar : a.var ≠ 0)
    (hold : ∀ (i : Nat) b, log[i]? = some b →
      t'.gmem i = ⟨b.var, b.bytes, index (nextFrom (owners (log ++ [a])) b.owner (i + 1))⟩)
    (hnew : t'.gmem log.length = GMem.new a.var a.bytes)
    (hrest : ∀ i : Nat, log.length < i → t'.gmem i = t.gmem i)
    (hentry : ∀ s, Exists d t s →
      t'.entry s = index (nextFrom (owners (log ++ [a])) (t.keyOf s) 0)) :
    Logged d t' (log ++ [a]) := by
  refine ⟨?_, ?_, ?_, ?_, ?_⟩
  · rw [List.length_append]
    exact hroom
  · intro b hb
    rcases List.mem_append.mp hb with hb | hb
    · exact h.var b hb
    · rwa [List.mem_singleton.mp hb]
  · intro i b hb
    by_cases hi : i < log.length
    · rw [List.getElem?_append_left hi] at hb
      exact hold i b hb
    · obtain ⟨hlt, _⟩ := List.getElem?_eq_some_iff.mp hb
      rw [List.length_append, List.length_singleton] at hlt
      obtain rfl : i = log.length := by omega
      rw [List.getElem?_concat_length, Option.some.injEq] at hb
      subst hb
      have hend : nextFrom (owners (log ++ [a])) a.owner (log.length + 1) = none := by
        refine nextFrom_eq_none.mpr fun m hm => ?_
        rw [List.getElem?_eq_none]
        · nofun
        · rwa [length_owners, List.length_append]
      rw [hnew, hend]
      rfl
  · intro i hi hlt
    rw [List.length_append, List.length_singleton] at hi
    rw [hrest i hi]
    exact h.unused i (by omega) hlt
  · intro s hex
    have hex₀ : Exists d t s := (exists_congr hslots).mp hex
    rw [keyOf_of_slots hslots hex₀]
    exact hentry s hex₀

/-- **An allocation is appended to the log.** -/
theorem Logged.push (h : Logged d t log) (hk : Keyed d t) (hex : Exists d t s)
    (howner : t.keyOf s = a.owner) (hroom : log.length < d.lenGmem) (hvar : a.var ≠ 0)
    (hl : Links (putNew t log.length a.var a.bytes) s log.length t') :
    Logged d t' (log ++ [a]) := by
  have hput : ∀ i : Nat, i ≠ log.length →
      (putNew t log.length a.var a.bytes).gmem i = t.gmem i := fun i hi =>
    modifyGmem_gmem_ne (by omega)
  have hself : (putNew t log.length a.var a.bytes).gmem log.length = GMem.new a.var a.bytes :=
    modifyGmem_gmem_self
  have hne : ∀ {i : Nat} {b}, log[i]? = some b → i ≠ log.length := fun hi heq => by
    rw [heq, List.getElem?_eq_none (Nat.le_refl _)] at hi
    cases hi
  have hslots : slots d t' = slots d t := hl.slots
  -- the slots of the other processes
  have hothers : ∀ s', s' ≠ s → Exists d t s' → a.owner ≠ t.keyOf s' := by
    intro s' hs' hex' heq
    exact hs' (hk.unique s' s a.owner (slots_eq_full.mpr ⟨hex', heq.symm⟩)
      (slots_eq_full.mpr ⟨hex, howner⟩))
  have hentry_ne : ∀ s', s' ≠ s → Exists d t s' →
      t'.entry s' = index (nextFrom (owners (log ++ [a])) (t.keyOf s') 0) := by
    intro s' hs' hex'
    rw [hl.entry_of_ne hs', nextFrom_owners_append (Nat.zero_le _) (Or.inl (hothers s' hs' hex'))]
    exact h.entry s' hex'
  have hhead : t.entry s = index (nextFrom (owners log) a.owner 0) := howner ▸ h.entry s hex
  rcases hl with ⟨hempty, rfl⟩ | ⟨hsome, l, r, hwalk, htail, hr⟩
  · -- its first one
    have hnone : nextFrom (owners log) a.owner 0 = none :=
      index_eq_neg_one.mp (hhead.symm.trans hempty)
    refine h.append hslots hroom hvar ?_ hself (fun i hi => hput i (by omega)) ?_
    · intro i b hi
      have hb : a.owner ≠ b.owner := by
        intro heq
        exact nextFrom_eq_none.mp hnone i (Nat.zero_le i) (heq ▸ getElem?_owners hi)
      obtain ⟨hlt, _⟩ := List.getElem?_eq_some_iff.mp hi
      rw [setEntry_gmem, hput i (hne hi), h.record i b hi, nextFrom_owners_append hlt (Or.inl hb)]
    · intro s' hex'
      by_cases hs' : s' = s
      · subst hs'
        rw [setEntry_entry_self, howner, nextFrom_owners_append_end (Nat.zero_le _) hnone]
        rfl
      · exact hentry_ne s' hs' hex'
  · -- behind the last one
    have hlink : nextFrom (owners log) a.owner 0 ≠ none := fun hnone =>
      hsome (hhead.trans (index_eq_neg_one.mpr hnone))
    obtain ⟨m₀, hm₀⟩ := Option.ne_none_iff_exists'.mp hlink
    obtain ⟨b₀, hb₀, howner₀⟩ := exists_of_getElem?_owners (nextFrom_eq_some.mp hm₀).2.1
    have hstart : (putNew t log.length a.var a.bytes).entry s = (m₀ : Nat) := by
      show t.entry s = _
      rw [hhead, hm₀]
      rfl
    rw [hstart] at hwalk
    obtain ⟨m, b, rfl, hm, hbowner⟩ :=
      h.tail hb₀ (fun i hi => hput i (by omega)) hwalk
    have hmlt := (List.getElem?_eq_some_iff.mp hm).1
    rw [howner₀] at hbowner
    have hend : nextFrom (owners log) a.owner (m + 1) = none := by
      have hnext := htail.2
      rw [Tables.next, hput m (by omega), h.record m b hm, hbowner] at hnext
      exact index_eq_neg_one.mp hnext
    have hmj : (m : Int) ≠ log.length := by omega
    rcases hr with ⟨heq, _⟩ | ⟨_, rfl⟩
    · exact absurd heq hmj
    refine h.append hslots hroom hvar ?_ ?_ ?_ ?_
    · intro i b' hi
      obtain ⟨hlt, _⟩ := List.getElem?_eq_some_iff.mp hi
      by_cases him : i = m
      · subst him
        obtain rfl := Option.some.inj (hi.symm.trans hm)
        rw [modifyGmem_gmem_self, hput i (hne hi), h.record i b' hi, hbowner,
          nextFrom_owners_append_end hlt hend]
        rfl
      · have hkeep : a.owner ≠ b'.owner ∨ nextFrom (owners log) b'.owner (i + 1) ≠ none := by
          by_contra hboth
          obtain ⟨heq, hnone⟩ := not_or.mp hboth
          rw [not_not] at heq hnone
          rw [← heq] at hnone
          have hkey := getElem?_owners hi
          rw [← heq] at hkey
          have hkeym := getElem?_owners hm
          rw [hbowner] at hkeym
          exact him (eq_of_nextFrom_eq_none hkey hkeym hnone hend)
        rw [modifyGmem_gmem_ne (by omega), hput i (hne hi), h.record i b' hi,
          nextFrom_owners_append hlt hkeep]
    · rw [modifyGmem_gmem_ne (by omega)]
      exact hself
    · intro i hi
      rw [modifyGmem_gmem_ne (by omega)]
      exact hput i (by omega)
    · intro s' hex'
      by_cases hs' : s' = s
      · subst hs'
        rw [howner, nextFrom_owners_append (Nat.zero_le _) (Or.inr hlink)]
        exact hhead
      · exact hentry_ne s' hs' hex'

/-! ## Runs of allocations -/

theorem length_recorded : (recorded d w).length = min d.lenGmem w.live.length := by
  rw [recorded, List.length_take, List.length_reverse]

theorem recorded_of_room (hlive : w'.live = a :: w.live)
    (hroom : (recorded d w).length < d.lenGmem) : recorded d w' = recorded d w ++ [a] := by
  rw [length_recorded] at hroom
  have hle : w.live.reverse.length ≤ d.lenGmem := by
    rw [List.length_reverse]
    omega
  have hle' : (w.live.reverse ++ [a]).length ≤ d.lenGmem := by
    rw [List.length_append, List.length_reverse, List.length_singleton]
    omega
  rw [recorded, recorded, hlive, List.reverse_cons, List.take_of_length_le hle,
    List.take_of_length_le hle']

theorem recorded_of_full (hlive : w'.live = a :: w.live)
    (hfull : ¬ (recorded d w).length < d.lenGmem) : recorded d w' = recorded d w := by
  rw [length_recorded] at hfull
  have hle : d.lenGmem ≤ w.live.reverse.length := by
    rw [List.length_reverse]
    omega
  rw [recorded, recorded, hlive, List.reverse_cons, List.take_append_of_le_length hle]

theorem recorded_of_fresh (hf : Fresh d t) : Recorded d ⟨t, []⟩ := by
  have hnone : ∀ s, ¬ Exists d t s := fun s => not_exists_of_fresh hf
  have hlog : recorded d ⟨t, []⟩ = [] := List.take_nil
  constructor
  · rw [hlog]
    refine ⟨Nat.zero_le _, nofun, ?_, ?_, ?_⟩
    · intro j a hj
      cases hj
    · intro j _ hj
      exact hf.gmem j (inRange_natCast.mpr hj)
    · intro s hex
      exact absurd hex (hnone s)
  · intro key
    constructor
    · rintro ⟨s, hex, _⟩
      exact absurd hex (hnone s)
    · rintro ⟨a, ha, _⟩
      cases ha

/-- **One allocation.** -/
theorem AllocStep.recorded {c : Nat → List Int} (hacc : Accounted d w c) (h : Recorded d w)
    (hstep : AllocStep d w call w') : Recorded d w' := by
  obtain ⟨p, n, hreq, hnew, ⟨fuel, hr⟩, hlive⟩ := hstep
  obtain ⟨_, hadd⟩ := allocation_step hreq hr
  obtain ⟨hp, s, t₁, reg, hacq, hreg⟩ := step_addGmem hacc.sound.sentinel hadd
  obtain ⟨c₁, hacc₁⟩ := hacc.acquire hacq
  have hunknown : findRnode d w.tables call.key = none →
      call.key ∉ owners (Hijack.recorded d w) := by
    intro hfind hmem
    obtain ⟨a, ha, howner⟩ := List.mem_map.mp hmem
    have hlive : a ∈ w.live := List.mem_reverse.mp (List.mem_of_mem_take ha)
    exact (findRnode_eq_none_iff hacc.sound.keyed).mp hfind
      ((h.keys call.key).mpr ⟨a, hlive, howner⟩)
  have hlog := h.logged.acquire hacq hunknown
  constructor
  · rcases hacc₁.registers hnew hacq.exists_self hacq.keyOf_self hreg with
      ⟨j, hj, hl⟩ | ⟨hfull, hsame⟩
    · rw [hlog.firstEmpty] at hj
      split at hj
      · next hroom =>
        obtain rfl := Option.some.inj hj
        rw [recorded_of_room hlive hroom]
        exact hlog.push hacc₁.sound.keyed hacq.exists_self hacq.keyOf_self hroom hp hl
      · cases hj
    · rw [hlog.firstEmpty] at hfull
      split at hfull
      · cases hfull
      · next hroom =>
        rw [recorded_of_full hlive hroom, hsame]
        exact hlog
  · intro k
    rw [present_congr hreg.slots, present_of_acquires hacq, hlive, List.exists_mem_cons_iff,
      h.keys k]
    exact or_congr_left eq_comm

theorem recorded_states {r : List (Call × World)} (hf : Fresh d t) (hs : t.Sentinel)
    (hr : Along (AllocStep d) ⟨t, []⟩ r) :
    ∀ w ∈ states ⟨t, []⟩ r, (∃ c, Accounted d w c) ∧ Recorded d w := by
  refine Along.invariant_states ⟨accounted_of_fresh hf hs, recorded_of_fresh hf⟩ hr ?_
  rintro w call w' ⟨⟨c, hacc⟩, h⟩ hstep
  exact ⟨hstep.accounted hacc, hstep.recorded hacc h⟩

/-- **After allocations**, whosever they are, the tables are the log of them. -/
theorem logged_of_run {r : List (Call × World)} (hf : Fresh d t) (hs : t.Sentinel)
    (hr : Along (AllocStep d) ⟨t, []⟩ r) : ∀ w ∈ states ⟨t, []⟩ r, Recorded d w :=
  fun w hw => (recorded_states hf hs hr w hw).2

def allocRun (d : Dims) (fuel : Nat) : World → List Call → List (Call × World) :=
  trajectory (allocNext d fuel)

theorem along_allocRun {fuel : Nat} {calls : List Call}
    (hok : allSteps (allocNext d fuel) (allocOk d fuel) w calls = true) :
    Along (AllocStep d) w (allocRun d fuel w calls) :=
  along_trajectory (fun _ _ => allocStep_allocNext) hok

/-- Two processes; the first one allocates again. -/
def inTurns : List Call :=
  [grantedCall (1, 0) (.cuMemAlloc_v2 16 80), grantedCall (2, 0) (.cuMemAllocManaged 24 30 1),
    grantedCall (1, 0) (.cuMemAlloc 32 5)]

theorem logged_inTurns :
    Recorded smallDims
      (final ⟨initialTables, []⟩ (allocRun smallDims 3 ⟨initialTables, []⟩ inTurns)) :=
  logged_of_run (fresh_initialTables _) sentinel_initialTables (along_allocRun (by decide)) _
    (final_mem_states _ _)

end Vcuda.Hijack
