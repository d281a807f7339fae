import Vcuda.Hijack.Limit
import Vcuda.Proc.Stat

/-!
# The processes of a machine

Processes start, load the driver, call it and end, in any order, while the tables stay. A pid is
used again, but not with the same start time. The count of `gmem_used` is right about who is alive
(`gmemUsed_of_machine`), but nothing is ever given back for those who are not. Once the processes
so far have taken all slots, no later one can allocate (`full_for_ever`). Once they have taken all
records and are gone, every request is checked as if nothing were used (`unmetered_for_ever`).
-/

namespace Vcuda.Proc

open Traced Vcuda.RNM Tables Hijack

/-- A running process: what `/proc` says of it now, the `pid` and `stime` of its `rnm`, and whether
it has loaded the driver. -/
structure Running where
  snapshot : Snapshot
  key : PidSt
  loaded : Bool

/-- The running processes by their pids, the pids and start times of all processes so far, and the
shared tables. -/
structure Machine where
  running : Int32 → Option Running
  born : List (Int32 × Nat)
  tables : Tables

inductive Action where
  | spawn (s : Snapshot)
  -- what `/proc` says changes while the process runs
  | run (s : Snapshot)
  -- `load_necessary_data`
  | load (pid : Int32)
  | call (pid : Int32) (ctx : Context) (api : ApiCall)
  -- also when it crashes or is killed, but not in the middle of a change
  | exit (pid : Int32)

/-- What the process is recorded as. -/
def identity (a : Int32 × Nat) : PidSt := (a.1, UInt64.ofNat a.2)

namespace Machine

def boot (t : Tables) : Machine := ⟨fun _ => none, [], t⟩

def system (m : Machine) : System where
  kill pid := if (m.running pid).isSome then 0 else -1
  stat pid := (m.running pid).map fun p => p.snapshot.text

def set (m : Machine) (pid : Int32) (p : Option Running) : Machine :=
  { m with running := Function.update m.running pid p }

/-- The call, made by the process. -/
def callOf (m : Machine) (p : Running) (ctx : Context) (api : ApiCall) : Call :=
  ⟨p.key, ctx, processExist m.system, api⟩

def next (d : Dims) (fuel : Nat) (m : Machine) : Action → Option Machine
  | .spawn s =>
      if (m.running s.pid).isNone ∧ (s.pid, s.start) ∉ m.born then
        some { m.set s.pid (some ⟨s, (-1, 0), false⟩) with born := (s.pid, s.start) :: m.born }
      else none
  | .run s => do
      let p ← m.running s.pid
      if s.start = p.snapshot.start then some (m.set s.pid (some { p with snapshot := s }))
      else none
  | .load pid => do
      let p ← m.running pid
      some (m.set pid
        (some { p with key := setProcess m.system p.key.2 pid, loaded := true }))
  | .call pid ctx api => do
      let p ← m.running pid
      -- before it has loaded the driver, a call changes nothing: it is turned down, or it ends in
      -- a null pointer
      if p.loaded then
        let o := (m.callOf p ctx api).exec d fuel m.tables
        if o.result.isOk then some { m with tables := o.state } else none
      else none
  | .exit pid => do
      let _ ← m.running pid
      some (m.set pid none)

end Machine

/-- An action happens. -/
def MachineStep (d : Dims) (m : Machine) (a : Action) (m' : Machine) : Prop :=
  ∃ fuel, m.next d fuel a = some m'

/-- No process has a name with white space. -/
def Action.Clean : Action → Prop
  | .spawn s => Proc.Clean s.name
  | .run s => Proc.Clean s.name
  | _ => True

/-- A run leads from `m` to `m'`. -/
def Leads (d : Dims) (m m' : Machine) : Prop :=
  ∃ r, Along (MachineStep d) m r ∧ (∀ x ∈ r, x.1.Clean) ∧ final m r = m'

/-- The process that got the slot is running. -/
def ownerRuns (m : Machine) (s : Nat) : Bool :=
  (m.running (m.tables.keyOf s).1).any fun p =>
    identity ((m.tables.keyOf s).1, p.snapshot.start) = m.tables.keyOf s

variable {d : Dims} {t t' : Tables} {m m' m₁ : Machine} {a : Action} {pid : Int32} {p : Running}
  {s : Nat} {key : PidSt} {b : Int32 × Nat} {ctx : Context} {api : ApiCall} {x : Ptr} {n : UInt64}

@[simp] theorem Machine.set_running_self {o : Option Running} : (m.set pid o).running pid = o :=
  Function.update_self ..

theorem Machine.set_running_ne {o : Option Running} {pid' : Int32} (h : pid' ≠ pid) :
    (m.set pid o).running pid' = m.running pid' :=
  Function.update_of_ne h ..

/-! ## What an action does -/

theorem MachineStep.cases (hstep : MachineStep d m a m') :
    (∃ s, a = .spawn s ∧ m.running s.pid = none ∧ (s.pid, s.start) ∉ m.born ∧
      m' = { m.set s.pid (some ⟨s, (-1, 0), false⟩) with born := (s.pid, s.start) :: m.born }) ∨
    (∃ s p, a = .run s ∧ m.running s.pid = some p ∧ s.start = p.snapshot.start ∧
      m' = m.set s.pid (some { p with snapshot := s })) ∨
    (∃ pid p, a = .load pid ∧ m.running pid = some p ∧
      m' = m.set pid (some { p with key := setProcess m.system p.key.2 pid, loaded := true })) ∨
    (∃ pid p ctx api t', a = .call pid ctx api ∧ m.running pid = some p ∧ p.loaded = true ∧
      CallStep d m.tables (m.callOf p ctx api) t' ∧ m' = { m with tables := t' }) ∨
    (∃ pid p, a = .exit pid ∧ m.running pid = some p ∧ m' = m.set pid none) := by
  obtain ⟨fuel, hnext⟩ := hstep
  cases a with
  | spawn s =>
      simp only [Machine.next, Option.isNone_iff_eq_none] at hnext
      split at hnext
      · next hok => exact Or.inl ⟨s, rfl, hok.1, hok.2, (Option.some.inj hnext).symm⟩
      · cases hnext
  | run s =>
      obtain ⟨p, hp, hnext⟩ := Option.bind_eq_some_iff.mp hnext
      split at hnext
      · next hok => exact Or.inr (Or.inl ⟨s, p, rfl, hp, hok, (Option.some.inj hnext).symm⟩)
      · cases hnext
  | load pid =>
      obtain ⟨p, hp, hnext⟩ := Option.bind_eq_some_iff.mp hnext
      exact Or.inr (Or.inr (Or.inl ⟨pid, p, rfl, hp, (Option.some.inj hnext).symm⟩))
  | call pid ctx api =>
      obtain ⟨p, hp, hnext⟩ := Option.bind_eq_some_iff.mp hnext
      refine Or.inr (Or.inr (Or.inr (Or.inl ⟨pid, p, ctx, api, ?_⟩)))
      split at hnext
      · next hloaded =>
        dsimp only at hnext
        split at hnext
        · next hok =>
          refine ⟨_, rfl, hp, hloaded, ?_, (Option.some.inj hnext).symm⟩
          cases hx : ((m.callOf p ctx api).exec d fuel m.tables).result with
          | error e =>
              rw [hx] at hok
              cases hok
          | ok ret => exact ⟨fuel, ret, (runs_of_ok hx).returns⟩
        · cases hnext
      · cases hnext
  | exit pid =>
      obtain ⟨p, hp, hnext⟩ := Option.bind_eq_some_iff.mp hnext
      exact Or.inr (Or.inr (Or.inr (Or.inr ⟨pid, p, rfl, hp, (Option.some.inj hnext).symm⟩)))

/-- **From an action to a run.** -/
theorem Leads.invariant {I : Machine → Prop} (hlead : Leads d m m') (hm : I m)
    (hstep : ∀ m a m', I m → a.Clean → MachineStep d m a m' → I m') : I m' := by
  obtain ⟨r, hr, hclean, rfl⟩ := hlead
  refine Along.invariant_states hm (hr.and_label hclean) ?_ _ (final_mem_states m r)
  exact fun m a m' hm h => hstep m a m' hm h.2 h.1

def Machine.after (d : Dims) (fuel : Nat) (m : Machine) (a : Action) : Machine :=
  (m.next d fuel a).getD m

/-- What the actions lead to. -/
def Machine.run (d : Dims) (m : Machine) (actions : List Action) : Machine :=
  final m (trajectory (Machine.after d 3) m actions)

theorem leads_run {actions : List Action}
    (hok : allSteps (Machine.after d 3) (fun m a => (m.next d 3 a).isSome) m actions = true)
    (hclean : ∀ a ∈ actions, a.Clean) : Leads d m (m.run d actions) := by
  refine ⟨_, along_trajectory ?_ hok, forall_label_trajectory.mpr hclean, rfl⟩
  intro m a hok
  obtain ⟨m', hnext⟩ := Option.isSome_iff_exists.mp hok
  refine ⟨3, ?_⟩
  rw [Machine.after, hnext]
  rfl

/-! ## Who is in the tables -/

/-- The process is recorded as what it is. -/
structure Fits (born : List (Int32 × Nat)) (pid : Int32) (p : Running) : Prop where
  same : p.snapshot.pid = pid
  clean : Clean p.snapshot.name
  born : (pid, p.snapshot.start) ∈ born
  key : p.loaded = true → p.key = identity (pid, p.snapshot.start)

/-- So are those that run, and those in the tables have run. -/
structure Tracked (d : Dims) (m : Machine) : Prop where
  sound : Sound d m.tables
  running : ∀ pid p, m.running pid = some p → Fits m.born pid p
  born : ∀ a ∈ m.born, a.2 < 2 ^ 63
  present : ∀ key, Vcuda.RNM.Present d m.tables key → ∃ a ∈ m.born, key = identity a

theorem identity_inj {a b : Int32 × Nat} (ha : a.2 < 2 ^ 63) (hb : b.2 < 2 ^ 63)
    (h : identity a = identity b) : a = b := by
  obtain ⟨hpid, hstart⟩ := Prod.mk.inj h
  rw [← UInt64.toNat_inj, UInt64.toNat_ofNat', UInt64.toNat_ofNat'] at hstart
  exact Prod.ext hpid (by omega)

theorem running_set {o : Option Running} {P : Int32 → Running → Prop}
    (hrest : ∀ pid p, m.running pid = some p → P pid p) (hnew : ∀ p, o = some p → P pid p) :
    ∀ pid' p', (m.set pid o).running pid' = some p' → P pid' p' := by
  intro pid' p' hp'
  by_cases hpid : pid' = pid
  · subst hpid
    rw [Machine.set_running_self] at hp'
    exact hnew p' hp'
  · rw [Machine.set_running_ne hpid] at hp'
    exact hrest pid' p' hp'

/-- The system tells of a process that runs. -/
theorem Tracked.holds (h : Tracked d m) (hp : m.running pid = some p) :
    Holds m.system p.snapshot := by
  have hpid := (h.running pid p hp).same
  constructor
  · show (if (m.running p.snapshot.pid).isSome then (0 : Int32) else -1) = 0
    rw [hpid, hp]
    rfl
  · show (m.running p.snapshot.pid).map (fun p => p.snapshot.text) = _
    rw [hpid, hp]
    rfl

theorem Tracked.step (h : Tracked d m) (hclean : a.Clean) (hstep : MachineStep d m a m') :
    Tracked d m' := by
  rcases hstep.cases with ⟨s, rfl, hnone, hnew, rfl⟩ | ⟨s, p, rfl, hp, hstart, rfl⟩ |
    ⟨pid, p, rfl, hp, rfl⟩ | ⟨pid, p, ctx, api, t', rfl, hp, hloaded, hcall, rfl⟩ |
    ⟨pid, p, rfl, hp, rfl⟩
  · refine ⟨h.sound, running_set ?_ ?_, ?_, ?_⟩
    · intro pid p hp
      have hfits := h.running pid p hp
      exact ⟨hfits.same, hfits.clean, List.mem_cons_of_mem _ hfits.born, hfits.key⟩
    · rintro _ ⟨⟩
      exact ⟨rfl, hclean, List.mem_cons_self, nofun⟩
    · exact List.forall_mem_cons.mpr ⟨s.start_lt, h.born⟩
    · intro key hkey
      obtain ⟨a, ha, hid⟩ := h.present key hkey
      exact ⟨a, List.mem_cons_of_mem _ ha, hid⟩
  · refine ⟨h.sound, running_set h.running ?_, h.born, h.present⟩
    rintro _ ⟨⟩
    have hfits := h.running _ p hp
    refine ⟨rfl, hclean, ?_, ?_⟩
    · show (s.pid, s.start) ∈ _
      rw [hstart]
      exact hfits.born
    · show p.loaded = true → p.key = identity (s.pid, s.start)
      rw [hstart]
      exact hfits.key
  · refine ⟨h.sound, running_set h.running ?_, h.born, h.present⟩
    rintro _ ⟨⟩
    have hfits := h.running _ p hp
    refine ⟨hfits.same, hfits.clean, hfits.born, fun _ => ?_⟩
    have hset : setProcess m.system p.key.2 p.snapshot.pid = _ :=
      setProcess_of_clean hfits.clean (h.holds hp)
    rw [hfits.same] at hset
    exact hset
  · have hfits := h.running _ p hp
    rcases hcall.step with rfl | ⟨op, hop, hstep', hregisters⟩
    · exact h
    · refine ⟨h.sound.step hstep' hop, h.running, h.born, ?_⟩
      intro key hkey
      rcases (hstep'.present_iff h.sound.sentinel hop.isAccounting).mp hkey with hkey | hkey
      · exact h.present key hkey
      · exact ⟨_, hfits.born, (hregisters key hkey).trans (hfits.key hloaded)⟩
  · exact ⟨h.sound, running_set h.running nofun, h.born, h.present⟩

theorem tracked_boot (hf : Fresh d t) (hs : t.Sentinel) : Tracked d (.boot t) := by
  refine ⟨sound_of_fresh hf hs, nofun, nofun, ?_⟩
  rintro key ⟨s, hex, _⟩
  exact absurd hex (not_exists_of_fresh hf)

theorem Tracked.leads (h : Tracked d m) (hlead : Leads d m m') : Tracked d m' :=
  hlead.invariant h fun _ _ _ h hclean hstep => h.step hclean hstep

/-- **`process_exist` is right**: about a slot whose process is gone also when another process has
its pid. -/
theorem Tracked.processExist_iff (h : Tracked d m) :
    processExist m.system (m.tables.rnode s) = true ↔ ownerRuns m s = true := by
  have hpid : (m.tables.keyOf s).1 = (m.tables.rnode s).pid := rfl
  unfold ownerRuns
  rw [hpid]
  cases hp : m.running (m.tables.rnode s).pid with
  | none =>
      have hkill : m.system.kill (m.tables.rnode s).pid = -1 := by
        show (if (m.running (m.tables.rnode s).pid).isSome then (0 : Int32) else -1) = -1
        rw [hp]
        rfl
      rw [processExist, if_pos hkill]
      simp
  | some p =>
      have hfits := h.running _ p hp
      rw [processExist_of_clean hfits.clean (h.holds hp) hfits.same.symm]
      simp [identity, Tables.keyOf, eq_comm]

/-- The process is the only one with its pid and start time. -/
theorem Tracked.ownerRuns_iff (h : Tracked d m) (hb : b ∈ m.born)
    (hkey : m.tables.keyOf s = identity b) :
    ownerRuns m s = true ↔ ∃ p, m.running b.1 = some p ∧ p.snapshot.start = b.2 := by
  unfold ownerRuns
  rw [hkey, Option.any_eq_true]
  refine exists_congr fun p => and_congr_right fun hp => ?_
  rw [decide_eq_true_eq]
  constructor
  · intro hid
    have hstart := h.born _ (h.running _ p hp).born
    exact congrArg Prod.snd (identity_inj hstart (h.born b hb) hid)
  · intro hstart
    rw [hstart]
    rfl

/-- **What `gmem_used` counts**: in every state of the machine, a slot is of one process,
`process_exist` holds for it exactly while that process runs, and it is counted exactly then. -/
theorem gmemUsed_of_machine (hf : Fresh d t) (hs : t.Sentinel) (hlead : Leads d (.boot t) m) :
    (∀ s, Exists d m.tables s → ∃ b ∈ m.born,
      (∀ b' ∈ m.born, m.tables.keyOf s = identity b' ↔ b' = b) ∧
      (processExist m.system (m.tables.rnode s) = true ↔
        ∃ p, m.running b.1 = some p ∧ p.snapshot.start = b.2) ∧
      (ownerRuns m s = true ↔ processExist m.system (m.tables.rnode s) = true)) ∧
    ∀ used, (∃ fuel, Returns (gmemUsed d fuel (processExist m.system)) m.tables used m.tables) ↔
      (∀ s, Exists d m.tables s → ownerRuns m s = true → ¬ SumLoops m.tables s) ∧
      used = UInt64.ofNat (∑ s ∈ Finset.range d.lenRnode,
        if Exists d m.tables s ∧ ownerRuns m s = true then
          (startBytes m.tables (m.tables.entry s)).toNat
        else 0) := by
  have h := (tracked_boot hf hs).leads hlead
  constructor
  · intro s hex
    obtain ⟨b, hb, hkey⟩ := h.present _ ⟨s, hex, rfl⟩
    refine ⟨b, hb, fun b' hb' => ⟨fun hkey' => ?_, fun heq => heq ▸ hkey⟩, ?_, ?_⟩
    · exact identity_inj (h.born b' hb') (h.born b hb) (hkey'.symm.trans hkey)
    · exact h.processExist_iff.trans (h.ownerRuns_iff hb hkey)
    · exact h.processExist_iff.symm
  · intro used
    have hsum : ∀ s, s < d.lenRnode → (Summed m.tables (processExist m.system) s ↔
        Exists d m.tables s ∧ ownerRuns m s = true) := by
      intro s hlt
      unfold Summed
      rw [h.processExist_iff, Vcuda.RNM.Exists, and_iff_right hlt]
    have htotal : headTotal d m.tables (processExist m.system) =
        ∑ s ∈ Finset.range d.lenRnode, if Exists d m.tables s ∧ ownerRuns m s = true then
          (startBytes m.tables (m.tables.entry s)).toNat else 0 := by
      refine Finset.sum_congr rfl fun s hs => ?_
      unfold slotBytes
      simp only [hsum s (Finset.mem_range.mp hs)]
    rw [gmemUsed_returns_iff, htotal]
    refine and_congr_left fun _ => ?_
    constructor
    · intro hall s hex hruns
      exact hall s hex.1 ((hsum s hex.1).mpr ⟨hex, hruns⟩)
    · intro hall s hlt hsummed
      obtain ⟨hex, hruns⟩ := (hsum s hlt).mp hsummed
      exact hall s hex hruns

def workerPid (i : Fin 3) : Int32 := .ofNat (i + 1)

theorem workerPid_pos : ∀ i, 0 < workerPid i := by decide

theorem workerStart_lt (start : Fin 10) : start.val < 2 ^ 63 := by omega

/-- The process with this pid that starts at `start`. -/
def worker (i : Fin 3) (start : Fin 10) : Snapshot :=
  { quiet ['w'] start (workerStart_lt start) with
    pid := workerPid i
    pid_pos := workerPid_pos i }

theorem clean_worker {i : Fin 3} {start : Fin 10} : Clean (worker i start).name := by
  intro c hc
  obtain rfl := List.mem_singleton.mp hc
  decide

/-- It starts and loads the driver. -/
def starts (i : Fin 3) (start : Fin 10) : List Action :=
  [.spawn (worker i start), .load (workerPid i)]

/-- A process allocates, and another one. -/
def twoWorkers : List Action :=
  starts 0 7 ++ .call 1 (granted 100) (.cuMemAlloc 16 30) ::
    (starts 1 7 ++ [.call 2 (granted 100) (.cuMemAlloc 16 40)])

/-- The first one ends, and a new one gets its pid. -/
def reusedPid : Machine :=
  (Machine.boot initialTables).run smallDims
    (twoWorkers ++ .exit 1 :: starts 0 9)

theorem gmemUsed_reusedPid : ∃ fuel,
    Returns (gmemUsed smallDims fuel (processExist reusedPid.system)) reusedPid.tables 40
      reusedPid.tables := by
  have hlead : Leads smallDims (.boot initialTables) reusedPid :=
    leads_run (by decide) (by simp [twoWorkers, starts, Action.Clean, clean_worker])
  have hends : ∀ s, s < 2 → ¬ (reusedPid.tables.entry s > -1 ∧ reusedPid.tables.next s > -1) := by
    decide
  refine ((gmemUsed_of_machine (fresh_initialTables smallDims) sentinel_initialTables
    hlead).2 40).mpr ⟨?_, by decide⟩
  exact fun s hex _ => hends s hex.1

/-! ## What is never given back -/

/-- A slot stays with its process. -/
theorem MachineStep.slots_full (hs : m.tables.Sentinel) (hstep : MachineStep d m a m')
    (hfull : slots d m.tables s = .full key) : slots d m'.tables s = .full key := by
  rcases hstep.cases with ⟨_, _, _, _, rfl⟩ | ⟨_, _, _, _, _, rfl⟩ | ⟨_, _, _, _, rfl⟩ |
    ⟨_, _, _, _, t', _, _, _, hcall, rfl⟩ | ⟨_, _, _, _, rfl⟩
  · exact hfull
  · exact hfull
  · exact hfull
  · rcases hcall.step with rfl | ⟨op, hop, hstep', _⟩
    · exact hfull
    · exact hstep'.slots_full hs hop.isAccounting hfull
  · exact hfull

/-- Once all slots are taken, there is none for a later process. -/
theorem no_slot_later (h : Tracked d m₁) (hlead : Leads d m₁ m)
    (hfull : ∀ s, s < d.lenRnode → Exists d m₁.tables s) (hb : b ∈ m.born) (hlater : b ∉ m₁.born) :
    findRnode d m.tables (identity b) = none ∧ insertPos d m.tables (identity b) = none := by
  have h' := h.leads hlead
  have hslots : ∀ s, s < d.lenRnode →
      Exists d m.tables s ∧ m.tables.keyOf s ≠ identity b := by
    intro s hlt
    have hex := hfull s hlt
    have hstays : Tracked d m ∧ slots d m.tables s = .full (m₁.tables.keyOf s) := by
      refine hlead.invariant (I := fun m => Tracked d m ∧ slots d m.tables s = _)
        ⟨h, slots_eq_full.mpr ⟨hex, rfl⟩⟩ ?_
      rintro m a m' ⟨h, hfull⟩ hclean hstep
      exact ⟨h.step hclean hstep, hstep.slots_full h.sound.sentinel hfull⟩
    obtain ⟨hex', hsame⟩ := slots_eq_full.mp hstays.2
    obtain ⟨b', hb', hid⟩ := h.present _ ⟨s, hex, rfl⟩
    refine ⟨hex', fun heq => hlater ?_⟩
    rw [hsame, hid] at heq
    rwa [← identity_inj (h.born b' hb') (h'.born b hb) heq]
  constructor
  · rw [findRnode_eq_none_iff h'.sound.keyed]
    rintro ⟨s, hex, hsame⟩
    exact (hslots s hex.1).2 hsame
  · exact insertPos_eq_none_iff.mpr fun s hs => hslots s (lt_of_mem_probes hs)

/-- **Slots are not given back.** Once the processes so far have all of them, a process that starts
later cannot allocate, whoever is still running: what it is granted makes it crash. -/
theorem full_for_ever (hf : Fresh d t) (hs : t.Sentinel) (hlead₁ : Leads d (.boot t) m₁)
    (hfull : ∀ s, s < d.lenRnode → Exists d m₁.tables s) (hlead : Leads d m₁ m)
    (hp : m.running pid = some p) (hloaded : p.loaded = true)
    (hlater : (pid, p.snapshot.start) ∉ m₁.born) (hreq : request api = some (x, n))
    (hx : x ≠ 0) :
    (¬ ∃ fuel t', Returns ((m.callOf p ctx api).exec d fuel) m.tables .CUDA_SUCCESS t') ∧
    ((∃ fuel, Faults ((m.callOf p ctx api).exec d fuel) m.tables .nullRNode) ↔
      Granted d m.tables (m.callOf p ctx api) n) := by
  have h₁ := (tracked_boot hf hs).leads hlead₁
  have h := h₁.leads hlead
  have hfits := h.running pid p hp
  have hkey : (m.callOf p ctx api).key = identity (pid, p.snapshot.start) := hfits.key hloaded
  obtain ⟨hfind, hpos⟩ := no_slot_later h₁ hlead hfull hfits.born hlater
  rw [← hkey] at hfind hpos
  constructor
  · rintro ⟨fuel, t', hret⟩
    obtain ⟨_, hadd⟩ := allocation_step hreq hret
    obtain ⟨_, s, t₁, _, ⟨hfind', _⟩ | ⟨_, hpos', _⟩, _⟩ := step_addGmem h.sound.sentinel hadd
    · cases hfind.symm.trans hfind'
    · cases hpos.symm.trans hpos'
  · constructor
    · rintro ⟨fuel, hfault⟩
      exact (granted_of_faults hreq hfault nofun).1
    · intro hgranted
      have hnull : ∀ mem, Faults (addGmem d 0 (m.callOf p ctx api).key mem x n) m.tables
          .nullRNode := fun mem => addGmem_faults_of_full hx hfind hpos
      exact hgranted.faults hreq nofun (hnull _)

def withTwo : Machine := (Machine.boot initialTables).run smallDims twoWorkers

/-- Both end, and a third one starts. -/
def withThird : Machine :=
  withTwo.run smallDims ([.exit 1, .exit 2] ++ starts 2 9)

/-- Its allocation, which is checked without what is used. -/
def thirdCall : Call :=
  withThird.callOf ((withThird.running 3).get (by decide)) (granted 100)
    (.cuMemAllocPitch 16 8 30 1 1)

theorem full_withThird :
    ∃ fuel, Faults (thirdCall.exec smallDims fuel) withThird.tables .nullRNode := by
  have hlead₁ : Leads smallDims (.boot initialTables) withTwo :=
    leads_run (by decide) (by simp [twoWorkers, starts, Action.Clean, clean_worker])
  have hlead : Leads smallDims withTwo withThird :=
    leads_run (by decide) (by simp [starts, Action.Clean, clean_worker])
  have hp : withThird.running 3 = some ((withThird.running 3).get (by decide)) :=
    (Option.some_get _).symm
  have hiff : (∃ fuel, Faults (thirdCall.exec smallDims fuel) withThird.tables .nullRNode) ↔
      Granted smallDims withThird.tables thirdCall 30 :=
    (full_for_ever (fresh_initialTables smallDims) sentinel_initialTables hlead₁ (by decide) hlead
      hp (by decide) (by decide) rfl (by decide)).2
  exact hiff.mpr ⟨rfl, 0, 0, returns_pure _ _, by decide⟩

/-- When all records are in use, and the caller has none, nothing is recorded of what it does. -/
theorem unrecorded_of_callStep {call : Call} (hs : t.Sentinel) (hfull : firstEmpty d t = none)
    (hblank : ∀ s, Exists d t s → t.keyOf s = call.key → t.entry s = -1)
    (hstep : CallStep d t call t') :
    t'.gmem = t.gmem ∧ ∀ s, t'.rnode s = t.rnode s ∨ t'.entry s = -1 := by
  have hsame : t.gmem = t.gmem ∧ ∀ s, t.rnode s = t.rnode s ∨ t.entry s = -1 :=
    ⟨rfl, fun s => Or.inl rfl⟩
  -- a search of an empty list ends at once
  have hsearch : ∀ {t : Tables} {mem v l x}, t.Sentinel → Walk t.next (t.Miss mem v) (-1) l x →
      x = -1 := by
    intro t mem v l x hs hwalk
    obtain rfl := hwalk.eq_nil_of_not_live (not_miss_of_not_live hs.not_live)
    exact hwalk.symm
  rcases hstep.cases with rfl | ⟨p, n, _, _, hadd⟩ | ⟨v, hremove⟩
  · exact hsame
  · obtain ⟨_, s, t₁, reg, hacq, l, x, hwalk, hcases⟩ := step_addGmem hs hadd
    have hs₁ : t₁.Sentinel := hs.congr (by rw [hacq.gmem])
    have hentry : t₁.entry s = -1 := by
      rcases hacq with ⟨hfind, rfl⟩ | ⟨_, _, rfl⟩
      · obtain ⟨hex, hkey⟩ := findRnode_eq_some hfind
        exact hblank s hex hkey
      · exact putRnode_entry_self
    rw [hentry] at hwalk
    obtain rfl := hsearch hs₁ hwalk
    have hfull₁ : firstEmpty d t₁ = none := by
      rw [← hfull]
      refine firstEmpty_congr fun i _ => ?_
      rw [Tables.Live, hacq.gmem]
      rfl
    rcases hcases with ⟨_, j, hj, _⟩ | ⟨_, _, hl, _⟩ | ⟨hhit, _⟩
    · cases hfull₁.symm.trans hj
    · obtain rfl := hl.eq_of_sentinel
      refine ⟨hacq.gmem, fun s' => ?_⟩
      by_cases hne : s' = s
      · exact Or.inr (hne ▸ hentry)
      · exact Or.inl (hacq.rnode_of_ne hne)
    · exact absurd hhit.1 hs₁.not_live
  · rcases step_removeGmem hs hremove with
      ⟨_, rfl⟩ | ⟨s, l, x, hfind, hwalk, ⟨_, rfl⟩ | ⟨hhit, _⟩⟩
    · exact hsame
    · exact hsame
    · obtain ⟨hex, hkey⟩ := findRnode_eq_some hfind
      rw [hblank s hex hkey] at hwalk
      obtain rfl := hsearch hs hwalk
      exact absurd hhit.1 hs.not_live

/-- After `m₁` the records stay as they are, the processes that run are later ones, and these have
none. -/
structure Unmetered (d : Dims) (m₁ m : Machine) : Prop where
  tracked : Tracked d m
  gmem : m.tables.gmem = m₁.tables.gmem
  born : ∀ b ∈ m₁.born, b ∈ m.born
  later : ∀ pid p, m.running pid = some p → (pid, p.snapshot.start) ∉ m₁.born
  slots : ∀ s, Exists d m.tables s →
    (∃ b ∈ m₁.born, m.tables.keyOf s = identity b) ∨ m.tables.entry s = -1

theorem unmetered_of_gone (h : Tracked d m) (hgone : ∀ pid, m.running pid = none) :
    Unmetered d m m := by
  refine ⟨h, rfl, fun _ hb => hb, ?_, ?_⟩
  · intro pid p hp
    rw [hgone pid] at hp
    cases hp
  · intro s hex
    exact Or.inl (h.present _ ⟨s, hex, rfl⟩)

/-- A process that runs now has no records. -/
theorem Unmetered.entry (h : Unmetered d m₁ m) (hp : m.running pid = some p)
    (hex : Exists d m.tables s) (hkey : m.tables.keyOf s = identity (pid, p.snapshot.start)) :
    m.tables.entry s = -1 := by
  refine (h.slots s hex).resolve_left ?_
  rintro ⟨b, hb, hid⟩
  have heq := identity_inj (h.tracked.born _ (h.tracked.running pid p hp).born)
    (h.tracked.born b (h.born b hb)) (hkey.symm.trans hid)
  exact h.later pid p hp (heq ▸ hb)

theorem Unmetered.step (h : Unmetered d m₁ m) (hfull : firstEmpty d m₁.tables = none)
    (hclean : a.Clean) (hstep : MachineStep d m a m') : Unmetered d m₁ m' := by
  have htracked := h.tracked.step hclean hstep
  rcases hstep.cases with ⟨s, rfl, _, hnew, rfl⟩ | ⟨s, p, rfl, hp, hstart, rfl⟩ |
    ⟨pid, p, rfl, hp, rfl⟩ | ⟨pid, p, ctx, api, t', rfl, hp, hloaded, hcall, rfl⟩ |
    ⟨pid, p, rfl, _, rfl⟩
  · refine ⟨htracked, h.gmem, fun b hb => List.mem_cons_of_mem _ (h.born b hb), ?_, h.slots⟩
    refine running_set h.later ?_
    rintro _ ⟨⟩ hmem
    exact hnew (h.born _ hmem)
  · refine ⟨htracked, h.gmem, h.born, running_set h.later ?_, h.slots⟩
    rintro _ ⟨⟩
    show (s.pid, s.start) ∉ m₁.born
    rw [hstart]
    exact h.later _ p hp
  · refine ⟨htracked, h.gmem, h.born, running_set h.later ?_, h.slots⟩
    rintro _ ⟨⟩
    exact h.later pid p hp
  · have hkey : (m.callOf p ctx api).key = identity (pid, p.snapshot.start) :=
      (h.tracked.running pid p hp).key hloaded
    have hfull' : firstEmpty d m.tables = none := by
      rw [← hfull]
      refine firstEmpty_congr fun i _ => ?_
      rw [Tables.Live, h.gmem]
      rfl
    have hblank : ∀ s, Exists d m.tables s → m.tables.keyOf s = (m.callOf p ctx api).key →
        m.tables.entry s = -1 := fun s hex hsame => h.entry hp hex (hsame.trans hkey)
    obtain ⟨hgmem, hrest⟩ :=
      unrecorded_of_callStep h.tracked.sound.sentinel hfull' hblank hcall
    refine ⟨htracked, hgmem.trans h.gmem, h.born, h.later, fun s hex => ?_⟩
    rcases hrest s with hsame | hentry
    · show (∃ b ∈ m₁.born, t'.keyOf s = identity b) ∨ t'.entry s = -1
      rw [keyOf_of_rnode hsame, entry_of_rnode hsame]
      exact h.slots s ((exists_of_rnode hsame).mp hex)
    · exact Or.inr hentry
  · refine ⟨htracked, h.gmem, h.born, running_set h.later ?_, h.slots⟩
    intro p' hnone
    cases hnone

/-- Nothing is used. -/
theorem Unmetered.headTotal (h : Unmetered d m₁ m) :
    SumEnds d m.tables (processExist m.system) ∧
    headTotal d m.tables (processExist m.system) = 0 := by
  have hentry : ∀ s, s < d.lenRnode → Summed m.tables (processExist m.system) s →
      m.tables.entry s = -1 := by
    intro s hlt hsummed
    have hex : Exists d m.tables s := ⟨hlt, hsummed.1⟩
    obtain ⟨b, hb, hkey⟩ := h.tracked.present _ ⟨s, hex, rfl⟩
    have hruns := (h.tracked.processExist_iff).mp hsummed.2
    obtain ⟨p, hp, hstart⟩ := (h.tracked.ownerRuns_iff hb hkey).mp hruns
    exact h.entry hp hex (hstart ▸ hkey)
  constructor
  · intro s hlt hsummed hloops
    rw [SumLoops, hentry s hlt hsummed] at hloops
    exact absurd hloops.1 (by simp)
  · refine Finset.sum_eq_zero fun s hs => ?_
    unfold slotBytes
    split
    · next hsummed =>
      rw [hentry s (Finset.mem_range.mp hs) hsummed]
      rfl
    · rfl

/-- **Records are not given back.** Once the processes so far have used all records and are gone, no
later process is ever recorded: whatever it holds, every request is checked against the limit
alone. -/
theorem unmetered_for_ever (hf : Fresh d t) (hs : t.Sentinel) (hlead₁ : Leads d (.boot t) m₁)
    (hfull : firstEmpty d m₁.tables = none) (hgone : ∀ pid, m₁.running pid = none)
    (hlead : Leads d m₁ m) (hreq : request api = some (x, n)) :
    m.tables.gmem = m₁.tables.gmem ∧
    (CallsDriver d m.tables (m.callOf p ctx api) ↔ n ≤ ctx.limit) := by
  have h : Unmetered d m₁ m :=
    hlead.invariant (unmetered_of_gone ((tracked_boot hf hs).leads hlead₁) hgone)
      fun m a m' h hclean hstep => h.step hfull hclean hstep
  refine ⟨h.gmem, ?_⟩
  have hlimit : ¬ n > ctx.limit ↔ n ≤ ctx.limit := UInt64.not_lt
  rw [allocator_callsDriver_iff hreq, ← hlimit]
  cases hc : ignoresUsed api with
  | true => exact admits_of_ignoresUsed hc
  | false =>
      obtain ⟨hends, htotal⟩ := h.headTotal
      rw [admits_of_asksUsed hc]
      show SumEnds d m.tables (processExist m.system) ∧
        ¬ UInt64.ofNat (Vcuda.RNM.headTotal d m.tables (processExist m.system)) + n > ctx.limit ↔ _
      rw [and_iff_right hends, htotal]
      show ¬ 0 + n > ctx.limit ↔ _
      rw [UInt64.zero_add]

/-- With one record, which is used by a process that is gone. -/
def afterOne : Machine :=
  (Machine.boot initialTables).run oneRecord (starts 0 7 ++
    [.call 1 (granted 100) (.cuMemAlloc 16 30), .exit 1])

/-- A process that has allocated all there is. -/
def withGreedy : Machine :=
  afterOne.run oneRecord (starts 1 7 ++
    [.call 2 (granted 100) (.cuMemAlloc 16 100)])

/-- It asks for the same again. -/
def greedyCall : Call :=
  withGreedy.callOf ((withGreedy.running 2).get (by decide)) (granted 100) (.cuMemAlloc 24 100)

theorem unmetered_withGreedy : CallsDriver oneRecord withGreedy.tables greedyCall := by
  have hlead₁ : Leads oneRecord (.boot initialTables) afterOne :=
    leads_run (by decide) (by simp [starts, Action.Clean, clean_worker])
  have hlead : Leads oneRecord afterOne withGreedy :=
    leads_run (by decide) (by simp [starts, Action.Clean, clean_worker])
  have h₁ := (tracked_boot (fresh_initialTables oneRecord) sentinel_initialTables).leads hlead₁
  have hgone : ∀ pid, afterOne.running pid = none := by
    intro pid
    cases hp : afterOne.running pid with
    | none => rfl
    | some p =>
        have hborn : afterOne.born = [(1, 7)] := by decide
        have hmem := (h₁.running pid p hp).born
        rw [hborn, List.mem_singleton, Prod.mk.injEq] at hmem
        have hnone : afterOne.running 1 = none := by
          rw [← Option.isNone_iff_eq_none]
          decide
        rw [hmem.1, hnone] at hp
        cases hp
  have hiff : CallsDriver oneRecord withGreedy.tables greedyCall ↔ (100 : UInt64) ≤ 100 :=
    (unmetered_for_ever (fresh_initialTables oneRecord) sentinel_initialTables hlead₁ (by decide)
      hgone hlead rfl).2
  exact hiff.mpr (by decide)

end Vcuda.Proc
