import Vcuda.Common.Run
import Vcuda.Forward.Transparent
import Vcuda.Loader.Version
import Vcuda.Proc.Stat

/-!
# Loading the driver

`cuInit` and `cuDriverGetVersion` load the driver before they call it; the other entry points take
from `cuda_library_entry` what is there. The whole table is filled once in a process, by the first
of these calls that comes to it, but every one of them reads the version again and looks
`cuDriverGetVersion` up in the library of that version. So all functions but this one are those of
the library that was opened first, and this one is of the library that was opened last
(`calls_of_run`).
-/

namespace Vcuda.Loader

open Forward Traced

variable {Fn : Type}

/-! ## The process -/

/-- What `dlsym` finds in a library. -/
abbrev Library (Fn : Type) := Entry → Option Fn

/-- What a process meets when it loads: the variable `LOGGER_LEVEL`, its pid, `/proc`, and the
libraries that can be opened. -/
structure Env (Fn : Type) where
  loggerLevel : Option (List Char)
  pid : Int32
  proc : Proc.System
  versionFile : Except (List Char) (List Char)
  dlopen : List Char → Option (Library Fn)

/-- The variables of `loader.c`, and the process in `rnm`. The names in the table stay. -/
structure State (Fn : Type) where
  process : PidSt
  driverVersion : List Char
  entries : List (EntryT Fn)
  named : entries.map EntryT.name = cudaLibraryEntry
  cudaSet : Bool

/-- `CUDA_FIND_ENTRY(cuda_library_entry, sym)` -/
def State.lookup (s : State Fn) : Library Fn := findEntry s.entries

/-- The table with what a library has. -/
def tableOf (table : Library Fn) : List (EntryT Fn) :=
  cudaLibraryEntry.map fun name => ⟨table name, name⟩

theorem map_name_tableOf (table : Library Fn) :
    (tableOf table).map EntryT.name = cudaLibraryEntry := by
  rw [tableOf, List.map_map]
  exact List.map_id _

/-- A process that has not loaded anything. `rnm` is still of no process. -/
def initial : State Fn := ⟨(-1, 0), [], emptyTable, map_name_tableOf _, false⟩

/-! ## The loader -/

/-- `CUDA_LIBRARY_PREFIX` -/
def cudaLibraryPrefix : List Char := "libcuda.so".toList

/-- What `snprintf` and the null character behind it leave in `cuda_filename`. -/
def cudaFilename (driverVersion : List Char) : List Char :=
  (cudaLibraryPrefix ++ '.' :: driverVersion).take (filenameMax - 2)

/-- The first half of both loaders. Nothing comes after a `FATAL` message. -/
def openLibrary (env : Env Fn) (filename : List Char) :
    Traced Fault Event (State Fn) (Library Fn) := do
  emit (.dlopen filename)
  match env.dlopen filename with
  | some table => pure table
  | none => do
      logger env.loggerLevel fatal (.text ("can't find library ".toList ++ filename))
      pure fun _ => none

/-- Filling a slot leaves its name. -/
theorem map_name_modify (l : List (EntryT Fn)) (idx : Nat) (f : EntryT Fn → Option Fn) :
    (l.modify idx fun e => { e with fnPtr := f e }).map EntryT.name = l.map EntryT.name := by
  apply List.ext_getElem?
  intro i
  rw [List.getElem?_map, List.getElem?_map, List.getElem?_modify, Option.map_eq_map, Option.map_map]
  apply Option.map_congr
  intro e _
  by_cases hi : idx = i
  · simp [hi]
  · simp [hi]

/-- `cuda_library_entry[idx].fn_ptr = dlsym(table, cuda_library_entry[idx].name)` -/
def State.setEntry (s : State Fn) (table : Library Fn) (idx : Nat) : State Fn :=
  { s with
    entries := s.entries.modify idx fun e => { e with fnPtr := table e.name }
    named := (map_name_modify _ _ _).trans s.named }

/-- The second half for one entry. -/
def loadEntry (env : Env Fn) (filename : List Char) (table : Library Fn) (idx : Nat) :
    Traced Fault Event (State Fn) Unit := do
  update (·.setEntry table idx)
  match ← read (·.entries[idx]?) with
  | some ⟨none, name⟩ => logger env.loggerLevel 4 (.cantFind filename name)
  | _ => pure ()

def loadSingleCudaFunction (env : Env Fn) (idx : Nat) : Traced Fault Event (State Fn) Unit := do
  let filename ← read (cudaFilename ·.driverVersion)
  let table ← openLibrary env filename
  loadEntry env filename table idx

def loadLibcuda (env : Env Fn) : Traced Fault Event (State Fn) Unit := do
  logger env.loggerLevel 4 (.text "Start hijacking".toList)
  let filename ← read (cudaFilename ·.driverVersion)
  let table ← openLibrary env filename
  go filename table (List.range cudaEntryEnd)
where
  go (filename : List Char) (table : Library Fn) :
      List Nat → Traced Fault Event (State Fn) Unit
    | [] => pure ()
    | i :: is => do
        loadEntry env filename table i
        go filename table is

/-- `pthread_once(&g_cuda_set, ...)` -/
def pthreadOnce (initRoutine : Traced Fault Event (State Fn) Unit) :
    Traced Fault Event (State Fn) Unit := do
  if ← read (·.cudaSet) then pure ()
  else do
    initRoutine
    update ({ · with cudaSet := true })

/-- `load_necessary_data`; what `print_rnodes` prints is not modelled. -/
def loadNecessaryData (env : Env Fn) : Traced Fault Event (State Fn) Unit := do
  update fun s => { s with process := Proc.setProcess env.proc s.process.2 env.pid }
  let version ← read State.driverVersion
  let version ← readVersionFromProc env.loggerLevel env.versionFile version
  update ({ · with driverVersion := version })
  loadSingleCudaFunction env Entry.cuDriverGetVersion.ctorIdx
  pthreadOnce (loadLibcuda env)

/-- The function that `CUDA_ENTRY_CALL` calls. -/
def entryFunction (sym : Entry) : Traced Fault Event (State Fn) Fn := do
  match ← read (State.lookup · sym) with
  | some entry => pure entry
  -- a call through a null pointer
  | none => fail .nullEntry

def cuInit (env : Env Fn) : Traced Fault Event (State Fn) Fn := do
  loadNecessaryData env
  entryFunction .cuInit

def cuDriverGetVersion (env : Env Fn) : Traced Fault Event (State Fn) Fn := do
  loadNecessaryData env
  entryFunction .cuDriverGetVersion

/-! ## The table -/

variable {env : Env Fn} {s s' : State Fn} {table first latest : Library Fn} {sym e : Entry}
  {entry : Fn} {u : Unit} {tr : List Event} {fault : Fault} {version filename : List Char}

@[simp] theorem findEntry_tableOf (table : Library Fn) (e : Entry) :
    findEntry (tableOf table) e = table e := by
  rw [findEntry, tableOf, List.getElem?_map, name_at_ctorIdx]
  rfl

/-- A table is what is found in it. -/
theorem eq_tableOf {l : List (EntryT Fn)} (h : l.map EntryT.name = cudaLibraryEntry) :
    l = tableOf (findEntry l) := by
  apply List.ext_getElem?
  intro i
  have hname : (l[i]?).map EntryT.name = cudaLibraryEntry[i]? := by rw [← h, List.getElem?_map]
  rw [tableOf, List.getElem?_map, ← hname, Option.map_map]
  cases hslot : l[i]? with
  | none => rfl
  | some slot =>
      -- the slot of a name is where the name is
      rw [hslot, Option.map_some] at hname
      have hlt : i < cudaLibraryEntry.length := (List.getElem?_eq_some_iff.mp hname.symm).1
      have hidx : slot.name.ctorIdx = i := by
        have hmap := congrArg (fun l => l[i]?) ctorIdx_cudaLibraryEntry
        rw [length_cudaLibraryEntry] at hlt
        rw [List.getElem?_map, ← hname, List.getElem?_range hlt] at hmap
        exact Option.some.inj hmap
      have hfind : findEntry l slot.name = slot.fnPtr := by
        unfold findEntry
        rw [hidx, hslot]
        rfl
      rw [Option.map_some, Function.comp_apply, hfind]

theorem State.entries_eq (s : State Fn) : s.entries = tableOf s.lookup := eq_tableOf s.named

theorem State.ext_lookup (hprocess : s.process = s'.process)
    (hversion : s.driverVersion = s'.driverVersion) (hlookup : s.lookup = s'.lookup)
    (hset : s.cudaSet = s'.cudaSet) : s = s' := by
  have hentries : s.entries = s'.entries := by rw [s.entries_eq, s'.entries_eq, hlookup]
  cases s
  cases s'
  simp only at hprocess hversion hentries hset
  subst hprocess hversion hentries hset
  rfl

/-- The table is replaced. -/
def State.withTable (s : State Fn) (table : Library Fn) : State Fn :=
  { s with entries := tableOf table, named := map_name_tableOf table }

@[simp] theorem lookup_withTable : (s.withTable table).lookup = table :=
  funext (findEntry_tableOf table)

@[simp] theorem lookup_initial : (initial : State Fn).lookup = fun _ => none :=
  funext (findEntry_tableOf fun _ => none)

/-- Filling the slot of a function changes what is found for this one. -/
theorem lookup_setEntry (s : State Fn) (table : Library Fn) (e : Entry) :
    (s.setEntry table e.ctorIdx).lookup = Function.update s.lookup e (table e) := by
  funext e'
  have hslot : (tableOf s.lookup)[e'.ctorIdx]? = some ⟨s.lookup e', e'⟩ := by
    rw [tableOf, List.getElem?_map, name_at_ctorIdx]
    rfl
  show findEntry (s.entries.modify e.ctorIdx _) e' = _
  unfold findEntry
  rw [List.getElem?_modify, s.entries_eq, hslot]
  by_cases he : e' = e
  · subst he
    rw [Function.update_self, Option.map_eq_map, Option.map_some, if_pos rfl]
    rfl
  · have hne : e.ctorIdx ≠ e'.ctorIdx := fun h => he (ctorIdx_inj h).symm
    rw [Function.update_of_ne he, Option.map_eq_map, Option.map_some, if_neg hne]
    rfl

theorem setEntry_eq (s : State Fn) (table : Library Fn) (e : Entry) :
    s.setEntry table e.ctorIdx = s.withTable (Function.update s.lookup e (table e)) := by
  refine State.ext_lookup rfl rfl ?_ rfl
  rw [lookup_setEntry, lookup_withTable]

/-! ## What loading does -/

/-- What is printed of the functions that a library does not have. -/
def missing (env : Env Fn) (filename : List Char) (table : Library Fn) (es : List Entry) :
    List Event :=
  (es.filter fun e => (table e).isNone).flatMap fun e =>
    said env.loggerLevel 4 (.cantFind filename e)

theorem openLibrary_runs (h : env.dlopen filename = some table) :
    Runs (openLibrary env filename) s table s [.dlopen filename] := by
  unfold openLibrary
  rw [h]
  exact (emit_runs _ s).bind (runs_pure.mpr ⟨rfl, rfl, rfl⟩)

theorem openLibrary_faults (h : env.dlopen filename = none) :
    Faults (openLibrary env filename) s .exit := by
  unfold openLibrary
  rw [h]
  exact (emit_runs _ s).returns.faults_bind (faults_bind.mpr (Or.inl (logger_faults s)))

theorem loadEntry_runs : Runs (loadEntry env filename table e.ctorIdx) s ()
    (s.withTable (Function.update s.lookup e (table e))) (missing env filename table [e]) := by
  have hslot : (s.withTable (Function.update s.lookup e (table e))).entries[e.ctorIdx]? =
      some ⟨table e, e⟩ := by
    show (tableOf _)[e.ctorIdx]? = _
    rw [tableOf, List.getElem?_map, name_at_ctorIdx, Option.map_some, Function.update_self]
  have hmissing : missing env filename table [e] =
      match table e with
      | some _ => []
      | none => said env.loggerLevel 4 (.cantFind filename e) := by
    unfold missing
    cases htable : table e with
    | some entry => simp [htable]
    | none => simp [htable]
  rw [hmissing]
  refine (update_runs (·.setEntry table e.ctorIdx) s).bind ?_
  simp only [setEntry_eq]
  refine (read_runs _ _).bind ?_
  rw [hslot]
  cases table e with
  | some entry => exact runs_pure.mpr ⟨rfl, rfl, rfl⟩
  | none => exact logger_runs.mpr ⟨by decide, rfl, rfl⟩

/-- **The loop** fills the slots that it comes past. -/
theorem loadLibcuda_go_runs (es : List Entry) (s : State Fn) :
    Runs (loadLibcuda.go env filename table (es.map Entry.ctorIdx)) s ()
      (s.withTable fun e => if e ∈ es then table e else s.lookup e)
      (missing env filename table es) := by
  induction es generalizing s with
  | nil =>
      have hsame : s.withTable (fun e => if e ∈ [] then table e else s.lookup e) = s :=
        State.ext_lookup rfl rfl (by simp) rfl
      rw [hsame]
      exact runs_pure.mpr ⟨rfl, rfl, rfl⟩
  | cons e es ih =>
      have hsame : (s.withTable (Function.update s.lookup e (table e))).withTable
          (fun e' => if e' ∈ es then table e' else Function.update s.lookup e (table e) e') =
          s.withTable fun e' => if e' ∈ e :: es then table e' else s.lookup e' := by
        refine State.ext_lookup rfl rfl ?_ rfl
        rw [lookup_withTable, lookup_withTable]
        funext e'
        by_cases he : e' = e
        · simp [he]
        · simp [he]
      have hmissing : missing env filename table (e :: es) =
          missing env filename table [e] ++ missing env filename table es := by
        unfold missing
        rw [← List.singleton_append, List.filter_append, List.flatMap_append]
      have hrest := ih (s.withTable (Function.update s.lookup e (table e)))
      rw [lookup_withTable, hsame] at hrest
      rw [hmissing]
      exact (loadEntry_runs (s := s)).bind hrest

theorem mem_cudaLibraryEntry (e : Entry) : e ∈ cudaLibraryEntry :=
  List.mem_of_getElem? (name_at_ctorIdx e)

/-- **The whole table** becomes what the library has, and what it does not have is printed, in the
order of the table. -/
theorem loadLibcuda_runs (h : env.dlopen (cudaFilename s.driverVersion) = some table) :
    Runs (loadLibcuda env) s () (s.withTable table)
      (said env.loggerLevel 4 (.text "Start hijacking".toList) ++
        .dlopen (cudaFilename s.driverVersion) ::
          missing env (cudaFilename s.driverVersion) table cudaLibraryEntry) := by
  have hgo : Runs (loadLibcuda.go env (cudaFilename s.driverVersion) table _) s () _ _ :=
    loadLibcuda_go_runs cudaLibraryEntry s
  simp only [mem_cudaLibraryEntry, if_true] at hgo
  rw [ctorIdx_cudaLibraryEntry] at hgo
  have hstart : Runs (logger env.loggerLevel 4 (.text "Start hijacking".toList)) s () s _ :=
    logger_runs.mpr ⟨by decide, rfl, rfl⟩
  refine hstart.bind ?_
  exact (read_runs _ s).bind ((openLibrary_runs h).bind hgo)

theorem loadSingleCudaFunction_runs
    (h : env.dlopen (cudaFilename s.driverVersion) = some table) :
    Runs (loadSingleCudaFunction env e.ctorIdx) s ()
      (s.withTable (Function.update s.lookup e (table e)))
      (.dlopen (cudaFilename s.driverVersion) ::
        missing env (cudaFilename s.driverVersion) table [e]) :=
  (read_runs _ s).bind ((openLibrary_runs h).bind loadEntry_runs)

theorem loadSingleCudaFunction_faults
    (h : env.dlopen (cudaFilename s.driverVersion) = none) (idx : Nat) :
    Faults (loadSingleCudaFunction env idx) s .exit :=
  (read_runs _ s).returns.faults_bind (faults_bind.mpr (Or.inl (openLibrary_faults h)))

/-- The state that `load_necessary_data` leaves, when it has read this version and opened this
library. -/
def loaded (env : Env Fn) (s : State Fn) (version : List Char) (table : Library Fn) : State Fn where
  process := Proc.setProcess env.proc s.process.2 env.pid
  driverVersion := version
  entries := tableOf fun e =>
    if s.cudaSet = false ∨ e = .cuDriverGetVersion then table e else s.lookup e
  named := map_name_tableOf _
  cudaSet := true

@[simp] theorem lookup_loaded : (loaded env s version table).lookup =
    fun e => if s.cudaSet = false ∨ e = .cuDriverGetVersion then table e else s.lookup e := by
  funext e
  simp only [State.lookup, loaded, findEntry_tableOf]

/-- What loading needs: a version that fits, and its library. -/
def Loads (env : Env Fn) (s s' : State Fn) : Prop :=
  ∃ version table, Reads env.versionFile s.driverVersion version ∧
    env.dlopen (cudaFilename version) = some table ∧ s' = loaded env s version table

/-- The library of the version that is read cannot be opened. -/
def NoLibrary (env : Env Fn) (s : State Fn) : Prop :=
  ∃ version, Reads env.versionFile s.driverVersion version ∧
    env.dlopen (cudaFilename version) = none

/-- What is done before the version is read. -/
def State.withProcess (s : State Fn) (env : Env Fn) : State Fn :=
  { s with process := Proc.setProcess env.proc s.process.2 env.pid }

/-- What is left to do once it is read. -/
def loadVersion (env : Env Fn) (version : List Char) : Traced Fault Event (State Fn) Unit := do
  update ({ · with driverVersion := version })
  loadSingleCudaFunction env Entry.cuDriverGetVersion.ctorIdx
  pthreadOnce (loadLibcuda env)

theorem loadVersion_returns (h : env.dlopen (cudaFilename version) = some table) :
    Returns (loadVersion env version) (s.withProcess env) () (loaded env s version table) := by
  let s₁ : State Fn := { s.withProcess env with driverVersion := version }
  let s₂ := s₁.withTable
    (Function.update s₁.lookup .cuDriverGetVersion (table .cuDriverGetVersion))
  have hupdate : Returns (update ({ · with driverVersion := version })) (s.withProcess env) () s₁ :=
    (update_runs (ε := Fault) (ρ := Event) _ _).returns
  have hsingle : Returns (loadSingleCudaFunction env Entry.cuDriverGetVersion.ctorIdx) s₁ () s₂ :=
    (loadSingleCudaFunction_runs (s := s₁) h).returns
  refine hupdate.bind (hsingle.bind ?_)
  refine (read_runs (·.cudaSet) s₂).returns.bind ?_
  show Returns (if s.cudaSet then _ else _) s₂ () _
  cases hset : s.cudaSet with
  | true =>
      have hsame : s₂ = loaded env s version table := by
        refine State.ext_lookup rfl rfl ?_ hset
        rw [lookup_withTable, lookup_loaded]
        funext e
        by_cases he : e = .cuDriverGetVersion
        · simp [he]
        · simp only [he, hset, Function.update_of_ne he]
          rfl
      rw [if_pos rfl, hsame]
      exact returns_pure _ _
  | false =>
      have hsame : { s₂.withTable table with cudaSet := true } = loaded env s version table := by
        refine State.ext_lookup rfl rfl ?_ rfl
        show (s₂.withTable table).lookup = _
        rw [lookup_withTable, lookup_loaded]
        simp [hset]
      rw [if_neg Bool.false_ne_true, ← hsame]
      exact (loadLibcuda_runs (s := s₂) h).returns.bind (update_runs _ _).returns

theorem loadVersion_faults (h : env.dlopen (cudaFilename version) = none) :
    Faults (loadVersion env version) s .exit := by
  refine (update_runs _ s).returns.faults_bind ?_
  exact faults_bind.mpr (Or.inl (loadSingleCudaFunction_faults h _))

/-- With the version read, loading goes on with it. -/
theorem loadNecessaryData_returns (h : Reads env.versionFile s.driverVersion version)
    (hr : Returns (loadVersion env version) (s.withProcess env) () s') :
    Returns (loadNecessaryData env) s () s' := by
  refine (update_runs _ s).returns.bind ((read_runs _ _).returns.bind ?_)
  exact (readVersionFromProc_of_reads h _).bind hr

theorem loadNecessaryData_faults (h : Reads env.versionFile s.driverVersion version)
    (hf : Faults (loadVersion env version) (s.withProcess env) fault) :
    Faults (loadNecessaryData env) s fault := by
  refine (update_runs _ s).returns.faults_bind ((read_runs _ _).returns.faults_bind ?_)
  exact (readVersionFromProc_of_reads h _).faults_bind hf

theorem loadNecessaryData_of_tooLong (h : TooLong env.versionFile) :
    Faults (loadNecessaryData env) s .overflow := by
  refine (update_runs _ s).returns.faults_bind ((read_runs _ _).returns.faults_bind ?_)
  exact faults_bind.mpr (Or.inl (readVersionFromProc_of_tooLong h _))

/-- **When loading succeeds, and how it fails.** -/
theorem loadNecessaryData_iff (env : Env Fn) (s : State Fn) :
    (∀ u s', Returns (loadNecessaryData env) s u s' ↔ Loads env s s') ∧
    ∀ e, Faults (loadNecessaryData env) s e ↔
      (e = .overflow ∧ TooLong env.versionFile) ∨ (e = .exit ∧ NoLibrary env s) := by
  apply outcome_iff
  · rintro u s' ⟨version, table, hversion, hopen, rfl⟩
    exact loadNecessaryData_returns hversion (loadVersion_returns hopen)
  · rintro e (⟨rfl, hlong⟩ | ⟨rfl, version, hversion, hopen⟩)
    · exact loadNecessaryData_of_tooLong hlong
    · exact loadNecessaryData_faults hversion (loadVersion_faults hopen)
  · rcases reads_or_tooLong env.versionFile s.driverVersion with ⟨version, hversion⟩ | hlong
    · cases hopen : env.dlopen (cudaFilename version) with
      | some table => exact Or.inl ⟨(), _, version, table, hversion, hopen, rfl⟩
      | none => exact Or.inr ⟨.exit, Or.inr ⟨rfl, version, hversion, hopen⟩⟩
    · exact Or.inr ⟨.overflow, Or.inl ⟨rfl, hlong⟩⟩

/-! ## Runs of a process -/

/-- A call of an entry point. -/
inductive Call (Fn : Type) where
  | cuInit (env : Env Fn)
  | cuDriverGetVersion (env : Env Fn)
  | other (sym : Entry)

/-- The function the call is for. -/
def Call.symbol : Call Fn → Entry
  | .cuInit _ => .cuInit
  | .cuDriverGetVersion _ => .cuDriverGetVersion
  | .other sym => sym

/-- What a call meets when it loads. -/
def Call.env? : Call Fn → Option (Env Fn)
  | .cuInit env => some env
  | .cuDriverGetVersion env => some env
  | .other _ => none

/-- What is done, up to the call of the driver's function. -/
def Call.exec : Call Fn → Traced Fault Event (State Fn) Fn
  | .cuInit env => Loader.cuInit env
  | .cuDriverGetVersion env => Loader.cuDriverGetVersion env
  | .other sym => entryFunction sym

/-- A run of calls, each with the function of the driver it has come to. -/
def Run (s : State Fn) (r : List ((Call Fn × Fn) × State Fn)) : Prop :=
  Along (fun s x s' => Returns x.1.exec s x.2 s') s r

/-- The library that a call has opened. -/
def openedBy (x : (Call Fn × Fn) × State Fn) : Option (Library Fn) := do
  let env ← x.1.1.env?
  env.dlopen (cudaFilename x.2.driverVersion)

/-- The libraries a run has opened. -/
def libraries (r : List ((Call Fn × Fn) × State Fn)) : List (Library Fn) := r.filterMap openedBy

/-- Which of these libraries a function comes from. -/
def supplier (libs : List (Library Fn)) (sym : Entry) : Option (Library Fn) :=
  if sym = .cuDriverGetVersion then libs.getLast? else libs.head?

/-- What that library has. -/
def supplied (libs : List (Library Fn)) (sym : Entry) : Option Fn :=
  (supplier libs sym).bind (· sym)

/-- The table is filled from these libraries. -/
structure Filled (libs : List (Library Fn)) (s : State Fn) : Prop where
  cudaSet : s.cudaSet = !libs.isEmpty
  lookup : s.lookup = supplied libs

theorem filled_initial : Filled [] (initial : State Fn) := by
  refine ⟨rfl, ?_⟩
  funext sym
  rw [lookup_initial]
  simp [supplied, supplier]

variable {libs : List (Library Fn)} {c : Call Fn} {r : List ((Call Fn × Fn) × State Fn)}

/-- One more library is opened. -/
theorem Filled.load (hf : Filled libs s) (table : Library Fn) (version : List Char) :
    Filled (libs ++ [table]) (loaded env s version table) := by
  refine ⟨by simp [loaded], ?_⟩
  funext sym
  rw [lookup_loaded, hf.lookup, hf.cudaSet]
  show (if (!libs.isEmpty) = false ∨ sym = .cuDriverGetVersion then table sym
    else supplied libs sym) = _
  unfold supplied supplier
  by_cases hsym : sym = .cuDriverGetVersion
  · rw [if_pos (Or.inr hsym), if_pos hsym, List.getLast?_concat]
    rfl
  · cases libs with
    | nil => simp [hsym]
    | cons first libs => simp [hsym]

theorem entryFunction_returns :
    Returns (entryFunction sym) s entry s' ↔ s' = s ∧ s.lookup sym = some entry := by
  unfold entryFunction
  rw [(read_runs _ s).returns.bind_iff]
  cases s.lookup sym with
  | none => simp [Returns]
  | some entry' => simp [returns_pure_iff, eq_comm]

theorem loads_and_calls {env : Env Fn} (hf : Filled libs s)
    (hr : Returns (loadNecessaryData env >>= fun _ => entryFunction sym) s entry s') :
    ∃ table, env.dlopen (cudaFilename s'.driverVersion) = some table ∧
      Filled (libs ++ [table]) s' ∧ s'.lookup sym = some entry := by
  obtain ⟨_, s₁, hload, hcall⟩ := returns_bind.mp hr
  obtain ⟨version, table, _, hopen, rfl⟩ := ((loadNecessaryData_iff env s).1 _ _).mp hload
  obtain ⟨rfl, hentry⟩ := entryFunction_returns.mp hcall
  exact ⟨table, hopen, hf.load table version, hentry⟩

/-- **One call.** -/
theorem filled_of_returns (hf : Filled libs s) (hr : Returns c.exec s entry s') :
    Filled (libs ++ (openedBy ((c, entry), s')).toList) s' ∧ s'.lookup c.symbol = some entry := by
  cases c with
  | cuInit env =>
      obtain ⟨table, hopen, hfilled, hentry⟩ := loads_and_calls hf hr
      have hopened : openedBy ((.cuInit env, entry), s') = some table := hopen
      rw [hopened]
      exact ⟨hfilled, hentry⟩
  | cuDriverGetVersion env =>
      obtain ⟨table, hopen, hfilled, hentry⟩ := loads_and_calls hf hr
      have hopened : openedBy ((.cuDriverGetVersion env, entry), s') = some table := hopen
      rw [hopened]
      exact ⟨hfilled, hentry⟩
  | other sym =>
      obtain ⟨rfl, hentry⟩ := entryFunction_returns.mp hr
      refine ⟨?_, hentry⟩
      show Filled (libs ++ []) s'
      rwa [List.append_nil]

/-- **Any number of calls.** -/
theorem filled_of_run (hf : Filled libs s) (hr : Run s r) :
    Filled (libs ++ libraries r) (final s r) := by
  induction r generalizing s libs with
  | nil => rwa [libraries, List.filterMap_nil, List.append_nil]
  | cons x r ih =>
      obtain ⟨⟨c, entry⟩, s'⟩ := x
      have hrest := ih (filled_of_returns hf hr.1).1 hr.2
      rw [List.append_assoc] at hrest
      have hlibs : libraries (((c, entry), s') :: r) =
          (openedBy ((c, entry), s')).toList ++ libraries r := by
        unfold libraries
        rw [List.filterMap_cons]
        cases openedBy ((c, entry), s') with
        | none => rfl
        | some table => rfl
      rw [hlibs]
      exact hrest

/-- Each call has come to a function of the libraries opened so far, by itself or before it. -/
theorem called_of_run {x : (Call Fn × Fn) × State Fn} (hr : Run initial (r ++ [x])) :
    supplied (libraries (r ++ [x])) x.1.1.symbol = some x.1.2 := by
  obtain ⟨hrun, hx, _⟩ := Along.append_iff.mp hr
  have hbefore := filled_of_run filled_initial hrun
  have hafter := filled_of_run filled_initial hr
  have hentry := (filled_of_returns hbefore hx).2
  rw [List.nil_append] at hafter
  rw [final_append] at hafter
  rw [← hafter.lookup]
  exact hentry

section Forwarding

variable {σ ρ : Type} {D : Driver Fn σ ρ}

theorem map_name_foldl_modify (f : EntryT Fn → Option Fn) (l : List (EntryT Fn)) (n : Nat) :
    ((List.range n).foldl (fun l i => l.modify i fun e => { e with fnPtr := f e }) l).map
      EntryT.name = l.map EntryT.name := by
  induction n with
  | zero => rfl
  | succ n ih =>
      rw [List.range_succ, List.foldl_append, List.foldl_cons, List.foldl_nil, map_name_modify, ih]

theorem map_name_loadLibcuda (D : Driver Fn σ ρ) :
    (Forward.loadLibcuda D emptyTable).map EntryT.name = cudaLibraryEntry :=
  (map_name_foldl_modify (fun e => D.dlsym e.name) _ _).trans (map_name_tableOf fun _ => none)

theorem forward_loadLibcuda (D : Driver Fn σ ρ) :
    Forward.loadLibcuda D emptyTable = tableOf fun e => some (D.sym e) :=
  (eq_tableOf (map_name_loadLibcuda D)).trans
    (congrArg tableOf (funext (findEntry_loadLibcuda D)))

/-- The first call loads. -/
theorem libraries_ne_nil (hr : Run initial r) (hne : r ≠ []) : libraries r ≠ [] := by
  obtain ⟨x, r', rfl⟩ := List.exists_cons_of_ne_nil hne
  have hfirst := called_of_run (r := []) (x := x) ⟨hr.1, trivial⟩
  intro hnil
  have hnone : libraries [x] = [] := by
    unfold libraries at hnil ⊢
    rw [← List.singleton_append, List.filterMap_append, List.append_eq_nil_iff] at hnil
    exact hnil.1
  rw [List.nil_append, hnone] at hfirst
  simp [supplied, supplier] at hfirst

/-- **Where every library that was opened is the driver**, the table is the one that `load_libcuda`
makes of it in one go, so the entry points find the driver's functions. -/
theorem entries_of_run (hr : Run initial r) (hne : r ≠ [])
    (hlibs : ∀ table ∈ libraries r, ∀ e, table e = some (D.sym e)) :
    (final initial r).entries = Forward.loadLibcuda D emptyTable := by
  have hlookup := (filled_of_run filled_initial hr).lookup
  rw [List.nil_append] at hlookup
  rw [State.entries_eq, forward_loadLibcuda, hlookup]
  congr 1
  funext e
  have hlibne := libraries_ne_nil hr hne
  unfold supplied supplier
  split
  · rw [List.getLast?_eq_some_getLast hlibne]
    exact hlibs _ (List.getLast_mem hlibne) e
  · rw [List.head?_eq_some_head hlibne]
    exact hlibs _ (List.head_mem hlibne) e

end Forwarding

/-- A driver, and where it is. -/
def installed : Env Entry where
  loggerLevel := none
  pid := 7
  proc := ⟨fun _ => 0, fun _ => none⟩
  versionFile := .ok ("NVRM ".toList ++ exampleVersion.text ++ ['\n'])
  dlopen filename := if filename = "libcuda.so.440.33.01".toList then some some else none

/-- The process after `cuInit`. -/
def initialized : State Entry := loaded installed initial exampleVersion.text some

/-- The run is just this call. -/
def firstCall : List ((Call Entry × Entry) × State Entry) :=
  [((.cuInit installed, .cuInit), initialized)]

theorem reads_installed : Reads installed.versionFile [] exampleVersion.text := by
  let line := "NVRM ".toList ++ exampleVersion.text ++ ['\n']
  have hline : (lines line).find? isNvrm = some line := by decide
  have hholds : Holds (cString line) exampleVersion :=
    ⟨"NVRM ".toList, ['\n'], by decide, before_of_no_digit (by simp),
      after_of_cons (by decide) (by decide)⟩
  exact .version hline hholds (by decide)

theorem dlopen_installed : installed.dlopen (cudaFilename exampleVersion.text) = some some := by
  have hname : cudaFilename exampleVersion.text = "libcuda.so.440.33.01".toList := by decide
  unfold installed
  rw [hname]
  rfl

theorem run_firstCall : Run initial firstCall := by
  refine ⟨?_, trivial⟩
  have hload : Returns (loadNecessaryData installed) initial () initialized :=
    ((loadNecessaryData_iff installed initial).1 _ _).mpr
      ⟨_, _, reads_installed, dlopen_installed, rfl⟩
  refine hload.bind (entryFunction_returns.mpr ⟨rfl, ?_⟩)
  show (loaded _ _ _ _).lookup _ = _
  rw [lookup_loaded]
  rfl

theorem libraries_firstCall : libraries firstCall = [some] := by
  show List.filterMap openedBy [_] = _
  rw [List.filterMap_cons, List.filterMap_nil]
  show (match installed.dlopen (cudaFilename exampleVersion.text) with
    | none => []
    | some table => [table]) = _
  rw [dlopen_installed]

theorem entries_firstCall :
    (final initial firstCall).entries = Forward.loadLibcuda countingDriver emptyTable := by
  apply entries_of_run run_firstCall (List.cons_ne_nil _ _)
  intro table htable e
  rw [libraries_firstCall, List.mem_singleton] at htable
  rw [htable]
  rfl

end Vcuda.Loader
