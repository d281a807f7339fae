import Vcuda.Common.Run
import Vcuda.Common.SharedMemory
import Vcuda.Proc.Stat
import Vcuda.Rnm.ProbePaths

/-!
# The manager of a process

Every process has one `RNM` object, `rnm`, that is constructed before `main` and that `RNM_init`
replaces. Its constructors attach the two segments, its destructor detaches them, and the implicit
assignment copies the addresses. `RNM_init` assigns from a temporary, so what it leaves in `rnm` is
what the destructor of the temporary has just detached, while the addresses that `rnm` held before
are lost, still attached (`rnmInit_effect`).

A construction is modelled where its calls of `shmget` and `shmat` succeed, which the code does not
check.
-/

namespace Vcuda.Proc

open Tables

/-! ## The object -/

/-- The members of `RNM`. -/
structure RNM where
  pid : Int32
  stime : UInt64
  keyRnode : Int32
  shmIdRnode : Nat
  ptrRnode : Ptr
  lenRnode : Int32
  hashD : UInt64
  keyGmem : Int32
  shmIdGmem : Nat
  ptrGmem : Ptr
  lenGmem : Int32

/-- The shared memory, and what is in the two segments of the tables. -/
structure Memory where
  shm : Shm Ptr
  tables : Tables

/-- What the system answers to a construction: the contents of `/proc`, and the addresses for the
two segments. A new object holds anything in `stime`. -/
structure Answers where
  proc : System
  stime : UInt64
  atRnode : Ptr
  atGmem : Ptr

def keyRnode : Int32 := 0x7C00

def keyGmem : Int32 := 0x7E00

/-- `sizeof(RNode)` -/
def sizeofRNode : UInt64 := 24

/-- `sizeof(GMem)` -/
def sizeofGMem : UInt64 := 24

/-- An `int` as a `size_t`. -/
def sizeT (n : Int32) : UInt64 := n.toInt64.toUInt64

/-- The body of `init_rnode` and `init_gmem`: whether the segment was there already, and its
identifier. -/
def initSegment (m : Shm Ptr) (key : Int32) (bytes : UInt64) : Option (Bool × Nat × Shm Ptr) :=
  match m.shmget key bytes.toNat true with
  | some (shmId, m) => some (false, shmId, m)
  | none => (m.shmget key bytes.toNat false).map (true, ·)

def initRnode (m : Shm Ptr) (bytes : UInt64) : Option (Bool × Nat × Shm Ptr) :=
  initSegment m keyRnode bytes

def initGmem (m : Shm Ptr) (bytes : UInt64) : Option (Bool × Nat × Shm Ptr) :=
  initSegment m keyGmem bytes

/-- `ptr_rnode[i].initialize()` for all `i` below the length. -/
def initializeRnode (lenRnode : Int32) (t : Tables) : Tables :=
  (List.range lenRnode.toNatClampNeg).foldl (fun t i => t.putRnode i RNode.initialized) t

/-- `ptr_gmem[i].initialize()` for all `i` below the length. -/
def initializeGmem (lenGmem : Int32) (t : Tables) : Tables :=
  (List.range lenGmem.toNatClampNeg).foldl
    (fun t (i : Nat) => t.modifyGmem i fun _ => GMem.initialized) t

/-- `RNM::init`, of an object for the process `key`. -/
def init (mem : Memory) (key : PidSt) (lenRnode lenGmem : Int32) (ans : Answers) :
    Option (RNM × Memory) := do
  let hashD := sizeT lenRnode
  let bytesRnode := sizeT lenRnode * sizeofRNode
  let (ifRnodeCreated, shmIdRnode, shm) ← initRnode mem.shm bytesRnode
  let shm ← shm.shmat shmIdRnode ans.atRnode
  let tables := if ifRnodeCreated then mem.tables else initializeRnode lenRnode mem.tables
  let bytesGmem := sizeT lenGmem * sizeofGMem
  let (ifGmemCreated, shmIdGmem, shm) ← initGmem shm bytesGmem
  let shm ← shm.shmat shmIdGmem ans.atGmem
  let tables := if ifGmemCreated then tables else initializeGmem lenGmem tables
  pure
    ({ pid := key.1, stime := key.2
       keyRnode, shmIdRnode, ptrRnode := ans.atRnode, lenRnode, hashD
       keyGmem, shmIdGmem, ptrGmem := ans.atGmem, lenGmem }, ⟨shm, tables⟩)

/-- `RNM::RNM(npid, clen_rnode, clen_gmem)` -/
def construct (mem : Memory) (npid clenRnode clenGmem : Int32) (ans : Answers) :
    Option (RNM × Memory) :=
  init mem (setProcess ans.proc ans.stime npid) clenRnode clenGmem ans

/-- `RNM::RNM()` -/
def constructDefault (mem : Memory) (ans : Answers) : Option (RNM × Memory) :=
  init mem (setProcess ans.proc ans.stime (-1)) 101 1024 ans

/-- The implicit copy assignment, member by member. -/
def RNM.assign (this rnm : RNM) : RNM :=
  { this with
    pid := rnm.pid, stime := rnm.stime
    keyRnode := rnm.keyRnode, shmIdRnode := rnm.shmIdRnode, ptrRnode := rnm.ptrRnode
    lenRnode := rnm.lenRnode, hashD := rnm.hashD
    keyGmem := rnm.keyGmem, shmIdGmem := rnm.shmIdGmem, ptrGmem := rnm.ptrGmem
    lenGmem := rnm.lenGmem }

/-- `RNM::~RNM` -/
def RNM.destroy (rnm : RNM) (mem : Memory) : Memory :=
  { mem with shm := (mem.shm.shmdt rnm.ptrRnode).shmdt rnm.ptrGmem }

/-! ## The process -/

/-- A process: the variable `rnm`, and the memory. -/
structure Process where
  rnm : RNM
  mem : Memory

/-- The construction of the static `rnm`. -/
def start (mem : Memory) (ans : Answers) : Option Process :=
  (constructDefault mem ans).map fun (rnm, mem) => ⟨rnm, mem⟩

/-- A call of `RNM_init`, with the answers it gets. -/
structure InitCall where
  pid : Int32
  lenRnode : Int32
  lenGmem : Int32
  ans : Answers

/-- `RNM_init`. The temporary is destroyed at the end of the statement. -/
def rnmInit (p : Process) (call : InitCall) : Option Process := do
  let (temporary, mem) ← construct p.mem call.pid call.lenRnode call.lenGmem call.ans
  let rnm := p.rnm.assign temporary
  pure ⟨rnm, temporary.destroy mem⟩

/-- A run of `RNM_init` calls. -/
def InitRun (p : Process) (r : List (InitCall × Process)) : Prop :=
  Along (fun p call p' => rnmInit p call = some p') p r

/-- The two pointers of `rnm` refer to the two segments, and nothing else does but what was mapped
in `start`, before there was an `rnm`. -/
structure Attached (start : Shm Ptr) (p : Process) : Prop where
  rnode : p.mem.shm.keyAt p.rnm.ptrRnode = some keyRnode
  gmem : p.mem.shm.keyAt p.rnm.ptrGmem = some keyGmem
  only_rnode : ∀ a, start.mapped a = none → p.mem.shm.keyAt a = some keyRnode → a = p.rnm.ptrRnode
  only_gmem : ∀ a, start.mapped a = none → p.mem.shm.keyAt a = some keyGmem → a = p.rnm.ptrGmem

variable {m m₁ m' : Shm Ptr} {mem mem' : Memory} {key : Int32} {bytes : UInt64} {a b : Ptr}
  {created created₁ created₂ : Bool} {shmId : Nat} {rnm : RNM} {process : PidSt}
  {lenRnode lenGmem : Int32} {ans : Answers} {p p' : Process} {call : InitCall}
  {r : List (InitCall × Process)} {t : Tables}

/-! ## What opening a segment does -/

/-- The segment with the key is mapped at the address `a` now; `created` is what the code takes for
an answer to whether it was there before. -/
structure Opens (m : Shm Ptr) (key : Int32) (a : Ptr) (created : Bool) (m' : Shm Ptr) : Prop where
  free : m.mapped a = none
  segments : m.segments <+: m'.segments
  mapped : ∀ b, b ≠ a → m'.mapped b = m.mapped b
  keyAt : m'.keyAt a = some key
  existed : created = (m.find key).isSome
  find_self : (m'.find key).isSome
  find_ne : ∀ key', key' ≠ key → m'.find key' = m.find key'

theorem initSegment_eq_some (h : initSegment m key bytes = some (created, shmId, m')) :
    (m.find key = some shmId ∧ created = true ∧ m' = m) ∨
      (m.find key = none ∧ created = false ∧ shmId = m.segments.length ∧
        m' = m.create key bytes.toNat) := by
  unfold initSegment at h
  split at h
  · next hget =>
    cases h
    rcases Shm.shmget_eq_some hget with ⟨_, hexcl, _⟩ | ⟨hfind, hid, hm⟩
    · cases hexcl
    · exact Or.inr ⟨hfind, rfl, hid, hm⟩
  · next hnone =>
    obtain ⟨⟨id', m''⟩, hget, heq⟩ := Option.map_eq_some_iff.mp h
    cases heq
    rcases Shm.shmget_eq_some hget with ⟨hfind, _, hm⟩ | ⟨hfind, _⟩
    · exact Or.inl ⟨hfind, rfl, hm⟩
    · -- what the first `shmget` could not create, the second one cannot either
      rw [← Shm.shmget_excl_of_find_eq_none hfind, hnone] at hget
      cases hget

theorem opens_of_initSegment (hget : initSegment m key bytes = some (created, shmId, m₁))
    (hat : m₁.shmat shmId a = some m') : Opens m key a created m' := by
  obtain ⟨hfree, hseg, hmap⟩ := Shm.shmat_eq_some hat
  have hself : m'.mapped a = some shmId := by rw [hmap, Function.update_self]
  have hne : ∀ b, b ≠ a → m'.mapped b = m₁.mapped b := by
    intro b hb
    rw [hmap, Function.update_of_ne hb]
  have hfind : ∀ key', m'.find key' = m₁.find key' := by
    intro key'
    unfold Shm.find
    rw [hseg]
  rcases initSegment_eq_some hget with ⟨hold, rfl, rfl⟩ | ⟨hnew, rfl, rfl, rfl⟩
  · refine ⟨hfree, by rw [hseg], hne, ?_, by rw [hold]; rfl, by rw [hfind, hold]; rfl, ?_⟩
    · apply Shm.keyAt_of_mapped hself
      rw [hseg]
      exact Shm.find_eq_some hold
    · exact fun key' _ => hfind key'
  · refine ⟨hfree, ?_, hne, ?_, by rw [hnew]; rfl, ?_, ?_⟩
    · rw [hseg]
      exact List.prefix_append _ _
    · apply Shm.keyAt_of_mapped hself
      rw [hseg]
      exact Shm.find_eq_some (Shm.find_create_self hnew)
    · rw [hfind, Shm.find_create_self hnew]
      rfl
    · intro key' hkey
      rw [hfind, Shm.find_create_ne hkey]

/-- What else is mapped stays. -/
theorem Opens.keyAt_ne (h : Opens m key a created m') (hb : b ≠ a) : m'.keyAt b = m.keyAt b :=
  Shm.keyAt_congr h.segments (h.mapped b hb)

/-- **What a construction does**: it opens the two segments one after the other, and initialises
those that it has created. -/
structure Constructs (mem : Memory) (rnm : RNM) (mem' : Memory) (m₁ : Shm Ptr)
    (created₁ created₂ : Bool) : Prop where
  rnode : Opens mem.shm keyRnode rnm.ptrRnode created₁ m₁
  gmem : Opens m₁ keyGmem rnm.ptrGmem created₂ mem'.shm
  tables : mem'.tables =
    (if created₂ then id else initializeGmem rnm.lenGmem)
      ((if created₁ then id else initializeRnode rnm.lenRnode) mem.tables)

theorem init_eq_some (h : init mem process lenRnode lenGmem ans = some (rnm, mem')) :
    rnm.lenRnode = lenRnode ∧ rnm.lenGmem = lenGmem ∧
      ∃ m₁ created₁ created₂, Constructs mem rnm mem' m₁ created₁ created₂ := by
  obtain ⟨⟨created₁, id₁, m₀⟩, hget₁, h⟩ := Option.bind_eq_some_iff.mp h
  obtain ⟨m₁, hat₁, h⟩ := Option.bind_eq_some_iff.mp h
  obtain ⟨⟨created₂, id₂, m₂⟩, hget₂, h⟩ := Option.bind_eq_some_iff.mp h
  obtain ⟨m₃, hat₂, h⟩ := Option.bind_eq_some_iff.mp h
  cases h
  refine ⟨rfl, rfl, m₁, created₁, created₂, opens_of_initSegment hget₁ hat₁,
    opens_of_initSegment hget₂ hat₂, ?_⟩
  cases created₁ <;> cases created₂ <;> simp

theorem Constructs.ptr_ne (h : Constructs mem rnm mem' m₁ created₁ created₂) :
    rnm.ptrRnode ≠ rnm.ptrGmem := by
  intro heq
  have hkey := h.rnode.keyAt
  rw [heq, Shm.keyAt, h.gmem.free] at hkey
  cases hkey

/-- Nothing was mapped at the two addresses before. -/
theorem Constructs.free (h : Constructs mem rnm mem' m₁ created₁ created₂) :
    mem.shm.mapped rnm.ptrRnode = none ∧ mem.shm.mapped rnm.ptrGmem = none :=
  ⟨h.rnode.free, by rw [← h.rnode.mapped _ h.ptr_ne.symm, h.gmem.free]⟩

/-- Now they refer to what they should. -/
theorem Constructs.keyAt (h : Constructs mem rnm mem' m₁ created₁ created₂) :
    mem'.shm.keyAt rnm.ptrRnode = some keyRnode ∧ mem'.shm.keyAt rnm.ptrGmem = some keyGmem :=
  ⟨by rw [h.gmem.keyAt_ne h.ptr_ne, h.rnode.keyAt], h.gmem.keyAt⟩

/-- The other mappings stay. -/
theorem Constructs.mapped (h : Constructs mem rnm mem' m₁ created₁ created₂)
    (hr : a ≠ rnm.ptrRnode) (hg : a ≠ rnm.ptrGmem) : mem'.shm.mapped a = mem.shm.mapped a := by
  rw [h.gmem.mapped a hg, h.rnode.mapped a hr]

theorem Constructs.segments (h : Constructs mem rnm mem' m₁ created₁ created₂) :
    mem.shm.segments <+: mem'.shm.segments :=
  h.rnode.segments.trans h.gmem.segments

/-- The destructor takes back the mappings of a construction, and only these. -/
theorem Constructs.destroy (h : Constructs mem rnm mem' m₁ created₁ created₂) :
    (rnm.destroy mem').shm.mapped = mem.shm.mapped := by
  funext a
  show Function.update (Function.update mem'.shm.mapped _ none) _ none a = _
  by_cases hg : a = rnm.ptrGmem
  · rw [hg, Function.update_self, h.free.2]
  · rw [Function.update_of_ne hg]
    by_cases hr : a = rnm.ptrRnode
    · rw [hr, Function.update_self, h.free.1]
    · rw [Function.update_of_ne hr, h.mapped hr hg]

/-! ## The static object -/

theorem start_eq_some (h : start mem ans = some p) :
    ∃ m₁ created₁ created₂, Constructs mem p.rnm p.mem m₁ created₁ created₂ := by
  obtain ⟨⟨rnm, mem'⟩, hcon, rfl⟩ := Option.map_eq_some_iff.mp h
  exact (init_eq_some hcon).2.2

/-- **Before any call** the manager is attached. -/
theorem attached_start (h : start mem ans = some p) : Attached mem.shm p := by
  obtain ⟨m₁, created₁, created₂, hcon⟩ := start_eq_some h
  obtain ⟨hrnode, hgmem⟩ := hcon.keyAt
  have hother : ∀ a, mem.shm.mapped a = none → a ≠ p.rnm.ptrRnode → a ≠ p.rnm.ptrGmem →
      p.mem.shm.keyAt a = none := by
    intro a ha hr hg
    rw [Shm.keyAt, hcon.mapped hr hg, ha]
    rfl
  refine ⟨hrnode, hgmem, ?_, ?_⟩
  · intro a ha hkey
    by_contra hr
    by_cases hg : a = p.rnm.ptrGmem
    · rw [hg, hgmem] at hkey
      exact absurd hkey (by decide)
    · rw [hother a ha hr hg] at hkey
      cases hkey
  · intro a ha hkey
    by_contra hg
    by_cases hr : a = p.rnm.ptrRnode
    · rw [hr, hrnode] at hkey
      exact absurd hkey (by decide)
    · rw [hother a ha hr hg] at hkey
      cases hkey

/-! ## `RNM_init` -/

/-- **What `RNM_init` does.** The mappings are those of before, and the pointers in `rnm` are two
addresses at which nothing is mapped. -/
theorem rnmInit_effect (h : rnmInit p call = some p') :
    p'.mem.shm.mapped = p.mem.shm.mapped ∧ p.mem.shm.segments <+: p'.mem.shm.segments ∧
      p'.mem.shm.mapped p'.rnm.ptrRnode = none ∧ p'.mem.shm.mapped p'.rnm.ptrGmem = none := by
  obtain ⟨⟨temporary, mem'⟩, hcon, h⟩ := Option.bind_eq_some_iff.mp h
  obtain ⟨_, _, m₁, created₁, created₂, hcon⟩ := init_eq_some hcon
  cases h
  refine ⟨hcon.destroy, hcon.segments, ?_, ?_⟩
  · exact (congrFun hcon.destroy _).trans hcon.free.1
  · exact (congrFun hcon.destroy _).trans hcon.free.2

theorem not_attached_of_rnmInit (h : rnmInit p call = some p') : ¬ Attached m p' := by
  intro hatt
  have hkey := hatt.rnode
  rw [Shm.keyAt, (rnmInit_effect h).2.2.1] at hkey
  cases hkey

/-- After a call the two pointers refer to nothing. -/
theorem detached_of_run (hr : InitRun p r) :
    ∀ x ∈ r, x.2.mem.shm.keyAt x.2.rnm.ptrRnode = none ∧
      x.2.mem.shm.keyAt x.2.rnm.ptrGmem = none := by
  induction r generalizing p with
  | nil => exact nofun
  | cons x r ih =>
      obtain ⟨_, _, hrnode, hgmem⟩ := rnmInit_effect hr.1
      refine List.forall_mem_cons.mpr ⟨⟨?_, ?_⟩, ih hr.2⟩
      · rw [Shm.keyAt, hrnode]
        rfl
      · rw [Shm.keyAt, hgmem]
        rfl

/-- **What is left behind.** In every state of a run each address refers to what it did at the
start, so the mappings of the static construction are never removed. -/
theorem keyAt_of_run (hr : InitRun p r) :
    ∀ q ∈ states p r, ∀ a, q.mem.shm.keyAt a = p.mem.shm.keyAt a := by
  have hinv := Along.invariant_states
    (I := fun q => q.mem.shm.mapped = p.mem.shm.mapped ∧
      p.mem.shm.segments <+: q.mem.shm.segments) ⟨rfl, List.prefix_rfl⟩ hr ?_
  · intro q hq a
    exact Shm.keyAt_congr (hinv q hq).2 (congrFun (hinv q hq).1 a)
  · rintro q call q' ⟨hmap, hseg⟩ h
    obtain ⟨hmap', hseg', _⟩ := rnmInit_effect h
    exact ⟨hmap'.trans hmap, hseg.trans hseg'⟩

/-- **When the manager is attached**: as long as `RNM_init` has not been called. -/
theorem attached_iff_never_called (h : start mem ans = some p) (hr : InitRun p r) :
    (∀ q ∈ states p r, Attached mem.shm q) ↔ r = [] := by
  constructor
  · intro hall
    cases r with
    | nil => rfl
    | cons x r =>
        obtain ⟨call, p'⟩ := x
        have hatt := hall p' (List.mem_cons_of_mem _ (mem_states_self p' r))
        exact absurd hatt (not_attached_of_rnmInit hr.1)
  · rintro rfl q hq
    rw [List.mem_singleton.mp hq]
    exact attached_start h

/-- A process that starts with no segments in the system. -/
def noSegments : Memory := ⟨⟨2 ^ 40, [], fun _ => none, nofun⟩, Vcuda.RNM.initialTables⟩

/-- No process can be looked up. -/
def answersAt (atRnode atGmem : Ptr) : Answers := ⟨⟨fun _ => -1, fun _ => none⟩, 0, atRnode, atGmem⟩

/-- The process once `rnm` has been constructed. -/
def started : Process := (start noSegments (answersAt 4096 8192)).get (by decide)

/-- A call with the lengths of the static object. -/
def sameLengths : InitCall := ⟨1, 101, 1024, answersAt 16384 32768⟩

/-- The process after it. -/
def reinitialized : Process := (rnmInit started sameLengths).get (by decide)

theorem start_started : start noSegments (answersAt 4096 8192) = some started :=
  (Option.some_get _).symm

theorem initRun_reinitialized : InitRun started [(sameLengths, reinitialized)] :=
  ⟨(Option.some_get _).symm, trivial⟩

/-- One call is enough. -/
theorem not_attached_reinitialized :
    ¬ ∀ q ∈ states started [(sameLengths, reinitialized)], Attached noSegments.shm q := by
  rw [attached_iff_never_called start_started initRun_reinitialized]
  exact List.cons_ne_nil _ _

/-- **`RNM_init` does not leave the manager attached.** -/
theorem not_attached_of_runs :
    ¬ ∀ (mem : Memory) (ans : Answers) (p : Process) (r : List (InitCall × Process)),
      start mem ans = some p → InitRun p r → ∀ q ∈ states p r, Attached mem.shm q := by
  intro hall
  have hatt := hall _ _ _ _ start_started initRun_reinitialized _
    (List.mem_cons_of_mem _ List.mem_cons_self)
  exact not_attached_of_rnmInit initRun_reinitialized.1 hatt

/-! ## The tables -/

/-- Both segments exist. -/
def Present (m : Shm Ptr) : Prop := (m.find keyRnode).isSome ∧ (m.find keyGmem).isSome

/-- The sizes of the tables of an object. -/
def dims (lenRnode lenGmem : Int32) (hpos : 0 < lenRnode) : Dims where
  lenRnode := lenRnode.toNatClampNeg
  lenGmem := lenGmem.toNatClampNeg
  rnode_pos := by
    rw [Int32.lt_iff_toInt_lt, Int32.toInt_zero] at hpos
    exact Int.lt_toNat.mpr hpos

theorem keyRnode_ne : keyRnode ≠ keyGmem := by decide

theorem Constructs.present (h : Constructs mem rnm mem' m₁ created₁ created₂) :
    Present mem'.shm :=
  ⟨by rw [h.gmem.find_ne _ keyRnode_ne]; exact h.rnode.find_self, h.gmem.find_self⟩

/-- What exists is not initialised again. -/
theorem Constructs.tables_of_present (h : Constructs mem rnm mem' m₁ created₁ created₂)
    (hp : Present mem.shm) : mem'.tables = mem.tables := by
  have h₁ : created₁ = true := h.rnode.existed.trans hp.1
  have h₂ : created₂ = true := by
    rw [h.gmem.existed, h.rnode.find_ne _ keyRnode_ne.symm]
    exact hp.2
  rw [h.tables, if_pos h₁, if_pos h₂]
  rfl

/-- **`RNM_init` never clears the tables.** -/
theorem tables_of_run (h : start mem ans = some p) (hr : InitRun p r) :
    ∀ q ∈ states p r, q.mem.tables = p.mem.tables := by
  obtain ⟨m₁, created₁, created₂, hcon⟩ := start_eq_some h
  have hinv := Along.invariant_states
    (I := fun q => q.mem.tables = p.mem.tables ∧ Present q.mem.shm) ⟨rfl, hcon.present⟩ hr ?_
  · exact fun q hq => (hinv q hq).1
  · rintro q call q' ⟨htables, hpresent⟩ h
    obtain ⟨⟨temporary, mem'⟩, hcon, h⟩ := Option.bind_eq_some_iff.mp h
    obtain ⟨_, _, m₁, created₁, created₂, hcon⟩ := init_eq_some hcon
    cases h
    exact ⟨(hcon.tables_of_present hpresent).trans htables, hcon.present⟩

theorem initializeRnode_rnode (s : Nat) :
    (initializeRnode lenRnode t).rnode s =
      if s < lenRnode.toNatClampNeg then RNode.initialized else t.rnode s := by
  unfold initializeRnode
  induction lenRnode.toNatClampNeg with
  | zero => rfl
  | succ n ih =>
      rw [List.range_succ, List.foldl_append, List.foldl_cons, List.foldl_nil]
      by_cases hs : s = n
      · subst hs
        simp
      · rw [putRnode_rnode_ne hs, ih]
        congr 1
        simp
        omega

theorem initializeGmem_gmem (i : Int) :
    (initializeGmem lenGmem t).gmem i =
      if 0 ≤ i ∧ i < lenGmem.toNatClampNeg then GMem.initialized else t.gmem i := by
  unfold initializeGmem
  induction lenGmem.toNatClampNeg with
  | zero =>
      rw [if_neg (by omega)]
      rfl
  | succ n ih =>
      rw [List.range_succ, List.foldl_append, List.foldl_cons, List.foldl_nil]
      by_cases hi : i = n
      · subst hi
        simp
      · rw [modifyGmem_gmem_ne hi, ih]
        congr 1
        simp
        omega

theorem initializeGmem_rnode : (initializeGmem lenGmem t).rnode = t.rnode := by
  unfold initializeGmem
  induction lenGmem.toNatClampNeg with
  | zero => rfl
  | succ n ih => rw [List.range_succ, List.foldl_append, List.foldl_cons, List.foldl_nil,
      modifyGmem_rnode, ih]

/-- **Where a construction has created the segments, the tables are fresh.** -/
theorem fresh_of_init (hrnode : mem.shm.find keyRnode = none) (hgmem : mem.shm.find keyGmem = none)
    (h : init mem process lenRnode lenGmem ans = some (rnm, mem')) (hpos : 0 < lenRnode) :
    Fresh (dims lenRnode lenGmem hpos) mem'.tables := by
  obtain ⟨hlen₁, hlen₂, m₁, created₁, created₂, hcon⟩ := init_eq_some h
  have h₁ : created₁ = false := by
    rw [hcon.rnode.existed, hrnode]
    rfl
  have h₂ : created₂ = false := by
    rw [hcon.gmem.existed, hcon.rnode.find_ne _ keyRnode_ne.symm, hgmem]
    rfl
  have htables := hcon.tables
  rw [h₁, h₂, hlen₁, hlen₂, if_neg Bool.false_ne_true, if_neg Bool.false_ne_true] at htables
  constructor
  · intro s hs
    rw [htables, initializeGmem_rnode, initializeRnode_rnode]
    exact if_pos hs
  · intro i hi
    rw [htables, initializeGmem_gmem]
    exact if_pos hi

/-- `hash_d` is the length of the process table. -/
theorem hashD_of_init (h : init mem process lenRnode lenGmem ans = some (rnm, mem'))
    (hpos : 0 < lenRnode) : rnm.hashD.toNat = (dims lenRnode lenGmem hpos).hashD := by
  obtain ⟨_, _, h⟩ := Option.bind_eq_some_iff.mp h
  obtain ⟨_, _, h⟩ := Option.bind_eq_some_iff.mp h
  obtain ⟨_, _, h⟩ := Option.bind_eq_some_iff.mp h
  obtain ⟨_, _, h⟩ := Option.bind_eq_some_iff.mp h
  cases h
  exact Vcuda.RNM.toNat_toUInt64_of_pos hpos

end Vcuda.Proc
