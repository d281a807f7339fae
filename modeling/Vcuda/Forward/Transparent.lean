import Mathlib.Data.List.Forall2
import Vcuda.Common.Traced
import Vcuda.Forward.Originals

/-!
# Transparent forwarding

A pass-through entry point takes the driver's function out of `cuda_library_entry`, where
`load_libcuda` has put it, and calls it through a pointer to a function without a prototype. What
the driver sees is what the application issued, as long as no call goes to one of the five entry
points that do not hand their arguments on (`transparent_iff`).
-/

namespace Vcuda.Forward

open Traced

/-! ## The driver and its functions -/

/-- A value that is passed in a call: an integer, an enumerator or a pointer; a structure; a
floating point number; or the address of an entry point. -/
inductive Value where
  | int (v : Int)
  | struct (bytes : List UInt8)
  | float (x : Float32)
  | double (x : Float)
  | function (e : Entry)

/-- The conversion of an argument when the function has no prototype. An integer type shorter than
`int` becomes an `int`, which has the same value. -/
def Value.promote : Value → Value
  | .float x => .double x.toFloat
  | v => v

/-- A driver: the functions that it exports, and what calling one of them with a list of arguments
returns and does. -/
structure Driver (Fn σ ρ : Type) where
  sym : Entry → Fn
  call : Fn → List Value → σ → ρ × σ

/-- A slot of `cuda_library_entry`. -/
structure EntryT (Fn : Type) where
  fnPtr : Option Fn
  name : Entry

variable {Fn σ ρ : Type}

/-- `dlsym` -/
def Driver.dlsym (D : Driver Fn σ ρ) (name : Entry) : Option Fn := some (D.sym name)

/-- `cuda_library_entry` before anything is loaded. -/
def emptyTable : List (EntryT Fn) := cudaLibraryEntry.map fun name => ⟨none, name⟩

def loadLibcuda (D : Driver Fn σ ρ) (table : List (EntryT Fn)) : List (EntryT Fn) :=
  (List.range cudaEntryEnd).foldl
    (fun table i => table.modify i fun e => { e with fnPtr := D.dlsym e.name }) table

inductive Fault where
  | nullEntry

/-- A driver call. What happens is that the function gets its arguments. -/
def Driver.invoke (D : Driver Fn σ ρ) (f : Fn) (args : List Value) :
    Traced Fault (Fn × List Value) σ ρ := do
  emit (f, args)
  let ret ← read fun s => (D.call f args s).1
  update fun s => (D.call f args s).2
  pure ret

/-- `CUDA_FIND_ENTRY` -/
def findEntry (table : List (EntryT Fn)) (sym : Entry) : Option Fn :=
  table[sym.ctorIdx]? >>= EntryT.fnPtr

/-- `CUDA_ENTRY_CALL` -/
def entryCall (D : Driver Fn σ ρ) (table : List (EntryT Fn)) (sym : Entry) (args : List Value) :
    Traced Fault (Fn × List Value) σ ρ :=
  match findEntry table sym with
  -- a call through a null pointer
  | none => fail .nullEntry
  | some entry => D.invoke entry (args.map Value.promote)

/-- The value of a parameter, in the body of a wrapper that is called with `vals`. The body has no
other names in it. -/
def Wrapper.value (w : Wrapper) (vals : List Value) (name : String) : Value :=
  (((w.params.map Param.name).zip vals).lookup name).getD (.int 0)

def Wrapper.arg (w : Wrapper) (vals : List Value) : Arg → Value
  | .param name => w.value vals name
  | .entry e => .function e

/-- An entry point of `cuda_originals.c`, called with `vals`. -/
def Wrapper.run (w : Wrapper) (D : Driver Fn σ ρ) (table : List (EntryT Fn)) (vals : List Value) :
    Traced Fault (Fn × List Value) σ ρ :=
  entryCall D table w.sym (w.args.map (w.arg vals))

/-! ## The loaded table -/

/-- A loop over the indices changes the slots that it has come past. -/
theorem getElem?_foldl_modify {α : Type} (f : α → α) (l : List α) (n j : Nat) :
    ((List.range n).foldl (fun l i => l.modify i f) l)[j]? =
      if j < n then l[j]?.map f else l[j]? := by
  induction n with
  | zero => simp
  | succ n ih =>
    rw [List.range_succ, List.foldl_append, List.foldl_cons, List.foldl_nil, List.getElem?_modify,
      ih]
    rcases Nat.lt_trichotomy j n with hlt | rfl | hgt
    · rw [if_pos hlt, if_pos (by omega)]
      simp [show n ≠ j by omega]
    · simp
    · rw [if_neg (by omega), if_neg (by omega)]
      simp [show n ≠ j by omega]

/-- **The slot of an enumerator holds the function of its name.** -/
theorem findEntry_loadLibcuda (D : Driver Fn σ ρ) (e : Entry) :
    findEntry (loadLibcuda D emptyTable) e = some (D.sym e) := by
  have hslot : (loadLibcuda D emptyTable)[e.ctorIdx]? = some ⟨some (D.sym e), e⟩ := by
    rw [loadLibcuda, getElem?_foldl_modify, if_pos (ctorIdx_lt e), emptyTable,
      List.getElem?_map, name_at_ctorIdx]
    rfl
  rw [findEntry, hslot]
  rfl

/-- So an entry point makes one driver call. -/
theorem Wrapper.run_loaded (w : Wrapper) (D : Driver Fn σ ρ) (vals : List Value) :
    w.run D (loadLibcuda D emptyTable) vals =
      D.invoke (D.sym w.sym) ((w.args.map (w.arg vals)).map Value.promote) := by
  simp only [Wrapper.run, entryCall, findEntry_loadLibcuda]

/-! ## The arguments -/

/-- The value can be passed for the parameter. -/
def Param.Accepts : Param → Value → Prop
  | .int _, .int _ => True
  | .int _, .function _ => True
  | .struct _, .struct _ => True
  | .float _, .float _ => True
  | _, _ => False

/-- The application calls the entry point with one argument for each parameter, of its type. -/
def Wrapper.Typed (w : Wrapper) (vals : List Value) : Prop :=
  List.Forall₂ Param.Accepts w.params vals

variable {w : Wrapper} {vals : List Value}

theorem promote_ne_float (v : Value) (x : Float32) : v.promote ≠ .float x := by
  cases v <;> simp [Value.promote]

/-- Promotion changes an argument only where the parameter is a `float`. -/
theorem Param.Accepts.promote {p : Param} {v : Value} (h : p.Accepts v) (hp : p.isFloat = false) :
    v.promote = v := by
  cases p <;> cases v <;> simp_all [Param.Accepts, Param.isFloat, Value.promote]

/-- Looking up all the names of a frame, in order, gives its values. -/
theorem map_lookup_zip {α β : Type} [BEq α] [LawfulBEq α] (d : β) {names : List α} {vals : List β}
    (hnodup : names.Nodup) (hlen : names.length = vals.length) :
    names.map (fun name => ((names.zip vals).lookup name).getD d) = vals := by
  induction names generalizing vals with
  | nil => simpa [eq_comm] using hlen
  | cons name names ih =>
    cases vals with
    | nil => simp at hlen
    | cons v vals =>
      obtain ⟨hfresh, hnodup⟩ := List.nodup_cons.mp hnodup
      have htail : ∀ other ∈ names,
          (((name :: names).zip (v :: vals)).lookup other).getD d =
            ((names.zip vals).lookup other).getD d := by
        intro other hother
        -- the names are distinct, so the first one does not hide a later one
        have hne : other ≠ name := fun h => hfresh (h ▸ hother)
        have hbeq : (other == name) = false := by simpa using hne
        rw [List.zip_cons_cons, List.lookup_cons, hbeq]
      rw [List.map_cons, List.map_congr_left htail, ih hnodup (by simpa using hlen)]
      simp

theorem Wrapper.Typed.map_promote (h : w.Typed vals) (hfloat : ∀ p ∈ w.params, p.isFloat = false) :
    vals.map Value.promote = vals := by
  unfold Wrapper.Typed at h
  generalize w.params = ps at h hfloat
  induction h with
  | nil => rfl
  | cons hv _ ih =>
    rw [List.map_cons, hv.promote (hfloat _ List.mem_cons_self),
      ih fun p hp => hfloat p (List.mem_cons_of_mem _ hp)]

/-- A wrapper that repeats its parameters passes its arguments on. -/
theorem Wrapper.Repeats.passed (hw : w.Repeats) (h : w.Typed vals) :
    (w.args.map (w.arg vals)).map Value.promote = vals := by
  obtain ⟨_, hargs, hnodup, hfloat⟩ := hw
  have hvals : w.args.map (w.arg vals) = vals := by
    rw [hargs, List.map_map]
    have hlen : (w.params.map Param.name).length = vals.length := by
      simpa using h.length_eq
    have hmap := map_lookup_zip (Value.int 0) hnodup hlen
    rw [List.map_map] at hmap
    exact hmap
  rw [hvals, h.map_promote hfloat]

/-- One that garbles them does not, whatever the arguments are. -/
theorem Wrapper.Garbles.passed (hw : w.Garbles) (h : w.Typed vals) :
    (w.args.map (w.arg vals)).map Value.promote ≠ vals := by
  intro heq
  rcases hw with hlen | ⟨p, hp, hfloat⟩
  · -- a different number of arguments
    have hargs := congrArg List.length heq
    rw [List.length_map, List.length_map] at hargs
    exact hlen (hargs.trans h.length_eq.symm)
  · -- the argument for the `float` arrives as something else
    obtain ⟨i, hi, rfl⟩ := List.getElem_of_mem hp
    have hi' : i < vals.length := h.length_eq ▸ hi
    have hv : (w.params[i]).Accepts vals[i] := h.get hi hi'
    have hmem : vals[i] ∈ (w.args.map (w.arg vals)).map Value.promote := by
      rw [heq]
      exact List.getElem_mem hi'
    obtain ⟨v, _, hpromote⟩ := List.mem_map.mp hmem
    cases hpi : w.params[i] with
    | int _ => simp [hpi, Param.isFloat] at hfloat
    | struct _ => simp [hpi, Param.isFloat] at hfloat
    | float _ =>
      cases hvi : vals[i] with
      | float x => exact promote_ne_float v x (hpromote.trans hvi)
      | _ => simp [hpi, hvi, Param.Accepts] at hv

/-! ## A sequence of calls -/

/-- A call of a pass-through entry point, by an application. -/
structure PassCall where
  entry : Wrapper
  args : List Value

/-- The entry point is one of `cuda_originals.c`, and its arguments have the types it declares. -/
structure PassCall.WellFormed (c : PassCall) : Prop where
  mem : c.entry ∈ originals
  typed : c.entry.Typed c.args

/-- The calls made through the library. -/
def forwarded (D : Driver Fn σ ρ) (calls : List PassCall) :
    Traced Fault (Fn × List Value) σ (List ρ) :=
  calls.mapM' fun c => c.entry.run D (loadLibcuda D emptyTable) c.args

/-- The same calls made to the driver itself. -/
def direct (D : Driver Fn σ ρ) (calls : List PassCall) :
    Traced Fault (Fn × List Value) σ (List ρ) :=
  calls.mapM' fun c => D.invoke (D.sym c.entry.name) c.args

theorem runs_invoke (D : Driver Fn σ ρ) (f : Fn) (args : List Value) (s : σ) :
    Runs (D.invoke f args) s (D.call f args s).1 (D.call f args s).2 [(f, args)] := rfl

/-- Driver calls made one after the other leave a trace of just those calls. -/
theorem runs_mapM'_invoke {α : Type} (D : Driver Fn σ ρ) (g : α → Fn × List Value) (l : List α)
    (s : σ) : ∃ rets s', Runs (l.mapM' fun a => D.invoke (g a).1 (g a).2) s rets s' (l.map g) := by
  induction l generalizing s with
  | nil => exact ⟨[], s, rfl⟩
  | cons a l ih =>
    obtain ⟨rets, s', hl⟩ := ih (D.call (g a).1 (g a).2 s).2
    refine ⟨(D.call (g a).1 (g a).2 s).1 :: rets, s', ?_⟩
    rw [List.mapM'_cons, List.map_cons]
    refine (runs_invoke D (g a).1 (g a).2 s).bind (runs_bind.mpr ?_)
    exact ⟨rets, s', l.map g, [], hl, runs_pure.mpr ⟨rfl, rfl, rfl⟩, by simp⟩

/-- What the driver sees of a call. -/
def PassCall.seen (D : Driver Fn σ ρ) (c : PassCall) : Fn × List Value :=
  (D.sym c.entry.sym, (c.entry.args.map (c.entry.arg c.args)).map Value.promote)

/-- What the application issues. -/
def PassCall.issued (D : Driver Fn σ ρ) (c : PassCall) : Fn × List Value :=
  (D.sym c.entry.name, c.args)

theorem trace_forwarded (D : Driver Fn σ ρ) (calls : List PassCall) (s : σ) :
    (forwarded D calls s).trace = calls.map (PassCall.seen D) := by
  obtain ⟨rets, s', hrun⟩ := runs_mapM'_invoke D (PassCall.seen D) calls s
  have hfwd : forwarded D calls = calls.mapM' fun c => D.invoke (c.seen D).1 (c.seen D).2 := by
    simp only [forwarded, Wrapper.run_loaded, PassCall.seen]
  rw [hfwd, hrun]

theorem trace_direct (D : Driver Fn σ ρ) (calls : List PassCall) (s : σ) :
    (direct D calls s).trace = calls.map (PassCall.issued D) := by
  obtain ⟨rets, s', hrun⟩ := runs_mapM'_invoke D (PassCall.issued D) calls s
  have hdirect : direct D calls = calls.mapM' fun c => D.invoke (c.issued D).1 (c.issued D).2 := rfl
  rw [hdirect, hrun]

/-- **The driver sees what is issued, unless it is one of the five.** -/
theorem PassCall.WellFormed.seen_eq_issued_iff (D : Driver Fn σ ρ) {c : PassCall}
    (hc : c.WellFormed) : c.seen D = c.issued D ↔ c.entry.name ∉ misforwarded := by
  have hrepeat := originals_repeat c.entry hc.mem
  unfold PassCall.seen PassCall.issued
  by_cases hmis : c.entry.name ∈ misforwarded
  · rw [if_pos hmis] at hrepeat
    simp only [hmis, not_true, iff_false]
    intro heq
    exact hrepeat.passed hc.typed (congrArg Prod.snd heq)
  · rw [if_neg hmis] at hrepeat
    simp only [hmis, not_false_iff, iff_true]
    rw [hrepeat.passed hc.typed, hrepeat.1]

theorem forwarded_eq_direct (D : Driver Fn σ ρ) {calls : List PassCall}
    (hseen : ∀ c ∈ calls, c.seen D = c.issued D) : forwarded D calls = direct D calls := by
  induction calls with
  | nil => simp only [forwarded, direct, List.mapM'_nil]
  | cons c calls ih =>
    have hhead : c.entry.run D (loadLibcuda D emptyTable) c.args =
        D.invoke (D.sym c.entry.name) c.args := by
      have hc := hseen c List.mem_cons_self
      simp only [PassCall.seen, PassCall.issued, Prod.mk.injEq] at hc
      rw [Wrapper.run_loaded, hc.1, hc.2]
    have htail := ih fun c' hc' => hseen c' (List.mem_cons_of_mem _ hc')
    unfold forwarded direct at *
    rw [List.mapM'_cons, List.mapM'_cons, hhead, htail]

/-- **Calls pass through the library as they were issued if and only if none of them is to one of
the five entry points**: the driver sees the same calls, and then they also return and do the
same. -/
theorem transparent_iff (D : Driver Fn σ ρ) {calls : List PassCall}
    (hcalls : ∀ c ∈ calls, c.WellFormed) (s : σ) :
    ((forwarded D calls s).trace = calls.map (PassCall.issued D) ↔
        ∀ c ∈ calls, c.entry.name ∉ misforwarded) ∧
      (forwarded D calls s = direct D calls s ↔ ∀ c ∈ calls, c.entry.name ∉ misforwarded) := by
  have hseen : (∀ c ∈ calls, c.seen D = c.issued D) ↔
      ∀ c ∈ calls, c.entry.name ∉ misforwarded :=
    forall₂_congr fun c hc => (hcalls c hc).seen_eq_issued_iff D
  have htrace : (forwarded D calls s).trace = calls.map (PassCall.issued D) ↔
      ∀ c ∈ calls, c.seen D = c.issued D := by
    rw [trace_forwarded]
    exact List.map_inj_left
  refine ⟨htrace.trans hseen, ?_, ?_⟩
  · intro heq
    exact (htrace.trans hseen).mp (by rw [heq, trace_direct])
  · intro hnone
    rw [forwarded_eq_direct D (hseen.mpr hnone)]

/-- A driver that counts its calls. -/
def countingDriver : Driver Entry Nat Nat := ⟨id, fun _ _ n => (0, n + 1)⟩

/-- `cuDeviceGet(&device, 0)` -/
def deviceGetCall : PassCall :=
  ⟨⟨.cuDeviceGet, ["device", "ordinal"], .cuDeviceGet, ["device", "ordinal"]⟩, [.int 4096, .int 0]⟩

/-- `cuMemcpyHtoD(16, host, 256)` -/
def memcpyCall : PassCall :=
  ⟨⟨.cuMemcpyHtoD_v2, ["dstDevice", "srcHost", "ByteCount"],
    .cuMemcpyHtoD_v2, ["dstDevice", "srcHost", "ByteCount"]⟩, [.int 16, .int 8192, .int 256]⟩

/-- `cuCtxSynchronize()` -/
def synchronizeCall : PassCall := ⟨⟨.cuCtxSynchronize, [], .cuCtxSynchronize, []⟩, []⟩

/-- An application that finds its device, copies twice and waits. -/
def copyingCalls : List PassCall := [deviceGetCall, memcpyCall, memcpyCall, synchronizeCall]

theorem copyingCalls_transparent :
    (∀ c ∈ copyingCalls, c.WellFormed) ∧
      forwarded countingDriver copyingCalls 0 = direct countingDriver copyingCalls 0 := by
  have hget : deviceGetCall.WellFormed := ⟨List.mem_cons_self, .cons trivial (.cons trivial .nil)⟩
  have hcopy : memcpyCall.WellFormed :=
    ⟨by decide +kernel, .cons trivial (.cons trivial (.cons trivial .nil))⟩
  have hwait : synchronizeCall.WellFormed := ⟨by decide +kernel, .nil⟩
  have hcalls : ∀ c ∈ copyingCalls, c.WellFormed := by
    simp only [copyingCalls, List.forall_mem_cons, List.not_mem_nil, false_implies, implies_true]
    exact ⟨hget, hcopy, hcopy, hwait, trivial⟩
  refine ⟨hcalls, (transparent_iff countingDriver hcalls 0).2.mpr ?_⟩
  simp [copyingCalls, deviceGetCall, memcpyCall, synchronizeCall, misforwarded]

/-- `cuGraphAddDependencies(graph, from, to, 1)` -/
def addDependenciesCall : PassCall :=
  ⟨⟨.cuGraphAddDependencies, ["hGraph", "from", "to", "numDependencies"],
    .cuGraphAddDependencies, ["hGraph", "from", "to", "numDependencies", "numDependencies"]⟩,
    [.int 4096, .int 8192, .int 12288, .int 1]⟩

/-- The driver sees five arguments where the application has passed four. -/
theorem addDependenciesCall_not_transparent :
    addDependenciesCall.WellFormed ∧
      (forwarded countingDriver [addDependenciesCall] 0).trace =
        [(.cuGraphAddDependencies,
          [.int 4096, .int 8192, .int 12288, .int 1, .int 1])] ∧
      (forwarded countingDriver [addDependenciesCall] 0).trace ≠
        [addDependenciesCall].map (PassCall.issued countingDriver) := by
  have htrace : (forwarded countingDriver [addDependenciesCall] 0).trace =
      [(.cuGraphAddDependencies, [.int 4096, .int 8192, .int 12288, .int 1, .int 1])] := by
    rw [trace_forwarded]
    rfl
  refine ⟨⟨by decide +kernel, ?_⟩, htrace, ?_⟩
  · exact .cons trivial (.cons trivial (.cons trivial (.cons trivial .nil)))
  · rw [htrace]
    simp [PassCall.issued, addDependenciesCall]

end Vcuda.Forward
