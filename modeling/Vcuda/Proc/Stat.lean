import Vcuda.Common.Text
import Vcuda.Rnm.Total

/-!
# Which process is it

A process is recorded as its pid and its start time, the 22nd field of `/proc/<pid>/stat`, and a pid
is held by one process after another. `set_process` and `process_exist` each take the 22nd *word* of
the file. The second field is the command name in parentheses, with whatever white space it has, so
the 22nd word is the 22nd field exactly when there is none in the name
(`stimePlaceholder_of_clean`, `stimePlaceholder_congr_of_spaced`).
-/

namespace Vcuda.Proc

/-- What the two readers ask of the system: `kill(pid, 0)`, and the contents of `/proc/<pid>/stat`
if it can be opened. -/
structure System where
  kill : Int32 → Int32
  stat : Int32 → Option (List Char)

/-- Twenty-two times `str_stream >> stime_placeholder`. -/
def stimePlaceholder (content : List Char) : List Char := ((extract isspace)^[22] (content, [])).2

/-- `RNM::set_process`: `pid` and `stime` afterwards. -/
def setProcess (sys : System) (stime : UInt64) (npid : Int32) : PidSt :=
  if npid ≤ 0 then (npid, 0)
  else
    match sys.stat npid with
    -- `stime` is an `unsigned long`, so a negative number would wrap
    | some content => (npid, UInt64.ofInt (atol (stimePlaceholder content)))
    | none => (npid, stime)

/-- `RNode::process_exist` -/
def processExist (sys : System) (rn : RNode) : Bool :=
  if sys.kill rn.pid = -1 then false
  else
    match sys.stat rn.pid with
    | some content => strtoul (stimePlaceholder content) == rn.t
    | none => false

/-! ## The file -/

/-- A field that has no white space. -/
abbrev Word := { w : List Char // w ≠ [] ∧ ∀ c ∈ w, isspace c = false }

/-- What `/proc/<pid>/stat` says of a process at some moment: the fields 3 to 21 and those behind
the start time are words, the name is anything. -/
structure Snapshot where
  pid : Int32
  pid_pos : 0 < pid
  name : List Char
  fields : List Word
  length_fields : fields.length = 19
  start : Nat
  start_lt : start < 2 ^ 63
  rest : List Word

/-- Every field, with a blank before it. -/
def spaced : List (List Char) → List Char
  | [] => []
  | w :: ws => ' ' :: w ++ spaced ws

namespace Snapshot

/-- The second field. -/
def comm (s : Snapshot) : List Char := '(' :: s.name ++ [')']

/-- The line the kernel prints. -/
def text (s : Snapshot) : List Char :=
  decimal s.pid.toInt.toNat ++
    spaced (s.comm :: s.fields.map Subtype.val ++ decimal s.start :: s.rest.map Subtype.val) ++
    ['\n']

/-- The words before the start time. -/
def front (s : Snapshot) : List (List Char) :=
  decimal s.pid.toInt.toNat :: words isspace s.comm ++ s.fields.map Subtype.val

end Snapshot

/-- The process of the snapshot holds its pid now. -/
structure Holds (sys : System) (s : Snapshot) : Prop where
  kill : sys.kill s.pid = 0
  stat : sys.stat s.pid = some s.text

/-- There is no white space in the name. -/
def Clean (name : List Char) : Prop := ∀ c ∈ name, isspace c = false

/-- Among the processes with these names, a record made of `s` is taken for its process as long as
that lives, and never for another one. -/
def Identifies (names : List Char → Prop) : Prop :=
  ∀ (s s' : Snapshot) (sys sys' : System) (stime : UInt64) (rn : RNode),
    names s.name → names s'.name → s'.pid = s.pid → Holds sys s → Holds sys' s' →
    (rn.pid, rn.t) = setProcess sys stime s.pid →
    (s'.name = s.name → s'.start = s.start → processExist sys' rn = true) ∧
    (s'.start ≠ s.start → processExist sys' rn = false)

variable {s s' : Snapshot} {sys sys' : System} {stime : UInt64} {rn : RNode} {w : List Char}
  {ws : List (List Char)} {names : List Char → Prop}

/-! ## The words of the line -/

theorem words_decimal {n : Nat} : words isspace (decimal n) = [decimal n] :=
  words_of_word decimal_ne_nil fun _ hc => not_isspace_of_mem_decimal hc

theorem words_spaced : words isspace (w ++ spaced ws) =
    words isspace w ++ (ws.map (words isspace)).flatten := by
  induction ws generalizing w with
  | nil => simp [spaced]
  | cons v ws ih =>
      rw [spaced, List.cons_append, words_append_cons (by decide), ih]
      simp

theorem flatten_words_word (l : List Word) :
    ((l.map Subtype.val).map (words isspace)).flatten = l.map Subtype.val := by
  induction l with
  | nil => simp
  | cons v l ih =>
      have hv : words isspace v.val = [v.val] := words_of_word v.property.1 v.property.2
      simp only [List.map_cons, List.flatten_cons, hv, ih, List.singleton_append]

/-- **The words of the line** are the fields, except that the name may be several. -/
theorem Snapshot.words_text (s : Snapshot) :
    words isspace s.text = s.front ++ decimal s.start :: s.rest.map Subtype.val := by
  have hend : ∀ l : List Char, words isspace (l ++ ['\n']) = words isspace l := by
    intro l
    rw [words_append_cons (by decide), words_nil, List.append_nil]
  -- every field is preceded by a blank, so the words of the line are those of its fields
  unfold Snapshot.text Snapshot.front
  rw [hend, words_spaced, words_decimal]
  simp only [List.map_append, List.map_cons, List.flatten_append, List.flatten_cons,
    flatten_words_word, words_decimal, List.cons_append, List.nil_append, List.append_assoc]

/-- The word that both readers take, when it is one of the first. -/
theorem Snapshot.stimePlaceholder_of_getElem? (h : (words isspace s.text)[21]? = some w) :
    stimePlaceholder s.text = w :=
  extract_iterate h

theorem Snapshot.length_front (s : Snapshot) :
    s.front.length = (words isspace s.comm).length + 20 := by
  unfold Snapshot.front
  rw [List.cons_append, List.length_cons, List.length_append, List.length_map, s.length_fields]

/-! ## Names without white space -/

/-- **The 22nd word is the start time.** -/
theorem stimePlaceholder_of_clean (hclean : Clean s.name) :
    stimePlaceholder s.text = decimal s.start := by
  have hcomm : words isspace s.comm = [s.comm] := by
    apply words_of_word
    · simp [Snapshot.comm]
    · intro c hc
      simp only [Snapshot.comm, List.cons_append, List.mem_cons, List.mem_append,
        List.not_mem_nil, or_false] at hc
      rcases hc with rfl | hc | rfl
      · decide
      · exact hclean c hc
      · decide
  -- the pid, the name and nineteen fields come before the start time
  have hlength : s.front.length = 21 := by rw [s.length_front, hcomm, List.length_singleton]
  apply s.stimePlaceholder_of_getElem?
  rw [s.words_text, List.getElem?_append_right (by omega), hlength]
  rfl

theorem setProcess_of_clean (hclean : Clean s.name) (hs : Holds sys s) :
    setProcess sys stime s.pid = (s.pid, UInt64.ofNat s.start) := by
  have hpos : ¬ s.pid ≤ 0 := Int32.not_le.mpr s.pid_pos
  have hnat : (s.start : Int) % 2 ^ 64 = s.start := by
    have := s.start_lt
    omega
  unfold setProcess
  rw [if_neg hpos, hs.stat]
  simp only [stimePlaceholder_of_clean hclean, atol_decimal s.start_lt, UInt64.ofInt, hnat,
    Int.toNat_natCast]

theorem processExist_of_clean (hclean : Clean s.name) (hs : Holds sys s) (hpid : rn.pid = s.pid) :
    processExist sys rn = true ↔ rn.t = UInt64.ofNat s.start := by
  have hlt : s.start < 2 ^ 64 := Nat.lt_trans s.start_lt (by decide)
  have hkill : ¬ sys.kill s.pid = -1 := by
    rw [hs.kill]
    decide
  unfold processExist
  rw [hpid, if_neg hkill, hs.stat]
  simp only [stimePlaceholder_of_clean hclean, strtoul_decimal hlt, beq_iff_eq]
  exact eq_comm

/-- A record made of `s`, looked at when `s'` holds the pid. -/
theorem processExist_iff_start (hclean : Clean s.name) (hclean' : Clean s'.name)
    (hpid : s'.pid = s.pid) (hs : Holds sys s) (hs' : Holds sys' s')
    (hkey : (rn.pid, rn.t) = setProcess sys stime s.pid) :
    processExist sys' rn = true ↔ s'.start = s.start := by
  rw [setProcess_of_clean hclean hs, Prod.mk.injEq] at hkey
  obtain ⟨hrpid, hrt⟩ := hkey
  rw [processExist_of_clean hclean' hs' (hrpid.trans hpid.symm), hrt, ← UInt64.toNat_inj,
    UInt64.toNat_ofNat', UInt64.toNat_ofNat']
  have := s.start_lt
  have := s'.start_lt
  omega

theorem identifies_of_clean (hclean : ∀ name, names name → Clean name) : Identifies names := by
  intro s s' sys sys' stime rn hname hname' hpid hs hs' hkey
  have hexist :=
    processExist_iff_start (hclean _ hname) (hclean _ hname') hpid hs hs' hkey
  constructor
  · intro _ hstart
    exact hexist.mpr hstart
  · intro hne
    rw [← Bool.not_eq_true, hexist]
    exact hne

/-- **Whose records `gmem_used` counts**: those of the process that they were made for. -/
theorem summed_iff_start {t : Tables} {slot : Nat} (hclean : Clean s.name)
    (hclean' : Clean s'.name) (hpid : s'.pid = s.pid) (hs : Holds sys s) (hs' : Holds sys' s')
    (hkey : t.keyOf slot = setProcess sys stime s.pid) :
    RNM.Summed t (processExist sys') slot ↔
      (t.rnode slot).stat = .EXIST ∧ s'.start = s.start :=
  and_congr_right fun _ => processExist_iff_start hclean hclean' hpid hs hs' hkey

/-! ## Names with white space -/

/-- Such a name is more than one word. -/
theorem Snapshot.two_le_words_comm {c : Char} (hc : c ∈ s.name) (hspace : isspace c = true) :
    2 ≤ (words isspace s.comm).length := by
  obtain ⟨l, l', hname⟩ := List.append_of_mem hc
  have hcomm : s.comm = ('(' :: l) ++ c :: (l' ++ [')']) := by
    rw [Snapshot.comm, hname]
    simp
  -- the parentheses are on either side of the white space
  have hopen : 0 < (words isspace ('(' :: l)).length :=
    length_words_pos List.mem_cons_self (by decide)
  have hclose : 0 < (words isspace (l' ++ [')'])).length :=
    length_words_pos (List.mem_append_right l' List.mem_cons_self) (by decide)
  rw [hcomm, words_append_cons hspace, List.length_append]
  omega

/-- The same process, had it started at another time. -/
def Snapshot.startedAt (s : Snapshot) (start : Nat) (h : start < 2 ^ 63) : Snapshot :=
  { s with start := start, start_lt := h }

/-- **The 22nd word has nothing to do with the start time.** -/
theorem stimePlaceholder_congr_of_spaced {c : Char} (hc : c ∈ s.name) (hspace : isspace c = true)
    {start : Nat} (h : start < 2 ^ 63) :
    stimePlaceholder (s.startedAt start h).text = stimePlaceholder s.text := by
  -- the name alone is two words or more, which moves the start time behind the 22nd
  have hlength : 21 < s.front.length := by
    have := s.length_front
    have := s.two_le_words_comm hc hspace
    omega
  have hword : ∀ s' : Snapshot, s'.front = s.front →
      stimePlaceholder s'.text = s.front[21] := by
    intro s' hfront
    apply s'.stimePlaceholder_of_getElem?
    rw [s'.words_text, hfront, List.getElem?_append_left hlength, List.getElem?_eq_getElem hlength]
  rw [hword (s.startedAt start h) rfl, hword s rfl]

/-- The system while the process of the snapshot holds its pid. -/
def Snapshot.system (s : Snapshot) : System := ⟨fun _ => 0, fun _ => some s.text⟩

theorem Snapshot.holds_system (s : Snapshot) : Holds s.system s := ⟨rfl, rfl⟩

/-- A record that is right about a process is wrong about the next one with the same name. -/
theorem not_identifies_of_spaced {c : Char} (hname : names s.name) (hc : c ∈ s.name)
    (hspace : isspace c = true) {start : Nat} (h : start < 2 ^ 63) (hne : start ≠ s.start) :
    ¬ Identifies names := by
  intro hid
  obtain ⟨rn, hkey⟩ : ∃ rn : RNode, (rn.pid, rn.t) = setProcess s.system 0 s.pid :=
    ⟨RNode.new _ _ (-1), rfl⟩
  have hnext := (s.startedAt start h).holds_system
  have hlives : processExist s.system rn = true :=
    (hid s s _ _ 0 rn hname hname rfl s.holds_system s.holds_system hkey).1 rfl rfl
  have hreused : processExist (s.startedAt start h).system rn = false :=
    (hid s (s.startedAt start h) _ _ 0 rn hname hname rfl s.holds_system hnext hkey).2 hne
  -- but `process_exist` reads the same word in both files
  have hsame : processExist (s.startedAt start h).system rn = processExist s.system rn := by
    unfold processExist Snapshot.system
    simp only [stimePlaceholder_congr_of_spaced hc hspace]
  rw [hsame, hlives] at hreused
  cases hreused

/-- The kernel's line for a process with this name, all its counters at zero. -/
def quiet (name : List Char) (start : Nat) (h : start < 2 ^ 63) : Snapshot :=
  ⟨1, by decide, name, List.replicate 19 ⟨['0'], by simp [isspace]⟩, by simp, start, h, []⟩

/-- **A record identifies its process exactly when no command name has white space.** -/
theorem identifies_iff_clean : Identifies names ↔ ∀ name, names name → Clean name := by
  constructor
  · intro hid name hname c hc
    by_contra hspace
    rw [Bool.not_eq_false] at hspace
    exact not_identifies_of_spaced (s := quiet name 0 (by decide)) hname hc hspace
      (by decide : 1 < 2 ^ 63) Nat.one_ne_zero hid
  · exact identifies_of_clean

/-- A process named `tmux: server`. -/
def tmuxServer : Snapshot :=
  quiet ['t', 'm', 'u', 'x', ':', ' ', 's', 'e', 'r', 'v', 'e', 'r'] 100 (by decide)

/-- **A record of `tmux: server` survives the process**: its 22nd word is `0`, and so is that of the
next one. -/
theorem not_identifies : ¬ Identifies fun _ => True := by
  intro hid
  have hkey : setProcess tmuxServer.system 0 1 = (1, 0) := by decide
  have hreused := hid tmuxServer (tmuxServer.startedAt 200 (by decide)) tmuxServer.system _ 0
    (RNode.new 1 0 (-1)) trivial trivial rfl tmuxServer.holds_system
    (tmuxServer.startedAt 200 (by decide)).holds_system hkey.symm
  have hexist : processExist (tmuxServer.startedAt 200 (by decide)).system (RNode.new 1 0 (-1)) =
      true := by decide
  rw [hreused.2 (by decide)] at hexist
  cases hexist

end Vcuda.Proc
