import Vcuda.Common.Search
import Vcuda.Common.Text
import Vcuda.Common.Traced
import Vcuda.Forward.Entries
import Mathlib.Data.Set.List

/-!
# The version of the driver

Which library holds the driver depends on its version, and that is looked up in a line of text:
`read_version_from_proc` takes the first line of `/proc/driver/nvidia/version` that begins with
`NVRM`, and in it the first match of a regular expression, digits and dots. Wherever the version
stands in that line, it is the one that is read as long as nothing before it looks like a version
and it does not run on (`first_iff`, `readVersionFromProc_iff`).
-/

namespace Vcuda.Loader

open Forward RegularExpression Traced

/-! ## Messages -/

/-- Why a process does not go on: `exit(-1)`, a write past the end of an array, a call through a
null pointer. -/
inductive Fault where
  | exit
  | overflow
  | nullEntry
  deriving DecidableEq

/-- What is printed: a text, or that a function cannot be found. The latter has the file and the
name in this order, each in the other one's place. -/
inductive Message where
  | text (t : List Char)
  | cantFind (cudaFilename : List Char) (name : Entry)
  deriving DecidableEq

/-- What can be seen of the loader: a message on `stderr`, the libraries it opens. -/
inductive Event where
  | log (message : Message)
  | dlopen (filename : List Char)
  deriving DecidableEq

/-- `FATAL` -/
def fatal : Int32 := 3

/-- `_print_level`, from the value of `LOGGER_LEVEL`. -/
def printLevel (loggerLevel : Option (List Char)) : Int32 :=
  match loggerLevel with
  | none => 3
  | some text =>
      let level := (strtoul text).toUInt32.toInt32
      if level < 0 then 3 else level

variable {σ : Type}

/-- What `LOGGER` prints, without the place in the source. -/
def printed (loggerLevel : Option (List Char)) (level : Int32) (message : Message) :
    Traced Fault Event σ Unit :=
  if level ≤ printLevel loggerLevel then emit (.log message) else pure ()

/-- `LOGGER(level, ...)` -/
def logger (loggerLevel : Option (List Char)) (level : Int32) (message : Message) :
    Traced Fault Event σ Unit := do
  printed loggerLevel level message
  if level = fatal then fail .exit else pure ()

/-! ## Reading the version -/

/-- `FILENAME_MAX` -/
def filenameMax : Nat := 4096

/-- `[0-9]` -/
def digit : RegularExpression Char := anyOf ['0', '1', '2', '3', '4', '5', '6', '7', '8', '9']

/-- `DRIVER_VERSION_MATCH_PATTERN`, which is `([0-9]+)(\.[0-9]+)+`. -/
def driverVersionMatchPattern : RegularExpression Char :=
  oneOrMore digit * oneOrMore (char '.' * oneOrMore digit)

/-- The string at the start of an array. -/
def cString (array : List Char) : List Char := array.takeWhile (· ≠ '\x00')

/-- `matchRegex`, for the pattern it is called with: what `version` holds afterwards. The match is
copied with its length, and a null character is written after it. -/
def matchRegex (loggerLevel : Option (List Char)) (matchString version : List Char) :
    Traced Fault Event σ (List Char) :=
  match search driverVersionMatchPattern matchString with
  | some (so, eo) =>
      if eo - so < filenameMax then pure ((matchString.drop so).take (eo - so)) else fail .overflow
  | none => do
      logger loggerLevel 4 (.text ("Regex does not match for string: ".toList ++ matchString))
      pure version

/-- What `getline` returns, again and again: the lines, with the characters that end them. -/
def lines : List Char → List (List Char)
  | [] => []
  | c :: l =>
      if c = '\n' then [c] :: lines l
      else
        match lines l with
        | [] => [[c]]
        | line :: rest => (c :: line) :: rest

/-- `strncmp(line, "NVRM", 4) == 0` -/
def isNvrm (line : List Char) : Bool := ['N', 'V', 'R', 'M'].isPrefixOf (cString line)

/-- The loop of `read_version_from_proc`, which stops at the first line of the kernel module. -/
def readLines (loggerLevel : Option (List Char)) :
    List (List Char) → List Char → Traced Fault Event σ (List Char)
  | [], version => pure version
  | line :: rest, version =>
      if isNvrm line then matchRegex loggerLevel (cString line) version
      else readLines loggerLevel rest version

/-- `DRIVER_VERSION_PROC_PATH` -/
def driverVersionProcPath : List Char := "/proc/driver/nvidia/version".toList

/-- `read_version_from_proc`: what `version` holds afterwards. The file is its contents, or the text
of the error when it cannot be opened. -/
def readVersionFromProc (loggerLevel : Option (List Char)) (file : Except (List Char) (List Char))
    (version : List Char) : Traced Fault Event σ (List Char) :=
  match file with
  | .error error => do
      logger loggerLevel 4
        (.text ("can't open ".toList ++ driverVersionProcPath ++ ", error ".toList ++ error))
      pure version
  | .ok content => readLines loggerLevel (lines content) version

/-! ## Versions -/

/-- A part of a version. -/
abbrev Digits := { w : List Char // w ≠ [] ∧ ∀ c ∈ w, c.isDigit = true }

/-- A version: several parts, with dots between them. -/
structure Version where
  major : Digits
  minors : List Digits
  minors_ne_nil : minors ≠ []

/-- As it is written. -/
def Version.text (v : Version) : List Char :=
  v.major.val ++ (v.minors.map fun w => '.' :: w.val).flatten

/-- Nothing in `pre`, which stands before a version, looks like a version. -/
structure Before (pre : List Char) : Prop where
  inside : ∀ l c c' r, pre = l ++ c :: '.' :: c' :: r → c.isDigit = true → c'.isDigit = false
  dot : ∀ l c, pre = l ++ [c, '.'] → c.isDigit = false
  last : ∀ l c, pre = l ++ [c] → c.isDigit = false

/-- A version does not run on in `post`, which stands behind it. -/
structure After (post : List Char) : Prop where
  digit : ∀ c r, post = c :: r → c.isDigit = false
  dot : ∀ c r, post = '.' :: c :: r → c.isDigit = false

variable {w m pre post : List Char} {c : Char} {v v' : Version}

theorem mem_digits : c ∈ ['0', '1', '2', '3', '4', '5', '6', '7', '8', '9'] ↔ c.isDigit = true := by
  constructor
  · intro hc
    have hall : ∀ c ∈ ['0', '1', '2', '3', '4', '5', '6', '7', '8', '9'], c.isDigit = true := by
      simp
    exact hall c hc
  · intro hc
    have hall : ∀ k, k < 10 →
        Char.ofNat (48 + k) ∈ ['0', '1', '2', '3', '4', '5', '6', '7', '8', '9'] := by decide
    obtain ⟨hlow, hhigh⟩ := toNat_of_isDigit hc
    obtain ⟨k, hk⟩ := Nat.exists_eq_add_of_le hlow
    rw [← Char.ofNat_toNat c, hk]
    exact hall k (by omega)

theorem mem_oneOrMore_digit :
    w ∈ (oneOrMore digit).matches' ↔ w ≠ [] ∧ ∀ c ∈ w, c.isDigit = true := by
  unfold digit
  rw [mem_oneOrMore_anyOf]
  simp only [mem_digits]

/-- A further part, with the dot before it. -/
theorem mem_dot_digits : w ∈ (char '.' * oneOrMore digit).matches' ↔
    ∃ d : Digits, '.' :: d.val = w := by
  rw [matches'_mul, Language.mem_mul]
  constructor
  · rintro ⟨_, rfl, u, hu, rfl⟩
    exact ⟨⟨u, mem_oneOrMore_digit.mp hu⟩, rfl⟩
  · rintro ⟨d, rfl⟩
    exact ⟨['.'], rfl, d.val, mem_oneOrMore_digit.mpr d.property, rfl⟩

/-- **The pattern matches the versions.** -/
theorem mem_driverVersionMatchPattern :
    m ∈ driverVersionMatchPattern.matches' ↔ ∃ v : Version, m = v.text := by
  rw [driverVersionMatchPattern, matches'_mul, Language.mem_mul]
  constructor
  · rintro ⟨w, hw, u, hu, rfl⟩
    obtain ⟨ws, hne, rfl, hws⟩ := mem_oneOrMore.mp hu
    -- every further part is one of a version
    have hrange : ws ∈ Set.range (List.map fun d : Digits => '.' :: d.val) := by
      rw [Set.range_list_map]
      exact fun v hv => mem_dot_digits.mp (hws v hv)
    obtain ⟨minors, rfl⟩ := hrange
    have hminors : minors ≠ [] := by
      rintro rfl
      exact hne rfl
    exact ⟨⟨⟨w, mem_oneOrMore_digit.mp hw⟩, minors, hminors⟩, rfl⟩
  · rintro ⟨v, rfl⟩
    refine ⟨_, mem_oneOrMore_digit.mpr v.major.property, _, mem_oneOrMore.mpr ?_, rfl⟩
    refine ⟨_, fun hnil => v.minors_ne_nil (List.map_eq_nil_iff.mp hnil), rfl, ?_⟩
    intro u hu
    obtain ⟨d, _, rfl⟩ := List.mem_map.mp hu
    exact mem_dot_digits.mpr ⟨d, rfl⟩

/-! ## The first version in a line -/

/-- What a version begins with: its first part, a dot, a digit. -/
theorem Version.text_eq (v : Version) : ∃ l c c' r, v.text = l ++ c :: '.' :: c' :: r ∧
    v.major.val = l ++ [c] ∧ c.isDigit = true ∧ c'.isDigit = true := by
  obtain ⟨d, ds, hminors⟩ := List.exists_cons_of_ne_nil v.minors_ne_nil
  obtain ⟨c', r, hd⟩ := List.exists_cons_of_ne_nil d.property.1
  have hlast := List.dropLast_append_getLast v.major.property.1
  refine ⟨v.major.val.dropLast, _, c', r ++ (ds.map fun w => '.' :: w.val).flatten, ?_, hlast.symm,
    v.major.property.2 _ (List.getLast_mem _), d.property.2 c' (by simp [hd])⟩
  unfold Version.text
  rw [hminors, List.map_cons, List.flatten_cons, hd]
  nth_rewrite 1 [← hlast]
  simp

theorem not_isDigit_dot : Char.isDigit '.' = false := by decide

/-- Behind a dot there is a digit. -/
theorem digit_of_dot {w : List Char} {ds : List Digits} {l r : List Char}
    (hw : ∀ c ∈ w, c.isDigit = true)
    (h : w ++ (ds.map fun d => '.' :: d.val).flatten = l ++ '.' :: r) :
    ∃ c r', r = c :: r' ∧ c.isDigit = true := by
  have hdot : '.' ∉ w := by
    intro hmem
    have hdigit := hw '.' hmem
    rw [not_isDigit_dot] at hdigit
    cases hdigit
  induction ds generalizing w l with
  | nil =>
      rw [List.map_nil, List.flatten_nil, List.append_nil] at h
      rw [h] at hdot
      simp at hdot
  | cons d ds ih =>
      obtain ⟨c, r', hd⟩ := List.exists_cons_of_ne_nil d.property.1
      have hc : c.isDigit = true := d.property.2 c (by simp [hd])
      have hdot' : '.' ∉ d.val := by
        intro hmem
        have hdigit := d.property.2 '.' hmem
        rw [not_isDigit_dot] at hdigit
        cases hdigit
      rw [List.map_cons, List.flatten_cons, List.cons_append] at h
      rcases List.append_eq_append_iff.mp h with ⟨a, rfl, ha⟩ | ⟨a, rfl, ha⟩
      · cases a with
        | nil =>
            have hr := (List.cons.inj ha).2
            rw [hd] at hr
            exact ⟨c, _, hr.symm, hc⟩
        | cons e a => exact ih d.property.2 (List.cons.inj ha).2 hdot'
      · cases a with
        | nil =>
            have hr := (List.cons.inj ha).2
            rw [hd] at hr
            exact ⟨c, _, hr, hc⟩
        | cons e a =>
            obtain ⟨rfl, _⟩ := List.cons.inj ha
            simp at hdot

theorem Version.isDigit_or_dot (hc : c ∈ v.text) : c.isDigit = true ∨ c = '.' := by
  unfold Version.text at hc
  rcases List.mem_append.mp hc with hc | hc
  · exact Or.inl (v.major.property.2 c hc)
  · obtain ⟨u, hu, hcu⟩ := List.mem_flatten.mp hc
    obtain ⟨d, _, rfl⟩ := List.mem_map.mp hu
    rcases List.mem_cons.mp hcu with rfl | hcd
    · exact Or.inr rfl
    · exact Or.inl (d.property.2 c hcd)

/-- No version begins in `pre` when nothing there looks like one. -/
theorem Before.leftmost (hb : Before pre) {pre' post' : List Char}
    (h : pre' ++ v'.text ++ post' = pre ++ v.text ++ post) : pre.length ≤ pre'.length := by
  by_contra hlt
  obtain ⟨l, c, c', r, htext, hmajor, hc, hc'⟩ := v'.text_eq
  have hdigits : ∀ e ∈ l, e.isDigit = true := by
    intro e he
    exact v'.major.property.2 e (by simp [hmajor, he])
  rw [htext, List.append_assoc, List.append_assoc] at h
  -- the version begins in `pre`, with `q`
  obtain ⟨q, rfl, hq⟩ : ∃ q, pre = pre' ++ q ∧
      l ++ (c :: '.' :: c' :: r ++ post') = q ++ (v.text ++ post) := by
    rw [List.append_assoc] at h
    rcases List.append_eq_append_iff.mp h with h | ⟨q, rfl, _⟩
    · exact h
    · simp at hlt
  have hqne : q ≠ [] := by
    rintro rfl
    simp at hlt
  obtain ⟨q₀, e, rfl⟩ := (List.eq_nil_or_concat' q).resolve_left hqne
  have hlast : e.isDigit = false := hb.last (pre' ++ q₀) e (by simp)
  rcases List.append_eq_append_iff.mp hq with ⟨a, ha, hrest⟩ | ⟨a, rfl, _⟩
  · -- it goes beyond the first digits: how far?
    match a, hrest with
    | [], _ =>
        have he : e ∈ l := by
          rw [← List.append_nil l, ← ha]
          simp
        rw [hdigits e he] at hlast
        cases hlast
    | [x], hrest =>
        simp only [List.cons_append, List.cons.injEq] at hrest
        obtain ⟨rfl, _⟩ := hrest
        have he : e = c := by
          have hends := congrArg List.getLast? ha
          simpa using hends
        rw [he, hc] at hlast
        cases hlast
    | [x, y], hrest =>
        simp only [List.cons_append, List.cons.injEq] at hrest
        obtain ⟨rfl, rfl, _⟩ := hrest
        have hdot := hb.dot (pre' ++ l) c (by rw [ha]; simp)
        rw [hc] at hdot
        cases hdot
    | x :: y :: z :: a, hrest =>
        simp only [List.cons_append, List.cons.injEq] at hrest
        obtain ⟨rfl, rfl, rfl, _⟩ := hrest
        have hinside := hb.inside (pre' ++ l) c c' a (by rw [ha]; simp) hc
        rw [hc'] at hinside
        cases hinside
  · -- it ends among the first digits
    have he : e ∈ q₀ ++ [e] ++ a := by simp
    rw [hdigits e he] at hlast
    cases hlast

/-- No version that begins where `v` does is longer, when `v` does not run on. -/
theorem After.longest (ha : After post) {post' : List Char}
    (h : v'.text ++ post' = v.text ++ post) : v'.text.length ≤ v.text.length := by
  by_contra hlt
  obtain ⟨x, hx, rfl⟩ : ∃ x, v'.text = v.text ++ x ∧ post = x ++ post' := by
    rcases List.append_eq_append_iff.mp h with ⟨x, hx, _⟩ | h
    · rw [hx] at hlt
      simp at hlt
    · exact h
  cases x with
  | nil =>
      rw [hx] at hlt
      simp at hlt
  | cons c x =>
      rcases v'.isDigit_or_dot (c := c) (by rw [hx]; simp) with hc | rfl
      · have hno := ha.digit c _ rfl
        rw [hc] at hno
        cases hno
      · -- a dot belongs to the version only with a digit behind it
        obtain ⟨c, r, rfl, hc⟩ := digit_of_dot v'.major.property.2 hx
        have hno := ha.dot c _ rfl
        rw [hc] at hno
        cases hno

/-- A digit is a part of a version. -/
def Digits.single (c : Char) (hc : c.isDigit = true) : Digits :=
  ⟨[c], by simp, by simpa using hc⟩

/-- One part more makes another version. -/
theorem Version.exists_snoc (v : Version) (d : Digits) :
    ∃ v' : Version, v'.text = v.text ++ '.' :: d.val :=
  ⟨⟨v.major, v.minors ++ [d], by simp⟩, by simp [Version.text]⟩

/-- So does one digit more at the end. -/
theorem Version.exists_digit (v : Version) (hc : c.isDigit = true) :
    ∃ v' : Version, v'.text = v.text ++ [c] := by
  obtain ⟨ds, d, hds⟩ := (List.eq_nil_or_concat' v.minors).resolve_left v.minors_ne_nil
  have hlonger : ∀ e ∈ d.val ++ [c], e.isDigit = true := by
    intro e he
    rcases List.mem_append.mp he with he | he
    · exact d.property.2 e he
    · rw [List.mem_singleton.mp he]
      exact hc
  refine ⟨⟨v.major, ds ++ [⟨d.val ++ [c], by simp, hlonger⟩], by simp⟩, ?_⟩
  simp [Version.text, hds]

/-- And at the front. -/
theorem Version.exists_cons (v : Version) (hc : c.isDigit = true) :
    ∃ v' : Version, v'.text = c :: v.text :=
  ⟨⟨⟨c :: v.major.val, by simp, List.forall_mem_cons.mpr ⟨hc, v.major.property.2⟩⟩, v.minors,
    v.minors_ne_nil⟩, by simp [Version.text]⟩

/-- **Which version is the first one in a line**: one with nothing before it that looks like a
version, and that does not run on. -/
theorem first_iff : First driverVersionMatchPattern pre v.text post ↔ Before pre ∧ After post := by
  have hmatch : ∀ v : Version, v.text ∈ driverVersionMatchPattern.matches' :=
    fun v => mem_driverVersionMatchPattern.mpr ⟨v, rfl⟩
  constructor
  · intro h
    -- two digits with a dot between them are a version
    have htwo : ∀ {l r : List Char} {c c' : Char}, c.isDigit = true → c'.isDigit = true →
        l ++ c :: '.' :: c' :: r = pre ++ v.text ++ post → pre.length ≤ l.length := by
      intro l r c c' hc hc' heq
      let v' : Version := ⟨Digits.single c hc, [Digits.single c' hc'], by simp⟩
      apply h.leftmost l v'.text r _ (hmatch v')
      rw [← heq]
      simp [v', Version.text, Digits.single]
    refine ⟨⟨?_, ?_, ?_⟩, ⟨?_, ?_⟩⟩
    · rintro l c c' r rfl hc
      by_contra hc'
      rw [Bool.not_eq_false] at hc'
      have hle := htwo (l := l) (r := r ++ v.text ++ post) hc hc' (by simp)
      simp at hle
    · rintro l c rfl
      by_contra hc
      rw [Bool.not_eq_false] at hc
      obtain ⟨e, w, hmajor⟩ := List.exists_cons_of_ne_nil v.major.property.1
      have he : e.isDigit = true := v.major.property.2 e (by simp [hmajor])
      have htext : v.text = e :: (w ++ (v.minors.map fun d => '.' :: d.val).flatten) := by
        rw [Version.text, hmajor, List.cons_append]
      have hle := htwo (l := l) (r := w ++ (v.minors.map fun d => '.' :: d.val).flatten ++ post)
        hc he (by rw [htext]; simp)
      simp at hle
    · rintro l c rfl
      by_contra hc
      rw [Bool.not_eq_false] at hc
      obtain ⟨v', hv'⟩ := v.exists_cons hc
      have hle := h.leftmost l v'.text post (by simp [hv']) (hmatch v')
      simp at hle
    · rintro c r rfl
      by_contra hc
      rw [Bool.not_eq_false] at hc
      obtain ⟨v', hv'⟩ := v.exists_digit hc
      have hle := h.longest v'.text r (by simp [hv']) (hmatch v')
      simp [hv'] at hle
    · rintro c r rfl
      by_contra hc
      rw [Bool.not_eq_false] at hc
      obtain ⟨v', hv'⟩ := v.exists_snoc (Digits.single c hc)
      have hle := h.longest v'.text r (by simp [hv', Digits.single]) (hmatch v')
      simp [hv'] at hle
  · rintro ⟨hb, ha⟩
    refine ⟨hmatch v, ?_, ?_⟩
    · intro pre' m' post' heq hmem
      obtain ⟨v', rfl⟩ := mem_driverVersionMatchPattern.mp hmem
      exact hb.leftmost heq
    · intro m' post' heq hmem
      obtain ⟨v', rfl⟩ := mem_driverVersionMatchPattern.mp hmem
      exact ha.longest heq

/-- The first version in a line. -/
def Holds (line : List Char) (v : Version) : Prop :=
  ∃ pre post, line = pre ++ v.text ++ post ∧ Before pre ∧ After post

/-- There is a version in the line. -/
def HasVersion (line : List Char) : Prop := ∃ v pre post, line = pre ++ Version.text v ++ post

variable {loggerLevel : Option (List Char)} {level : Int32} {message : Message}
  {line version content : List Char}
  {file : Except (List Char) (List Char)} {s s' : σ} {r : List Char} {ls rest : List (List Char)}

/-- A line holds one version, or has none. -/
theorem Holds.unique (h : Holds line v) (h' : Holds line v') : v.text = v'.text := by
  obtain ⟨pre, post, rfl, hfirst⟩ := h
  obtain ⟨pre', post', heq, hfirst'⟩ := h'
  exact ((first_iff.mpr hfirst).unique (first_iff.mpr hfirst') heq).2

theorem search_line_none : search driverVersionMatchPattern line = none ↔ ¬ HasVersion line := by
  rw [search_eq_none_iff]
  constructor
  · rintro hall ⟨v, pre, post, heq⟩
    exact hall pre v.text post heq (mem_driverVersionMatchPattern.mpr ⟨v, rfl⟩)
  · intro hno pre m post heq hmem
    obtain ⟨v, rfl⟩ := mem_driverVersionMatchPattern.mp hmem
    exact hno ⟨v, pre, post, heq⟩

/-- A line with a version holds one. -/
theorem HasVersion.exists_holds (h : HasVersion line) : ∃ v, Holds line v := by
  have hsome : search driverVersionMatchPattern line ≠ none := by
    rw [Ne, search_line_none, not_not]
    exact h
  obtain ⟨⟨so, eo⟩, hsearch⟩ := Option.ne_none_iff_exists'.mp hsome
  obtain ⟨pre, m, post, ⟨rfl, hfirst⟩, _⟩ := search_eq_some_iff.mp hsearch
  obtain ⟨v, rfl⟩ := mem_driverVersionMatchPattern.mp hfirst.mem
  exact ⟨v, pre, post, rfl, first_iff.mp hfirst⟩

/-! ## What is read -/

/-- What there is to see of a message. -/
def said (loggerLevel : Option (List Char)) (level : Int32) (message : Message) : List Event :=
  if level ≤ printLevel loggerLevel then [.log message] else []

theorem printed_runs {u : Unit} {tr : List Event} :
    Runs (printed loggerLevel level message) s u s' tr ↔
      s = s' ∧ tr = said loggerLevel level message := by
  unfold printed said
  split
  · exact runs_emit
  · simp

/-- **A message ends the process if it is `FATAL`**, and otherwise it is just a message. -/
theorem logger_runs {u : Unit} {tr : List Event} :
    Runs (logger loggerLevel level message) s u s' tr ↔
      level ≠ fatal ∧ s = s' ∧ tr = said loggerLevel level message := by
  constructor
  · intro hr
    obtain ⟨_, _, _, _, hprint, hrest, rfl⟩ := runs_bind.mp hr
    obtain ⟨rfl, rfl⟩ := printed_runs.mp hprint
    split at hrest
    · exact absurd hrest runs_fail
    · next hne =>
      obtain ⟨_, rfl, rfl⟩ := runs_pure.mp hrest
      exact ⟨hne, rfl, List.append_nil _⟩
  · rintro ⟨hne, rfl, rfl⟩
    rw [logger, if_neg hne]
    exact runs_bind.mpr ⟨(), s, _, [], printed_runs.mpr ⟨rfl, rfl⟩, rfl, (List.append_nil _).symm⟩

theorem logger_faults (s : σ) : Faults (logger loggerLevel fatal message) s .exit := by
  have hprint : Returns (printed loggerLevel fatal message) s () s :=
    ⟨_, printed_runs.mpr ⟨rfl, rfl⟩⟩
  apply hprint.faults_bind
  rw [if_pos rfl]
  exact faults_fail.mpr rfl

theorem logger_returns (h : level ≠ fatal) (s : σ) :
    Returns (logger loggerLevel level message) s () s :=
  ⟨_, logger_runs.mpr ⟨h, rfl, rfl⟩⟩

theorem matchRegex_of_holds (h : Holds line v) :
    (matchRegex loggerLevel line version : Traced Fault Event σ (List Char)) =
      if v.text.length < filenameMax then pure v.text else fail .overflow := by
  obtain ⟨pre, post, rfl, hfirst⟩ := h
  unfold matchRegex
  rw [(first_iff.mpr hfirst).search]
  simp only [Nat.add_sub_cancel_left]
  rw [List.append_assoc, List.drop_left, List.take_left]

theorem matchRegex_of_none (h : ¬ HasVersion line) (s : σ) :
    Returns (matchRegex loggerLevel line version) s version s := by
  unfold matchRegex
  rw [search_line_none.mpr h]
  exact (logger_returns (by decide) s).bind (returns_pure version s)

/-- The first line of the kernel module decides. -/
theorem readLines_eq : (readLines loggerLevel ls version : Traced Fault Event σ (List Char)) =
    match ls.find? isNvrm with
    | some line => matchRegex loggerLevel (cString line) version
    | none => pure version := by
  induction ls with
  | nil => rfl
  | cons line ls ih =>
      rw [readLines, List.find?_cons]
      cases isNvrm line with
      | true => rfl
      | false => exact ih

/-- What `version` holds after the file was read. The first line of the kernel module decides. -/
inductive Reads : Except (List Char) (List Char) → List Char → List Char → Prop where
  | unopened {error version : List Char} : Reads (.error error) version version
  | noLine {content version : List Char} (hline : (lines content).find? isNvrm = none) :
      Reads (.ok content) version version
  | noVersion {content version line : List Char} (hline : (lines content).find? isNvrm = some line)
      (hno : ¬ HasVersion (cString line)) : Reads (.ok content) version version
  | version {content version line : List Char} {v : Version}
      (hline : (lines content).find? isNvrm = some line) (hv : Holds (cString line) v)
      (hfits : v.text.length < filenameMax) : Reads (.ok content) version v.text

/-- The version in the file is too long for the array. -/
def TooLong (file : Except (List Char) (List Char)) : Prop :=
  ∃ content line v, file = .ok content ∧ (lines content).find? isNvrm = some line ∧
    Holds (cString line) v ∧ filenameMax ≤ v.text.length

theorem readVersionFromProc_of_reads (h : Reads file version r) (s : σ) :
    Returns (readVersionFromProc loggerLevel file version) s r s := by
  cases h with
  | unopened => exact (logger_returns (by decide) s).bind (returns_pure version s)
  | noLine hline =>
      show Returns (readLines loggerLevel (lines _) version) s version s
      rw [readLines_eq, hline]
      exact returns_pure version s
  | noVersion hline hno =>
      show Returns (readLines loggerLevel (lines _) version) s version s
      rw [readLines_eq, hline]
      exact matchRegex_of_none hno s
  | version hline hv hfits =>
      show Returns (readLines loggerLevel (lines _) version) s _ s
      rw [readLines_eq, hline]
      simp only [matchRegex_of_holds hv, if_pos hfits]
      exact returns_pure _ s

theorem readVersionFromProc_of_tooLong (h : TooLong file) (s : σ) :
    Faults (readVersionFromProc loggerLevel file version) s .overflow := by
  obtain ⟨content, line, v, rfl, hline, hv, hlong⟩ := h
  show Faults (readLines loggerLevel (lines content) version) s .overflow
  rw [readLines_eq, hline]
  simp only [matchRegex_of_holds hv, if_neg (Nat.not_lt.mpr hlong)]
  exact faults_fail.mpr rfl

/-- One of the two happens. -/
theorem reads_or_tooLong (file : Except (List Char) (List Char)) (version : List Char) :
    (∃ r, Reads file version r) ∨ TooLong file := by
  cases file with
  | error error => exact Or.inl ⟨version, .unopened⟩
  | ok content =>
      cases hline : (lines content).find? isNvrm with
      | none => exact Or.inl ⟨version, .noLine hline⟩
      | some line =>
          by_cases hhas : HasVersion (cString line)
          · obtain ⟨v, hv⟩ := hhas.exists_holds
            by_cases hfits : v.text.length < filenameMax
            · exact Or.inl ⟨v.text, .version hline hv hfits⟩
            · exact Or.inr ⟨content, line, v, rfl, hline, hv, Nat.le_of_not_lt hfits⟩
          · exact Or.inl ⟨version, .noVersion hline hhas⟩

/-- **What is read.** The first line of the kernel module decides: it holds a version, which is
copied if it fits, or else the old version stays. A version that does not fit is written past the
end of the array, and nothing else goes wrong. -/
theorem readVersionFromProc_iff (loggerLevel : Option (List Char))
    (file : Except (List Char) (List Char)) (version : List Char) (s : σ) :
    (∀ r s', Returns (readVersionFromProc loggerLevel file version) s r s' ↔
      s' = s ∧ Reads file version r) ∧
    ∀ e, Faults (readVersionFromProc loggerLevel file version) s e ↔
      e = .overflow ∧ TooLong file := by
  apply outcome_iff
  · rintro r s' ⟨rfl, hr⟩
    exact readVersionFromProc_of_reads hr s'
  · rintro e ⟨rfl, hlong⟩
    exact readVersionFromProc_of_tooLong hlong s
  · rcases reads_or_tooLong file version with ⟨r, hr⟩ | hlong
    · exact Or.inl ⟨r, s, rfl, hr⟩
    · exact Or.inr ⟨.overflow, rfl, hlong⟩

/-! ## Reading back -/

/-- A line is read up to the character that ends it. -/
theorem lines_append (hw : '\n' ∉ w) (l : List Char) :
    lines (w ++ '\n' :: l) = (w ++ ['\n']) :: lines l := by
  induction w with
  | nil => simp [lines]
  | cons c w ih =>
      rw [List.mem_cons, not_or] at hw
      rw [List.cons_append, lines, if_neg (Ne.symm hw.1), ih hw.2]
      rfl

theorem lines_flatten_append {before : List (List Char)} (hb : ∀ w ∈ before, '\n' ∉ w)
    (l : List Char) :
    lines ((before.map (· ++ ['\n'])).flatten ++ l) = before.map (· ++ ['\n']) ++ lines l := by
  induction before with
  | nil => rfl
  | cons w before ih =>
      obtain ⟨hw, hb⟩ := List.forall_mem_cons.mp hb
      rw [List.map_cons, List.flatten_cons, List.append_assoc, List.append_assoc,
        List.singleton_append, lines_append hw, ih hb, List.cons_append]

/-- Characters that are no digits and come before everything else matter as little. -/
theorem Before.cons (hb : Before pre) (hc : c.isDigit = false) : Before (c :: pre) := by
  refine ⟨?_, ?_, ?_⟩
  · intro l x y r heq hx
    cases l with
    | nil =>
        obtain ⟨rfl, _⟩ := List.cons.inj heq
        rw [hc] at hx
        cases hx
    | cons z l => exact hb.inside l x y r (List.cons.inj heq).2 hx
  · intro l x heq
    cases l with
    | nil =>
        obtain ⟨rfl, _⟩ := List.cons.inj heq
        exact hc
    | cons z l => exact hb.dot l x (List.cons.inj heq).2
  · intro l x heq
    cases l with
    | nil =>
        obtain ⟨rfl, _⟩ := List.cons.inj heq
        exact hc
    | cons z l => exact hb.last l x (List.cons.inj heq).2

/-- The file the kernel module writes: some lines, and the one with the version. -/
def fileText (before : List (List Char)) (pre : List Char) (v : Version) (post rest : List Char) :
    List Char :=
  (before.map (· ++ ['\n'])).flatten ++
    (['N', 'V', 'R', 'M'] ++ pre ++ v.text ++ post ++ '\n' :: rest)

/-- **The version is read back**, wherever it stands in its line. -/
theorem readVersionFromProc_fileText {before : List (List Char)} {rest : List Char}
    (hbefore : ∀ w ∈ before, '\n' ∉ w ∧ isNvrm (w ++ ['\n']) = false)
    (hpre : '\n' ∉ pre ∧ '\x00' ∉ pre) (hpost : '\n' ∉ post ∧ '\x00' ∉ post)
    (hb : Before pre) (ha : After (post ++ ['\n'])) (hfits : v.text.length < filenameMax) :
    Returns (readVersionFromProc loggerLevel (.ok (fileText before pre v post rest)) version) s
      v.text s := by
  have hplain : ∀ c ∈ v.text, c ≠ '\n' ∧ c ≠ '\x00' := by
    intro c hc
    constructor
    · rintro rfl
      rcases v.isDigit_or_dot hc with h | h
      · exact absurd h (by decide)
      · exact absurd h (by decide)
    · rintro rfl
      rcases v.isDigit_or_dot hc with h | h
      · exact absurd h (by decide)
      · exact absurd h (by decide)
  let line := ['N', 'V', 'R', 'M'] ++ pre ++ v.text ++ post ++ ['\n']
  have hnewline : '\n' ∉ ['N', 'V', 'R', 'M'] ++ pre ++ v.text ++ post := by
    simp only [List.mem_append, not_or]
    exact ⟨⟨⟨by decide, hpre.1⟩, fun hc => (hplain _ hc).1 rfl⟩, hpost.1⟩
  have hnul : '\x00' ∉ line := by
    simp only [line, List.mem_append, not_or]
    exact ⟨⟨⟨⟨by decide, hpre.2⟩, fun hc => (hplain _ hc).2 rfl⟩, hpost.2⟩, by decide⟩
  have hstring : cString line = line := by
    apply List.takeWhile_eq_self_iff.mpr
    intro c hc
    have hne : c ≠ '\x00' := fun h => hnul (h ▸ hc)
    simpa using hne
  have hnvrm : isNvrm line = true := by
    unfold isNvrm
    rw [hstring]
    simp [line, List.isPrefixOf]
  -- the lines before it are passed over
  have hfind : (lines (fileText before pre v post rest)).find? isNvrm = some line := by
    unfold fileText
    rw [lines_flatten_append fun w hw => (hbefore w hw).1, lines_append hnewline, List.find?_append,
      List.find?_eq_none.mpr, List.find?_cons_of_pos hnvrm, Option.none_or]
    intro u hu
    obtain ⟨w, hw, rfl⟩ := List.mem_map.mp hu
    simp [(hbefore w hw).2]
  have hholds : Holds (cString line) v := by
    rw [hstring]
    refine ⟨['N', 'V', 'R', 'M'] ++ pre, post ++ ['\n'], by simp [line], ?_, ha⟩
    have hletters : ∀ c ∈ ['N', 'V', 'R', 'M'], c.isDigit = false := by simp
    exact (((hb.cons (hletters 'M' (by decide))).cons (hletters 'R' (by decide))).cons
      (hletters 'V' (by decide))).cons (hletters 'N' (by decide))
  exact readVersionFromProc_of_reads (.version hfind hholds hfits) s

/-- Nothing looks like a version where there is no digit. -/
theorem before_of_no_digit (h : ∀ c ∈ pre, c.isDigit = false) : Before pre := by
  refine ⟨?_, ?_, ?_⟩
  · rintro l c c' r rfl _
    exact h c' (by simp)
  · rintro l c rfl
    exact h c (by simp)
  · rintro l c rfl
    exact h c (by simp)

/-- Where a line ends, so does the version. -/
theorem after_of_cons (hdigit : c.isDigit = false) (hdot : c ≠ '.') : After (c :: post) := by
  refine ⟨?_, ?_⟩
  · rintro c' r heq
    cases heq
    exact hdigit
  · rintro c' r heq
    cases heq
    exact absurd rfl hdot

/-- A version of a driver. -/
def exampleVersion : Version where
  major := ⟨['4', '4', '0'], by simp⟩
  minors := [⟨['3', '3'], by simp⟩, ⟨['0', '1'], by simp⟩]
  minors_ne_nil := by decide

theorem readVersionFromProc_example :
    Returns (readVersionFromProc none
      (.ok (fileText [['x']] " version: ".toList exampleVersion " Tue".toList "GCC".toList)) [])
      () exampleVersion.text () :=
  readVersionFromProc_fileText (by decide) (by decide) (by decide)
    (before_of_no_digit (by simp)) (after_of_cons (by decide) (by decide)) (by decide)

end Vcuda.Loader
