import Mathlib.Data.List.TakeWhile
import Mathlib.Logic.Function.Iterate
import Mathlib.Algebra.Order.Ring.Nat

/-!
# Reading words and numbers

What a C program uses to get a number out of a line of text. `words` are the maximal runs of a text
without separators. `extract` is `stream >> str`, which leaves `str` alone when there is no word
left; extracted again and again, `str` is one word after the other (`extract_iterate`). `strtol` and
`strtoul` are those of the C library for base 10, and read back what was printed in decimal.
-/

namespace Vcuda

/-! ## Words -/

section Words

variable {α : Type} {space : α → Bool} {l l' stream str w : List α} {c : α} {ws : List (List α)}

/-- The maximal runs without separators. -/
def words (space : α → Bool) (l : List α) : List (List α) :=
  (l.splitOnP space).filter fun w => !w.isEmpty

/-- `stream >> str`: what remains of the stream, and the string. -/
def extract (space : α → Bool) (x : List α × List α) : List α × List α :=
  match x.1.dropWhile space with
  -- the extraction fails before the string is cleared
  | [] => ([], x.2)
  | c :: rest =>
      ((c :: rest).dropWhile fun c => !space c, (c :: rest).takeWhile fun c => !space c)

@[simp] theorem words_nil : words space [] = [] := by simp [words]

/-- A separator divides the words. -/
theorem words_append_cons (hc : space c = true) :
    words space (l ++ c :: l') = words space l ++ words space l' := by
  unfold words
  rw [List.splitOnP_append_cons l l' hc, List.filter_append]

theorem words_cons (hc : space c = true) : words space (c :: l) = words space l := by
  have h : words space ([] ++ c :: l) = words space [] ++ words space l := words_append_cons hc
  simpa using h

/-- A run without separators is one word. -/
theorem words_of_word (hw : w ≠ []) (hspace : ∀ c ∈ w, space c = false) :
    words space w = [w] := by
  unfold words
  rw [List.splitOnP_eq_singleton hspace]
  simp [hw]

theorem words_dropWhile : words space (l.dropWhile space) = words space l := by
  induction l with
  | nil => simp
  | cons c l ih =>
      rw [List.dropWhile_cons]
      split
      · next hc =>
        rw [ih, words_cons hc]
      · simp

/-- A list of words stops at a separator or at the end. -/
theorem dropWhile_not_cases (space : α → Bool) (l : List α) :
    (l.dropWhile fun c => !space c) = [] ∨
      ∃ c rest, space c = true ∧ (l.dropWhile fun c => !space c) = c :: rest := by
  have hhead := List.head?_dropWhile_not (fun c => !space c) l
  cases hd : l.dropWhile fun c => !space c with
  | nil => exact Or.inl rfl
  | cons c rest =>
      rw [hd] at hhead
      have hc : space c = true := by simpa using hhead
      exact Or.inr ⟨c, rest, hc, rfl⟩

/-- What comes first is the run up to the next separator. -/
theorem words_cons_of_not_space (hc : space c = false) :
    words space (c :: l) =
      ((c :: l).takeWhile fun c => !space c) ::
        words space ((c :: l).dropWhile fun c => !space c) := by
  have hw : ((c :: l).takeWhile fun c => !space c) ≠ [] := by simp [hc]
  have hspace : ∀ a ∈ (c :: l).takeWhile fun c => !space c, space a = false := by
    intro a ha
    simpa using List.mem_takeWhile_imp ha
  have hsplit := List.takeWhile_append_dropWhile (p := fun c => !space c) (l := c :: l)
  rcases dropWhile_not_cases space (c :: l) with hnil | ⟨a, rest, ha, hcons⟩
  · -- the run goes on to the end
    rw [hnil, words_nil]
    rw [hnil, List.append_nil] at hsplit
    rw [hsplit] at hw hspace ⊢
    exact words_of_word hw hspace
  · rw [hcons, words_cons ha]
    rw [hcons] at hsplit
    calc words space (c :: l)
        = words space (((c :: l).takeWhile fun c => !space c) ++ a :: rest) := by rw [hsplit]
      _ = _ := by rw [words_append_cons ha, words_of_word hw hspace, List.singleton_append]

/-- A text of separators has no words, and only such a text. -/
theorem words_eq_nil_iff : words space l = [] ↔ ∀ c ∈ l, space c = true := by
  induction l with
  | nil => simp
  | cons c l ih =>
      cases hc : space c with
      | true =>
          rw [words_cons hc, ih]
          simp [hc]
      | false =>
          rw [words_cons_of_not_space hc]
          simp [hc]

/-- A text with something but separators has a word. -/
theorem length_words_pos (hc : c ∈ l) (hspace : space c = false) :
    0 < (words space l).length := by
  apply List.length_pos_iff.mpr
  intro hnil
  have hall := words_eq_nil_iff.mp hnil c hc
  rw [hspace] at hall
  cases hall

/-! ### Extraction -/

/-- **Extraction takes the first word.** -/
theorem extract_cons (str : List α) (h : words space stream = w :: ws) :
    ∃ rest, extract space (stream, str) = (rest, w) ∧ words space rest = ws := by
  rw [← words_dropWhile] at h
  unfold extract
  have hhead := List.head?_dropWhile_not space stream
  cases hd : stream.dropWhile space with
  | nil =>
      rw [hd] at h
      simp at h
  | cons c l =>
      rw [hd] at h hhead
      have hc : space c = false := hhead
      rw [words_cons_of_not_space hc] at h
      obtain ⟨hw, hws⟩ := List.cons.inj h
      refine ⟨_, ?_, hws⟩
      simp only [hw]

/-- **Extracting again and again gives one word after the other.** -/
theorem extract_iterate {n : Nat} (h : (words space stream)[n]? = some w) :
    ((extract space)^[n + 1] (stream, str)).2 = w := by
  induction n generalizing stream str with
  | zero =>
      cases hws : words space stream with
      | nil =>
          rw [hws] at h
          cases h
      | cons a ws =>
          rw [hws] at h
          obtain rfl := Option.some.inj h
          obtain ⟨rest, hex, _⟩ := extract_cons str hws
          exact congrArg Prod.snd hex
  | succ n ih =>
      cases hws : words space stream with
      | nil =>
          rw [hws] at h
          cases h
      | cons a ws =>
          rw [hws] at h
          obtain ⟨rest, hex, hrest⟩ := extract_cons str hws
          rw [Function.iterate_succ_apply, hex]
          apply ih
          rw [hrest]
          exact h

end Words

/-! ## Numbers -/

/-- White space in the C locale. -/
def isspace (c : Char) : Bool := c.toNat = 32 || (9 ≤ c.toNat && c.toNat ≤ 13)

/-- A sign, if there is one, and what follows it: whether it is a minus. -/
def signed (str : List Char) : Bool × List Char :=
  if str.head? = some '-' then (true, str.tail)
  else if str.head? = some '+' then (false, str.tail)
  else (false, str)

/-- The number that the digits at the front make. -/
def magnitude (str : List Char) : Nat := Nat.ofDigitChars 10 (str.takeWhile Char.isDigit) 0

/-- `strtol(str, NULL, 10)`, which stops at `LONG_MIN` and `LONG_MAX`. -/
def strtol (str : List Char) : Int :=
  let (minus, digits) := signed (str.dropWhile isspace)
  let value : Int := if minus then -magnitude digits else magnitude digits
  max (-2 ^ 63) (min value (2 ^ 63 - 1))

/-- `atol` -/
def atol (str : List Char) : Int := strtol str

/-- `strtoul(str, NULL, 10)`: `ULONG_MAX` for what is too large, and a minus negates in 64 bits. -/
def strtoul (str : List Char) : UInt64 :=
  let (minus, digits) := signed (str.dropWhile isspace)
  if 2 ^ 64 ≤ magnitude digits then UInt64.ofNat (2 ^ 64 - 1)
  else if minus then -UInt64.ofNat (magnitude digits)
  else UInt64.ofNat (magnitude digits)

/-- What `printf` makes of a number. -/
def decimal (n : Nat) : List Char := Nat.toDigits 10 n

variable {c : Char} {n : Nat}

theorem isDigit_of_mem_decimal (hc : c ∈ decimal n) : c.isDigit = true :=
  Nat.isDigit_of_mem_toDigits (by decide) (by decide) hc

theorem decimal_ne_nil : decimal n ≠ [] := Nat.toDigits_ne_nil

theorem toNat_of_isDigit (hc : c.isDigit = true) : 48 ≤ c.toNat ∧ c.toNat ≤ 57 := by
  simp only [Char.isDigit, Bool.and_eq_true, decide_eq_true_eq, ge_iff_le] at hc
  exact ⟨hc.1, hc.2⟩

theorem not_isspace_of_isDigit (hc : c.isDigit = true) : isspace c = false := by
  have hlow := toNat_of_isDigit hc
  simp only [isspace, Bool.or_eq_false_iff, Bool.and_eq_false_iff, decide_eq_false_iff_not]
  omega

theorem not_isspace_of_mem_decimal (hc : c ∈ decimal n) : isspace c = false :=
  not_isspace_of_isDigit (isDigit_of_mem_decimal hc)

theorem magnitude_decimal : magnitude (decimal n) = n := by
  unfold magnitude
  rw [List.takeWhile_eq_self_iff.mpr fun c hc => isDigit_of_mem_decimal hc]
  exact Nat.ofDigitChars_ten_toDigits

/-- A printed number has no sign and nothing before it. -/
theorem signed_decimal : signed ((decimal n).dropWhile isspace) = (false, decimal n) := by
  obtain ⟨c, rest, hd⟩ := List.exists_cons_of_ne_nil (decimal_ne_nil (n := n))
  have hc : c.isDigit = true := isDigit_of_mem_decimal (n := n) (by simp [hd])
  have hskip : (decimal n).dropWhile isspace = decimal n := by
    rw [hd, List.dropWhile_cons_of_neg]
    simp [not_isspace_of_isDigit hc]
  have hminus : c ≠ '-' := by
    rintro rfl
    cases hc
  have hplus : c ≠ '+' := by
    rintro rfl
    cases hc
  rw [hskip]
  unfold signed
  simp [hd, hminus, hplus]

/-- **Numbers read back as they were printed.** -/
theorem atol_decimal (hn : n < 2 ^ 63) : atol (decimal n) = n := by
  unfold atol strtol
  rw [signed_decimal]
  simp only [magnitude_decimal, Bool.false_eq_true, if_false]
  omega

theorem strtoul_decimal (hn : n < 2 ^ 64) : strtoul (decimal n) = UInt64.ofNat n := by
  unfold strtoul
  rw [signed_decimal]
  simp only [magnitude_decimal, Bool.false_eq_true, if_false]
  rw [if_neg (by omega)]

end Vcuda
