import Mathlib.Computability.RegularExpressions

/-!
# Searching for a pattern

Patterns are the regular expressions of Mathlib; a choice of characters (`anyOf`) and one or more
repetitions (`oneOrMore`) are what else the patterns of POSIX are written with. `search` finds the
first match in a text, as `regexec` does: of all matches those that begin first, and of these the
longest (`First`). It reports where that begins and ends (`search_eq_some_iff`), so a client that
can tell which match is the first one needs to know nothing else of it (`First.search`).
-/

namespace Vcuda

open RegularExpression

variable {α : Type}

/-! ## Patterns -/

/-- One of the characters. -/
def anyOf (cs : List α) : RegularExpression α := cs.foldr (fun c P => char c + P) 0

/-- One match or several, one after the other. -/
def oneOrMore (P : RegularExpression α) : RegularExpression α := P * P.star

variable {P Q : RegularExpression α} {cs w l pre pre' m m' post post' : List α} {c : α}
  {n k so eo : Nat}

theorem mem_anyOf : w ∈ (anyOf cs).matches' ↔ ∃ c ∈ cs, w = [c] := by
  induction cs with
  | nil => simp [anyOf, Language.notMem_zero]
  | cons c cs ih =>
      have hhead : w ∈ (char c).matches' ↔ w = [c] := Iff.rfl
      show w ∈ (char c + anyOf cs).matches' ↔ _
      rw [matches'_add, Language.mem_add, ih, hhead]
      simp

theorem mem_oneOrMore :
    w ∈ (oneOrMore P).matches' ↔ ∃ ws, ws ≠ [] ∧ w = ws.flatten ∧ ∀ v ∈ ws, v ∈ P.matches' := by
  rw [oneOrMore, matches'_mul, Language.mem_mul]
  constructor
  · rintro ⟨v, hv, u, hu, rfl⟩
    obtain ⟨ws, rfl, hws⟩ := Language.mem_kstar.mp hu
    exact ⟨v :: ws, List.cons_ne_nil v ws, rfl, List.forall_mem_cons.mpr ⟨hv, hws⟩⟩
  · rintro ⟨ws, hne, rfl, hws⟩
    obtain ⟨v, ws, rfl⟩ := List.exists_cons_of_ne_nil hne
    obtain ⟨hv, hws⟩ := List.forall_mem_cons.mp hws
    exact ⟨v, hv, ws.flatten, Language.mem_kstar.mpr ⟨ws, rfl, hws⟩, rfl⟩

/-- A run of characters from a set. -/
theorem mem_oneOrMore_anyOf :
    w ∈ (oneOrMore (anyOf cs)).matches' ↔ w ≠ [] ∧ ∀ c ∈ w, c ∈ cs := by
  rw [mem_oneOrMore]
  constructor
  · rintro ⟨ws, hne, rfl, hws⟩
    have hsingle : ∀ v ∈ ws, ∃ c ∈ cs, v = [c] := fun v hv => mem_anyOf.mp (hws v hv)
    constructor
    · intro hnil
      obtain ⟨v, hv⟩ := List.exists_mem_of_ne_nil ws hne
      obtain ⟨c, _, rfl⟩ := hsingle v hv
      exact List.cons_ne_nil c [] (List.flatten_eq_nil_iff.mp hnil _ hv)
    · intro c hc
      obtain ⟨v, hv, hcv⟩ := List.mem_flatten.mp hc
      obtain ⟨c', hc', rfl⟩ := hsingle v hv
      rw [List.mem_singleton.mp hcv]
      exact hc'
  · rintro ⟨hne, hw⟩
    refine ⟨w.map fun c => [c], by simpa using hne, ?_, ?_⟩
    · rw [← List.flatMap_def, List.flatMap_singleton']
    · intro v hv
      obtain ⟨c, hc, rfl⟩ := List.mem_map.mp hv
      exact mem_anyOf.mpr ⟨c, hw c hc, rfl⟩

/-! ## Matches in a text -/

/-- The match `m` is the first one in the text `pre ++ m ++ post`. -/
structure First (P : RegularExpression α) (pre m post : List α) : Prop where
  mem : m ∈ P.matches'
  leftmost : ∀ pre' m' post', pre' ++ m' ++ post' = pre ++ m ++ post → m' ∈ P.matches' →
    pre.length ≤ pre'.length
  longest : ∀ m' post', m' ++ post' = m ++ post → m' ∈ P.matches' → m'.length ≤ m.length

/-- Prefixes of `m ++ post` are taken from it. -/
theorem first_nil_iff : First P [] m post ↔
    m ∈ P.matches' ∧ ∀ m' post', m' ++ post' = m ++ post → m' ∈ P.matches' →
      m'.length ≤ m.length := by
  constructor
  · intro h
    exact ⟨h.mem, h.longest⟩
  · intro ⟨hmem, hlongest⟩
    exact ⟨hmem, fun _ _ _ _ _ => Nat.zero_le _, hlongest⟩

/-- A text has one first match. -/
theorem First.unique (h : First P pre m post) (h' : First P pre' m' post')
    (heq : pre ++ m ++ post = pre' ++ m' ++ post') : pre = pre' ∧ m = m' := by
  have hpre : pre.length = pre'.length :=
    Nat.le_antisymm (h.leftmost pre' m' post' heq.symm h'.mem) (h'.leftmost pre m post heq h.mem)
  rw [List.append_assoc, List.append_assoc] at heq
  obtain ⟨rfl, hrest⟩ := List.append_inj heq hpre
  have hm : m.length = m'.length :=
    Nat.le_antisymm (h'.longest m post hrest h.mem) (h.longest m' post' hrest.symm h'.mem)
  exact ⟨rfl, (List.append_inj hrest hm).1⟩

/-- Without a match at its front, a text has the matches that begin further on. -/
theorem first_cons_iff (hnone : ∀ m post, c :: l = m ++ post → m ∉ P.matches') :
    c :: l = pre ++ m ++ post ∧ First P pre m post ↔
      ∃ pre', pre = c :: pre' ∧ l = pre' ++ m ++ post ∧ First P pre' m post := by
  cases pre with
  | nil =>
      refine iff_of_false ?_ (by simp)
      intro ⟨heq, hfirst⟩
      exact hnone m post heq hfirst.mem
  | cons d pre =>
      simp only [List.cons_append, List.cons.injEq]
      constructor
      · rintro ⟨⟨rfl, rfl⟩, hfirst⟩
        refine ⟨pre, ⟨rfl, rfl⟩, rfl, hfirst.mem, ?_, hfirst.longest⟩
        intro pre' m' post' heq hmem
        have hle := hfirst.leftmost (c :: pre') m' post' (by simp [← heq]) hmem
        simpa using hle
      · rintro ⟨pre', ⟨rfl, rfl⟩, rfl, hfirst⟩
        refine ⟨⟨rfl, rfl⟩, hfirst.mem, ?_, hfirst.longest⟩
        intro pre' m' post' heq hmem
        cases pre' with
        | nil => exact absurd hmem (hnone m' post' (by simpa using heq.symm))
        | cons e pre' =>
            have heq' := (List.cons.inj heq).2
            have hle := hfirst.leftmost pre' m' post' heq' hmem
            simpa using hle

/-! ## The search -/

variable [DecidableEq α]

/-- The length of the longest match at the front of `l`, of those that are not longer than `n`. -/
def longestPrefix (P : RegularExpression α) (l : List α) : Nat → Option Nat
  | 0 => if P.rmatch [] then some 0 else none
  | n + 1 => if P.rmatch (l.take (n + 1)) then some (n + 1) else longestPrefix P l n

/-- Where the first match begins and where it ends. -/
def search (P : RegularExpression α) : List α → Option (Nat × Nat)
  | [] => (longestPrefix P [] 0).map fun n => (0, n)
  | c :: l =>
      match longestPrefix P (c :: l) (c :: l).length with
      | some n => some (0, n)
      | none => (search P l).map fun (so, eo) => (so + 1, eo + 1)

theorem longestPrefix_eq_none :
    longestPrefix P l n = none ↔ ∀ k, k ≤ n → l.take k ∉ P.matches' := by
  induction n with
  | zero =>
      rw [longestPrefix]
      by_cases h : P.rmatch [] = true
      · simp [h, ← rmatch_iff_matches']
      · simp [h, ← rmatch_iff_matches']
  | succ n ih =>
      rw [longestPrefix]
      by_cases h : P.rmatch (l.take (n + 1)) = true
      · rw [if_pos h]
        refine iff_of_false (Option.some_ne_none _) fun hall => ?_
        exact hall (n + 1) (Nat.le_refl _) ((rmatch_iff_matches' _ _).mp h)
      · rw [if_neg h, ih]
        constructor
        · intro hall k hk
          rcases Nat.lt_or_eq_of_le hk with hk | rfl
          · exact hall k (Nat.lt_succ_iff.mp hk)
          · rwa [← rmatch_iff_matches']
        · intro hall k hk
          exact hall k (Nat.le_succ_of_le hk)

theorem longestPrefix_eq_some :
    longestPrefix P l n = some k ↔
      k ≤ n ∧ l.take k ∈ P.matches' ∧ ∀ j, k < j → j ≤ n → l.take j ∉ P.matches' := by
  induction n with
  | zero =>
      rw [longestPrefix]
      constructor
      · intro h
        split at h
        · next hmatch =>
          cases h
          exact ⟨Nat.le_refl 0, (rmatch_iff_matches' _ _).mp hmatch, fun j _ _ => by omega⟩
        · cases h
      · rintro ⟨hk, hmem, _⟩
        obtain rfl := Nat.le_zero.mp hk
        exact if_pos ((rmatch_iff_matches' _ _).mpr hmem)
  | succ n ih =>
      rw [longestPrefix]
      by_cases h : P.rmatch (l.take (n + 1)) = true
      · have hmem := (rmatch_iff_matches' _ _).mp h
        rw [if_pos h, Option.some.injEq]
        constructor
        · rintro rfl
          exact ⟨Nat.le_refl _, hmem, fun j _ _ => by omega⟩
        · rintro ⟨hk, _, hmax⟩
          by_contra hne
          exact hmax (n + 1) (by omega) (Nat.le_refl _) hmem
      · have hnot : l.take (n + 1) ∉ P.matches' := by rwa [← rmatch_iff_matches']
        rw [if_neg h, ih]
        constructor
        · rintro ⟨hk, hmem, hmax⟩
          refine ⟨Nat.le_succ_of_le hk, hmem, ?_⟩
          intro j hkj hj
          rcases Nat.lt_or_eq_of_le hj with hj | rfl
          · exact hmax j hkj (Nat.lt_succ_iff.mp hj)
          · exact hnot
        · rintro ⟨hk, hmem, hmax⟩
          refine ⟨?_, hmem, fun j hkj hj => hmax j hkj (Nat.le_succ_of_le hj)⟩
          rcases Nat.lt_or_eq_of_le hk with hk | rfl
          · exact Nat.lt_succ_iff.mp hk
          · exact absurd hmem hnot

/-- A match at the front is the first one, if it is the longest there. -/
theorem longestPrefix_length : longestPrefix P l l.length = some n ↔
    ∃ m post, l = m ++ post ∧ n = m.length ∧ First P [] m post := by
  rw [longestPrefix_eq_some]
  constructor
  · rintro ⟨hn, hmem, hmax⟩
    refine ⟨l.take n, l.drop n, (List.take_append_drop n l).symm, ?_, first_nil_iff.mpr ⟨hmem, ?_⟩⟩
    · rw [List.length_take, Nat.min_eq_left hn]
    · intro m' post' heq hmem'
      rw [List.take_append_drop] at heq
      rw [List.length_take, Nat.min_eq_left hn]
      by_contra hlt
      have hlen : m'.length ≤ l.length := by
        rw [← heq, List.length_append]
        omega
      refine hmax m'.length (by omega) hlen ?_
      rwa [← heq, List.take_left]
  · rintro ⟨m, post, rfl, rfl, hfirst⟩
    refine ⟨by simp, by simpa using hfirst.mem, ?_⟩
    intro j hmj hj hmem
    have hle := hfirst.longest _ _ (List.take_append_drop j (m ++ post)) hmem
    rw [List.length_take, Nat.min_eq_left hj] at hle
    omega

theorem longestPrefix_length_eq_none : longestPrefix P l l.length = none ↔
    ∀ m post, l = m ++ post → m ∉ P.matches' := by
  rw [longestPrefix_eq_none]
  constructor
  · rintro hall m post rfl hmem
    exact hall m.length (by simp) (by simpa using hmem)
  · intro hall k _
    exact hall _ _ (List.take_append_drop k l).symm

/-- A longest match at the front is what the search reports. -/
theorem front_eq_some_iff (h : longestPrefix P l l.length = some n) : some (0, n) = some (so, eo) ↔
    ∃ pre m post, (l = pre ++ m ++ post ∧ First P pre m post) ∧
      so = pre.length ∧ eo = so + m.length := by
  obtain ⟨m, post, rfl, rfl, hfirst⟩ := longestPrefix_length.mp h
  rw [Option.some.injEq, Prod.mk.injEq]
  constructor
  · rintro ⟨rfl, rfl⟩
    exact ⟨[], m, post, ⟨rfl, hfirst⟩, rfl, by simp⟩
  · rintro ⟨pre', m', post', ⟨heq, hfirst'⟩, rfl, rfl⟩
    obtain ⟨rfl, rfl⟩ := hfirst.unique hfirst' heq
    exact ⟨rfl, by simp⟩

/-- **`search` finds the first match.** -/
theorem search_eq_some_iff : search P l = some (so, eo) ↔
    ∃ pre m post, (l = pre ++ m ++ post ∧ First P pre m post) ∧
      so = pre.length ∧ eo = so + m.length := by
  induction l generalizing so eo with
  | nil =>
      rw [search]
      cases hfront : longestPrefix P [] 0 with
      | some n => exact front_eq_some_iff (l := []) hfront
      | none =>
          have hnone := longestPrefix_length_eq_none (l := []).mp hfront
          refine iff_of_false (by simp) ?_
          rintro ⟨pre, m, post, ⟨heq, hfirst⟩, _⟩
          obtain ⟨rfl, rfl, rfl⟩ : pre = [] ∧ m = [] ∧ post = [] := by simpa using heq.symm
          exact hnone [] [] rfl hfirst.mem
  | cons c l ih =>
      rw [search]
      cases hfront : longestPrefix P (c :: l) (c :: l).length with
      | some n => exact front_eq_some_iff hfront
      | none =>
          have hnone := longestPrefix_length_eq_none.mp hfront
          simp only [first_cons_iff hnone]
          constructor
          · intro h
            obtain ⟨⟨so', eo'⟩, hrest, heq⟩ := Option.map_eq_some_iff.mp h
            obtain ⟨pre, m, post, hfirst, rfl, rfl⟩ := ih.mp hrest
            cases heq
            exact ⟨c :: pre, m, post, ⟨pre, rfl, hfirst⟩, rfl, by simp; omega⟩
          · rintro ⟨_, m, post, ⟨pre, rfl, hfirst⟩, rfl, rfl⟩
            have hrest := ih.mpr ⟨pre, m, post, hfirst, rfl, rfl⟩
            rw [hrest, Option.map_some, List.length_cons]
            congr 2
            omega

/-- A client that knows the first match knows what the search reports. -/
theorem First.search (h : First P pre m post) :
    search P (pre ++ m ++ post) = some (pre.length, pre.length + m.length) :=
  search_eq_some_iff.mpr ⟨pre, m, post, ⟨rfl, h⟩, rfl, rfl⟩

/-- **It reports nothing only when there is no match at all.** -/
theorem search_eq_none_iff :
    search P l = none ↔ ∀ pre m post, l = pre ++ m ++ post → m ∉ P.matches' := by
  induction l with
  | nil =>
      rw [search, Option.map_eq_none_iff]
      refine (longestPrefix_length_eq_none (l := [])).trans ?_
      constructor
      · intro hall pre m post heq
        obtain ⟨rfl, rfl, rfl⟩ : pre = [] ∧ m = [] ∧ post = [] := by simpa using heq.symm
        exact hall [] [] rfl
      · intro hall m post heq
        exact hall [] m post heq
  | cons c l ih =>
      rw [search]
      cases hfront : longestPrefix P (c :: l) (c :: l).length with
      | some n =>
          obtain ⟨m, post, heq, _, hfirst⟩ := longestPrefix_length.mp hfront
          exact iff_of_false (by simp) fun hall => hall [] m post heq hfirst.mem
      | none =>
          have hnone := longestPrefix_length_eq_none.mp hfront
          rw [Option.map_eq_none_iff, ih]
          constructor
          · intro hall pre m post heq
            cases pre with
            | nil => exact hnone m post heq
            | cons d pre => exact hall pre m post (List.cons.inj heq).2
          · rintro hall pre m post rfl
            exact hall (c :: pre) m post rfl

end Vcuda
