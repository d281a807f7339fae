import Mathlib.Data.List.Basic

/-!
# Lists in a log

The entries of a log have keys, and each links to the next one under its own key: the entries under
a key are a list, from the first one on. `nextFrom` is where such a link leads, so a head or a link
needs no storage of its own to be described.

When an entry is appended, a link changes only if it was the end of the list that the new entry
goes to (`nextFrom_append`), and there is one such end (`eq_of_nextFrom_eq_none`).
-/

namespace Vcuda.LogChains

variable {κ : Type} [DecidableEq κ]

/-- The first entry under `k` from the position `i` on. -/
def nextFrom (ks : List κ) (k : κ) (i : Nat) : Option Nat :=
  ((ks.drop i).findIdx? (· = k)).map (i + ·)

variable {ks : List κ} {k k' : κ} {i j : Nat}

theorem nextFrom_eq_some : nextFrom ks k i = some j ↔
    i ≤ j ∧ ks[j]? = some k ∧ ∀ m, i ≤ m → m < j → ks[m]? ≠ some k := by
  unfold nextFrom
  rw [Option.map_eq_some_iff]
  constructor
  · rintro ⟨n, hn, rfl⟩
    obtain ⟨hlt, hk, hbefore⟩ := List.findIdx?_eq_some_iff_getElem.mp hn
    refine ⟨Nat.le_add_right i n, ?_, ?_⟩
    · rw [← List.getElem?_drop, List.getElem?_eq_getElem hlt, of_decide_eq_true hk]
    · intro m him hm hkey
      obtain ⟨m, rfl⟩ := Nat.exists_eq_add_of_le him
      have hmn : m < n := by omega
      rw [← List.getElem?_drop, List.getElem?_eq_getElem (Nat.lt_trans hmn hlt),
        Option.some.injEq] at hkey
      exact hbefore m hmn (decide_eq_true hkey)
  · rintro ⟨hij, hk, hbefore⟩
    obtain ⟨n, rfl⟩ := Nat.exists_eq_add_of_le hij
    rw [← List.getElem?_drop, List.getElem?_eq_some_iff] at hk
    obtain ⟨hlt, hk⟩ := hk
    refine ⟨n, List.findIdx?_eq_some_iff_getElem.mpr ⟨hlt, decide_eq_true hk, ?_⟩, rfl⟩
    intro m hm hkey
    apply hbefore (i + m) (Nat.le_add_right i m) (by omega)
    rw [← List.getElem?_drop, List.getElem?_eq_getElem (Nat.lt_trans hm hlt),
      of_decide_eq_true hkey]

theorem nextFrom_eq_none : nextFrom ks k i = none ↔ ∀ m, i ≤ m → ks[m]? ≠ some k := by
  constructor
  · intro h m him hk
    unfold nextFrom at h
    rw [Option.map_eq_none_iff, List.findIdx?_eq_none_iff] at h
    obtain ⟨n, rfl⟩ := Nat.exists_eq_add_of_le him
    rw [← List.getElem?_drop] at hk
    have hne := h k (List.mem_of_getElem? hk)
    simp at hne
  · intro h
    cases hn : nextFrom ks k i with
    | none => rfl
    | some j =>
        obtain ⟨hij, hk, _⟩ := nextFrom_eq_some.mp hn
        exact absurd hk (h j hij)

/-- Where the head of a list is, if it is not empty. -/
theorem nextFrom_zero_ne_none : nextFrom ks k 0 ≠ none ↔ k ∈ ks := by
  rw [Ne, nextFrom_eq_none]
  constructor
  · intro h
    by_contra hk
    exact h fun m _ hm => hk (List.mem_of_getElem? hm)
  · intro hk h
    obtain ⟨m, hm⟩ := List.mem_iff_getElem?.mp hk
    exact h m (Nat.zero_le m) hm

/-- **Appending** changes the links that lead nowhere, of the key that is appended. -/
theorem nextFrom_append (hi : i ≤ ks.length) : nextFrom (ks ++ [k']) k i =
    (nextFrom ks k i).or (if k' = k then some ks.length else none) := by
  unfold nextFrom
  rw [List.drop_append_of_le_length hi, List.findIdx?_append, List.findIdx?_singleton,
    List.length_drop]
  cases h : (ks.drop i).findIdx? (· = k) with
  | some n => rfl
  | none =>
      by_cases hk : k' = k
      · simp only [hk, decide_true, if_true, Option.map_some, Option.none_or, Option.map_none]
        exact congrArg some (by omega)
      · simp [hk]

/-- **A list has one end.** -/
theorem eq_of_nextFrom_eq_none (hi : ks[i]? = some k) (hj : ks[j]? = some k)
    (hendi : nextFrom ks k (i + 1) = none) (hendj : nextFrom ks k (j + 1) = none) : i = j := by
  have hle : ∀ {i j}, ks[i]? = some k → nextFrom ks k (j + 1) = none → i ≤ j := by
    intro i j hi hend
    by_contra hij
    exact nextFrom_eq_none.mp hend i (by omega) hi
  exact Nat.le_antisymm (hle hi hendj) (hle hj hendi)

end Vcuda.LogChains
