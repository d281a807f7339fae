import Mathlib.Logic.Function.Basic
import Mathlib.Data.List.Basic
import Mathlib.Data.List.Rotate

/-!
# Open addressing

A table of slots, each never used, vacated (a tombstone) or full under a key, and for every key a
probe path through the slots. `lookup` walks the path until it meets the key or a never-used slot;
`place` picks the slot an insertion takes: the first one that is vacant or already full under the
key.

`Reachable` is the invariant behind every lookup: no never-used slot precedes a stored key on its
own path. `Unique` says that no key is stored twice. Inserting only what `lookup` does not find
keeps both (`Reachable.update_place`, `Unique.update_place`), and in such a table a stored key is
found where it is (`lookup_eq_some_of_full`). Nothing is assumed of the paths; `linearPath` is the
one of linear probing, which goes round the whole table once.
-/

namespace Vcuda.Probing

/-- A slot of the table. -/
inductive Slot (κ : Type) where
  | never
  | tomb
  | full (k : κ)
  deriving DecidableEq

variable {ι κ : Type} [DecidableEq κ]

/-- Walk the path to the first slot full under `k`, giving up at a never-used one. -/
def lookup (tbl : ι → Slot κ) (k : κ) : List ι → Option ι
  | [] => none
  | p :: ps =>
      match tbl p with
      | .never => none
      | .tomb => lookup tbl k ps
      | .full k' => if k' = k then some p else lookup tbl k ps

/-- The slot an insertion of `k` writes: the first on the path that is vacant or full under `k`. -/
def place (tbl : ι → Slot κ) (k : κ) : List ι → Option ι
  | [] => none
  | p :: ps =>
      match tbl p with
      | .never => some p
      | .tomb => some p
      | .full k' => if k' = k then some p else place tbl k ps

variable {tbl : ι → Slot κ} {k : κ} {ps : List ι} {p : ι}

/-! ## What the two walks return -/

theorem lookup_eq_some (h : lookup tbl k ps = some p) :
    p ∈ ps ∧ tbl p = .full k := by
  induction ps with
  | nil => cases h
  | cons q ps ih =>
      unfold lookup at h
      split at h
      · cases h
      · exact ⟨List.mem_cons_of_mem _ (ih h).1, (ih h).2⟩
      · next k' hq =>
        split at h
        · next hk =>
          cases h
          subst hk
          exact ⟨List.mem_cons_self, hq⟩
        · exact ⟨List.mem_cons_of_mem _ (ih h).1, (ih h).2⟩

/-- On the way to the slot it picks, an insertion passes only slots full under other keys. -/
theorem place_eq_some (h : place tbl k ps = some p) :
    ∃ pre post, ps = pre ++ p :: post ∧ (∀ q ∈ pre, ∃ k', k' ≠ k ∧ tbl q = .full k') ∧
      (tbl p = .never ∨ tbl p = .tomb ∨ tbl p = .full k) := by
  induction ps with
  | nil => cases h
  | cons q ps ih =>
      unfold place at h
      split at h
      · next hq =>
        cases h
        exact ⟨[], ps, rfl, nofun, Or.inl hq⟩
      · next hq =>
        cases h
        exact ⟨[], ps, rfl, nofun, Or.inr (Or.inl hq)⟩
      · next k' hq =>
        split at h
        · next hk =>
          cases h
          subst hk
          exact ⟨[], ps, rfl, nofun, Or.inr (Or.inr hq)⟩
        · next hk =>
          obtain ⟨pre, post, rfl, hpre, hp⟩ := ih h
          refine ⟨q :: pre, post, rfl, ?_, hp⟩
          intro r hr
          rcases List.mem_cons.mp hr with rfl | hr
          · exact ⟨k', hk, hq⟩
          · exact hpre r hr

theorem place_mem (h : place tbl k ps = some p) : p ∈ ps := by
  obtain ⟨pre, post, rfl, _⟩ := place_eq_some h
  exact List.mem_append_right _ List.mem_cons_self

/-- The slot an insertion picks is not in use under another key. -/
theorem not_full_of_place {k' : κ} (h : place tbl k ps = some p) (hk : k' ≠ k) :
    tbl p ≠ .full k' := by
  obtain ⟨_, _, _, _, hv⟩ := place_eq_some h
  rcases hv with hv | hv | hv <;> simp [hv, Ne.symm hk]

/-- Where the lookup found nothing, the insertion does not meet the key either. -/
theorem vacant_of_lookup_eq_none (h : lookup tbl k ps = none) (hp : place tbl k ps = some p) :
    tbl p = .never ∨ tbl p = .tomb := by
  induction ps with
  | nil => cases hp
  | cons q ps ih =>
      unfold place at hp
      unfold lookup at h
      split at hp
      · next hq => cases hp; exact Or.inl hq
      · next hq => cases hp; exact Or.inr hq
      · next k' hq =>
        rw [hq] at h
        dsimp only at h
        split at hp
        · next hk => rw [if_pos hk] at h; cases h
        · next hk => rw [if_neg hk] at h; exact ih h hp

/-- A lookup passes what is vacated or full under other keys, up to the first slot full under its
own. -/
theorem lookup_eq_some_iff :
    lookup tbl k ps = some p ↔
      ∃ pre post, ps = pre ++ p :: post ∧ (∀ q ∈ pre, tbl q ≠ .never ∧ tbl q ≠ .full k) ∧
        tbl p = .full k := by
  constructor
  · intro h
    induction ps with
    | nil => cases h
    | cons q ps ih =>
        unfold lookup at h
        split at h
        · cases h
        · next hq =>
          obtain ⟨pre, post, rfl, hpre, hp⟩ := ih h
          refine ⟨q :: pre, post, rfl, List.forall_mem_cons.mpr ⟨?_, hpre⟩, hp⟩
          simp [hq]
        · next k' hq =>
          split at h
          · next hk =>
            cases h
            exact ⟨[], ps, rfl, nofun, hk ▸ hq⟩
          · next hk =>
            obtain ⟨pre, post, rfl, hpre, hp⟩ := ih h
            refine ⟨q :: pre, post, rfl, List.forall_mem_cons.mpr ⟨?_, hpre⟩, hp⟩
            simp [hq, hk]
  · rintro ⟨pre, post, rfl, hpre, hp⟩
    induction pre with
    | nil => simp [lookup, hp]
    | cons q pre ih =>
        obtain ⟨hq, hpre⟩ := List.forall_mem_cons.mp hpre
        rw [List.cons_append, lookup]
        split
        · next hn => exact absurd hn hq.1
        · exact ih hpre
        · next k' hf =>
          have hk : k' ≠ k := by
            rintro rfl
            exact hq.2 hf
          rw [if_neg hk]
          exact ih hpre

/-- A vacant slot on the path is room enough. -/
theorem exists_place_of_vacant (hp : p ∈ ps) (hv : tbl p = .never ∨ tbl p = .tomb) :
    ∃ q, place tbl k ps = some q := by
  induction ps with
  | nil => cases hp
  | cons q ps ih =>
      unfold place
      split
      · exact ⟨q, rfl⟩
      · exact ⟨q, rfl⟩
      · next k' hq =>
        split
        · exact ⟨q, rfl⟩
        · apply ih
          rcases List.mem_cons.mp hp with rfl | hp
          · simp [hq] at hv
          · exact hp

/-- An insertion finds no slot exactly when all slots on its path are full under other keys. -/
theorem place_eq_none_iff :
    place tbl k ps = none ↔ ∀ q ∈ ps, ∃ k', k' ≠ k ∧ tbl q = .full k' := by
  constructor
  · intro h q hq
    induction ps with
    | nil => cases hq
    | cons r ps ih =>
        unfold place at h
        split at h
        · cases h
        · cases h
        · next k' hr =>
          split at h
          · cases h
          · next hk =>
            rcases List.mem_cons.mp hq with rfl | hq
            · exact ⟨k', hk, hr⟩
            · exact ih h hq
  · intro hall
    cases hp : place tbl k ps with
    | none => rfl
    | some p =>
        obtain ⟨k', hk, hfull⟩ := hall p (place_mem hp)
        obtain ⟨_, _, _, _, hv⟩ := place_eq_some hp
        simp [hfull, hk] at hv

/-! ## The invariants -/

/-- No never-used slot precedes a stored key on its own path. -/
def Reachable (path : κ → List ι) (tbl : ι → Slot κ) : Prop :=
  ∀ p k, tbl p = .full k → ∃ pre post, path k = pre ++ p :: post ∧ ∀ q ∈ pre, tbl q ≠ .never

/-- No key is stored in two slots. -/
def Unique (tbl : ι → Slot κ) : Prop := ∀ p q k, tbl p = .full k → tbl q = .full k → p = q

/-- The lookup gets past a prefix without never-used slots, unless it finds the key in it. -/
theorem lookup_append {pre post : List ι} (hpre : ∀ q ∈ pre, tbl q ≠ .never) :
    lookup tbl k (pre ++ post) = (lookup tbl k pre).or (lookup tbl k post) := by
  induction pre with
  | nil => rfl
  | cons q pre ih =>
      have ih := ih fun r hr => hpre r (List.mem_cons_of_mem _ hr)
      rw [List.cons_append, lookup, lookup]
      split
      · next hq => exact absurd hq (hpre q List.mem_cons_self)
      · exact ih
      · split
        · rfl
        · exact ih

variable {path : κ → List ι}

/-- **A stored key is found.** -/
theorem exists_lookup_of_full (h : Reachable path tbl) (hp : tbl p = .full k) :
    ∃ q, lookup tbl k (path k) = some q := by
  obtain ⟨pre, post, hpath, hpre⟩ := h p k hp
  rw [hpath, lookup_append hpre]
  cases hq : lookup tbl k pre with
  | some q => exact ⟨q, rfl⟩
  | none => exact ⟨p, by simp [lookup, hp]⟩

/-- **A key stored once is found where it is.** -/
theorem lookup_eq_some_of_full (h : Reachable path tbl) (hu : Unique tbl)
    (hp : tbl p = .full k) : lookup tbl k (path k) = some p := by
  obtain ⟨q, hq⟩ := exists_lookup_of_full h hp
  rw [hq, hu q p k (lookup_eq_some hq).2 hp]

/-- **A lookup misses nothing**: it succeeds exactly when some slot is full under the key. -/
theorem lookup_isSome_iff (h : Reachable path tbl) :
    (lookup tbl k (path k)).isSome ↔ ∃ q, tbl q = .full k := by
  rw [Option.isSome_iff_exists]
  constructor
  · rintro ⟨q, hq⟩
    exact ⟨q, (lookup_eq_some hq).2⟩
  · rintro ⟨q, hq⟩
    exact exists_lookup_of_full h hq

/-- In a reachable table a lookup fails only where the key is not stored. -/
theorem lookup_eq_none_iff (h : Reachable path tbl) :
    lookup tbl k (path k) = none ↔ ∀ q, tbl q ≠ .full k := by
  constructor
  · intro hnone q hq
    obtain ⟨q', hq'⟩ := exists_lookup_of_full h hq
    rw [hnone] at hq'
    cases hq'
  · intro hall
    cases hl : lookup tbl k (path k) with
    | none => rfl
    | some q => exact absurd (lookup_eq_some hl).2 (hall q)

variable [DecidableEq ι]

/-- Filling the slot `place` picked leaves no stored key behind a never-used slot: slots only stop
being never-used, and the new key lies behind full ones. -/
theorem Reachable.update_place (h : Reachable path tbl) (hp : place tbl k (path k) = some p) :
    Reachable path (Function.update tbl p (.full k)) := by
  intro q k' hq
  by_cases hqp : q = p
  · subst hqp
    rw [Function.update_self, Slot.full.injEq] at hq
    subst hq
    obtain ⟨pre, post, hpath, hpre, _⟩ := place_eq_some hp
    refine ⟨pre, post, hpath, ?_⟩
    intro r hr
    obtain ⟨k'', _, hr'⟩ := hpre r hr
    by_cases hrq : r = q
    · subst hrq; rw [Function.update_self]; simp
    · rw [Function.update_of_ne hrq, hr']; simp
  · rw [Function.update_of_ne hqp] at hq
    obtain ⟨pre, post, hpath, hpre⟩ := h q k' hq
    refine ⟨pre, post, hpath, ?_⟩
    intro r hr
    by_cases hrp : r = p
    · subst hrp; rw [Function.update_self]; simp
    · rw [Function.update_of_ne hrp]; exact hpre r hr

/-- Storing only what the lookup does not find stores no key twice. -/
theorem Unique.update_place (h : Unique tbl) (hr : Reachable path tbl)
    (hl : lookup tbl k (path k) = none) : Unique (Function.update tbl p (.full k)) := by
  have hk : ∀ q, tbl q ≠ .full k := by
    intro q hq
    obtain ⟨q', hq'⟩ := exists_lookup_of_full hr hq
    rw [hl] at hq'
    cases hq'
  intro q q' k' hq hq'
  by_cases hqp : q = p
  · by_cases hq'p : q' = p
    · rw [hqp, hq'p]
    · rw [hqp, Function.update_self, Slot.full.injEq] at hq
      rw [Function.update_of_ne hq'p, ← hq] at hq'
      exact absurd hq' (hk q')
  · rw [Function.update_of_ne hqp] at hq
    by_cases hq'p : q' = p
    · rw [hq'p, Function.update_self, Slot.full.injEq] at hq'
      rw [← hq'] at hq
      exact absurd hq (hk q)
    · rw [Function.update_of_ne hq'p] at hq'
      exact h q q' k' hq hq'

omit [DecidableEq κ] in
/-- A vacated slot is not never-used. -/
theorem Reachable.update_tomb (h : Reachable path tbl) :
    Reachable path (Function.update tbl p .tomb) := by
  intro q k' hq
  have hqp : q ≠ p := by
    rintro rfl
    rw [Function.update_self] at hq
    cases hq
  rw [Function.update_of_ne hqp] at hq
  obtain ⟨pre, post, hpath, hpre⟩ := h q k' hq
  refine ⟨pre, post, hpath, ?_⟩
  intro r hr
  by_cases hrp : r = p
  · subst hrp; rw [Function.update_self]; simp
  · rw [Function.update_of_ne hrp]; exact hpre r hr

/-! ## The table as a map -/

/-- Changing a slot that is not full under the key, to one that is not either, and not to a
never-used one, does not change what a lookup finds. -/
theorem lookup_update_of_ne {x : Slot κ} (h : Reachable path tbl)
    (h' : Reachable path (Function.update tbl p x)) (hp : tbl p ≠ .full k) (hx : x ≠ .full k)
    (hn : x ≠ .never) : lookup (Function.update tbl p x) k (path k) = lookup tbl k (path k) := by
  cases hl : lookup tbl k (path k) with
  | none =>
      rw [lookup_eq_none_iff h] at hl
      rw [lookup_eq_none_iff h']
      intro q
      by_cases hqp : q = p
      · subst hqp; rw [Function.update_self]; exact hx
      · rw [Function.update_of_ne hqp]; exact hl q
  | some q =>
      obtain ⟨pre, post, hpath, hpre, hq⟩ := lookup_eq_some_iff.mp hl
      have hqp : q ≠ p := by
        rintro rfl
        exact hp hq
      refine lookup_eq_some_iff.mpr ⟨pre, post, hpath, ?_, by rw [Function.update_of_ne hqp, hq]⟩
      intro r hr
      by_cases hrp : r = p
      · subst hrp; rw [Function.update_self]; exact ⟨hn, hx⟩
      · rw [Function.update_of_ne hrp]; exact hpre r hr

/-- An insertion is found. -/
theorem lookup_update_place (hp : place tbl k ps = some p) :
    lookup (Function.update tbl p (.full k)) k ps = some p := by
  obtain ⟨pre, post, hps, hpre, hv⟩ := place_eq_some hp
  refine lookup_eq_some_iff.mpr ⟨pre, post, hps, ?_, Function.update_self ..⟩
  intro q hq
  obtain ⟨k', hk', hfull⟩ := hpre q hq
  have hqp : q ≠ p := by
    rintro rfl
    simp [hfull, hk'] at hv
  rw [Function.update_of_ne hqp, hfull]
  simp [hk']

/-- Vacating the slot of a key leaves the key out of the table when it was stored there only. -/
theorem lookup_update_tomb_eq_none (h : Reachable path tbl) :
    lookup (Function.update tbl p .tomb) k (path k) = none ↔ ∀ q, tbl q = .full k → q = p := by
  rw [lookup_eq_none_iff h.update_tomb]
  constructor
  · intro hall q hq
    by_contra hqp
    apply hall q
    rw [Function.update_of_ne hqp, hq]
  · intro honly q hq
    by_cases hqp : q = p
    · subst hqp
      rw [Function.update_self] at hq
      cases hq
    · rw [Function.update_of_ne hqp] at hq
      exact hqp (honly q hq)

variable {ν : Type} {val val' : ι → ν} {v : ν} {k' : κ}

/-- The value stored under a key. -/
def get (tbl : ι → Slot κ) (val : ι → ν) (path : κ → List ι) (k : κ) : Option ν :=
  (lookup tbl k (path k)).map val

/-- What such a change leaves of the map. -/
theorem get_update_of_ne {x : Slot κ} (h : Reachable path tbl)
    (h' : Reachable path (Function.update tbl p x)) (hp : tbl p ≠ .full k) (hx : x ≠ .full k)
    (hn : x ≠ .never) (hval : ∀ q, q ≠ p → val' q = val q) :
    get (Function.update tbl p x) val' path k = get tbl val path k := by
  unfold get
  rw [lookup_update_of_ne h h' hp hx hn]
  cases hl : lookup tbl k (path k) with
  | none => rfl
  | some q =>
      have hqp : q ≠ p := by
        rintro rfl
        exact hp (lookup_eq_some hl).2
      rw [Option.map_some, Option.map_some, hval q hqp]

/-- **Insertion is the update of the map**, whatever else is in the table. -/
theorem get_update_place (h : Reachable path tbl) (hp : place tbl k (path k) = some p)
    (hval : ∀ q, q ≠ p → val' q = val q) (hv : val' p = v) :
    get (Function.update tbl p (.full k)) val' path =
      Function.update (get tbl val path) k (some v) := by
  funext k'
  by_cases hk : k' = k
  · subst hk
    rw [get, lookup_update_place hp, Option.map_some, hv, Function.update_self]
  · have hfull : Slot.full k ≠ .full k' := by simpa using Ne.symm hk
    rw [Function.update_of_ne hk]
    exact get_update_of_ne h (h.update_place hp) (not_full_of_place hp hk) hfull nofun hval

/-- **Deletion removes the key from the map** exactly when it is stored in one slot only; other keys
keep their values. -/
theorem get_update_tomb (h : Reachable path tbl) (hl : lookup tbl k (path k) = some p)
    (hval : ∀ q, q ≠ p → val' q = val q) :
    get (Function.update tbl p .tomb) val' path = Function.update (get tbl val path) k none ↔
      ∀ q, tbl q = .full k → q = p := by
  have hp := (lookup_eq_some hl).2
  rw [← lookup_update_tomb_eq_none h]
  constructor
  · intro hget
    have hk := congrFun hget k
    rw [Function.update_self] at hk
    exact Option.map_eq_none_iff.mp hk
  · intro hnone
    funext k'
    by_cases hk : k' = k
    · subst hk
      rw [get, hnone, Function.update_self, Option.map_none]
    · have hpk : tbl p ≠ .full k' := by simp [hp, Ne.symm hk]
      rw [Function.update_of_ne hk]
      exact get_update_of_ne h h.update_tomb hpk nofun nofun hval

/-! ## Linear probing -/

/-- The path from `a` on, round a table of the given length. -/
def linearPath (len a : Nat) : List Nat := (List.range len).map fun i => (a + i) % len

theorem linearPath_eq_rotate (len a : Nat) : linearPath len a = (List.range len).rotate a := by
  apply List.ext_getElem
  · simp [linearPath]
  · intro i _ _
    rw [List.getElem_rotate]
    simp [linearPath, Nat.add_comm]

/-- **Linear probing visits every slot once.** -/
theorem linearPath_perm (len a : Nat) : (linearPath len a).Perm (List.range len) := by
  rw [linearPath_eq_rotate]
  exact List.rotate_perm _ _

theorem mem_linearPath {len a q : Nat} : q ∈ linearPath len a ↔ q < len := by
  rw [(linearPath_perm len a).mem_iff, List.mem_range]

end Vcuda.Probing
