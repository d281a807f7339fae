import Mathlib.Logic.Function.Basic
import Mathlib.Data.List.Basic

/-!
# Shared memory segments

System V shared memory as one process sees it: segments, found by their keys, and the addresses at
which the process has mapped them. The identifier of a segment is its position, and nothing removes
a segment here, so identifiers stay valid. Which address `shmat` picks is up to the kernel and
enters as an argument: any unmapped one.

What a call did is read back by one lemma each (`shmget_eq_some`, `shmat_eq_some`). `keyAt` is what
a client finds at an address, and only a change of the mapping changes it (`keyAt_congr`).
-/

namespace Vcuda

/-- A segment, with its `key_t`. -/
structure Segment where
  key : Int32
  size : Nat
  deriving DecidableEq

/-- The segments and the size they may have, and what one process has mapped at which address. -/
structure Shm (α : Type) where
  shmmax : Nat
  segments : List Segment
  mapped : α → Option Nat
  mapped_lt : ∀ a id, mapped a = some id → id < segments.length

namespace Shm

variable {α : Type} {m m' : Shm α} {key key' : Int32} {bytes id : Nat} {excl : Bool} {a b : α}

/-! ## Segments -/

/-- The segment with a key. -/
def find (m : Shm α) (key : Int32) : Option Nat := m.segments.findIdx? (·.key = key)

def create (m : Shm α) (key : Int32) (bytes : Nat) : Shm α where
  shmmax := m.shmmax
  segments := m.segments ++ [⟨key, bytes⟩]
  mapped := m.mapped
  mapped_lt a id h := by
    rw [List.length_append]
    exact Nat.lt_add_right _ (m.mapped_lt a id h)

/-- `shmget(key, bytes, IPC_CREAT)`, or with `IPC_EXCL`, when a segment that exists already is no
success. -/
def shmget (m : Shm α) (key : Int32) (bytes : Nat) (excl : Bool) : Option (Nat × Shm α) :=
  match m.find key with
  | some id =>
      if excl ∨ (m.segments[id]?).any (·.size < bytes) then none else some (id, m)
  | none =>
      if bytes = 0 ∨ m.shmmax < bytes then none
      else some (m.segments.length, m.create key bytes)

theorem find_eq_some (h : m.find key = some id) :
    (m.segments[id]?).map Segment.key = some key := by
  obtain ⟨hlt, hkey, _⟩ := List.findIdx?_eq_some_iff_getElem.mp h
  rw [List.getElem?_eq_getElem hlt, Option.map_some, of_decide_eq_true hkey]

theorem find_create_self (h : m.find key = none) :
    (m.create key bytes).find key = some m.segments.length := by
  unfold find at h ⊢
  rw [create, List.findIdx?_append, h]
  simp

theorem find_create_ne (hne : key' ≠ key) : (m.create key bytes).find key' = m.find key' := by
  unfold find
  rw [create, List.findIdx?_append]
  simp [hne.symm]

/-- `shmget` finds the segment or creates it. -/
theorem shmget_eq_some (h : m.shmget key bytes excl = some (id, m')) :
    (m.find key = some id ∧ excl = false ∧ m' = m) ∨
      (m.find key = none ∧ id = m.segments.length ∧ m' = m.create key bytes) := by
  unfold shmget at h
  split at h
  · next id' hfind =>
    split at h
    · cases h
    · next hok =>
      cases h
      rw [not_or, Bool.not_eq_true] at hok
      exact Or.inl ⟨hfind, hok.1, rfl⟩
  · next hfind =>
    split at h
    · cases h
    · cases h
      exact Or.inr ⟨hfind, rfl, rfl⟩

/-- `IPC_EXCL` only matters for a segment that exists. -/
theorem shmget_excl_of_find_eq_none (h : m.find key = none) :
    m.shmget key bytes true = m.shmget key bytes false := by
  unfold shmget
  rw [h]

/-! ## Mappings -/

/-- The key of the segment that is mapped at an address. -/
def keyAt (m : Shm α) (a : α) : Option Int32 :=
  (m.mapped a).bind fun id => (m.segments[id]?).map Segment.key

section

variable [DecidableEq α]

/-- `shmat(id, NULL, 0)`, at the address `a`. -/
def shmat (m : Shm α) (id : Nat) (a : α) : Option (Shm α) :=
  if h : id < m.segments.length ∧ m.mapped a = none then
    some
      { m with
        mapped := Function.update m.mapped a (some id)
        mapped_lt := by
          intro b i hb
          by_cases hba : b = a
          · rw [hba, Function.update_self] at hb
            cases hb
            exact h.1
          · rw [Function.update_of_ne hba] at hb
            exact m.mapped_lt b i hb }
  else none

/-- `shmdt(a)`, which fails without effect when nothing is mapped there. -/
def shmdt (m : Shm α) (a : α) : Shm α where
  shmmax := m.shmmax
  segments := m.segments
  mapped := Function.update m.mapped a none
  mapped_lt b id hb := by
    by_cases hba : b = a
    · rw [hba, Function.update_self] at hb
      cases hb
    · rw [Function.update_of_ne hba] at hb
      exact m.mapped_lt b id hb

/-- `shmat` maps the segment at an address that was free. -/
theorem shmat_eq_some (h : m.shmat id a = some m') :
    m.mapped a = none ∧ m'.segments = m.segments ∧
      m'.mapped = Function.update m.mapped a (some id) := by
  unfold shmat at h
  split at h
  · next hfree =>
    cases h
    exact ⟨hfree.2, rfl, rfl⟩
  · cases h

end

/-- An address keeps its segment as long as its mapping stays. -/
theorem keyAt_congr (hseg : m.segments <+: m'.segments) (hmap : m'.mapped a = m.mapped a) :
    m'.keyAt a = m.keyAt a := by
  unfold keyAt
  rw [hmap]
  cases hid : m.mapped a with
  | none => rfl
  | some id =>
      obtain ⟨rest, hrest⟩ := hseg
      rw [Option.bind_some, Option.bind_some, ← hrest,
        List.getElem?_append_left (m.mapped_lt a id hid)]

theorem keyAt_of_mapped (hmap : m.mapped a = some id)
    (hid : (m.segments[id]?).map Segment.key = some key) : m.keyAt a = some key := by
  rw [keyAt, hmap, Option.bind_some, hid]

end Shm

end Vcuda
