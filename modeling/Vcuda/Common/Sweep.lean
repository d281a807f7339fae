import Vcuda.Common.Run
import Mathlib.Logic.Function.Basic

/-!
# Whoever finds it missing makes it

Parties `π` need something with positions, a table say. The first one that finds it missing makes it
and sweeps it, position after position; the others do not wait for that. So there is never a second
one that sweeps (`only_one`): the positions are swept in order and once, however the steps of the
parties are interleaved (`positions_eq_range`), and when the party stops on the way, the rest of
them never are (`positions_of_over`).

A system of parties is any `σ` with a view on it as a `State`.
-/

namespace Vcuda.Sweeping

/-- Whether it is there, and which position the party sweeps next. -/
structure State (π : Type) where
  made : Bool
  next : π → Option Nat

variable {π : Type} [DecidableEq π]

/-- A step, with the position that is swept. -/
inductive Step : State π → Option Nat → State π → Prop where
  | stay {v} : Step v none v
  | make {v} (p : π) : v.made = false → Step v none ⟨true, Function.update v.next p (some 0)⟩
  | sweep {v} (p : π) {i : Nat} : v.next p = some i →
      Step v (some i) ⟨v.made, Function.update v.next p (some (i + 1))⟩
  /-- It has finished, or it stops. -/
  | leave {v} (p : π) : Step v none ⟨v.made, Function.update v.next p none⟩

/-- The first `k` positions have been swept, and only one party goes on from there. -/
structure Reached (v : State π) (k : Nat) : Prop where
  unmade : v.made = false → k = 0 ∧ ∀ p, v.next p = none
  unique : ∀ p q i j, v.next p = some i → v.next q = some j → p = q
  next : ∀ p i, v.next p = some i → i = k

/-- Nobody but `p` sweeps. -/
def Only (v : State π) (p : π) : Prop := ∀ q i, v.next q = some i → q = p

/-- Nobody sweeps any more. -/
def Over (v : State π) : Prop := v.made = true ∧ ∀ p, v.next p = none

variable {v v' : State π} {p : π} {i k : Nat} {x : Option Nat}

omit [DecidableEq π] in
theorem reached_zero (hnext : ∀ p, v.next p = none) : Reached v 0 := by
  refine ⟨fun _ => ⟨rfl, hnext⟩, ?_, ?_⟩
  · intro p q i j hp
    rw [hnext p] at hp
    cases hp
  · intro p i hp
    rw [hnext p] at hp
    cases hp

theorem update_eq_some {f : π → Option Nat} {q : π} (h : Function.update f p x q = some i) :
    (q = p ∧ x = some i) ∨ (q ≠ p ∧ f q = some i) := by
  by_cases hq : q = p
  · subst hq
    rw [Function.update_self] at h
    exact Or.inl ⟨rfl, h⟩
  · rw [Function.update_of_ne hq] at h
    exact Or.inr ⟨hq, h⟩

/-- **What a step sweeps is the next position.** -/
theorem Step.reached (h : Reached v k) (hstep : Step v x v') :
    (∀ i, x = some i → i = k) ∧ Reached v' (k + x.toList.length) := by
  cases hstep with
  | stay => exact ⟨nofun, h⟩
  | make p hmade =>
      refine ⟨nofun, nofun, ?_, ?_⟩
      · intro q q' i j hq hq'
        rcases update_eq_some hq with ⟨rfl, _⟩ | ⟨_, hq⟩
        · rcases update_eq_some hq' with ⟨rfl, _⟩ | ⟨_, hq'⟩
          · rfl
          · cases ((h.unmade hmade).2 q').symm.trans hq'
        · cases ((h.unmade hmade).2 q).symm.trans hq
      · intro q i hq
        rcases update_eq_some hq with ⟨_, hi⟩ | ⟨_, hq⟩
        · rw [(h.unmade hmade).1]
          exact (Option.some.inj hi).symm
        · cases ((h.unmade hmade).2 q).symm.trans hq
  | sweep p hp =>
      obtain rfl := h.next p _ hp
      refine ⟨fun i hi => (Option.some.inj hi).symm, ?_, ?_, ?_⟩
      · intro hmade
        cases ((h.unmade hmade).2 p).symm.trans hp
      · intro q q' i j hq hq'
        rcases update_eq_some hq with ⟨rfl, _⟩ | ⟨hne, hq⟩
        · rcases update_eq_some hq' with ⟨rfl, _⟩ | ⟨_, hq'⟩
          · rfl
          · exact h.unique q q' _ j hp hq'
        · exact absurd (h.unique q p i _ hq hp) hne
      · intro q i hq
        rcases update_eq_some hq with ⟨_, hi⟩ | ⟨hne, hq⟩
        · exact (Option.some.inj hi).symm
        · exact absurd (h.unique q p i _ hq hp) hne
  | leave p =>
      have hold : ∀ {q i}, Function.update v.next p none q = some i → v.next q = some i := by
        intro q i hq
        rcases update_eq_some hq with ⟨_, hi⟩ | ⟨_, hq⟩
        · cases hi
        · exact hq
      refine ⟨nofun, ?_, ?_, ?_⟩
      · intro hmade
        refine ⟨(h.unmade hmade).1, fun q => ?_⟩
        rw [Option.eq_none_iff_forall_ne_some]
        intro i hq
        cases ((h.unmade hmade).2 q).symm.trans (hold hq)
      · exact fun q q' i j hq hq' => h.unique q q' i j (hold hq) (hold hq')
      · exact fun q i hq => h.next q i (hold hq)

/-- Once it is there, nobody else begins. -/
theorem Step.only (hmade : v.made = true) (h : Only v p) (hstep : Step v x v') :
    v'.made = true ∧ Only v' p := by
  cases hstep with
  | stay => exact ⟨hmade, h⟩
  | make q hunmade => cases hmade.symm.trans hunmade
  | sweep q hq =>
      refine ⟨hmade, fun q' i hq' => ?_⟩
      rcases update_eq_some hq' with ⟨rfl, _⟩ | ⟨_, hq'⟩
      · exact h q' _ hq
      · exact h q' i hq'
  | leave q =>
      refine ⟨hmade, fun q' i hq' => ?_⟩
      rcases update_eq_some hq' with ⟨_, hi⟩ | ⟨_, hq'⟩
      · cases hi
      · exact h q' i hq'

omit [DecidableEq π] in
/-- One party at most sweeps. -/
theorem Reached.exists_only [Nonempty π] (h : Reached v k) : ∃ p, Only v p := by
  by_cases hsome : ∃ p i, v.next p = some i
  · obtain ⟨p, i, hp⟩ := hsome
    exact ⟨p, fun q j hq => h.unique q p j i hq hp⟩
  · obtain ⟨p⟩ := ‹Nonempty π›
    exact ⟨p, fun q j hq => absurd ⟨q, j, hq⟩ hsome⟩

theorem Step.over (h : Over v) (hstep : Step v x v') : x = none ∧ Over v' := by
  cases hstep with
  | stay => exact ⟨rfl, h⟩
  | make p hmade => cases h.1.symm.trans hmade
  | sweep p hp => cases (h.2 p).symm.trans hp
  | leave p =>
      refine ⟨rfl, h.1, fun q => ?_⟩
      rw [Option.eq_none_iff_forall_ne_some]
      intro i hq
      rcases update_eq_some hq with ⟨_, hi⟩ | ⟨_, hq⟩
      · cases hi
      · cases (h.2 q).symm.trans hq

/-- When the one that sweeps leaves, it is over. -/
theorem Reached.over_of_leave (h : Reached v k) (hp : v.next p = some i) :
    Over ⟨v.made, Function.update v.next p none⟩ := by
  constructor
  · show v.made = true
    rw [← Bool.not_eq_false]
    intro hmade
    cases ((h.unmade hmade).2 p).symm.trans hp
  · intro q
    rw [Option.eq_none_iff_forall_ne_some]
    intro j hq
    rcases update_eq_some hq with ⟨_, hj⟩ | ⟨hne, hq⟩
    · cases hj
    · exact hne (h.unique q p j i hq hp)

/-! ## Runs -/

section

variable {σ α : Type} {view : σ → State π} {swept : σ → α → Option Nat} {P : σ → α → σ → Prop}
  {s : σ} {r r₁ r₂ : List (α × σ)}

/-- What is swept in a run. -/
def positions (swept : σ → α → Option Nat) : σ → List (α × σ) → List Nat
  | _, [] => []
  | s, (a, s') :: r => (swept s a).toList ++ positions swept s' r

theorem positions_append :
    positions swept s (r₁ ++ r₂) = positions swept s r₁ ++ positions swept (final s r₁) r₂ := by
  induction r₁ generalizing s with
  | nil => rfl
  | cons x r₁ ih =>
      show _ ++ positions swept x.2 (r₁ ++ r₂) = (_ ++ positions swept x.2 r₁) ++ _
      rw [ih, List.append_assoc]
      rfl

/-- An invariant may say how many positions have been swept. -/
theorem counted {I : Nat → σ → Prop} (h : I k s) (hr : Along P s r)
    (hstep : ∀ k s a s', I k s → P s a s' → I (k + (swept s a).toList.length) s') :
    I (k + (positions swept s r).length) (final s r) := by
  induction r generalizing k s with
  | nil => exact h
  | cons x r ih =>
      have hrest := ih (hstep k s x.1 x.2 h hr.1) hr.2
      rw [Nat.add_assoc, ← List.length_append] at hrest
      exact hrest

/-- **Every position is swept once, in their order.** -/
theorem positions_eq_range (h : Reached (view s) k) (hr : Along P s r)
    (hstep : ∀ s a s', P s a s' → Step (view s) (swept s a) (view s')) :
    positions swept s r = List.range' k (positions swept s r).length := by
  induction r generalizing k s with
  | nil => rfl
  | cons x r ih =>
      obtain ⟨hnext, hreached⟩ := (hstep s x.1 x.2 hr.1).reached h
      have hrest := ih hreached hr.2
      show (swept s x.1).toList ++ positions swept x.2 r = _
      rw [positions, List.length_append]
      cases hswept : swept s x.1 with
      | none =>
          rw [hswept] at hrest
          simpa using hrest
      | some i =>
          obtain rfl := hnext i hswept
          rw [hswept] at hrest
          simp only [Option.toList_some, List.singleton_append, List.length_singleton] at hrest ⊢
          rw [Nat.add_comm 1, List.range'_succ, ← hrest]

/-- **It is one party that sweeps**, the whole run through. -/
theorem only_one [Nonempty π] (h : Reached (view s) k) (hr : Along P s r)
    (hstep : ∀ s a s', P s a s' → Step (view s) (swept s a) (view s')) :
    ∃ p, Along (fun s _ _ => Only (view s) p) s r := by
  induction r generalizing k s with
  | nil => exact ⟨Classical.arbitrary π, trivial⟩
  | cons x r ih =>
      cases hmade : (view s).made with
      | false =>
          obtain ⟨p, hrest⟩ := ih ((hstep s x.1 x.2 hr.1).reached h).2 hr.2
          refine ⟨p, fun q i hq => ?_, hrest⟩
          cases ((h.unmade hmade).2 q).symm.trans hq
      | true =>
          obtain ⟨p, hp⟩ := h.exists_only
          refine ⟨p, (Along.invariant (I := fun s => (view s).made = true ∧ Only (view s) p)
            ⟨hmade, hp⟩ hr ?_).2⟩
          intro s a s' hs hP
          exact ⟨(hstep s a s' hP).only hs.1 hs.2, hs.2⟩

/-- **When the one that sweeps has stopped, the rest is never swept.** -/
theorem positions_of_over (h : Over (view s)) (hr : Along P s r)
    (hstep : ∀ s a s', P s a s' → Step (view s) (swept s a) (view s')) :
    positions swept s r = [] := by
  induction r generalizing s with
  | nil => rfl
  | cons x r ih =>
      obtain ⟨hnone, hover⟩ := (hstep s x.1 x.2 hr.1).over h
      show (swept s x.1).toList ++ positions swept x.2 r = []
      rw [hnone, ih hover hr.2]
      rfl

end

end Vcuda.Sweeping
