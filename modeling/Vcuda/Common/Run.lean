import Mathlib.Data.List.Basic

/-!
# Labelled runs

A run of a labelled system from `s` is the list of its steps, each a label with the state it led
to. `Along P s r` says that every step of `r` satisfies `P` (of the state before, the label and the
state after); a run *of* a system with step relation `step` is one with `Along step s r`, and a
condition on the steps taken is a second `Along` over the same list.

The induction over runs is packaged here once, as `Along.invariant` (a step lemma becomes a run
lemma) and, for conditions that are exactly what the invariant needs, `Along.states_iff`.
-/

namespace Vcuda

variable {σ α : Type}

/-- Every step of the run satisfies `P`. -/
def Along (P : σ → α → σ → Prop) : σ → List (α × σ) → Prop
  | _, [] => True
  | s, (a, s') :: r => P s a s' ∧ Along P s' r

/-- The state a run ends in. -/
def final : σ → List (α × σ) → σ
  | s, [] => s
  | _, (_, s') :: r => final s' r

/-- The states a run visits, the first one included. -/
def states (s : σ) (r : List (α × σ)) : List σ := s :: r.map Prod.snd

@[simp] theorem final_nil (s : σ) : final s ([] : List (α × σ)) = s := rfl

@[simp] theorem final_cons (s s' : σ) (a : α) (r : List (α × σ)) :
    final s ((a, s') :: r) = final s' r := rfl

@[simp] theorem final_append (s : σ) (r₁ r₂ : List (α × σ)) :
    final s (r₁ ++ r₂) = final (final s r₁) r₂ := by
  induction r₁ generalizing s with
  | nil => rfl
  | cons x r₁ ih => exact ih x.2

theorem states_cons (s s' : σ) (a : α) (r : List (α × σ)) :
    states s ((a, s') :: r) = s :: states s' r := rfl

theorem mem_states_self (s : σ) (r : List (α × σ)) : s ∈ states s r := List.mem_cons_self

theorem final_mem_states (s : σ) (r : List (α × σ)) : final s r ∈ states s r := by
  induction r generalizing s with
  | nil => exact mem_states_self s []
  | cons x r ih => exact List.mem_cons_of_mem _ (ih x.2)

namespace Along

variable {P Q R : σ → α → σ → Prop} {I : σ → Prop} {s : σ} {r : List (α × σ)}

@[simp] theorem nil : Along P s ([] : List (α × σ)) := trivial

@[simp] theorem cons_iff {s' : σ} {a : α} :
    Along P s ((a, s') :: r) ↔ P s a s' ∧ Along P s' r := Iff.rfl

theorem append_iff {r₁ r₂ : List (α × σ)} :
    Along P s (r₁ ++ r₂) ↔ Along P s r₁ ∧ Along P (final s r₁) r₂ := by
  induction r₁ generalizing s with
  | nil => simp
  | cons x r₁ ih =>
      obtain ⟨a, s'⟩ := x
      show P s a s' ∧ Along P s' (r₁ ++ r₂) ↔ (P s a s' ∧ Along P s' r₁) ∧ _
      rw [ih, and_assoc]
      rfl

theorem mono (h : Along P s r) (hPQ : ∀ s a s', P s a s' → Q s a s') : Along Q s r := by
  induction r generalizing s with
  | nil => trivial
  | cons x r ih => exact ⟨hPQ _ _ _ h.1, ih h.2⟩

theorem and_iff : Along (fun s a s' => P s a s' ∧ Q s a s') s r ↔ Along P s r ∧ Along Q s r := by
  induction r generalizing s with
  | nil => simp
  | cons x r ih =>
      show (P s x.1 x.2 ∧ Q s x.1 x.2) ∧ Along _ x.2 r ↔
        (P s x.1 x.2 ∧ Along P x.2 r) ∧ (Q s x.1 x.2 ∧ Along Q x.2 r)
      rw [ih]
      exact and_and_and_comm

/-- A property of all labels holds at every step. -/
theorem and_label {L : α → Prop} (h : Along P s r) (hL : ∀ x ∈ r, L x.1) :
    Along (fun s a s' => P s a s' ∧ L a) s r := by
  induction r generalizing s with
  | nil => trivial
  | cons x r ih =>
      have hx := hL x List.mem_cons_self
      exact ⟨⟨h.1, hx⟩, ih h.2 fun y hy => hL y (List.mem_cons_of_mem _ hy)⟩

/-- **From steps to runs.** What every step does from a state of the invariant, every step of a run
from such a state does, and the invariant holds in all its states. -/
theorem invariant (hs : I s) (h : Along P s r)
    (hstep : ∀ s a s', I s → P s a s' → I s' ∧ R s a s') :
    (∀ x ∈ states s r, I x) ∧ Along R s r := by
  induction r generalizing s with
  | nil =>
      refine ⟨?_, trivial⟩
      intro x hx
      rw [List.mem_singleton.mp hx]
      exact hs
  | cons x r ih =>
      obtain ⟨hx, hR⟩ := hstep s x.1 x.2 hs h.1
      obtain ⟨hall, hrest⟩ := ih hx h.2
      refine ⟨?_, hR, hrest⟩
      intro y hy
      rcases List.mem_cons.mp hy with rfl | hy
      · exact hs
      · exact hall y hy

/-- The invariant part alone. -/
theorem invariant_states (hs : I s) (h : Along P s r)
    (hstep : ∀ s a s', I s → P s a s' → I s') : ∀ x ∈ states s r, I x := by
  have hboth : ∀ s a s', I s → P s a s' → I s' ∧ P s a s' := by
    intro s a s' hi hp
    exact ⟨hstep s a s' hi hp, hp⟩
  exact (invariant hs h hboth).1

/-- **An exact condition stays exact along runs.** If the invariant gives `T`, a step that satisfies
`Q` keeps the invariant and a step to a state with `T` satisfied `Q`, then `T` holds in all states
of a run exactly when all its steps satisfy `Q`. -/
theorem states_iff {T : σ → Prop} (hs : I s) (h : Along P s r) (hT : ∀ s, I s → T s)
    (hkeep : ∀ s a s', I s → P s a s' → Q s a s' → I s')
    (hexact : ∀ s a s', I s → P s a s' → T s' → Q s a s') :
    (∀ x ∈ states s r, T x) ↔ Along Q s r := by
  induction r generalizing s with
  | nil => simp [states, hT s hs]
  | cons x r ih =>
      obtain ⟨a, s'⟩ := x
      rw [states_cons, List.forall_mem_cons, cons_iff]
      constructor
      · rintro ⟨_, hall⟩
        have hQ := hexact s a s' hs h.1 (hall s' (mem_states_self s' r))
        exact ⟨hQ, (ih (hkeep s a s' hs h.1 hQ) h.2).mp hall⟩
      · rintro ⟨hQ, hrest⟩
        exact ⟨hT s hs, (ih (hkeep s a s' hs h.1 hQ) h.2).mpr hrest⟩

/-- **Two conditions on the steps of a run agree** if they agree on every step from the invariant
and the invariant is kept as long as they hold. -/
theorem steps_iff (hs : I s) (h : Along P s r) (hkeep : ∀ s a s', I s → P s a s' → Q s a s' → I s')
    (hexact : ∀ s a s', I s → P s a s' → (R s a s' ↔ Q s a s')) :
    Along R s r ↔ Along Q s r := by
  induction r generalizing s with
  | nil => exact Iff.rfl
  | cons x r ih =>
      obtain ⟨a, s'⟩ := x
      rw [cons_iff, cons_iff, hexact s a s' hs h.1]
      exact and_congr_right fun hQ => ih (hkeep s a s' hs h.1 hQ) h.2

end Along

/-! ## Computed runs -/

/-- The run a step function makes. -/
def trajectory (next : σ → α → σ) : σ → List α → List (α × σ)
  | _, [] => []
  | s, a :: as => (a, next s a) :: trajectory next (next s a) as

/-- Every step of it passes a test. -/
def allSteps (next : σ → α → σ) (ok : σ → α → Bool) : σ → List α → Bool
  | _, [] => true
  | s, a :: as => ok s a && allSteps next ok (next s a) as

variable {next : σ → α → σ} {s : σ} {as : List α}

theorem along_trajectory {P : σ → α → σ → Prop} {ok : σ → α → Bool}
    (hok : ∀ s a, ok s a = true → P s a (next s a)) (h : allSteps next ok s as = true) :
    Along P s (trajectory next s as) := by
  induction as generalizing s with
  | nil => trivial
  | cons a as ih =>
      rw [allSteps, Bool.and_eq_true] at h
      exact ⟨hok s a h.1, ih h.2⟩

/-- Every step of it is one of the function. -/
theorem along_step_trajectory : Along (fun s a s' => s' = next s a) s (trajectory next s as) := by
  induction as generalizing s with
  | nil => trivial
  | cons a as ih => exact ⟨rfl, ih⟩

/-- Its labels are the given ones. -/
theorem forall_label_trajectory {L : α → Prop} :
    (∀ x ∈ trajectory next s as, L x.1) ↔ ∀ a ∈ as, L a := by
  induction as generalizing s with
  | nil => simp [trajectory]
  | cons a as ih =>
      rw [trajectory, List.forall_mem_cons, List.forall_mem_cons, ih]

end Vcuda
