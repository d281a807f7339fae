import Mathlib.Data.List.Basic

/-!
# Computations with a state, a trace and faults

A `Traced ε ρ σ α` computation runs on a state of type `σ`, records what it does as a list of
events of type `ρ`, and either returns an `α` or stops at a fault of type `ε`. State and trace are
kept when it faults, so a property of what a computation *touches* can be stated for runs that
never finish as well.

Three judgements carry the proofs of clients:

* `Runs x s a s' tr` — from `s` the computation returns `a`, leaves `s'` and did `tr`. Each
  primitive has one `@[simp]` lemma, so a hypothesis about a `do` block unfolds into an existential
  over its steps (`runs_bind`).
* `Emits P x s` — every event of the run from `s` satisfies `P`, whether it finishes or not.
* `Approx bot x y` — `y` answers like `x` wherever `x` does not stop with `bot`. With `bot` the
  "out of fuel" fault this is the order in which more fuel is better.
-/

namespace Vcuda

/-- What a computation leaves behind: its value or the fault that stopped it, the state, and what
it did, oldest event first. -/
structure Outcome (ε ρ σ α : Type) where
  result : Except ε α
  state : σ
  trace : List ρ

/-- A computation over the state `σ`. -/
def Traced (ε ρ σ α : Type) : Type := σ → Outcome ε ρ σ α

namespace Traced

variable {ε ρ σ α β : Type}

protected def pure (a : α) : Traced ε ρ σ α := fun s => ⟨.ok a, s, []⟩

protected def bind (x : Traced ε ρ σ α) (f : α → Traced ε ρ σ β) : Traced ε ρ σ β := fun s =>
  match x s with
  | ⟨.ok a, s', tr⟩ =>
      match f a s' with
      | ⟨r, s'', tr'⟩ => ⟨r, s'', tr ++ tr'⟩
  | ⟨.error e, s', tr⟩ => ⟨.error e, s', tr⟩

instance : Monad (Traced ε ρ σ) where
  pure := Traced.pure
  bind := Traced.bind

/-- Stop with a fault. -/
def fail (e : ε) : Traced ε ρ σ α := fun s => ⟨.error e, s, []⟩

/-- Read a part of the state. -/
def read (f : σ → α) : Traced ε ρ σ α := fun s => ⟨.ok (f s), s, []⟩

/-- Change the state. -/
def update (f : σ → σ) : Traced ε ρ σ Unit := fun s => ⟨.ok (), f s, []⟩

/-- Record an event. -/
def emit (e : ρ) : Traced ε ρ σ Unit := fun s => ⟨.ok (), s, [e]⟩

/-! ## Completed runs -/

/-- From `s` the computation returns `a` in state `s'`, having done `tr`. -/
def Runs (x : Traced ε ρ σ α) (s : σ) (a : α) (s' : σ) (tr : List ρ) : Prop :=
  x s = ⟨.ok a, s', tr⟩

@[simp] theorem runs_pure {a b : α} {s s' : σ} {tr : List ρ} :
    Runs (pure a : Traced ε ρ σ α) s b s' tr ↔ a = b ∧ s = s' ∧ tr = [] := by
  show (⟨.ok a, s, []⟩ : Outcome ε ρ σ α) = ⟨.ok b, s', tr⟩ ↔ _
  simp only [Outcome.mk.injEq, Except.ok.injEq]
  constructor
  · rintro ⟨rfl, rfl, rfl⟩; exact ⟨rfl, rfl, rfl⟩
  · rintro ⟨rfl, rfl, rfl⟩; exact ⟨rfl, rfl, rfl⟩

@[simp] theorem runs_fail {e : ε} {b : α} {s s' : σ} {tr : List ρ} :
    ¬ Runs (fail e : Traced ε ρ σ α) s b s' tr := by
  intro h
  cases h

@[simp] theorem runs_read {f : σ → α} {b : α} {s s' : σ} {tr : List ρ} :
    Runs (read f : Traced ε ρ σ α) s b s' tr ↔ b = f s ∧ s = s' ∧ tr = [] := by
  show (⟨.ok (f s), s, []⟩ : Outcome ε ρ σ α) = ⟨.ok b, s', tr⟩ ↔ _
  simp only [Outcome.mk.injEq, Except.ok.injEq]
  constructor
  · rintro ⟨rfl, rfl, rfl⟩; exact ⟨rfl, rfl, rfl⟩
  · rintro ⟨rfl, rfl, rfl⟩; exact ⟨rfl, rfl, rfl⟩

@[simp] theorem runs_update {f : σ → σ} {u : Unit} {s s' : σ} {tr : List ρ} :
    Runs (update f : Traced ε ρ σ Unit) s u s' tr ↔ s' = f s ∧ tr = [] := by
  show (⟨.ok (), f s, []⟩ : Outcome ε ρ σ Unit) = ⟨.ok u, s', tr⟩ ↔ _
  simp only [Outcome.mk.injEq, true_and]
  constructor
  · rintro ⟨rfl, rfl⟩; exact ⟨rfl, rfl⟩
  · rintro ⟨rfl, rfl⟩; exact ⟨rfl, rfl⟩

@[simp] theorem runs_emit {e : ρ} {u : Unit} {s s' : σ} {tr : List ρ} :
    Runs (emit e : Traced ε ρ σ Unit) s u s' tr ↔ s = s' ∧ tr = [e] := by
  show (⟨.ok (), s, [e]⟩ : Outcome ε ρ σ Unit) = ⟨.ok u, s', tr⟩ ↔ _
  simp only [Outcome.mk.injEq, true_and]
  constructor
  · rintro ⟨rfl, rfl⟩; exact ⟨rfl, rfl⟩
  · rintro ⟨rfl, rfl⟩; exact ⟨rfl, rfl⟩

/-- **A completed sequence is two completed runs**, and its trace is theirs in order. -/
theorem runs_bind {x : Traced ε ρ σ α} {f : α → Traced ε ρ σ β} {b : β} {s s'' : σ}
    {tr : List ρ} :
    Runs (x >>= f) s b s'' tr ↔
      ∃ a s' tr₁ tr₂, Runs x s a s' tr₁ ∧ Runs (f a) s' b s'' tr₂ ∧ tr = tr₁ ++ tr₂ := by
  show Traced.bind x f s = _ ↔ _
  unfold Traced.bind Runs
  rcases hx : x s with ⟨_ | a, s', tr₁⟩
  · simp
  · constructor
    · intro h
      rcases hf : f a s' with ⟨r, s₂, tr₂⟩
      simp only [hf] at h
      cases h
      exact ⟨a, s', tr₁, tr₂, rfl, hf, rfl⟩
    · rintro ⟨a', t', tr₁', tr₂, h, hf, rfl⟩
      cases h
      simp only [hf]

/-- Sequencing a completed run with what comes after it. -/
theorem Runs.bind {x : Traced ε ρ σ α} {f : α → Traced ε ρ σ β} {a : α} {b : β} {s s' s'' : σ}
    {tr₁ tr₂ : List ρ} (h : Runs x s a s' tr₁) (hf : Runs (f a) s' b s'' tr₂) :
    Runs (x >>= f) s b s'' (tr₁ ++ tr₂) :=
  runs_bind.mpr ⟨a, s', tr₁, tr₂, h, hf, rfl⟩

/-- What comes after a completed run does its part after it, whether it completes or not. -/
theorem Runs.trace_bind {x : Traced ε ρ σ α} {f : α → Traced ε ρ σ β} {a : α} {s s' : σ}
    {tr : List ρ} (h : Runs x s a s' tr) : ((x >>= f) s).trace = tr ++ (f a s').trace := by
  show (Traced.bind x f s).trace = _
  unfold Traced.bind
  rw [show x s = _ from h]

/-- From `s` the computation returns `a` in state `s'`, whatever it does on the way. -/
def Returns (x : Traced ε ρ σ α) (s : σ) (a : α) (s' : σ) : Prop := ∃ tr, Runs x s a s' tr

theorem Runs.returns {x : Traced ε ρ σ α} {a : α} {s s' : σ} {tr : List ρ}
    (h : Runs x s a s' tr) : Returns x s a s' := ⟨tr, h⟩

theorem Returns.bind {x : Traced ε ρ σ α} {f : α → Traced ε ρ σ β} {a : α} {b : β}
    {s s' s'' : σ} (h : Returns x s a s') (hf : Returns (f a) s' b s'') :
    Returns (x >>= f) s b s'' := by
  obtain ⟨tr₁, h₁⟩ := h
  obtain ⟨tr₂, h₂⟩ := hf
  exact ⟨tr₁ ++ tr₂, h₁.bind h₂⟩

theorem returns_pure (a : α) (s : σ) : Returns (pure a : Traced ε ρ σ α) s a s := ⟨[], rfl⟩

theorem returns_read (f : σ → α) (s : σ) : Returns (read f : Traced ε ρ σ α) s (f s) s :=
  ⟨[], rfl⟩

theorem returns_update (f : σ → σ) (s : σ) :
    Returns (update f : Traced ε ρ σ Unit) s () (f s) := ⟨[], rfl⟩

theorem emit_runs (e : ρ) (s : σ) : Runs (emit e : Traced ε ρ σ Unit) s () s [e] := rfl

theorem update_runs (f : σ → σ) (s : σ) :
    Runs (update f : Traced ε ρ σ Unit) s () (f s) [] := rfl

theorem read_runs (f : σ → α) (s : σ) : Runs (read f : Traced ε ρ σ α) s (f s) s [] := rfl

/-- A computation has at most one completed run from a state. -/
theorem Runs.unique {x : Traced ε ρ σ α} {a b : α} {s s₁ s₂ : σ} {tr₁ tr₂ : List ρ}
    (h₁ : Runs x s a s₁ tr₁) (h₂ : Runs x s b s₂ tr₂) : a = b ∧ s₁ = s₂ ∧ tr₁ = tr₂ := by
  unfold Runs at h₁ h₂
  rw [h₁] at h₂
  cases h₂
  exact ⟨rfl, rfl, rfl⟩

theorem returns_pure_iff {a b : α} {s s' : σ} :
    Returns (pure a : Traced ε ρ σ α) s b s' ↔ s' = s ∧ b = a := by
  constructor
  · intro ⟨tr, hr⟩
    obtain ⟨rfl, rfl, _⟩ := runs_pure.mp hr
    exact ⟨rfl, rfl⟩
  · rintro ⟨rfl, rfl⟩
    exact returns_pure b s'

theorem returns_bind {x : Traced ε ρ σ α} {f : α → Traced ε ρ σ β} {b : β} {s s'' : σ} :
    Returns (x >>= f) s b s'' ↔ ∃ a s', Returns x s a s' ∧ Returns (f a) s' b s'' := by
  constructor
  · intro ⟨tr, hr⟩
    obtain ⟨a, s', _, _, hx, hf, _⟩ := runs_bind.mp hr
    exact ⟨a, s', hx.returns, hf.returns⟩
  · intro ⟨a, s', hx, hf⟩
    exact hx.bind hf

theorem Returns.unique {x : Traced ε ρ σ α} {a b : α} {s s₁ s₂ : σ} (h₁ : Returns x s a s₁)
    (h₂ : Returns x s b s₂) : a = b ∧ s₁ = s₂ := by
  obtain ⟨_, h₁⟩ := h₁
  obtain ⟨_, h₂⟩ := h₂
  obtain ⟨hval, hstate, _⟩ := h₁.unique h₂
  exact ⟨hval, hstate⟩

/-- A sequence whose first part completes returns what its second part does. -/
theorem Returns.bind_iff {x : Traced ε ρ σ α} {f : α → Traced ε ρ σ β} {a : α} {b : β}
    {s s' s'' : σ} (h : Returns x s a s') :
    Returns (x >>= f) s b s'' ↔ Returns (f a) s' b s'' := by
  rw [returns_bind]
  constructor
  · intro ⟨a', s₁, hx, hf⟩
    obtain ⟨rfl, rfl⟩ := h.unique hx
    exact hf
  · intro hf
    exact ⟨a, s', h, hf⟩

/-- A computation that answers is a completed run. -/
theorem runs_of_ok {x : Traced ε ρ σ α} {a : α} {s : σ} (h : (x s).result = .ok a) :
    Runs x s a (x s).state (x s).trace := by
  unfold Runs
  rw [← h]

/-- The whole outcome of a sequence whose first part completes. -/
theorem Runs.bind_apply {x : Traced ε ρ σ α} {f : α → Traced ε ρ σ β} {a : α} {s s' : σ}
    {tr : List ρ} (h : Runs x s a s' tr) :
    (x >>= f) s = ⟨(f a s').result, (f a s').state, tr ++ (f a s').trace⟩ := by
  show Traced.bind x f s = _
  unfold Runs at h
  unfold Traced.bind
  rw [h]

/-! ## Faulting runs -/

/-- The computation stops at the fault `e`. -/
def Faults (x : Traced ε ρ σ α) (s : σ) (e : ε) : Prop := (x s).result = .error e

theorem Faults.not_runs {x : Traced ε ρ σ α} {s s' : σ} {e : ε} {a : α} {tr : List ρ}
    (h : Faults x s e) : ¬ Runs x s a s' tr := by
  intro hr
  unfold Faults at h
  unfold Runs at hr
  rw [hr] at h
  cases h

theorem Returns.not_faults {x : Traced ε ρ σ α} {s s' : σ} {e : ε} {a : α}
    (h : Returns x s a s') : ¬ Faults x s e := by
  obtain ⟨tr, hr⟩ := h
  exact fun hf => hf.not_runs hr

theorem Faults.unique {x : Traced ε ρ σ α} {s : σ} {e e' : ε} (h : Faults x s e)
    (h' : Faults x s e') : e = e' := by
  unfold Faults at h h'
  rw [h] at h'
  exact Except.error.inj h'

@[simp] theorem faults_pure {a : α} {s : σ} {e : ε} :
    ¬ Faults (pure a : Traced ε ρ σ α) s e := by
  intro h
  cases h

@[simp] theorem faults_fail {s : σ} {e e' : ε} :
    Faults (fail e : Traced ε ρ σ α) s e' ↔ e = e' := by
  show (Except.error e : Except ε α) = .error e' ↔ _
  rw [Except.error.injEq]

@[simp] theorem faults_read {f : σ → α} {s : σ} {e : ε} :
    ¬ Faults (read f : Traced ε ρ σ α) s e := by
  intro h
  cases h

@[simp] theorem faults_update {f : σ → σ} {s : σ} {e : ε} :
    ¬ Faults (update f : Traced ε ρ σ Unit) s e := by
  intro h
  cases h

@[simp] theorem faults_emit {r : ρ} {s : σ} {e : ε} :
    ¬ Faults (emit r : Traced ε ρ σ Unit) s e := by
  intro h
  cases h

/-- **A sequence faults in its first part, or in its second after the first completed.** -/
theorem faults_bind {x : Traced ε ρ σ α} {f : α → Traced ε ρ σ β} {s : σ} {e : ε} :
    Faults (x >>= f) s e ↔
      Faults x s e ∨ ∃ a s' tr, Runs x s a s' tr ∧ Faults (f a) s' e := by
  show (Traced.bind x f s).result = _ ↔ _
  unfold Traced.bind Faults Runs
  rcases x s with ⟨_ | a, s', tr⟩
  · simp
  · constructor
    · intro h
      exact Or.inr ⟨a, s', tr, rfl, h⟩
    · rintro (h | ⟨_, _, _, h, hf⟩)
      · cases h
      · cases h
        exact hf

/-- What faults after a completed run makes the sequence fault. -/
theorem Returns.faults_bind {x : Traced ε ρ σ α} {f : α → Traced ε ρ σ β} {a : α} {s s' : σ}
    {e : ε} (h : Returns x s a s') (hf : Faults (f a) s' e) : Faults (x >>= f) s e := by
  obtain ⟨tr, hr⟩ := h
  exact Traced.faults_bind.mpr (Or.inr ⟨a, s', tr, hr, hf⟩)

theorem Returns.faults_bind_iff {x : Traced ε ρ σ α} {f : α → Traced ε ρ σ β} {a : α} {s s' : σ}
    {e : ε} (h : Returns x s a s') : Faults (x >>= f) s e ↔ Faults (f a) s' e := by
  constructor
  · intro hf
    rcases Traced.faults_bind.mp hf with hx | ⟨a', s'', tr, hr, hf⟩
    · exact absurd hx h.not_faults
    · obtain ⟨tr', hr'⟩ := h
      obtain ⟨rfl, rfl, _⟩ := hr.unique hr'
      exact hf
  · exact h.faults_bind

/-- What comes after a part that completes starts where that ends. -/
theorem Returns.state_bind {x : Traced ε ρ σ α} {f : α → Traced ε ρ σ β} {a : α} {s s' : σ}
    (h : Returns x s a s') : ((x >>= f) s).state = (f a s').state := by
  obtain ⟨tr, hr⟩ := h
  rw [hr.bind_apply]

/-- Nothing comes after a fault. -/
theorem Faults.state_bind {x : Traced ε ρ σ α} {f : α → Traced ε ρ σ β} {s : σ} {e : ε}
    (h : Faults x s e) : ((x >>= f) s).state = (x s).state := by
  show (Traced.bind x f s).state = _
  unfold Traced.bind
  unfold Faults at h
  rcases hx : x s with ⟨r, s', tr⟩
  rw [hx] at h
  dsimp only at h
  rw [h]

/-- A run either completes or faults. -/
theorem runs_or_faults (x : Traced ε ρ σ α) (s : σ) :
    (∃ a s' tr, Runs x s a s' tr) ∨ ∃ e, Faults x s e := by
  unfold Runs Faults
  rcases x s with ⟨e | a, s', tr⟩
  · exact Or.inr ⟨e, rfl⟩
  · exact Or.inl ⟨a, s', tr, rfl⟩

/-- **A computation whose outcomes are known.** What it is known to return or to stop at, where one
of these is known from every state, is all that it does. -/
theorem outcome_iff {x : Traced ε ρ σ α} {s : σ} {ret : α → σ → Prop} {stop : ε → Prop}
    (hret : ∀ a s', ret a s' → Returns x s a s') (hstop : ∀ e, stop e → Faults x s e)
    (htotal : (∃ a s', ret a s') ∨ ∃ e, stop e) :
    (∀ a s', Returns x s a s' ↔ ret a s') ∧ ∀ e, Faults x s e ↔ stop e := by
  rcases htotal with ⟨a₀, s₀, h₀⟩ | ⟨e₀, h₀⟩
  · have hr₀ := hret a₀ s₀ h₀
    refine ⟨fun a s' => ⟨?_, hret a s'⟩, fun e => ⟨?_, hstop e⟩⟩
    · intro hr
      obtain ⟨rfl, rfl⟩ := hr₀.unique hr
      exact h₀
    · intro hf
      exact absurd hf hr₀.not_faults
  · have hf₀ := hstop e₀ h₀
    refine ⟨fun a s' => ⟨?_, hret a s'⟩, fun e => ⟨?_, hstop e⟩⟩
    · intro hr
      exact absurd hf₀ hr.not_faults
    · intro hf
      rw [hf.unique hf₀]
      exact h₀

/-! ## What a run does, finished or not -/

/-- Every event of the run from `s` satisfies `P`. -/
def Emits (P : ρ → Prop) (x : Traced ε ρ σ α) (s : σ) : Prop := ∀ e ∈ (x s).trace, P e

variable {P : ρ → Prop}

@[simp] theorem emits_pure {a : α} {s : σ} : Emits P (pure a : Traced ε ρ σ α) s := by
  intro e he
  cases he

@[simp] theorem emits_fail {e : ε} {s : σ} : Emits P (fail e : Traced ε ρ σ α) s := by
  intro e he
  cases he

@[simp] theorem emits_read {f : σ → α} {s : σ} : Emits P (read f : Traced ε ρ σ α) s := by
  intro e he
  cases he

@[simp] theorem emits_update {f : σ → σ} {s : σ} : Emits P (update f : Traced ε ρ σ Unit) s := by
  intro e he
  cases he

@[simp] theorem emits_emit {r : ρ} {s : σ} : Emits P (emit r : Traced ε ρ σ Unit) s ↔ P r := by
  show (∀ e ∈ [r], P e) ↔ _
  simp

theorem emits_bind {x : Traced ε ρ σ α} {f : α → Traced ε ρ σ β} {s : σ} :
    Emits P (x >>= f) s ↔
      Emits P x s ∧ ∀ a s' tr, Runs x s a s' tr → Emits P (f a) s' := by
  show (∀ e ∈ (Traced.bind x f s).trace, P e) ↔ _
  unfold Traced.bind Emits Runs
  rcases x s with ⟨_ | a, s', tr⟩
  · simp
  · constructor
    · intro h
      refine ⟨fun e he => h e (List.mem_append_left _ he), ?_⟩
      rintro _ _ _ h' e he
      cases h'
      exact h e (List.mem_append_right _ he)
    · rintro ⟨hx, hf⟩ e he
      rcases List.mem_append.mp he with he | he
      · exact hx e he
      · exact hf a s' tr rfl e he

/-- What a sequence emits whose first part completes. -/
theorem emits_bind_of_returns {x : Traced ε ρ σ α} {f : α → Traced ε ρ σ β} {a : α} {s s' : σ}
    (hx : Returns x s a s') : Emits P (x >>= f) s ↔ Emits P x s ∧ Emits P (f a) s' := by
  obtain ⟨tr, hr⟩ := hx
  rw [emits_bind]
  refine and_congr_right fun _ => ?_
  constructor
  · intro hf
    exact hf a s' tr hr
  · intro hf a' s'' tr' hr'
    obtain ⟨rfl, rfl, _⟩ := hr.unique hr'
    exact hf

theorem Runs.emits {x : Traced ε ρ σ α} {a : α} {s s' : σ} {tr : List ρ} (h : Runs x s a s' tr) :
    Emits P x s ↔ ∀ e ∈ tr, P e := by
  unfold Runs at h
  unfold Emits
  rw [h]

/-! ## The order of better answers -/

/-- `y` does exactly what `x` does from every state where `x` does not stop with `bot`. -/
def Approx (bot : ε) (x y : Traced ε ρ σ α) : Prop := ∀ s, Faults x s bot ∨ x s = y s

variable {bot : ε}

theorem Approx.refl (x : Traced ε ρ σ α) : Approx bot x x := fun _ => Or.inr rfl

theorem Approx.fail (y : Traced ε ρ σ α) : Approx bot (fail bot) y := fun _ => Or.inl rfl

theorem Approx.bind {x y : Traced ε ρ σ α} {f g : α → Traced ε ρ σ β} (h : Approx bot x y)
    (hf : ∀ a, Approx bot (f a) (g a)) : Approx bot (x >>= f) (y >>= g) := by
  intro s
  rcases h s with hx | hx
  · exact Or.inl (faults_bind.mpr (Or.inl hx))
  · rcases runs_or_faults x s with ⟨a, s', tr, hr⟩ | ⟨e, he⟩
    · have hr' : Runs y s a s' tr := by unfold Runs at *; rw [← hx]; exact hr
      rcases hf a s' with hfa | hfa
      · exact Or.inl (faults_bind.mpr (Or.inr ⟨a, s', tr, hr, hfa⟩))
      · right
        rw [hr.bind_apply, hr'.bind_apply, hfa]
    · right
      show Traced.bind x f s = Traced.bind y g s
      unfold Faults at he
      unfold Traced.bind
      rw [← hx]
      rcases hxs : x s with ⟨_ | a, s', tr⟩
      · rfl
      · rw [hxs] at he
        cases he

theorem Approx.ite {c : Prop} [Decidable c] {x x' y y' : Traced ε ρ σ α} (h : Approx bot x x')
    (h' : Approx bot y y') : Approx bot (if c then x else y) (if c then x' else y') := by
  split
  · exact h
  · exact h'

/-- A better computation completes wherever the other one does, with the same answer. -/
theorem Approx.runs {x y : Traced ε ρ σ α} {a : α} {s s' : σ} {tr : List ρ} (h : Approx bot x y)
    (hr : Runs x s a s' tr) : Runs y s a s' tr := by
  rcases h s with hx | hx
  · exact absurd hr hx.not_runs
  · unfold Runs at *
    rw [← hx]
    exact hr

/-- It stops at the same faults, other than `bot`. -/
theorem Approx.faults {x y : Traced ε ρ σ α} {s : σ} {e : ε} (h : Approx bot x y)
    (hf : Faults x s e) (he : e ≠ bot) : Faults y s e := by
  rcases h s with hx | hx
  · exact absurd (hf.unique hx) he
  · unfold Faults at *
    rw [← hx]
    exact hf

theorem Approx.returns {x y : Traced ε ρ σ α} {a : α} {s s' : σ} (h : Approx bot x y)
    (hr : Returns x s a s') : Returns y s a s' := by
  obtain ⟨tr, hr⟩ := hr
  exact ⟨tr, h.runs hr⟩

end Traced

end Vcuda
