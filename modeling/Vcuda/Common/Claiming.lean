import Vcuda.Common.Run
import Mathlib.Data.List.Nodup

/-!
# Claiming cells without a lock

Parties `π` look for a free cell, each along a path of its own, which is given (`Step`) or found on
the way (`Moves`). A party tests the next cell of its path; when that is taken it goes on, and when
it is free it claims it, in a later step. In between, in the *window*, nothing tells the others.

Parties that have been in the window of a cell together both end up with it, and nothing else makes
two of them share a cell (`distinct_iff`). As long as that does not happen, the parties get what
they would get if they searched and claimed one after the other, in the order of their claims
(`find_of_window`, `serially_of_run`).

A system of parties is any `σ` with a view on it as a `State`; what the view does not show are
steps, too.
-/

namespace Vcuda.Claiming

/-- Where a party is. -/
inductive Place (ι : Type) where
  | scanning (rest : List ι)
  /-- The test has passed, and the claim is still to come. -/
  | window (c : ι)
  | claimed (c : ι)
  /-- The path has ended. -/
  | nowhere

/-- The cells, and where the parties are. -/
structure State (ι π : Type) where
  free : ι → Bool
  place : π → Place ι

variable {ι π : Type}

/-- The party has decided for the cell. -/
def At (v : State ι π) (p : π) (c : ι) : Prop := v.place p = .window c ∨ v.place p = .claimed c

/-- `p` comes into the window of a cell where somebody else is. -/
def Collides (v : State ι π) (p : π) (v' : State ι π) : Prop :=
  ∃ c q, q ≠ p ∧ v.place q = .window c ∧ v.place p ≠ .window c ∧ v'.place p = .window c

/-- Nobody shares a cell, and the cells show who has claimed them. -/
structure Exclusive (v : State ι π) : Prop where
  unique : ∀ p q c, At v p c → At v q c → p = q
  window_free : ∀ p c, v.place p = .window c → v.free c = true
  claimed_taken : ∀ p c, v.place p = .claimed c → v.free c = false

/-- No two parties have claimed one cell. -/
def Distinct (v : State ι π) : Prop :=
  ∀ p q c, v.place p = .claimed c → v.place q = .claimed c → p = q

/-- What the parties have come past is taken. -/
structure Behind (path : π → List ι) (v : State ι π) : Prop where
  scanning : ∀ p rest, v.place p = .scanning rest →
    ∃ pre, path p = pre ++ rest ∧ ∀ c ∈ pre, v.free c = false
  window : ∀ p c, v.place p = .window c →
    ∃ pre rest, path p = pre ++ c :: rest ∧ ∀ c' ∈ pre, v.free c' = false
  nowhere : ∀ p, v.place p = .nowhere → ∀ c ∈ path p, v.free c = false

variable {v v' : State ι π} {p q : π} {c c' : ι} {rest : List ι} {path : π → List ι}

/-- Nobody has decided yet. -/
theorem exclusive_of_scanning (h : ∀ p, ∃ rest, v.place p = .scanning rest) : Exclusive v := by
  have hnot : ∀ p c, ¬ At v p c := by
    intro p c hat
    obtain ⟨rest, hp⟩ := h p
    simp [At, hp] at hat
  exact ⟨fun p q c hp => absurd hp (hnot p c), fun p c hp => absurd (Or.inl hp) (hnot p c),
    fun p c hp => absurd (Or.inr hp) (hnot p c)⟩

theorem behind_of_start (h : ∀ p, v.place p = .scanning (path p)) : Behind path v := by
  refine ⟨?_, ?_, ?_⟩
  · intro p rest hp
    rw [h p, Place.scanning.injEq] at hp
    exact ⟨[], hp, nofun⟩
  · intro p c hp
    rw [h p] at hp
    cases hp
  · intro p hp
    rw [h p] at hp
    cases hp

/-- **A search made in one step at the moment of the claim** would find the same cell. -/
theorem find_of_window (he : Exclusive v) (hb : Behind path v) (hp : v.place p = .window c) :
    (path p).find? v.free = some c := by
  obtain ⟨pre, rest, hpath, hpre⟩ := hb.window p c hp
  have hnone : pre.find? v.free = none := by
    rw [List.find?_eq_none]
    intro c' hc'
    rw [hpre c' hc']
    exact Bool.false_ne_true
  rw [hpath, List.find?_append, hnone, Option.none_or,
    List.find?_cons_of_pos (he.window_free p c hp)]

/-- And none would be found now where none has been found. -/
theorem find_of_nowhere (hb : Behind path v) (hp : v.place p = .nowhere) :
    (path p).find? v.free = none := by
  rw [List.find?_eq_none]
  intro c hc
  rw [hb.nowhere p hp c hc]
  exact Bool.false_ne_true

/-! ## One after the other -/

section Serial

variable {σ τ : Type} {view : σ → State ι π} {s : σ} {r : List (π × σ)}
  {op : τ → π → ι → τ → Prop} {t t' : τ} {l : List (π × ι)}

/-- The cell that a step claims. -/
def claim? (v : State ι π) (p : π) (v' : State ι π) : Option ι :=
  match v.place p, v'.place p with
  | .window c, .claimed _ => some c
  | _, _ => none

theorem claim?_eq_some (h : claim? v p v' = some c) : v.place p = .window c := by
  unfold claim? at h
  split at h
  · next hp _ => rw [hp, Option.some.inj h]
  · cases h

/-- The claims of a run, in their order. -/
def claims (view : σ → State ι π) : σ → List (π × σ) → List (π × ι)
  | _, [] => []
  | s, (p, s') :: r =>
      ((claim? (view s) p (view s')).map (p, ·)).toList ++ claims view s' r

/-- Operations in one step, one after the other. -/
def Serially (op : τ → π → ι → τ → Prop) : τ → List (π × ι) → τ → Prop
  | t, [], t' => t' = t
  | t, (p, c) :: l, t' => ∃ t₁, op t p c t₁ ∧ Serially op t₁ l t'

/-- **Simulation.** If every claim is one operation, and nothing else is, then a run is the
operations of its claims, one after the other. -/
theorem serially_of_run (view : σ → State ι π) {P : σ → π → σ → Prop} {G : σ → τ → Prop}
    (hr : Along P s r) (hG : G s t)
    (hkeep : ∀ s p s' t, G s t → P s p s' → claim? (view s) p (view s') = none → G s' t)
    (hclaim : ∀ s p s' t c, G s t → P s p s' → claim? (view s) p (view s') = some c →
      ∃ t', op t p c t' ∧ G s' t') :
    ∃ t', Serially op t (claims view s r) t' ∧ G (final s r) t' := by
  induction r generalizing s t with
  | nil => exact ⟨t, rfl, hG⟩
  | cons x r ih =>
      obtain ⟨p, s'⟩ := x
      rw [claims]
      cases hc : claim? (view s) p (view s') with
      | none => exact ih hr.2 (hkeep s p s' t hG hr.1 hc)
      | some c =>
          obtain ⟨t₁, hop, hG₁⟩ := hclaim s p s' t c hG hr.1 hc
          obtain ⟨t', hrest, hG'⟩ := ih hr.2 hG₁
          exact ⟨t', ⟨t₁, hop, hrest⟩, hG'⟩

/-- Operations that take free cells take different ones. The condition `J` is one on the operations
to come. -/
theorem Serially.nodup (taken : τ → ι → Prop) (J : τ → List (π × ι) → Prop)
    (h : Serially op t l t') (hJ : J t l)
    (hop : ∀ t p c l t', J t ((p, c) :: l) → op t p c t' →
      (¬ taken t c ∧ taken t' c ∧ ∀ c', taken t c' → taken t' c') ∧ J t' l) :
    (l.map Prod.snd).Nodup := by
  have hall : (l.map Prod.snd).Nodup ∧ ∀ c ∈ l.map Prod.snd, ¬ taken t c := by
    induction l generalizing t with
    | nil => exact ⟨List.nodup_nil, nofun⟩
    | cons x l ih =>
        obtain ⟨t₁, hx, hrest⟩ := h
        obtain ⟨⟨hfree, htaken, hkeep⟩, hJ₁⟩ := hop _ _ _ _ _ hJ hx
        obtain ⟨hnodup, hnot⟩ := ih hrest hJ₁
        rw [List.map_cons]
        refine ⟨List.nodup_cons.mpr ⟨fun hmem => hnot _ hmem htaken, hnodup⟩, ?_⟩
        exact List.forall_mem_cons.mpr ⟨hfree, fun c hc ht => hnot c hc (hkeep c ht)⟩
  exact hall.1

/-- Then nobody shares a cell. -/
theorem eq_of_nodup (h : (l.map Prod.snd).Nodup) (hp : (p, c) ∈ l) (hq : (q, c) ∈ l) : p = q :=
  congrArg Prod.fst (List.inj_on_of_nodup_map h hp hq rfl)

end Serial

/-! ## One step -/

def State.goTo [DecidableEq π] (v : State ι π) (p : π) (x : Place ι) : State ι π :=
  { v with place := Function.update v.place p x }

def State.take [DecidableEq ι] (v : State ι π) (c : ι) : State ι π :=
  { v with free := Function.update v.free c false }

@[simp] theorem place_goTo_self [DecidableEq π] (x : Place ι) : (v.goTo p x).place p = x :=
  Function.update_self ..

theorem place_goTo_ne [DecidableEq π] (h : q ≠ p) (x : Place ι) :
    (v.goTo p x).place q = v.place q :=
  Function.update_of_ne h ..

/-- Going where one is. -/
theorem goTo_eq_self [DecidableEq π] {x : Place ι} (h : v.place p = x) : v.goTo p x = v := by
  unfold State.goTo
  rw [← h, Function.update_eq_self]

@[simp] theorem free_goTo [DecidableEq π] (x : Place ι) : (v.goTo p x).free = v.free := rfl

@[simp] theorem place_take [DecidableEq ι] (c : ι) : (v.take c).place = v.place := rfl

@[simp] theorem free_take_self [DecidableEq ι] (c : ι) : (v.take c).free c = false :=
  Function.update_self ..

theorem free_take_ne [DecidableEq ι] (h : c' ≠ c) :
    (v.take c).free c' = v.free c' :=
  Function.update_of_ne h ..

/-- A taken cell is never given back. -/
theorem taken_take [DecidableEq ι] (h : v.free c' = false) : (v.take c).free c' = false := by
  by_cases hc : c' = c
  · rw [hc, free_take_self]
  · rw [free_take_ne hc, h]

variable [DecidableEq ι] [DecidableEq π]

/-- What the party `p` may do on a path that is given. -/
inductive Step (v : State ι π) (p : π) : State ι π → Prop where
  | stay : Step v p v
  | pass {c : ι} {rest : List ι} (hp : v.place p = .scanning (c :: rest)) (hc : v.free c = true) :
      Step v p (v.goTo p (.window c))
  | skip {c : ι} {rest : List ι} (hp : v.place p = .scanning (c :: rest)) (hc : v.free c = false) :
      Step v p (v.goTo p (.scanning rest))
  | giveUp (hp : v.place p = .scanning []) : Step v p (v.goTo p .nowhere)
  | claim {c : ι} (hp : v.place p = .window c) : Step v p ((v.goTo p (.claimed c)).take c)

/-- Where its path ends, it may come to know a further cell. -/
inductive Moves (v : State ι π) (p : π) (v' : State ι π) : Prop where
  | step (h : Step v p v')
  | follow {c : ι} (hp : v.place p = .scanning []) (hv : v' = v.goTo p (.scanning [c]))

theorem Step.taken (h : Step v p v') (hc : v.free c = false) : v'.free c = false := by
  cases h with
  | claim hp => exact taken_take hc
  | _ => exact hc

/-- The others stay where they are. -/
theorem Step.place_ne (h : Step v p v') (hq : q ≠ p) : v'.place q = v.place q := by
  cases h with
  | stay => rfl
  | pass hp hc => exact place_goTo_ne hq _
  | skip hp hc => exact place_goTo_ne hq _
  | giveUp hp => exact place_goTo_ne hq _
  | claim hp => exact place_goTo_ne hq _

theorem Moves.place_ne (h : Moves v p v') (hq : q ≠ p) : v'.place q = v.place q := by
  cases h with
  | step h => exact h.place_ne hq
  | follow hp hv => rw [hv, place_goTo_ne hq]

/-- Who has decided for a cell gets it. -/
theorem Moves.at (h : Moves v p v') (hq : At v q c) : At v' q c := by
  by_cases hqp : q = p
  · subst hqp
    cases h with
    | follow hp hv => simp [At, hp] at hq
    | step h =>
        cases h with
        | stay => exact hq
        | pass hp hc => simp [At, hp] at hq
        | skip hp hc => simp [At, hp] at hq
        | giveUp hp => simp [At, hp] at hq
        | claim hp =>
            simp only [At, hp, Place.window.injEq, reduceCtorEq, or_false] at hq
            subst hq
            exact Or.inr (place_goTo_self _)
  · unfold At
    rwa [h.place_ne hqp]

omit [DecidableEq ι] in
/-- Where a party is that has not decided before the step. -/
theorem at_goTo {x : Place ι} (hx : ∀ c, x ≠ .window c ∧ x ≠ .claimed c) (h : At (v.goTo p x) q c) :
    At v q c := by
  by_cases hqp : q = p
  · subst hqp
    unfold At at h
    rw [place_goTo_self] at h
    rcases h with h | h
    · exact absurd h (hx c).1
    · exact absurd h (hx c).2
  · unfold At at h ⊢
    rwa [place_goTo_ne hqp] at h

omit [DecidableEq ι] in
theorem Exclusive.goTo {x : Place ι} (he : Exclusive v) (hx : ∀ c, x ≠ .window c ∧ x ≠ .claimed c) :
    Exclusive (v.goTo p x) where
  unique q q' c hq hq' := he.unique q q' c (at_goTo hx hq) (at_goTo hx hq')
  window_free q c hq := by
    by_cases hqp : q = p
    · rw [hqp, place_goTo_self] at hq
      exact absurd hq (hx c).1
    · rw [place_goTo_ne hqp] at hq
      exact he.window_free q c hq
  claimed_taken q c hq := by
    by_cases hqp : q = p
    · rw [hqp, place_goTo_self] at hq
      exact absurd hq (hx c).2
    · rw [place_goTo_ne hqp] at hq
      exact he.claimed_taken q c hq

/-- Who collides has just passed a test. -/
theorem collides_iff (h : Moves v p v') : Collides v p v' ↔
    ∃ c rest q, v.place p = .scanning (c :: rest) ∧ v.free c = true ∧ v.place q = .window c ∧
      v'.place p = .window c := by
  constructor
  · rintro ⟨c, q, _, hq, hp, hp'⟩
    cases h with
    | follow hscan hv => simp [hv] at hp'
    | step h =>
        cases h with
        | stay => exact absurd hp' hp
        | @pass c' rest hscan hfree =>
            have hc : c' = c := by simpa using hp'
            subst hc
            exact ⟨c', rest, q, hscan, hfree, hq, hp'⟩
        | skip hscan hc => simp at hp'
        | giveUp hscan => simp at hp'
        | claim hwindow => simp at hp'
  · rintro ⟨c, rest, q, hscan, _, hq, hp'⟩
    refine ⟨c, q, ?_, hq, by rw [hscan]; nofun, hp'⟩
    rintro rfl
    rw [hscan] at hq
    cases hq

/-- **A step that does not collide leaves nobody with a shared cell.** -/
theorem exclusive_step (he : Exclusive v) (h : Step v p v') (hno : ¬ Collides v p v') :
    Exclusive v' := by
  cases h with
  | stay => exact he
  | skip hp hc => exact he.goTo fun _ => ⟨nofun, nofun⟩
  | giveUp hp => exact he.goTo fun _ => ⟨nofun, nofun⟩
  | @pass c rest hp hc =>
      have hself : ∀ c', At (v.goTo p (.window c)) p c' → c' = c := by
        intro c' h
        simpa [At, eq_comm] using h
      -- nobody else is at the cell: in its window it would collide, and who has it has taken it
      have hothers : ∀ q, q ≠ p → ¬ At (v.goTo p (.window c)) q c := by
        intro q hqp hq
        unfold At at hq
        rw [place_goTo_ne hqp] at hq
        rcases hq with hq | hq
        · exact hno ⟨c, q, hqp, hq, by rw [hp]; nofun, place_goTo_self _⟩
        · rw [he.claimed_taken q c hq] at hc
          cases hc
      have hrest : ∀ q c', q ≠ p → At (v.goTo p (.window c)) q c' → At v q c' := by
        intro q c' hqp hq
        unfold At at hq ⊢
        rwa [place_goTo_ne hqp] at hq
      refine ⟨?_, ?_, ?_⟩
      · intro q q' c' hq hq'
        by_cases hqp : q = p
        · subst hqp
          by_contra hne
          rw [hself c' hq] at hq'
          exact hothers q' (Ne.symm hne) hq'
        · by_cases hqp' : q' = p
          · subst hqp'
            rw [hself c' hq'] at hq
            exact absurd hq (hothers q hqp)
          · exact he.unique q q' c' (hrest q c' hqp hq) (hrest q' c' hqp' hq')
      · intro q c' hq
        by_cases hqp : q = p
        · subst hqp
          rw [hself c' (Or.inl hq)]
          exact hc
        · rw [place_goTo_ne hqp] at hq
          exact he.window_free q c' hq
      · intro q c' hq
        by_cases hqp : q = p
        · rw [hqp, place_goTo_self] at hq
          cases hq
        · rw [place_goTo_ne hqp] at hq
          exact he.claimed_taken q c' hq
  | @claim c hp =>
      have hback : ∀ q c', At ((v.goTo p (.claimed c)).take c) q c' → At v q c' := by
        intro q c' hq
        by_cases hqp : q = p
        · subst hqp
          have hc : c = c' := by simpa [At] using hq
          exact hc ▸ Or.inl hp
        · unfold At at hq ⊢
          rwa [place_take, place_goTo_ne hqp] at hq
      refine ⟨fun q q' c' hq hq' => he.unique q q' c' (hback q c' hq) (hback q' c' hq'), ?_, ?_⟩
      · intro q c' hq
        have hqp : q ≠ p := by
          rintro rfl
          rw [place_take, place_goTo_self] at hq
          cases hq
        rw [place_take, place_goTo_ne hqp] at hq
        -- the cell of another party is another cell
        have hne : c' ≠ c := by
          rintro rfl
          exact hqp (he.unique q p c' (Or.inl hq) (Or.inl hp))
        rw [free_take_ne hne]
        exact he.window_free q c' hq
      · intro q c' hq
        by_cases hqp : q = p
        · subst hqp
          rw [place_take, place_goTo_self, Place.claimed.injEq] at hq
          rw [← hq, free_take_self]
        · rw [place_take, place_goTo_ne hqp] at hq
          exact taken_take (he.claimed_taken q c' hq)

theorem exclusive_move (he : Exclusive v) (h : Moves v p v') (hno : ¬ Collides v p v') :
    Exclusive v' := by
  cases h with
  | step h => exact exclusive_step he h hno
  | follow hp hv =>
      rw [hv]
      exact he.goTo fun _ => ⟨nofun, nofun⟩

/-! ## Who shares a cell -/

section Runs

variable {σ : Type} {view : σ → State ι π} {s : σ} {r : List (π × σ)}

/-- A run, as it is seen. -/
def Run (view : σ → State ι π) (s : σ) (r : List (π × σ)) : Prop :=
  Along (fun s p s' => Moves (view s) p (view s')) s r

/-- Nobody comes into a window where somebody else is. -/
def NoCollision (view : σ → State ι π) (s : σ) (r : List (π × σ)) : Prop :=
  Along (fun s p s' => ¬ Collides (view s) p (view s')) s r

theorem exclusive_of_run (he : Exclusive (view s)) (hr : Run view s r)
    (hno : NoCollision view s r) : ∀ s' ∈ states s r, Exclusive (view s') :=
  Along.invariant_states he (Along.and_iff.mpr ⟨hr, hno⟩)
    fun _ _ _ he h => exclusive_move he h.1 h.2

omit [DecidableEq ι] [DecidableEq π] in
theorem at_of_run (hkeep : Along (fun s _ s' => ∀ q c, At (view s) q c → At (view s') q c) s r)
    (hp : At (view s) p c) : At (view (final s r)) p c := by
  induction r generalizing s with
  | nil => exact hp
  | cons x r ih => exact ih hkeep.2 (hkeep.1 p c hp)

omit [DecidableEq ι] [DecidableEq π] in
/-- **Who collides shares a cell in the end**, whatever else happens. -/
theorem noCollision_of_distinct
    (hkeep : Along (fun s _ s' => ∀ q c, At (view s) q c → At (view s') q c) s r)
    (hdone : ∀ p c, (view (final s r)).place p ≠ .window c) (h : Distinct (view (final s r))) :
    NoCollision view s r := by
  have hclaimed : ∀ p c, At (view (final s r)) p c → (view (final s r)).place p = .claimed c :=
    fun p c h => h.resolve_left (hdone p c)
  clear hdone
  induction r generalizing s with
  | nil => trivial
  | cons x r ih =>
      obtain ⟨p, s'⟩ := x
      refine ⟨?_, ih hkeep.2 h hclaimed⟩
      -- both of them would still be there
      rintro ⟨c, q, hqp, hq, _, hp⟩
      have hrest : Along (fun s _ s' => ∀ q c, At (view s) q c → At (view s') q c) s' r := hkeep.2
      have hatq := at_of_run hrest (hkeep.1 q c (Or.inl hq))
      have hatp := at_of_run hrest (Or.inl hp)
      exact hqp (h q p c (hclaimed q c hatq) (hclaimed p c hatp))

/-- **When nobody shares a cell in the end**: exactly when no two parties have been in the window of
one cell together. -/
theorem distinct_iff (he : Exclusive (view s)) (hr : Run view s r)
    (hdone : ∀ p c, (view (final s r)).place p ≠ .window c) :
    Distinct (view (final s r)) ↔ NoCollision view s r := by
  constructor
  · exact noCollision_of_distinct (hr.mono fun _ _ _ h _ _ hq => h.at hq) hdone
  · intro hno p q c hp hq
    have hfinal := exclusive_of_run he hr hno _ (final_mem_states s r)
    exact hfinal.unique p q c (Or.inr hp) (Or.inr hq)

end Runs

/-! ## What the searches find -/

/-- The part of it that concerns one party. -/
theorem behind_of_parts (hb : Behind path v) (h : Step v p v')
    (hscanning : ∀ rest, v'.place p = .scanning rest →
      ∃ pre, path p = pre ++ rest ∧ ∀ c ∈ pre, v.free c = false)
    (hwindow : ∀ c, v'.place p = .window c →
      ∃ pre rest, path p = pre ++ c :: rest ∧ ∀ c' ∈ pre, v.free c' = false)
    (hnowhere : v'.place p = .nowhere → ∀ c ∈ path p, v.free c = false) : Behind path v' := by
  refine ⟨?_, ?_, ?_⟩
  · intro q rest hq
    obtain ⟨pre, hpath, hpre⟩ : ∃ pre, path q = pre ++ rest ∧ ∀ c ∈ pre, v.free c = false := by
      by_cases hqp : q = p
      · subst hqp
        exact hscanning rest hq
      · exact hb.scanning q rest (h.place_ne hqp ▸ hq)
    exact ⟨pre, hpath, fun c hc => h.taken (hpre c hc)⟩
  · intro q c hq
    obtain ⟨pre, rest, hpath, hpre⟩ :
        ∃ pre rest, path q = pre ++ c :: rest ∧ ∀ c' ∈ pre, v.free c' = false := by
      by_cases hqp : q = p
      · subst hqp
        exact hwindow c hq
      · exact hb.window q c (h.place_ne hqp ▸ hq)
    exact ⟨pre, rest, hpath, fun c hc => h.taken (hpre c hc)⟩
  · intro q hq c hc
    by_cases hqp : q = p
    · subst hqp
      exact h.taken (hnowhere hq c hc)
    · exact h.taken (hb.nowhere q (h.place_ne hqp ▸ hq) c hc)

theorem behind_step (hb : Behind path v) (h : Step v p v') : Behind path v' := by
  refine behind_of_parts hb h ?_ ?_ ?_
  · intro rest hrest
    cases h with
    | stay => exact hb.scanning p rest hrest
    | pass hp hc => simp at hrest
    | @skip c rest' hp hc =>
        rw [place_goTo_self, Place.scanning.injEq] at hrest
        subst hrest
        obtain ⟨pre, hpath, hpre⟩ := hb.scanning p _ hp
        refine ⟨pre ++ [c], by simp [hpath], ?_⟩
        intro c' hc'
        rcases List.mem_append.mp hc' with hc' | hc'
        · exact hpre c' hc'
        · rw [List.mem_singleton.mp hc', hc]
    | giveUp hp => simp at hrest
    | claim hp => simp at hrest
  · intro c hwindow
    cases h with
    | stay => exact hb.window p c hwindow
    | pass hp hc =>
        rw [place_goTo_self, Place.window.injEq] at hwindow
        subst hwindow
        obtain ⟨pre, hpath, hpre⟩ := hb.scanning p _ hp
        exact ⟨pre, _, hpath, hpre⟩
    | skip hp hc => simp at hwindow
    | giveUp hp => simp at hwindow
    | claim hp => simp at hwindow
  · intro hnowhere
    cases h with
    | stay => exact hb.nowhere p hnowhere
    | pass hp hc => simp at hnowhere
    | skip hp hc => simp at hnowhere
    | giveUp hp =>
        obtain ⟨pre, hpath, hpre⟩ := hb.scanning p _ hp
        rw [hpath, List.append_nil]
        exact hpre
    | claim hp => simp at hnowhere

theorem claim?_of_claim (h : v.place p = .window c) :
    claim? v p ((v.goTo p (.claimed c)).take c) = some c := by
  unfold claim?
  rw [h, place_take, place_goTo_self]

/-- A step claims what the party has claimed afterwards and had not before. -/
theorem Moves.claimed_iff (h : Moves v p v') :
    v'.place q = .claimed c ↔ v.place q = .claimed c ∨ (q = p ∧ claim? v p v' = some c) := by
  by_cases hqp : q = p
  · subst hqp
    cases h with
    | follow hp hv => simp [claim?, hp, hv]
    | step h =>
        cases h with
        | stay => cases hp : v.place q <;> simp [claim?, hp]
        | pass hp hc => simp [claim?, hp]
        | skip hp hc => simp [claim?, hp]
        | giveUp hp => simp [claim?, hp]
        | claim hp => simp [claim?, hp]
  · rw [h.place_ne hqp]
    simp [hqp]

theorem mem_claims {σ : Type} {view : σ → State ι π} {s : σ} {r : List (π × σ)}
    (hr : Run view s r) (hs : ∀ p c, (view s).place p ≠ .claimed c) :
    (p, c) ∈ claims view s r ↔ (view (final s r)).place p = .claimed c := by
  have hall : (view (final s r)).place p = .claimed c ↔
      (view s).place p = .claimed c ∨ (p, c) ∈ claims view s r := by
    clear hs
    induction r generalizing s with
    | nil => simp [claims]
    | cons x r ih =>
        obtain ⟨q, s'⟩ := x
        rw [final_cons, ih hr.2, hr.1.claimed_iff, claims, List.mem_append, or_assoc]
        have hmem : (p, c) ∈ ((claim? (view s) q (view s')).map (q, ·)).toList ↔
            p = q ∧ claim? (view s) q (view s') = some c := by
          cases claim? (view s) q (view s') with
          | none => simp
          | some c' => simp [eq_comm]
        rw [hmem]
  rw [hall]
  simp [hs p c]

/-- Each party claims once. -/
theorem nodup_claims {σ : Type} {view : σ → State ι π} {s : σ} {r : List (π × σ)}
    (hr : Run view s r) : ((claims view s r).map Prod.fst).Nodup := by
  have hall : ((claims view s r).map Prod.fst).Nodup ∧
      ∀ p ∈ (claims view s r).map Prod.fst, ∀ c, (view s).place p ≠ .claimed c := by
    induction r generalizing s with
    | nil => exact ⟨List.nodup_nil, nofun⟩
    | cons x r ih =>
        obtain ⟨q, s'⟩ := x
        obtain ⟨hnodup, hnot⟩ := ih hr.2
        have hbefore : ∀ p ∈ (claims view s' r).map Prod.fst, ∀ c, (view s).place p ≠ .claimed c :=
          fun p hp c hc => hnot p hp c (hr.1.claimed_iff.mpr (Or.inl hc))
        rw [claims]
        cases hc : claim? (view s) q (view s') with
        | none => exact ⟨hnodup, hbefore⟩
        | some c =>
            have hq : q ∉ (claims view s' r).map Prod.fst :=
              fun hmem => hnot q hmem c (hr.1.claimed_iff.mpr (Or.inr ⟨rfl, hc⟩))
            refine ⟨List.nodup_cons.mpr ⟨hq, hnodup⟩, List.forall_mem_cons.mpr ⟨?_, hbefore⟩⟩
            intro c' hplace
            rw [claim?_eq_some hc] at hplace
            cases hplace
  exact hall.1

end Vcuda.Claiming
