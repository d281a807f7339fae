import Mathlib.Data.List.Nodup
import Mathlib.Logic.Function.Basic

/-!
# Walks along a successor function

Index-linked lists, free of any storage: `next : ι → ι` gives the successor of an index and `live`
says which indices a walk may pass. `Walk next live i l j` follows `next` from `i` through exactly
the live indices `l`, in order, and arrives at `j`.

`next` is a function, so a walk is determined by its start (`Walk.unique`), one that has arrived at
an index that is not live can never have repeated itself (`Walk.nodup`), and one that has gone
round a cycle never arrives (`Walk.live_of_cycle`). The splitting lemmas (`Walk.append`,
`Walk.split`, `Walk.snoc`) are what a client needs to relink, append to or cut out of a chain; the
frame lemma is `Walk.congr`.
-/

namespace Vcuda

/-- Starting at `i` and following `next`, the live indices `l` are passed in order and the walk
arrives at `j`. -/
def Walk {ι : Type} (next : ι → ι) (live : ι → Prop) : ι → List ι → ι → Prop
  | i, [], j => i = j
  | i, a :: l, j => i = a ∧ live a ∧ Walk next live (next a) l j

namespace Walk

variable {ι : Type} {next next' : ι → ι} {live live' : ι → Prop} {i j k a : ι} {l l' : List ι}

@[simp] theorem nil_iff : Walk next live i [] j ↔ i = j := Iff.rfl

@[simp] theorem cons_iff :
    Walk next live i (a :: l) j ↔ i = a ∧ live a ∧ Walk next live (next a) l j := Iff.rfl

theorem live_of_mem (h : Walk next live i l j) : ∀ b ∈ l, live b := by
  induction l generalizing i with
  | nil => intro b hb; cases hb
  | cons a l ih =>
      intro b hb
      rcases List.mem_cons.mp hb with rfl | hb
      · exact h.2.1
      · exact ih h.2.2 b hb

/-- No walk leaves an index that is not live. -/
theorem eq_nil_of_not_live (h : Walk next live i l j) (hi : ¬ live i) : l = [] := by
  cases l with
  | nil => rfl
  | cons a l =>
      obtain ⟨rfl, ha, _⟩ := h
      exact absurd ha hi

/-- A walk that arrives at a live index starts at one. -/
theorem live_start (h : Walk next live i l j) (hj : live j) : live i := by
  by_contra hi
  obtain rfl := h.eq_nil_of_not_live hi
  rw [nil_iff] at h
  rw [h] at hi
  exact hi hj

/-! ## Cutting and joining -/

theorem append (h : Walk next live i l j) (h' : Walk next live j l' k) :
    Walk next live i (l ++ l') k := by
  induction l generalizing i with
  | nil => rw [nil_iff] at h; subst h; exact h'
  | cons a l ih => exact ⟨h.1, h.2.1, ih h.2.2⟩

theorem split (h : Walk next live i (l ++ l') k) :
    ∃ j, Walk next live i l j ∧ Walk next live j l' k := by
  induction l generalizing i with
  | nil => exact ⟨i, rfl, h⟩
  | cons a l ih =>
      obtain ⟨j, hj, hk⟩ := ih h.2.2
      exact ⟨j, ⟨h.1, h.2.1, hj⟩, hk⟩

theorem snoc (h : Walk next live i l a) (ha : live a) : Walk next live i (l ++ [a]) (next a) :=
  h.append ⟨rfl, ha, rfl⟩

theorem of_snoc (h : Walk next live i (l ++ [a]) j) :
    Walk next live i l a ∧ live a ∧ next a = j := by
  obtain ⟨b, hl, hb, ha, hj⟩ := h.split
  subst hb
  exact ⟨hl, ha, hj⟩

/-- A walk that passes `a` is a walk to `a` and one on from its successor. -/
theorem split_at_mem (h : Walk next live i l j) (ha : a ∈ l) :
    ∃ l₁ l₂, l = l₁ ++ a :: l₂ ∧ Walk next live i l₁ a ∧ Walk next live (next a) l₂ j := by
  obtain ⟨l₁, l₂, rfl⟩ := List.append_of_mem ha
  obtain ⟨b, h₁, hb, _, h₂⟩ := h.split
  subst hb
  exact ⟨l₁, l₂, rfl, h₁, h₂⟩

/-- The successor of an index passed is passed as well, or it is where the walk arrives. -/
theorem next_mem (h : Walk next live i l j) (ha : a ∈ l) : next a ∈ l ∨ next a = j := by
  obtain ⟨l₁, l₂, rfl, _, h₂⟩ := h.split_at_mem ha
  cases l₂ with
  | nil => exact Or.inr h₂
  | cons b l₂ =>
      left
      rw [h₂.1]
      simp

/-! ## Frame -/

/-- Only the successors and the liveness of the indices passed matter. -/
theorem congr (h : Walk next live i l j)
    (hl : ∀ b ∈ l, next' b = next b ∧ live' b) : Walk next' live' i l j := by
  induction l generalizing i with
  | nil => exact h
  | cons a l ih =>
      have ha := hl a List.mem_cons_self
      refine ⟨h.1, ha.2, ?_⟩
      rw [ha.1]
      exact ih h.2.2 (fun b hb => hl b (List.mem_cons_of_mem _ hb))

theorem mono (h : Walk next live i l j) (hl : ∀ b ∈ l, live b → live' b) :
    Walk next live' i l j :=
  h.congr fun b hb => ⟨rfl, hl b hb (h.live_of_mem b hb)⟩

/-- A walk that only visits indices on which another successor function agrees is a walk along that
one as well. The agreement is needed only where the other one gets to. -/
theorem of_agree (h : Walk next' live' i l j)
    (hagree : ∀ l₁ b, Walk next live i l₁ b → next' b = next b ∧ (live' b → live b)) :
    Walk next live i l j := by
  induction l generalizing i with
  | nil => exact h
  | cons a l ih =>
      obtain ⟨rfl, ha, hrest⟩ := h
      obtain ⟨hnext, hlive⟩ := hagree [] i rfl
      rw [hnext] at hrest
      refine ⟨rfl, hlive ha, ih hrest ?_⟩
      intro l₁ b hb
      exact hagree (i :: l₁) b ⟨rfl, hlive ha, hb⟩

/-- A walk stays in a set that its successor function does not leave. -/
theorem mem_of_closed {S : ι → Prop} (h : Walk next live i l j) (hi : S i)
    (hnext : ∀ b, S b → live b → S (next b)) : S j := by
  induction l generalizing i with
  | nil =>
      have hij : i = j := h
      rw [← hij]
      exact hi
  | cons a l ih =>
      obtain ⟨rfl, ha, hrest⟩ := h
      exact ih hrest (hnext i hi ha)

/-! ## Determinism -/

/-- A walk that has stopped extends every other walk from the same start. -/
theorem extends_of_stopped (h : Walk next live i l j) (hj : ¬ live j)
    (h' : Walk next live i l' k) : ∃ l'', l = l' ++ l'' ∧ Walk next live k l'' j := by
  induction l' generalizing i l with
  | nil => rw [nil_iff] at h'; subst h'; exact ⟨l, rfl, h⟩
  | cons b l' ih =>
      cases l with
      | nil =>
          rw [nil_iff] at h
          subst h
          exact absurd (h'.1 ▸ h'.2.1) hj
      | cons a l =>
          obtain ⟨rfl, _, hl⟩ := h
          obtain ⟨rfl, _, hl'⟩ := h'
          obtain ⟨l'', rfl, hk⟩ := ih hl hl'
          exact ⟨l'', rfl, hk⟩

/-- **A stopped walk is determined by its start.** -/
theorem unique (h : Walk next live i l j) (hj : ¬ live j) (h' : Walk next live i l' k)
    (hk : ¬ live k) : l = l' ∧ j = k := by
  obtain ⟨l'', rfl, hl''⟩ := h.extends_of_stopped hj h'
  cases l'' with
  | nil => rw [nil_iff] at hl''; exact ⟨List.append_nil l', hl''.symm⟩
  | cons b l'' => exact absurd (hl''.1 ▸ hl''.2.1) hk

/-- **A stopped walk passes no index twice**: from the second visit it would have to go on exactly
as from the first. -/
theorem nodup (h : Walk next live i l j) (hj : ¬ live j) : l.Nodup := by
  induction l generalizing i with
  | nil => exact List.nodup_nil
  | cons a l ih =>
      refine List.nodup_cons.mpr ⟨?_, ih h.2.2⟩
      intro hmem
      obtain ⟨l₁, l₂, rfl, h₁, h₂⟩ := h.2.2.split_at_mem hmem
      have heq := (h.2.2.unique hj h₂ hj).1
      have hlen := congrArg List.length heq
      simp only [List.length_append, List.length_cons] at hlen
      omega

/-- Two walks from the same start along the same successors, each past indices of its own, are the
same walk, or one passes where the other arrives. -/
theorem compare (h : Walk next live i l j) (h' : Walk next live' i l' k) :
    (l = l' ∧ j = k) ∨ j ∈ l' ∨ k ∈ l := by
  induction l generalizing i l' with
  | nil =>
      have hij : i = j := h
      cases l' with
      | nil =>
          have hik : i = k := h'
          exact Or.inl ⟨rfl, hij.symm.trans hik⟩
      | cons b l' =>
          rw [← hij, h'.1]
          exact Or.inr (Or.inl List.mem_cons_self)
  | cons a l ih =>
      cases l' with
      | nil =>
          have hik : i = k := h'
          rw [← hik, h.1]
          exact Or.inr (Or.inr List.mem_cons_self)
      | cons b l' =>
          obtain ⟨rfl, _, hrest⟩ := h
          obtain ⟨rfl, _, hrest'⟩ := h'
          rcases ih hrest hrest' with ⟨rfl, rfl⟩ | hj | hk
          · exact Or.inl ⟨rfl, rfl⟩
          · exact Or.inr (Or.inl (List.mem_cons_of_mem i hj))
          · exact Or.inr (Or.inr (List.mem_cons_of_mem i hk))

/-- A walk that comes back to a live start never stops. -/
theorem live_of_cycle (h : Walk next live i (a :: l) i) (h' : Walk next live i l' j) :
    live j := by
  by_contra hj
  obtain ⟨l'', rfl, hl''⟩ := h'.extends_of_stopped hj h
  have heq := (h'.unique hj hl'' hj).1
  have hlen := congrArg List.length heq
  simp only [List.length_append, List.length_cons] at hlen
  omega

/-- **A stricter walk stops on the way, or where the walk does.** -/
theorem exists_stop (h : Walk next live i l j) (hj : ¬ live j) (hsub : ∀ b, live' b → live b) :
    ∃ l₁ x l₂, l = l₁ ++ l₂ ∧ Walk next live' i l₁ x ∧ ¬ live' x ∧ Walk next live x l₂ j := by
  induction l generalizing i with
  | nil =>
      rw [nil_iff] at h
      subst h
      exact ⟨[], i, [], rfl, rfl, fun hi => hj (hsub i hi), rfl⟩
  | cons a l ih =>
      by_cases ha : live' a
      · obtain ⟨l₁, x, l₂, rfl, h₁, hx, h₂⟩ := ih h.2.2
        exact ⟨a :: l₁, x, l₂, rfl, ⟨h.1, ha, h₁⟩, hx, h₂⟩
      · exact ⟨[], i, a :: l, rfl, rfl, h.1 ▸ ha, h⟩

/-- In a stopped walk the successor determines the index: two of its indices with one successor
are the same index. -/
theorem next_injOn (h : Walk next live i l j) (hj : ¬ live j) {b : ι} (ha : a ∈ l) (hb : b ∈ l)
    (hab : next a = next b) : a = b := by
  obtain ⟨l₁, l₂, hl, h₁, h₂⟩ := h.split_at_mem ha
  obtain ⟨m₁, m₂, hm, g₁, g₂⟩ := h.split_at_mem hb
  have heq : l₂ = m₂ := (h₂.unique hj (hab ▸ g₂) hj).1
  subst heq
  have := List.append_inj' (hl.symm.trans hm) rfl
  exact (List.cons.inj this.2).1

end Walk

end Vcuda
