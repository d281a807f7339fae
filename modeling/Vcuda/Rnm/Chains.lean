import Vcuda.Rnm.Invariants

/-!
# Operations on a chain that ends at `-1`

What linking, relinking and unlinking make of the chain they are applied to, provided it is a
proper one: a list of records in use, the last of which links to `-1`. Appending a new record and
cutting one out from behind another give a proper chain again. Two operations do not: linking a
record that is on the chain already, but not at its end, closes a cycle (`live_of_relink`), and
releasing the first record leaves the process at an empty one (`not_chain_of_unlink_head`).
-/

namespace Vcuda.RNM

open Traced Tables

variable {d : Dims} {t t' : Tables} {mem : HostMem} {h : Handle} {p : Ptr} {n : UInt64}
  {s s' : Nat} {g i j x : Int} {l m : List Int}

/-! ## Proper chains -/

/-- A process without records has an empty list. -/
theorem eq_nil_of_chain (hs : t.Sentinel) (hc : t.Chain (-1) l (-1)) : l = [] :=
  hc.eq_nil_of_not_live hs.not_live

theorem ne_nil_of_chain (hne : i ≠ -1) (hc : t.Chain i l (-1)) : l ≠ [] := by
  intro hl
  subst hl
  exact hne hc

/-- The list of a process with one record. -/
theorem chain_single (hentry : t.entry s = i) (hlive : t.Live i) (hnext : t.next i = -1) :
    t.Chain (t.entry s) [i] (-1) := ⟨hentry, hentry ▸ hlive, hentry ▸ hnext⟩

/-- A way to a record in use is a part of the chain. -/
theorem chain_split_at_live (hs : t.Sentinel) (hc : t.Chain i l (-1)) (hto : t.Chain i m x)
    (hx : t.Live x) : ∃ l₂, l = m ++ x :: l₂ ∧ t.Chain (t.next x) l₂ (-1) := by
  obtain ⟨l₂, hl, hrest⟩ := hc.extends_of_stopped hs.not_live hto
  cases l₂ with
  | nil =>
      have hx1 : x = -1 := hrest
      exact absurd (hx1 ▸ hx) hs.not_live
  | cons a l₂ =>
      obtain ⟨rfl, _, hrest⟩ := hrest
      exact ⟨l₂, hl, hrest⟩

/-- A search that finds the record `x` cuts the chain there. -/
theorem chain_split_at_hit (hs : t.Sentinel) (hc : t.Chain i l (-1))
    (hwalk : Walk t.next (t.Miss mem h) i m x) (hx : t.Live x) :
    ∃ l₂, l = m ++ x :: l₂ ∧ t.Chain (t.next x) l₂ (-1) :=
  chain_split_at_live hs hc (Chain.of_miss hwalk) hx

/-- A search of a proper chain ends on the way or behind it. -/
theorem exists_search (hs : t.Sentinel) (hc : t.Chain i l (-1)) (mem : HostMem) (h : Handle) :
    ∃ m x, m.length ≤ l.length ∧ Walk t.next (t.Miss mem h) i m x ∧
      (t.Hit mem h x ∨ ¬ t.Live x) := by
  have hsub : ∀ b, t.Miss mem h b → t.Live b := fun _ hm => hm.1
  obtain ⟨m, x, l₂, rfl, hwalk, hx, _⟩ := hc.exists_stop hs.not_live hsub
  refine ⟨m, x, ?_, hwalk, hit_or_not_live_of_not_miss hx⟩
  rw [List.length_append]
  omega

/-! ## Linking -/

/-- Linking looks at successors and emptiness only, and changes neither variables nor sizes. -/
theorem Links.ptr_bytes (hl : Links t s g t') (i : Int) :
    (t'.gmem i).ptr = (t.gmem i).ptr ∧ (t'.gmem i).bytes = (t.gmem i).bytes := by
  rcases hl with ⟨_, rfl⟩ | ⟨_, l, r, _, _, ⟨_, rfl⟩ | ⟨_, rfl⟩⟩
  · exact ⟨rfl, rfl⟩
  · exact ⟨rfl, rfl⟩
  · by_cases hir : i = r
    · subst hir
      rw [modifyGmem_gmem_self]
      exact ⟨rfl, rfl⟩
    · rw [modifyGmem_gmem_ne hir]
      exact ⟨rfl, rfl⟩

theorem Links.entry_of_ne (hl : Links t s g t') (hne : s' ≠ s) : t'.entry s' = t.entry s' :=
  entry_of_rnode (hl.rnode_of_ne hne)

/-- On a proper chain `link_rnode_gmem` starts the chain or changes its last record. -/
theorem links_of_chain (hs : t.Sentinel) (hc : t.Chain (t.entry s) l (-1))
    (hl : Links t s g t') :
    (l = [] ∧ t' = t.setEntry s g) ∨
    ∃ l₀ a, l = l₀ ++ [a] ∧
      ((a = g ∧ t' = t) ∨ (a ≠ g ∧ t' = t.modifyGmem a (·.setNext g))) := by
  rcases hl with ⟨he, rfl⟩ | ⟨he, m, r, hwalk, htail, hrest⟩
  · rw [he] at hc
    exact Or.inl ⟨eq_nil_of_chain hs hc, rfl⟩
  · right
    have hne := ne_nil_of_chain he hc
    obtain ⟨l₀, a, rfl⟩ := (List.eq_nil_or_concat' l).resolve_left hne
    obtain ⟨hwalk', htail'⟩ := walk_notTail_of_chain hs hc
    -- both walks of `last_rec` stop at a tail, so they are the same
    have hra : r = a := (hwalk.unique (not_not.mpr htail) hwalk' (not_not.mpr htail')).2
    subst hra
    exact ⟨l₀, r, rfl, hrest⟩

theorem setEntry_eq_self (he : t.entry s = g) : t.setEntry s g = t := by
  have hrn : (t.rnode s).setRecEntry g = t.rnode s := by
    rw [← he]
    rfl
  unfold Tables.setEntry Tables.putRnode
  rw [hrn, Function.update_eq_self]

theorem modifyGmem_setNext_eq_self (hi : t.next i = g) :
    t.modifyGmem i (·.setNext g) = t := by
  have hrec : (t.gmem i).setNext g = t.gmem i := by
    rw [← hi]
    rfl
  unfold Tables.modifyGmem
  dsimp only
  rw [hrec, Function.update_eq_self]

/-- Linking the index `-1`, which is what happens when no record could be had, changes nothing. -/
theorem Links.eq_of_sentinel (hl : Links t s (-1) t') : t' = t := by
  rcases hl with ⟨he, rfl⟩ | ⟨_, l, r, _, htail, ⟨_, rfl⟩ | ⟨_, rfl⟩⟩
  · exact setEntry_eq_self he
  · rfl
  · exact modifyGmem_setNext_eq_self htail.2

/-- With fuel for the whole chain, `link_rnode_gmem` returns. -/
theorem linkRnodeGmem_of_chain {fuel : Nat} (hs : t.Sentinel) (hc : t.Chain (t.entry s) l (-1))
    (hfuel : l.length < fuel) : ∃ t', Returns (linkRnodeGmem fuel s g) t () t' := by
  by_cases he : t.entry s = -1
  · exact ⟨_, linkRnodeGmem_of_entry he⟩
  · obtain ⟨l₀, a, rfl⟩ := (List.eq_nil_or_concat' l).resolve_left (ne_nil_of_chain he hc)
    obtain ⟨hwalk, htail⟩ := walk_notTail_of_chain hs hc
    have hlen : l₀.length < fuel := by
      rw [List.length_append] at hfuel
      omega
    exact ⟨_, linkRnodeGmem_of_walk he hwalk htail hlen⟩

/-- A chain up to the record `a` goes on from where `a` is made to link to. -/
theorem chain_setNext {a : Int} (hc : t.Chain i l a) (hal : a ∉ l) (ha : t.Live a) :
    (t.modifyGmem a (·.setNext j)).Chain i (l ++ [a]) j := by
  have hlive : (t.modifyGmem a (·.setNext j)).Live a := by
    rw [modifyGmem_live_self]
    exact ha
  have hlast := (Chain.modifyGmem (f := (·.setNext j)) hc hal).snoc hlive
  rw [modifyGmem_next_self] at hlast
  exact hlast

theorem chain_setNext_tail {a : Int} (hc : t.Chain i l a) (hal : a ∉ l) (ha : t.Live a)
    (htail : t.Tail j) (hne : j ≠ a) :
    (t.modifyGmem a (·.setNext j)).Chain i (l ++ [a] ++ [j]) (-1) := by
  apply (chain_setNext hc hal ha).append
  refine ⟨rfl, ?_, ?_⟩
  · rw [modifyGmem_live_ne hne]
    exact htail.1
  · rw [modifyGmem_next_ne hne]
    exact htail.2

/-- **A new record goes to the end of the chain.** -/
theorem chain_push (hs : t.Sentinel) (hc : t.Chain (t.entry s) l (-1)) (hj : ¬ t.Live j)
    (hj1 : j ≠ -1) (hp : p ≠ 0) (hl : Links (putNew t j p n) s j t') :
    t'.Chain (t'.entry s) (l ++ [j]) (-1) ∧ t'.gmem j = GMem.new p n ∧
      ∀ i, i ∉ l → i ≠ j → t'.gmem i = t.gmem i := by
  have hjl : j ∉ l := fun hmem => hj (hc.live_of_mem j hmem)
  have hs₂ : (putNew t j p n).Sentinel := hs.modifyGmem hj1
  have hc₂ : (putNew t j p n).Chain (t.entry s) l (-1) := Chain.modifyGmem hc hjl
  have hnew : (putNew t j p n).gmem j = GMem.new p n := modifyGmem_gmem_self
  rcases links_of_chain hs₂ hc₂ hl with ⟨rfl, rfl⟩ | ⟨l₀, a, rfl, ⟨rfl, _⟩ | ⟨hne, rfl⟩⟩
  · refine ⟨?_, hnew, ?_⟩
    · rw [setEntry_entry_self]
      exact ⟨rfl, tail_putNew hp⟩
    · intro i _ hij
      show (putNew t j p n).gmem i = t.gmem i
      exact modifyGmem_gmem_ne hij
  · exact absurd (by simp) hjl
  · obtain ⟨hl₀, ha, _⟩ := Walk.of_snoc hc₂
    have hal₀ : a ∉ l₀ := fun hmem =>
      List.disjoint_of_nodup_append (hc₂.nodup hs₂.not_live) hmem (by simp)
    refine ⟨chain_setNext_tail hl₀ hal₀ ha (tail_putNew hp) (Ne.symm hne), ?_, ?_⟩
    · rw [modifyGmem_gmem_ne (Ne.symm hne)]
      exact hnew
    · intro i hi hij
      have hia : i ≠ a := fun he => hi (by simp [he])
      rw [modifyGmem_gmem_ne hia]
      exact modifyGmem_gmem_ne hij

/-- Registering the last record of the chain again only rewrites it. -/
theorem links_last (hs : t.Sentinel) (hc : t.Chain (t.entry s) (l ++ [x]) (-1)) (hp : p ≠ 0)
    (hl : Links (t.modifyGmem x (·.setRes p n)) s x t') : t' = t.modifyGmem x (·.setRes p n) := by
  have hx : t.Live x := hc.live_of_mem x (by simp)
  have hs₂ : (t.modifyGmem x (·.setRes p n)).Sentinel :=
    hs.modifyGmem (ne_sentinel_of_live hs hx)
  have hc₂ : (t.modifyGmem x (·.setRes p n)).Chain (t.entry s) (l ++ [x]) (-1) :=
    Chain.setRes hc hp
  rcases links_of_chain hs₂ hc₂ hl with ⟨hnil, _⟩ | ⟨l₀, a, hla, hcase⟩
  · simp at hnil
  · have hxa : x = a := by simpa using (List.append_inj' hla rfl).2
    rcases hcase with ⟨_, ht'⟩ | ⟨hne, _⟩
    · exact ht'
    · exact absurd hxa.symm hne

/-- **Linking a record that is on the chain already, but not at its end, closes a cycle**: every
walk from the head goes on for ever. -/
theorem live_of_relink (hs : t.Sentinel) (hc : t.Chain (t.entry s) (l ++ x :: m) (-1))
    (hm : m ≠ []) (hl : Links t s x t') {l' : List Int}
    (hc' : t'.Chain (t'.entry s) l' j) : t'.Live j := by
  obtain ⟨m₀, r, rfl⟩ := (List.eq_nil_or_concat' m).resolve_left hm
  have hnodup := hc.nodup hs.not_live
  have hlist : l ++ x :: (m₀ ++ [r]) = (l ++ x :: m₀) ++ [r] := by simp
  rw [hlist] at hc hnodup
  have hr : r ∉ l ++ x :: m₀ := fun hmem =>
    List.disjoint_of_nodup_append hnodup hmem (by simp)
  have hrx : r ≠ x := fun he => hr (by simp [he])
  rcases links_of_chain hs hc hl with ⟨hnil, _⟩ | ⟨l₀, a, hla, hcase⟩
  · simp at hnil
  · obtain rfl : r = a := by simpa using (List.append_inj' hla rfl).2
    obtain rfl : t' = t.modifyGmem r (·.setNext x) := by
      rcases hcase with ⟨he, _⟩ | ⟨_, ht'⟩
      · exact absurd he hrx
      · exact ht'
    obtain ⟨hbody, hrlive, _⟩ := Walk.of_snoc hc
    have hbody' := Chain.modifyGmem (f := (·.setNext x)) hbody hr
    obtain ⟨y, hto, hcycle⟩ := hbody'.split
    obtain rfl : y = x := hcycle.1
    -- from `x` the chain leads to `r`, and `r` now leads back to `x`
    have hlive : (t.modifyGmem r (·.setNext y)).Live r := by
      rw [modifyGmem_live_self]
      exact hrlive
    have hround := hcycle.snoc hlive
    rw [modifyGmem_next_self] at hround
    by_contra hj
    obtain ⟨l'', _, hrest⟩ := Walk.extends_of_stopped hc' hj hto
    exact hj (Walk.live_of_cycle hround hrest)

/-! ## Unlinking -/

/-- **A record behind another is cut out of the chain.** -/
theorem chain_unlink (hs : t.Sentinel) (hc : t.Chain i (l ++ g :: x :: m) (-1)) :
    (unlink t g x).Chain i (l ++ g :: m) (-1) := by
  have hnodup := hc.nodup hs.not_live
  have hlist : l ++ g :: x :: m = (l ++ [g]) ++ x :: m := by simp
  rw [hlist] at hc
  obtain ⟨y, hto, hfrom⟩ := hc.split
  obtain ⟨rfl, hylive, hrest⟩ := hfrom
  obtain ⟨hl, hglive, _⟩ := Walk.of_snoc hto
  have hg1 : g ≠ -1 := ne_sentinel_of_live hs hglive
  simp only [List.nodup_append, List.nodup_cons, List.mem_cons] at hnodup
  obtain ⟨_, ⟨hg, hy, _⟩, hdisj⟩ := hnodup
  have hgy : g ≠ y := fun he => hg (Or.inl he)
  have hgm : g ∉ m := fun hmem => hg (Or.inr hmem)
  -- off the two records nothing changes
  have hframe : ∀ b, b ≠ g → b ≠ y → t.Live b →
      (unlink t g y).next b = t.next b ∧ (unlink t g y).Live b := by
    intro b hbg hby hb
    have hsame : (unlink t g y).gmem b = t.gmem b := unlink_gmem_ne hby fun _ => hbg
    unfold Tables.next Tables.Live at *
    rw [hsame]
    exact ⟨rfl, hb⟩
  have hprev := unlink_gmem_prev (t := t) hgy hg1
  have hl' : (unlink t g y).Chain i l g := by
    apply hl.congr
    intro b hb
    have hbg : b ≠ g := hdisj b hb g (Or.inl rfl)
    have hby : b ≠ y := hdisj b hb y (Or.inr (Or.inl rfl))
    exact hframe b hbg hby (hl.live_of_mem b hb)
  have hm' : (unlink t g y).Chain (t.next y) m (-1) := by
    apply hrest.congr
    intro b hb
    have hbg : b ≠ g := fun he => hgm (he ▸ hb)
    have hby : b ≠ y := fun he => hy (he ▸ hb)
    exact hframe b hbg hby (hrest.live_of_mem b hb)
  apply hl'.append
  refine ⟨rfl, ?_, ?_⟩
  · unfold Tables.Live
    rw [hprev]
    exact hglive
  · unfold Tables.next at *
    rw [hprev]
    exact hm'

/-- **Releasing the first record leaves no chain**: the process still points at the record, which is
empty now. -/
theorem not_chain_of_unlink_head (hx : t.entry s = x) (hx1 : x ≠ -1) :
    ¬ ∃ l, (unlink t g x).Chain ((unlink t g x).entry s) l (-1) := by
  rintro ⟨l, hc⟩
  rw [unlink_entry, hx] at hc
  have hempty : ¬ (unlink t g x).Live x := fun hlive => hlive (unlink_gmem_self g x).1
  obtain rfl := hc.eq_nil_of_not_live hempty
  exact hx1 hc

end Vcuda.RNM
