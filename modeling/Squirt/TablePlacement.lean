import Squirt.TableInvariant

/-!
# Placing a new key

The three ways in which `NewSlot` finds a node for an absent key: the main position
is free, its occupant is displaced and moves to the cursor, or the new key takes the
cursor and is linked in behind the occupant.
-/

namespace Squirt.SQTable
open LinkPaths

variable {K V : Type*} [Inhabited V] {hash : K → ℕ} {t t' : SQTable K V} {k : K}

omit [Inhabited V] in
variable (hash) in
theorem mainPosition_congr (hn : t'.numofnodes = t.numofnodes) (key : Option K) :
    t'.mainPosition hash key = t.mainPosition hash key := by
  simp [mainPosition, hn]

/-- The same node array up to a change of links and keys. -/
structure SameShape (t t' : SQTable K V) : Prop where
  numofnodes : t'.numofnodes = t.numofnodes
  firstfree : t'.firstfree = t.firstfree
  usednodes : t'.usednodes = t.usednodes

variable [DecidableEq K]

omit [DecidableEq K] in
theorem Invariant.place_free (h : Invariant hash t) (hs : SameShape t t')
    (habs : ∀ i, t.keyAt i ≠ some k) {mp : ℕ} (hmp : mp = t.mainPosition hash (some k))
    (hnext : t'.nextAt = t.nextAt) (hkey : t'.keyAt = Function.update t.keyAt mp (some k)) :
    Chained hash t' := by
  have hpos := fun key => mainPosition_congr hash hs.numofnodes key
  have hup : ∀ i k', t'.keyAt i = some k' → (i = mp ∧ k' = k) ∨ (i ≠ mp ∧ t.keyAt i = some k') := by
    intro i k' hi
    rw [hkey, Function.update_apply] at hi
    split_ifs at hi with him
    · exact .inl ⟨him, (Option.some.inj hi).symm⟩
    · exact .inr ⟨him, hi⟩
  refine
    { size := hs.numofnodes ▸ h.size
      cursor_lt := by rw [hs.firstfree, hs.numofnodes]; exact h.cursor_lt
      link_range := by rw [hs.firstfree, hs.numofnodes, hnext]; exact h.link_range
      link_cursor := fun i hi => ?_
      disjoint := hnext ▸ h.disjoint
      acyclic := hnext ▸ h.acyclic
      keys_inj := fun i j k' hi hj => ?_
      home_path := fun i k' hi => ?_
      displaced_ge := fun i k' hi hd => ?_
      displaced_home := fun i k' hi hd j k'' hj => ?_ }
  · rw [hnext, hs.firstfree] at hi
    exact absurd hi (h.cursor_isolated.into i)
  · have := h.keys_inj i j k'
    grind
  · rw [hpos, hnext]
    rcases hup i k' hi with ⟨rfl, rfl⟩ | ⟨_, hi⟩
    · rw [hmp]
    · exact h.home_path i k' hi
  · rw [hs.firstfree]
    rw [hpos] at hd
    rcases hup i k' hi with ⟨rfl, rfl⟩ | ⟨_, hi⟩
    · exact absurd hmp.symm hd
    · exact h.displaced_ge i k' hi hd
  · rw [hpos] at hd ⊢
    rcases hup i k' hi with ⟨rfl, rfl⟩ | ⟨hine, hi⟩
    · exact absurd hmp.symm hd
    · rcases hup j k'' hj with ⟨rfl, rfl⟩ | ⟨_, hj⟩
      · exact fun hc => hine (hc.symm.trans hmp.symm)
      · exact h.displaced_home i k' hi hd j k'' hj

omit [DecidableEq K] in
theorem Invariant.place_behind (h : Invariant hash t) (hs : SameShape t t')
    (habs : ∀ i, t.keyAt i ≠ some k) {mp : ℕ} (hmp : mp = t.mainPosition hash (some k))
    {k₀ : K} (hocc : t.keyAt mp = some k₀) (hhome : t.mainPosition hash (some k₀) = mp)
    (hnext : t'.nextAt = insertAfter t.nextAt mp t.firstfree)
    (hkey : t'.keyAt = Function.update t.keyAt t.firstfree (some k)) :
    Chained hash t' := by
  have hpos := fun key => mainPosition_congr hash hs.numofnodes key
  have hiso := h.cursor_isolated
  have hne : mp ≠ t.firstfree := by
    rintro rfl
    simp [h.cursor_key] at hocc
  have hup : ∀ i k', t'.keyAt i = some k' →
      (i = t.firstfree ∧ k' = k) ∨ (i ≠ t.firstfree ∧ t.keyAt i = some k') := by
    intro i k' hi
    rw [hkey, Function.update_apply] at hi
    split_ifs at hi with him
    · exact .inl ⟨him, (Option.some.inj hi).symm⟩
    · exact .inr ⟨him, hi⟩
  refine
    { size := hs.numofnodes ▸ h.size
      cursor_lt := by rw [hs.firstfree, hs.numofnodes]; exact h.cursor_lt
      link_range := fun i j hij => ?_
      link_cursor := fun i _ => by rw [hs.firstfree, hkey]; simp
      disjoint := hnext ▸ insertAfter_disjoint h.disjoint hiso
      acyclic := hnext ▸ insertAfter_acyclic h.acyclic hiso hne
      keys_inj := fun i j k' hi hj => ?_
      home_path := fun i k' hi => ?_
      displaced_ge := fun i k' hi hd => ?_
      displaced_home := fun i k' hi hd j k'' hj => ?_ }
  · rw [hs.firstfree, hs.numofnodes]
    rw [hnext, insertAfter, Function.update_apply, Function.update_apply] at hij
    split_ifs at hij with h1 h2
    · rw [← Option.some.inj hij]
      exact ⟨le_rfl, h.cursor_lt⟩
    · exact h.link_range _ _ hij
    · exact h.link_range _ _ hij
  · have := h.keys_inj i j k'
    grind
  · rw [hpos, hnext]
    rcases hup i k' hi with ⟨rfl, rfl⟩ | ⟨_, hi⟩
    · rw [← hmp]
      exact onPath_insertAfter_new
    · exact OnPath.insertAfter hiso hne (h.home_path i k' hi)
  · rw [hs.firstfree]
    rw [hpos] at hd
    rcases hup i k' hi with ⟨rfl, rfl⟩ | ⟨_, hi⟩
    · exact le_rfl
    · exact h.displaced_ge i k' hi hd
  · rw [hpos] at hd ⊢
    rcases hup i k' hi with ⟨rfl, rfl⟩ | ⟨_, hi⟩
    · rcases hup j k'' hj with ⟨rfl, rfl⟩ | ⟨_, hj⟩
      · exact hd
      · exact h.home_ne_cursor hj
    · rcases hup j k'' hj with ⟨rfl, rfl⟩ | ⟨_, hj⟩
      · -- The occupant of the main position is at home, so the node is not displaced.
        rintro rfl
        rw [← hmp] at hi hd
        rw [hocc] at hi
        exact hd (Option.some.inj hi ▸ hhome)
      · exact h.displaced_home i k' hi hd j k'' hj

omit [DecidableEq K] in
theorem Invariant.place_relocate (h : Invariant hash t) (hs : SameShape t t')
    (habs : ∀ i, t.keyAt i ≠ some k) {mp prev : ℕ} (hmp : mp = t.mainPosition hash (some k))
    {k₀ : K} (hocc : t.keyAt mp = some k₀) (hdis : t.mainPosition hash (some k₀) ≠ mp)
    (hprev : t.nextAt prev = some mp)
    (hnext : t'.nextAt = relocate t.nextAt prev mp t.firstfree)
    (hkey : t'.keyAt = Function.update (Function.update t.keyAt t.firstfree (some k₀)) mp (some k)) :
    Chained hash t' := by
  have hpos := fun key => mainPosition_congr hash hs.numofnodes key
  have hiso := h.cursor_isolated
  have hne : mp ≠ t.firstfree := by
    rintro rfl
    simp [h.cursor_key] at hocc
  have hup : ∀ i k', t'.keyAt i = some k' → (i = mp ∧ k' = k) ∨
      (i = t.firstfree ∧ k' = k₀) ∨ (i ≠ mp ∧ i ≠ t.firstfree ∧ t.keyAt i = some k') := by
    intro i k' hi
    rw [hkey, Function.update_apply, Function.update_apply] at hi
    split_ifs at hi with h1 h2
    · exact .inl ⟨h1, (Option.some.inj hi).symm⟩
    · exact .inr (.inl ⟨h2, (Option.some.inj hi).symm⟩)
    · exact .inr (.inr ⟨h1, h2, hi⟩)
  -- No old key has its main position at the node that the new key takes.
  have hhome : ∀ j k', t.keyAt j = some k' → t.mainPosition hash (some k') ≠ mp :=
    h.displaced_home mp k₀ hocc hdis
  refine
    { size := hs.numofnodes ▸ h.size
      cursor_lt := by rw [hs.firstfree, hs.numofnodes]; exact h.cursor_lt
      link_range := fun i j hij => ?_
      link_cursor := fun i _ => by rw [hs.firstfree, hkey]; simp [Ne.symm hne]
      disjoint := hnext ▸ relocate_disjoint h.disjoint hiso
      acyclic := hnext ▸ relocate_acyclic h.acyclic hiso hprev
      keys_inj := fun i j k' hi hj => ?_
      home_path := fun i k' hi => ?_
      displaced_ge := fun i k' hi hd => ?_
      displaced_home := fun i k' hi hd j k'' hj => ?_ }
  · rw [hs.firstfree, hs.numofnodes]
    rw [hnext, relocate, Function.update_apply, Function.update_apply, Function.update_apply] at hij
    split_ifs at hij with h1 h2 h3
    · exact h.link_range _ _ hij
    · rw [← Option.some.inj hij]
      exact ⟨le_rfl, h.cursor_lt⟩
    · exact h.link_range _ _ hij
  · have := h.keys_inj i j k'
    have hi0 := h.keys_inj i mp
    have hj0 := h.keys_inj j mp
    grind
  · rw [hpos, hnext]
    rcases hup i k' hi with ⟨rfl, rfl⟩ | ⟨rfl, rfl⟩ | ⟨h1, _, hi⟩
    · rw [hmp]
    · have := (h.home_path mp k' hocc).relocate h.acyclic h.disjoint hiso hprev hne
      simpa [hdis] using this
    · have := (h.home_path i k' hi).relocate h.acyclic h.disjoint hiso hprev hne
      simpa [hhome i k' hi, h1] using this
  · rw [hs.firstfree]
    rw [hpos] at hd
    rcases hup i k' hi with ⟨rfl, rfl⟩ | ⟨rfl, rfl⟩ | ⟨_, _, hi⟩
    · exact absurd hmp.symm hd
    · exact le_rfl
    · exact h.displaced_ge i k' hi hd
  · rw [hpos] at hd ⊢
    rcases hup i k' hi with ⟨rfl, rfl⟩ | ⟨rfl, rfl⟩ | ⟨h1, h2, hi⟩
    · exact absurd hmp.symm hd
    · rcases hup j k'' hj with ⟨rfl, rfl⟩ | ⟨rfl, rfl⟩ | ⟨_, _, hj⟩
      · rw [← hmp]
        exact hne
      · exact hd
      · exact h.home_ne_cursor hj
    · rcases hup j k'' hj with ⟨rfl, rfl⟩ | ⟨rfl, rfl⟩ | ⟨_, _, hj⟩
      · rw [← hmp]
        exact Ne.symm h1
      · exact h.displaced_home i k' hi hd mp k'' hocc
      · exact h.displaced_home i k' hi hd j k'' hj

end Squirt.SQTable
