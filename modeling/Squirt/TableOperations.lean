import Squirt.TablePlacement

/-!
# `NewSlot` and `Rehash` end, keep the invariant and lose no entry

`Rehash` only inserts into a fresh array that is large enough, where the cursor
cannot run out. `NewSlot` therefore nests at most one `Rehash`, and the insertion
that follows it finds the key at once.
-/

namespace Squirt.SQTable
open LinkPaths

variable {K V : Type*} [Inhabited V] {hash : K → ℕ} {t t' : SQTable K V} {k : K} {v : V}

/-- Some node holds the key with the value. -/
def Holds (t : SQTable K V) (k : K) (v : V) : Prop :=
  ∃ i, t.keyAt i = some k ∧ t.valAt i = v

/-- The result of placing `k` into `mp`: nothing else is gained or lost. -/
structure Placed (hash : K → ℕ) (t t' : SQTable K V) (k : K) (mp : ℕ) : Prop where
  chained : Chained hash t'
  shape : SameShape t t'
  key : t'.keyAt mp = some k
  others : ∀ k' v, k' ≠ k → (t'.Holds k' v ↔ t.Holds k' v)
  live : t'.liveNodes.card = t.liveNodes.card + 1
  fresh : t.Fresh → t'.Fresh

private theorem liveNodes_card_succ {x : ℕ} (hx : t.keyAt x = none)
    (hk : ∀ i, t'.keyAt i ≠ none ↔ i = x ∨ t.keyAt i ≠ none) :
    t'.liveNodes.card = t.liveNodes.card + 1 := by
  have hins : t'.liveNodes = insert x t.liveNodes := by
    ext i
    rw [mem_liveNodes, hk, Finset.mem_insert, mem_liveNodes]
  rw [hins, Finset.card_insert_of_notMem]
  rw [mem_liveNodes, not_not]
  exact hx

private theorem Invariant.placed_free (h : Invariant hash t) (habs : ∀ i, t.keyAt i ≠ some k)
    (hocc : t.keyAt (t.mainPosition hash (some k)) = none) :
    Placed hash t (t.setKey (t.mainPosition hash (some k)) (some k)) k
      (t.mainPosition hash (some k)) := by
  have hm := t.mainPosition_lt hash h.size_pos (some k)
  generalize hmp : t.mainPosition hash (some k) = mp at *
  have hs : SameShape t (t.setKey mp (some k)) := ⟨by simp [setKey], rfl, rfl⟩
  have hnext : (t.setKey mp (some k)).nextAt = t.nextAt := by
    funext i
    simp only [nextAt, setKey, t.node_setNode hm]
    split_ifs with hi <;> simp [hi]
  have hkey : (t.setKey mp (some k)).keyAt = Function.update t.keyAt mp (some k) := by
    funext i
    simp only [keyAt, setKey, t.node_setNode hm, Function.update_apply]
    split_ifs <;> rfl
  have hval : (t.setKey mp (some k)).valAt = t.valAt := by
    funext i
    simp only [valAt, setKey, t.node_setNode hm]
    split_ifs with hi <;> simp [hi]
  refine ⟨h.place_free hs habs hmp.symm hnext hkey, hs, by simp [hkey], ?_, ?_, ?_⟩
  · intro k' v hk'
    simp only [Holds, hkey, hval, Function.update_apply]
    grind
  · refine liveNodes_card_succ hocc fun i => ?_
    simp only [hkey, Function.update_apply]
    split_ifs with hi <;> simp [hi]
  · intro hf i hi
    rw [hs.numofnodes] at hi
    rw [hs.firstfree, hnext, hkey, Function.update_apply]
    split_ifs
    · simp
    · exact hf i hi

private theorem Invariant.placed_behind (h : Invariant hash t) (habs : ∀ i, t.keyAt i ≠ some k)
    {mp : ℕ} (hmp : t.mainPosition hash (some k) = mp) {k₀ : K} (hocc : t.keyAt mp = some k₀)
    (hhome : t.mainPosition hash (some k₀) = mp) :
    Placed hash t (((t.setNext t.firstfree (t.node mp).next).setNext mp (some t.firstfree)).setKey
      t.firstfree (some k)) k t.firstfree := by
  have hm : mp < t.numofnodes := t.lt_of_key hocc
  have hc := h.cursor_lt
  have hne : mp ≠ t.firstfree := by
    rintro rfl
    simp [h.cursor_key] at hocc
  generalize ht : ((t.setNext t.firstfree (t.node mp).next).setNext mp (some t.firstfree)).setKey
    t.firstfree (some k) = t₁
  have hnode : ∀ i, t₁.node i = if i = t.firstfree then ⟨t.valAt i, some k, t.nextAt mp⟩
      else if i = mp then { t.node i with next := some t.firstfree } else t.node i := by
    intro i
    rw [← ht]
    simp only [setKey, setNext, numofnodes_setNode, hc, hm, node_setNode]
    split_ifs <;> simp_all [valAt, nextAt]
  have hs : SameShape t t₁ := ⟨by simp [← ht, setKey, setNext], by rw [← ht]; rfl, by rw [← ht]; rfl⟩
  have hnext : t₁.nextAt = insertAfter t.nextAt mp t.firstfree := by
    funext i
    simp only [nextAt, hnode, insertAfter, Function.update_apply]
    split_ifs <;> simp_all
  have hkey : t₁.keyAt = Function.update t.keyAt t.firstfree (some k) := by
    funext i
    simp only [keyAt, hnode, Function.update_apply]
    split_ifs <;> simp_all
  have hval : t₁.valAt = t.valAt := by
    funext i
    simp only [valAt, hnode]
    split_ifs <;> rfl
  refine ⟨h.place_behind hs habs hmp.symm hocc hhome hnext hkey, hs, by simp [hkey], ?_, ?_, ?_⟩
  · intro k' v hk'
    have := h.cursor_key
    simp only [Holds, hkey, hval, Function.update_apply]
    grind
  · refine liveNodes_card_succ h.cursor_key fun i => ?_
    simp only [hkey, Function.update_apply]
    split_ifs with hi <;> simp [hi]
  · intro hf i hi
    rw [hs.numofnodes] at hi
    rw [hs.firstfree, hnext, hkey, insertAfter]
    simp only [Function.update_apply]
    have := hf i hi
    grind

private theorem Invariant.placed_relocate (h : Invariant hash t) (habs : ∀ i, t.keyAt i ≠ some k)
    {mp prev : ℕ} (hmp : t.mainPosition hash (some k) = mp) {k₀ : K}
    (hocc : t.keyAt mp = some k₀) (hdis : t.mainPosition hash (some k₀) ≠ mp)
    (hprev : t.nextAt prev = some mp) :
    Placed hash t (((t.setNext prev (some t.firstfree)).setNode t.firstfree
      ((t.setNext prev (some t.firstfree)).node mp)).setNode mp ⟨default, some k, none⟩) k mp := by
  have hm : mp < t.numofnodes := t.lt_of_key hocc
  have hp : prev < t.numofnodes := t.lt_of_next hprev
  have hc := h.cursor_lt
  have hne : mp ≠ t.firstfree := by
    rintro rfl
    simp [h.cursor_key] at hocc
  have hpm : prev ≠ mp := h.acyclic.next_ne hprev
  have hpc : prev ≠ t.firstfree := by
    rintro rfl
    simp [h.cursor_next] at hprev
  generalize ht : ((t.setNext prev (some t.firstfree)).setNode t.firstfree
    ((t.setNext prev (some t.firstfree)).node mp)).setNode mp ⟨default, some k, none⟩ = t₁
  have hnode : ∀ i, t₁.node i = if i = mp then ⟨default, some k, none⟩
      else if i = t.firstfree then t.node mp
      else if i = prev then { t.node i with next := some t.firstfree } else t.node i := by
    intro i
    rw [← ht]
    simp only [setNext, numofnodes_setNode, hc, hm, hp, node_setNode]
    split_ifs <;> simp_all
  have hs : SameShape t t₁ := ⟨by simp [← ht, setNext], by rw [← ht]; rfl, by rw [← ht]; rfl⟩
  have hnext : t₁.nextAt = relocate t.nextAt prev mp t.firstfree := by
    funext i
    simp only [nextAt, hnode, relocate, Function.update_apply]
    split_ifs <;> simp_all
  have hkey : t₁.keyAt =
      Function.update (Function.update t.keyAt t.firstfree (some k₀)) mp (some k) := by
    funext i
    rw [← hocc]
    simp only [keyAt, hnode, Function.update_apply]
    split_ifs <;> rfl
  have hval : t₁.valAt =
      Function.update (Function.update t.valAt t.firstfree (t.valAt mp)) mp default := by
    funext i
    simp only [valAt, hnode, Function.update_apply]
    split_ifs <;> rfl
  refine ⟨h.place_relocate hs habs hmp.symm hocc hdis hprev hnext hkey, hs, by simp [hkey], ?_, ?_, ?_⟩
  · intro k' v hk'
    have := h.cursor_key
    simp only [Holds, hkey, hval, Function.update_apply]
    constructor
    · rintro ⟨i, hi, hv⟩
      by_cases hic : i = t.firstfree
      · exact ⟨mp, by grind, by grind⟩
      · exact ⟨i, by grind, by grind⟩
    · rintro ⟨i, hi, hv⟩
      by_cases him : i = mp
      · exact ⟨t.firstfree, by grind, by grind⟩
      · exact ⟨i, by grind, by grind⟩
  · refine liveNodes_card_succ h.cursor_key fun i => ?_
    simp only [hkey, Function.update_apply]
    split_ifs with h1 h2
    · simp [h1, hocc]
    · simp [h2]
    · simp [h2]
  · intro hf i hi
    rw [hs.numofnodes] at hi
    rw [hs.firstfree, hnext, hkey, relocate]
    simp only [Function.update_apply]
    have := hf i hi
    have := hf prev hp
    grind

theorem Invariant.placeKey_spec (h : Invariant hash t) (habs : ∀ i, t.keyAt i ≠ some k) :
    ∃ t' mp, t.placeKey hash k = some (t', mp) ∧ Placed hash t t' k mp := by
  generalize hmp : t.mainPosition hash (some k) = mp
  cases hocc : t.keyAt mp with
  | none =>
    refine ⟨_, _, ?_, h.placed_free habs (hmp ▸ hocc)⟩
    simp [placeKey, hmp, show (t.node mp).key = none from hocc]
  | some k₀ =>
    have hocc' : (t.node mp).key = some k₀ := hocc
    by_cases hdis : t.mainPosition hash (some k₀) = mp
    · refine ⟨_, _, ?_, h.placed_behind habs hmp hocc hdis⟩
      simp [placeKey, hmp, hocc', hdis]
    · have hlt := h.displaced_gt hocc hdis
      have hm := t.mainPosition_lt hash h.size_pos (some k₀)
      obtain ⟨l, hl⟩ := h.acyclic.exists_walk (t.mainPosition hash (some k₀))
      obtain ⟨prev, hfind, hprev⟩ := findPrevious_spec hl (h.home_path mp k₀ hocc) hdis _
        (h.walk_length_le hm hl)
      refine ⟨_, _, ?_, h.placed_relocate habs hmp hocc hdis hprev⟩
      simp [placeKey, hmp, hocc', hlt, hdis, hfind]

/-- The cursor stops at the highest free node at or below its start. -/
theorem correctFirstfree_spec (t : SQTable K V) (i : ℕ) :
    match t.correctFirstfree i with
    | some ff => ff ≤ i ∧ t.keyAt ff = none ∧ t.nextAt ff = none ∧
        ∀ j, ff < j → j ≤ i → t.keyAt j ≠ none ∨ t.nextAt j ≠ none
    | none => ∀ j ≤ i, t.keyAt j ≠ none ∨ t.nextAt j ≠ none := by
  induction i with
  | zero =>
    unfold correctFirstfree keyAt nextAt
    split_ifs with hf
    · exact ⟨le_rfl, hf.1, hf.2, by omega⟩
    · intro j hj
      obtain rfl : j = 0 := by omega
      exact not_and_or.mp hf
  | succ i ih =>
    unfold correctFirstfree
    split_ifs with hf
    · exact ⟨le_rfl, hf.1, hf.2, by omega⟩
    · have hi : t.keyAt (i + 1) ≠ none ∨ t.nextAt (i + 1) ≠ none := not_and_or.mp hf
      cases hc : t.correctFirstfree i with
      | some ff =>
        rw [hc] at ih
        obtain ⟨h1, h2, h3, h4⟩ := ih
        refine ⟨by omega, h2, h3, fun j h5 h6 => ?_⟩
        by_cases hj : j = i + 1
        · exact hj ▸ hi
        · exact h4 j h5 (by omega)
      | none =>
        rw [hc] at ih
        intro j hj
        by_cases hj' : j = i + 1
        · exact hj' ▸ hi
        · exact ih j (by omega)

/-- Values do not matter to the chains, and the cursor may go down to a free node. -/
private theorem Chained.lower_cursor (h : Chained hash t) (hn : t'.numofnodes = t.numofnodes)
    (hkey : t'.keyAt = t.keyAt) (hnext : t'.nextAt = t.nextAt) (hle : t'.firstfree ≤ t.firstfree) :
    Chained hash t' := by
  have hpos := fun key => mainPosition_congr hash hn key
  refine
    { size := hn ▸ h.size
      cursor_lt := by rw [hn]; exact lt_of_le_of_lt hle h.cursor_lt
      link_range := fun i j hij => ?_
      link_cursor := fun i hi => ?_
      disjoint := hnext ▸ h.disjoint
      acyclic := hnext ▸ h.acyclic
      keys_inj := hkey ▸ h.keys_inj
      home_path := by simpa only [hkey, hnext, hpos] using h.home_path
      displaced_ge := fun i k hk hd => ?_
      displaced_home := by simpa only [hkey, hpos] using h.displaced_home }
  · rw [hnext] at hij
    have := h.link_range i j hij
    rw [hn]
    omega
  · rw [hnext] at hi
    have hge := (h.link_range i _ hi).1
    have heq : t'.firstfree = t.firstfree := by omega
    rw [hkey, heq]
    exact h.link_cursor i (heq ▸ hi)
  · rw [hkey] at hk
    rw [hpos] at hd
    exact hle.trans (h.displaced_ge i k hk hd)

theorem node_setVal {mp : ℕ} (hm : mp < t.numofnodes) (v : V) (i : ℕ) :
    (t.setVal mp v).node i = ⟨if i = mp then v else t.valAt i, t.keyAt i, t.nextAt i⟩ := by
  simp only [setVal, t.node_setNode hm]
  split_ifs with hi
  · simp [hi, keyAt, nextAt]
  · rfl

theorem holds_setVal {mp : ℕ} (hinj : ∀ i j k, t.keyAt i = some k → t.keyAt j = some k → i = j)
    (hk : t.keyAt mp = some k) (v : V) (k' : K) (w : V) :
    (t.setVal mp v).Holds k' w ↔ (k' = k ∧ w = v) ∨ (k' ≠ k ∧ t.Holds k' w) := by
  have hm := t.lt_of_key hk
  have hkey : ∀ i, (t.setVal mp v).keyAt i = t.keyAt i := fun i => by
    simp only [keyAt, node_setVal hm]
  have hval : ∀ i, (t.setVal mp v).valAt i = if i = mp then v else t.valAt i := fun i => by
    simp only [valAt, node_setVal hm]
  simp only [Holds, hkey, hval]
  constructor
  · rintro ⟨i, hi, hv⟩
    by_cases him : i = mp
    · grind
    · exact .inr ⟨fun hkk => him (hinj i mp k (hkk ▸ hi) hk), i, hi, by simpa [him] using hv⟩
  · rintro (⟨rfl, rfl⟩ | ⟨hne, i, hi, hv⟩)
    · exact ⟨mp, hk, by simp⟩
    · exact ⟨i, hi, by grind⟩

/-- Overwriting a value, also that of a node without a key. -/
theorem Invariant.setVal (h : Invariant hash t) {mp : ℕ} (hm : mp < t.numofnodes) (v : V) :
    Invariant hash (t.setVal mp v) := by
  have hkey : (t.setVal mp v).keyAt = t.keyAt := by
    funext i
    simp only [keyAt, node_setVal hm]
  have hnext : (t.setVal mp v).nextAt = t.nextAt := by
    funext i
    simp only [nextAt, node_setVal hm]
  refine ⟨h.toChained.lower_cursor (by simp [SQTable.setVal]) hkey hnext le_rfl, ?_, ?_, ?_⟩
  · rw [hkey]; exact h.cursor_key
  · rw [hnext]; exact h.cursor_next
  · rw [show (t.setVal mp v).usednodes = t.usednodes from rfl, h.used]
    congr 1
    ext i
    rw [mem_liveNodes, mem_liveNodes, hkey]

/-- The successful end of `NewSlot`: the value is stored, the cursor corrected. -/
def stored (t : SQTable K V) (mp : ℕ) (v : V) (ff : ℕ) : SQTable K V :=
  { t.setVal mp v with firstfree := ff, usednodes := t.usednodes + 1 }

/-- A table that differs from `t` by the entry `(k, v)`. -/
structure Updated (hash : K → ℕ) (t t' : SQTable K V) (k : K) (v : V) : Prop where
  inv : Invariant hash t'
  holds : ∀ k' w, t'.Holds k' w ↔ (k' = k ∧ w = v) ∨ (k' ≠ k ∧ t.Holds k' w)

theorem Placed.stored {mp ff : ℕ} (h : Placed hash t t' k mp) (hinv : Invariant hash t)
    (hff : t'.correctFirstfree t'.firstfree = some ff) (v : V) :
    Updated hash t (t'.stored mp v ff) k v := by
  have hm := t'.lt_of_key h.key
  have hspec := correctFirstfree_spec t' t'.firstfree
  rw [hff] at hspec
  obtain ⟨hle, hfk, hfn, _⟩ := hspec
  have hnode : (t'.stored mp v ff).node = (t'.setVal mp v).node := rfl
  have hkey : (t'.stored mp v ff).keyAt = t'.keyAt := by
    funext i
    simp only [keyAt, hnode, node_setVal hm]
  have hnext : (t'.stored mp v ff).nextAt = t'.nextAt := by
    funext i
    simp only [nextAt, hnode, node_setVal hm]
  have hch : Chained hash (t'.stored mp v ff) :=
    h.chained.lower_cursor (by simp [SQTable.stored, SQTable.setVal, numofnodes, setNode]) hkey hnext
      hle
  refine ⟨⟨hch, by rw [hkey]; exact hfk, by rw [hnext]; exact hfn, ?_⟩, fun k' w => ?_⟩
  · have hlive : (t'.stored mp v ff).liveNodes = t'.liveNodes := by
      ext i
      rw [mem_liveNodes, mem_liveNodes, hkey]
    rw [hlive, h.live, ← hinv.used, ← h.shape.usednodes]
    rfl
  · have := holds_setVal h.chained.keys_inj h.key v k' w
    rw [show (t'.stored mp v ff).Holds k' w ↔ (t'.setVal mp v).Holds k' w from Iff.rfl, this]
    constructor
    · rintro (h1 | ⟨h1, h2⟩)
      · exact .inl h1
      · exact .inr ⟨h1, (h.others k' w h1).mp h2⟩
    · rintro (h1 | ⟨h1, h2⟩)
      · exact .inl h1
      · exact .inr ⟨h1, (h.others k' w h1).mpr h2⟩

/-- In a fresh array with a node to spare the cursor does not run out. -/
theorem Placed.cursor_found {mp : ℕ} (h : Placed hash t t' k mp) (hfresh : t.Fresh)
    (hroom : t.liveNodes.card + 1 < t.numofnodes) :
    ∃ ff, t'.correctFirstfree t'.firstfree = some ff ∧ ∀ v, (t'.stored mp v ff).Fresh := by
  have hspec := correctFirstfree_spec t' t'.firstfree
  have hf' := h.fresh hfresh
  cases hff : t'.correctFirstfree t'.firstfree with
  | some ff =>
    rw [hff] at hspec
    obtain ⟨_, _, _, habove⟩ := hspec
    refine ⟨ff, rfl, fun v i hi hcase => ?_⟩
    have hm := t'.lt_of_key h.key
    have hnode : (t'.stored mp v ff).node i = (t'.setVal mp v).node i := rfl
    have hkey : (t'.stored mp v ff).keyAt i = t'.keyAt i := by simp only [keyAt, hnode, node_setVal hm]
    have hnext : (t'.stored mp v ff).nextAt i = t'.nextAt i := by
      simp only [nextAt, hnode, node_setVal hm]
    have hi' : i < t'.numofnodes := by
      simpa [SQTable.stored, SQTable.setVal, numofnodes, setNode] using hi
    rw [hkey]
    rw [hnext] at hcase
    rcases hcase with hlt | hn
    · by_cases hile : i ≤ t'.firstfree
      · rcases habove i hlt hile with hk | hn
        · exact hk
        · exact hf' i hi' (.inr hn)
      · exact hf' i hi' (.inl (not_le.mp hile))
    · exact hf' i hi' (.inr hn)
  | none =>
    -- Otherwise every node of the array would hold a key.
    rw [hff] at hspec
    have hall : t'.liveNodes = Finset.range t'.numofnodes := by
      ext i
      rw [mem_liveNodes, Finset.mem_range]
      constructor
      · intro hk
        obtain ⟨k', hk'⟩ := Option.ne_none_iff_exists'.mp hk
        exact t'.lt_of_key hk'
      · intro hi
        by_cases hile : i ≤ t'.firstfree
        · rcases hspec i hile with hk | hn
          · exact hk
          · exact hf' i hi (.inr hn)
        · exact hf' i hi (.inl (not_le.mp hile))
    have hcard := h.live
    rw [hall, Finset.card_range, h.shape.numofnodes] at hcard
    omega

end Squirt.SQTable
