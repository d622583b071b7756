import Squirt.TableOperations

/-!
# `Rehash` and the whole of `NewSlot`
-/

namespace Squirt.SQTable
open LinkPaths

variable {K V : Type*} [Inhabited V] {hash : K → ℕ} {t t' : SQTable K V} {k : K} {v : V}

theorem node_allocNodes (n i : ℕ) : (allocNodes n : SQTable K V).node i = emptyNode := by
  simp only [node, allocNodes, List.getD_eq_getElem?_getD, List.getElem?_replicate]
  split_ifs <;> rfl

theorem holds_allocNodes (n : ℕ) (k : K) (v : V) : ¬(allocNodes n : SQTable K V).Holds k v := by
  rintro ⟨i, hi, _⟩
  simp [keyAt, node_allocNodes, emptyNode] at hi

theorem invariant_allocNodes (hash : K → ℕ) (e : ℕ) :
    Invariant hash (allocNodes (4 * 2 ^ e) : SQTable K V) := by
  have hn : (allocNodes (4 * 2 ^ e) : SQTable K V).numofnodes = 4 * 2 ^ e := by
    simp [allocNodes, numofnodes]
  have hkey : ∀ i, (allocNodes (4 * 2 ^ e) : SQTable K V).keyAt i = none := fun i => by
    simp [keyAt, node_allocNodes, emptyNode]
  have hnext : ∀ i, (allocNodes (4 * 2 ^ e) : SQTable K V).nextAt i = none := fun i => by
    simp [nextAt, node_allocNodes, emptyNode]
  have hpos := Nat.one_le_two_pow (n := e)
  refine
    { size := ⟨e, hn⟩
      cursor_lt := by rw [hn]; simp only [allocNodes]; omega
      link_range := fun i j hij => by simp [hnext] at hij
      link_cursor := fun i hi => by simp [hnext] at hi
      disjoint := fun i j l hi => by simp [hnext] at hi
      acyclic := ⟨fun _ => 0, fun i j hi => by simp [hnext] at hi⟩
      keys_inj := fun i j k hi => by simp [hkey] at hi
      home_path := fun i k hi => by simp [hkey] at hi
      displaced_ge := fun i k hi => by simp [hkey] at hi
      displaced_home := fun i k hi => by simp [hkey] at hi
      cursor_key := hkey _
      cursor_next := hnext _
      used := ?_ }
  have : (allocNodes (4 * 2 ^ e) : SQTable K V).liveNodes = ∅ := by
    ext i
    simp [mem_liveNodes, hkey]
  rw [this]
  rfl

theorem fresh_allocNodes (n : ℕ) : (allocNodes n : SQTable K V).Fresh := by
  intro i hi hcase
  rcases hcase with h | h
  · simp only [allocNodes, numofnodes, List.length_replicate] at h hi
    omega
  · simp [nextAt, node_allocNodes, emptyNode] at h

variable [DecidableEq K]

theorem Invariant.newSlot_present (h : Invariant hash t) {i : ℕ} (hk : t.keyAt i = some k)
    (fuel : ℕ) (v : V) :
    newSlot hash (fuel + 1) t k v = some (t.setVal i v, false) := by
  rcases h.get_spec k with ⟨j, hj, hkj⟩ | ⟨_, habs⟩
  · obtain rfl := h.keys_inj i j k hk hkj
    simp [newSlot, hj]
  · exact absurd hk (habs i)

omit [DecidableEq K] in
theorem Invariant.updated_present (h : Invariant hash t) {i : ℕ} (hk : t.keyAt i = some k)
    (v : V) : Updated hash t (t.setVal i v) k v :=
  ⟨h.setVal (t.lt_of_key hk) v, holds_setVal h.keys_inj hk v⟩

/-- One insertion of `Rehash`: a new key into a fresh array with a node to spare. -/
theorem Invariant.newSlot_fresh (h : Invariant hash t) (hfresh : t.Fresh)
    (habs : ∀ i, t.keyAt i ≠ some k) (hroom : t.liveNodes.card + 1 < t.numofnodes)
    (fuel : ℕ) (v : V) :
    ∃ t', newSlot hash (fuel + 1) t k v = some (t', true) ∧ Updated hash t t' k v ∧ t'.Fresh ∧
      t'.numofnodes = t.numofnodes ∧ t'.liveNodes.card = t.liveNodes.card + 1 := by
  have hget : t._Get hash (some k) = some none := by
    rcases h.get_spec k with ⟨i, _, hi⟩ | ⟨hg, _⟩
    · exact absurd hi (habs i)
    · exact hg
  obtain ⟨t₁, mp, hplace, hp⟩ := h.placeKey_spec habs
  obtain ⟨ff, hff, hfr⟩ := hp.cursor_found hfresh hroom
  have hup := hp.stored h hff v
  refine ⟨t₁.stored mp v ff, ?_, hup, hfr v, ?_, ?_⟩
  · simp [newSlot, hget, hplace, hff, stored]
  · exact (numofnodes_setNode ..).trans hp.shape.numofnodes
  · rw [← hup.inv.used, ← h.used, ← hp.shape.usednodes]
    rfl

/-- What `Rehash` needs of the old array. While a key is being inserted the counter
may lag behind by one. -/
structure Rehashable (t : SQTable K V) : Prop where
  size : ∃ e, t.numofnodes = 4 * 2 ^ e
  keys_inj : ∀ i j k, t.keyAt i = some k → t.keyAt j = some k → i = j
  used : t.liveNodes.card ≤ t.usednodes + 1

omit [DecidableEq K] in
theorem Rehashable.four_le (h : Rehashable t) : 4 ≤ t.numofnodes := by
  obtain ⟨e, he⟩ := h.size
  have := Nat.one_le_two_pow (n := e)
  omega

omit [DecidableEq K] in
private theorem liveNodes_card_le (t : SQTable K V) : t.liveNodes.card ≤ t.numofnodes := by
  have := Finset.card_filter_le (Finset.range t.numofnodes) (fun i => (t.keyAt i).isSome)
  simpa [liveNodes] using this

omit [DecidableEq K] in
/-- Whatever size `Rehash` chooses is a valid one with more nodes than keys. -/
theorem Rehashable.rehashSize_spec (h : Rehashable t) {force : Bool} {n : ℕ}
    (hs : t.rehashSize force = some n) : (∃ e, n = 4 * 2 ^ e) ∧ t.liveNodes.card < n := by
  obtain ⟨e, he⟩ := h.size
  have h4 := h.four_le
  have hu := h.used
  have hl := t.liveNodes_card_le
  simp only [rehashSize, MINPOWER2, not_lt.mpr h4, if_false] at hs
  split_ifs at hs with h1 h2 h3
  · refine ⟨⟨e + 1, ?_⟩, ?_⟩
    · rw [← Option.some.inj hs, he, pow_succ]
      omega
    · have := Option.some.inj hs
      omega
  · have hn := Option.some.inj hs
    obtain ⟨e, rfl⟩ : ∃ e', e = e' + 1 := by
      cases e with
      | zero => simp at he; omega
      | succ e => exact ⟨e, rfl⟩
    rw [pow_succ] at he
    refine ⟨⟨e, by omega⟩, ?_⟩
    have := Nat.one_le_two_pow (n := e)
    omega
  · refine ⟨⟨e, by rw [← Option.some.inj hs, he]⟩, ?_⟩
    have := Option.some.inj hs
    omega

omit [DecidableEq K] in
private theorem Rehashable.rehashSize_force (h : Rehashable t) : t.rehashSize true ≠ none := by
  simp only [rehashSize, MINPOWER2, not_lt.mpr h.four_le, if_false]
  split_ifs <;> simp

/-- The body of the `Rehash` loop for the old node `i`. -/
def reinsert (hash : K → ℕ) (fuel : ℕ) (t nt : SQTable K V) (i : ℕ) : Option (SQTable K V) :=
  match (t.node i).key with
  | none => some nt
  | some k => (newSlot hash fuel nt k (t.node i).val).map Prod.fst

theorem rehash_succ (fuel : ℕ) (t : SQTable K V) (force : Bool) (h4 : 4 ≤ t.numofnodes) :
    rehash hash (fuel + 1) t force = match t.rehashSize force with
      | none => some t
      | some n => (List.range t.numofnodes).foldlM (reinsert hash fuel t) (allocNodes n) := by
  simp only [rehash, not_lt.mpr h4, if_false]
  rfl

/-- The new array after the old nodes `done` have been reinserted. -/
structure Moved (hash : K → ℕ) (t nt : SQTable K V) (n : ℕ) (done : List ℕ) : Prop where
  inv : Invariant hash nt
  fresh : nt.Fresh
  size : nt.numofnodes = n
  holds : ∀ k v, nt.Holds k v ↔ ∃ i ∈ done, t.keyAt i = some k ∧ t.valAt i = v
  live : nt.liveNodes.card = (done.filter fun i => (t.keyAt i).isSome).length

theorem Moved.step {nt : SQTable K V} {n i : ℕ} {done : List ℕ} (hm : Moved hash t nt n done)
    (hinj : ∀ i j k, t.keyAt i = some k → t.keyAt j = some k → i = j) (hi : i ∉ done)
    (hroom : (t.keyAt i).isSome → nt.liveNodes.card + 1 < n) (fuel : ℕ) :
    ∃ nt', reinsert hash (fuel + 1) t nt i = some nt' ∧ Moved hash t nt' n (done ++ [i]) := by
  cases hk : t.keyAt i with
  | none =>
    refine ⟨nt, by simp [reinsert, show (t.node i).key = none from hk], hm.inv, hm.fresh, hm.size, ?_, ?_⟩
    · intro k v
      rw [hm.holds]
      simp [or_and_right, exists_or, hk]
    · simp [hm.live, List.filter_append, hk]
  | some k =>
    have habs : ∀ j, nt.keyAt j ≠ some k := by
      intro j hj
      obtain ⟨i', hi', hki', _⟩ := (hm.holds k _).mp ⟨j, hj, rfl⟩
      exact hi (hinj i i' k hk hki' ▸ hi')
    have hr : nt.liveNodes.card + 1 < nt.numofnodes := hm.size ▸ hroom (by simp [hk])
    obtain ⟨nt', hns, hup, hfr, hsz, hlive⟩ :=
      hm.inv.newSlot_fresh hm.fresh habs hr fuel (t.valAt i)
    refine ⟨nt', ?_, hup.inv, hfr, hsz.trans hm.size, fun k' v' => ?_, ?_⟩
    · simp only [reinsert, show (t.node i).key = some k from hk]
      rw [show (t.node i).val = t.valAt i from rfl, hns]
      rfl
    · rw [hup.holds, hm.holds]
      constructor
      · rintro (⟨rfl, rfl⟩ | ⟨_, j, hj, hkv⟩)
        · exact ⟨i, by simp, hk, rfl⟩
        · exact ⟨j, by simp [hj], hkv⟩
      · rintro ⟨j, hj, hkj, hvj⟩
        by_cases hkk : k' = k
        · subst hkk
          obtain rfl := hinj i j k' hk hkj
          exact .inl ⟨rfl, hvj.symm⟩
        · refine .inr ⟨hkk, j, ?_, hkj, hvj⟩
          rcases List.mem_append.mp hj with hj | hj
          · exact hj
          · rw [List.mem_singleton.mp hj, hk] at hkj
            exact absurd (Option.some.inj hkj).symm hkk
    · rw [hlive, hm.live]
      simp [List.filter_append, hk]

variable (hash) in
theorem Moved.run {n : ℕ} (hinj : ∀ i j k, t.keyAt i = some k → t.keyAt j = some k → i = j)
    (fuel : ℕ) (todo : List ℕ) : ∀ (done : List ℕ) (nt : SQTable K V), Moved hash t nt n done →
      (done ++ todo).Nodup →
      ((done ++ todo).filter fun i => (t.keyAt i).isSome).length < n →
      ∃ nt', todo.foldlM (reinsert hash (fuel + 1) t) nt = some nt' ∧
        Moved hash t nt' n (done ++ todo) := by
  induction todo with
  | nil =>
    intro done nt hm _ _
    exact ⟨nt, rfl, by simpa using hm⟩
  | cons i todo ih =>
    intro done nt hm hnd hlen
    have hi : i ∉ done := fun hmem => (List.nodup_append.mp hnd).2.2 i hmem i (by simp) rfl
    have hroom : (t.keyAt i).isSome → nt.liveNodes.card + 1 < n := by
      intro hk
      rw [hm.live]
      simp only [List.filter_append, List.length_append, List.filter_cons, hk, if_true,
        List.length_cons] at hlen
      omega
    obtain ⟨nt₁, hstep, hm₁⟩ := hm.step hinj hi hroom fuel
    have heq : done ++ i :: todo = (done ++ [i]) ++ todo := by simp
    rw [heq] at hnd hlen ⊢
    obtain ⟨nt', hrun, hm'⟩ := ih (done ++ [i]) nt₁ hm₁ hnd hlen
    exact ⟨nt', by simp [List.foldlM_cons, hstep, hrun], hm'⟩

/-- The same entries in an array that satisfies the invariant. -/
structure SameEntries (hash : K → ℕ) (t t' : SQTable K V) : Prop where
  inv : Invariant hash t'
  holds : ∀ k v, t'.Holds k v ↔ t.Holds k v

variable (hash) in
theorem Rehashable.realloc (h : Rehashable t) {force : Bool} {n : ℕ}
    (hs : t.rehashSize force = some n) (fuel : ℕ) :
    ∃ t', rehash hash (fuel + 2) t force = some t' ∧ SameEntries hash t t' := by
  obtain ⟨⟨e, rfl⟩, hlt⟩ := h.rehashSize_spec hs
  have hempty : Moved hash t (allocNodes (4 * 2 ^ e)) (4 * 2 ^ e) [] := by
    refine ⟨invariant_allocNodes hash e, fresh_allocNodes _, by simp [allocNodes, numofnodes], ?_, ?_⟩
    · intro k v
      simp [holds_allocNodes]
    · have := (invariant_allocNodes (V := V) hash e).used
      simpa [allocNodes] using this.symm
  have hcard : ((List.range t.numofnodes).filter fun i => (t.keyAt i).isSome).length =
      t.liveNodes.card := by
    rw [liveNodes, Finset.card_def, Finset.filter_val, Finset.range_val, Multiset.range,
      Multiset.filter_coe, Multiset.coe_card]
    simp only [Bool.decide_eq_true]
  obtain ⟨t', hrun, hm⟩ := Moved.run hash h.keys_inj fuel (List.range t.numofnodes) [] _
    hempty (by simpa using List.nodup_range) (by simpa [hcard] using hlt)
  refine ⟨t', by rw [rehash_succ _ _ _ h.four_le, hs]; exact hrun, hm.inv, fun k v => ?_⟩
  rw [hm.holds]
  constructor
  · rintro ⟨i, _, hkv⟩
    exact ⟨i, hkv⟩
  · rintro ⟨i, hk, hv⟩
    exact ⟨i, by simpa using t.lt_of_key hk, hk, hv⟩

omit [DecidableEq K] in
private theorem Invariant.rehashable (h : Invariant hash t) : Rehashable t :=
  ⟨h.size, h.keys_inj, by rw [h.used]; omega⟩

section Absent

variable {t₁ : SQTable K V} {mp : ℕ}

/-- The cursor finds a free node for a new key. -/
theorem Placed.newSlot_stored (hp : Placed hash t t₁ k mp) (h : Invariant hash t)
    (hget : t._Get hash (some k) = some none) (hplace : t.placeKey hash k = some (t₁, mp)) {ff : ℕ}
    (hff : t₁.correctFirstfree t₁.firstfree = some ff) (v : V) :
    newSlot hash depth t k v = some (t₁.stored mp v ff, true) ∧
      Updated hash t (t₁.stored mp v ff) k v :=
  ⟨by simp [depth, newSlot, hget, hplace, hff, SQTable.stored], hp.stored h hff v⟩

/-- The key is already in its node when the array is reallocated, so the second search finds it
and overwrites its value. -/
theorem Placed.newSlot_rehashed (hp : Placed hash t t₁ k mp) (h : Invariant hash t)
    (hget : t._Get hash (some k) = some none) (hplace : t.placeKey hash k = some (t₁, mp))
    (hff : t₁.correctFirstfree t₁.firstfree = none) (v : V) :
    ∃ t', newSlot hash depth t k v = some (t', false) ∧ Updated hash t t' k v := by
  have hre : Rehashable { t₁ with firstfree := 0 } :=
    ⟨hp.chained.size, hp.chained.keys_inj, by
      have := hp.live
      rw [← h.used, ← hp.shape.usednodes] at this
      exact this.le⟩
  obtain ⟨n, hn⟩ := Option.ne_none_iff_exists'.mp hre.rehashSize_force
  obtain ⟨t₂, hrh, hse⟩ := hre.realloc hash hn 0
  rw [Nat.zero_add] at hrh
  obtain ⟨j, hj, _⟩ := (hse.holds k _).mpr ⟨mp, hp.key, rfl⟩
  have hup := hse.inv.updated_present hj v
  refine ⟨t₂.setVal j v, ?_, hup.inv, fun k' w => ?_⟩
  · rw [depth, newSlot, hget]
    simp only [Option.bind_some, hplace, hff, hrh]
    exact hse.inv.newSlot_present hj 1 v
  · rw [hup.holds]
    constructor
    · rintro (h1 | ⟨h1, h2⟩)
      · exact .inl h1
      · exact .inr ⟨h1, (hp.others k' w h1).mp ((hse.holds k' w).mp h2)⟩
    · rintro (h1 | ⟨h1, h2⟩)
      · exact .inl h1
      · exact .inr ⟨h1, (hse.holds k' w).mpr ((hp.others k' w h1).mpr h2)⟩

end Absent

/-- `NewSlot` ends and has exactly the effect of binding the key to the value. -/
theorem Invariant.newSlot_spec (h : Invariant hash t) (k : K) (v : V) :
    ∃ t' b, newSlot hash depth t k v = some (t', b) ∧ Updated hash t t' k v := by
  rcases h.get_spec k with ⟨i, _, hk⟩ | ⟨hget, habs⟩
  · exact ⟨_, _, h.newSlot_present hk 2 v, h.updated_present hk v⟩
  · obtain ⟨t₁, mp, hplace, hp⟩ := h.placeKey_spec habs
    cases hff : t₁.correctFirstfree t₁.firstfree with
    | some ff => exact ⟨_, _, hp.newSlot_stored h hget hplace hff v⟩
    | none =>
      obtain ⟨t', hnew, hup⟩ := hp.newSlot_rehashed h hget hplace hff v
      exact ⟨t', false, hnew, hup⟩

/-- `Rehash` between operations. -/
theorem Invariant.rehash_spec (h : Invariant hash t) (force : Bool) :
    ∃ t', rehash hash depth t force = some t' ∧ SameEntries hash t t' := by
  cases hs : t.rehashSize force with
  | none =>
    exact ⟨t, by rw [depth, rehash_succ _ _ _ h.rehashable.four_le, hs], h, fun _ _ => Iff.rfl⟩
  | some n => exact h.rehashable.realloc hash hs 1

end Squirt.SQTable
