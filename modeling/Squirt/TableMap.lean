import Squirt.TableRehash
import Mathlib.Data.Finmap

/-!
# The operations of `SQTable` against a finite map
-/

namespace Squirt.SQTable
open LinkPaths

variable {K V : Type*} [Inhabited V] {hash : K → ℕ} {realval : V → V} {t t' : SQTable K V}
  {k : K} {v : V} [DecidableEq K]

abbrev FinMap (K V : Type*) := Finmap fun _ : K => V

/-- The map that the table stands for. -/
def Represents (t : SQTable K V) (m : FinMap K V) : Prop :=
  ∀ k v, m.lookup k = some v ↔ t.Holds k v

variable {m : FinMap K V}

theorem Represents.lookup_none (hr : Represents t m) (habs : ∀ i, t.keyAt i ≠ some k) :
    m.lookup k = none := by
  rw [Option.eq_none_iff_forall_ne_some]
  intro v hv
  obtain ⟨i, hi, _⟩ := (hr k v).mp hv
  exact habs i hi

theorem Updated.represents (h : Updated hash t t' k v) (hr : Represents t m) :
    Represents t' (m.insert k v) := by
  intro k' w
  rw [h.holds]
  by_cases hk : k' = k
  · subst hk
    rw [Finmap.lookup_insert]
    simp [eq_comm]
  · rw [Finmap.lookup_insert_of_ne _ hk, hr k' w]
    simp [hk]

/-- Live nodes and keys of the map correspond one to one. -/
theorem Represents.card (hr : Represents t m)
    (hinj : ∀ i j k, t.keyAt i = some k → t.keyAt j = some k → i = j) :
    t.liveNodes.card = m.keys.card := by
  have himage : t.liveNodes.image t.keyAt = m.keys.image some := by
    ext o
    simp only [Finset.mem_image, mem_liveNodes, Finmap.mem_keys]
    constructor
    · rintro ⟨i, hi, rfl⟩
      obtain ⟨k, hk⟩ := Option.ne_none_iff_exists'.mp hi
      exact ⟨k, Finmap.mem_of_lookup_eq_some ((hr k _).mpr ⟨i, hk, rfl⟩), hk.symm⟩
    · rintro ⟨k, hk, rfl⟩
      obtain ⟨v, hv⟩ := Finmap.mem_iff.mp hk
      obtain ⟨i, hi, _⟩ := (hr k v).mp hv
      exact ⟨i, by simp [hi], hi⟩
  have hinjOn : Set.InjOn t.keyAt t.liveNodes := by
    intro i hi j _ hij
    obtain ⟨k, hk⟩ := Option.ne_none_iff_exists'.mp (mem_liveNodes.mp hi)
    exact hinj i j k hk (hij ▸ hk)
  rw [← Finset.card_image_of_injOn hinjOn, himage,
    Finset.card_image_of_injective _ (Option.some_injective K)]

/-- `_Get` ends for every key, also the null key. -/
theorem Chained.get_ends (h : Chained hash t) (key : Option K) : (t._Get hash key).isSome := by
  have hm := t.mainPosition_lt hash h.size_pos key
  obtain ⟨l, hl⟩ := h.acyclic.exists_walk (t.mainPosition hash key)
  rw [_Get, getLoop_eq_find key hl _ (h.walk_length_le hm hl)]
  rfl

theorem Chained.get_eq (h : Chained hash t) (hr : Represents t m) (k : K) :
    t.get hash realval (some k) = some ((m.lookup k).map realval) := by
  rcases h.get_spec k with ⟨i, hg, hk⟩ | ⟨hg, habs⟩
  · rw [(hr k (t.valAt i)).mpr ⟨i, hk, rfl⟩]
    simp [get, hg, valAt]
  · rw [hr.lookup_none habs]
    simp [get, hg]

/-- `Set` overwrites a present key and leaves the table alone otherwise. -/
theorem Invariant.set_spec (h : Invariant hash t) (hr : Represents t m) (k : K) (v : V) :
    ∃ t' b, t.set hash (some k) v = some (t', b) ∧ Invariant hash t' ∧
      Represents t' (if k ∈ m then m.insert k v else m) := by
  rcases h.get_spec k with ⟨i, hg, hk⟩ | ⟨hg, habs⟩
  · have hmem : k ∈ m := Finmap.mem_of_lookup_eq_some ((hr k _).mpr ⟨i, hk, rfl⟩)
    have hup := h.updated_present hk v
    exact ⟨_, true, by simp [set, hg], hup.inv, by simpa [hmem] using hup.represents hr⟩
  · have hmem : k ∉ m := Finmap.lookup_eq_none.mp (hr.lookup_none habs)
    exact ⟨t, false, by simp [set, hg], h, by simpa [hmem] using hr⟩

omit [DecidableEq K] in
/-- Nulling keys keeps the chains: a node without a key may stay inside a path. -/
theorem Invariant.drop_keys (h : Invariant hash t) (hn : t'.numofnodes = t.numofnodes)
    (hf : t'.firstfree = t.firstfree) (hnext : t'.nextAt = t.nextAt)
    (hkey : ∀ i, t'.keyAt i = none ∨ t'.keyAt i = t.keyAt i)
    (hused : t'.usednodes = t'.liveNodes.card) : Invariant hash t' := by
  have hpos := fun key => mainPosition_congr hash hn key
  have hold : ∀ i k, t'.keyAt i = some k → t.keyAt i = some k := by
    intro i k hi
    rcases hkey i with h0 | h0
    · simp [h0] at hi
    · exact h0 ▸ hi
  have hcur : t'.keyAt t.firstfree = none := by
    rcases hkey t.firstfree with h0 | h0
    · exact h0
    · rw [h0]; exact h.cursor_key
  refine
    { size := hn ▸ h.size
      cursor_lt := by rw [hf, hn]; exact h.cursor_lt
      link_range := by rw [hf, hn, hnext]; exact h.link_range
      link_cursor := fun i hi => absurd (hf ▸ hnext ▸ hi) (h.cursor_isolated.into i)
      disjoint := hnext ▸ h.disjoint
      acyclic := hnext ▸ h.acyclic
      keys_inj := fun i j k hi hj => h.keys_inj i j k (hold i k hi) (hold j k hj)
      home_path := fun i k hi => by rw [hpos, hnext]; exact h.home_path i k (hold i k hi)
      displaced_ge := fun i k hi hd => by
        rw [hf]
        exact h.displaced_ge i k (hold i k hi) (hpos _ ▸ hd)
      displaced_home := fun i k hi hd j k' hj => by
        rw [hpos] at hd ⊢
        exact h.displaced_home i k (hold i k hi) hd j k' (hold j k' hj)
      cursor_key := by rw [hf]; exact hcur
      cursor_next := by rw [hf, hnext]; exact h.cursor_next
      used := hused }

theorem SameEntries.represents (h : SameEntries hash t t') (hr : Represents t m) :
    Represents t' m := fun k v => (hr k v).trans (h.holds k v).symm

theorem Invariant.remove_spec (h : Invariant hash t) (hr : Represents t m) (k : K) :
    ∃ t', t.remove hash (some k) = some t' ∧ Invariant hash t' ∧ Represents t' (m.erase k) := by
  rcases h.get_spec k with ⟨i, hg, hk⟩ | ⟨hg, habs⟩
  · have hi := t.lt_of_key hk
    generalize ht₁ : ({ t.setNode i ⟨default, none, (t.node i).next⟩ with
      usednodes := t.usednodes - 1 } : SQTable K V) = t₁
    have hnode : ∀ j, t₁.node j = if j = i then ⟨default, none, t.nextAt i⟩ else t.node j := by
      intro j
      rw [← ht₁]
      exact t.node_setNode hi _ j
    have hkey : ∀ j, t₁.keyAt j = if j = i then none else t.keyAt j := by
      intro j
      simp only [keyAt, hnode]
      split_ifs <;> rfl
    have hlive : t₁.liveNodes = t.liveNodes.erase i := by
      ext j
      rw [mem_liveNodes, Finset.mem_erase, mem_liveNodes, hkey]
      split_ifs with hj <;> simp [hj]
    have hi' : i ∈ t.liveNodes := mem_liveNodes.mpr (by simp [hk])
    have hinv : Invariant hash t₁ := by
      refine h.drop_keys (by rw [← ht₁]; exact numofnodes_setNode ..) (by rw [← ht₁]; rfl) ?_ ?_ ?_
      · funext j
        simp only [nextAt, hnode]
        split_ifs with hj <;> simp [hj]
      · intro j
        rw [hkey]
        split_ifs <;> simp
      · rw [hlive, Finset.card_erase_of_mem hi', ← h.used, ← ht₁]
    obtain ⟨t₂, hrh, hse⟩ := hinv.rehash_spec false
    refine ⟨t₂, by rw [remove, hg, ← hrh, ← ht₁]; rfl, hse.inv, hse.represents fun k' v => ?_⟩
    by_cases hkk : k' = k
    · subst hkk
      rw [Finmap.lookup_erase]
      simp only [reduceCtorEq, Holds, hkey, false_iff, not_exists, not_and]
      intro j hj
      split_ifs at hj with hji
      exact absurd (h.keys_inj j i k' hj hk) hji
    · rw [Finmap.lookup_erase_ne hkk, hr k' v]
      have hval : ∀ j, j ≠ i → t₁.valAt j = t.valAt j := fun j hj => by
        simp [valAt, hnode, hj]
      constructor
      · rintro ⟨j, hj, hv⟩
        have hji : j ≠ i := by
          rintro rfl
          exact hkk (Option.some.inj (hj.symm.trans hk))
        exact ⟨j, by simp [hkey, hji, hj], by rw [hval j hji, hv]⟩
      · rintro ⟨j, hj, hv⟩
        rw [hkey] at hj
        split_ifs at hj with hji
        exact ⟨j, hj, by rw [← hval j hji, hv]⟩
  · refine ⟨t, by simp [remove, hg], h, fun k' v => ?_⟩
    by_cases hkk : k' = k
    · subst hkk
      rw [Finmap.lookup_erase]
      simp only [reduceCtorEq, Holds, false_iff, not_exists, not_and]
      exact fun j hj => absurd hj (habs j)
    · rw [Finmap.lookup_erase_ne hkk, hr k' v]

theorem Invariant.clear_spec (h : Invariant hash t) :
    ∃ t', t.clear hash = some t' ∧ Invariant hash t' ∧
      Represents t' (∅ : FinMap K V) := by
  generalize ht₁ : ({ t.clearNodes with usednodes := 0 } : SQTable K V) = t₁
  have hnode : ∀ j, t₁.node j = ⟨default, none, t.nextAt j⟩ := by
    intro j
    rw [← ht₁]
    simp only [node, nextAt, clearNodes, List.getD_eq_getElem?_getD, List.getElem?_map]
    cases t.nodes[j]? <;> rfl
  have hkey : ∀ j, t₁.keyAt j = none := fun j => by simp [keyAt, hnode]
  have hinv : Invariant hash t₁ := by
    refine h.drop_keys (by rw [← ht₁]; simp [clearNodes, numofnodes]) (by rw [← ht₁]; rfl) ?_
      (fun j => .inl (hkey j)) ?_
    · funext j
      simp [nextAt, hnode]
    · have : t₁.liveNodes = ∅ := by
        ext j
        simp [mem_liveNodes, hkey]
      rw [this, ← ht₁]
      rfl
  obtain ⟨t₂, hrh, hse⟩ := hinv.rehash_spec true
  refine ⟨t₂, by rw [clear, ht₁, hrh], hse.inv, hse.represents fun k v => ?_⟩
  simp [Holds, hkey]

end Squirt.SQTable
