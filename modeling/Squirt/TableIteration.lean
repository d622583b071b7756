import Squirt.TableMap

/-!
# Iterating with `Next`, and `Clone`
-/

namespace Squirt.SQTable
open LinkPaths

variable {K V : Type*} [Inhabited V] {hash : K → ℕ} {realval : V → V} {t t' : SQTable K V}
  {k : K} {v : V}

private theorem nextFrom_none (t : SQTable K V) (fuel idx : ℕ)
    (hdead : ∀ j, idx ≤ j → t.keyAt j = none) : t.nextFrom fuel idx = none := by
  induction fuel generalizing idx with
  | zero => rfl
  | succ fuel ih =>
    have hk : (t.node idx).key = none := hdead idx le_rfl
    simp only [nextFrom, hk]
    split_ifs
    · exact ih (idx + 1) fun j hj => hdead j (by omega)
    · rfl

private theorem nextFrom_some (t : SQTable K V) {i : ℕ} (hk : t.keyAt i = some k) (fuel idx : ℕ)
    (hle : idx ≤ i) (hdead : ∀ j, idx ≤ j → j < i → t.keyAt j = none) (hf : i < idx + fuel) :
    t.nextFrom fuel idx = some (i + 1, k, t.valAt i) := by
  have hi := t.lt_of_key hk
  induction fuel generalizing idx with
  | zero => omega
  | succ fuel ih =>
    have hidx : idx < t.numofnodes := by omega
    by_cases heq : idx = i
    · subst heq
      have hk' : (t.node idx).key = some k := hk
      simp [nextFrom, hidx, hk', valAt]
    · have hk' : (t.node idx).key = none := hdead idx le_rfl (by omega)
      simp only [nextFrom, hidx, if_true, hk']
      exact ih (idx + 1) (by omega) (fun j hj => hdead j (by omega)) (by omega)

/-- The entries that remain from a position on, each once, read through `f`. -/
structure Yields (t : SQTable K V) (f : V → V) (idx : ℕ) (l : List (K × V)) : Prop where
  keys_nodup : (l.map Prod.fst).Nodup
  mem_iff : ∀ k v, (k, v) ∈ l ↔ ∃ i, idx ≤ i ∧ t.keyAt i = some k ∧ v = f (t.valAt i)

variable [DecidableEq K]

variable (realval) in
omit [DecidableEq K] in
theorem Chained.iterate_from (h : Chained hash t) (weak : Bool) (d : ℕ) :
    ∀ idx fuel, t.numofnodes - idx = d → d < fuel →
      ∃ l, t.iterate realval weak fuel (some idx) = some l ∧
        t.Yields (if weak then id else realval) idx l := by
  induction d using Nat.strong_induction_on with
  | _ d ih =>
    intro idx fuel hd hf
    obtain ⟨fuel, rfl⟩ := Nat.exists_eq_succ_of_ne_zero (by omega : fuel ≠ 0)
    by_cases hlive : ∃ i, idx ≤ i ∧ t.keyAt i ≠ none
    · classical
      obtain ⟨hle, hne⟩ := Nat.find_spec hlive
      have hmin := fun j (hj : j < Nat.find hlive) => Nat.find_min hlive hj
      generalize Nat.find hlive = i at *
      obtain ⟨k, hk⟩ := Option.ne_none_iff_exists'.mp hne
      have hi := t.lt_of_key hk
      have hdead : ∀ j, idx ≤ j → j < i → t.keyAt j = none := by
        intro j h1 h2
        by_contra h3
        exact hmin j h2 ⟨h1, h3⟩
      have hnext := t.nextFrom_some hk (t.numofnodes + 1) idx hle hdead (by omega)
      obtain ⟨l, hl, hy⟩ := ih (t.numofnodes - (i + 1)) (by omega) (i + 1) fuel rfl (by omega)
      refine ⟨(k, (if weak then id else realval) (t.valAt i)) :: l, ?_, ?_, fun k' v' => ?_⟩
      · simp only [iterate, next, Option.getD_some, hnext, Option.map_some, hl]
        cases weak <;> rfl
      · refine List.nodup_cons.mpr ⟨fun hm => ?_, hy.keys_nodup⟩
        obtain ⟨⟨k', v'⟩, hmem, hkk⟩ := List.mem_map.mp hm
        obtain ⟨j, hj, hkj, _⟩ := (hy.mem_iff k' v').mp hmem
        have hki : t.keyAt i = some k' := hk.trans (congrArg some hkk.symm)
        have := h.keys_inj i j k' hki hkj
        omega
      · rw [List.mem_cons, hy.mem_iff]
        constructor
        · rintro (heq | ⟨j, hj, hkv⟩)
          · rw [Prod.mk.injEq] at heq
            exact ⟨i, hle, heq.1 ▸ hk, heq.2⟩
          · exact ⟨j, by omega, hkv⟩
        · rintro ⟨j, hj, hkj, hvj⟩
          rcases lt_trichotomy j i with hlt | rfl | hgt
          · simp [hdead j hj hlt] at hkj
          · rw [hk] at hkj
            exact .inl (by rw [hvj, Option.some.inj hkj])
          · exact .inr ⟨j, by omega, hkj, hvj⟩
    · have hdead : ∀ j, idx ≤ j → t.keyAt j = none := by
        intro j hj
        by_contra hne
        exact hlive ⟨j, hj, hne⟩
      refine ⟨[], by simp [iterate, next, nextFrom_none t _ idx hdead], by simp, fun k v => ?_⟩
      simp only [List.not_mem_nil, false_iff, not_exists, not_and]
      intro j hj hk
      simp [hdead j hj] at hk

variable (realval) in
omit [DecidableEq K] in
/-- The whole iteration, from the null position to `-1`. -/
theorem Chained.iterate_spec (h : Chained hash t) :
    ∃ l, t.iterate realval false (t.numofnodes + 1) none = some l ∧ (l.map Prod.fst).Nodup ∧
      ∀ k v, (k, v) ∈ l ↔ ∃ w, t.Holds k w ∧ v = realval w := by
  obtain ⟨l, hl, hy⟩ := h.iterate_from realval false _ 0 (t.numofnodes + 1) rfl
    (by omega)
  refine ⟨l, by simpa [iterate, next] using hl, hy.keys_nodup, fun k v => ?_⟩
  rw [hy.mem_iff]
  constructor
  · rintro ⟨i, _, hk, hv⟩
    exact ⟨_, ⟨i, hk, rfl⟩, hv⟩
  · rintro ⟨w, ⟨i, hk, rfl⟩, hv⟩
    exact ⟨i, Nat.zero_le _, hk, hv⟩

/-- Inserting a list of entries with distinct keys. -/
theorem Invariant.insert_all (l : List (K × V)) :
    ∀ nt : SQTable K V, Invariant hash nt → (l.map Prod.fst).Nodup →
      ∃ nt', l.foldlM (fun nt (e : K × V) => (newSlot hash depth nt e.1 e.2).map Prod.fst) nt =
          some nt' ∧ Invariant hash nt' ∧
        ∀ k v, nt'.Holds k v ↔ (k, v) ∈ l ∨ (k ∉ l.map Prod.fst ∧ nt.Holds k v) := by
  induction l with
  | nil =>
    intro nt h _
    exact ⟨nt, rfl, h, by simp⟩
  | cons e l ih =>
    intro nt h hnd
    obtain ⟨hne, hnd⟩ := List.nodup_cons.mp hnd
    obtain ⟨nt₁, b, hns, hup⟩ := h.newSlot_spec e.1 e.2
    obtain ⟨nt', hrun, hinv, hholds⟩ := ih nt₁ hup.inv hnd
    refine ⟨nt', by simp [List.foldlM_cons, hns, hrun], hinv, fun k v => ?_⟩
    have hkey : (k, v) ∈ l → k ∈ l.map Prod.fst := fun hm => List.mem_map.mpr ⟨_, hm, rfl⟩
    rw [hholds, hup.holds]
    simp only [List.mem_cons, List.map_cons, not_or, Prod.ext_iff]
    by_cases hk : k = e.1
    · subst hk
      simp [hne, or_comm]
    · simp [hk]

omit [DecidableEq K] in
private theorem pow2size_spec (n fuel : ℕ) : ∀ e, ∃ e', pow2size n fuel (4 * 2 ^ e) = 4 * 2 ^ e'
    := by
  induction fuel with
  | zero => exact fun e => ⟨e, rfl⟩
  | succ fuel ih =>
    intro e
    simp only [pow2size]
    split_ifs
    · have : (4 * 2 ^ e) <<< 1 = 4 * 2 ^ (e + 1) := by
        rw [Nat.shiftLeft_eq, pow_succ]
        omega
      exact this ▸ ih (e + 1)
    · exact ⟨e, rfl⟩

omit [DecidableEq K] in
theorem invariant_create (hash : K → ℕ) (n : ℕ) :
    Invariant hash (create n : SQTable K V) ∧ ∀ k v, ¬(create n : SQTable K V).Holds k v := by
  obtain ⟨e, he⟩ := pow2size_spec n n 0
  have : (create n : SQTable K V) = allocNodes (4 * 2 ^ e) := congrArg allocNodes he
  rw [this]
  exact ⟨invariant_allocNodes hash e, fun k v => holds_allocNodes _ k v⟩

variable (realval) in
/-- A clone has the entries of the original. -/
theorem Invariant.clone_spec (h : Invariant hash t) :
    ∃ t', t.clone hash realval = some t' ∧ SameEntries hash t t' := by
  obtain ⟨l, hl, hy⟩ := h.toChained.iterate_from realval true _ 0 (t.numofnodes + 1)
    rfl (by omega)
  obtain ⟨hinv, hempty⟩ := invariant_create (V := V) hash t.numofnodes
  obtain ⟨t', hrun, hinv', hholds⟩ := Invariant.insert_all l _ hinv hy.keys_nodup
  refine ⟨t', by simp [clone, hl, hrun], hinv', fun k v => ?_⟩
  rw [hholds, hy.mem_iff]
  simp only [hempty, and_false, or_false, if_true, id, Nat.zero_le, true_and]
  exact ⟨fun ⟨i, hk, hv⟩ => ⟨i, hk, hv.symm⟩, fun ⟨i, hk, hv⟩ => ⟨i, hk, hv.symm⟩⟩

end Squirt.SQTable
