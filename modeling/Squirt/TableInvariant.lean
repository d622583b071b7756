import Squirt.LinkPaths
import Squirt.TableModel
import Mathlib.Tactic.Linarith

/-!
# The chain invariant of `SQTable`

`Chained` is what the node array satisfies at every point of an operation, also while
the cursor still stands on the node that was just taken. `Invariant` adds that the
cursor stands on a free node and that the counter is right; it holds between
operations. A key that is not in its main position is said to be displaced. The
cursor never passes a displaced key, and no key has the place of a displaced key as
its main position. That is why relocating a displaced key loses nothing.
-/

namespace Squirt.SQTable
open LinkPaths

variable {K V : Type*} [Inhabited V]

def keyAt (t : SQTable K V) (i : ℕ) : Option K := (t.node i).key
def nextAt (t : SQTable K V) (i : ℕ) : Option ℕ := (t.node i).next
def valAt (t : SQTable K V) (i : ℕ) : V := (t.node i).val

omit [Inhabited V] in
@[simp] theorem numofnodes_setNode (t : SQTable K V) (i : ℕ) (n : HashNode K V) :
    (t.setNode i n).numofnodes = t.numofnodes := by simp [numofnodes, setNode]

theorem node_setNode (t : SQTable K V) {i : ℕ} (hi : i < t.numofnodes) (n : HashNode K V)
    (j : ℕ) : (t.setNode i n).node j = if j = i then n else t.node j := by
  simp only [numofnodes] at hi
  simp only [node, setNode, List.getD_eq_getElem?_getD, List.getElem?_set]
  split_ifs <;> grind

theorem node_of_le (t : SQTable K V) {i : ℕ} (hi : t.numofnodes ≤ i) : t.node i = emptyNode :=
  by simpa [node, List.getD_eq_getElem?_getD] using
    congrArg (Option.getD · emptyNode) (List.getElem?_eq_none hi)

theorem lt_of_key (t : SQTable K V) {i : ℕ} {k : K} (h : t.keyAt i = some k) :
    i < t.numofnodes := by
  by_contra hi
  simp [keyAt, t.node_of_le (not_lt.mp hi), emptyNode] at h

theorem lt_of_next (t : SQTable K V) {i j : ℕ} (h : t.nextAt i = some j) : i < t.numofnodes := by
  by_contra hi
  simp [nextAt, t.node_of_le (not_lt.mp hi), emptyNode] at h

omit [Inhabited V] in
theorem mainPosition_lt (hash : K → ℕ) (t : SQTable K V) (hn : 0 < t.numofnodes)
    (key : Option K) : t.mainPosition hash key < t.numofnodes := by
  have := Nat.and_le_right (n := hashObj hash key) (m := t.numofnodes - 1)
  simp only [mainPosition]
  omega

/-- What holds of the node array throughout every operation. -/
structure Chained (hash : K → ℕ) (t : SQTable K V) : Prop where
  size : ∃ e, t.numofnodes = 4 * 2 ^ e
  cursor_lt : t.firstfree < t.numofnodes
  link_range : ∀ i j, t.nextAt i = some j → t.firstfree ≤ j ∧ j < t.numofnodes
  link_cursor : ∀ i, t.nextAt i = some t.firstfree → t.keyAt t.firstfree ≠ none
  disjoint : VertexDisjoint t.nextAt
  acyclic : Acyclic t.nextAt
  keys_inj : ∀ i j k, t.keyAt i = some k → t.keyAt j = some k → i = j
  home_path : ∀ i k, t.keyAt i = some k → OnPath t.nextAt (t.mainPosition hash (some k)) i
  displaced_ge : ∀ i k, t.keyAt i = some k → t.mainPosition hash (some k) ≠ i → t.firstfree ≤ i
  displaced_home : ∀ i k, t.keyAt i = some k → t.mainPosition hash (some k) ≠ i →
    ∀ j k', t.keyAt j = some k' → t.mainPosition hash (some k') ≠ i

/-- The nodes that hold a key. -/
def liveNodes (t : SQTable K V) : Finset ℕ :=
  (Finset.range t.numofnodes).filter fun i => (t.keyAt i).isSome

/-- What holds of a table between operations. -/
structure Invariant (hash : K → ℕ) (t : SQTable K V) : Prop extends Chained hash t where
  cursor_key : t.keyAt t.firstfree = none
  cursor_next : t.nextAt t.firstfree = none
  used : t.usednodes = t.liveNodes.card

/-- A table without deletions since its allocation: whatever is not free holds a key. -/
def Fresh (t : SQTable K V) : Prop :=
  ∀ i, i < t.numofnodes → t.firstfree < i ∨ t.nextAt i ≠ none → t.keyAt i ≠ none

variable {hash : K → ℕ} {t : SQTable K V}

theorem mem_liveNodes {i : ℕ} : i ∈ t.liveNodes ↔ t.keyAt i ≠ none := by
  simp only [liveNodes, Finset.mem_filter, Finset.mem_range, Option.isSome_iff_ne_none]
  refine ⟨fun h => h.2, fun h => ⟨?_, h⟩⟩
  obtain ⟨k, hk⟩ := Option.ne_none_iff_exists'.mp h
  exact t.lt_of_key hk

theorem Chained.size_pos (h : Chained hash t) : 0 < t.numofnodes :=
  Nat.lt_of_le_of_lt (Nat.zero_le _) h.cursor_lt

theorem Chained.walk_lt (h : Chained hash t) {i : ℕ} (hi : i < t.numofnodes) {l : List ℕ}
    (hl : Walk t.nextAt i l) : ∀ j ∈ l, j < t.numofnodes := by
  induction hl with
  | last => simpa using hi
  | cons hn _ ih =>
    intro j hj
    rcases List.mem_cons.mp hj with rfl | hj
    · exact hi
    · exact ih (h.link_range _ _ hn).2 j hj

theorem Chained.walk_length_le (h : Chained hash t) {i : ℕ} (hi : i < t.numofnodes)
    {l : List ℕ} (hl : Walk t.nextAt i l) : l.length ≤ t.numofnodes := by
  have := hl.length_le h.acyclic (s := Finset.range t.numofnodes)
    (fun j hj => Finset.mem_range.mpr (h.walk_lt hi hl j hj))
  simpa using this

theorem Invariant.cursor_isolated (h : Invariant hash t) : Isolated t.nextAt t.firstfree :=
  ⟨h.cursor_next, fun i hi => h.link_cursor i hi h.cursor_key⟩

theorem Invariant.displaced_gt (h : Invariant hash t) {i : ℕ} {k : K} (hk : t.keyAt i = some k)
    (hd : t.mainPosition hash (some k) ≠ i) : t.firstfree < i := by
  refine lt_of_le_of_ne (h.displaced_ge i k hk hd) ?_
  rintro rfl
  simp [h.cursor_key] at hk

/-- Nothing has the free cursor as its main position: the path from there is the
cursor itself, and it holds no key. -/
theorem Invariant.home_ne_cursor (h : Invariant hash t) {i : ℕ} {k : K}
    (hk : t.keyAt i = some k) : t.mainPosition hash (some k) ≠ t.firstfree := by
  intro hm
  have hp := h.home_path i k hk
  rw [hm] at hp
  rcases Relation.ReflTransGen.cases_head hp with rfl | ⟨c, hc, _⟩
  · simp [h.cursor_key] at hk
  · rw [h.cursor_next] at hc
    cases hc

variable [DecidableEq K]

theorem getLoop_eq_find (key : Option K) {i : ℕ} {l : List ℕ} (hl : Walk t.nextAt i l) :
    ∀ fuel, l.length ≤ fuel →
      t.getLoop key fuel i = some (l.find? fun j => t.keyAt j = key) := by
  induction hl with
  | last hn =>
    intro fuel hf
    obtain ⟨fuel, rfl⟩ := Nat.exists_eq_succ_of_ne_zero (by simp at hf; omega : fuel ≠ 0)
    simp only [nextAt] at hn
    simp only [getLoop, hn, List.find?_cons, List.find?_nil, keyAt]
    split_ifs <;> simp_all
  | @cons x y l hn _ ih =>
    intro fuel hf
    obtain ⟨fuel, rfl⟩ := Nat.exists_eq_succ_of_ne_zero (by simp at hf; omega : fuel ≠ 0)
    simp only [nextAt] at hn
    simp only [getLoop, hn, List.find?_cons, keyAt] at ih ⊢
    split_ifs with hk
    · simp [hk]
    · simp [hk, ih fuel (by simpa using hf)]

/-- `_Get` ends, and it answers a node exactly when the key is in the table. -/
theorem Chained.get_spec (h : Chained hash t) (k : K) :
    (∃ i, t._Get hash (some k) = some (some i) ∧ t.keyAt i = some k) ∨
    (t._Get hash (some k) = some none ∧ ∀ i, t.keyAt i ≠ some k) := by
  have hm := t.mainPosition_lt hash h.size_pos (some k)
  obtain ⟨l, hl⟩ := h.acyclic.exists_walk (t.mainPosition hash (some k))
  have hg := getLoop_eq_find (some k) hl _ (h.walk_length_le hm hl)
  cases hf : l.find? (fun j => decide (t.keyAt j = some k)) with
  | some i =>
    left
    exact ⟨i, by rw [_Get, hg, hf], by simpa using List.find?_some hf⟩
  | none =>
    right
    refine ⟨by rw [_Get, hg, hf], fun i hi => ?_⟩
    have hmem := (hl.mem_iff i).mpr (h.home_path i k hi)
    simpa [hi] using List.find?_eq_none.mp hf i hmem

omit [DecidableEq K] in
theorem findPrevious_spec {mp i : ℕ} {l : List ℕ} (hl : Walk t.nextAt i l)
    (hp : OnPath t.nextAt i mp) (hne : i ≠ mp) : ∀ fuel, l.length ≤ fuel →
      ∃ prev, t.findPrevious mp fuel i = some prev ∧ t.nextAt prev = some mp := by
  induction hl with
  | last hn =>
    rcases Relation.ReflTransGen.cases_head hp with rfl | ⟨c, hc, _⟩
    · exact absurd rfl hne
    · simp [hn] at hc
  | @cons x y l hn _ ih =>
    intro fuel hf
    obtain ⟨fuel, rfl⟩ := Nat.exists_eq_succ_of_ne_zero (by simp at hf; omega : fuel ≠ 0)
    by_cases hy : y = mp
    · subst hy
      exact ⟨x, by simp [findPrevious, show (t.node x).next = some y from hn], hn⟩
    · have hyp : OnPath t.nextAt y mp := by
        rcases Relation.ReflTransGen.cases_head hp with rfl | ⟨c, hc, hcp⟩
        · exact absurd rfl hne
        · rw [hn] at hc
          exact Option.some.inj hc ▸ hcp
      obtain ⟨prev, hprev, hlink⟩ := ih hyp hy fuel (by simpa using hf)
      refine ⟨prev, ?_, hlink⟩
      simp [findPrevious, show (t.node x).next = some y from hn, hy, hprev]

end Squirt.SQTable
