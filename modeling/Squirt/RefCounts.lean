import Mathlib.Algebra.Order.BigOperators.Group.List
import Squirt.RefTable

/-!
# `RefTable` counts references

As long as the count of an object is only asked for while it is held, the table holds each object
as often as it was added and not released, each of its slots is in one bucket or free, and growing
loses nothing.
-/

namespace Squirt.RefTable

open ChainedBuckets

variable {Obj : Type*} {hash : Obj → ℕ} {t t' : RefTable Obj} {refs refs' : Obj → ℤ} {obj o : Obj}
  {i j f : ℕ} {k : ℤ} {l l₁ l₂ : List ℕ}

def used (t : RefTable Obj) : Set ℕ := {i | (t.node i).obj ≠ none}

def place (hash : Obj → ℕ) (t : RefTable Obj) (i : ℕ) : ℕ := (t.node i).obj.elim 0 (t.mainpos hash)

theorem mem_used (hi : (t.node i).obj = some o) : i ∈ t.used := by
  intro hnone
  rw [hi] at hnone
  cases hnone

theorem lt_of_used (hi : i ∈ t.used) : i < t.numofslots := by
  by_contra hge
  apply hi
  rw [node, List.getD_eq_getElem?_getD, List.getElem?_eq_none (not_lt.mp hge)]
  rfl

theorem place_of_obj (hi : (t.node i).obj = some o) : t.place hash i = t.mainpos hash o := by
  rw [place, hi]
  rfl

theorem mainpos_lt (hash : Obj → ℕ) (hn : 0 < t.numofslots) (obj : Obj) :
    t.mainpos hash obj < t.numofslots := by
  have hle : hash obj &&& (t.numofslots - 1) ≤ t.numofslots - 1 := Nat.and_le_right
  unfold mainpos
  omega

section Set

variable {n : RefNode Obj}

theorem node_setNode (hi : i < t.numofslots) (n : RefNode Obj) :
    (t.setNode i n).node = Function.update t.node i n := by
  funext j
  unfold setNode node numofslots at *
  by_cases hj : j = i
  · subst hj
    simp [List.getD_eq_getElem?_getD, hi]
  · simp [List.getD_eq_getElem?_getD, List.getElem?_set_ne (Ne.symm hj), Function.update_of_ne hj]

theorem numofslots_setNode (t : RefTable Obj) (i : ℕ) (n : RefNode Obj) :
    (t.setNode i n).numofslots = t.numofslots := List.length_set

theorem next_setNode (hi : i < t.numofslots) (n : RefNode Obj) :
    (t.setNode i n).next = Function.update t.next i n.next := by
  funext j
  unfold next
  rw [node_setNode hi]
  by_cases hj : j = i
  · simp [hj]
  · simp [Function.update_of_ne hj]

theorem getD_set {xs : List (Option ℕ)} (hi : i < xs.length) (p : Option ℕ) :
    (fun j => (xs.set i p).getD j none) = Function.update (fun j => xs.getD j none) i p := by
  funext j
  by_cases hj : j = i
  · subst hj
    simp [List.getD_eq_getElem?_getD, hi]
  · simp [List.getD_eq_getElem?_getD, List.getElem?_set_ne (Ne.symm hj), Function.update_of_ne hj]

end Set

/-- The table holds the objects with references, each in one node. -/
structure Valid (hash : Obj → ℕ) (t : RefTable Obj) (refs : Obj → ℤ) : Prop where
  pos : 0 < t.numofslots
  lengths : t.buckets.length = t.numofslots
  holds : Buckets t.next t.bucket t.numofslots (t.place hash) t.used
  free : ∃ l, Chain t.next t.freelist l ∧ ∀ i, i ∈ l ↔ i < t.numofslots ∧ i ∉ t.used
  unused : ∀ i, i ∉ t.used → (t.node i).refs = 0
  counted : ∀ i o, (t.node i).obj = some o → (t.node i).refs = refs o ∧ 0 < refs o
  distinct : ∀ i j o, (t.node i).obj = some o → (t.node j).obj = some o → i = j
  present : ∀ o, refs o ≠ 0 → ∃ i, (t.node i).obj = some o
  slotused : t.used.encard = t.slotused

namespace Valid

/-- While not all slots are used, one is free. -/
theorem exists_free (h : Valid hash t refs) (hroom : t.slotused < t.numofslots) :
    ∃ f l, Chain t.next t.freelist (f :: l) ∧
      ∀ i, i ∈ f :: l ↔ i < t.numofslots ∧ i ∉ t.used := by
  obtain ⟨l, hl, hmem⟩ := h.free
  cases l with
  | cons f l => exact ⟨f, l, hl, hmem⟩
  | nil =>
    have hall : (Finset.range t.numofslots : Set ℕ) ⊆ t.used := by
      intro i hi
      by_contra hno
      have hnil := (hmem i).mpr ⟨Finset.mem_range.mp (Finset.mem_coe.mp hi), hno⟩
      cases hnil
    have hle := Set.encard_le_encard hall
    rw [h.slotused, Set.encard_coe_eq_coe_finsetCard, Finset.card_range] at hle
    have hle' : t.numofslots ≤ t.slotused := by exact_mod_cast hle
    omega

/-- When all slots are used, none is free. -/
theorem freelist_eq_none (h : Valid hash t refs) (hfull : t.numofslots = t.slotused) :
    t.freelist = none ∧ ∀ i < t.numofslots, i ∈ t.used := by
  have hall : ∀ i < t.numofslots, i ∈ t.used := by
    intro i hi
    by_contra hno
    have hsub : t.used ⊆ ((Finset.range t.numofslots).erase i : Finset ℕ) := by
      intro j hj
      rw [Finset.mem_coe, Finset.mem_erase, Finset.mem_range]
      exact ⟨ne_of_mem_of_not_mem hj hno, lt_of_used hj⟩
    have hle := Set.encard_le_encard hsub
    rw [h.slotused, Set.encard_coe_eq_coe_finsetCard,
      Finset.card_erase_of_mem (Finset.mem_range.mpr hi), Finset.card_range] at hle
    have hle' : t.slotused ≤ t.numofslots - 1 := by exact_mod_cast hle
    omega
  obtain ⟨l, hl, hmem⟩ := h.free
  cases l with
  | nil => exact ⟨hl, hall⟩
  | cons f l =>
    have hf := (hmem f).mp List.mem_cons_self
    exact absurd (hall f hf.1) hf.2

private theorem refs_eq_zero (h : Valid hash t refs) (hno : ∀ i, (t.node i).obj ≠ some o) :
    refs o = 0 := by
  by_contra hne
  obtain ⟨i, hi⟩ := h.present o hne
  exact hno i hi

theorem not_present (h : Valid hash t refs) (ho : refs o = 0) (i : ℕ) :
    (t.node i).obj ≠ some o := by
  intro hi
  have hpos := (h.counted i o hi).2
  omega

/-- References are counted in the node. -/
theorem setRefs [DecidableEq Obj] (h : Valid hash t refs) (hi : (t.node i).obj = some o)
    (hk : 0 < k) :
    Valid hash (t.setNode i { t.node i with refs := k }) (Function.update refs o k) := by
  have hlt := lt_of_used (mem_used hi)
  have hnode := node_setNode hlt { t.node i with refs := k }
  have hslots := numofslots_setNode t i { t.node i with refs := k }
  have hobj : ∀ j, ((t.setNode i { t.node i with refs := k }).node j).obj = (t.node j).obj := by
    intro j
    rw [hnode]
    by_cases hj : j = i
    · simp [hj]
    · simp [Function.update_of_ne hj]
  have hnext : (t.setNode i { t.node i with refs := k }).next = t.next := by
    rw [next_setNode hlt]
    exact Function.update_eq_self i t.next
  have hused : (t.setNode i { t.node i with refs := k }).used = t.used := by
    ext j
    change _ ≠ none ↔ _ ≠ none
    rw [hobj]
  have hplace : (t.setNode i { t.node i with refs := k }).place hash = t.place hash := by
    funext j
    unfold place mainpos
    rw [hobj, hslots]
  refine ⟨hslots.symm ▸ h.pos, h.lengths.trans hslots.symm, ?_, ?_, fun j hj => ?_,
    fun j o' hj => ?_, fun j j' o' hj hj' => ?_, fun o' ho' => ?_, hused.symm ▸ h.slotused⟩
  · rw [hnext, hslots, hused, hplace]
    exact h.holds
  · rw [hnext, hslots, hused]
    exact h.free
  · rw [hused] at hj
    rw [hnode, Function.update_of_ne (ne_of_mem_of_not_mem (mem_used hi) hj).symm]
    exact h.unused j hj
  · rw [hobj] at hj
    by_cases hji : j = i
    · subst hji
      obtain rfl : o = o' := Option.some.inj (hi.symm.trans hj)
      rw [hnode, Function.update_self, Function.update_self]
      exact ⟨rfl, hk⟩
    · have hne : o' ≠ o := by
        rintro rfl
        exact hji (h.distinct j i o' hj hi)
      rw [hnode, Function.update_of_ne hji, Function.update_of_ne hne]
      exact h.counted j o' hj
  · rw [hobj] at hj hj'
    exact h.distinct j j' o' hj hj'
  · by_cases heq : o' = o
    · subst heq
      exact ⟨i, (hobj i).trans hi⟩
    · rw [Function.update_of_ne heq] at ho'
      obtain ⟨j, hj⟩ := h.present o' ho'
      exact ⟨j, (hobj j).trans hj⟩

/-- An object that is not there is added with some references. -/
theorem addNode [DecidableEq Obj] (h : Valid hash t refs) (ho : refs obj = 0)
    (hroom : t.slotused < t.numofslots) (hk : 0 < k) :
    ∃ t' f, t.addNode (t.mainpos hash obj) obj = some (t', f) ∧ (t'.node f).refs = 0 ∧
      Valid hash (t'.setNode f { t'.node f with refs := k }) (Function.update refs obj k) ∧
      t'.numofslots = t.numofslots ∧ t'.slotused = t.slotused + 1 := by
  obtain ⟨f, l, ⟨hfree, hl⟩, hmem⟩ := h.exists_free hroom
  obtain ⟨hf, hunused⟩ := (hmem f).mp List.mem_cons_self
  have hzero := h.unused f hunused
  have hpos := mainpos_lt hash h.pos obj
  have hchain : Chain t.next (some f) (f :: l) := ⟨rfl, hl⟩
  have hnodup := List.nodup_cons.mp hchain.nodup
  set mp := t.mainpos hash obj with hmp
  set t₁ : RefTable Obj :=
    { t.setNode f { t.node f with obj := some obj, next := t.bucket mp } with
      buckets := t.buckets.set mp (some f)
      freelist := t.next f
      slotused := t.slotused + 1 } with ht₁
  have hrun : t.addNode mp obj = some (t₁, f) := by
    unfold RefTable.addNode
    rw [hfree]
    dsimp only
    rw [if_pos hzero]
    rfl
  have hslots : (t₁.setNode f { t₁.node f with refs := k }).numofslots = t.numofslots :=
    (numofslots_setNode _ _ _).trans (numofslots_setNode t _ _)
  have hnode₁ : t₁.node = Function.update t.node f
      { t.node f with obj := some obj, next := t.bucket mp } := node_setNode hf _
  have hnode : (t₁.setNode f { t₁.node f with refs := k }).node =
      Function.update t.node f ⟨some obj, k, t.bucket mp⟩ := by
    rw [node_setNode (t := t₁) (hf.trans_eq (numofslots_setNode t _ _).symm), hnode₁]
    simp
  refine ⟨t₁, f, hrun, ?_, ?_, numofslots_setNode t _ _, rfl⟩
  · rw [hnode₁, Function.update_self]
    exact hzero
  set t₂ := t₁.setNode f { t₁.node f with refs := k } with ht₂
  have hbucket : t₂.bucket = Function.update t.bucket mp (some f) :=
    getD_set (hpos.trans_eq h.lengths.symm) _
  have hnext : t₂.next = Function.update t.next f (t.bucket mp) := by
    funext i
    unfold next
    rw [hnode]
    by_cases hi : i = f
    · simp [hi]
    · simp [Function.update_of_ne hi]
  have hobj : ∀ i, i ≠ f → (t₂.node i).obj = (t.node i).obj := fun i hi => by
    rw [hnode, Function.update_of_ne hi]
  have hobjf : (t₂.node f).obj = some obj := by rw [hnode, Function.update_self]
  have hused : t₂.used = insert f t.used := by
    ext i
    rw [Set.mem_insert_iff]
    by_cases hi : i = f
    · subst hi
      exact ⟨fun _ => .inl rfl, fun _ => mem_used hobjf⟩
    · change (t₂.node i).obj ≠ none ↔ _
      rw [hobj i hi]
      simp [hi, used]
  have hplace : ∀ i ∈ t.used, t₂.place hash i = t.place hash i := fun i hi => by
    unfold place mainpos
    rw [hobj i (ne_of_mem_of_not_mem hi hunused), hslots]
  have hplacef : t₂.place hash f = mp := by
    rw [place_of_obj hobjf, mainpos, hslots]
    rfl
  refine ⟨hslots.symm ▸ h.pos, ?_, ?_, ⟨l, ?_, fun i => ?_⟩, fun i hi => ?_, fun i o' hi => ?_,
    fun i j o' hi hj => ?_, fun o' ho' => ?_, ?_⟩
  · exact List.length_set.trans (h.lengths.trans hslots.symm)
  · have hold := h.holds.congr (fun _ _ => rfl) (fun _ _ => rfl) hplace
    have hnew := hold.insert hunused (hplacef.symm ▸ hpos : t₂.place hash f < t.numofslots)
    rwa [hplacef, ← hnext, ← hbucket, ← hused, ← hslots] at hnew
  · rw [hnext]
    exact hl.congr fun i hi => Function.update_of_ne (ne_of_mem_of_not_mem hi hnodup.1) _ _
  · rw [hslots, hused, Set.mem_insert_iff, not_or]
    constructor
    · intro hi
      have hi' := (hmem i).mp (List.mem_cons_of_mem _ hi)
      exact ⟨hi'.1, ne_of_mem_of_not_mem hi hnodup.1, hi'.2⟩
    · rintro ⟨hlt, hne, hno⟩
      exact (List.mem_cons.mp ((hmem i).mpr ⟨hlt, hno⟩)).resolve_left hne
  · rw [hused, Set.mem_insert_iff, not_or] at hi
    rw [hnode, Function.update_of_ne hi.1]
    exact h.unused i hi.2
  · by_cases hif : i = f
    · subst hif
      obtain rfl : obj = o' := Option.some.inj (hobjf.symm.trans hi)
      rw [hnode, Function.update_self, Function.update_self]
      exact ⟨rfl, hk⟩
    · rw [hobj i hif] at hi
      have hne : o' ≠ obj := by
        rintro rfl
        exact h.not_present ho i hi
      rw [hnode, Function.update_of_ne hif, Function.update_of_ne hne]
      exact h.counted i o' hi
  · by_cases hif : i = f
    · by_cases hjf : j = f
      · exact hif.trans hjf.symm
      · subst hif
        obtain rfl : obj = o' := Option.some.inj (hobjf.symm.trans hi)
        exact absurd ((hobj j hjf).symm.trans hj) (h.not_present ho j)
    · by_cases hjf : j = f
      · subst hjf
        obtain rfl : obj = o' := Option.some.inj (hobjf.symm.trans hj)
        exact absurd ((hobj i hif).symm.trans hi) (h.not_present ho i)
      · exact h.distinct i j o' ((hobj i hif).symm.trans hi) ((hobj j hjf).symm.trans hj)
  · by_cases heq : o' = obj
    · subst heq
      exact ⟨f, hobjf⟩
    · rw [Function.update_of_ne heq] at ho'
      obtain ⟨i, hi⟩ := h.present o' ho'
      have hif : i ≠ f := ne_of_mem_of_not_mem (mem_used hi) hunused
      exact ⟨i, (hobj i hif).trans hi⟩
  · rw [hused, Set.encard_insert_of_notMem hunused, h.slotused]
    rfl

/-- `AllocNodes` makes an empty table. -/
theorem allocNodes {size : ℕ} (hsize : 0 < size) :
    Valid hash (allocNodes size : RefTable Obj) fun _ => 0 := by
  have hslots : (RefTable.allocNodes size : RefTable Obj).numofslots = size := by
    simp [RefTable.allocNodes, numofslots]
  have hnode : ∀ i, (RefTable.allocNodes size : RefTable Obj).node i =
      ⟨none, 0, if i < size - 1 then some (i + 1) else none⟩ := by
    intro i
    unfold node RefTable.allocNodes
    rw [List.getD_eq_getElem?_getD, List.getElem?_map]
    by_cases hi : i < size
    · rw [List.getElem?_range hi]
      rfl
    · rw [List.getElem?_eq_none (by simpa using hi), if_neg (by omega)]
      rfl
  have hused : (RefTable.allocNodes size : RefTable Obj).used = ∅ := by
    ext i
    simp [used, hnode]
  have hchain : ∀ m k, k + m = size → Chain (RefTable.allocNodes size : RefTable Obj).next
      (if k < size then some k else none) (List.range' k m) := by
    intro m
    induction m with
    | zero =>
      intro k hk
      exact if_neg (by omega)
    | succ m ih =>
      intro k hk
      constructor
      · exact if_pos (by omega)
      · have hnext : (RefTable.allocNodes size : RefTable Obj).next k =
            if k + 1 < size then some (k + 1) else none := by
          rw [next, hnode]
          exact if_congr (by omega) rfl rfl
        rw [hnext]
        exact ih (k + 1) (by omega)
  have hno : ∀ i o, ((RefTable.allocNodes size : RefTable Obj).node i).obj ≠ some o := by
    intro i o
    rw [hnode]
    exact Option.some_ne_none o |>.symm
  refine ⟨hslots.symm ▸ hsize, ?_, ?_, ⟨List.range' 0 size, ?_, fun i => ?_⟩, fun i _ => ?_,
    fun i o hi => absurd hi (hno i o), fun i _ o hi => absurd hi (hno i o),
    fun _ h => absurd rfl h, ?_⟩
  · rw [hslots]
    exact List.length_replicate
  · rw [hused]
    refine (Buckets.empty _ _ _).congr (fun _ _ => rfl) (fun i _ => ?_) fun _ _ => rfl
    unfold bucket RefTable.allocNodes
    rw [List.getD_eq_getElem?_getD, List.getElem?_replicate]
    split_ifs <;> rfl
  · have hall := hchain size 0 (by omega)
    rwa [if_pos hsize] at hall
  · rw [hused, hslots]
    simp
  · rw [hnode]
  · rw [hused, Set.encard_empty]
    rfl

/-- The objects of the nodes `ns` are added with their references. -/
theorem rehash [DecidableEq Obj] {ns : List (RefNode Obj)} {r : Obj → ℤ}
    (h : Valid hash t refs) (nfound : ℕ)
    (hns : ∀ n ∈ ns, ∃ o, n.obj = some o ∧ n.refs = r o ∧ 0 < r o ∧ refs o = 0)
    (hnodup : (ns.map (·.obj)).Nodup) (hroom : t.slotused + ns.length ≤ t.numofslots) :
    ∃ t', t.rehash hash ns nfound = some (t', nfound + ns.length) ∧
      t'.numofslots = t.numofslots ∧ t'.slotused = t.slotused + ns.length ∧
      Valid hash t' fun o => if some o ∈ ns.map (·.obj) then r o else refs o := by
  induction ns generalizing t refs nfound with
  | nil =>
    refine ⟨t, rfl, rfl, rfl, ?_⟩
    simpa using h
  | cons n ns ih =>
    obtain ⟨o, hobj, hrefs, hpos, hzero⟩ := hns n List.mem_cons_self
    rw [List.length_cons] at hroom
    rw [List.map_cons, hobj, List.nodup_cons] at hnodup
    obtain ⟨t₁, f, hrun, -, hvalid, hslots, hused⟩ := h.addNode hzero (by omega) hpos
    have hrest : ∀ n' ∈ ns, ∃ o', n'.obj = some o' ∧ n'.refs = r o' ∧ 0 < r o' ∧
        Function.update refs o (r o) o' = 0 := by
      intro n' hn'
      obtain ⟨o', hobj', hrefs', hpos', hzero'⟩ := hns n' (List.mem_cons_of_mem _ hn')
      have hne : o' ≠ o := by
        rintro rfl
        exact hnodup.1 (List.mem_map.mpr ⟨n', hn', hobj'⟩)
      exact ⟨o', hobj', hrefs', hpos', by rw [Function.update_of_ne hne, hzero']⟩
    have hslots₁ := (numofslots_setNode t₁ f { t₁.node f with refs := r o }).trans hslots
    obtain ⟨t', hrun', hslots', hused', hvalid'⟩ := ih hvalid (nfound + 1) hrest hnodup.2 (by
      rw [hslots₁]
      change t₁.slotused + ns.length ≤ _
      omega)
    refine ⟨t', ?_, hslots'.trans hslots₁, ?_, ?_⟩
    · rw [RefTable.rehash, hobj]
      dsimp only
      rw [if_pos (by omega), hrun, hrefs]
      rw [List.length_cons, Nat.add_comm ns.length 1, ← Nat.add_assoc]
      exact hrun'
    · rw [hused', List.length_cons]
      change t₁.slotused + ns.length = _
      omega
    · convert hvalid' using 1
      funext o'
      rw [List.map_cons, hobj]
      by_cases heq : o' = o
      · subst heq
        simp [hnodup.1]
      · simp [heq]

/-- `Resize` of a full table. -/
theorem resize [DecidableEq Obj] (h : Valid hash t refs) (hfull : t.numofslots = t.slotused)
    {size : ℕ} (hsize : t.numofslots ≤ size) :
    ∃ t', t.resize hash size = some t' ∧ t'.numofslots = size ∧ t'.slotused = t.slotused ∧
      Valid hash t' refs := by
  obtain ⟨-, hall⟩ := h.freelist_eq_none hfull
  have hget : ∀ i (hi : i < t.nodes.length), t.nodes[i] = t.node i := fun i hi => by
    rw [node, List.getD_eq_getElem?_getD, List.getElem?_eq_getElem hi]
    rfl
  have hobj : ∀ n ∈ t.nodes, ∃ i o, n = t.node i ∧ n.obj = some o := by
    intro n hn
    obtain ⟨i, hi, rfl⟩ := List.getElem_of_mem hn
    obtain ⟨o, ho⟩ := Option.ne_none_iff_exists'.mp (hall i hi)
    exact ⟨i, o, hget i hi, (congrArg RefNode.obj (hget i hi)).trans ho⟩
  have hns : ∀ n ∈ t.nodes, ∃ o, n.obj = some o ∧ n.refs = refs o ∧ 0 < refs o ∧ (0 : ℤ) = 0 := by
    intro n hn
    obtain ⟨i, o, rfl, ho⟩ := hobj n hn
    obtain ⟨hrefs, hpos⟩ := h.counted i o ho
    exact ⟨o, ho, hrefs, hpos, rfl⟩
  have hnodup : (t.nodes.map (·.obj)).Nodup := by
    rw [List.nodup_iff_injective_getElem]
    rintro ⟨i, hi⟩ ⟨j, hj⟩ heq
    simp only [List.length_map] at hi hj
    simp only [List.getElem_map, hget i hi, hget j hj] at heq
    obtain ⟨o, ho⟩ := Option.ne_none_iff_exists'.mp (hall i hi)
    exact Fin.ext (h.distinct i j o ho (heq.symm.trans ho))
  have hpos := h.pos
  have hslots : (RefTable.allocNodes size : RefTable Obj).numofslots = size := by
    simp [RefTable.allocNodes, numofslots]
  have hempty : Valid hash (RefTable.allocNodes size : RefTable Obj) fun _ => 0 :=
    allocNodes (by omega)
  obtain ⟨t', hrun, hslots', hused, hvalid⟩ := hempty.rehash 0 hns hnodup (by
    rw [hslots]
    change 0 + t.numofslots ≤ size
    omega)
  refine ⟨t', ?_, hslots'.trans hslots, ?_, ?_⟩
  · unfold RefTable.resize
    rw [hrun, Nat.zero_add]
    exact if_pos rfl
  · rw [hused]
    exact (Nat.zero_add _).trans hfull
  · convert hvalid using 1
    funext o
    by_cases ho : some o ∈ t.nodes.map (·.obj)
    · rw [if_pos ho]
    · rw [if_neg ho]
      apply h.refs_eq_zero
      intro i hi
      apply ho
      have hlt := lt_of_used (mem_used hi)
      rw [List.mem_map]
      exact ⟨t.nodes[i], List.getElem_mem hlt, (congrArg RefNode.obj (hget i hlt)).trans hi⟩

theorem slotused_le (h : Valid hash t refs) : t.slotused ≤ t.numofslots := by
  have hsub : t.used ⊆ (Finset.range t.numofslots : Set ℕ) := by
    intro i hi
    exact Finset.mem_coe.mpr (Finset.mem_range.mpr (lt_of_used hi))
  have hle := Set.encard_le_encard hsub
  rw [h.slotused, Set.encard_coe_eq_coe_finsetCard, Finset.card_range] at hle
  exact_mod_cast hle

/-- What is left of a node that was cut out of its bucket goes to the free list. -/
theorem freed [DecidableEq Obj] (h : Valid hash t refs) (t₁ : RefTable Obj)
    (hi : (t.node i).obj = some o) (hslots : t₁.numofslots = t.numofslots)
    (hlength : t₁.buckets.length = t.buckets.length)
    (hobj : ∀ j, (t₁.node j).obj = (t.node j).obj)
    (hrefs : ∀ j, (t₁.node j).refs = if j = i then 0 else (t.node j).refs)
    (hnext : ∀ j, j ∉ t.used → t₁.next j = t.next j)
    (hbuckets : Buckets t₁.next t₁.bucket t.numofslots (t.place hash) (t.used \ {i})) :
    Valid hash
      { t₁.setNode i { t₁.node i with obj := none, next := t.freelist } with
        freelist := some i
        slotused := t.slotused - 1 } (Function.update refs o 0) := by
  set t₂ : RefTable Obj :=
    { t₁.setNode i { t₁.node i with obj := none, next := t.freelist } with
      freelist := some i
      slotused := t.slotused - 1 } with ht₂
  have hiused := mem_used hi
  have hlt : i < t₁.numofslots := (lt_of_used hiused).trans_eq hslots.symm
  have hslots₂ : t₂.numofslots = t.numofslots := (numofslots_setNode t₁ i _).trans hslots
  have hnode : t₂.node = Function.update t₁.node i
      { t₁.node i with obj := none, next := t.freelist } := node_setNode hlt _
  have hobj₂ : ∀ j, j ≠ i → (t₂.node j).obj = (t.node j).obj := fun j hj => by
    rw [hnode, Function.update_of_ne hj, hobj]
  have hnone : (t₂.node i).obj = none := by rw [hnode, Function.update_self]
  have hnext₂ : t₂.next = Function.update t₁.next i t.freelist := next_setNode hlt _
  have hne : ∀ j o', (t₂.node j).obj = some o' → j ≠ i := by
    rintro j o' hj rfl
    rw [hnone] at hj
    cases hj
  have hused : t₂.used = t.used \ {i} := by
    ext j
    rw [Set.mem_sdiff, Set.mem_singleton_iff]
    by_cases hj : j = i
    · simp [hj, used, hnone]
    · simp [used, hobj₂ j hj, hj]
  obtain ⟨l, hl, hmem⟩ := h.free
  have hil : i ∉ l := fun hil => ((hmem i).mp hil).2 hiused
  refine ⟨hslots₂.symm ▸ h.pos, ?_, ?_, ⟨i :: l, ?_, fun j => ?_⟩, fun j hj => ?_,
    fun j o' hj => ?_, fun j j' o' hj hj' => ?_, fun o' ho' => ?_, ?_⟩
  · exact hlength.trans (h.lengths.trans hslots₂.symm)
  · rw [hused, hslots₂]
    refine hbuckets.congr (fun j hj => ?_) (fun _ _ => rfl) fun j hj => ?_
    · rw [hnext₂, Function.update_of_ne hj.2]
    · unfold place mainpos
      rw [hobj₂ j hj.2, hslots₂]
  · rw [hnext₂]
    exact Chain.push (hl.congr fun j hj => hnext j ((hmem j).mp hj).2) hil
  · rw [hused, hslots₂, List.mem_cons, hmem, Set.mem_sdiff, Set.mem_singleton_iff]
    constructor
    · rintro (rfl | ⟨hj, hno⟩)
      · exact ⟨lt_of_used hiused, fun hj => hj.2 rfl⟩
      · exact ⟨hj, fun hj => hno hj.1⟩
    · rintro ⟨hj, hno⟩
      by_cases hji : j = i
      · exact .inl hji
      · exact .inr ⟨hj, fun hj => hno ⟨hj, hji⟩⟩
  · rw [hused, Set.mem_sdiff, Set.mem_singleton_iff, not_and_not_right] at hj
    by_cases hji : j = i
    · subst hji
      rw [hnode, Function.update_self]
      exact (hrefs j).trans (if_pos rfl)
    · rw [hnode, Function.update_of_ne hji, hrefs, if_neg hji]
      exact h.unused j fun hused => hji (hj hused)
  · have hji := hne j o' hj
    rw [hobj₂ j hji] at hj
    have hoo : o' ≠ o := by
      rintro rfl
      exact hji (h.distinct j i o' hj hi)
    rw [hnode, Function.update_of_ne hji, hrefs, if_neg hji, Function.update_of_ne hoo]
    exact h.counted j o' hj
  · exact h.distinct j j' o' ((hobj₂ j (hne j o' hj)).symm.trans hj)
      ((hobj₂ j' (hne j' o' hj')).symm.trans hj')
  · have hoo : o' ≠ o := by
      rintro rfl
      exact ho' (Function.update_self _ _ _)
    rw [Function.update_of_ne hoo] at ho'
    obtain ⟨j, hj⟩ := h.present o' ho'
    have hji : j ≠ i := by
      rintro rfl
      exact hoo (Option.some.inj (hj.symm.trans hi))
    exact ⟨j, (hobj₂ j hji).trans hj⟩
  · rw [hused, Set.encard_sdiff_singleton_of_mem hiused, h.slotused]
    change _ = ((t.slotused - 1 : ℕ) : ℕ∞)
    rw [ENat.natCast_sub]
    rfl

variable [DecidableEq Obj]

/-- Where `Get` finds an object. -/
structure AtNode (hash : Obj → ℕ) (t : RefTable Obj) (obj : Obj) (i : ℕ) (prev : Option ℕ)
    (l₁ l₂ : List ℕ) : Prop where
  chain : Chain t.next (t.bucket (t.mainpos hash obj)) (l₁ ++ i :: l₂)
  mem : ∀ j, j ∈ l₁ ++ i :: l₂ ↔ j ∈ t.used ∧ t.place hash j = t.mainpos hash obj
  prev : prev = l₁.getLast?

theorem search (h : Valid hash t refs) (obj : Obj) :
    ∃ l, Chain t.next (t.bucket (t.mainpos hash obj)) l ∧
      (∀ j, j ∈ l ↔ j ∈ t.used ∧ t.place hash j = t.mainpos hash obj) ∧
      Found (fun ref => (t.node ref).obj = some obj) l none
        (ChainedBuckets.search t.next (fun ref => (t.node ref).obj = some obj) (t.numofslots + 1)
          none (t.bucket (t.mainpos hash obj))) := by
  have hfuel : t.used.encard < (t.numofslots + 1 : ℕ) := by
    rw [h.slotused]
    exact_mod_cast Nat.lt_succ_of_le h.slotused_le
  exact h.holds.search (mainpos_lt hash h.pos obj) hfuel _

theorem get_present (h : Valid hash t refs) (hi : (t.node i).obj = some obj) (add : Bool) :
    ∃ prev l₁ l₂, t.get hash obj add = some (t, ⟨some i, t.mainpos hash obj, prev⟩) ∧
      AtNode hash t obj i prev l₁ l₂ := by
  obtain ⟨l, hl, hmem, hfound⟩ := h.search obj
  have hil : i ∈ l := (hmem i).mpr ⟨mem_used hi, place_of_obj hi⟩
  unfold get
  dsimp only
  generalize ChainedBuckets.search t.next (fun ref => (t.node ref).obj = some obj)
    (t.numofslots + 1) none (t.bucket (t.mainpos hash obj)) = r at hfound ⊢
  cases hfound with
  | miss _ hno => exact absurd hi (of_decide_eq_false (hno i hil))
  | hit l₁ a l₂ hsplit ha =>
    obtain rfl := h.distinct a i obj (of_decide_eq_true ha) hi
    subst hsplit
    rw [Option.or_none]
    exact ⟨_, l₁, l₂, rfl, hl, hmem, rfl⟩

private theorem get_absent (h : Valid hash t refs) (ho : refs obj = 0) (hk : 0 < k) :
    ∃ t' f got, t.get hash obj true = some (t', got) ∧ got.ref = some f ∧ (t'.node f).refs = 0 ∧
      Valid hash (t'.setNode f { t'.node f with refs := k }) (Function.update refs obj k) := by
  obtain ⟨l, hl, hmem, hfound⟩ := h.search obj
  unfold get
  dsimp only
  generalize ChainedBuckets.search t.next (fun ref => (t.node ref).obj = some obj)
    (t.numofslots + 1) none (t.bucket (t.mainpos hash obj)) = r at hfound ⊢
  cases hfound with
  | hit _ a _ _ ha => exact absurd (of_decide_eq_true ha) (h.not_present ho a)
  | miss last _ =>
    dsimp only
    rw [if_pos rfl]
    by_cases hfull : t.numofslots = t.slotused
    · have hpos := h.pos
      obtain ⟨t₁, hrun, hslots, hused, hvalid⟩ :=
        h.resize hfull (Nat.le_mul_of_pos_right t.numofslots two_pos)
      obtain ⟨t₂, f, hadd, hzero, hvalid₂, -⟩ := hvalid.addNode ho (by omega) hk
      rw [if_pos hfull, if_pos (h.freelist_eq_none hfull).1, hrun, Option.bind_some, hadd]
      exact ⟨t₂, f, _, rfl, rfl, hzero, hvalid₂⟩
    · have hle := h.slotused_le
      obtain ⟨t₂, f, hadd, hzero, hvalid₂, -⟩ := h.addNode ho (by omega) hk
      rw [if_neg hfull, hadd]
      exact ⟨t₂, f, _, rfl, rfl, hzero, hvalid₂⟩

/-- `AddRef` -/
theorem addRef (h : Valid hash t refs) (obj : Obj) (hrefs : 0 ≤ refs obj) :
    ∃ t', t.addRef hash obj = some t' ∧
      Valid hash t' (Function.update refs obj (refs obj + 1)) := by
  unfold RefTable.addRef
  by_cases ho : refs obj = 0
  · obtain ⟨t₁, f, got, hget, href, hzero, hvalid⟩ := h.get_absent ho one_pos
    rw [hget, Option.bind_some]
    dsimp only
    rw [href, Option.map_some, hzero, ho]
    exact ⟨_, rfl, hvalid⟩
  · obtain ⟨i, hi⟩ := h.present obj ho
    obtain ⟨prev, l₁, l₂, hget, -⟩ := h.get_present hi true
    rw [hget, Option.bind_some]
    dsimp only
    rw [Option.map_some, (h.counted i obj hi).1]
    exact ⟨_, rfl, h.setRefs hi (by omega)⟩

/-- `GetRefCount` of an object that is held. -/
theorem getRefCount (h : Valid hash t refs) (obj : Obj) (hrefs : refs obj ≠ 0) :
    t.getRefCount hash obj = some (t, refs obj) := by
  obtain ⟨i, hi⟩ := h.present obj hrefs
  obtain ⟨prev, l₁, l₂, hget, -⟩ := h.get_present hi true
  unfold RefTable.getRefCount
  rw [hget, ← (h.counted i obj hi).1]
  rfl

/-- `Release` of the last reference. -/
theorem unlink (h : Valid hash t refs) (hi : (t.node i).obj = some obj) {prev : Option ℕ}
    (hat : AtNode hash t obj i prev l₁ l₂) :
    Valid hash ((t.setNode i { t.node i with refs := 0 }).unlink i (t.mainpos hash obj) prev)
      (Function.update refs obj 0) := by
  have hiused := mem_used hi
  have hlt := lt_of_used hiused
  set t₀ := t.setNode i { t.node i with refs := 0 } with ht₀
  have hslots₀ : t₀.numofslots = t.numofslots := numofslots_setNode t i _
  have hnode₀ : t₀.node = Function.update t.node i { t.node i with refs := 0 } := node_setNode hlt _
  have hnext₀ : t₀.next = t.next := by
    rw [ht₀, next_setNode hlt]
    exact Function.update_eq_self i t.next
  have hobj₀ : ∀ j, (t₀.node j).obj = (t.node j).obj := fun j => by
    rw [hnode₀]
    by_cases hj : j = i
    · simp [hj]
    · simp [Function.update_of_ne hj]
  have hrefs₀ : ∀ j, (t₀.node j).refs = if j = i then 0 else (t.node j).refs := fun j => by
    rw [hnode₀]
    by_cases hj : j = i
    · simp [hj]
    · simp [hj]
  obtain ⟨hchain, hmem, rfl⟩ := hat
  rcases List.eq_nil_or_concat l₁ with rfl | ⟨l₁, p, rfl⟩
  · have hbuckets := h.holds.remove_first hchain hmem
    refine h.freed { t₀ with
      buckets := t₀.buckets.set (t.mainpos hash obj) (t₀.next i) } hi hslots₀ List.length_set hobj₀
        hrefs₀ (fun j _ => congrFun hnext₀ j) (hbuckets.congr (fun j _ => congrFun hnext₀ j)
          (fun j _ => ?_) fun _ _ => rfl)
    rw [← hnext₀]
    exact congrFun (getD_set ((mainpos_lt hash h.pos obj).trans_eq h.lengths.symm) _) j
  · rw [List.concat_eq_append, List.append_assoc] at hchain hmem
    have hp : p ∈ t.used := ((hmem p).mp (by simp)).1
    have hpi : p ≠ i := by
      rintro rfl
      have hnodup := hchain.nodup
      simp [List.nodup_append] at hnodup
    have hplt : p < t₀.numofslots := (lt_of_used hp).trans_eq hslots₀.symm
    have hnode₁ := node_setNode hplt { t₀.node p with next := t₀.next i }
    have hnext₁ := next_setNode hplt { t₀.node p with next := t₀.next i }
    rw [List.concat_eq_append, List.getLast?_append]
    refine h.freed (t₀.setNode p { t₀.node p with next := t₀.next i }) hi
      ((numofslots_setNode _ _ _).trans hslots₀) rfl (fun j => ?_) (fun j => ?_) (fun j hj => ?_)
      ((h.holds.remove_behind hchain hmem).congr (fun j _ => ?_) (fun _ _ => rfl) fun _ _ => rfl)
    · rw [hnode₁, ← hobj₀]
      by_cases hj : j = p
      · simp [hj]
      · simp [Function.update_of_ne hj]
    · rw [hnode₁, ← hrefs₀]
      by_cases hj : j = p
      · simp [hj]
      · simp [Function.update_of_ne hj]
    · rw [hnext₁, Function.update_of_ne (ne_of_mem_of_not_mem hp hj).symm, hnext₀]
    · rw [hnext₁, hnext₀]

/-- `Release` of an object that is held. -/
theorem release (h : Valid hash t refs) (obj : Obj) (hrefs : 0 < refs obj) :
    ∃ t' last, t.release hash obj = some (t', last) ∧
      Valid hash t' (Function.update refs obj (refs obj - 1)) := by
  obtain ⟨i, hi⟩ := h.present obj hrefs.ne'
  obtain ⟨prev, l₁, l₂, hget, hat⟩ := h.get_present hi false
  unfold RefTable.release
  rw [hget, Option.bind_some]
  dsimp only
  rw [Option.map_some, (h.counted i obj hi).1]
  by_cases hone : refs obj - 1 = 0
  · rw [hone]
    exact ⟨_, _, rfl, h.unlink hi hat⟩
  · rw [if_neg hone]
    exact ⟨_, _, rfl, h.setRefs hi (by omega)⟩

end Valid

/-- The node `i` is in the chain of the bucket `b`. -/
def InBucket (t : RefTable Obj) (b i : ℕ) : Prop := ∃ l, Chain t.next (t.bucket b) l ∧ i ∈ l

def InFree (t : RefTable Obj) (i : ℕ) : Prop := ∃ l, Chain t.next t.freelist l ∧ i ∈ l

/-- The object is in the table. -/
def Held (t : RefTable Obj) (o : Obj) : Prop := ∃ i, (t.node i).obj = some o

/-- A slot is in one bucket, with references, or free. -/
theorem Valid.slot (h : Valid hash t refs) (hi : i < t.numofslots) :
    (0 < (t.node i).refs ∧ (∃! b, b < t.numofslots ∧ t.InBucket b i) ∧ ¬ t.InFree i) ∨
      (t.InFree i ∧ ∀ b < t.numofslots, ¬ t.InBucket b i) := by
  obtain ⟨free, hfree, hmem⟩ := h.free
  have hin : ∀ b, b < t.numofslots → (t.InBucket b i ↔ i ∈ t.used ∧ t.place hash i = b) := by
    intro b hb
    obtain ⟨l, hl, hmeml⟩ := h.holds.chain b hb
    rw [← hmeml]
    constructor
    · rintro ⟨l', hl', hil⟩
      exact hl.unique hl' ▸ hil
    · intro hil
      exact ⟨l, hl, hil⟩
  have hout : t.InFree i ↔ i ∉ t.used := by
    constructor
    · rintro ⟨l, hl, hil⟩
      exact ((hmem i).mp (hl.unique hfree ▸ hil)).2
    · intro hno
      exact ⟨free, hfree, (hmem i).mpr ⟨hi, hno⟩⟩
  by_cases hused : i ∈ t.used
  · obtain ⟨o, ho⟩ := Option.ne_none_iff_exists'.mp hused
    obtain ⟨hrefs, hpos⟩ := h.counted i o ho
    have hplace := h.holds.place_lt i hused
    refine .inl ⟨hrefs.symm ▸ hpos, ⟨t.place hash i, ⟨hplace, (hin _ hplace).mpr ⟨hused, rfl⟩⟩, ?_⟩,
      fun hfree => hout.mp hfree hused⟩
    rintro b ⟨hb, hbi⟩
    exact ((hin b hb).mp hbi).2.symm
  · exact .inr ⟨hout.mpr hused, fun b hb hbi => hused ((hin b hb).mp hbi).1⟩

variable [DecidableEq Obj]

/-- What a call adds to the references of an object. -/
def Call.change (o : Obj) : Call Obj → ℤ
  | .addref po => if po = o then 1 else 0
  | .release po => if po = o then -1 else 0
  | .getrefcount _ => 0

/-- How often an object was added less how often it was released. -/
def references (cs : List (Call Obj)) (o : Obj) : ℤ := (cs.map (Call.change o)).sum

theorem references_concat (cs : List (Call Obj)) (c : Call Obj) (o : Obj) :
    references (cs ++ [c]) o = references cs o + c.change o := by
  simp [references]

variable (refcounted : Obj → Bool)

/-- At no point an object has been released more often than added. -/
def ReleasesAdded (cs : List (Call Obj)) : Prop :=
  ∀ cs', cs' <+: cs → ∀ o, refcounted o = true → 0 ≤ references cs' o

/-- The count of an object is asked for while it is held. -/
def AsksHeld (cs : List (Call Obj)) : Prop :=
  ∀ cs' po, cs' ++ [.getrefcount po] <+: cs → refcounted po = true → 0 < references cs' po

/-- The references that the table has to count -/
def heldCounts (cs : List (Call Obj)) (o : Obj) : ℤ := if refcounted o then references cs o else 0

/-- One call more. -/
theorem Valid.call {cs : List (Call Obj)} {c : Call Obj}
    (h : Valid hash t (heldCounts refcounted cs))
    (hreleases : ReleasesAdded refcounted (cs ++ [c])) (hasks : AsksHeld refcounted (cs ++ [c])) :
    ∃ t', t.call hash refcounted c = some t' ∧
      Valid hash t' (heldCounts refcounted (cs ++ [c])) := by
  have hcounted : ∀ o, refcounted o = true → heldCounts refcounted cs o = references cs o :=
    fun o ho => if_pos ho
  -- the counts change for the object of the call alone
  have hupdate : ∀ po k, refcounted po = true → k = references cs po + c.change po →
      (∀ o, o ≠ po → c.change o = 0) →
      Function.update (heldCounts refcounted cs) po k = heldCounts refcounted (cs ++ [c]) := by
    intro po k hpo hk hother
    funext o
    unfold heldCounts
    rw [references_concat]
    by_cases ho : o = po
    · subst ho
      rw [Function.update_self, if_pos hpo, hk]
    · rw [Function.update_of_ne ho, hother o ho, Int.add_zero]
  have hsame : (∀ o, refcounted o = true → c.change o = 0) →
      heldCounts refcounted cs = heldCounts refcounted (cs ++ [c]) := by
    intro hzero
    funext o
    unfold heldCounts
    rw [references_concat]
    split_ifs with ho
    · rw [hzero o ho, Int.add_zero]
    · rfl
  cases c with
  | addref po =>
    by_cases hpo : refcounted po = true
    · have hnonneg := hreleases cs (List.prefix_append _ _) po hpo
      obtain ⟨t', hrun, hvalid⟩ := h.addRef po (by rw [hcounted po hpo]; exact hnonneg)
      rw [hupdate po _ hpo (by rw [hcounted po hpo, Call.change, if_pos rfl])
        fun o ho => if_neg (Ne.symm ho)] at hvalid
      exact ⟨t', (if_pos hpo).trans hrun, hvalid⟩
    · refine ⟨t, if_neg hpo, ?_⟩
      rw [← hsame fun o ho => if_neg (ne_of_apply_ne refcounted fun heq => hpo (heq.trans ho))]
      exact h
  | release po =>
    by_cases hpo : refcounted po = true
    · have hafter := hreleases _ List.prefix_rfl po hpo
      rw [references_concat, Call.change, if_pos rfl] at hafter
      obtain ⟨t', last, hrun, hvalid⟩ := h.release po (by
        rw [hcounted po hpo]
        omega)
      rw [hupdate po _ hpo (by rw [hcounted po hpo, Call.change, if_pos rfl, Int.sub_eq_add_neg])
        fun o ho => if_neg (Ne.symm ho)] at hvalid
      refine ⟨t', ?_, hvalid⟩
      rw [RefTable.call, sq_release, if_pos hpo, hrun]
      rfl
    · refine ⟨t, ?_, ?_⟩
      · rw [RefTable.call, sq_release, if_neg hpo]
        rfl
      · rw [← hsame fun o ho => if_neg (ne_of_apply_ne refcounted fun heq => hpo (heq.trans ho))]
        exact h
  | getrefcount po =>
    rw [← hsame fun _ _ => rfl]
    refine ⟨t, ?_, h⟩
    rw [RefTable.call, sq_getrefcount]
    split_ifs with hpo
    · have hheld := hasks cs po List.prefix_rfl hpo
      rw [h.getRefCount po (by rw [hcounted po hpo]; omega)]
      rfl
    · rfl

private theorem valid_calls (hash : Obj → ℕ) {cs : List (Call Obj)}
    (hreleases : ReleasesAdded refcounted cs)
    (hasks : AsksHeld refcounted cs) :
    ∃ t, create.calls hash refcounted cs = some t ∧ Valid hash t (heldCounts refcounted cs) := by
  induction cs using List.reverseRecOn with
  | nil =>
    refine ⟨create, rfl, ?_⟩
    have hzero : heldCounts refcounted [] = fun _ : Obj => 0 := by
      funext o
      simp [heldCounts, references]
    rw [hzero]
    exact Valid.allocNodes (by omega)
  | append_singleton cs c ih =>
    obtain ⟨t, hrun, hvalid⟩ := ih
      (fun cs' hcs' => hreleases cs' (hcs'.trans (List.prefix_append _ _)))
      (fun cs' po hcs' => hasks cs' po (hcs'.trans (List.prefix_append _ _)))
    obtain ⟨t', hcall, hvalid'⟩ := hvalid.call refcounted hreleases hasks
    refine ⟨t', ?_, hvalid'⟩
    unfold calls at hrun ⊢
    rw [List.foldlM_append, hrun, Option.bind_eq_bind, Option.bind_some, List.foldlM_cons, hcall]
    rfl

/-- The calls of a host that asks only for the counts of what is held: no assertion fails, an
object is held as long as it was added more often than released, its count is that difference and
asking changes nothing, each slot is in one bucket with references or free, and no object is in
two slots. -/
theorem counts_references (hash : Obj → ℕ) {cs : List (Call Obj)}
    (hreleases : ReleasesAdded refcounted cs) (hasks : AsksHeld refcounted cs) :
    ∃ t, create.calls hash refcounted cs = some t ∧
      (∀ o, t.Held o ↔ refcounted o = true ∧ 0 < references cs o) ∧
      (∀ o, t.Held o → t.sq_getrefcount hash refcounted o = some (t, references cs o)) ∧
      (∀ i < t.numofslots,
        (0 < (t.node i).refs ∧ (∃! b, b < t.numofslots ∧ t.InBucket b i) ∧ ¬ t.InFree i) ∨
          (t.InFree i ∧ ∀ b < t.numofslots, ¬ t.InBucket b i)) ∧
      (∀ i j o, (t.node i).obj = some o → (t.node j).obj = some o → i = j) := by
  obtain ⟨t, hrun, hvalid⟩ := valid_calls refcounted hash hreleases hasks
  have hheld : ∀ o, t.Held o ↔ refcounted o = true ∧ 0 < references cs o := by
    intro o
    constructor
    · rintro ⟨i, hi⟩
      have hpos := (hvalid.counted i o hi).2
      unfold heldCounts at hpos
      split_ifs at hpos with ho
      · exact ⟨ho, hpos⟩
      · omega
    · rintro ⟨ho, hpos⟩
      apply hvalid.present
      rw [heldCounts, if_pos ho]
      omega
  refine ⟨t, hrun, hheld, fun o ho => ?_, fun i hi => hvalid.slot hi, hvalid.distinct⟩
  obtain ⟨hcounted, hpos⟩ := (hheld o).mp ho
  have hget := hvalid.getRefCount o (by
    rw [heldCounts, if_pos hcounted]
    omega)
  rw [heldCounts, if_pos hcounted] at hget
  exact (if_pos hcounted).trans hget

variable {refcounted}

theorem releasesAdded_of_no_release {cs : List (Call Obj)} (h : ∀ po, .release po ∉ cs) :
    ReleasesAdded refcounted cs := by
  intro cs' hcs' o _
  apply List.sum_nonneg
  intro k hk
  obtain ⟨c, hc, rfl⟩ := List.mem_map.mp hk
  cases c with
  | release po => exact absurd (hcs'.subset hc) (h po)
  | addref po =>
    rw [Call.change]
    split_ifs <;> omega
  | getrefcount po => exact le_rfl

private theorem asksHeld_concat {cs : List (Call Obj)} {c : Call Obj} (h : AsksHeld refcounted cs)
    (hc : ∀ po, c = .getrefcount po → 0 < references cs po) : AsksHeld refcounted (cs ++ [c]) := by
  intro cs' po hpre hpo
  rcases List.prefix_concat_iff.mp hpre with heq | hpre
  · obtain ⟨rfl, hc'⟩ := List.append_inj' heq rfl
    exact hc po (List.singleton_inj.mp hc').symm
  · exact h cs' po hpre hpo

private theorem asksHeld_of_no_getrefcount {cs : List (Call Obj)} (h : ∀ po, .getrefcount po ∉ cs) :
    AsksHeld refcounted cs := by
  intro cs' po hpre _
  exact absurd (hpre.subset List.mem_concat_self) (h po)

private theorem releasesAdded_concat {cs : List (Call Obj)} {c : Call Obj}
    (h : ReleasesAdded refcounted cs) (hc : ∀ po, c = .release po → 0 < references cs po) :
    ReleasesAdded refcounted (cs ++ [c]) := by
  intro cs' hpre o ho
  rcases List.prefix_concat_iff.mp hpre with rfl | hpre
  · have hbefore := h cs List.prefix_rfl o ho
    rw [references_concat]
    cases c with
    | addref po =>
      rw [Call.change]
      split_ifs <;> omega
    | release po =>
      rw [Call.change]
      split_ifs with hpo
      · have hpos := hc po rfl
        rw [hpo] at hpos
        omega
      · omega
    | getrefcount po => exact hbefore.trans_eq (Int.add_zero _).symm
  · exact h cs' hpre o ho

/-- Two objects in one bucket are added, one of them again. One reference of each is released. -/
theorem counts_references_released :
    ∃ t, create.calls id (fun _ => true)
        [.addref 3, .addref 7, .addref 3, .release 3, .getrefcount 3, .release 7] = some t ∧
      t.sq_getrefcount id (fun _ => true) 3 = some (t, 1) ∧ ¬ t.Held 7 := by
  have hadds : ReleasesAdded (fun _ : ℕ => true) [.addref 3, .addref 7, .addref 3] :=
    releasesAdded_of_no_release (by simp)
  have hfirst : ReleasesAdded (fun _ : ℕ => true) [.addref 3, .addref 7, .addref 3, .release 3] :=
    releasesAdded_concat hadds (by
      rintro po ⟨⟩
      decide)
  have hasked : ReleasesAdded (fun _ : ℕ => true)
      [.addref 3, .addref 7, .addref 3, .release 3, .getrefcount 3] :=
    releasesAdded_concat hfirst nofun
  have hreleases : ReleasesAdded (fun _ : ℕ => true)
      [.addref 3, .addref 7, .addref 3, .release 3, .getrefcount 3, .release 7] :=
    releasesAdded_concat hasked (by
      rintro po ⟨⟩
      decide)
  have hbefore : AsksHeld (fun _ : ℕ => true) [.addref 3, .addref 7, .addref 3, .release 3] :=
    asksHeld_of_no_getrefcount (by simp)
  have hget : AsksHeld (fun _ : ℕ => true)
      [.addref 3, .addref 7, .addref 3, .release 3, .getrefcount 3] :=
    asksHeld_concat hbefore (by
      rintro po ⟨⟩
      decide)
  have hasks : AsksHeld (fun _ : ℕ => true)
      [.addref 3, .addref 7, .addref 3, .release 3, .getrefcount 3, .release 7] :=
    asksHeld_concat hget nofun
  obtain ⟨t, hrun, hheld, hcount, -⟩ := counts_references (fun _ => true) id hreleases hasks
  have hthree : t.Held 3 := (hheld 3).mpr (by decide)
  exact ⟨t, hrun, hcount 3 hthree, fun hseven => absurd ((hheld 7).mp hseven) (by decide)⟩

/-- Asking for the count of an object that is not held leaves it in the table without references,
and growing fails. -/
theorem asks_unheld :
    ReleasesAdded (fun _ => true)
        [.getrefcount 0, .addref 1, .addref 2, .addref 3, (.addref 4 : Call ℕ)] ∧
      (∃ t, create.calls id (fun _ => true) [.getrefcount 0] = some t ∧ t.Held 0 ∧
        t ≠ create) ∧
      create.calls id (fun _ => true)
        [.getrefcount 0, .addref 1, .addref 2, .addref 3, .addref 4] = none :=
  ⟨releasesAdded_of_no_release (by simp), ⟨_, rfl, ⟨0, rfl⟩, by decide⟩, by decide⟩

end Squirt.RefTable
