import Mathlib.Data.Finset.Card
import Squirt.DoublyLinked
import Squirt.GarbageCollector
import Squirt.GraphMarking

/-!
# Marking

`RunMark` takes exactly the objects that the roots lead to out of the chain of all objects and puts
them in a chain of their own.
-/

namespace Squirt.Collector

open DoublyLinked GraphMarking

variable {links : Links} {chain : Option ℕ} {l l₁ l₂ objects start new : List ℕ} {c i j : ℕ}
  {g h : Heap} {s s' : Marking} {roots : Roots} {depth : ℕ}

/-! ## Chains -/

theorem linked_addToChain (h : Linked links.next links.prev none chain l) (hc : c ∉ l) :
    Linked (addToChain links chain c).1.next (addToChain links chain c).1.prev none
      (addToChain links chain c).2 (c :: l) := by
  have hpush := h.push hc
  cases chain with
  | none => exact hpush
  | some first => exact hpush

/-- Only the links of the new object and of the first one change. -/
theorem addToChain_others (h : Linked links.next links.prev none chain l) (hi : i ∉ l)
    (hc : i ≠ c) :
    (addToChain links chain c).1.next i = links.next i ∧
      (addToChain links chain c).1.prev i = links.prev i := by
  cases chain with
  | none => exact ⟨Function.update_of_ne hc _ _, Function.update_of_ne hc _ _⟩
  | some first =>
    have hfirst : first ∈ l := List.mem_of_mem_head? h.head.symm
    have hne : i ≠ first := (ne_of_mem_of_not_mem hfirst hi).symm
    refine ⟨Function.update_of_ne hc _ _, ?_⟩
    exact (Function.update_of_ne hne _ _).trans (Function.update_of_ne hc _ _)

theorem removeFromChain_eq (links : Links) (chain : Option ℕ) (c : ℕ) :
    (removeFromChain links chain c).1.next =
        Function.update (Linked.cut links.next links.prev c).1 c none ∧
      (removeFromChain links chain c).1.prev =
        Function.update (Linked.cut links.next links.prev c).2 c none ∧
      (removeFromChain links chain c).2 = (links.prev c).elim (links.next c) fun _ => chain := by
  have hnext : ∀ p, Function.update links.next p (links.next c) c = links.next c := by
    intro p
    rw [Function.update_apply]
    exact ite_self _
  unfold removeFromChain Linked.cut
  cases hprev : links.prev c with
  | none => cases hn : links.next c <;> simp [hn, hprev]
  | some p =>
    simp only [hnext]
    cases hn : links.next c <;> simp [hprev]

private theorem linked_removeFromChain (h : Linked links.next links.prev none chain l)
    (hc : c ∈ l) :
    Linked (removeFromChain links chain c).1.next (removeFromChain links chain c).1.prev none
      (removeFromChain links chain c).2 (l.erase c) := by
  obtain ⟨hnext, hprev, hchain⟩ := removeFromChain_eq links chain c
  have hcut := h.cutOut hc (by simp)
  have hfirst : (removeFromChain links chain c).2 = Linked.without links.next chain c := by
    have hiff := h.prev_eq_none_iff hc
    rw [hchain, Linked.without]
    cases hnone : links.prev c with
    | none => rw [if_pos (hiff.mp hnone), Option.elim_none]
    | some p => rw [if_neg (mt hiff.mpr (by simp [hnone])), Option.elim_some]
  have hne : ∀ b ∈ l.erase c, b ≠ c := fun b hb heq =>
    h.nodup.not_mem_erase (heq ▸ hb)
  rw [hnext, hprev, hfirst]
  exact hcut.congr (fun b hb => Function.update_of_ne (hne b hb) _ _)
    fun b hb => Function.update_of_ne (hne b hb) _ _

/-- Only links in the chain change. -/
theorem removeFromChain_others (h : Linked links.next links.prev none chain l) (hc : c ∈ l)
    (hi : i ∉ l) : (removeFromChain links chain c).1.next i = links.next i ∧
      (removeFromChain links chain c).1.prev i = links.prev i := by
  obtain ⟨hnext, hprev, -⟩ := removeFromChain_eq links chain c
  have hne : ∀ b ∈ l, i ≠ b := fun b hb => (ne_of_mem_of_not_mem hb hi).symm
  rw [hnext, hprev, Function.update_of_ne (hne c hc), Function.update_of_ne (hne c hc), Linked.cut]
  constructor
  · cases hp : links.prev c with
    | none => rfl
    | some p =>
      cases h.prev_mem hc with
      | inl hfirst => simp [hfirst.1] at hp
      | inr hother =>
        obtain ⟨d, hd, hprev⟩ := hother
        obtain rfl : p = d := Option.some.inj (hp.symm.trans hprev)
        exact Function.update_of_ne (hne p hd) _ _
  · cases hn : links.next c with
    | none => rfl
    | some n => exact Function.update_of_ne (hne n (h.next_mem hc hn)) _ _

/-- The objects `l₁` are in the chain of all objects, in this order, and `l₂` in that of the marked
ones. -/
structure Chains (s : Marking) (l₁ l₂ : List ℕ) : Prop where
  all : Linked s.heap.links.next s.heap.links.prev none s.heap.gcChain l₁
  marked : Linked s.heap.links.next s.heap.links.prev none s.chain l₂
  disjoint : ∀ i ∈ l₁, i ∉ l₂

/-- An object goes over to the marked ones. -/
theorem Chains.endMark (h : Chains s l₁ l₂) (hi : i ∈ l₁) :
    Chains (s.endMark i) (l₁.erase i) (i :: l₂) := by
  have hothers : ∀ j ∈ l₂, j ∉ l₁ := fun j hj hj' => h.disjoint j hj' hj
  have hremoved := linked_removeFromChain h.all hi
  have hkept : Linked (removeFromChain s.heap.links s.heap.gcChain i).1.next
      (removeFromChain s.heap.links s.heap.gcChain i).1.prev none s.chain l₂ :=
    h.marked.congr (fun j hj => (removeFromChain_others h.all hi (hothers j hj)).1)
      fun j hj => (removeFromChain_others h.all hi (hothers j hj)).2
  have hnot : ∀ j ∈ l₁.erase i, j ∉ l₂ := fun j hj => h.disjoint j (List.mem_of_mem_erase hj)
  have hne : ∀ j ∈ l₁.erase i, j ≠ i := fun j hj heq => h.all.nodup.not_mem_erase (heq ▸ hj)
  refine ⟨?_, linked_addToChain hkept (h.disjoint i hi), fun j hj => ?_⟩
  · exact hremoved.congr (fun j hj => (addToChain_others hkept (hnot j hj) (hne j hj)).1)
      fun j hj => (addToChain_others hkept (hnot j hj) (hne j hj)).2
  · rw [List.mem_cons, not_or]
    exact ⟨hne j hj, hnot j hj⟩

/-! ## Visits -/

theorem marks_congr (hobject : h.object = g.object) : h.marks = g.marks := by
  funext i
  have hnvalues : h.nvalues = g.nvalues := by
    funext c
    rw [Heap.nvalues, Heap.nvalues, hobject]
  rw [Heap.marks, Heap.marks, hobject, hnvalues]

/-- A state while the objects are marked: those in the chain of the marked ones are marked. -/
structure Visiting (g : Heap) (objects : List ℕ) (s : Marking) (l₁ l₂ : List ℕ) : Prop where
  chains : Chains s l₁ l₂
  object : s.heap.object = g.object
  mem_iff : ∀ i, i ∈ objects ↔ i ∈ l₁ ∨ i ∈ l₂
  marked : ∀ i ∈ l₂, s.heap.marked i = true

def unmarked (objects : List ℕ) (s : Marking) : ℕ :=
  (objects.toFinset.filter fun i => s.heap.marked i = false).card

/-- The objects `new` are marked in visits from some on. -/
structure Visited (g : Heap) (objects start : List ℕ) (s s' : Marking) (l₁ l₂ new : List ℕ) :
    Prop where
  marks : Marks g.marks {i | s.heap.marked i = true} start new
  marked : ∀ i, s'.heap.marked i = true ↔ s.heap.marked i = true ∨ i ∈ new
  visiting : Visiting g objects s' (l₁.filter (· ∉ new)) (new ++ l₂)

private theorem Visited.unmarked_le (h : Visited g objects start s s' l₁ l₂ new) :
    unmarked objects s' ≤ unmarked objects s := by
  apply Finset.card_le_card
  intro i hi
  rw [Finset.mem_filter, Bool.eq_false_iff] at hi ⊢
  exact ⟨hi.1, fun hmarked => hi.2 ((h.marked i).mpr (.inl hmarked))⟩

theorem Visiting.refl (h : Visiting g objects s l₁ l₂) {start : List ℕ}
    (hmarks : Marks g.marks {i | s.heap.marked i = true} start []) :
    Visited g objects start s s l₁ l₂ [] := by
  refine ⟨hmarks, by simp, ?_⟩
  simpa using h

theorem Visited.trans {start' new' : List ℕ} {s'' : Marking}
    (h : Visited g objects start s s' l₁ l₂ new)
    (h' : Visited g objects start' s' s'' (l₁.filter (· ∉ new)) (new ++ l₂) new') :
    Visited g objects (start ++ start') s s'' l₁ l₂ (new' ++ new) := by
  have hset : {i | s'.heap.marked i = true} = {i | s.heap.marked i = true} ∪ {i | i ∈ new} :=
    Set.ext h.marked
  refine ⟨h.marks.append (hset ▸ h'.marks), fun i => ?_, ?_⟩
  · rw [h'.marked, h.marked, List.mem_append]
    tauto
  · have hvisiting := h'.visiting
    rw [List.filter_filter, ← List.append_assoc] at hvisiting
    convert hvisiting using 2
    funext i
    simp [not_or]

/-- Every object is marked as `mark` with less depth marks those it visits. -/
def MarksAll (g : Heap) (objects : List ℕ) (depth : ℕ) : Prop :=
  ∀ i s l₁ l₂, i ∈ objects → Visiting g objects s l₁ l₂ → unmarked objects s < depth →
    ∃ s' new, mark depth i s = some s' ∧ Visited g objects [i] s s' l₁ l₂ new

theorem MarksAll.visits (hall : MarksAll g objects depth) (hstart : ∀ i ∈ start, i ∈ objects)
    (h : Visiting g objects s l₁ l₂) (hdepth : unmarked objects s < depth) :
    ∃ s' new, start.foldlM (fun s j => mark depth j s) s = some s' ∧
      Visited g objects start s s' l₁ l₂ new := by
  induction start generalizing s l₁ l₂ with
  | nil => exact ⟨s, [], rfl, h.refl (marks_nil _ _)⟩
  | cons i start ih =>
    obtain ⟨s₁, new₁, hrun, h₁⟩ := hall i s l₁ l₂ (hstart i List.mem_cons_self) h hdepth
    obtain ⟨s₂, new₂, hrun', h₂⟩ := ih (fun j hj => hstart j (List.mem_cons_of_mem _ hj))
      h₁.visiting (h₁.unmarked_le.trans_lt hdepth)
    refine ⟨s₂, new₂ ++ new₁, ?_, h₁.trans h₂⟩
    rw [List.foldlM_cons, hrun]
    exact hrun'

private theorem unmarked_setMark (hi : i ∈ objects) (hunmarked : s.heap.marked i = false) :
    unmarked objects (s.setMark i) < unmarked objects s := by
  have hsub : (objects.toFinset.filter fun j => (s.setMark i).heap.marked j = false) ⊆
      objects.toFinset.filter fun j => s.heap.marked j = false := by
    intro j hj
    rw [Finset.mem_filter, Marking.marked_setMark] at hj
    rw [Finset.mem_filter]
    split at hj <;> simp_all
  apply Finset.card_lt_card
  rw [Finset.ssubset_iff_of_subset hsub]
  refine ⟨i, ?_, ?_⟩
  · rw [Finset.mem_filter, List.mem_toFinset]
    exact ⟨hi, hunmarked⟩
  · simp

private theorem marksAll (hclosed : ∀ i ∈ objects, ∀ j ∈ g.marks i, j ∈ objects) (depth : ℕ) :
    MarksAll g objects depth := by
  induction depth with
  | zero =>
    intro i s l₁ l₂ hi h hdepth
    cases hdepth
  | succ depth ih =>
    intro i s l₁ l₂ hi h hdepth
    rw [mark]
    split
    · rename_i hmarked
      exact ⟨s, [], rfl, h.refl (marks_marked _ hmarked)⟩
    · rename_i hunmarked
      rw [Bool.not_eq_true] at hunmarked
      have hmem : i ∈ l₁ := by
        refine ((h.mem_iff i).mp hi).resolve_right fun hi₂ => ?_
        simp [h.marked i hi₂] at hunmarked
      have hset : {j | (s.setMark i).heap.marked j = true} =
          insert i {j | s.heap.marked j = true} := by
        ext j
        rw [Set.mem_insert_iff, Set.mem_ofPred_eq, Set.mem_ofPred_eq, Marking.marked_setMark]
        split <;> simp_all
      have hstart : Visiting g objects (s.setMark i) l₁ l₂ := by
        refine ⟨⟨h.chains.all, h.chains.marked, h.chains.disjoint⟩, h.object, h.mem_iff,
          fun j hj => ?_⟩
        rw [Marking.marked_setMark, h.marked j hj, ite_self]
      have hless : unmarked objects (s.setMark i) < depth := by
        have hlt := unmarked_setMark hi hunmarked
        omega
      obtain ⟨s₁, new, hrun, h₁⟩ := ih.visits (hclosed i hi) hstart hless
      rw [marks_congr h.object, hrun]
      have hmarks := h₁.marks
      rw [hset] at hmarks
      have hnew : i ∉ new := fun hnew => hmarks.fresh i hnew (Set.mem_insert i _)
      have hin : i ∈ l₁.filter (· ∉ new) := by
        rw [List.mem_filter]
        exact ⟨hmem, by simpa using hnew⟩
      have hmarked : ∀ j, (s₁.endMark i).heap.marked j = true ↔
          s.heap.marked j = true ∨ j ∈ i :: new := by
        intro j
        have hj : (s₁.endMark i).heap.marked j = true ↔
            j ∈ {j | (s.setMark i).heap.marked j = true} ∨ j ∈ new := h₁.marked j
        rw [hj, hset, Set.mem_insert_iff, List.mem_cons, Set.mem_ofPred_eq]
        tauto
      have herase : (l₁.filter (· ∉ new)).erase i = l₁.filter (· ∉ i :: new) := by
        rw [h₁.visiting.chains.all.nodup.erase_eq_filter, List.filter_filter]
        congr 1
        funext j
        by_cases hji : j = i <;> simp [hji]
      have hchains := h₁.visiting.chains.endMark hin
      rw [herase] at hchains
      refine ⟨s₁.endMark i, i :: new, rfl, hmarks.node (by simp [hunmarked]), hmarked,
        hchains, h₁.visiting.object, fun j => ?_, fun j hj => ?_⟩
      · rw [h₁.visiting.mem_iff]
        by_cases hji : j = i
        · simp [hji, hmem, hnew]
        · simp [hji]
      · rw [hmarked]
        cases hj with
        | head => exact .inr List.mem_cons_self
        | tail _ hj =>
          cases List.mem_append.mp hj with
          | inl hj => exact .inr (List.mem_cons_of_mem _ hj)
          | inr hj => exact .inl (h.marked j hj)

/-! ## `RunMark` -/

/-- A heap between two runs of the collector: all objects are in the chain, in the order `objects`,
and they refer to each other. -/
structure Formed (h : Heap) (roots : Roots) (objects : List ℕ) : Prop where
  linked : Linked h.links.next h.links.prev none h.gcChain objects
  unmarked : ∀ i, h.marked i = false
  closed : ∀ i ∈ objects, ∀ j ∈ h.marks i, j ∈ objects
  roots : ∀ j ∈ roots.marks, j ∈ objects

/-- The roots lead to the object. -/
def Reachable (h : Heap) (roots : Roots) : ℕ → Prop := Reached h.marks roots.marks

/-- The objects after `RunMark`: the unreachable ones are in the chain of all objects, in order, and
the others in the chain of the marked ones. -/
structure Parted (h : Heap) (roots : Roots) (objects : List ℕ) (s : Marking) (lost kept : List ℕ) :
    Prop where
  object : s.heap.object = h.object
  chains : Chains s lost kept
  sublist : lost.Sublist objects
  mem_iff : ∀ i, i ∈ objects ↔ i ∈ lost ∨ i ∈ kept
  kept_iff : ∀ i, i ∈ kept ↔ Reachable h roots i
  marked : ∀ i, s.heap.marked i = true ↔ i ∈ kept

theorem runMark_parted (hf : Formed h roots objects) (hdepth : objects.length < depth) :
    ∃ s lost kept, runMark depth roots h = some s ∧ Parted h roots objects s lost kept := by
  have hstart : Visiting h objects ⟨h, none⟩ objects [] :=
    ⟨⟨hf.linked, rfl, by simp⟩, rfl, by simp, by simp⟩
  have hle : unmarked objects ⟨h, none⟩ ≤ objects.length :=
    (Finset.card_filter_le _ _).trans (List.toFinset_card_le objects)
  obtain ⟨s, kept, hrun, hvisited⟩ :=
    (marksAll hf.closed depth).visits hf.roots hstart (hle.trans_lt hdepth)
  have hvisiting := hvisited.visiting
  have hmarks := hvisited.marks
  have hnone : {i | h.marked i = true} = ∅ := Set.ext fun i => by simp [hf.unmarked i]
  rw [hnone] at hmarks
  rw [List.append_nil] at hvisiting
  refine ⟨s, _, kept, hrun, hvisiting.object, hvisiting.chains, List.filter_sublist,
    hvisiting.mem_iff, fun i => hmarks.mem_iff, fun i => ?_⟩
  rw [hvisited.marked]
  simp [hf.unmarked i]

namespace Parted

variable {lost kept : List ℕ} (hp : Parted h roots objects s lost kept)
include hp

theorem lost_iff (hi : i ∈ objects) : i ∈ lost ↔ ¬Reachable h roots i := by
  rw [← hp.kept_iff]
  constructor
  · exact hp.chains.disjoint i
  · exact ((hp.mem_iff i).mp hi).resolve_right

/-- What an object that is kept refers to is kept. -/
theorem closed (hi : i ∈ kept) (hj : j ∈ h.marks i) : j ∈ kept := by
  rw [hp.kept_iff] at hi ⊢
  obtain ⟨r, hr, hpath⟩ := hi
  exact ⟨r, hr, hpath.tail hj⟩

theorem roots_kept (hj : j ∈ roots.marks) : j ∈ kept := (hp.kept_iff j).mpr ⟨j, hj, .refl⟩

theorem length_le : lost.length + kept.length ≤ objects.length := by
  have hnodup : (lost ++ kept).Nodup := by
    rw [List.nodup_append]
    exact ⟨hp.chains.all.nodup, hp.chains.marked.nodup, fun i hi j hj heq =>
      hp.chains.disjoint i hi (heq ▸ hj)⟩
  have hsub : lost ++ kept ⊆ objects := fun i hi =>
    (hp.mem_iff i).mpr (List.mem_append.mp hi)
  have hlength := (hnodup.subperm hsub).length_le
  rwa [List.length_append] at hlength

end Parted

end Squirt.Collector
