import Squirt.MarkPhase

/-!
# Handing out what is unreachable

`ResurrectUnreachable` hands out exactly the objects that the roots do not lead to, each once, and
loses none: all objects are in one chain again, with the new array between.
-/

namespace Squirt.Collector

open DoublyLinked GraphMarking

variable {links : Links} {chain before rlast : Option ℕ} {l l₁ l₂ objects lost kept : List ℕ}
  {i n ret fuel : ℕ} {h h' : Heap} {s : Marking} {roots : Roots} {vs : List SQObjectPtr}

namespace Heap

/-! ## The loops -/

theorem unMarkLoop_spec (hl : Linked h.links.next h.links.prev before chain l)
    (hfuel : l.length ≤ fuel) :
    h.unMarkLoop fuel chain = some { h with marked := fun i => decide (i ∉ l) && h.marked i } := by
  induction l generalizing h before chain fuel with
  | nil =>
    obtain rfl : chain = none := hl
    rw [unMarkLoop]
    simp
  | cons t l ih =>
    obtain ⟨rfl, -, hl⟩ := hl
    rw [List.length_cons] at hfuel
    obtain ⟨fuel, rfl⟩ : ∃ f, fuel = f + 1 := ⟨fuel - 1, by omega⟩
    rw [unMarkLoop]
    have hrest : l.length ≤ fuel := by omega
    refine (ih (h := { h with marked := Function.update h.marked t false }) hl hrest).trans ?_
    congr 2
    funext i
    by_cases hit : i = t
    · simp [hit]
    · simp [hit]

/-- The objects that are handed out -/
def handed (h : Heap) (lost : List ℕ) : List SQObjectPtr :=
  (lost.filter fun i => (h.object i).getType ≠ .funcproto ∧ (h.object i).getType ≠ .outer).map
    fun i => ⟨(h.object i).getType, i⟩

/-- The heap with the objects handed out in the array -/
def handing (h : Heap) (ret : ℕ) (vs : List SQObjectPtr) : Heap :=
  { h with object := Function.update h.object ret (.array ⟨vs⟩) }

private theorem append_handing (h : Heap) (ret : ℕ) (vs : List SQObjectPtr) (o : SQObjectPtr) :
    (h.handing ret vs).append ret o = h.handing ret (vs ++ [o]) := by
  rw [append, handing, handing]
  simp

private theorem resurrectLoop_spec (hl : Linked h.links.next h.links.prev before chain l)
    (hret : ret ∉ l)
    (hfuel : l.length ≤ fuel) :
    (h.handing ret vs).resurrectLoop ret fuel chain rlast n =
      some (h.handing ret (vs ++ h.handed l), l.getLast?.or rlast, n + l.length) := by
  induction l generalizing before chain fuel vs rlast n with
  | nil =>
    obtain rfl : chain = none := hl
    rw [resurrectLoop]
    simp [handed]
  | cons t l ih =>
    obtain ⟨rfl, -, hl⟩ := hl
    rw [List.length_cons] at hfuel
    rw [List.mem_cons, not_or] at hret
    obtain ⟨fuel, rfl⟩ : ∃ f, fuel = f + 1 := ⟨fuel - 1, by omega⟩
    have hobject : (h.handing ret vs).object t = h.object t :=
      Function.update_of_ne (Ne.symm hret.1) _ _
    have hlast : ∀ r : Option ℕ, (t :: l).getLast?.or r = l.getLast?.or (some t) := by
      intro r
      cases l with
      | nil => rfl
      | cons a l => simp [List.getLast?_cons]
    rw [resurrectLoop, hobject, hlast, List.length_cons, ← Nat.add_assoc, Nat.add_right_comm]
    split
    · rename_i htype
      rw [append_handing]
      refine (ih hl hret.2 (by omega)).trans ?_
      simp [handed, htype]
    · rename_i htype
      refine (ih hl hret.2 (by omega)).trans ?_
      simp [handed, htype]

end Heap

/-! ## What is marked with the array in the heap -/

private theorem marks_update (hi : i ≠ ret) (hret : ret ∉ h.marks i) (o : SQCollectable)
    (hobject : h'.object = Function.update h.object ret o) : h'.marks i = h.marks i := by
  have hself : h'.object i = h.object i := by
    rw [hobject]
    exact Function.update_of_ne hi _ _
  have hnvalues : ∀ c, c ≠ ret → h'.nvalues c = h.nvalues c := by
    intro c hc
    rw [Heap.nvalues, Heap.nvalues, hobject, Function.update_of_ne hc]
  rw [Heap.marks] at hret ⊢
  rw [Heap.marks, hself]
  cases hkind : h.object i with
  | inst x =>
    rw [hkind] at hret
    cases hclass : x.clazz with
    | none => simp [SQCollectable.marks, SQInstance.marks, hclass]
    | some c =>
      have hc : c ≠ ret := by
        rintro rfl
        simp [SQCollectable.marks, SQInstance.marks, hclass] at hret
      simp only [SQCollectable.marks, SQInstance.marks, hclass, Option.elim_some, hnvalues c hc]
  | _ => rfl

private theorem markObject_handed (lost : List ℕ) :
    ∀ o ∈ h.handed lost, ∀ j ∈ markObject o, j ∈ lost := by
  intro o ho j hj
  obtain ⟨t, ht, rfl⟩ := List.mem_map.mp ho
  obtain rfl := eq_of_mem_markObject hj
  exact List.mem_of_mem_filter ht

/-! ## `ResurrectUnreachable` -/

/-- The new array is put in front of the reachable objects. -/
theorem chains_createArray (h : Chains s lost kept) (hlost : ret ∉ lost) (hkept : ret ∉ kept) :
    Linked (({ s.heap with gcChain := s.chain } : Heap).createArray ret).links.next
        (({ s.heap with gcChain := s.chain } : Heap).createArray ret).links.prev none
        s.heap.gcChain lost ∧
      Linked (({ s.heap with gcChain := s.chain } : Heap).createArray ret).links.next
        (({ s.heap with gcChain := s.chain } : Heap).createArray ret).links.prev none
        (some ret) (ret :: kept) := by
  have hne : ∀ {l : List ℕ}, ret ∉ l → ∀ i ∈ l, i ≠ ret := fun hl i hi =>
    ne_of_mem_of_not_mem hi hl
  have hfresh : ∀ {chain : Option ℕ} {l : List ℕ}, ret ∉ l →
      Linked s.heap.links.next s.heap.links.prev none chain l →
      Linked (Function.update s.heap.links.next ret none)
        (Function.update s.heap.links.prev ret none) none chain l := fun hl h =>
    h.congr (fun i hi => Function.update_of_ne (hne hl i hi) _ _)
      fun i hi => Function.update_of_ne (hne hl i hi) _ _
  have hfirst := hfresh hkept h.marked
  refine ⟨(hfresh hlost h.all).congr (fun i hi => ?_) fun i hi => ?_, linked_addToChain hfirst hkept⟩
  · exact (addToChain_others hfirst (h.disjoint i hi) (hne hlost i hi)).1
  · exact (addToChain_others hfirst (h.disjoint i hi) (hne hlost i hi)).2

private theorem rejoin_object (h : Heap) (t : ℕ) (chain : Option ℕ) :
    (rejoin h (some t) chain).object = h.object ∧ (rejoin h (some t) chain).marked = h.marked := by
  unfold rejoin
  cases h.gcChain <;> exact ⟨rfl, rfl⟩

/-- The unreachable objects are put in front of the others. -/
theorem linked_rejoin {t : ℕ} (h₁ : Linked h.links.next h.links.prev none chain (l₁ ++ [t]))
    (h₂ : Linked h.links.next h.links.prev none h.gcChain l₂) (hdisjoint : ∀ i ∈ l₁ ++ [t], i ∉ l₂) :
    Linked (rejoin h (some t) chain).links.next (rejoin h (some t) chain).links.prev none
      (rejoin h (some t) chain).gcChain (l₁ ++ t :: l₂) := by
  have hjoin := h₁.join h₂ hdisjoint
  rw [rejoin]
  cases hfirst : h.gcChain with
  | none =>
    rw [hfirst] at hjoin
    exact hjoin
  | some first =>
    rw [hfirst] at hjoin
    exact hjoin

private theorem resurrectUnreachable_nothing (hrun : runMark fuel roots h = some s)
    (hp : Parted h roots objects s [] kept) (hfuel : objects.length + 1 < fuel) :
    ∃ h', resurrectUnreachable fuel roots ret h = some (h', 0, .null) ∧ h'.object = h.object ∧
      Formed h' roots kept := by
  have hnone : s.heap.gcChain = none := hp.chains.all
  have hlength := hp.length_le
  rw [List.length_nil] at hlength
  have hunmark := Heap.unMarkLoop_spec (h := { s.heap with gcChain := s.chain }) hp.chains.marked
    (show kept.length ≤ fuel by omega)
  refine ⟨⟨s.heap.object, s.heap.links, fun i => decide (i ∉ kept) && s.heap.marked i, s.chain⟩, ?_,
    hp.object, hp.chains.marked, fun i => ?_, fun i hi j hj => ?_, fun j hj => ?_⟩
  · rw [resurrectUnreachable, hrun]
    dsimp only [Option.bind_eq_bind, Option.bind_some]
    rw [hnone]
    dsimp only
    rw [hunmark]
    rfl
  · have hiff := hp.marked i
    by_cases hi : i ∈ kept <;> simp_all
  · have hmarks : s.heap.marks = h.marks := marks_congr hp.object
    have hj : j ∈ s.heap.marks i := hj
    rw [hmarks] at hj
    exact hp.closed hi hj
  · exact hp.roots_kept hj

private theorem resurrectUnreachable_handed (hf : Formed h roots objects)
    (hrun : runMark fuel roots h = some s) (hp : Parted h roots objects s lost kept)
    (hlost : lost ≠ []) (hret : ret ∉ objects) (hfuel : objects.length + 1 < fuel) :
    ∃ h', resurrectUnreachable fuel roots ret h = some (h', lost.length, ⟨.array, ret⟩) ∧
      h'.object = (h.handing ret (h.handed lost)).object ∧ Formed h' roots (lost ++ ret :: kept) := by
  have hlength := hp.length_le
  have hretlost : ret ∉ lost := fun hmem => hret ((hp.mem_iff ret).mpr (.inl hmem))
  have hretkept : ret ∉ kept := fun hmem => hret ((hp.mem_iff ret).mpr (.inr hmem))
  obtain ⟨first, hfirst⟩ : ∃ first, s.heap.gcChain = some first := by
    rw [hp.chains.all.head]
    exact Option.ne_none_iff_exists'.mp (mt List.head?_eq_none_iff.mp hlost)
  obtain ⟨hall, hmarked⟩ := chains_createArray hp.chains hretlost hretkept
  -- the new array is empty in a heap that is `h` but for the links and marks
  let g : Heap := { ({ s.heap with gcChain := s.chain } : Heap).createArray ret with
    object := s.heap.object }
  have hcreate : ({ s.heap with gcChain := s.chain } : Heap).createArray ret = g.handing ret [] := rfl
  have hloop : (g.handing ret []).resurrectLoop ret fuel s.heap.gcChain none 0 =
      some (g.handing ret ([] ++ g.handed lost), lost.getLast?.or none, 0 + lost.length) :=
    Heap.resurrectLoop_spec hall hretlost (by omega)
  obtain ⟨l, t, rfl⟩ : ∃ l t, lost = l ++ [t] := by
    rcases List.eq_nil_or_concat lost with hnil | ⟨l, t, hl⟩
    · exact absurd hnil hlost
    · exact ⟨l, t, by simpa using hl⟩
  have hobjects : g.handed (l ++ [t]) = h.handed (l ++ [t]) := by
    rw [Heap.handed, Heap.handed, show g.object = h.object from hp.object]
  rw [hobjects, List.nil_append, Nat.zero_add, List.getLast?_concat] at hloop
  have hdisjoint : ∀ i ∈ l ++ [t], i ∉ ret :: kept := by
    intro i hi
    rw [List.mem_cons, not_or]
    exact ⟨ne_of_mem_of_not_mem hi hretlost, hp.chains.disjoint i hi⟩
  let h₁ := rejoin (g.handing ret (h.handed (l ++ [t]))) (some t) s.heap.gcChain
  have hlinked : Linked h₁.links.next h₁.links.prev none h₁.gcChain (l ++ t :: ret :: kept) :=
    linked_rejoin hall hmarked hdisjoint
  have hmem : ∀ i, i ∈ l ++ t :: ret :: kept ↔ i ∈ l ++ [t] ∨ i = ret ∨ i ∈ kept := by
    intro i
    simp [or_assoc]
  have hunmark : h₁.unMarkLoop fuel h₁.gcChain = _ := Heap.unMarkLoop_spec hlinked (by
    simp only [List.length_append, List.length_cons, List.length_nil] at hlength ⊢
    omega)
  obtain ⟨hsame, hmarks⟩ :=
    rejoin_object (g.handing ret (h.handed (l ++ [t]))) t s.heap.gcChain
  have hobject : h₁.object = Function.update h.object ret (.array ⟨h.handed (l ++ [t])⟩) := by
    rw [← hp.object]
    exact hsame
  rw [show l ++ [t] ++ ret :: kept = l ++ t :: ret :: kept by simp]
  refine ⟨{ h₁ with marked := fun i => decide (i ∉ l ++ t :: ret :: kept) && h₁.marked i }, ?_,
    hobject, hlinked, fun i => ?_, fun i hi j hj => ?_, fun j hj => ?_⟩
  · rw [resurrectUnreachable, hrun]
    dsimp only [Option.bind_eq_bind, Option.bind_some]
    rw [hfirst]
    dsimp only
    rw [hcreate, ← hfirst, hloop]
    change (h₁.unMarkLoop fuel h₁.gcChain).bind _ = _
    rw [hunmark]
    rfl
  · by_cases hi : i ∈ l ++ t :: ret :: kept
    · simp [hi]
    · rw [hmem, not_or, not_or] at hi
      have hmarked : h₁.marked i = s.heap.marked i := by
        rw [hmarks]
        exact Function.update_of_ne hi.2.1 _ _
      have hnot := mt (hp.marked i).mp hi.2.2
      simp [hmarked, hnot]
  · have hsub : ∀ i, i ∈ objects → i ∈ l ++ t :: ret :: kept := fun i hi =>
      (hmem i).mpr (((hp.mem_iff i).mp hi).imp_right .inr)
    by_cases hiret : i = ret
    · subst hiret
      have hj : j ∈ (h₁.object i).marks _ := hj
      rw [hobject, Function.update_self] at hj
      obtain ⟨o, ho, hjo⟩ := List.mem_flatMap.mp hj
      exact (hmem j).mpr (.inl (markObject_handed _ o ho j hjo))
    · have hin : i ∈ objects := by
        rw [hp.mem_iff]
        exact ((hmem i).mp hi).imp_right fun hi => hi.resolve_left hiret
      have hmarks : h₁.marks i = h.marks i :=
        marks_update hiret (fun hmarks => hret (hf.closed i hin ret hmarks)) _ hobject
      have hj : j ∈ h₁.marks i := hj
      rw [hmarks] at hj
      exact hsub j (hf.closed i hin j hj)
  · exact (hmem j).mpr (.inr (.inr (hp.roots_kept hj)))

/-- What `ResurrectUnreachable` does: `lost` are the objects it counts, and `kept` the others. -/
structure Resurrects (h h' : Heap) (roots : Roots) (ret : ℕ) (objects lost kept : List ℕ) (n : ℕ)
    (pushed : SQObjectPtr) : Prop where
  sublist : lost.Sublist objects
  lost_iff : ∀ i ∈ objects, i ∈ lost ↔ ¬Reachable h roots i
  kept_iff : ∀ i, i ∈ kept ↔ Reachable h roots i
  counted : n = lost.length
  nothing : lost = [] → pushed = .null ∧ h'.object = h.object ∧ Formed h' roots kept
  handed : lost ≠ [] → pushed = ⟨.array, ret⟩ ∧ h'.object = (h.handing ret (h.handed lost)).object ∧
    Formed h' roots (lost ++ ret :: kept)

/-- `ResurrectUnreachable` hands out exactly the objects that the roots do not lead to, and all
objects are in one chain again. -/
theorem resurrects_unreachable (hf : Formed h roots objects) (hret : ret ∉ objects)
    (hfuel : objects.length + 1 < fuel) :
    ∃ h' n pushed lost kept, resurrectUnreachable fuel roots ret h = some (h', n, pushed) ∧
      Resurrects h h' roots ret objects lost kept n pushed := by
  obtain ⟨s, lost, kept, hrun, hp⟩ := runMark_parted hf (show objects.length < fuel by omega)
  by_cases hlost : lost = []
  · subst hlost
    obtain ⟨h', hresult, hobject, hformed⟩ := resurrectUnreachable_nothing hrun hp hfuel
    exact ⟨h', 0, .null, [], kept, hresult, hp.sublist, fun i => hp.lost_iff, hp.kept_iff, rfl,
      fun _ => ⟨rfl, hobject, hformed⟩, fun hne => absurd rfl hne⟩
  · obtain ⟨h', hresult, hobject, hformed⟩ :=
      resurrectUnreachable_handed hf hrun hp hlost hret hfuel
    exact ⟨h', lost.length, _, lost, kept, hresult, hp.sublist, fun i => hp.lost_iff, hp.kept_iff,
      rfl, fun heq => absurd heq hlost, fun _ => ⟨rfl, hobject, hformed⟩⟩

/-- A VM 0 with the root table 1, and the tables 2 and 3, that refer to each other only -/
def cyclicHeap : Heap where
  object i :=
    let table (delegate : Option ℕ) : SQCollectable := .table ⟨delegate, [(.null, .null)]⟩
    match i with
    | 0 => .thread ⟨.null, .null, .null, ⟨.table, 1⟩, .null, [], [], 0⟩
    | 2 => .table ⟨none, [(⟨.integer, 7⟩, ⟨.table, 3⟩)]⟩
    | 3 => table (some 2)
    | _ => table none
  links := ⟨fun i => if i < 3 then some (i + 1) else none, fun i => if i = 0 then none else some (i - 1)⟩
  marked _ := false
  gcChain := some 0

/-- Nothing but the VM -/
def vmRoots : Roots :=
  ⟨0, [], .null, .null, .null, .null, .null, .null, .null, .null, .null, .null, .null, .null, .null⟩

private theorem formed_cyclicHeap : Formed cyclicHeap vmRoots [0, 1, 2, 3] := by
  refine ⟨?_, fun _ => rfl, ?_, by decide⟩
  · exact ⟨rfl, rfl, rfl, rfl, rfl, rfl, rfl, rfl, rfl⟩
  · decide

theorem resurrects_unreachable_cyclicHeap :
    ∃ h' n pushed lost kept, resurrectUnreachable 6 vmRoots 9 cyclicHeap = some (h', n, pushed) ∧
      Resurrects cyclicHeap h' vmRoots 9 [0, 1, 2, 3] lost kept n pushed :=
  resurrects_unreachable formed_cyclicHeap (by decide) (by decide)

end Squirt.Collector
