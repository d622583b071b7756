import Mathlib.Data.List.Nodup
import Mathlib.Data.Set.Insert
import Mathlib.Logic.Relation

/-!
# Marking a graph depth first

What a depth-first search marks anew: from nodes that are visited one after the other, and from a
node whose successors are visited after it is marked.
-/

namespace Squirt.GraphMarking

variable {α : Type*} {succ : α → List α} {M M' : Set α} {start start' new new' : List α} {a b : α}

/-- The nodes that some of the first nodes lead to -/
def Reached (succ : α → List α) (start : List α) (a : α) : Prop :=
  ∃ s ∈ start, Relation.ReflTransGen (fun a b => b ∈ succ a) s a

theorem Reached.mono (h : Reached succ start a) (hsub : start ⊆ start') :
    Reached succ start' a := by
  obtain ⟨s, hs, hpath⟩ := h
  exact ⟨s, hsub hs, hpath⟩

/-- Where `M` is marked already, the nodes `new` are marked anew from the first nodes on. -/
structure Marks (succ : α → List α) (M : Set α) (start new : List α) : Prop where
  nodup : new.Nodup
  fresh : ∀ a ∈ new, a ∉ M
  visited : ∀ a ∈ start, a ∈ M ∨ a ∈ new
  reached : ∀ a ∈ new, Reached succ start a
  closed : ∀ a ∈ new, ∀ b ∈ succ a, b ∈ M ∨ b ∈ new

theorem marks_nil (succ : α → List α) (M : Set α) : Marks succ M [] [] :=
  ⟨List.nodup_nil, by simp, by simp, by simp, by simp⟩

theorem marks_marked (succ : α → List α) (h : a ∈ M) : Marks succ M [a] [] :=
  ⟨List.nodup_nil, by simp, by simpa using h, by simp, by simp⟩

/-- Nodes are visited one after the other. -/
theorem Marks.append (h : Marks succ M start new)
    (h' : Marks succ (M ∪ {a | a ∈ new}) start' new') :
    Marks succ M (start ++ start') (new' ++ new) := by
  have hleft : start ⊆ start ++ start' := List.subset_append_left start start'
  have hright : start' ⊆ start ++ start' := List.subset_append_right start start'
  have hnow : ∀ a, a ∈ M ∪ {a | a ∈ new} ∨ a ∈ new' → a ∈ M ∨ a ∈ new' ++ new := by
    intro a ha
    simp only [Set.mem_union, Set.mem_ofPred_eq] at ha
    rw [List.mem_append]
    tauto
  have hbefore : ∀ a, a ∈ M ∨ a ∈ new → a ∈ M ∨ a ∈ new' ++ new := fun a ha =>
    hnow a (.inl ha)
  refine ⟨?_, fun a ha => ?_, fun a ha => ?_, fun a ha => ?_, fun a ha b hb => ?_⟩
  · rw [List.nodup_append]
    exact ⟨h'.nodup, h.nodup, fun a ha b hb heq => h'.fresh a ha (.inr (heq ▸ hb))⟩
  · cases List.mem_append.mp ha with
    | inl ha => exact fun hM => h'.fresh a ha (.inl hM)
    | inr ha => exact h.fresh a ha
  · cases List.mem_append.mp ha with
    | inl ha => exact hbefore a (h.visited a ha)
    | inr ha => exact hnow a (h'.visited a ha)
  · cases List.mem_append.mp ha with
    | inl ha => exact (h'.reached a ha).mono hright
    | inr ha => exact (h.reached a ha).mono hleft
  · cases List.mem_append.mp ha with
    | inl ha => exact hnow b (h'.closed a ha b hb)
    | inr ha => exact hbefore b (h.closed a ha b hb)

/-- A node is marked before its successors are visited. -/
theorem Marks.node (h : Marks succ (insert a M) (succ a) new) (ha : a ∉ M) :
    Marks succ M [a] (a :: new) := by
  have hnew : a ∉ new := fun hmem => h.fresh a hmem (Set.mem_insert a M)
  have hmarked : ∀ b, b ∈ insert a M ∨ b ∈ new → b ∈ M ∨ b ∈ a :: new := by
    intro b hb
    rw [Set.mem_insert_iff] at hb
    rw [List.mem_cons]
    tauto
  refine ⟨List.nodup_cons.mpr ⟨hnew, h.nodup⟩, fun b hb => ?_, by simp, fun b hb => ?_,
    fun b hb c hc => ?_⟩
  · cases hb with
    | head => exact ha
    | tail _ hb => exact fun hM => h.fresh b hb (Set.mem_insert_of_mem a hM)
  · cases hb with
    | head => exact ⟨a, by simp, .refl⟩
    | tail _ hb =>
      obtain ⟨s, hs, hpath⟩ := h.reached b hb
      exact ⟨a, by simp, .head hs hpath⟩
  · cases hb with
    | head => exact hmarked c (h.visited c hc)
    | tail _ hb => exact hmarked c (h.closed b hb c hc)

/-- Where nothing is marked before, exactly what can be reached is marked. -/
theorem Marks.mem_iff (h : Marks succ ∅ start new) : a ∈ new ↔ Reached succ start a := by
  constructor
  · exact h.reached a
  · rintro ⟨s, hs, hpath⟩
    induction hpath with
    | refl => exact (h.visited s hs).resolve_left (Set.notMem_empty s)
    | tail _ hsucc ih => exact (h.closed _ ih _ hsucc).resolve_left (Set.notMem_empty _)

end Squirt.GraphMarking
