import Mathlib.Logic.Relation
import Mathlib.Logic.Function.Basic
import Mathlib.Data.Finset.Card
import Mathlib.Data.List.Nodup
import Mathlib.Tactic.Use

/-!
# Successor links whose paths are disjoint and acyclic

Every cell has at most one successor. Acyclicity is witnessed by a rank that drops
along each link, so a path that starts anywhere ends, and it ends within as many
cells as there are. The two surgeries on links that chained hash tables perform,
linking a fresh cell in after another one and moving a cell to a fresh place, keep
both properties and say where the old paths go.
-/

namespace Squirt.LinkPaths

variable {α : Type*} {next : α → Option α} {a b n o p : α}

/-- `b` lies on the path that starts at `a`. -/
abbrev OnPath (next : α → Option α) : α → α → Prop :=
  Relation.ReflTransGen (fun x y => next x = some y)

def Acyclic (next : α → Option α) : Prop :=
  ∃ rank : α → ℕ, ∀ x y, next x = some y → rank y < rank x

def VertexDisjoint (next : α → Option α) : Prop :=
  ∀ x y z, next x = some z → next y = some z → x = y

/-- No link leads into or out of the cell. -/
structure Isolated (next : α → Option α) (n : α) : Prop where
  out : next n = none
  into : ∀ x, next x ≠ some n

/-- The complete path from a cell to the end of its chain. -/
inductive Walk (next : α → Option α) : α → List α → Prop
  | last {x} (end_ : next x = none) : Walk next x [x]
  | cons {x y l} (link : next x = some y) (tail : Walk next y l) : Walk next x (x :: l)

theorem Acyclic.next_ne (h : Acyclic next) (hl : next a = some b) : a ≠ b := by
  obtain ⟨rank, hr⟩ := h
  rintro rfl
  exact absurd (hr _ _ hl) (lt_irrefl _)

theorem Acyclic.exists_walk (h : Acyclic next) (a : α) : ∃ l, Walk next a l := by
  obtain ⟨rank, hr⟩ := h
  induction hk : rank a using Nat.strong_induction_on generalizing a with
  | _ k ih =>
    subst hk
    cases hn : next a with
    | none => exact ⟨[a], .last hn⟩
    | some b =>
      obtain ⟨l, hl⟩ := ih (rank b) (hr a b hn) b rfl
      exact ⟨a :: l, .cons hn hl⟩

theorem Walk.mem_iff {l : List α} (h : Walk next a l) (b : α) : b ∈ l ↔ OnPath next a b := by
  induction h with
  | last h =>
    constructor
    · intro hb
      rw [List.mem_singleton.mp hb]
    · intro hb
      rcases Relation.ReflTransGen.cases_head hb with rfl | ⟨c, hc, _⟩
      · simp
      · simp [h] at hc
  | cons h _ ih =>
    rw [List.mem_cons, ih]
    constructor
    · rintro (rfl | hb)
      · exact .refl
      · exact .head h hb
    · intro hb
      rcases Relation.ReflTransGen.cases_head hb with rfl | ⟨c, hc, hcb⟩
      · exact .inl rfl
      · rw [h] at hc
        exact .inr (Option.some.inj hc ▸ hcb)

private theorem Walk.rank_le {rank : α → ℕ} (hr : ∀ x y, next x = some y → rank y < rank x)
    {l : List α} (h : Walk next a l) : ∀ b ∈ l, rank b ≤ rank a := by
  induction h with
  | last => simp
  | cons h _ ih =>
    intro b hb
    rcases List.mem_cons.mp hb with rfl | hb
    · exact le_rfl
    · exact (ih b hb).trans (hr _ _ h).le

theorem Walk.nodup (hac : Acyclic next) {l : List α} (h : Walk next a l) : l.Nodup := by
  obtain ⟨rank, hr⟩ := hac
  induction h with
  | last => simp
  | cons h ht ih =>
    refine List.nodup_cons.mpr ⟨fun hm => ?_, ih⟩
    have := ht.rank_le hr _ hm
    exact absurd (hr _ _ h) (by omega)

theorem Walk.length_le (hac : Acyclic next) {l : List α} (h : Walk next a l) {s : Finset α}
    (hs : ∀ b ∈ l, b ∈ s) : l.length ≤ s.card := by
  classical
  rw [← List.toFinset_card_of_nodup (h.nodup hac)]
  exact Finset.card_le_card (fun b hb => hs b (List.mem_toFinset.mp hb))

/-- No path leads back. -/
theorem Acyclic.not_transGen (h : Acyclic next) :
    ¬ Relation.TransGen (fun x y => next x = some y) a a := by
  obtain ⟨rank, hr⟩ := h
  have hdrop : ∀ b, Relation.TransGen (fun x y => next x = some y) a b → rank b < rank a := by
    intro b hb
    induction hb with
    | single hab => exact hr _ _ hab
    | tail _ hbc ih => exact (hr _ _ hbc).trans ih
  exact fun haa => lt_irrefl _ (hdrop a haa)

section Surgery
variable [DecidableEq α]

/-- Link the cell `n` in directly behind `p`. -/
def insertAfter (next : α → Option α) (p n : α) : α → Option α :=
  Function.update (Function.update next n (next p)) p (some n)

/-- Put `n` in the place that `p` has behind `o`, and cut `p` off. -/
def relocate (next : α → Option α) (o p n : α) : α → Option α :=
  Function.update (Function.update (Function.update next o (some n)) n (next p)) p none

/-- A cell may be linked to one from which no path leads to it. -/
theorem Acyclic.update (h : Acyclic next) (hno : ¬ OnPath next b a) :
    Acyclic (Function.update next a (some b)) := by
  classical
  obtain ⟨rank, hr⟩ := h
  -- the cells from which a path leads to `a` go above all that `b` leads to
  refine ⟨fun x => rank x + if OnPath next x a then rank b + 1 else 0, ?_⟩
  intro x y hxy
  rw [Function.update_apply] at hxy
  dsimp only
  split at hxy
  · subst x
    cases hxy
    rw [if_neg hno, if_pos .refl]
    omega
  · have hlt := hr x y hxy
    by_cases hy : OnPath next y a
    · rw [if_pos hy, if_pos (.head hxy hy)]
      omega
    · rw [if_neg hy]
      omega

theorem Acyclic.update_none (h : Acyclic next) : Acyclic (Function.update next a none) := by
  obtain ⟨rank, hr⟩ := h
  refine ⟨rank, fun x y hxy => ?_⟩
  rw [Function.update_apply] at hxy
  split at hxy
  · cases hxy
  · exact hr x y hxy

/-- A path to a cell does not need the link out of it. -/
theorem OnPath.update (h : OnPath next b a) (c : Option α) :
    OnPath (Function.update next a c) b a := by
  induction h using Relation.ReflTransGen.head_induction_on with
  | refl => exact .refl
  | @head x y hxy _ ih =>
    by_cases hx : x = a
    · rw [hx]
    · apply Relation.ReflTransGen.head _ ih
      rw [Function.update_of_ne hx]
      exact hxy

/-- A link back closes a cycle. -/
theorem OnPath.transGen_update (h : OnPath next b a) :
    Relation.TransGen (fun x y => Function.update next a (some b) x = some y) a a := by
  apply Relation.TransGen.head' _ (h.update (some b))
  rw [Function.update_self]

theorem insertAfter_disjoint (h : VertexDisjoint next) (hn : Isolated next n) :
    VertexDisjoint (insertAfter next p n) := by
  intro x y z hx hy
  have hin := hn.into
  simp only [insertAfter, Function.update_apply] at hx hy
  split_ifs at hx hy with h1 h2 h3 h4 <;> grind [VertexDisjoint]

theorem insertAfter_acyclic (h : Acyclic next) (hn : Isolated next n) (hp : p ≠ n) :
    Acyclic (insertAfter next p n) := by
  obtain ⟨rank, hr⟩ := h
  -- Doubling the ranks makes room for the new cell between `p` and its old successor.
  refine ⟨fun x => if x = n then 2 * rank p + 1 else 2 * rank x + 2, fun x y hxy => ?_⟩
  have hin := hn.into
  simp only [insertAfter, Function.update_apply] at hxy
  split_ifs at hxy with h1 h2
  · simp only [Option.some.injEq] at hxy
    simp [← hxy, h1, hp]
  · have := hr p y hxy
    have hy : y ≠ n := fun hyn => hin p (hyn ▸ hxy)
    simp [h2, hy]
    omega
  · have := hr x y hxy
    have hy : y ≠ n := fun hyn => hin x (hyn ▸ hxy)
    simp [h2, hy]
    omega

theorem OnPath.insertAfter (hn : Isolated next n) (hp : p ≠ n) (h : OnPath next a b) :
    OnPath (insertAfter next p n) a b := by
  induction h with
  | refl => exact .refl
  | @tail x y _ hxy ih =>
    refine ih.trans ?_
    have hxn : x ≠ n := by
      rintro rfl
      simp [hn.out] at hxy
    by_cases hx : x = p
    · subst hx
      refine .head (b := n) (by simp [LinkPaths.insertAfter]) (.single ?_)
      simp [LinkPaths.insertAfter, Ne.symm hp, hxy]
    · exact .single (by simp [LinkPaths.insertAfter, hx, hxn, hxy])

theorem onPath_insertAfter_new : OnPath (insertAfter next p n) p n :=
  .single (by simp [insertAfter])

theorem relocate_disjoint (h : VertexDisjoint next) (hn : Isolated next n) :
    VertexDisjoint (relocate next o p n) := by
  intro x y z hx hy
  have hin := hn.into
  simp only [relocate, Function.update_apply] at hx hy
  split_ifs at hx hy <;> grind [VertexDisjoint]

theorem relocate_acyclic (h : Acyclic next) (hn : Isolated next n) (ho : next o = some p) :
    Acyclic (relocate next o p n) := by
  have hno : o ≠ n := by
    rintro rfl
    simp [hn.out] at ho
  obtain ⟨rank, hr⟩ := h
  refine ⟨fun x => if x = n then rank p else rank x, fun x y hxy => ?_⟩
  have hin := hn.into
  simp only [relocate, Function.update_apply] at hxy
  split_ifs at hxy with h1 h2 h3
  · have hy : y ≠ n := fun hyn => hin p (hyn ▸ hxy)
    simpa [h2, hy] using hr p y hxy
  · simp only [Option.some.injEq] at hxy
    simpa [← hxy, h3, hno] using hr o p ho
  · have hy : y ≠ n := fun hyn => hin x (hyn ▸ hxy)
    simpa [h2, hy] using hr x y hxy

/-- Every old path survives with `n` standing for `p`. -/
theorem OnPath.relocate (hac : Acyclic next) (hd : VertexDisjoint next) (hn : Isolated next n)
    (ho : next o = some p) (hp : p ≠ n) (h : OnPath next a b) :
    OnPath (relocate next o p n) (if a = p then n else a) (if b = p then n else b) := by
  have step (x y : α) (hxy : next x = some y) :
      LinkPaths.relocate next o p n (if x = p then n else x) = some (if y = p then n else y) := by
    have hxn : x ≠ n := by
      rintro rfl
      simp [hn.out] at hxy
    by_cases hx : x = p
    · have hy : y ≠ p := fun h => hac.next_ne hxy (hx.trans h.symm)
      subst hx
      simp [LinkPaths.relocate, Ne.symm hp, hy, hxy]
    · by_cases hy : y = p
      · have hxo : x = o := hd x o p (hy ▸ hxy) ho
        subst hxo
        simp [LinkPaths.relocate, hx, hy, hxn]
      · have hxo : x ≠ o := by
          rintro rfl
          exact hy (Option.some.inj (hxy.symm.trans ho))
        simp [LinkPaths.relocate, hx, hy, hxn, hxo, hxy]
  exact Relation.ReflTransGen.lift (fun x => if x = p then n else x) step _ _ h

end Surgery
end Squirt.LinkPaths
