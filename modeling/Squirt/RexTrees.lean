import Mathlib.Order.WellFounded
import Squirt.RexCompiler

/-!
# The nodes of a regular expression as trees

The nodes that a node refers to, and ranks that show that the references have no cycles.
-/

namespace Squirt

/-- The nodes below a node: what it repeats, its group, its alternatives or its class -/
def SQRexNode.children (node : SQRexNode) : List ℤ :=
  match node.type with
  | .GREEDY | .EXPR | .NOCAPEXPR | .CLASS | .NCLASS => [node.left]
  | .OR => [node.left, node.right]
  | _ => []

/-- The nodes from one on, with all below them, have ranks from `lo` to `hi`. A node has a higher
rank than the nodes below it, and these have higher ranks than the nodes after it. -/
inductive Ranked (nodes : List SQRexNode) : ℤ → ℕ → ℕ → Prop
  | none {lo hi : ℕ} (h : lo ≤ hi) : Ranked nodes (-1) lo hi
  | node {i : ℤ} {lo mid top hi : ℕ} (hi₀ : 0 ≤ i) (hi₁ : i < nodes.length)
      (hsome : -1 ∉ (nodeAt nodes i).children)
      (hchildren : ∀ c ∈ (nodeAt nodes i).children, Ranked nodes c mid top)
      (hmid : mid ≤ top) (htop : top < hi) (hnext : Ranked nodes (nodeAt nodes i).next lo mid) :
      Ranked nodes i lo hi

/-- A node refers to another one. -/
def Refers (nodes : List SQRexNode) (j i : ℤ) : Prop :=
  (0 ≤ i ∧ i < nodes.length) ∧ j ≠ -1 ∧ (j ∈ (nodeAt nodes i).children ∨ j = (nodeAt nodes i).next)

variable {nodes nodes' : List SQRexNode} {i j : ℤ} {lo lo' mid hi hi' k : ℕ}

theorem Ranked.le (h : Ranked nodes i lo hi) : lo ≤ hi := by
  induction h with
  | none h => exact h
  | node hi₀ hi₁ hsome hchildren hmid htop hnext ihc ihn => omega

/-- The bounds of the ranks may be wider. -/
theorem Ranked.mono (h : Ranked nodes i lo hi) (hlo : lo' ≤ lo) (hhi : hi ≤ hi') :
    Ranked nodes i lo' hi' := by
  induction h generalizing lo' hi' with
  | none h => exact .none (by omega)
  | node hi₀ hi₁ hsome hchildren hmid htop hnext ihc ihn =>
    exact .node hi₀ hi₁ hsome hchildren hmid (by omega) (ihn hlo (Nat.le_refl _))

/-- The nodes after a node have lower ranks. -/
theorem Ranked.next (h : Ranked nodes i lo hi) (hne : i ≠ -1) :
    Ranked nodes (nodeAt nodes i).next lo hi := by
  cases h with
  | none => exact absurd rfl hne
  | node hi₀ hi₁ hsome hchildren hmid htop hnext =>
    exact hnext.mono (Nat.le_refl _) (by omega)

theorem Ranked.shift (h : Ranked nodes i lo hi) (k : ℕ) : Ranked nodes i (lo + k) (hi + k) := by
  induction h with
  | none h => exact .none (by omega)
  | node hi₀ hi₁ hsome hchildren hmid htop hnext ihc ihn =>
    exact .node hi₀ hi₁ hsome ihc (by omega) (by omega) ihn

/-- The ranks depend on the references of the nodes that can be reached. -/
theorem Ranked.congr {p : ℤ → Prop} (h : Ranked nodes i lo hi) (hp : i = -1 ∨ p i)
    (hclosed : ∀ i, p i → ∀ j, Refers nodes j i → p j)
    (hlength : nodes.length ≤ nodes'.length)
    (hsame : ∀ i, p i → (nodeAt nodes' i).children = (nodeAt nodes i).children ∧
      (nodeAt nodes' i).next = (nodeAt nodes i).next) : Ranked nodes' i lo hi := by
  induction h with
  | none h => exact .none h
  | @node i lo mid top hi hi₀ hi₁ hsome hchildren hmid htop hnext ihc ihn =>
    have hpi : p i := hp.resolve_left (by omega)
    obtain ⟨hsc, hsn⟩ := hsame i hpi
    refine .node hi₀ (by omega) (by rwa [hsc]) (fun c hc => ?_) hmid htop ?_
    · rw [hsc] at hc
      have hne : c ≠ -1 := fun heq => hsome (heq ▸ hc)
      exact ihc c hc (.inr (hclosed i hpi c ⟨⟨hi₀, hi₁⟩, hne, .inl hc⟩))
    · rw [hsn]
      refine ihn ?_
      by_cases hne : (nodeAt nodes i).next = -1
      · exact .inl hne
      · exact .inr (hclosed i hpi _ ⟨⟨hi₀, hi₁⟩, hne, .inr rfl⟩)

/-- What a ranked node refers to is a node, and is ranked. -/
theorem Ranked.refers (h : Ranked nodes i lo hi) (hj : Refers nodes j i) :
    (0 ≤ j ∧ j < nodes.length) ∧ ∃ lo' hi', Ranked nodes j lo' hi' := by
  have hvalid : ∀ {j lo hi}, j ≠ -1 → Ranked nodes j lo hi → 0 ≤ j ∧ j < nodes.length := by
    intro j lo hi hne h
    cases h with
    | none => exact absurd rfl hne
    | node hi₀ hi₁ => exact ⟨hi₀, hi₁⟩
  obtain ⟨⟨hi₀, hi₁⟩, hne, hmem⟩ := hj
  cases h with
  | none => omega
  | node _ _ _ hchildren _ _ hnext =>
    cases hmem with
    | inl hmem => exact ⟨hvalid hne (hchildren j hmem), _, _, hchildren j hmem⟩
    | inr hmem =>
      rw [hmem] at hne ⊢
      exact ⟨hvalid hne hnext, _, _, hnext⟩

theorem Ranked.acc (h : Ranked nodes i lo hi) : Acc (Refers nodes) i := by
  induction h with
  | none => exact ⟨_, fun j hj => absurd hj.1.1 (by decide)⟩
  | node hi₀ hi₁ hsome hchildren hmid htop hnext ihc ihn =>
    refine ⟨_, fun j hj => ?_⟩
    cases hj.2.2 with
    | inl hmem => exact ihc j hmem
    | inr hmem =>
      rw [hmem]
      exact ihn

/-- The nodes of a part of the array, one of which leads to all others that are in use: they refer
to each other only, and none of them to that one. -/
structure Segment (nodes : List SQRexNode) (n m : ℕ) (ret : ℤ) : Prop where
  length : m ≤ nodes.length
  root : n ≤ ret ∧ ret < m
  inside : ∀ i : ℤ, n ≤ i → i < m → ∀ j, Refers nodes j i → n ≤ j ∧ j < m ∧ j ≠ ret
  ranked : ∀ i : ℤ, n ≤ i → i < m → Ranked nodes i 0 (m - n)

variable {n m : ℕ} {ret : ℤ}

/-- A part stays as it is where the references of its nodes do. -/
theorem Segment.congr (h : Segment nodes n m ret) (hlength : nodes.length ≤ nodes'.length)
    (hsame : ∀ i : ℤ, n ≤ i → i < m → (nodeAt nodes' i).children = (nodeAt nodes i).children ∧
      (nodeAt nodes' i).next = (nodeAt nodes i).next) : Segment nodes' n m ret where
  length := h.length.trans hlength
  root := h.root
  inside := by
    intro i hn hm j hj
    refine h.inside i hn hm j ⟨?_, hj.2.1, ?_⟩
    · have hlen := h.length
      omega
    · rw [← (hsame i hn hm).1, ← (hsame i hn hm).2]
      exact hj.2.2
  ranked := by
    intro i hn hm
    refine (h.ranked i hn hm).congr (p := fun i => n ≤ i ∧ i < m) (.inr ⟨hn, hm⟩)
      (fun i hi j hj => ?_) hlength fun i hi => hsame i hi.1 hi.2
    obtain ⟨hj₀, hj₁, -⟩ := h.inside i hi.1 hi.2 j hj
    exact ⟨hj₀, hj₁⟩

/-! ### The array of the nodes -/

theorem nodeAt_append {seg : List SQRexNode} (hi₁ : i < nodes.length) (hi₀ : 0 ≤ i) :
    nodeAt (nodes ++ seg) i = nodeAt nodes i := by
  rw [nodeAt, nodeAt, List.getD_eq_getElem?_getD, List.getD_eq_getElem?_getD,
    List.getElem?_append_left (by omega)]

theorem nodeAt_append_length (node : SQRexNode) :
    nodeAt (nodes ++ [node]) nodes.length = node := by
  rw [nodeAt, Int.toNat_natCast, List.getD_eq_getElem?_getD, List.getElem?_concat_length]
  rfl

theorem nodeAt_modify_self {f : SQRexNode → SQRexNode} (hi₀ : 0 ≤ i) (hi₁ : i < nodes.length) :
    nodeAt (nodes.modify i.toNat f) i = f (nodeAt nodes i) := by
  have hlt : i.toNat < nodes.length := by omega
  rw [nodeAt, nodeAt, List.getD_eq_getElem?_getD, List.getD_eq_getElem?_getD,
    List.getElem?_modify_eq, List.getElem?_eq_getElem hlt]
  rfl

theorem nodeAt_modify_of_ne {f : SQRexNode → SQRexNode} (hne : j ≠ i) (hi₀ : 0 ≤ i) (hj₀ : 0 ≤ j) :
    nodeAt (nodes.modify i.toNat f) j = nodeAt nodes j := by
  have hne' : i.toNat ≠ j.toNat := by omega
  rw [nodeAt, nodeAt, List.getD_eq_getElem?_getD, List.getD_eq_getElem?_getD,
    List.getElem?_modify_ne _ _ hne']

/-! ### Parts of the array -/

/-- A node over the other nodes of a part -/
theorem Segment.of_root (hlength : m ≤ nodes.length) (hroot : (n : ℤ) ≤ ret ∧ ret < m)
    (hsome : -1 ∉ (nodeAt nodes ret).children)
    (hchildren : ∀ c ∈ (nodeAt nodes ret).children, (n : ℤ) ≤ c ∧ c < m ∧ c ≠ ret)
    (hnext : (nodeAt nodes ret).next = -1)
    (hinside : ∀ i : ℤ, n ≤ i → i < m → i ≠ ret → ∀ j, Refers nodes j i →
      (n : ℤ) ≤ j ∧ j < m ∧ j ≠ ret)
    (hranked : ∀ i : ℤ, n ≤ i → i < m → i ≠ ret → Ranked nodes i 0 (m - n - 1)) :
    Segment nodes n m ret where
  length := hlength
  root := hroot
  inside := by
    intro i hn hm j hj
    by_cases hi : i = ret
    · subst hi
      refine hchildren j (hj.2.2.resolve_right fun heq => hj.2.1 ?_)
      rw [heq, hnext]
    · exact hinside i hn hm hi j hj
  ranked := by
    intro i hn hm
    by_cases hi : i = ret
    · subst hi
      refine .node (by omega) (by omega) hsome (fun c hc => ?_) (Nat.zero_le _)
        (show m - n - 1 < m - n by omega) ?_
      · obtain ⟨hc₀, hc₁, hne⟩ := hchildren c hc
        exact hranked c hc₀ hc₁ hne
      · rw [hnext]
        exact .none (Nat.le_refl 0)
    · exact (hranked i hn hm hi).mono (Nat.le_refl 0) (by omega)

theorem Segment.leaf (hlength : n + 1 ≤ nodes.length) (hchildren : (nodeAt nodes n).children = [])
    (hnext : (nodeAt nodes n).next = -1) : Segment nodes n (n + 1) n := by
  refine .of_root hlength (by omega) ?_ ?_ hnext (fun i _ _ _ => by omega) fun i _ _ _ => by omega
  · rw [hchildren]
    exact List.not_mem_nil
  · rw [hchildren]
    exact List.forall_mem_nil _

/-- A node with one node below it, before the part of that one -/
theorem Segment.parent {c : ℤ} (h : Segment nodes (n + 1) m c)
    (hchildren : (nodeAt nodes n).children = [c]) (hnext : (nodeAt nodes n).next = -1) :
    Segment nodes n m n := by
  have hroot := h.root
  refine .of_root h.length (by omega) ?_ ?_ hnext (fun i hn hm hne j hj => ?_) fun i hn hm hne => ?_
  · rw [hchildren, List.mem_singleton]
    omega
  · rw [hchildren, List.forall_mem_singleton]
    omega
  · obtain ⟨hj₀, hj₁, -⟩ := h.inside i (by omega) hm j hj
    omega
  · rw [Nat.sub_sub]
    exact h.ranked i (by omega) hm

/-- A node over the part that stands before it -/
theorem Segment.over {c : ℤ} (h : Segment nodes n m c) (hlength : m + 1 ≤ nodes.length)
    (hchildren : (nodeAt nodes m).children = [c]) (hnext : (nodeAt nodes m).next = -1) :
    Segment nodes n (m + 1) m := by
  have hroot := h.root
  refine .of_root hlength (by omega) ?_ ?_ hnext (fun i hn hm hne j hj => ?_) fun i hn hm hne => ?_
  · rw [hchildren, List.mem_singleton]
    omega
  · rw [hchildren, List.forall_mem_singleton]
    omega
  · obtain ⟨hj₀, hj₁, -⟩ := h.inside i hn (by omega) j hj
    omega
  · exact (h.ranked i hn (by omega)).mono (Nat.le_refl 0) (by omega)

/-- A node between two parts and over both -/
theorem Segment.branch {l r : ℤ} (hl : Segment nodes n m l) (hr : Segment nodes (m + 1) k r)
    (hchildren : (nodeAt nodes m).children = [l, r]) (hnext : (nodeAt nodes m).next = -1) :
    Segment nodes n k m := by
  have hrootl := hl.root
  have hrootr := hr.root
  refine .of_root hr.length (by omega) ?_ ?_ hnext (fun i hn hm hne j hj => ?_)
    fun i hn hm hne => ?_
  · rw [hchildren, List.mem_pair]
    omega
  · rw [hchildren, List.forall_mem_cons, List.forall_mem_singleton]
    omega
  · by_cases hi : i < m
    · obtain ⟨hj₀, hj₁, -⟩ := hl.inside i hn hi j hj
      omega
    · obtain ⟨hj₀, hj₁, -⟩ := hr.inside i (by omega) hm j hj
      omega
  · by_cases hi : i < m
    · exact (hl.ranked i hn hi).mono (Nat.le_refl 0) (by omega)
    · exact (hr.ranked i (by omega) hm).mono (Nat.le_refl 0) (by omega)

/-- A class: the chain of its members ascends behind it. -/
theorem Segment.ofClass (hlength : m ≤ nodes.length) {left : ℤ}
    (hchildren : (nodeAt nodes n).children = [left]) (hleft : (n : ℤ) < left ∧ left < m)
    (hnext : (nodeAt nodes n).next = -1)
    (hmembers : ∀ i : ℤ, n < i → i < m → (nodeAt nodes i).children = [] ∧
      ((nodeAt nodes i).next = -1 ∨ i < (nodeAt nodes i).next ∧ (nodeAt nodes i).next < m)) :
    Segment nodes n m n := by
  have hranked : ∀ (d : ℕ) (i : ℤ), n < i → i < m → (m : ℤ) - i = d → Ranked nodes i 0 d := by
    intro d
    induction d using Nat.strong_induction_on with
    | h d ih =>
      intro i hn hm hd
      obtain ⟨hc, hnx⟩ := hmembers i hn hm
      have hnil : -1 ∉ (nodeAt nodes i).children := by
        rw [hc]
        exact List.not_mem_nil
      have hnone : ∀ c ∈ (nodeAt nodes i).children, Ranked nodes c (d - 1) (d - 1) := by
        rw [hc]
        exact List.forall_mem_nil _
      refine .node (by omega) (by omega) hnil hnone (Nat.le_refl _) (by omega) ?_
      cases hnx with
      | inl hnx =>
        rw [hnx]
        exact .none (Nat.zero_le _)
      | inr hnx =>
        have hrest := ih ((m : ℤ) - (nodeAt nodes i).next).toNat (by omega) _ (by omega) hnx.2
          (by omega)
        exact hrest.mono (Nat.le_refl 0) (by omega)
  refine .of_root hlength (by omega) ?_ ?_ hnext (fun i hn hm hne j hj => ?_) fun i hn hm hne => ?_
  · rw [hchildren, List.mem_singleton]
    omega
  · rw [hchildren, List.forall_mem_singleton]
    omega
  · obtain ⟨hc, hnx⟩ := hmembers i (by omega) hm
    obtain ⟨-, hj₁, hmem⟩ := hj
    rw [hc] at hmem
    have heq := hmem.resolve_left List.not_mem_nil
    omega
  · exact (hranked ((m : ℤ) - i).toNat i (by omega) hm (by omega)).mono (Nat.le_refl 0) (by omega)

/-- A part whose node leads to the node of the next part -/
theorem Segment.chain {r : ℤ} (h : Segment nodes n m ret) (hr : Segment nodes m k r)
    (hnext : (nodeAt nodes ret).next = -1)
    (hset : (nodeAt nodes' ret).children = (nodeAt nodes ret).children ∧
      (nodeAt nodes' ret).next = r)
    (hsame : ∀ i : ℤ, n ≤ i → i < k → i ≠ ret →
      (nodeAt nodes' i).children = (nodeAt nodes i).children ∧
        (nodeAt nodes' i).next = (nodeAt nodes i).next)
    (hlength : nodes.length ≤ nodes'.length) : Segment nodes' n k ret := by
  have hroot := h.root
  have hrootr := hr.root
  have hrlength := hr.length
  have hrefers : ∀ {i : ℤ}, n ≤ i → i < k → i ≠ ret → ∀ {j}, Refers nodes' j i →
      Refers nodes j i := by
    intro i hn hm hne j hj
    obtain ⟨hc, hn'⟩ := hsame i hn hm hne
    refine ⟨by omega, hj.2.1, ?_⟩
    rw [← hc, ← hn']
    exact hj.2.2
  have hbefore : ∀ i : ℤ, n ≤ i → i < m → i ≠ ret → ∀ {lo hi : ℕ}, Ranked nodes i lo hi →
      Ranked nodes' i lo hi := by
    intro i hn hm hne lo hi hranked
    refine hranked.congr (p := fun i => n ≤ i ∧ i < m ∧ i ≠ ret) (.inr ⟨hn, hm, hne⟩)
      (fun i hi j hj => h.inside i hi.1 hi.2.1 j hj) hlength fun i hi => ?_
    exact hsame i hi.1 (by omega) hi.2.2
  have hafter : Segment nodes' m k r := hr.congr hlength fun i hm hk =>
    hsame i (by omega) hk (by omega)
  refine ⟨hrlength.trans hlength, by omega, fun i hn hm j hj => ?_, fun i hn hm => ?_⟩
  · by_cases hi : i = ret
    · subst hi
      obtain ⟨-, hne, hmem⟩ := hj
      rw [hset.1, hset.2] at hmem
      cases hmem with
      | inl hmem =>
        obtain ⟨hj₀, hj₁, hj₂⟩ := h.inside i hn (by omega) j ⟨by omega, hne, .inl hmem⟩
        omega
      | inr hmem => omega
    · by_cases him : i < m
      · obtain ⟨hj₀, hj₁, hj₂⟩ := h.inside i hn him j (hrefers hn hm hi hj)
        omega
      · obtain ⟨hj₀, hj₁, -⟩ := hr.inside i (by omega) hm j (hrefers hn hm hi hj)
        omega
  · by_cases hi : i = ret
    · subst hi
      cases (h.ranked i hn (by omega)).shift (k - m) with
      | none => omega
      | @node _ lo mid top hi hi₀ hi₁ hsome hchildren hmid htop hnext' =>
        refine .node hi₀ (by omega) (by rwa [hset.1]) (fun c hc => ?_) hmid (by omega) ?_
        · rw [hset.1] at hc
          have hne : c ≠ -1 := fun heq => hsome (heq ▸ hc)
          obtain ⟨hc₀, hc₁, hc₂⟩ := h.inside i hn (by omega) c ⟨⟨hi₀, hi₁⟩, hne, .inl hc⟩
          exact hbefore c hc₀ hc₁ hc₂ (hchildren c hc)
        · rw [hset.2]
          have hle := hnext'.le
          exact (hafter.ranked r hrootr.1 hrootr.2).mono (Nat.le_refl 0) (by omega)
    · by_cases him : i < m
      · exact hbefore i hn him hi ((h.ranked i hn him).mono (Nat.le_refl 0) (by omega))
      · exact (hafter.ranked i (by omega) hm).mono (Nat.le_refl 0) (by omega)

end Squirt
