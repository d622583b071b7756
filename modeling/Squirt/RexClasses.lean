import Squirt.RexTrees

/-!
# Characters and classes of regular expressions

What the parsers of characters and classes do to the array of nodes, and how far they read. When an
escape begins at the last character of the pattern, the terminator is taken for the escaped
character, and the next character is read behind it.
-/

namespace Squirt.SQRex

open Programs Programs.Program

variable {pattern : List Char} {s s' s'' : SQRex} {α β : Type}

/-- What holds of every state of a compilation -/
structure Compiling (pattern : List Char) (s : SQRex) : Prop where
  pattern_eq : s.pattern = pattern
  nonempty : 0 < pattern.length
  positive : 0 < s.nallocated
  allocated : s.nodes.length ≤ s.nallocated
  groups : ∀ i : ℤ, 0 ≤ i → i < s.nodes.length → (nodeAt s.nodes i).type = .EXPR →
    0 ≤ (nodeAt s.nodes i).right ∧ (nodeAt s.nodes i).right < s.nsubexpr

/-- No escape begins at the last character, and the pattern is read up to its terminator at
most. -/
structure Fine (pattern : List Char) (s : SQRex) : Prop where
  compiling : Compiling pattern s
  p : s.p ≤ pattern.length
  escapes : pattern.length - 1 ∉ s.escapes

/-- All is fine, or the terminator is passed as an escaped character. -/
structure Ready (pattern : List Char) (s : SQRex) : Prop where
  compiling : Compiling pattern s
  place : (s.p ≤ pattern.length ∧ pattern.length - 1 ∉ s.escapes) ∨
    (s.p = pattern.length + 1 ∧ pattern.length - 1 ∈ s.escapes)

/-- An escaped character is next. -/
structure Escaping (pattern : List Char) (s : SQRex) : Prop where
  compiling : Compiling pattern s
  place : (s.p < pattern.length ∧ pattern.length - 1 ∉ s.escapes) ∨
    (s.p = pattern.length ∧ pattern.length - 1 ∈ s.escapes)

/-- Compilation fails outside the pattern just when an escape begins at its last character. -/
def Fails (pattern : List Char) (e : Stop RexError) (s : SQRex) : Prop :=
  match e with
  | .raised (.error _) => pattern.length - 1 ∉ s.escapes
  | .raised .outside => pattern.length - 1 ∈ s.escapes
  | .outOfFuel => False

/-- The nodes that are there stay as they are. -/
structure Grows (s s' : SQRex) : Prop where
  length : s.nodes.length ≤ s'.nodes.length
  same : ∀ i : ℤ, 0 ≤ i → i < s.nodes.length → nodeAt s'.nodes i = nodeAt s.nodes i

theorem Grows.trans (h : Grows s s') (h' : Grows s' s'') : Grows s s'' where
  length := h.length.trans h'.length
  same i hi₀ hi₁ := by
    have hlen := h.length
    rw [h'.same i hi₀ (by omega), h.same i hi₀ hi₁]

theorem Grows.range (h : Grows s s') {n : ℤ} (hn : 0 ≤ n ∧ n < s.nodes.length) :
    0 ≤ n ∧ n < s'.nodes.length := by
  have hlength := h.length
  omega

theorem Fine.ready (h : Fine pattern s) : Ready pattern s := ⟨h.compiling, .inl ⟨h.p, h.escapes⟩⟩

/-! ### Reading the pattern -/

theorem Compiling.of_eq (h : Compiling pattern s) (hpattern : s'.pattern = s.pattern)
    (hnodes : s'.nodes = s.nodes) (hallocated : s'.nallocated = s.nallocated)
    (hsubexpr : s'.nsubexpr = s.nsubexpr) : Compiling pattern s' where
  pattern_eq := hpattern.trans h.pattern_eq
  nonempty := h.nonempty
  positive := by
    rw [hallocated]
    exact h.positive
  allocated := by
    rw [hallocated, hnodes]
    exact h.allocated
  groups := by
    rw [hnodes, hsubexpr]
    exact h.groups

theorem peek_ok (h : s.p ≤ s.pattern.length) :
    ∃ c, peek s = .ok c s ∧ (c ≠ NUL → s.p < s.pattern.length) := by
  by_cases hlt : s.p < s.pattern.length
  · exact ⟨_, (bind_ok rfl).trans (congrFun (if_pos hlt) s), fun _ => hlt⟩
  · have heq : s.p = s.pattern.length := by omega
    refine ⟨NUL, (bind_ok rfl).trans ?_, fun hne => absurd rfl hne⟩
    rw [if_neg hlt, if_pos heq]
    rfl

private theorem peek_outside (h : s.pattern.length < s.p) : peek s = .error (.raised .outside) s
    := by
  refine (bind_ok rfl).trans ?_
  rw [if_neg (by omega), if_neg (by omega)]
  rfl

/-- The program goes on with the next character of the pattern. -/
theorem Ready.peekAt {f : Char → Compiler β} {Q : β → SQRex → Prop} (h : Ready pattern s)
    (hf : ∀ c, SQRex.peek s = .ok c s → Fine pattern s → (c ≠ NUL → s.p < pattern.length) →
      Outcome s (f c) Q (Fails pattern)) : Outcome s (peek >>= f) Q (Fails pattern) := by
  have hpattern := h.compiling.pattern_eq
  cases h.place with
  | inl hplace =>
    obtain ⟨c, hc, hlt⟩ := peek_ok (s := s) (by rw [hpattern]; exact hplace.1)
    rw [hpattern] at hlt
    rw [Outcome, bind_ok hc]
    exact hf c hc ⟨h.compiling, hplace.1, hplace.2⟩ hlt
  | inr hplace =>
    have hout := peek_outside (s := s) (by rw [hpattern, hplace.1]; omega)
    exact outcome_of_error (bind_error hout) hplace.2

theorem Ready.peek {f : Char → Compiler β} {Q : β → SQRex → Prop} (h : Ready pattern s)
    (hf : ∀ c, Fine pattern s → (c ≠ NUL → s.p < pattern.length) →
      Outcome s (f c) Q (Fails pattern)) : Outcome s (SQRex.peek >>= f) Q (Fails pattern) :=
  h.peekAt fun c _ => hf c

theorem Escaping.peek {f : Char → Compiler β} {Q : β → SQRex → Prop} (h : Escaping pattern s)
    (hf : ∀ c, (c ≠ NUL → s.p < pattern.length ∧ Fine pattern s) →
      Outcome s (f c) Q (Fails pattern)) : Outcome s (peek >>= f) Q (Fails pattern) := by
  have hpattern := h.compiling.pattern_eq
  obtain ⟨c, hc, hlt⟩ := peek_ok (s := s) (by rw [hpattern]; cases h.place with | _ h => omega)
  rw [hpattern] at hlt
  rw [Outcome, bind_ok hc]
  refine hf c fun hne => ⟨hlt hne, h.compiling, Nat.le_of_lt (hlt hne), ?_⟩
  have hp := hlt hne
  exact (h.place.resolve_right fun hplace => by omega).2

theorem Fine.pass {wrong : Prop} [Decidable wrong] {err : String} {y : Compiler β}
    {Q : β → SQRex → Prop} (h : Fine pattern s) (hy : ¬wrong → Outcome s y Q (Fails pattern)) :
    Outcome s (errorIf wrong err >>= fun _ => y) Q (Fails pattern) := by
  by_cases hwrong : wrong
  · have herr : errorIf wrong err s = .error (.raised (.error err)) s := by
      rw [errorIf, if_pos hwrong]
      rfl
    exact outcome_of_error (bind_error herr) h.escapes
  · have hok : errorIf wrong err s = .ok () s := by
      rw [errorIf, if_neg hwrong]
      rfl
    rw [Outcome, bind_ok hok]
    exact hy hwrong

/-- Over a character that is not the terminator -/
theorem Fine.advance (h : Fine pattern s) (hp : s.p < pattern.length) :
    Fine pattern { s with p := s.p + 1 } :=
  ⟨h.compiling.of_eq rfl rfl rfl rfl, hp, h.escapes⟩

theorem Fine.beginEscape (h : Fine pattern s) (hp : s.p < pattern.length) :
    Escaping pattern { s with p := s.p + 1, escapes := s.p :: s.escapes } := by
  refine ⟨h.compiling.of_eq rfl rfl rfl rfl, ?_⟩
  by_cases hlast : s.p = pattern.length - 1
  · refine .inr ⟨?_, ?_⟩
    · change s.p + 1 = _
      omega
    · rw [hlast]
      exact List.mem_cons_self
  · refine .inl ⟨?_, ?_⟩
    · change s.p + 1 < _
      omega
    · rw [List.mem_cons, not_or]
      exact ⟨fun heq => hlast heq.symm, h.escapes⟩

theorem Escaping.advance (h : Escaping pattern s) : Ready pattern { s with p := s.p + 1 } := by
  refine ⟨h.compiling.of_eq rfl rfl rfl rfl, ?_⟩
  cases h.place with
  | inl hplace => exact .inl hplace
  | inr hplace => exact .inr ⟨congrArg (· + 1) hplace.1, hplace.2⟩

section Steps

variable {y : Compiler β} {Q : β → SQRex → Prop} {E : Stop RexError → SQRex → Prop}

theorem Fine.step (h : Fine pattern s) (hp : s.p < pattern.length)
    (hy : ∀ s₁, Fine pattern s₁ → s₁.nodes = s.nodes → s₁.p = s.p + 1 → Outcome s₁ y Q E) :
    Outcome s (SQRex.advance >>= fun _ => y) Q E :=
  hy _ (h.advance hp) rfl rfl

theorem Fine.stepEscape (h : Fine pattern s) (hp : s.p < pattern.length)
    (hy : ∀ s₁, Escaping pattern s₁ → s₁.nodes = s.nodes → s₁.p = s.p + 1 → Outcome s₁ y Q E) :
    Outcome s (SQRex.beginEscape >>= fun _ => y) Q E :=
  hy _ (h.beginEscape hp) rfl rfl

theorem Escaping.step (h : Escaping pattern s)
    (hy : ∀ s₁, Ready pattern s₁ → s₁.nodes = s.nodes → s₁.p = s.p + 1 → Outcome s₁ y Q E) :
    Outcome s (SQRex.advance >>= fun _ => y) Q E :=
  hy _ h.advance rfl rfl

end Steps

/-! ### Nodes -/

/-- A node is added, and nothing else changes but the counters. -/
structure NewNode (s : SQRex) (type : SQRexNodeType) (n : ℤ) (s' : SQRex) : Prop where
  index : n = s.nodes.length
  nodes : ∃ right, s'.nodes = s.nodes ++ [⟨type, -1, right, -1⟩]
  p : s'.p = s.p
  escapes : s'.escapes = s.escapes

private theorem newnode_ok (type : SQRexNodeType) (h : Compiling pattern s) :
    newnode type s = .ok s.nodes.length { s with
      nodes := s.nodes ++ [⟨type, -1, if type = .EXPR then s.nsubexpr else -1, -1⟩]
      nsubexpr := if type = .EXPR then s.nsubexpr + 1 else s.nsubexpr
      nallocated :=
        if s.nallocated < s.nodes.length + 1 then s.nallocated * 2 else s.nallocated } := by
  have hpositive := h.positive
  have hallocated := h.allocated
  have hroom : ¬(if s.nallocated < s.nodes.length + 1 then s.nallocated * 2 else s.nallocated) ≤
      s.nodes.length := by
    split
    · omega
    · omega
  refine (bind_ok rfl).trans ((bind_ok rfl).trans ?_)
  rw [if_neg hroom]
  rfl

/-- The new node is a group with a number of its own, or no group. -/
theorem Compiling.append (h : Compiling pattern s) {node : SQRexNode} {nsubexpr nallocated : ℕ}
    (hnode : node.type = .EXPR → 0 ≤ node.right ∧ node.right < nsubexpr)
    (hsubexpr : s.nsubexpr ≤ nsubexpr) (hallocated : s.nodes.length + 1 ≤ nallocated) :
    Compiling pattern { s with
      nodes := s.nodes ++ [node], nsubexpr := nsubexpr, nallocated := nallocated } where
  pattern_eq := h.pattern_eq
  nonempty := h.nonempty
  positive := Nat.lt_of_lt_of_le (Nat.succ_pos _) hallocated
  allocated := by
    change (s.nodes ++ [node]).length ≤ nallocated
    rw [List.length_append]
    exact hallocated
  groups := by
    intro i hi₀ hi₁ htype
    change i < ((s.nodes ++ [node]).length : ℕ) at hi₁
    change (nodeAt (s.nodes ++ [node]) i).type = .EXPR at htype
    change 0 ≤ (nodeAt (s.nodes ++ [node]) i).right ∧ (nodeAt (s.nodes ++ [node]) i).right < nsubexpr
    rw [List.length_append, List.length_singleton] at hi₁
    by_cases hlt : i < s.nodes.length
    · rw [nodeAt_append hlt hi₀] at htype ⊢
      obtain ⟨h₀, h₁⟩ := h.groups i hi₀ hlt htype
      omega
    · obtain rfl : i = s.nodes.length := by omega
      rw [nodeAt_append_length] at htype ⊢
      exact hnode htype

theorem outcome_newnode {E : Stop RexError → SQRex → Prop} (type : SQRexNodeType)
    (h : Compiling pattern s) :
    Outcome s (newnode type) (fun n s' => NewNode s type n s' ∧ Compiling pattern s') E := by
  refine outcome_of_ok (newnode_ok type h) ⟨⟨rfl, ⟨_, rfl⟩, rfl, rfl⟩, h.append ?_ ?_ ?_⟩
  · rintro rfl
    rw [if_pos rfl, if_pos rfl]
    change 0 ≤ (s.nsubexpr : ℤ) ∧ (s.nsubexpr : ℤ) < (s.nsubexpr + 1 : ℕ)
    omega
  · split
    · omega
    · omega
  · have hpositive := h.positive
    have hallocated := h.allocated
    split
    · omega
    · omega

theorem NewNode.grows {type : SQRexNodeType} {n : ℤ} (h : NewNode s type n s') : Grows s s' := by
  obtain ⟨right, hnodes⟩ := h.nodes
  refine ⟨?_, fun i hi₀ hi₁ => ?_⟩
  · rw [hnodes, List.length_append]
    exact Nat.le_add_right _ _
  · rw [hnodes, nodeAt_append hi₁ hi₀]

theorem NewNode.length {type : SQRexNodeType} {n : ℤ} (h : NewNode s type n s') :
    s'.nodes.length = s.nodes.length + 1 := by
  obtain ⟨right, hnodes⟩ := h.nodes
  rw [hnodes, List.length_append, List.length_singleton]

theorem NewNode.range {type : SQRexNodeType} {n : ℤ} (h : NewNode s type n s') :
    0 ≤ n ∧ n < s'.nodes.length := by
  have hindex := h.index
  have hlength := h.length
  omega

theorem NewNode.node {type : SQRexNodeType} {n : ℤ} (h : NewNode s type n s') :
    (nodeAt s'.nodes n).type = type ∧ (nodeAt s'.nodes n).left = -1 ∧
      (nodeAt s'.nodes n).next = -1 := by
  obtain ⟨right, hnodes⟩ := h.nodes
  rw [hnodes, h.index, nodeAt_append_length]
  exact ⟨rfl, rfl, rfl⟩

/-- A state where a node is changed -/
def withNode (s : SQRex) (n : ℤ) (f : SQRexNode → SQRexNode) : SQRex :=
  { s with nodes := s.nodes.modify n.toNat f }

theorem setNode_ok {n : ℤ} (f : SQRexNode → SQRexNode) (h : 0 ≤ n ∧ n < s.nodes.length) :
    setNode n f s = .ok ⟨⟩ (s.withNode n f) := by
  refine (bind_ok rfl).trans ?_
  rw [if_pos h]
  rfl

theorem outcome_setNode {n : ℤ} {g : SQRexNode → SQRexNode} {y : Compiler β}
    {Q : β → SQRex → Prop} {E : Stop RexError → SQRex → Prop} (hn : 0 ≤ n ∧ n < s.nodes.length)
    (h : Outcome (s.withNode n g) y Q E) : Outcome s (setNode n g >>= fun _ => y) Q E := by
  rw [Outcome, bind_ok (setNode_ok g hn)]
  exact h

private theorem outcome_typeOf {n : ℤ} {f : SQRexNodeType → Compiler β} {Q : β → SQRex → Prop}
    {E : Stop RexError → SQRex → Prop} (hn : 0 ≤ n ∧ n < s.nodes.length)
    (h : Outcome s (f (nodeAt s.nodes n).type) Q E) : Outcome s (typeOf n >>= f) Q E := by
  have hok : typeOf n s = .ok (nodeAt s.nodes n).type s := by
    refine (bind_ok rfl).trans ?_
    rw [if_pos hn]
    rfl
  rw [Outcome, bind_ok hok]
  exact h

theorem length_withNode (n : ℤ) (f : SQRexNode → SQRexNode) :
    (s.withNode n f).nodes.length = s.nodes.length := List.length_modify _ _ _

theorem Compiling.withNode (h : Compiling pattern s) {n : ℤ} {f : SQRexNode → SQRexNode}
    (hn : 0 ≤ n) (htype : (f (nodeAt s.nodes n)).type = (nodeAt s.nodes n).type)
    (hright : (nodeAt s.nodes n).type = .EXPR →
      (f (nodeAt s.nodes n)).right = (nodeAt s.nodes n).right) :
    Compiling pattern (s.withNode n f) where
  pattern_eq := h.pattern_eq
  nonempty := h.nonempty
  positive := h.positive
  allocated := by
    rw [length_withNode]
    exact h.allocated
  groups := by
    intro i hi₀ hi₁ hexpr
    rw [length_withNode] at hi₁
    change (nodeAt (s.nodes.modify n.toNat f) i).type = .EXPR at hexpr
    change 0 ≤ (nodeAt (s.nodes.modify n.toNat f) i).right ∧
      (nodeAt (s.nodes.modify n.toNat f) i).right < s.nsubexpr
    by_cases hi : i = n
    · subst hi
      rw [nodeAt_modify_self hi₀ hi₁] at hexpr ⊢
      rw [htype] at hexpr
      rw [hright hexpr]
      exact h.groups i hi₀ hi₁ hexpr
    · rw [nodeAt_modify_of_ne hi hn hi₀] at hexpr ⊢
      exact h.groups i hi₀ hi₁ hexpr

/-- Only new nodes are changed. -/
theorem Grows.withNode (h : Grows s s') {n : ℤ} {f : SQRexNode → SQRexNode}
    (hn : s.nodes.length ≤ n) : Grows s (s'.withNode n f) where
  length := by
    rw [length_withNode]
    exact h.length
  same i hi₀ hi₁ := by
    change nodeAt (s'.nodes.modify n.toNat f) i = _
    rw [nodeAt_modify_of_ne (by omega) (by omega) hi₀]
    exact h.same i hi₀ hi₁

/-! ### Nodes without nodes below them -/

/-- A new node without references -/
structure Leaf (s : SQRex) (n : ℤ) (s' : SQRex) : Prop where
  index : n = s.nodes.length
  length : s'.nodes.length = s.nodes.length + 1
  grows : Grows s s'
  children : (nodeAt s'.nodes n).children = []
  next : (nodeAt s'.nodes n).next = -1

theorem NewNode.leaf {type : SQRexNodeType} {n : ℤ} (h : NewNode s type n s')
    (htype : ∀ left right next, (SQRexNode.mk type left right next).children = []) :
    Leaf s n s' where
  index := h.index
  length := h.length
  grows := h.grows
  children := by
    have hnode := h.node.1
    have hchildren := htype (nodeAt s'.nodes n).left (nodeAt s'.nodes n).right
      (nodeAt s'.nodes n).next
    rw [← hnode] at hchildren
    exact hchildren
  next := h.node.2.2

theorem Leaf.range {n : ℤ} (h : Leaf s n s') : 0 ≤ n ∧ n < s'.nodes.length := by
  have hindex := h.index
  have hlength := h.length
  omega

/-- The data of a leaf may change. -/
theorem Leaf.withNode {n : ℤ} (h : Leaf s n s') {f : SQRexNode → SQRexNode}
    (hchildren : (f (nodeAt s'.nodes n)).children = [])
    (hnext : (f (nodeAt s'.nodes n)).next = (nodeAt s'.nodes n).next) :
    Leaf s n (s'.withNode n f) := by
  have hindex := h.index
  have hlength := h.length
  have hnode : nodeAt (s'.withNode n f).nodes n = f (nodeAt s'.nodes n) :=
    nodeAt_modify_self (by omega) (by omega)
  refine ⟨hindex, ?_, h.grows.withNode (by omega), ?_, ?_⟩
  · rw [length_withNode, hlength]
  · rw [hnode, hchildren]
  · rw [hnode, hnext, h.next]

/-- What a function leaves that adds a leaf and reads a part of the pattern -/
structure AddsLeaf (pattern : List Char) (s : SQRex) (n : ℤ) (s' : SQRex) : Prop where
  ready : Ready pattern s'
  leaf : Leaf s n s'
  p : s.p < s'.p
  inside : s.p < pattern.length
  type : (nodeAt s'.nodes n).type ≠ .EXPR

/-- A simple type of node, without nodes below it -/
def Simple (type : SQRexNodeType) : Prop :=
  ∀ left right next, (SQRexNode.mk type left right next).children = []

/-- The node of a character, when the character is passed -/
theorem AddsLeaf.of_newnode {s₁ : SQRex} {type : SQRexNodeType} {n : ℤ} (hready : Ready pattern s₁)
    (hnodes : s₁.nodes = s.nodes) (hp : s.p < s₁.p) (hinside : s.p < pattern.length)
    (hnew : NewNode s₁ type n s') (hcomp : Compiling pattern s') (htype : Simple type) :
    AddsLeaf pattern s n s' where
  ready := by
    refine ⟨hcomp, ?_⟩
    rw [hnew.p, hnew.escapes]
    exact hready.place
  leaf := by
    obtain ⟨hindex, hlength, hgrows, hchildren, hnext⟩ := hnew.leaf htype
    refine ⟨?_, ?_, ⟨?_, ?_⟩, hchildren, hnext⟩
    · rw [hindex, hnodes]
    · rw [hlength, hnodes]
    · rw [← hnodes]
      exact hgrows.length
    · rw [← hnodes]
      exact hgrows.same
  p := by
    rw [hnew.p]
    exact hp
  inside := hinside
  type := by
    rw [hnew.node.1]
    rintro rfl
    cases htype 0 0 0

theorem AddsLeaf.withNode {n : ℤ} (h : AddsLeaf pattern s n s') {f : SQRexNode → SQRexNode}
    (htype : (f (nodeAt s'.nodes n)).type = (nodeAt s'.nodes n).type)
    (hchildren : (f (nodeAt s'.nodes n)).children = [])
    (hnext : (f (nodeAt s'.nodes n)).next = (nodeAt s'.nodes n).next) :
    AddsLeaf pattern s n (s'.withNode n f) := by
  have hindex := h.leaf.index
  have hlength := h.leaf.length
  refine ⟨⟨h.ready.compiling.withNode (by omega) htype fun hexpr => absurd hexpr h.type, ?_⟩,
    h.leaf.withNode hchildren hnext, h.p, h.inside, ?_⟩
  · exact h.ready.place
  · have hnode : nodeAt (s'.withNode n f).nodes n = f (nodeAt s'.nodes n) :=
      nodeAt_modify_self (by omega) (by omega)
    rw [hnode, htype]
    exact h.type

theorem outcome_leaf {s₁ : SQRex} {type : SQRexNodeType} (hready : Ready pattern s₁)
    (hnodes : s₁.nodes = s.nodes) (hp : s.p < s₁.p) (hinside : s.p < pattern.length)
    (htype : Simple type) :
    Outcome s₁ (newnode type) (AddsLeaf pattern s) (Fails pattern) :=
  (outcome_newnode type hready.compiling).mono fun _ _ h =>
    .of_newnode hready hnodes hp hinside h.1 h.2 htype

private theorem simple_char (c : Char) : Simple (.char c) := fun _ _ _ => rfl

private theorem outcome_charclass {s₁ : SQRex} (classid : Char) (hready : Ready pattern s₁)
    (hnodes : s₁.nodes = s.nodes) (hp : s.p < s₁.p) (hinside : s.p < pattern.length) :
    Outcome s₁ (charclass classid) (AddsLeaf pattern s) (Fails pattern) := by
  have hsimple : Simple .CCLASS := fun _ _ _ => rfl
  refine (outcome_newnode .CCLASS hready.compiling).bind fun n s₂ h => ?_
  have hadds := AddsLeaf.of_newnode hready hnodes hp hinside h.1 h.2 hsimple
  refine outcome_of_ok (bind_ok (setNode_ok _ hadds.leaf.range)) (hadds.withNode rfl ?_ rfl)
  rw [SQRexNode.children, h.1.node.1]

theorem AddsLeaf.step {n : ℤ} (h : AddsLeaf pattern s n s') (hfine : Fine pattern s')
    (hp : s'.p < pattern.length) : AddsLeaf pattern s n { s' with p := s'.p + 1 } where
  ready := (hfine.advance hp).ready
  leaf :=
    ⟨h.leaf.index, h.leaf.length, ⟨h.leaf.grows.length, h.leaf.grows.same⟩, h.leaf.children,
      h.leaf.next⟩
  p := Nat.lt_succ_of_lt h.p
  inside := h.inside
  type := h.type

theorem outcome_charnode (isclass : Bool) (h : Ready pattern s) :
    Outcome s (charnode isclass) (AddsLeaf pattern s) (Fails pattern) := by
  refine h.peek fun c hfine hlt => ?_
  by_cases hesc : c = '\\'
  · rw [if_pos hesc]
    have hinside := hlt (by rw [hesc]; decide)
    refine hfine.stepEscape hinside fun s₁ h₁ hnodes₁ hp₁ => h₁.peek fun t ht => ?_
    by_cases hcontrol : (controls.lookup t).isSome = true
    · rw [if_pos hcontrol]
      refine h₁.step fun s₂ h₂ hnodes₂ hp₂ => ?_
      exact outcome_leaf h₂ (hnodes₂.trans hnodes₁) (by omega) hinside (simple_char _)
    · rw [if_neg hcontrol]
      by_cases hclass : t ∈ classids
      · rw [if_pos hclass]
        refine h₁.step fun s₂ h₂ hnodes₂ hp₂ => ?_
        exact outcome_charclass t h₂ (hnodes₂.trans hnodes₁) (by omega) hinside
      · rw [if_neg hclass]
        by_cases hborder : (t = 'b' ∨ t = 'B') ∧ ¬isclass = true
        · rw [if_pos hborder]
          have hne : t ≠ NUL := by
            rcases hborder.1 with rfl | rfl
            · decide
            · decide
          obtain ⟨hlt₁, hfine₁⟩ := ht hne
          refine (outcome_newnode .WB h₁.compiling).bind fun n s₂ h₂ => ?_
          have hsimple : Simple .WB := fun _ _ _ => rfl
          have hadds := AddsLeaf.of_newnode hfine₁.ready hnodes₁ (by omega) hinside h₂.1 h₂.2
            hsimple
          have hset : AddsLeaf pattern s n
              (s₂.withNode n fun node => { node with left := schar t }) := by
            refine hadds.withNode rfl ?_ rfl
            rw [SQRexNode.children, h₂.1.node.1]
          have hp₂ := h₂.1.p
          have hescapes₂ := h₂.1.escapes
          refine outcome_of_ok (bind_ok (setNode_ok _ hadds.leaf.range))
            (hset.step ⟨hset.ready.compiling, ?_, ?_⟩ ?_)
          · change s₂.p ≤ _
            omega
          · change _ ∉ s₂.escapes
            rw [hescapes₂]
            exact hfine₁.escapes
          · change s₂.p < _
            omega
        · rw [if_neg hborder]
          refine h₁.step fun s₂ h₂ hnodes₂ hp₂ => ?_
          exact outcome_leaf h₂ (hnodes₂.trans hnodes₁) (by omega) hinside (simple_char _)
  · rw [if_neg hesc]
    refine hfine.pass fun hprint => ?_
    have hinside := hlt fun hnul => by
      rw [hnul] at hprint
      exact hprint (by decide)
    refine hfine.step hinside fun s₁ h₁ hnodes₁ hp₁ => ?_
    exact outcome_leaf h₁.ready hnodes₁ (by omega) hinside (simple_char _)

private theorem outcome_escapechar (h : Ready pattern s) :
    Outcome s escapechar (fun _ s' => Ready pattern s' ∧ s'.nodes = s.nodes ∧ s.p < s'.p)
      (Fails pattern) := by
  refine h.peek fun c hfine hlt => ?_
  by_cases hesc : c = '\\'
  · rw [if_pos hesc]
    refine hfine.stepEscape (hlt (by rw [hesc]; decide)) fun s₁ h₁ hnodes₁ hp₁ => ?_
    refine h₁.peek fun t _ => h₁.step fun s₂ h₂ hnodes₂ hp₂ => ?_
    exact outcome_pure ⟨h₂, hnodes₂.trans hnodes₁, by omega⟩
  · rw [if_neg hesc]
    refine hfine.pass fun hprint => ?_
    have hinside := hlt fun hnul => by
      rw [hnul] at hprint
      exact hprint (by decide)
    refine hfine.step hinside fun s₁ h₁ hnodes₁ hp₁ => ?_
    exact outcome_pure ⟨h₁.ready, hnodes₁, by omega⟩

theorem Ready.withNode (h : Ready pattern s) {n : ℤ} {f : SQRexNode → SQRexNode}
    (hn : 0 ≤ n) (htype : (f (nodeAt s.nodes n)).type = (nodeAt s.nodes n).type)
    (hright : (nodeAt s.nodes n).type = .EXPR →
      (f (nodeAt s.nodes n)).right = (nodeAt s.nodes n).right) :
    Ready pattern (s.withNode n f) :=
  ⟨h.compiling.withNode hn htype hright, h.place⟩

/-! ### Classes -/

private theorem simple_of_children {node : SQRexNode} (h : node.children = []) : Simple node.type
    := by
  intro left right next
  cases node with
  | mk type l r nx =>
    cases type with
    | GREEDY => cases h
    | OR => cases h
    | EXPR => cases h
    | NOCAPEXPR => cases h
    | CLASS => cases h
    | NCLASS => cases h
    | _ => rfl

theorem Simple.children {node : SQRexNode} (h : Simple node.type) : node.children = [] :=
  h node.left node.right node.next

/-- The loop of the class at a node, with its `first` and `chain` -/
structure InClass (n : ℕ) (s : SQRex) (first chain : ℤ) : Prop where
  length : n < s.nodes.length
  head : (nodeAt s.nodes n).type = .CLASS ∨ (nodeAt s.nodes n).type = .NCLASS
  members : ∀ i : ℤ, n < i → i < s.nodes.length → Simple (nodeAt s.nodes i).type
  ascends : ∀ i : ℤ, n ≤ i → i < s.nodes.length → (nodeAt s.nodes i).next = -1 ∨
    (i < (nodeAt s.nodes i).next ∧ (nodeAt s.nodes i).next < s.nodes.length)
  chained : n ≤ chain ∧ chain < s.nodes.length
  pending : first = -1 ∨ (chain < first ∧ first < s.nodes.length)
  linked : chain ≠ n → (nodeAt s.nodes n).next ≠ -1

variable {n : ℕ} {first chain r : ℤ}

/-- A member is added. -/
theorem InClass.add (h : InClass n s first chain) (hr : Leaf s r s') :
    InClass n s' first chain := by
  have hlength := h.length
  have hchain := h.chained
  have hfirst := h.pending
  have hindex := hr.index
  have hlength' := hr.length
  refine ⟨by omega, ?_, fun i hn hi => ?_, fun i hn hi => ?_, by omega, by omega, fun hne => ?_⟩
  · rw [hr.grows.same n (by omega) (by omega)]
    exact h.head
  · by_cases hir : i = r
    · rw [hir]
      exact simple_of_children hr.children
    · rw [hr.grows.same i (by omega) (by omega)]
      exact h.members i hn (by omega)
  · by_cases hir : i = r
    · rw [hir]
      exact .inl hr.next
    · rw [hr.grows.same i (by omega) (by omega)]
      have hascends := h.ascends i hn (by omega)
      omega
  · rw [hr.grows.same n (by omega) (by omega)]
    exact h.linked hne

theorem InClass.of_nodes (h : InClass n s first chain) (hnodes : s'.nodes = s.nodes) :
    InClass n s' first chain where
  length := by
    rw [hnodes]
    exact h.length
  head := by
    rw [hnodes]
    exact h.head
  members := by
    rw [hnodes]
    exact h.members
  ascends := by
    rw [hnodes]
    exact h.ascends
  chained := by
    rw [hnodes]
    exact h.chained
  pending := by
    rw [hnodes]
    exact h.pending
  linked := by
    rw [hnodes]
    exact h.linked

theorem type_withNode (f : SQRexNode → SQRexNode) (hf : ∀ node, (f node).type = node.type) {i : ℤ}
    (hr : 0 ≤ r) (hi₀ : 0 ≤ i) (hi₁ : i < s.nodes.length) :
    (nodeAt (s.withNode r f).nodes i).type = (nodeAt s.nodes i).type := by
  by_cases hir : i = r
  · subst hir
    rw [SQRex.withNode, nodeAt_modify_self hi₀ hi₁, hf]
  · rw [SQRex.withNode, nodeAt_modify_of_ne hir hr hi₀]

/-- The data of a member changes. -/
theorem InClass.data (h : InClass n s first chain) {f : SQRexNode → SQRexNode} (hr : 0 ≤ r)
    (hf : ∀ node, (f node).type = node.type ∧ (f node).next = node.next) :
    InClass n (s.withNode r f) first chain := by
  have htype : ∀ i : ℤ, 0 ≤ i → i < s.nodes.length →
      (nodeAt (s.withNode r f).nodes i).type = (nodeAt s.nodes i).type := fun i =>
    type_withNode f (fun node => (hf node).1) hr
  have hnext : ∀ i : ℤ, 0 ≤ i → i < s.nodes.length →
      (nodeAt (s.withNode r f).nodes i).next = (nodeAt s.nodes i).next := by
    intro i hi₀ hi₁
    by_cases hir : i = r
    · subst hir
      rw [SQRex.withNode, nodeAt_modify_self hi₀ hi₁, (hf _).2]
    · rw [SQRex.withNode, nodeAt_modify_of_ne hir hr hi₀]
  have hlength := h.length
  have hlen := length_withNode (s := s) r f
  refine ⟨by omega, ?_, fun i hi hlt => ?_, fun i hi hlt => ?_, ?_, ?_, fun hne => ?_⟩
  · rw [htype n (by omega) (by omega)]
    exact h.head
  · rw [htype i (by omega) (by omega)]
    exact h.members i hi (by omega)
  · rw [hlen, hnext i (by omega) (by omega)]
    exact h.ascends i hi (by omega)
  · rw [hlen]
    exact h.chained
  · rw [hlen]
    exact h.pending
  · rw [hnext n (by omega) (by omega)]
    exact h.linked hne

/-- The chain grows by a member that stands behind it. -/
theorem InClass.link (h : InClass n s first chain) (hr : chain < r ∧ r < s.nodes.length) :
    InClass n (s.withNode chain fun node => { node with next := r }) (-1) r := by
  have hlength := h.length
  have hchain := h.chained
  have hlen := length_withNode (s := s) chain fun node => { node with next := r }
  have htype : ∀ i : ℤ, 0 ≤ i → i < s.nodes.length →
      (nodeAt (s.withNode chain fun node => { node with next := r }).nodes i).type =
        (nodeAt s.nodes i).type := fun i =>
    type_withNode (fun node => { node with next := r }) (fun _ => rfl) (by omega)
  have hnext : ∀ i : ℤ, 0 ≤ i → i < s.nodes.length →
      (nodeAt (s.withNode chain fun node => { node with next := r }).nodes i).next =
        if i = chain then r else (nodeAt s.nodes i).next := by
    intro i hi₀ hi₁
    by_cases hir : i = chain
    · subst hir
      rw [SQRex.withNode, nodeAt_modify_self hi₀ hi₁, if_pos rfl]
    · rw [SQRex.withNode, nodeAt_modify_of_ne hir (by omega) hi₀, if_neg hir]
  refine ⟨by omega, ?_, fun i hi hlt => ?_, fun i hi hlt => ?_, by omega, .inl rfl, fun hne => ?_⟩
  · rw [htype n (by omega) (by omega)]
    exact h.head
  · rw [htype i (by omega) (by omega)]
    exact h.members i hi (by omega)
  · rw [hlen, hnext i (by omega) (by omega)]
    split
    · omega
    · exact h.ascends i hi (by omega)
  · rw [hnext n (by omega) (by omega)]
    split
    · omega
    · rename_i hchain'
      exact h.linked fun heq => hchain' heq.symm

/-- The nodes before a place stay as they are, and the pattern is read further. -/
structure Beyond (n : ℕ) (s s' : SQRex) : Prop where
  p : s.p ≤ s'.p
  length : s.nodes.length ≤ s'.nodes.length
  same : ∀ i : ℤ, 0 ≤ i → i < n → nodeAt s'.nodes i = nodeAt s.nodes i

theorem Beyond.trans (h : Beyond n s s') (h' : Beyond n s' s'') : Beyond n s s'' where
  p := h.p.trans h'.p
  length := h.length.trans h'.length
  same i hi₀ hi₁ := (h'.same i hi₀ hi₁).trans (h.same i hi₀ hi₁)

theorem Beyond.of_nodes (hp : s.p ≤ s'.p) (hnodes : s'.nodes = s.nodes) : Beyond n s s' :=
  ⟨hp, by rw [hnodes], fun i _ _ => by rw [hnodes]⟩

theorem AddsLeaf.beyond (h : AddsLeaf pattern s r s') (hn : n ≤ s.nodes.length) : Beyond n s s' :=
  ⟨Nat.le_of_lt h.p, h.leaf.grows.length, fun i hi₀ hi₁ => h.leaf.grows.same i hi₀ (by omega)⟩

theorem beyond_withNode {f : SQRexNode → SQRexNode} (hr : n ≤ r) : Beyond n s (s.withNode r f) where
  p := Nat.le_refl _
  length := by rw [length_withNode]
  same i hi₀ hi₁ := nodeAt_modify_of_ne (by omega) (by omega) hi₀

/-- What a round of the class leaves -/
structure InLoop (pattern : List Char) (n : ℕ) (s : SQRex) (first chain : ℤ) (s' : SQRex) :
    Prop where
  ready : Ready pattern s'
  inClass : InClass n s' first chain
  beyond : Beyond n s s'

/-- A round that reads a character and makes it the `first` one -/
theorem outcome_classChar (h : Ready pattern s) (hclass : InClass n s (-1) chain) :
    Outcome s (charnode true) (fun r s' => InLoop pattern n s r chain s' ∧ r ≠ -1 ∧ s.p < s'.p ∧
      s.p < pattern.length) (Fails pattern) := by
  refine (outcome_charnode true h).mono fun r s' hadds => ?_
  have hchain := hclass.chained
  have hindex := hadds.leaf.index
  have hlength := hadds.leaf.length
  have hadd := hclass.add hadds.leaf
  have hlen := hclass.length
  refine ⟨⟨hadds.ready, ?_, hadds.beyond (by omega)⟩, by omega, hadds.p, hadds.inside⟩
  exact { hadd with pending := .inr (by omega) }

theorem Ready.setNext (h : Ready pattern s) (hr : 0 ≤ r) (next : ℤ) :
    Ready pattern (s.withNode r fun node => { node with next := next }) :=
  h.withNode hr rfl fun _ => rfl

/-- A range takes the place of its first character. -/
theorem outcome_classRange (hfine : Fine pattern s) (hp : s.p < pattern.length)
    (hclass : InClass n s first chain) (hfirst : first ≠ -1) {c : Char} {f : ℤ → Compiler β}
    {Q : β → SQRex → Prop}
    (hf : ∀ r s', InLoop pattern n s (-1) r s' → r ≠ n → s.p < s'.p →
      Outcome s' (f r) Q (Fails pattern)) :
    Outcome s (do
      SQRex.advance
      errorIf (c = ']') "unfinished range"
      let r ← newnode .RANGE
      let type ← typeOf first
      errorIf (type.code > schar (← SQRex.peek)) "invalid range"
      errorIf (type = .CCLASS) "cannot use character classes in ranges"
      setNode r fun n => { n with left := type.code }
      let t ← escapechar
      setNode r fun n => { n with right := schar t }
      setNode chain fun n => { n with next := r }
      f r) Q (Fails pattern) := by
  have hlength := hclass.length
  have hchain := hclass.chained
  have hpending := hclass.pending.resolve_left hfirst
  have hsimple : Simple .RANGE := fun _ _ _ => rfl
  refine hfine.step hp fun s₁ h₁ hnodes₁ hp₁ => h₁.pass fun _ => ?_
  refine (outcome_newnode .RANGE h₁.compiling).bind fun r s₂ h₂ => ?_
  have hadds := AddsLeaf.of_newnode h₁.ready hnodes₁ (by omega) hp h₂.1 h₂.2 hsimple
  have hindex := hadds.leaf.index
  have hlength₂ := hadds.leaf.length
  have htype₂ := h₂.1.node.1
  refine outcome_typeOf (by omega) (hadds.ready.peek fun c hfine₂ _ => hfine₂.pass fun _ =>
    hfine₂.pass fun _ => outcome_setNode (by omega) ?_)
  generalize (nodeAt s₂.nodes first).type.code = low
  have hready₃ := hadds.ready.withNode (n := r) (f := fun n => { n with left := low }) (by omega)
    rfl fun _ => rfl
  refine (outcome_escapechar hready₃).bind fun t s₄ h₄ => ?_
  obtain ⟨hready₄, hnodes₄, hp₄⟩ := h₄
  have hlength₄ : s₄.nodes.length = s₂.nodes.length := by rw [hnodes₄, length_withNode]
  have hlength₅ := length_withNode (s := s₄) r fun n => { n with right := schar t }
  refine outcome_setNode (by omega) (outcome_setNode (by omega) ?_)
  have htype₄ : (nodeAt s₄.nodes r).type = .RANGE := by
    rw [hnodes₄, type_withNode (fun n => { n with left := low }) (fun _ => rfl) (by omega)
      (by omega) (by omega), htype₂]
  have hclass₄ : InClass n s₄ first chain :=
    ((hclass.add hadds.leaf).data (r := r) (f := fun n => { n with left := low }) (by omega)
      fun _ => ⟨rfl, rfl⟩).of_nodes hnodes₄
  have hready₅ := hready₄.withNode (n := r) (f := fun n => { n with right := schar t }) (by omega)
    rfl fun hexpr => by
      rw [htype₄] at hexpr
      cases hexpr
  have hclass₅ := hclass₄.data (r := r) (f := fun n => { n with right := schar t }) (by omega)
    fun _ => ⟨rfl, rfl⟩
  refine hf r _ ⟨hready₅.setNext (by omega) r, hclass₅.link ⟨by omega, ?_⟩, ?_⟩ (by omega) ?_
  · rw [length_withNode]
    omega
  · have hb₄ : Beyond n s s₄ :=
      ((hadds.beyond (by omega)).trans (beyond_withNode (r := r) (by omega))).trans
        (Beyond.of_nodes (Nat.le_of_lt hp₄) hnodes₄)
    exact (hb₄.trans (beyond_withNode (r := r) (by omega))).trans (beyond_withNode (by omega))
  · have hp₂ := hadds.p
    exact Nat.lt_trans hp₂ hp₄

/-- The loop of a class ends behind its members; there is one at least, when the class does not
end at once. -/
theorem outcome_classLoop {fuel : ℕ} (h : Ready pattern s) (hclass : InClass n s first chain)
    (hsome : first ≠ -1 ∨ chain ≠ n ∨ SQRex.peek s ≠ .ok ']' s)
    (hfuel : pattern.length + 1 - s.p ≤ fuel) (hpos : 0 < fuel) :
    Outcome s (classLoop fuel first chain) (fun res s' => InLoop pattern n s res.1 res.2 s' ∧
      (res.1 ≠ -1 ∨ res.2 ≠ n)) (Fails pattern) := by
  induction fuel generalizing s first chain with
  | zero => omega
  | succ fuel ih =>
    have hagain : ∀ {s' : SQRex} {first' chain' : ℤ}, InLoop pattern n s first' chain' s' →
        (first' ≠ -1 ∨ chain' ≠ n) → s.p < s'.p → s.p < pattern.length →
        Outcome s' (classLoop fuel first' chain') (fun res s'' =>
          InLoop pattern n s res.1 res.2 s'' ∧ (res.1 ≠ -1 ∨ res.2 ≠ n)) (Fails pattern) := by
      intro s' first' chain' hloop hne hp hinside
      refine (ih hloop.ready hloop.inClass (by tauto) (by omega) (by omega)).mono fun res s'' hres => ?_
      exact ⟨⟨hres.1.ready, hres.1.inClass, hloop.beyond.trans hres.1.beyond⟩, hres.2⟩
    have hlength := hclass.length
    have hchain := hclass.chained
    have hpending := hclass.pending
    rw [classLoop]
    refine h.peekAt fun c hc hfine hlt => ?_
    by_cases hend : c = ']'
    · rw [if_pos hend]
      refine outcome_pure ⟨⟨h, hclass, Beyond.of_nodes (Nat.le_refl _) rfl⟩, ?_⟩
      rw [hend] at hc
      cases hsome with
      | inl hsome => exact .inl hsome
      | inr hsome => exact .inr (hsome.resolve_right (not_not.mpr hc))
    · rw [if_neg hend]
      by_cases hrange : c = '-' ∧ first ≠ -1
      · rw [if_pos hrange]
        have hinside := hlt (by rw [hrange.1]; decide)
        refine outcome_classRange hfine hinside hclass hrange.2 fun r s' hloop hne hp => ?_
        exact hagain hloop (.inr hne) hp hinside
      · rw [if_neg hrange]
        by_cases hfirst : first ≠ -1
        · rw [if_pos hfirst]
          refine outcome_setNode (by omega) ?_
          have hlink := hclass.link (r := first) (by omega)
          refine (outcome_classChar (h.setNext (by omega) first) hlink).bind fun r s' hr => ?_
          obtain ⟨hloop, hne, hp, hinside⟩ := hr
          refine hagain ⟨hloop.ready, hloop.inClass, ?_⟩ (.inl hne) hp hinside
          exact (beyond_withNode (by omega)).trans hloop.beyond
        · rw [if_neg hfirst]
          obtain rfl := not_not.mp hfirst
          refine (outcome_classChar h hclass).bind fun r s' hr => ?_
          obtain ⟨hloop, hne, hp, hinside⟩ := hr
          exact hagain hloop (.inl hne) hp hinside

/-- What a function leaves that parses a part of the pattern -/
structure Parsed (pattern : List Char) (s : SQRex) (ret : ℤ) (s' : SQRex) : Prop where
  ready : Ready pattern s'
  grows : Grows s s'
  p : s.p < s'.p
  inside : s.p < pattern.length
  segment : Segment s'.nodes s.nodes.length s'.nodes.length ret

/-- What a function leaves that parses an element without what follows it -/
structure Single (pattern : List Char) (s : SQRex) (ret : ℤ) (s' : SQRex) : Prop where
  parsed : Parsed pattern s ret s'
  next : (nodeAt s'.nodes ret).next = -1

theorem Parsed.range {ret : ℤ} (h : Parsed pattern s ret s') : 0 ≤ ret ∧ ret < s'.nodes.length := by
  have hroot := h.segment.root
  omega

theorem AddsLeaf.single (h : AddsLeaf pattern s r s') : Single pattern s r s' := by
  have hindex := h.leaf.index
  have hchildren := h.leaf.children
  have hnext := h.leaf.next
  subst hindex
  refine ⟨⟨h.ready, h.leaf.grows, h.p, h.inside, ?_⟩, hnext⟩
  rw [h.leaf.length]
  exact .leaf (Nat.le_of_eq h.leaf.length.symm) hchildren hnext

/-- The end of a class: its chain becomes its left side. -/
theorem InClass.segment (h : InClass n s (-1) chain) (hne : chain ≠ n) :
    Segment (s.withNode n fun node => { node with left := node.next, next := -1 }).nodes n
      s.nodes.length n := by
  have hlength := h.length
  have hnode : nodeAt (s.withNode n fun node => { node with left := node.next, next := -1 }).nodes n =
      { nodeAt s.nodes n with left := (nodeAt s.nodes n).next, next := -1 } :=
    nodeAt_modify_self (by omega) (by omega)
  have hlinked := h.linked hne
  have hascends := h.ascends n (by omega) (by omega)
  have hchildren : (nodeAt (s.withNode n fun node =>
      { node with left := node.next, next := -1 }).nodes n).children = [(nodeAt s.nodes n).next] := by
    rw [hnode]
    cases h.head with
    | inl hhead => rw [SQRexNode.children, hhead]
    | inr hhead => rw [SQRexNode.children, hhead]
  refine Segment.ofClass (by rw [length_withNode]) hchildren (by omega) ?_ fun i hi hlt => ?_
  · rw [hnode]
  · have hi' : nodeAt (s.withNode n fun node => { node with left := node.next, next := -1 }).nodes i =
        nodeAt s.nodes i := nodeAt_modify_of_ne (by omega) (by omega) (by omega)
    rw [hi']
    exact ⟨(h.members i hi hlt).children, h.ascends i (by omega) hlt⟩

/-- A new class -/
theorem InClass.of_newnode {type : SQRexNodeType} (h : NewNode s type r s')
    (htype : type = .CLASS ∨ type = .NCLASS) : r = s.nodes.length ∧
      InClass s.nodes.length s' (-1) r := by
  have hindex := h.index
  have hlength := h.length
  have hnode := h.node
  subst hindex
  refine ⟨rfl, by omega, ?_, fun i hi hlt => by omega, fun i hi hlt => ?_, by omega, .inl rfl,
    fun hne => absurd rfl hne⟩
  · rw [hnode.1]
    exact htype
  · obtain rfl : i = s.nodes.length := by omega
    exact .inl hnode.2.2

/-- The end of a class, where its last character may be pending -/
theorem InLoop.close (h : InLoop pattern n s first chain s') (hsome : first ≠ -1 ∨ chain ≠ n)
    {y : Compiler β} {Q : β → SQRex → Prop}
    (hy : ∀ s₁, Ready pattern s₁ → Beyond n s s₁ → Segment s₁.nodes n s₁.nodes.length n →
      (nodeAt s₁.nodes n).next = -1 → Outcome s₁ y Q (Fails pattern)) :
    Outcome s' (do
      if first ≠ -1 then setNode chain fun node => { node with next := first }
      setNode n fun node => { node with left := node.next, next := -1 }
      y) Q (Fails pattern) := by
  have hclosed : ∀ {s' : SQRex} {chain : ℤ}, InLoop pattern n s (-1) chain s' → chain ≠ n →
      Outcome s' (setNode n (fun node => { node with left := node.next, next := -1 }) >>= fun _ => y)
        Q (Fails pattern) := by
    intro s' chain h hne
    have hlength := h.inClass.length
    have hhead := h.inClass.head
    refine outcome_setNode (by omega) (hy _ (h.ready.withNode (by omega) rfl fun _ => rfl)
      (h.beyond.trans (beyond_withNode (Int.le_refl _))) ?_ ?_)
    · rw [length_withNode]
      exact h.inClass.segment hne
    · rw [SQRex.withNode, nodeAt_modify_self (by omega) (by omega)]
  have hpending := h.inClass.pending
  have hchain := h.inClass.chained
  by_cases hfirst : first ≠ -1
  · rw [if_pos hfirst]
    have hloop : InLoop pattern n s (-1) first
        (s'.withNode chain fun node => { node with next := first }) :=
      ⟨h.ready.setNext (by omega) first, h.inClass.link (by omega),
        h.beyond.trans (beyond_withNode (by omega))⟩
    exact outcome_setNode (by omega) (hclosed hloop (by omega))
  · rw [if_neg hfirst]
    obtain rfl := not_not.mp hfirst
    exact hclosed h (hsome.resolve_left hfirst)

theorem outcome_rexClass (h : Ready pattern s) :
    Outcome s rexClass (fun ret s' => Ready pattern s' ∧ Beyond s.nodes.length s s' ∧
      Segment s'.nodes s.nodes.length s'.nodes.length ret ∧ (nodeAt s'.nodes ret).next = -1)
      (Fails pattern) := by
  refine h.peek fun c hfine hlt => ?_
  extract_lets rest
  have hrest : ∀ (ret : ℤ) s₁, ret = s.nodes.length →
      InLoop pattern s.nodes.length s (-1) ret s₁ → Outcome s₁ (rest ret) (fun ret s' => Ready pattern s' ∧ Beyond s.nodes.length s s' ∧
        Segment s'.nodes s.nodes.length s'.nodes.length ret ∧ (nodeAt s'.nodes ret).next = -1)
        (Fails pattern) := by
    rintro _ s₁ rfl h₁
    refine h₁.ready.peekAt fun c hc hfine₁ _ => hfine₁.pass fun hempty => ?_
    have hsome : (-1 : ℤ) ≠ -1 ∨ (s.nodes.length : ℤ) ≠ s.nodes.length ∨
        SQRex.peek s₁ ≠ .ok ']' s₁ := by
      refine .inr (.inr fun hbracket => ?_)
      rw [hc] at hbracket
      cases hbracket
      exact hempty rfl
    have hpattern := h₁.ready.compiling.pattern_eq
    refine outcome_getBind ?_
    refine (outcome_classLoop h₁.ready h₁.inClass hsome (by rw [hpattern]; omega)
      (Nat.succ_pos _)).bind fun res s₃ h₃ => ?_
    exact h₃.1.close h₃.2 fun s₄ h₄ hbeyond hsegment hnext =>
      outcome_pure ⟨h₄, h₁.beyond.trans hbeyond, hsegment, hnext⟩
  by_cases hneg : c = '^'
  · rw [if_pos hneg]
    refine (outcome_newnode .NCLASS hfine.compiling).bind fun r s₂ h₂ => ?_
    obtain ⟨hr, hclass⟩ := InClass.of_newnode h₂.1 (.inr rfl)
    have hfine₂ : Fine pattern s₂ := ⟨h₂.2, by rw [h₂.1.p]; exact hfine.p, by
      rw [h₂.1.escapes]; exact hfine.escapes⟩
    refine hfine₂.step (by rw [h₂.1.p]; exact hlt (by rw [hneg]; decide)) fun s₃ h₃ hn₃ hp₃ => ?_
    have hb₂ : Beyond s.nodes.length s s₂ :=
      ⟨Nat.le_of_eq h₂.1.p.symm, h₂.1.grows.length, h₂.1.grows.same⟩
    exact hrest r s₃ hr ⟨h₃.ready, hclass.of_nodes hn₃,
      hb₂.trans (Beyond.of_nodes (by omega) hn₃)⟩
  · rw [if_neg hneg]
    refine (outcome_newnode .CLASS hfine.compiling).bind fun r s₂ h₂ => ?_
    obtain ⟨hr, hclass⟩ := InClass.of_newnode h₂.1 (.inl rfl)
    refine hrest r s₂ hr ⟨⟨h₂.2, ?_⟩, hclass, Nat.le_of_eq h₂.1.p.symm, h₂.1.grows.length,
      h₂.1.grows.same⟩
    rw [h₂.1.p, h₂.1.escapes]
    exact .inl ⟨hfine.p, hfine.escapes⟩

end Squirt.SQRex
