import Squirt.RexClasses

/-!
# The compilation of regular expressions

Compilation ends, with an error or with nodes whose references have no cycles, unless an escape
begins at the last character of the pattern.
-/

namespace Squirt.SQRex

open Programs Programs.Program

variable {pattern : List Char} {s s' s'' : SQRex} {β : Type} {n : ℕ}

/-! ### Counts -/

/-- A part of the pattern is passed without new nodes. -/
structure Passes (pattern : List Char) (s s' : SQRex) : Prop where
  fine : Fine pattern s'
  nodes : s'.nodes = s.nodes
  p : s.p ≤ s'.p

theorem Passes.refl (h : Fine pattern s) : Passes pattern s s := ⟨h, rfl, Nat.le_refl _⟩

theorem Passes.trans (h : Passes pattern s s') (h' : Passes pattern s' s'') :
    Passes pattern s s'' :=
  ⟨h'.fine, h'.nodes.trans h.nodes, h.p.trans h'.p⟩

theorem Passes.step (h : Passes pattern s s') (hp : s'.p < pattern.length) {y : Compiler β}
    {Q : β → SQRex → Prop} {E : Stop RexError → SQRex → Prop}
    (hy : ∀ s₁, Passes pattern s s₁ → s₁.p = s'.p + 1 → Outcome s₁ y Q E) :
    Outcome s' (SQRex.advance >>= fun _ => y) Q E :=
  h.fine.step hp fun s₁ h₁ hnodes hp₁ => hy s₁ (h.trans ⟨h₁, hnodes, by omega⟩) hp₁

theorem Passes.done (h : Passes pattern s s') (hp : s'.p < pattern.length) {b : β} :
    Outcome s' (SQRex.advance >>= fun _ => pure b) (fun _ s₁ => Passes pattern s s₁)
      (Fails pattern) :=
  h.step hp fun _ h₁ _ => outcome_pure h₁

theorem outcome_expect {c : Char} (h : Ready pattern s) (hc : c ≠ NUL) :
    Outcome s (expect c) (fun _ s' => Passes pattern s s') (Fails pattern) := by
  refine h.peek fun d hfine hlt => hfine.pass fun heq => ?_
  have hdc := not_not.mp heq
  have hpass := Passes.refl hfine
  exact outcome_modify ⟨hfine.advance (hlt (by rwa [hdc])), rfl, Nat.le_succ _⟩

theorem isDigit_ne_nul {c : Char} (h : c.isDigit = true) : c ≠ NUL := by
  rintro rfl
  exact absurd h (by decide)

private theorem outcome_numberLoop {fuel ret positions : ℕ} (h : Fine pattern s)
    (hfuel : pattern.length + 1 - s.p ≤ fuel) :
    Outcome s (numberLoop fuel ret positions) (fun _ s' => Passes pattern s s')
      (Fails pattern) := by
  induction fuel generalizing s ret positions with
  | zero =>
    have hp := h.p
    omega
  | succ fuel ih =>
    rw [numberLoop]
    refine h.ready.peek fun c _ hlt => ?_
    by_cases hdigit : c.isDigit = true
    · rw [if_pos hdigit]
      have hinside := hlt (isDigit_ne_nul hdigit)
      refine (Passes.refl h).step hinside fun s₁ h₁ hp₁ => h₁.fine.pass fun _ => ?_
      exact (ih h₁.fine (by omega)).mono fun _ s₂ h₂ => h₁.trans h₂
    · rw [if_neg hdigit]
      exact outcome_pure (.refl h)

private theorem outcome_parsenumber (h : Fine pattern s) (hp : s.p < pattern.length) :
    Outcome s parsenumber (fun _ s' => Passes pattern s s') (Fails pattern) := by
  refine h.ready.peek fun c _ _ => (Passes.refl h).step hp fun s₁ h₁ hp₁ => ?_
  have hpattern := h₁.fine.compiling.pattern_eq
  refine outcome_getBind ?_
  exact (outcome_numberLoop h₁.fine (by rw [hpattern]; omega)).mono fun _ _ h₄ => h₁.trans h₄

/-- The counts are passed, when there are any. -/
theorem outcome_counts (h : Ready pattern s) :
    Outcome s counts (fun _ s' => Passes pattern s s') (Fails pattern) := by
  refine h.peek fun c hfine hlt => ?_
  have hpass := Passes.refl hfine
  split
  · exact hpass.done (hlt (by decide))
  · exact hpass.done (hlt (by decide))
  · exact hpass.done (hlt (by decide))
  · refine hpass.step (hlt (by decide)) fun s₁ h₁ hp₁ => ?_
    refine h₁.fine.ready.peek fun d _ hlt₁ => h₁.fine.pass fun hdigit => ?_
    refine (outcome_parsenumber h₁.fine (hlt₁ (isDigit_ne_nul (not_not.mp hdigit)))).bind
      fun p0 s₂ h₂ => h₂.fine.ready.peek fun e _ hlt₂ => ?_
    have hpass₂ := h₁.trans h₂
    split
    · exact hpass₂.done (hlt₂ (by decide))
    · refine hpass₂.step (hlt₂ (by decide)) fun s₃ h₃ hp₃ => ?_
      refine h₃.fine.ready.peek fun e _ hlt₃ => ?_
      split
      · rename_i hdigit₃
        refine (outcome_parsenumber h₃.fine (hlt₃ (isDigit_ne_nul hdigit₃))).bind fun p1 s₄ h₄ => ?_
        refine (outcome_expect h₄.fine.ready (by decide)).bind fun _ s₅ h₅ => ?_
        exact outcome_pure ((h₃.trans h₄).trans h₅)
      · refine (outcome_expect h₃.fine.ready (by decide)).bind fun _ s₄ h₄ => ?_
        exact outcome_pure (h₃.trans h₄)
    · exact outcome_of_error rfl h₂.fine.escapes
  · exact outcome_pure hpass

/-! ### Elements and lists -/

theorem Single.of_passes {ret : ℤ} (h : Single pattern s ret s') (h' : Passes pattern s' s'') :
    Single pattern s ret s'' := by
  obtain ⟨⟨hready, hgrows, hp, hinside, hsegment⟩, hnext⟩ := h
  refine ⟨⟨h'.fine.ready, ⟨?_, ?_⟩, Nat.lt_of_lt_of_le hp h'.p, hinside, ?_⟩, ?_⟩
  · rw [h'.nodes]
    exact hgrows.length
  · rw [h'.nodes]
    exact hgrows.same
  · rw [h'.nodes]
    exact hsegment
  · rw [h'.nodes]
    exact hnext

theorem Grows.segment {m : ℕ} {ret : ℤ} (h : Grows s s') (hs : Segment s.nodes n m ret) :
    Segment s'.nodes n m ret :=
  hs.congr h.length fun i hn hm => by
    have hlen := hs.length
    rw [h.same i (by omega) (by omega)]
    exact ⟨rfl, rfl⟩

/-- The element is repeated. -/
theorem outcome_greedy {ret : ℤ} (h : Single pattern s ret s') :
    Outcome s' (greedy ret) (Single pattern s) (Fails pattern) := by
  refine (outcome_counts h.parsed.ready).bind fun res s₁ h₁ => ?_
  have hsingle := h.of_passes h₁
  cases res with
  | none => exact outcome_pure hsingle
  | some bounds =>
    refine (outcome_newnode .GREEDY h₁.fine.compiling).bind fun r s₂ h₂ =>
      outcome_setNode h₂.1.range ?_
    have hindex := h₂.1.index
    have hlength := h₂.1.length
    have hnode : nodeAt (s₂.withNode r fun n =>
        { n with left := ret, right := packed bounds.1 bounds.2 }).nodes r =
        { nodeAt s₂.nodes r with left := ret, right := packed bounds.1 bounds.2 } :=
      nodeAt_modify_self (by omega) (by omega)
    have hready₂ : Ready pattern s₂ := by
      refine ⟨h₂.2, ?_⟩
      rw [h₂.1.p, h₂.1.escapes]
      exact h₁.fine.ready.place
    have hgrows : Grows s₁ (s₂.withNode r fun n =>
        { n with left := ret, right := packed bounds.1 bounds.2 }) :=
      h₂.1.grows.withNode (by omega)
    have hnext := h₂.1.node.2.2
    refine outcome_pure ⟨⟨hready₂.withNode (by omega) rfl fun hexpr => ?_,
      hsingle.parsed.grows.trans hgrows, ?_, hsingle.parsed.inside, ?_⟩, ?_⟩
    · rw [h₂.1.node.1] at hexpr
      cases hexpr
    · change s.p < s₂.p
      rw [h₂.1.p]
      exact hsingle.parsed.p
    · rw [length_withNode, hlength]
      subst hindex
      refine (hgrows.segment hsingle.parsed.segment).over (by rw [length_withNode, hlength]) ?_ ?_
      · rw [hnode, SQRexNode.children, h₂.1.node.1]
      · rw [hnode, hnext]
    · rw [hnode, hnext]

/-- The parser of lists does its work behind a place in the pattern. -/
def ParsesAfter (pattern : List Char) (p : ℕ) (list : Compiler ℤ) : Prop :=
  ∀ s, Ready pattern s → p < s.p → p < pattern.length →
    Outcome s list (Parsed pattern s) (Fails pattern)

/-- The node of a group gets what stands in the parentheses. -/
theorem Parsed.group {type : SQRexNodeType} {expr newn : ℤ} {s₁ : SQRex}
    (hnew : NewNode s type expr s₁) (htype : type = .EXPR ∨ type = .NOCAPEXPR)
    (h : Parsed pattern s₁ newn s') :
    Ready pattern (s'.withNode expr fun n => { n with left := newn }) ∧
      Grows s (s'.withNode expr fun n => { n with left := newn }) ∧
      Segment (s'.withNode expr fun n => { n with left := newn }).nodes s.nodes.length
        s'.nodes.length expr ∧
      (nodeAt (s'.withNode expr fun n => { n with left := newn }).nodes expr).next = -1 := by
  have hindex := hnew.index
  have hlength := hnew.length
  have hlength' := h.grows.length
  have hold : nodeAt s'.nodes expr = nodeAt s₁.nodes expr :=
    h.grows.same expr (by omega) (by omega)
  have hnode : nodeAt (s'.withNode expr fun n => { n with left := newn }).nodes expr =
      { nodeAt s₁.nodes expr with left := newn } := by
    rw [SQRex.withNode, nodeAt_modify_self (by omega) (by omega), hold]
  have hnext : (nodeAt (s'.withNode expr fun n => { n with left := newn }).nodes expr).next = -1 := by
    rw [hnode]
    exact hnew.node.2.2
  refine ⟨h.ready.withNode (by omega) rfl fun _ => rfl,
    (hnew.grows.trans h.grows).withNode (by omega), ?_, hnext⟩
  subst hindex
  have hsegment := h.segment
  rw [hlength] at hsegment
  refine Segment.parent (c := newn) (hsegment.congr ?_ fun i hi hlt => ?_) ?_ hnext
  · rw [length_withNode]
  · rw [SQRex.withNode, nodeAt_modify_of_ne (by omega) (by omega) (by omega)]
    exact ⟨rfl, rfl⟩
  · rw [hnode, SQRexNode.children, hnew.node.1]
    cases htype with
    | inl htype => rw [htype]
    | inr htype => rw [htype]

private theorem outcome_atom {list : Compiler ℤ} (h : Ready pattern s)
    (hlist : ParsesAfter pattern s.p list) :
    Outcome s (atom list) (Single pattern s) (Fails pattern) := by
  refine h.peek fun c hfine hlt => ?_
  have hpass := Passes.refl hfine
  split
  · have hinside := hlt (by decide)
    refine hpass.step hinside fun s₁ h₁ hp₁ => h₁.fine.ready.peek fun d _ hlt₁ => ?_
    extract_lets rest
    have hrest : ∀ {type : SQRexNodeType} {s₂ : SQRex}, Passes pattern s s₂ → s.p < s₂.p →
        type = .EXPR ∨ type = .NOCAPEXPR →
        Outcome s₂ (newnode type >>= rest) (Single pattern s) (Fails pattern) := by
      intro type s₂ h₂ hp₂ htype
      refine (outcome_newnode type h₂.fine.compiling).bind fun expr s₃ h₃ => ?_
      have hready₃ : Ready pattern s₃ := by
        refine ⟨h₃.2, ?_⟩
        rw [h₃.1.p, h₃.1.escapes]
        exact h₂.fine.ready.place
      have hp₃ := h₃.1.p
      refine (hlist s₃ hready₃ (by omega) hinside).bind fun newn s₄ h₄ =>
        outcome_setNode (h₄.grows.range h₃.1.range) ?_
      obtain ⟨hready₅, hgrows₅, hsegment₅, hnext₅⟩ := h₄.group h₃.1 htype
      refine (outcome_expect hready₅ (by decide)).bind fun _ s₆ h₆ => outcome_pure ?_
      have hp₄ := h₄.p
      refine Single.of_passes ⟨⟨hready₅, ?_, ?_, hinside, ?_⟩, hnext₅⟩ h₆
      · refine ⟨?_, ?_⟩
        · rw [← h₂.nodes]
          exact hgrows₅.length
        · rw [← h₂.nodes]
          exact hgrows₅.same
      · change s.p < s₄.p
        omega
      · rw [length_withNode, ← h₂.nodes]
        exact hsegment₅
    split
    · rename_i hcolon
      refine h₁.step (hlt₁ (by rw [hcolon]; decide)) fun s₂ h₂ hp₂ => ?_
      refine (outcome_expect h₂.fine.ready (by decide)).bind fun _ s₃ h₃ => ?_
      have hp₃ := h₃.p
      exact hrest (h₂.trans h₃) (by omega) (.inr rfl)
    · exact hrest h₁ (by omega) (.inl rfl)
  · have hinside := hlt (by decide)
    refine hpass.step hinside fun s₁ h₁ hp₁ => ?_
    refine (outcome_rexClass h₁.fine.ready).bind fun ret s₂ h₂ => ?_
    obtain ⟨hready₂, hbeyond₂, hsegment₂, hnext₂⟩ := h₂
    refine (outcome_expect hready₂ (by decide)).bind fun _ s₃ h₃ => outcome_pure ?_
    have hp₂ := hbeyond₂.p
    rw [h₁.nodes] at hbeyond₂ hsegment₂
    refine Single.of_passes ⟨⟨hready₂, ⟨?_, ?_⟩, by omega, hinside, hsegment₂⟩, hnext₂⟩ h₃
    · rw [← h₁.nodes]
      exact hbeyond₂.length
    · rw [← h₁.nodes]
      exact fun i hi₀ hi₁ => hbeyond₂.same i hi₀ (by rwa [← h₁.nodes])
  · have hinside := hlt (by decide)
    have hsimple : Simple .EOL := fun _ _ _ => rfl
    refine hpass.step hinside fun s₁ h₁ hp₁ => ?_
    exact (outcome_leaf h₁.fine.ready h₁.nodes (by omega) hinside hsimple).mono fun _ _ h₂ => h₂.single
  · have hinside := hlt (by decide)
    have hsimple : Simple .DOT := fun _ _ _ => rfl
    refine hpass.step hinside fun s₁ h₁ hp₁ => ?_
    exact (outcome_leaf h₁.fine.ready h₁.nodes (by omega) hinside hsimple).mono fun _ _ h₂ => h₂.single
  · exact (outcome_charnode false h).mono fun _ _ h₁ => h₁.single

/-- What stands behind an element comes after its node. -/
theorem Single.follow {ret nnode : ℤ} (h : Single pattern s ret s')
    (hr : Parsed pattern s' nnode s'') :
    Parsed pattern s ret (s''.withNode ret fun n => { n with next := nnode }) := by
  have hroot := h.parsed.segment.root
  have hlen := hr.grows.length
  have hnode : nodeAt (s''.withNode ret fun n => { n with next := nnode }).nodes ret =
      { nodeAt s''.nodes ret with next := nnode } := by
    rw [SQRex.withNode, nodeAt_modify_self (by omega) (by omega)]
  have hp := h.parsed.p
  have hp' := hr.p
  refine ⟨hr.ready.setNext (by omega) nnode, ?_, Nat.lt_trans hp hp', h.parsed.inside, ?_⟩
  · exact (h.parsed.grows.trans hr.grows).withNode hroot.1
  · rw [length_withNode]
    refine (hr.grows.segment h.parsed.segment).chain hr.segment ?_ ⟨?_, ?_⟩ (fun i hi hk hne => ?_) ?_
    · rw [hr.grows.same ret (by omega) (by omega)]
      exact h.next
    · rw [hnode]
      rfl
    · rw [hnode]
    · rw [SQRex.withNode, nodeAt_modify_of_ne hne (by omega) (by omega)]
      exact ⟨rfl, rfl⟩
    · rw [length_withNode]

/-- A list of alternatives: the node stands between the alternatives. -/
theorem Parsed.or {ret temp tright : ℤ} {s₁ s₂ s₃ : SQRex} (h : Parsed pattern s ret s₁)
    (hpass : Passes pattern s₁ s₂) (hnew : NewNode s₂ .OR temp s₃)
    (hr : Parsed pattern (s₃.withNode temp fun n => { n with left := ret }) tright s') :
    Parsed pattern s temp (s'.withNode temp fun n => { n with right := tright }) := by
  have hindex := hnew.index
  have hlength := hnew.length
  have hlen := hr.grows.length
  rw [length_withNode] at hlen
  have hroot := h.segment.root
  have hnodes := hpass.nodes
  have hlen₁ := h.grows.length
  rw [hnodes] at hlength hindex
  have hnode : nodeAt (s'.withNode temp fun n => { n with right := tright }).nodes temp =
      { nodeAt s₃.nodes temp with left := ret, right := tright } := by
    rw [SQRex.withNode, nodeAt_modify_self (by omega) (by omega), hr.grows.same temp (by omega)
      (by rw [length_withNode]; omega), SQRex.withNode, nodeAt_modify_self (by omega) (by omega)]
  have hgrows₃ : Grows s₁ (s₃.withNode temp fun n => { n with left := ret }) := by
    refine Grows.withNode ⟨?_, ?_⟩ (by omega)
    · rw [← hnodes]
      exact hnew.grows.length
    · rw [← hnodes]
      exact hnew.grows.same
  have hgrows : Grows s₁ (s'.withNode temp fun n => { n with right := tright }) :=
    (hgrows₃.trans hr.grows).withNode (by omega)
  have hp := h.p
  have hp₁ := hpass.p
  have hp₃ := hnew.p
  have hp' : s₃.p < s'.p := hr.p
  have htype : (nodeAt s'.nodes temp).type = .OR := by
    rw [hr.grows.same temp (by omega) (by rw [length_withNode]; omega), SQRex.withNode,
      nodeAt_modify_self (by omega) (by omega)]
    exact hnew.node.1
  refine ⟨hr.ready.withNode (by omega) rfl fun hexpr => ?_, h.grows.trans hgrows, ?_, h.inside, ?_⟩
  · rw [htype] at hexpr
    cases hexpr
  · change s.p < s'.p
    omega
  · have hsegment := hr.segment
    rw [length_withNode, hlength] at hsegment
    rw [length_withNode]
    subst hindex
    refine (hgrows.segment h.segment).branch (r := tright) (hsegment.congr ?_ fun i hi hlt => ?_) ?_ ?_
    · rw [length_withNode]
    · rw [SQRex.withNode, nodeAt_modify_of_ne (by omega) (by omega) (by omega)]
      exact ⟨rfl, rfl⟩
    · rw [hnode, SQRexNode.children, hnew.node.1]
    · rw [hnode]
      exact hnew.node.2.2

/-- What stands behind an element or a list -/
theorem outcome_listRest {fuel : ℕ} {ret : ℤ} (h : Parsed pattern s ret s')
    (hlist : ParsesAfter pattern s.p (list fuel)) :
    Outcome s' (do
      if (← SQRex.peek) = '|' then
        SQRex.advance
        let temp ← newnode .OR
        setNode temp fun n => { n with left := ret }
        let tright ← list fuel
        setNode temp fun n => { n with right := tright }
        return temp
      else return ret) (Parsed pattern s) (Fails pattern) := by
  refine h.ready.peek fun c hfine hlt => ?_
  split
  · rename_i hbar
    refine (Passes.refl hfine).step (hlt (by rw [hbar]; decide)) fun s₁ h₁ hp₁ => ?_
    refine (outcome_newnode .OR h₁.fine.compiling).bind fun temp s₂ h₂ =>
      outcome_setNode h₂.1.range ?_
    have hindex := h₂.1.index
    have hlength := h₂.1.length
    have hready₂ : Ready pattern s₂ := by
      refine ⟨h₂.2, ?_⟩
      rw [h₂.1.p, h₂.1.escapes]
      exact h₁.fine.ready.place
    have hready₃ : Ready pattern (s₂.withNode temp fun n => { n with left := ret }) :=
      hready₂.withNode (by omega) rfl fun _ => rfl
    have hp₂ := h₂.1.p
    have hp := h.p
    have hrange : 0 ≤ temp ∧ temp < (s₂.withNode temp fun n => { n with left := ret }).nodes.length := by
      rw [length_withNode]
      exact h₂.1.range
    refine (hlist _ hready₃ (show s.p < s₂.p by omega) h.inside).bind fun tright s₃ h₃ =>
      outcome_setNode (h₃.grows.range hrange) (outcome_pure ?_)
    · exact h.or h₁ h₂.1 h₃
  · exact outcome_pure h

/-- Elements and lists are parsed when the fuel is enough for the rest of the pattern. -/
theorem outcome_element_list (fuel : ℕ) :
    (∀ s, Ready pattern s → 2 * (pattern.length - s.p) + 1 ≤ fuel →
      Outcome s (element fuel) (Parsed pattern s) (Fails pattern)) ∧
    (∀ s, Ready pattern s → 2 * (pattern.length - s.p) + 2 ≤ fuel →
      Outcome s (list fuel) (Parsed pattern s) (Fails pattern)) := by
  induction fuel with
  | zero => exact ⟨fun s _ hfuel => by omega, fun s _ hfuel => by omega⟩
  | succ fuel ih =>
    obtain ⟨ihElement, ihList⟩ := ih
    refine ⟨fun s h hfuel => ?_, fun s h hfuel => ?_⟩
    · rw [element]
      have hlist : ParsesAfter pattern s.p (list fuel) := fun s₁ h₁ hp₁ hp => ihList s₁ h₁ (by omega)
      refine (outcome_atom h hlist).bind fun ret s₁ h₁ => (outcome_greedy h₁).bind fun ret s₂ h₂ => ?_
      refine h₂.parsed.ready.peek fun c hfine hlt => ?_
      split
      · have hp := h₂.parsed.p
        have hinside := h₂.parsed.inside
        refine (ihElement s₂ h₂.parsed.ready (by omega)).bind fun nnode s₃ h₃ => ?_
        exact outcome_setNode (h₃.grows.range h₂.parsed.range) (outcome_pure (h₂.follow h₃))
      · exact outcome_pure h₂.parsed
    · rw [list]
      have hlist : ParsesAfter pattern s.p (list fuel) := fun s₁ h₁ hp₁ hp => ihList s₁ h₁ (by omega)
      refine h.peek fun c hfine hlt => ?_
      extract_lets rest
      split
      · rename_i hbol
        have hinside := hlt (by rw [hbol]; decide)
        have hsimple : Simple .BOL := fun _ _ _ => rfl
        refine (Passes.refl hfine).step hinside fun s₁ h₁ hp₁ => ?_
        refine (outcome_leaf h₁.fine.ready h₁.nodes (by omega) hinside hsimple).bind
          fun bol s₂ h₂ => ?_
        have hp₂ := h₂.p
        have hindex := h₂.leaf.index
        refine (ihElement s₂ h₂.ready (by omega)).bind fun e s₃ h₃ => ?_
        refine (if_pos (c := bol ≠ -1) (by omega)) ▸ outcome_setNode (h₃.grows.range h₂.leaf.range) ?_
        exact outcome_listRest (h₂.single.follow h₃) hlist
      · refine (ihElement s h (by omega)).bind fun e s₁ h₁ => ?_
        exact outcome_listRest h₁ hlist

/-! ### Compilation -/

/-- What a compilation leaves that has a result -/
structure Compiled (pattern : List Char) (first : ℤ) (s : SQRex) : Prop where
  fine : Fine pattern s
  first : first = 0
  segment : Segment s.nodes 0 s.nodes.length 0
  type : (nodeAt s.nodes 0).type = .EXPR
  next : (nodeAt s.nodes 0).next = -1

theorem outcome_compileBody (hs : Fine pattern s) (hp : s.p = 0) (hnodes : s.nodes = []) :
    Outcome s compileBody (Compiled pattern) (Fails pattern) := by
  refine (outcome_newnode .EXPR hs.compiling).bind fun first s₁ h₁ => ?_
  have hindex := h₁.1.index
  have hlength := h₁.1.length
  have hnode₁ := h₁.1.node
  rw [hnodes] at hindex hlength
  have hp₁ := h₁.1.p
  have hready₁ : Ready pattern s₁ := by
    refine ⟨h₁.2, ?_⟩
    rw [h₁.1.p, h₁.1.escapes]
    exact hs.ready.place
  have hpattern := h₁.2.pattern_eq
  refine outcome_getBind ?_
  refine ((outcome_element_list _).2 s₁ hready₁ (by rw [hpattern]; omega)).bind
    fun res s₃ h₃ => outcome_setNode (h₃.grows.range h₁.1.range) ?_
  obtain ⟨hready, -, hsegment, hnext⟩ := h₃.group h₁.1 (.inl rfl)
  refine hready.peek fun c hfine _ => hfine.pass fun _ => outcome_pure ?_
  have hlen := h₃.grows.length
  obtain rfl : first = 0 := hindex
  refine ⟨hfine, rfl, ?_, ?_, hnext⟩
  · rw [hnodes] at hsegment
    rw [length_withNode]
    exact hsegment
  · rw [type_withNode (fun n => { n with left := res }) (fun _ => rfl) (by omega) (by omega)
      (by omega), h₃.grows.same 0 (by omega) (by omega), hnode₁.1]

end Squirt.SQRex
