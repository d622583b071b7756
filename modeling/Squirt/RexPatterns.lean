import Squirt.RegularPatterns
import Squirt.RexTermination

/-!
# What an expression stands for

The pattern that the nodes of an expression stand for, and that `matchnode` comes to places only
that the pattern leads to.
-/

namespace Squirt.Rex

open Programs Programs.Program RegularPatterns

variable {nodes : List SQRexNode} {t : Text} {bol eol : ℤ} {run : ℤ → ℤ → ℤ → Matcher (Option ℤ)}
  {i next str r : ℤ}

/-! ## The meaning of the nodes -/

/-- One member after the other, from one on -/
def Chained (nodes : List SQRexNode) : ℤ → ℤ → Prop :=
  Relation.ReflTransGen fun i j => (nodeAt nodes i).next = j ∧ j ≠ -1

/-- Some member of a class accepts the character. -/
def InMembers (nodes : List SQRexNode) (i : ℤ) (c : Char) : Prop :=
  ∃ j, Chained nodes i j ∧ (nodeAt nodes j).accepts c = true

/-- A node that is not an anchor takes the character. -/
def TakesChar (nodes : List SQRexNode) (node : SQRexNode) (c : Char) : Prop :=
  match node.type with
  | .DOT => True
  | .CLASS => InMembers nodes node.left c
  | .NCLASS => ¬InMembers nodes node.left c
  | .CCLASS => matchcclass node.left c = true
  | type => schar c = type.code

/-- What counts as the border of a word -/
def Border (t : Text) (bol eol str : ℤ) : Prop :=
  str = bol ∧ isspace (t.charAt str) = false ∨
    str = eol ∧ isspace (t.charAt (str - 1)) = false ∨
    isspace (t.charAt str) ≠ isspace (t.charAt (str + 1))

/-- A node without nodes in it leads from one place to another. -/
def Leads (nodes : List SQRexNode) (t : Text) (bol eol : ℤ) (node : SQRexNode) (x y : ℤ) : Prop :=
  match node.type with
  | .WB => (Border t bol eol x ↔ node.left = schar 'b') ∧ y = x
  | .BOL => x = bol ∧ y = x
  | .EOL => x = eol ∧ y = x
  | _ => TakesChar nodes node (t.charAt x) ∧ y = x + 1

/-- The upper count of a repetition, which is none at its greatest value -/
def upperBound (node : SQRexNode) : Option ℕ :=
  if upperCount node = 0xFFFF then none else some (upperCount node)

/-- A node has no nodes in it, but for the members of a class. -/
def IsAtom (node : SQRexNode) : Prop :=
  node.type ≠ .GREEDY ∧ node.type ≠ .OR ∧ node.type ≠ .EXPR ∧ node.type ≠ .NOCAPEXPR

/-- A node stands for a pattern; with `true`, the node and all after it. -/
inductive StandsFor (nodes : List SQRexNode) : Bool → ℤ → Pattern SQRexNode → Prop
  | atom {i : ℤ} (h : IsAtom (nodeAt nodes i)) : StandsFor nodes false i (.atom (nodeAt nodes i))
  | greedy {i : ℤ} {p : Pattern SQRexNode} (htype : (nodeAt nodes i).type = .GREEDY)
    (h : StandsFor nodes false (nodeAt nodes i).left p) :
    StandsFor nodes false i (.times p (lowerCount (nodeAt nodes i)) (upperBound (nodeAt nodes i)))
  | or {i : ℤ} {p q : Pattern SQRexNode} (htype : (nodeAt nodes i).type = .OR)
    (h : StandsFor nodes true (nodeAt nodes i).left p)
    (h' : StandsFor nodes true (nodeAt nodes i).right q) : StandsFor nodes false i (.alt p q)
  | group {i : ℤ} {p : Pattern SQRexNode}
    (htype : (nodeAt nodes i).type = .EXPR ∨ (nodeAt nodes i).type = .NOCAPEXPR)
    (h : StandsFor nodes true (nodeAt nodes i).left p) : StandsFor nodes false i p
  | last {i : ℤ} {p : Pattern SQRexNode} (hnext : (nodeAt nodes i).next = -1)
    (h : StandsFor nodes false i p) : StandsFor nodes true i p
  | follow {i : ℤ} {p q : Pattern SQRexNode} (hnext : (nodeAt nodes i).next ≠ -1)
    (h : StandsFor nodes false i p) (h' : StandsFor nodes true (nodeAt nodes i).next q) :
    StandsFor nodes true i (.seq p q)

/-- Nodes that do not refer to each other in a cycle stand for a pattern. -/
theorem standsFor_of_ranked {lo hi : ℕ} (h : Ranked nodes i lo hi) (hne : i ≠ -1) (chain : Bool) :
    ∃ p, StandsFor nodes chain i p := by
  induction h generalizing chain with
  | none => exact absurd rfl hne
  | @node i lo mid top hi hi₀ hi₁ hsome hchildren hmid htop hnext ihc ihn =>
    have hnode : ∃ p, StandsFor nodes false i p := by
      have hleft : ∀ c ∈ (nodeAt nodes i).children, ∀ chain, ∃ p, StandsFor nodes chain c p :=
        fun c hc chain => ihc c hc (fun heq => hsome (heq ▸ hc)) chain
      rw [SQRexNode.children] at hleft
      by_cases hatom : IsAtom (nodeAt nodes i)
      · exact ⟨_, .atom hatom⟩
      · cases htype : (nodeAt nodes i).type with
        | GREEDY =>
          rw [htype] at hleft
          obtain ⟨p, hp⟩ := hleft _ (List.mem_singleton_self _) false
          exact ⟨_, .greedy htype hp⟩
        | OR =>
          rw [htype] at hleft
          obtain ⟨p, hp⟩ := hleft _ List.mem_cons_self true
          obtain ⟨q, hq⟩ := hleft _ (List.mem_cons_of_mem _ (List.mem_singleton_self _)) true
          exact ⟨_, .or htype hp hq⟩
        | EXPR =>
          rw [htype] at hleft
          obtain ⟨p, hp⟩ := hleft _ (List.mem_singleton_self _) true
          exact ⟨p, .group (.inl htype) hp⟩
        | NOCAPEXPR =>
          rw [htype] at hleft
          obtain ⟨p, hp⟩ := hleft _ (List.mem_singleton_self _) true
          exact ⟨p, .group (.inr htype) hp⟩
        | _ => exact absurd (by simp [IsAtom, htype]) hatom
    obtain ⟨p, hp⟩ := hnode
    cases chain with
    | false => exact ⟨p, hp⟩
    | true =>
      by_cases hlast : (nodeAt nodes i).next = -1
      · exact ⟨p, .last hlast hp⟩
      · obtain ⟨q, hq⟩ := ihn hlast true
        exact ⟨_, .follow hlast hp hq⟩

/-! ## Matching follows the pattern -/

/-- What the nodes of an expression come to is in their patterns. -/
def Sound (nodes : List SQRexNode) (t : Text) (bol eol : ℤ)
    (run : ℤ → ℤ → ℤ → Matcher (Option ℤ)) : Prop :=
  ∀ i str next p, StandsFor nodes false i p →
    Gives (run i str next) fun res => ∀ r ∈ res, p.Matches (Leads nodes t bol eol) str r

theorem gives_read (a : ℤ) : Gives (read t a) fun c => c = t.charAt a :=
  .after fun _ => gives_pure rfl

theorem gives_attempt {body : Matcher (Option ℤ)} {Q : Option ℤ → Prop} (h : Gives body Q) :
    Gives (attempt i str body) Q := by
  refine .after fun _ => .after fun before => h.bind fun res hres => ?_
  cases res with
  | some r => exact .after fun _ => gives_pure hres
  | none => exact .after fun _ => gives_pure hres

/-- A class accepts what one of its members accepts. -/
theorem gives_matchclass (fuel : ℕ) (c : Char) :
    Gives (matchclass nodes fuel i c) fun found => found = true ↔ InMembers nodes i c := by
  induction fuel generalizing i with
  | zero =>
    intro s a s' hrun
    cases hrun
  | succ fuel ih =>
    rw [matchclass]
    split
    · rename_i haccepts
      exact gives_pure ⟨fun _ => ⟨i, .refl, haccepts⟩, fun _ => rfl⟩
    · rename_i hrejects
      have hlater : ∀ {j}, (nodeAt nodes i).next = j → j ≠ -1 →
          (InMembers nodes j c ↔ InMembers nodes i c) := by
        intro j hnext hne
        constructor
        · rintro ⟨k, hk, hc⟩
          exact ⟨k, .head ⟨hnext, hne⟩ hk, hc⟩
        rintro ⟨k, hk, hc⟩
        cases hk.cases_head with
        | inl heq => exact absurd (heq ▸ hc) hrejects
        | inr hk =>
          obtain ⟨j', hj', hk⟩ := hk
          obtain rfl : j' = j := hj'.1.symm.trans hnext
          exact ⟨k, hk, hc⟩
      split
      · rename_i hnext
        exact ih.mono fun found hfound => hfound.trans (hlater rfl hnext)
      · rename_i hlast
        have hnone : ¬InMembers nodes i c := by
          rintro ⟨k, hk, hc⟩
          cases hk.cases_head with
          | inl heq => exact hrejects (heq ▸ hc)
          | inr hk =>
            obtain ⟨j, hj, -⟩ := hk
            exact hlast (hj.1 ▸ hj.2)
        exact gives_pure (by simp [hnone])

private theorem gives_wordBorder :
    Gives (wordBorder t bol eol str) fun b => b = true ↔ Border t bol eol str := by
  have hchanges : Gives (spaceChanges t str) fun b => b = true ↔
      isspace (t.charAt str) ≠ isspace (t.charAt (str + 1)) := by
    refine (gives_read str).bind fun c hc => (gives_read (str + 1)).bind fun c' hc' => ?_
    exact gives_pure (by simp [hc, hc'])
  have hat : ∀ (place a : ℤ) (f : Bool → Matcher Bool) (Q : Bool → Prop),
      (∀ b, (b = true ↔ str = place ∧ isspace (t.charAt a) = false) → Gives (f b) Q) →
      Gives (if str = place then ((fun c => !isspace c) <$> read t a) >>= f else pure false >>= f)
        Q := by
    intro place a f Q hf
    split
    · rename_i heq
      refine Gives.bind ((gives_read a).mono fun c hc => ?_).map hf
      simp [heq, hc]
    · rename_i hne
      exact hf false (by simp [hne])
  apply hat bol str
  intro first hfirst
  dsimp only
  split
  · rename_i h
    exact gives_pure ⟨fun _ => .inl (hfirst.mp h), fun _ => rfl⟩
  · rename_i h
    apply hat eol (str - 1)
    intro last hlast
    split
    · rename_i h'
      exact gives_pure ⟨fun _ => .inr (.inl (hlast.mp h')), fun _ => rfl⟩
    · rename_i h'
      refine hchanges.mono fun b hb => hb.trans ?_
      rw [Border, ← hfirst, ← or_assoc, ← hlast]
      simp [h, h']

/-- A node without nodes in it comes to exactly the places that it leads to. -/
theorem gives_matchSimple (h : IsAtom (nodeAt nodes i)) :
    Gives (matchSimple nodes t bol eol (nodeAt nodes i) str) fun res =>
      ∀ r, res = some r ↔ Leads nodes t bol eol (nodeAt nodes i) str r := by
  obtain ⟨hgreedy, hor, hexpr, hnocap⟩ := h
  have hclass : ∀ c, Gives (matchclass nodes (nodes.length + 1) (nodeAt nodes i).left c)
      fun found => found = true ↔ InMembers nodes (nodeAt nodes i).left c :=
    fun c => gives_matchclass _ c
  have hwhen : ∀ {c Q : Prop} [Decidable c] {x : ℤ}, (c ↔ Q) →
      Gives (pure (if c then some x else none) : Matcher (Option ℤ))
        fun res => ∀ r, res = some r ↔ Q ∧ r = x := by
    intro c Q hdec x hc
    refine gives_pure fun r => ?_
    split <;> simp_all [eq_comm]
  have hunless : ∀ {c Q : Prop} [Decidable c] {x : ℤ}, (¬c ↔ Q) →
      Gives (pure (if c then none else some x) : Matcher (Option ℤ))
        fun res => ∀ r, res = some r ↔ Q ∧ r = x := by
    intro c Q hdec x hc
    refine gives_pure fun r => ?_
    split <;> simp_all [eq_comm]
  rw [matchSimple]
  unfold Leads TakesChar
  cases htype : (nodeAt nodes i).type with
  | GREEDY => exact absurd htype hgreedy
  | OR => exact absurd htype hor
  | EXPR => exact absurd htype hexpr
  | NOCAPEXPR => exact absurd htype hnocap
  | WB =>
    refine gives_wordBorder.bind fun border hborder => hwhen ?_
    rw [← hborder]
    cases border <;> simp
  | BOL => exact hwhen Iff.rfl
  | EOL => exact hwhen Iff.rfl
  | DOT => exact gives_pure fun r => by simp [eq_comm]
  | CLASS =>
    refine (gives_read str).bind fun c hc => (hclass c).bind fun found hfound => hwhen ?_
    rw [hfound, hc]
  | NCLASS =>
    refine (gives_read str).bind fun c hc => (hclass c).bind fun found hfound => hunless ?_
    rw [hfound, hc]
  | CCLASS => exact (gives_read str).bind fun c hc => hwhen (by rw [hc])
  | RANGE | char _ => exact (gives_read str).bind fun c hc => hunless (by rw [hc, not_not])

/-- The loop repeats the node as often as it counts. -/
theorem sound_greedyLoop {p : Pattern SQRexNode} {left greedystop good : ℤ}
    {p0 p1 rounds nmaches : ℕ} (hrun : Sound nodes t bol eol run)
    (hleft : StandsFor nodes false left p)
    (hgood : Repeats (p.Matches (Leads nodes t bol eol)) nmaches str good) :
    Gives (greedyLoop nodes eol run left greedystop next p0 p1 rounds nmaches good) fun res =>
      Repeats (p.Matches (Leads nodes t bol eol)) res.1 str res.2 := by
  induction rounds generalizing nmaches good with
  | zero =>
    intro s a s' hrun
    cases hrun
  | succ rounds ih =>
    rw [greedyLoop]
    split
    · refine (hrun left good greedystop p hleft).bind fun res hres => ?_
      cases res with
      | none => exact gives_pure hgood
      | some s =>
        have hmore : Repeats (p.Matches (Leads nodes t bol eol)) (nmaches + 1) str s :=
          ⟨good, hgood, hres s rfl⟩
        refine .after fun stop => ?_
        split
        · exact gives_pure hmore
        · split
          · exact gives_pure hmore
          · exact ih hmore
    · exact gives_pure hgood

private theorem allowed_of_enough {node : SQRexNode} {n : ℕ}
    (h : enough (lowerCount node) (upperCount node) n = true) :
    Allowed (lowerCount node) (upperBound node) n := by
  simp only [enough, Bool.or_eq_true, Bool.and_eq_true, decide_eq_true_eq] at h
  refine ⟨by omega, fun b hb => ?_⟩
  unfold upperBound at hb
  split_ifs at hb with hmax
  · cases hb
  · cases hb
    omega

private theorem sound_greedy {p : Pattern SQRexNode} (hrun : Sound nodes t bol eol run)
    (h : StandsFor nodes false (nodeAt nodes i).left p) :
    Gives (matchGreedy nodes eol run (nodeAt nodes i) str next) fun res => ∀ r ∈ res,
      (Pattern.times p (lowerCount (nodeAt nodes i)) (upperBound (nodeAt nodes i))).Matches
        (Leads nodes t bol eol) str r := by
  have hstart : Repeats (p.Matches (Leads nodes t bol eol)) 0 str str := rfl
  rw [matchGreedy]
  refine (sound_greedyLoop hrun h hstart).bind fun res hres => ?_
  change Gives (if enough _ _ res.1 = true then _ else _) _
  split
  · rename_i henough
    refine gives_pure fun r hr => ?_
    cases hr
    exact ⟨res.1, allowed_of_enough henough, hres⟩
  · exact gives_pure (by simp)

/-- The nodes of an alternative, one after the other -/
theorem sound_orLoop {p : Pattern SQRexNode} {fuel : ℕ} {temp asd : ℤ}
    (hrun : Sound nodes t bol eol run) (h : StandsFor nodes true temp p) :
    Gives (orLoop nodes run fuel temp asd) fun res =>
      ∀ r ∈ res, p.Matches (Leads nodes t bol eol) asd r := by
  induction fuel generalizing temp asd p with
  | zero =>
    intro s a s' hrun
    cases hrun
  | succ fuel ih =>
    rw [orLoop]
    cases h with
    | last hnext h =>
      refine (hrun temp asd (-1) p h).bind fun res hres => ?_
      cases res with
      | none => exact gives_pure (by simp)
      | some r =>
        change Gives (if (nodeAt nodes temp).next ≠ -1 then _ else _) _
        rw [if_neg (not_not.mpr hnext)]
        exact gives_pure hres
    | follow hnext h h' =>
      refine (hrun temp asd (-1) _ h).bind fun res hres => ?_
      cases res with
      | none => exact gives_pure (by simp)
      | some r =>
        change Gives (if (nodeAt nodes temp).next ≠ -1 then _ else _) _
        rw [if_pos hnext]
        exact (ih h').mono fun res' hres' r' hr' => ⟨r, hres r rfl, hres' r' hr'⟩

private theorem sound_or {p q : Pattern SQRexNode} (hrun : Sound nodes t bol eol run)
    (h : StandsFor nodes true (nodeAt nodes i).left p)
    (h' : StandsFor nodes true (nodeAt nodes i).right q) :
    Gives (matchOr nodes run (nodeAt nodes i) str) fun res =>
      ∀ r ∈ res, (Pattern.alt p q).Matches (Leads nodes t bol eol) str r := by
  refine .after fun before => (sound_orLoop hrun h).bind fun res hres => ?_
  cases res with
  | some r => exact gives_pure fun r hr => .inl (hres r hr)
  | none => exact .after fun _ => (sound_orLoop hrun h').mono fun res hres r hr => .inr (hres r hr)

/-- The nodes of a group, one after the other -/
theorem sound_exprLoop {p : Pattern SQRexNode} {fuel : ℕ} {n cur : ℤ}
    (hrun : Sound nodes t bol eol run) (h : StandsFor nodes true n p) :
    Gives (exprLoop nodes run next fuel n cur) fun res =>
      ∀ r ∈ res, p.Matches (Leads nodes t bol eol) cur r := by
  induction fuel generalizing n cur p with
  | zero =>
    intro s a s' hrun
    cases hrun
  | succ fuel ih =>
    rw [exprLoop]
    cases h with
    | last hnext h =>
      refine (hrun n cur _ p h).bind fun res hres => ?_
      cases res with
      | none => exact gives_pure (by simp)
      | some r =>
        change Gives (if (nodeAt nodes n).next ≠ -1 then _ else _) _
        rw [if_neg (not_not.mpr hnext)]
        exact gives_pure hres
    | follow hnext h h' =>
      refine (hrun n cur _ _ h).bind fun res hres => ?_
      cases res with
      | none => exact gives_pure (by simp)
      | some r =>
        change Gives (if (nodeAt nodes n).next ≠ -1 then _ else _) _
        rw [if_pos hnext]
        exact (ih h').mono fun res' hres' r' hr' => ⟨r, hres r rfl, hres' r' hr'⟩

private theorem sound_expr {p : Pattern SQRexNode} (hrun : Sound nodes t bol eol run)
    (h : StandsFor nodes true (nodeAt nodes i).left p) :
    Gives (matchExpr nodes run (nodeAt nodes i) str next) fun res =>
      ∀ r ∈ res, p.Matches (Leads nodes t bol eol) str r := by
  refine .after fun s₁ => ?_
  extract_lets captures failed rest
  have hrest : ∀ u, Gives (rest u) fun res => ∀ r ∈ res, p.Matches (Leads nodes t bol eol) str r := by
    intro u
    refine .after fun s₂ => (sound_exprLoop hrun h).bind fun res hres => ?_
    cases res with
    | none =>
      change Gives (if captures = true then _ else _) _
      split
      · exact .after fun _ => gives_pure hres
      · exact gives_pure hres
    | some cur =>
      refine .after fun _ => ?_
      extract_lets
      split
      · refine .after fun _ => ?_
        split
        · exact .after fun _ => gives_pure hres
        · exact gives_pure hres
      · exact gives_pure hres
  split
  · exact .after fun u => hrest u
  · exact hrest ()

/-- `matchnode` comes to places only that the pattern of the node leads to. -/
theorem sound_matchnode (fuel : ℕ) : Sound nodes t bol eol (matchnode nodes t bol eol fuel) := by
  induction fuel with
  | zero =>
    intro i str next p hp s a s' hrun
    cases hrun
  | succ fuel ih =>
    intro i str next p hp
    rw [matchnode]
    refine gives_attempt ?_
    cases hp with
    | atom h =>
      obtain ⟨hgreedy, hor, hexpr, hnocap⟩ := h
      split
      · contradiction
      · contradiction
      · contradiction
      · contradiction
      · exact (gives_matchSimple ⟨hgreedy, hor, hexpr, hnocap⟩).mono fun res hres r => (hres r).mp
    | greedy htype h =>
      rw [htype]
      exact sound_greedy ih h
    | or htype h h' =>
      rw [htype]
      exact sound_or ih h h'
    | group htype h =>
      cases htype with
      | inl htype =>
        rw [htype]
        exact sound_expr ih h
      | inr htype =>
        rw [htype]
        exact sound_expr ih h

theorem Leads.le {node : SQRexNode} {x y : ℤ} (h : Leads nodes t bol eol node x y) : x ≤ y := by
  unfold Leads at h
  split at h
  all_goals
    have heq := h.2
    omega

/-- What a node leads to without leaving a text -/
def LeadsWithin (nodes : List SQRexNode) (t : Text) (text : ℤ) (node : SQRexNode) (x y : ℤ) : Prop :=
  Leads nodes t text t.eol node x y ∧ text ≤ x ∧ y ≤ t.eol

theorem compiled_of_ok {pattern : CString} {first : ℤ} {e : SQRex}
    (h : rexCompile pattern = .ok first e) : SQRex.Compiled pattern.chars first e := by
  have hnonempty : pattern.chars ≠ [] := by
    intro hempty
    rw [rexCompile, hempty] at h
    cases h
  exact (rexCompile_outcome hnonempty).of_ok h

/-- A text that a compiled expression matches is what the expression stands for: the pattern of its
nodes leads from the beginning of the text to the end, and takes characters of the text only. -/
theorem rexMatch_derivable {pattern : CString} {first : ℤ} {e : SQRex}
    (h : rexCompile pattern = .ok first e) :
    ∃ p, StandsFor e.nodes false first p ∧ ∀ (t : Text) (m : Matching) (text : ℤ),
      t.str ≤ text → text ≤ t.eol → Yields m (rexMatch e.nodes t text) fun matched _ =>
        matched = true → p.Matches (LeadsWithin e.nodes t text) text t.eol := by
  have hcompiled := compiled_of_ok h
  have hrooted := Compiled.rooted hcompiled
  obtain ⟨p, hp⟩ := standsFor_of_ranked hrooted.ranked (by decide) false
  rw [hcompiled.first]
  refine ⟨p, hp, fun t m text h₀ h₁ => ?_⟩
  refine (yields_textEnd m h₀ h₁).bind fun eol s heol => ?_
  obtain rfl := heol.1
  have hends : Ends (do
      let res ← matchnode e.nodes t text t.eol (e.nodes.length + 1) 0 text (-1)
      return decide (res = some t.eol)) :=
    (ends_matchRoot hrooted text).bind fun res => ends_pure _
  have hgives : Gives (do
      let res ← matchnode e.nodes t text t.eol (e.nodes.length + 1) 0 text (-1)
      return decide (res = some t.eol)) fun matched =>
        matched = true → p.Matches (LeadsWithin e.nodes t text) text t.eol := by
    refine (sound_matchnode _ 0 text (-1) p hp).bind fun res hres => gives_pure fun hmatched => ?_
    have hmatch := hres t.eol (of_decide_eq_true hmatched)
    exact hmatch.within (fun _ _ _ => Leads.le) le_rfl le_rfl
  exact (((ends_modify _).bind fun _ => hends) s).gives (.after fun _ => hgives) |>.mono
    fun _ _ hres => hres.2

/-- The expression `(a|b)*$` -/
def letters : CString := ⟨['(', 'a', '|', 'b', ')', '*', '$'], by decide⟩

theorem letters_compiles : ∃ first e, rexCompile letters = .ok first e := by
  have hcompiles : (resultOf SQRex.compileBody
      (SQRex.mk letters.chars 0 [] letters.chars.length 0 [])).isOk = true := by decide +kernel
  cases hrun : rexCompile letters with
  | error stop e =>
    rw [resultOf_error hrun] at hcompiles
    cases hcompiles
  | ok first e => exact ⟨first, e, rfl⟩

theorem rexMatch_derivable_letters : ∃ first e p, rexCompile letters = .ok first e ∧
    StandsFor e.nodes false first p ∧ ∀ (t : Text) (m : Matching),
      Yields m (rexMatch e.nodes t t.str) fun matched _ =>
        matched = true → p.Matches (LeadsWithin e.nodes t t.str) t.str t.eol := by
  obtain ⟨first, e, hrun⟩ := letters_compiles
  obtain ⟨p, hp, hmatch⟩ := rexMatch_derivable hrun
  refine ⟨first, e, p, hrun, hp, fun t m => hmatch t m t.str le_rfl ?_⟩
  rw [Text.eol]
  omega

end Squirt.Rex
