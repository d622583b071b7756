import Squirt.RexPatterns

/-!
# What a search finds

The results of matching do not depend on what was matched before, and a search finds the first place
from which the expression matches.
-/

namespace Squirt.Rex

open Programs Programs.Program RegularPatterns

variable {nodes : List SQRexNode} {t : Text} {bol eol : ℤ} {run : ℤ → ℤ → ℤ → Matcher (Option ℤ)}
  {i next str r : ℤ}

/-! ## Results without the state -/

/-- The results do not depend on the slots of the groups. -/
def Blind (run : ℤ → ℤ → ℤ → Matcher (Option ℤ)) : Prop :=
  ∀ i str next, SameResult (run i str next) (run i str next)

theorem same_modify (f g : Matching → Matching) :
    SameResult (modify f : Matcher PUnit) (modify g) := fun _ _ => rfl

theorem same_read (a : ℤ) : SameResult (read t a) (read t a) :=
  (same_modify _ _).bind fun _ => same_pure _

private theorem same_attempt {body body' : Matcher (Option ℤ)} (h : SameResult body body') :
    SameResult (attempt i str body) (attempt i str body') := by
  refine (same_modify _ _).bind fun _ => same_get fun s s' => h.bind fun res => ?_
  cases res with
  | some r => exact (same_modify _ _).bind fun _ => same_pure _
  | none => exact (same_modify _ _).bind fun _ => same_pure _

private theorem same_matchclass (fuel : ℕ) (c : Char) :
    SameResult (matchclass nodes fuel i c) (matchclass nodes fuel i c) := by
  induction fuel generalizing i with
  | zero => exact same_raise _
  | succ fuel ih =>
    rw [matchclass]
    split
    · exact same_pure true
    · split
      · exact ih
      · exact same_pure false

private theorem same_stops {greedystop s : ℤ} (h : Blind run) :
    SameResult (stops nodes run greedystop s next) (stops nodes run greedystop s next) := by
  rw [stops]
  split
  · exact same_get fun before before' => (h _ _ _).bind fun stop =>
      (same_modify _ _).bind fun _ => same_pure _
  · exact same_pure false

private theorem same_greedyLoop {left greedystop good : ℤ} {p0 p1 rounds nmaches : ℕ}
    (h : Blind run) :
    SameResult (greedyLoop nodes eol run left greedystop next p0 p1 rounds nmaches good)
      (greedyLoop nodes eol run left greedystop next p0 p1 rounds nmaches good) := by
  induction rounds generalizing nmaches good with
  | zero => exact same_raise _
  | succ rounds ih =>
    rw [greedyLoop]
    split
    · refine (h _ _ _).bind fun res => ?_
      cases res with
      | none => exact same_pure _
      | some s =>
        refine (same_stops h).bind fun stop => ?_
        split
        · exact same_pure _
        · split
          · exact same_pure _
          · exact ih
    · exact same_pure _

private theorem same_matchGreedy {node : SQRexNode} (h : Blind run) :
    SameResult (matchGreedy nodes eol run node str next) (matchGreedy nodes eol run node str next) := by
  refine (same_greedyLoop h).bind fun res => ?_
  change SameResult (if enough _ _ res.1 = true then _ else _)
    (if enough _ _ res.1 = true then _ else _)
  split
  · exact same_pure _
  · exact same_pure _

private theorem same_orLoop {fuel : ℕ} {temp asd : ℤ} (h : Blind run) :
    SameResult (orLoop nodes run fuel temp asd) (orLoop nodes run fuel temp asd) := by
  induction fuel generalizing temp asd with
  | zero => exact same_raise _
  | succ fuel ih =>
    rw [orLoop]
    refine (h _ _ _).bind fun res => ?_
    cases res with
    | none => exact same_pure _
    | some asd =>
      dsimp only
      split
      · exact ih
      · exact same_pure _

private theorem same_matchOr {node : SQRexNode} (h : Blind run) :
    SameResult (matchOr nodes run node str) (matchOr nodes run node str) := by
  refine same_get fun before before' => (same_orLoop h).bind fun res => ?_
  cases res with
  | some asd => exact same_pure _
  | none => exact (same_modify _ _).bind fun _ => same_orLoop h

private theorem same_exprLoop {fuel : ℕ} {n cur : ℤ} (h : Blind run) :
    SameResult (exprLoop nodes run next fuel n cur) (exprLoop nodes run next fuel n cur) := by
  induction fuel generalizing n cur with
  | zero => exact same_raise _
  | succ fuel ih =>
    rw [exprLoop]
    refine (h _ _ _).bind fun res => ?_
    cases res with
    | none => exact same_pure _
    | some cur =>
      dsimp only
      split
      · exact ih
      · exact same_pure _

/-- A group comes to what its nodes come to, whether its slot is written or not. -/
theorem same_exprLoop_matchExpr {node : SQRexNode} (h : Blind run) :
    SameResult (matchExpr nodes run node str next)
      (exprLoop nodes run next (nodes.length + 1) node.left str) := by
  have hskip : ∀ (c : Prop) [Decidable c] (x : Matcher PUnit), Ends x →
      ∀ (f : PUnit → Matcher (Option ℤ)) (y : Matcher (Option ℤ)), (∀ u, SameResult (f u) y) →
        SameResult (if c then x >>= f else f ⟨⟩) y := by
    intro c hc x hx f y hf
    split
    · exact .before hx hf
    · exact hf ⟨⟩
  refine .before ends_get fun s => ?_
  extract_lets captures failed rest
  have hrest : ∀ u, SameResult (rest u)
      (exprLoop nodes run next (nodes.length + 1) node.left str >>= pure) := by
    intro u
    refine .before ends_get fun s₁ => (same_exprLoop h).bind fun res => ?_
    cases res with
    | none =>
      apply hskip _ _ (ends_modify _)
      exact fun _ => same_pure none
    | some cur =>
      refine .before (ends_modify _) fun _ => ?_
      extract_lets done
      split
      · refine .before (ends_modify _) fun _ => ?_
        apply hskip _ _ (ends_modify _)
        exact fun _ => same_pure (some cur)
      · exact same_pure (some cur)
  rw [bind_pure] at hrest
  apply hskip _ _ (ends_openGroup _ _)
  exact hrest

private theorem same_matchExpr {node : SQRexNode} (h : Blind run) :
    SameResult (matchExpr nodes run node str next) (matchExpr nodes run node str next) :=
  (same_exprLoop_matchExpr h).trans (same_exprLoop_matchExpr h).symm

private theorem same_spaceChanges : SameResult (spaceChanges t str) (spaceChanges t str) :=
  (same_read _).bind fun _ => (same_read _).bind fun _ => same_pure _

private theorem same_wordBorder : SameResult (wordBorder t bol eol str) (wordBorder t bol eol str)
    := by
  have hat : ∀ (c : Prop) [Decidable c] (a : ℤ) (f : Bool → Matcher Bool),
      (∀ b, SameResult (f b) (f b)) →
        SameResult (if c then ((fun c => !isspace c) <$> read t a) >>= f else pure false >>= f)
          (if c then ((fun c => !isspace c) <$> read t a) >>= f else pure false >>= f) := by
    intro c hc a f hf
    split
    · exact ((same_read a).map _).bind hf
    · exact hf false
  apply hat
  intro first
  cases first with
  | true => exact same_pure true
  | false =>
    apply hat
    intro last
    cases last with
    | true => exact same_pure true
    | false => exact same_spaceChanges

private theorem same_matchSimple {node : SQRexNode} :
    SameResult (matchSimple nodes t bol eol node str) (matchSimple nodes t bol eol node str) := by
  rw [matchSimple]
  split
  · exact same_wordBorder.bind fun _ => same_pure _
  · exact same_pure _
  · exact same_pure _
  · exact same_pure _
  · exact (same_read _).bind fun _ => (same_matchclass _ _).bind fun _ => same_pure _
  · exact (same_read _).bind fun _ => (same_matchclass _ _).bind fun _ => same_pure _
  · exact (same_read _).bind fun _ => same_pure _
  · exact (same_read _).bind fun _ => same_pure _

/-- What `matchnode` comes to does not depend on what was matched before. -/
theorem blind_matchnode (fuel : ℕ) : Blind (matchnode nodes t bol eol fuel) := by
  induction fuel with
  | zero => exact fun _ _ _ => same_raise _
  | succ fuel ih =>
    intro i str next
    rw [matchnode]
    apply same_attempt
    split
    · exact same_matchGreedy ih
    · exact same_matchOr ih
    · exact same_matchExpr ih
    · exact same_matchExpr ih
    · exact same_matchSimple

/-! ## Searches -/

/-- Nothing is matched yet. -/
def fresh : Matching := ⟨[], 0, [], [], [], [], [], [], []⟩

/-- Where a match of the expression ends that begins at a place, if there is one. -/
def matchFrom (nodes : List SQRexNode) (t : Text) (bol eol str : ℤ) : Option ℤ :=
  match resultOf (matchnode nodes t bol eol (nodes.length + 1) 0 str (-1)) fresh with
  | .ok res => res
  | .error _ => none

section Searches

variable (h : Rooted nodes)
include h

private theorem yields_matchRoot (s : Matching) :
    Yields s (matchnode nodes t bol eol (nodes.length + 1) 0 str (-1)) fun res _ =>
      res = matchFrom nodes t bol eol str := by
  obtain ⟨res, s', hrun, -⟩ := ends_matchRoot h str s
  refine ⟨res, s', hrun, ?_⟩
  have hblind : Blind (matchnode nodes t bol eol (nodes.length + 1)) := blind_matchnode _
  have hsame := hblind 0 str (-1) s fresh
  rw [resultOf_ok hrun] at hsame
  rw [matchFrom, ← hsame]

/-- The nodes at the top are the first one only. -/
theorem yields_topLoop_match {cur : ℤ} {fuel : ℕ} (hfuel : 2 ≤ fuel) (s : Matching) :
    Yields s (topLoop nodes t bol eol fuel 0 cur) fun res _ =>
      res.1 = matchFrom nodes t bol eol cur ∧ (res.1 = none → res.2 = 0) := by
  obtain ⟨fuel, rfl⟩ : ∃ k, fuel = k + 2 := ⟨fuel - 2, by omega⟩
  rw [topLoop, if_pos (by decide)]
  refine (ends_modify _ s).bind fun _ s₁ _ => (yields_matchRoot h s₁).bind fun res s₂ hres => ?_
  cases res with
  | none => exact yields_pure ⟨hres, fun _ => rfl⟩
  | some fin =>
    change Yields s₂ (topLoop nodes t bol eol (fuel + 1) (nodeAt nodes 0).next fin) _
    rw [h.next, topLoop, if_neg (by decide)]
    exact yields_pure ⟨hres, fun hnone => by cases hnone⟩

/-- What a search from `from` on finds -/
def Finds (nodes : List SQRexNode) (t : Text) (bol eol start : ℤ) : Option (ℤ × ℤ) → Prop
  | some (b, fin) => (start ≤ b ∧ b < eol) ∧ matchFrom nodes t bol eol b = some fin ∧
    ∀ x, start ≤ x → x < b → matchFrom nodes t bol eol x = none
  | none => ∀ x, start ≤ x → x < eol → matchFrom nodes t bol eol x = none

private theorem yields_searchLoop {text_begin : ℤ} {fuel : ℕ} (hlt : text_begin < eol)
    (hfuel : (eol - text_begin).toNat ≤ fuel) (s : Matching) :
    Yields s (searchLoop nodes t bol eol fuel 0 text_begin) fun res _ =>
      Finds nodes t bol eol text_begin res := by
  induction fuel generalizing text_begin s with
  | zero => omega
  | succ fuel ih =>
    have hnonempty := h.nonempty
    refine (yields_topLoop_match h (by omega) s).bind fun res s₁ hres => ?_
    obtain ⟨res, node⟩ := res
    obtain ⟨hmatch, hnode⟩ := hres
    dsimp only at hmatch hnode
    cases res with
    | some fin => exact yields_pure ⟨⟨le_rfl, hlt⟩, hmatch.symm, fun x _ _ => by omega⟩
    | none =>
      obtain rfl := hnode rfl
      have hhere : ∀ x, text_begin ≤ x → x < text_begin + 1 → matchFrom nodes t bol eol x = none := by
        intro x hx hx'
        obtain rfl : x = text_begin := by omega
        exact hmatch.symm
      change Yields s₁ (if text_begin + 1 ≠ eol then _ else _) _
      split
      · refine (ih (by omega) (by omega) s₁).mono fun res s₂ hfinds => ?_
        cases res with
        | some found =>
          obtain ⟨⟨hb, hb'⟩, hfin, hbefore⟩ := hfinds
          refine ⟨⟨by omega, hb'⟩, hfin, fun x hx hx' => ?_⟩
          by_cases hfirst : x < text_begin + 1
          · exact hhere x hx hfirst
          · exact hbefore x (by omega) hx'
        | none =>
          intro x hx hx'
          by_cases hfirst : x < text_begin + 1
          · exact hhere x hx hfirst
          · exact hfinds x (by omega) hx'
      · exact yields_pure fun x hx hx' => hhere x hx (by omega)

omit h in
private theorem matchFrom_matches {p : Pattern SQRexNode} (hp : StandsFor nodes false 0 p)
    (hmatch : matchFrom nodes t bol eol str = some r) : p.Matches (Leads nodes t bol eol) str r := by
  unfold matchFrom resultOf at hmatch
  cases hrun : matchnode nodes t bol eol (nodes.length + 1) 0 str (-1) fresh with
  | ok res s =>
    rw [hrun] at hmatch
    obtain rfl : res = some r := hmatch
    exact sound_matchnode _ 0 str (-1) p hp fresh _ s hrun r rfl
  | error e s =>
    rw [hrun] at hmatch
    cases hmatch

end Searches

/-- A search finds the first place in the text from which the expression matches, whatever was
matched before, and its nodes stand for a pattern that leads from there to the end that is found. -/
theorem rexSearch_leftmost {pattern : CString} {first : ℤ} {e : SQRex}
    (h : rexCompile pattern = .ok first e) :
    ∃ p, StandsFor e.nodes false first p ∧ ∀ (t : Text) (m : Matching) (text : ℤ),
      t.str ≤ text → text ≤ t.eol → Yields m (rexSearch e.nodes t text) fun res _ =>
        Finds e.nodes t text t.eol text res ∧
          ∀ b fin, res = some (b, fin) → p.Matches (Leads e.nodes t text t.eol) b fin := by
  have hcompiled := compiled_of_ok h
  have hrooted := Compiled.rooted hcompiled
  obtain ⟨p, hp⟩ := standsFor_of_ranked hrooted.ranked (by decide) false
  rw [hcompiled.first]
  refine ⟨p, hp, fun t m text h₀ h₁ => ?_⟩
  have hfinds : Yields m (rexSearch e.nodes t text) fun res _ =>
      Finds e.nodes t text t.eol text res := by
    refine (yields_textEnd m h₀ h₁).bind fun eol s heol => ?_
    obtain rfl := heol.1
    rw [searchrange]
    split
    · exact yields_pure fun x hx hx' => by omega
    · exact yields_searchLoop hrooted (by omega) le_rfl s
  refine hfinds.mono fun res s hres => ⟨hres, fun b fin hfound => ?_⟩
  subst hfound
  exact matchFrom_matches hp hres.2.1

theorem rexSearch_leftmost_letters : ∃ first e p, rexCompile letters = .ok first e ∧
    StandsFor e.nodes false first p ∧ ∀ (t : Text) (m : Matching),
      Yields m (rexSearch e.nodes t t.str) fun res _ => Finds e.nodes t t.str t.eol t.str res ∧
        ∀ b fin, res = some (b, fin) → p.Matches (Leads e.nodes t t.str t.eol) b fin := by
  obtain ⟨first, e, hrun⟩ := letters_compiles
  obtain ⟨p, hp, hsearch⟩ := rexSearch_leftmost hrun
  refine ⟨first, e, p, hrun, hp, fun t m => hsearch t m t.str le_rfl ?_⟩
  rw [Text.eol]
  omega

end Squirt.Rex
