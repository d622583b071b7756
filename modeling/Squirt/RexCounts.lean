import Squirt.RexSearches

/-!
# Repetitions of one character

What the counts of a repetition mean for an expression that repeats a single character or class: the
lower count is exact, and no count is unbounded.
-/

namespace Squirt.Rex

open Programs Programs.Program RegularPatterns

variable {nodes : List SQRexNode} {t : Text} {bol eol : ℤ} {run : ℤ → ℤ → ℤ → Matcher (Option ℤ)}
  {i next str r : ℤ} {a : SQRexNode} {fuel : ℕ}

/-! ## A node for a single character -/

/-- The node comes to exactly the places that the atom leads to. -/
def ExactFor (nodes : List SQRexNode) (t : Text) (bol eol : ℤ) (a : SQRexNode)
    (run : ℤ → ℤ → ℤ → Matcher (Option ℤ)) : Prop :=
  ∀ i str next, StandsFor nodes false i (.atom a) →
    Gives (run i str next) fun res => ∀ r, res = some r ↔ Leads nodes t bol eol a str r

theorem gives_matchExpr_single {node : SQRexNode} {Q : Option ℤ → Prop} (hblind : Blind run)
    (hnext : (nodeAt nodes node.left).next = -1) (h : Gives (run node.left str next) Q) :
    Gives (matchExpr nodes run node str next) Q := by
  refine Gives.of_same ?_ (same_exprLoop_matchExpr hblind)
  rw [exprLoop, if_neg (not_not.mpr hnext)]
  refine h.bind fun res hres => ?_
  cases res with
  | none => exact gives_pure hres
  | some cur =>
    dsimp only
    rw [if_neg (not_not.mpr hnext)]
    exact gives_pure hres

/-- Groups around a single node make no difference. -/
theorem exactFor_matchnode (fuel : ℕ) :
    ExactFor nodes t bol eol a (matchnode nodes t bol eol fuel) := by
  induction fuel with
  | zero =>
    intro i str next h s res s' hrun
    cases hrun
  | succ fuel ih =>
    intro i str next h
    rw [matchnode]
    apply gives_attempt
    cases h with
    | atom h =>
      have hsimple : Gives (matchSimple nodes t bol eol (nodeAt nodes i) str) fun res =>
          ∀ r, res = some r ↔ Leads nodes t bol eol (nodeAt nodes i) str r := gives_matchSimple h
      obtain ⟨hgreedy, hor, hexpr, hnocap⟩ := h
      split
      · contradiction
      · contradiction
      · contradiction
      · contradiction
      · exact hsimple
    | group htype h =>
      have hgroup : Gives (matchExpr nodes (matchnode nodes t bol eol fuel) (nodeAt nodes i) str next)
          fun res => ∀ r, res = some r ↔ Leads nodes t bol eol a str r := by
        cases h with
        | last hnext h => exact gives_matchExpr_single (blind_matchnode fuel) hnext (ih _ str next h)
      cases htype with
      | inl htype =>
        rw [htype]
        exact hgroup
      | inr htype =>
        rw [htype]
        exact hgroup

/-! ## The loop -/

/-- How often a repetition with an upper count is tried at most -/
def cap (p1 : ℕ) : ℕ := if p1 = 0xFFFF then 0x10000 else p1

theorem cap_cases (p1 : ℕ) : p1 = 0xFFFF ∧ cap p1 = 0x10000 ∨ p1 ≠ 0xFFFF ∧ cap p1 = p1 := by
  unfold cap
  split <;> simp_all

/-- What the loop comes to where the node takes single characters: it goes on to the first character
that is not taken, or to the greatest number of repetitions. -/
structure Counted (takes : ℤ → Prop) (str : ℤ) (p1 : ℕ) (res : ℕ × ℤ) : Prop where
  place : res.2 = str + res.1
  taken : ∀ x, str ≤ x → x < res.2 → takes x
  le : res.1 ≤ cap p1
  stopped : res.1 = cap p1 ∨ ¬takes res.2

private theorem counted_greedyLoop {takes : ℤ → Prop} {left good : ℤ} {p0 p1 rounds nmaches : ℕ}
    (hrun : ∀ x, Gives (run left x (-1)) fun res => ∀ r, res = some r ↔ takes x ∧ r = x + 1)
    (hp1 : p1 ≤ 0xFFFF) (heol : ¬takes eol) (hplace : good = str + nmaches) (hin : good ≤ eol)
    (htaken : ∀ x, str ≤ x → x < good → takes x) (hle : nmaches ≤ cap p1) :
    Gives (greedyLoop nodes eol run left (-1) (-1) p0 p1 rounds nmaches good)
      (Counted takes str p1) := by
  induction rounds generalizing nmaches good with
  | zero =>
    intro s res s' hrun
    cases hrun
  | succ rounds ih =>
    rw [greedyLoop]
    split
    · rename_i hmore
      refine (hrun good).bind fun res hres => ?_
      cases res with
      | none =>
        refine gives_pure ⟨hplace, htaken, hle, .inr fun htakes => ?_⟩
        cases (hres (good + 1)).mpr ⟨htakes, rfl⟩
      | some s =>
        obtain ⟨htakes, rfl⟩ := (hres s).mp rfl
        have hlt : good < eol := by
          refine lt_of_le_of_ne hin fun heq => heol ?_
          rwa [← heq]
        have htaken' : ∀ x, str ≤ x → x < good + 1 → takes x := fun x hx hx' => by
          by_cases hlast : x = good
          · rwa [hlast]
          · exact htaken x hx (by omega)
        have hle' : nmaches + 1 ≤ cap p1 := by
          have hcases := cap_cases p1
          omega
        have hstops : Gives (stops nodes run (-1) (good + 1) (-1)) fun stop => stop = false :=
          gives_pure rfl
        refine hstops.bind fun stop hstop => ?_
        subst hstop
        rw [Bool.false_and, if_neg Bool.false_ne_true]
        split
        · have hend : good + 1 = eol := by omega
          exact gives_pure ⟨by simp [hplace, add_assoc], htaken', hle', .inr (hend ▸ heol)⟩
        · apply ih _ (by omega) htaken' hle'
          simp [hplace, add_assoc]
    · rename_i hdone
      refine gives_pure ⟨hplace, htaken, hle, .inl ?_⟩
      have hcases := cap_cases p1
      omega

/-- The number of characters is one that the repetition matches: at least `lo`, and not more than the
loop tries. -/
def Within (lo p1 n : ℕ) : Prop := lo ≤ n ∧ n ≤ cap p1

private theorem Counted.end_iff {takes : ℤ → Prop} {p0 p1 : ℕ} {res : ℕ × ℤ}
    (h : Counted takes str p1 res)
    (hle : str ≤ eol) (heol : ¬takes eol) :
    enough p0 p1 res.1 = true ∧ res.2 = eol ↔
      (∀ x, str ≤ x → x < eol → takes x) ∧ Within p0 p1 (eol - str).toNat := by
  obtain ⟨hplace, htaken, hcap, hstopped⟩ := h
  have henough : ∀ n, n ≤ cap p1 → (enough p0 p1 n = true ↔ Within p0 p1 n) := by
    intro n hn
    have hcases := cap_cases p1
    simp only [enough, Within, Bool.or_eq_true, Bool.and_eq_true, decide_eq_true_eq]
    omega
  constructor
  · rintro ⟨hcount, hend⟩
    have hn : (eol - str).toNat = res.1 := by omega
    rw [hn]
    exact ⟨fun x hx hx' => htaken x hx (hend ▸ hx'), (henough _ hcap).mp hcount⟩
  · rintro ⟨hall, hwithin⟩
    have hend : res.2 = eol := by
      by_contra hne
      by_cases hlt : res.2 < eol
      · cases hstopped with
        | inl hmost =>
          have hupper := hwithin.2
          omega
        | inr htakes => exact htakes (hall res.2 (by omega) hlt)
      · exact heol (htaken eol hle (by omega))
    have hn : (eol - str).toNat = res.1 := by omega
    rw [hn] at hwithin
    exact ⟨(henough _ hcap).mpr hwithin, hend⟩

/-- A node takes single characters, and not the terminator. -/
structure TakesSingle (nodes : List SQRexNode) (a : SQRexNode) : Prop where
  wb : a.type ≠ .WB
  bol : a.type ≠ .BOL
  eol : a.type ≠ .EOL
  nul : ¬TakesChar nodes a NUL

private theorem TakesSingle.leads_iff (h : TakesSingle nodes a) {x y : ℤ} :
    Leads nodes t bol eol a x y ↔ TakesChar nodes a (t.charAt x) ∧ y = x + 1 := by
  obtain ⟨hwb, hbol, heol, -⟩ := h
  unfold Leads
  split
  · contradiction
  · contradiction
  · contradiction
  · exact Iff.rfl

/-- The characters from a place to the end of the text are taken, and they are as many as a
repetition matches. -/
def Repeated (nodes : List SQRexNode) (t : Text) (str : ℤ) (a : SQRexNode) (lo p1 : ℕ) : Prop :=
  (∀ x, str ≤ x → x < t.eol → TakesChar nodes a (t.charAt x)) ∧ Within lo p1 (t.eol - str).toNat

theorem getD_upperBound (node : SQRexNode) : (upperBound node).getD 0xFFFF = upperCount node := by
  unfold upperBound
  split <;> simp_all

section Repetition

variable (h : TakesSingle nodes a) (h₀ : t.str ≤ str) (h₁ : str ≤ t.eol)
include h h₀ h₁

private theorem gives_matchGreedy_single (hrun : ExactFor nodes t bol t.eol a run)
    (hleft : StandsFor nodes false (nodeAt nodes i).left (.atom a))
    (hnext : (nodeAt nodes i).next = -1) :
    Gives (matchGreedy nodes t.eol run (nodeAt nodes i) str (-1)) fun res => res = some t.eol ↔
      Repeated nodes t str a (lowerCount (nodeAt nodes i)) (upperCount (nodeAt nodes i)) := by
  have heol : ¬TakesChar nodes a (t.charAt t.eol) := by
    rw [(charAt_eq_nul_iff (h₀.trans h₁) le_rfl).mpr rfl]
    exact h.nul
  have hloop : Gives (greedyLoop nodes t.eol run (nodeAt nodes i).left (-1) (-1)
      (lowerCount (nodeAt nodes i)) (upperCount (nodeAt nodes i)) (0xFFFF + 2) 0 str)
      (Counted (fun x => TakesChar nodes a (t.charAt x)) str (upperCount (nodeAt nodes i))) :=
    counted_greedyLoop
      (fun x => (hrun _ x (-1) hleft).mono fun res hres r => (hres r).trans h.leads_iff)
      (upperCount_le (nodeAt nodes i)) heol (by simp) h₁ (fun x hx hx' => by omega) (Nat.zero_le _)
  rw [matchGreedy, if_neg (not_not.mpr hnext)]
  refine hloop.bind fun res hres => ?_
  have hiff : enough (lowerCount (nodeAt nodes i)) (upperCount (nodeAt nodes i)) res.1 = true ∧
      res.2 = t.eol ↔ _ := hres.end_iff h₁ heol
  dsimp only
  split
  · rename_i henough
    refine gives_pure (Iff.trans ?_ hiff)
    simp [henough]
  · rename_i hfew
    refine gives_pure (Iff.trans ?_ hiff)
    simp [hfew]

/-- An expression that repeats a single character matches the rest of the text or does not, by the
number of characters. -/
theorem gives_matchnode_repetition {lo : ℕ} {hi : Option ℕ} (fuel : ℕ)
    (hfor : StandsFor nodes false i (.times (.atom a) lo hi)) (hnext : (nodeAt nodes i).next = -1) :
    Gives (matchnode nodes t bol t.eol fuel i str (-1)) fun res => res = some t.eol ↔
      Repeated nodes t str a lo (hi.getD 0xFFFF) := by
  induction fuel generalizing i with
  | zero =>
    intro s res s' hrun
    cases hrun
  | succ fuel ih =>
    rw [matchnode]
    apply gives_attempt
    cases hfor with
    | greedy htype hleft =>
      rw [htype]
      rw [getD_upperBound]
      exact gives_matchGreedy_single h h₀ h₁ (exactFor_matchnode fuel) hleft hnext
    | group htype hfor =>
      have hgroup : Gives (matchExpr nodes (matchnode nodes t bol t.eol fuel) (nodeAt nodes i) str
          (-1)) fun res => res = some t.eol ↔ Repeated nodes t str a lo (hi.getD 0xFFFF) := by
        cases hfor with
        | last hnext hfor =>
          exact gives_matchExpr_single (blind_matchnode fuel) hnext (ih hfor hnext)
      cases htype with
      | inl htype =>
        rw [htype]
        exact hgroup
      | inr htype =>
        rw [htype]
        exact hgroup

end Repetition

end Squirt.Rex
