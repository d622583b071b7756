import Squirt.RexCompilation
import Squirt.RexEscapes
import Squirt.RexMatcher

/-!
# Matching terminates

Where the references of the nodes have no cycles, the ranks of the nodes bound the depth of the
calls of `matchnode`.
-/

namespace Squirt.Rex

open Programs Programs.Program

variable {nodes : List SQRexNode} {t : Text} {bol eol : ℤ} {run : ℤ → ℤ → ℤ → Matcher (Option ℤ)}
  {i next : ℤ} {lo hi k : ℕ}

/-- What is given to `matchnode` as the next node comes after the node, and after all nodes below
it. -/
def Follows (nodes : List SQRexNode) (i next : ℤ) (lo : ℕ) : Prop :=
  next = -1 ∨ next = (nodeAt nodes i).next ∨ Ranked nodes next 0 lo

/-- Nodes of ranks up to a bound are matched. -/
def Runs (nodes : List SQRexNode) (k : ℕ) (run : ℤ → ℤ → ℤ → Matcher (Option ℤ)) : Prop :=
  ∀ i str next lo hi, i ≠ -1 → Ranked nodes i lo hi → hi ≤ k → Follows nodes i next lo →
    Ends (run i str next)

theorem ends_read (a : ℤ) : Ends (read t a) := (ends_modify _).bind fun _ => ends_pure _

theorem ends_abandon (before : Matching) : Ends (abandon before) := ends_modify _

private theorem ends_attempt {str : ℤ} {body : Matcher (Option ℤ)} (h : Ends body) :
    Ends (attempt i str body) := by
  refine (ends_modify _).bind fun _ => ends_get.bind fun before => h.bind fun res => ?_
  cases res with
  | some r => exact (ends_modify _).bind fun _ => ends_pure _
  | none => exact (ends_abandon before).bind fun _ => ends_pure _

/-- The ranks bound the length of a chain. -/
theorem ends_matchclass {fuel : ℕ} {c : Char} (h : Ranked nodes i lo hi) (hne : i ≠ -1)
    (hfuel : hi ≤ fuel) : Ends (matchclass nodes fuel i c) := by
  induction fuel generalizing i lo hi with
  | zero =>
    cases h with
    | none => exact absurd rfl hne
    | node => omega
  | succ fuel ih =>
    cases h with
    | none => exact absurd rfl hne
    | node hi₀ hi₁ hsome hchildren hmid htop hnext =>
      rw [matchclass]
      split
      · exact ends_pure true
      · split
        · rename_i hchain
          exact ih hnext hchain (by omega)
        · exact ends_pure false

private theorem ends_orLoop {fuel : ℕ} {temp asd : ℤ} (hrun : Runs nodes k run)
    (h : Ranked nodes temp lo hi) (hne : temp ≠ -1) (hk : hi ≤ k) (hfuel : hi ≤ fuel) :
    Ends (orLoop nodes run fuel temp asd) := by
  induction fuel generalizing temp asd lo hi with
  | zero =>
    cases h with
    | none => exact absurd rfl hne
    | node => omega
  | succ fuel ih =>
    rw [orLoop]
    refine (hrun temp asd (-1) lo hi hne h hk (.inl rfl)).bind fun res => ?_
    cases h with
    | none => exact absurd rfl hne
    | node hi₀ hi₁ hsome hchildren hmid htop hnext =>
      cases res with
      | none => exact ends_pure none
      | some asd =>
        change Ends (if (nodeAt nodes temp).next ≠ -1 then _ else _)
        split
        · rename_i hchain
          exact ih hnext hchain (by omega) (by omega)
        · exact ends_pure (some asd)

private theorem ends_exprLoop {fuel : ℕ} {n cur : ℤ} (hrun : Runs nodes k run)
    (h : Ranked nodes n lo hi) (hne : n ≠ -1) (hafter : next = -1 ∨ Ranked nodes next 0 lo)
    (hk : hi ≤ k) (hfuel : hi ≤ fuel) : Ends (exprLoop nodes run next fuel n cur) := by
  induction fuel generalizing n cur hi with
  | zero =>
    cases h with
    | none => exact absurd rfl hne
    | node => omega
  | succ fuel ih =>
    have hfollows : Follows nodes n
        (if (nodeAt nodes n).next ≠ -1 then (nodeAt nodes n).next else next) lo := by
      split
      · exact .inr (.inl rfl)
      · exact hafter.imp_right .inr
    rw [exprLoop]
    refine (hrun n cur _ lo hi hne h hk hfollows).bind fun res => ?_
    cases h with
    | none => exact absurd rfl hne
    | node hi₀ hi₁ hsome hchildren hmid htop hnext =>
      cases res with
      | none => exact ends_pure none
      | some cur =>
        change Ends (if (nodeAt nodes n).next ≠ -1 then _ else _)
        split
        · rename_i hchain
          exact ih hnext hchain (by omega) (by omega)
        · exact ends_pure (some cur)

private theorem ends_stops {greedystop s : ℤ} (hrun : Runs nodes k run)
    (hstop : greedystop ≠ -1 → ∃ lo, Ranked nodes greedystop lo hi ∧
      Follows nodes greedystop (gnext nodes greedystop next) lo) (hk : hi ≤ k) :
    Ends (stops nodes run greedystop s next) := by
  rw [stops]
  split
  · rename_i hahead
    have hne : greedystop ≠ -1 := by
      rintro rfl
      cases hahead
    refine ends_get.bind fun before => ?_
    obtain ⟨lo, hrank, hfollows⟩ := hstop hne
    refine (hrun greedystop s _ lo hi hne hrank hk hfollows).bind fun stop => ?_
    exact (ends_abandon before).bind fun _ => ends_pure _
  · exact ends_pure false

/-- The counter of a repetition stays in its range. -/
theorem ends_greedyLoop {left greedystop good : ℤ} {p0 p1 rounds nmaches : ℕ}
    (hleft : ∀ str, Ends (run left str greedystop))
    (hstops : ∀ s, Ends (stops nodes run greedystop s next)) (hp1 : p1 ≤ 0xFFFF)
    (hrounds : 0xFFFF + 2 ≤ rounds + nmaches) (hnmaches : nmaches ≤ 0xFFFF + 1) :
    Ends (greedyLoop nodes eol run left greedystop next p0 p1 rounds nmaches good) := by
  induction rounds generalizing nmaches good with
  | zero => omega
  | succ rounds ih =>
    rw [greedyLoop]
    split
    · refine (hleft good).bind fun res => ?_
      cases res with
      | none => exact ends_pure (nmaches, good)
      | some s =>
        refine (hstops s).bind fun stop => ?_
        split
        · exact ends_pure (nmaches + 1, s)
        · split
          · exact ends_pure (nmaches + 1, s)
          · exact ih (by omega) (by omega)
    · exact ends_pure (nmaches, good)

theorem upperCount_le (node : SQRexNode) : upperCount node ≤ 0xFFFF := by
  rw [upperCount]
  omega

/-! ### The kinds of nodes -/

section Nodes

variable {str : ℤ}

private theorem ends_matchGreedy (hrun : Runs nodes k run) (htype : (nodeAt nodes i).type = .GREEDY)
    (h : Ranked nodes i lo hi) (hne : i ≠ -1) (hk : hi ≤ k + 1) (hfollows : Follows nodes i next lo) :
    Ends (matchGreedy nodes eol run (nodeAt nodes i) str next) := by
  cases h with
  | none => exact absurd rfl hne
  | @node _ _ mid top _ hi₀ hi₁ hsome hchildren hmid htop hnext =>
    rw [SQRexNode.children, htype] at hsome hchildren
    have hleft := hchildren _ (List.mem_singleton_self _)
    rw [List.mem_singleton] at hsome
    rw [matchGreedy]
    generalize heq : (if (nodeAt nodes i).next ≠ -1 then (nodeAt nodes i).next else next) =
      greedystop
    have hstop : greedystop ≠ -1 → ∃ lo', Ranked nodes greedystop lo' mid ∧
        Follows nodes greedystop (gnext nodes greedystop next) lo' := by
      intro hgne
      by_cases hchain : (nodeAt nodes i).next ≠ -1
      · rw [if_pos hchain] at heq
        rw [← heq]
        refine ⟨lo, hnext, ?_⟩
        rw [gnext]
        split
        · exact .inr (.inl rfl)
        · rename_i hend
          split
          · rename_i hafter
            refine .inr (.inr ((hfollows.resolve_left hafter.1).resolve_left ?_ |>.next hafter.1))
            rintro rfl
            exact hend hafter.2
          · exact .inl rfl
      · rw [if_neg hchain] at heq
        have hrank : Ranked nodes next 0 lo := by
          rw [← heq] at hgne
          refine (hfollows.resolve_left hgne).resolve_left fun hsame => hgne ?_
          exact hsame.trans (not_not.mp hchain)
        rw [← heq]
        refine ⟨0, hrank.mono (Nat.le_refl 0) hnext.le, ?_⟩
        rw [gnext]
        split
        · exact .inr (.inl rfl)
        · rename_i hend
          rw [if_neg fun hafter => hend hafter.2]
          exact .inl rfl
    have hbody : Follows nodes (nodeAt nodes i).left greedystop mid := by
      by_cases hgne : greedystop = -1
      · exact .inl hgne
      · obtain ⟨lo', hrank, -⟩ := hstop hgne
        exact .inr (.inr (hrank.mono (Nat.zero_le _) (Nat.le_refl _)))
    refine (ends_greedyLoop (fun str => hrun _ str _ _ _ (Ne.symm hsome) hleft (by omega) hbody)
      (fun s => ends_stops hrun hstop (by omega)) (upperCount_le _)
      (Nat.le_refl (0xFFFF + 2 + 0)) (Nat.zero_le _)).bind fun res => ?_
    change Ends (if enough _ _ res.1 = true then _ else _)
    split
    · exact ends_pure (some res.2)
    · exact ends_pure none

private theorem ends_matchOr (hrun : Runs nodes k run) (htype : (nodeAt nodes i).type = .OR)
    (h : Ranked nodes i lo hi) (hne : i ≠ -1) (hk : hi ≤ k + 1) (hnodes : k ≤ nodes.length) :
    Ends (matchOr nodes run (nodeAt nodes i) str) := by
  cases h with
  | none => exact absurd rfl hne
  | node hi₀ hi₁ hsome hchildren hmid htop hnext =>
    rw [SQRexNode.children, htype] at hsome hchildren
    have hleft := hchildren _ (List.mem_cons_self)
    have hright := hchildren _ (List.mem_cons_of_mem _ (List.mem_singleton_self _))
    rw [List.mem_pair, not_or] at hsome
    refine ends_get.bind fun before => (ends_orLoop hrun hleft (Ne.symm hsome.1) (by omega)
      (by omega)).bind fun res => ?_
    cases res with
    | some asd => exact ends_pure (some asd)
    | none =>
      exact (ends_abandon before).bind fun _ =>
        ends_orLoop hrun hright (Ne.symm hsome.2) (by omega) (by omega)

theorem ends_openGroup (capture cur : ℤ) : Ends (openGroup capture cur) :=
  (ends_modify _).bind fun _ => ends_modify _

private theorem ends_matchExpr (hrun : Runs nodes k run)
    (htype : (nodeAt nodes i).type = .EXPR ∨ (nodeAt nodes i).type = .NOCAPEXPR)
    (h : Ranked nodes i lo hi) (hne : i ≠ -1) (hk : hi ≤ k + 1) (hnodes : k ≤ nodes.length)
    (hfollows : Follows nodes i next lo) :
    Ends (matchExpr nodes run (nodeAt nodes i) str next) := by
  cases h with
  | none => exact absurd rfl hne
  | @node _ _ mid top _ hi₀ hi₁ hsome hchildren hmid htop hnext =>
    have hkids : (nodeAt nodes i).children = [(nodeAt nodes i).left] := by
      cases htype with
      | inl htype => rw [SQRexNode.children, htype]
      | inr htype => rw [SQRexNode.children, htype]
    rw [hkids] at hsome hchildren
    have hleft := hchildren _ (List.mem_singleton_self _)
    rw [List.mem_singleton] at hsome
    have hafter : next = -1 ∨ Ranked nodes next 0 mid := by
      refine hfollows.imp_right fun hfollows => ?_
      cases hfollows with
      | inl heq =>
        rw [heq]
        exact hnext.mono (Nat.zero_le _) (Nat.le_refl _)
      | inr hrank => exact hrank.mono (Nat.le_refl 0) hnext.le
    refine ends_get.bind fun s₁ => ?_
    extract_lets captures failed rest
    have hrest : ∀ u, Ends (rest u) := by
      intro u
      refine ends_get.bind fun s₂ => ?_
      refine (ends_exprLoop hrun hleft (Ne.symm hsome) hafter (by omega)
        (show top ≤ nodes.length + 1 by omega)).bind fun res => ?_
      cases res with
      | none =>
        change Ends (if captures = true then _ else _)
        split
        · exact (ends_modify _).bind fun _ => ends_pure none
        · exact ends_pure none
      | some cur =>
        refine (ends_modify _).bind fun _ => ?_
        extract_lets
        split
        · refine (ends_modify _).bind fun _ => ?_
          split
          · exact (ends_modify _).bind fun _ => ends_pure _
          · exact ends_pure _
        · exact ends_pure (some cur)
    split
    · exact (ends_openGroup _ _).bind fun u => hrest u
    · exact hrest ()

private theorem ends_spaceChanges : Ends (spaceChanges t str) :=
  (ends_read _).bind fun _ => (ends_read _).bind fun _ => ends_pure _

private theorem ends_wordBorder : Ends (wordBorder t bol eol str) := by
  have hlast : ∀ last : Bool, Ends (if last = true then pure true else spaceChanges t str) := by
    intro last
    split
    · exact ends_pure true
    · exact ends_spaceChanges
  have hfirst : ∀ first : Bool, Ends (if first = true then pure true else do
      let last ← if str = eol then (fun c => !isspace c) <$> read t (str - 1) else pure false
      if last then pure true else spaceChanges t str) := by
    intro first
    split
    · exact ends_pure true
    · split
      · exact ((ends_read _).map _).bind hlast
      · exact hlast false
  rw [wordBorder]
  split
  · exact ((ends_read _).map _).bind hfirst
  · exact hfirst false

/-- A class has members; the other simple nodes refer to none. -/
theorem ends_matchSimple (h : Ranked nodes i lo hi) (hne : i ≠ -1)
    (hnodes : hi ≤ nodes.length + 1) :
    Ends (matchSimple nodes t bol eol (nodeAt nodes i) str) := by
  have hclass : ∀ c, (nodeAt nodes i).type = .CLASS ∨ (nodeAt nodes i).type = .NCLASS →
      Ends (matchclass nodes (nodes.length + 1) (nodeAt nodes i).left c) := by
    intro c htype
    have hkids : (nodeAt nodes i).children = [(nodeAt nodes i).left] := by
      cases htype with
      | inl htype => rw [SQRexNode.children, htype]
      | inr htype => rw [SQRexNode.children, htype]
    cases h with
    | none => exact absurd rfl hne
    | node hi₀ hi₁ hsome hchildren hmid htop hnext =>
      rw [hkids] at hsome hchildren
      rw [List.mem_singleton] at hsome
      exact ends_matchclass (hchildren _ (List.mem_singleton_self _)) (Ne.symm hsome) (by omega)
  rw [matchSimple]
  split
  · exact ends_wordBorder.bind fun _ => ends_pure _
  · exact ends_pure _
  · exact ends_pure _
  · exact ends_pure _
  · rename_i htype
    exact (ends_read _).bind fun c => (hclass c (.inr htype)).bind fun _ => ends_pure _
  · rename_i htype
    exact (ends_read _).bind fun c => (hclass c (.inl htype)).bind fun _ => ends_pure _
  · exact (ends_read _).bind fun _ => ends_pure _
  · exact (ends_read _).bind fun _ => ends_pure _

end Nodes

/-- The fuel bounds the ranks of the nodes that are matched. -/
theorem runs_matchnode {fuel : ℕ} (hnodes : fuel ≤ nodes.length + 1) :
    Runs nodes fuel (matchnode nodes t bol eol fuel) := by
  induction fuel with
  | zero =>
    intro i str next lo hi hne h hk
    cases h with
    | none => exact absurd rfl hne
    | node => omega
  | succ fuel ih =>
    intro i str next lo hi hne h hk hfollows
    have hrun := ih (by omega)
    rw [matchnode]
    refine ends_attempt ?_
    split
    · rename_i htype
      exact ends_matchGreedy hrun htype h hne hk hfollows
    · rename_i htype
      exact ends_matchOr hrun htype h hne hk (by omega)
    · rename_i htype
      exact ends_matchExpr hrun (.inl htype) h hne hk (by omega) hfollows
    · rename_i htype
      exact ends_matchExpr hrun (.inr htype) h hne hk (by omega) hfollows
    · exact ends_matchSimple h hne (by omega)

/-! ### The interface -/

theorem charAt_eq_nul_iff {a : ℤ} (h₀ : t.str ≤ a) (h₁ : a ≤ t.eol) :
    t.charAt a = NUL ↔ a = t.eol := by
  by_cases hlt : a < t.eol
  · have hidx : (a - t.str).toNat < t.text.chars.length := by
      rw [Text.eol] at hlt
      omega
    rw [Text.charAt, if_pos ⟨h₀, hlt⟩, List.getD_eq_getElem?_getD, List.getElem?_eq_getElem hidx]
    refine ⟨fun hnul => ?_, fun heq => absurd heq (by omega)⟩
    have hmem := List.getElem_mem hidx
    change t.text.chars[(a - t.str).toNat] = NUL at hnul
    rw [hnul] at hmem
    exact absurd hmem t.text.noNul
  · have heq : a = t.eol := by omega
    refine ⟨fun _ => heq, fun _ => ?_⟩
    rw [Text.charAt, if_neg fun h => hlt h.2]
    exact if_pos heq

/-- The state with more notes on what was read -/
def noteReads (s : Matching) (reads : List ℤ) : Matching := { s with reads := reads }

private theorem yields_strlenLoop {fuel : ℕ} {a : ℤ} (s : Matching) (h₀ : t.str ≤ a)
    (h₁ : a ≤ t.eol)
    (hfuel : (t.eol - a).toNat < fuel) : Yields s (strlenLoop t fuel a) fun r s' => r = t.eol ∧
      ∃ reads, s' = noteReads s reads ∧ ∀ x ∈ reads, x ∈ s.reads ∨ (a ≤ x ∧ x ≤ t.eol) := by
  induction fuel generalizing a s with
  | zero => omega
  | succ fuel ih =>
    have hread : read t a s = .ok (t.charAt a) (noteReads s (a :: s.reads)) := rfl
    have hcons : ∀ x ∈ a :: s.reads, x ∈ s.reads ∨ (a ≤ x ∧ x ≤ t.eol) := by
      intro x hx
      cases List.mem_cons.mp hx with
      | inl heq => exact .inr (by omega)
      | inr hmem => exact .inl hmem
    rw [strlenLoop]
    by_cases hend : t.charAt a = NUL
    · refine ⟨a, _, (bind_ok hread).trans (congrFun (if_pos hend) _), ?_, _, rfl, hcons⟩
      exact (charAt_eq_nul_iff h₀ h₁).mp hend
    · have hlt : a < t.eol := by
        have hne := mt (charAt_eq_nul_iff h₀ h₁).mpr hend
        omega
      obtain ⟨r, s', hrest, hr, reads, hs', hreads⟩ :=
        ih (noteReads s (a :: s.reads)) (a := a + 1) (by omega) (by omega) (by omega)
      refine ⟨r, s', (bind_ok hread).trans ((congrFun (if_neg hend) _).trans hrest), hr, reads, hs',
        fun x hx => ?_⟩
      cases hreads x hx with
      | inl hmem => exact hcons x hmem
      | inr hrange => exact .inr (by omega)

/-- The end of a text is found from any place in it. -/
theorem yields_textEnd {a : ℤ} (s : Matching) (h₀ : t.str ≤ a) (h₁ : a ≤ t.eol) :
    Yields s (textEnd t a) fun r s' => r = t.eol ∧
      ∃ reads, s' = noteReads s reads ∧ ∀ x ∈ reads, x ∈ s.reads ∨ (a ≤ x ∧ x ≤ t.eol) :=
  yields_strlenLoop s h₀ h₁ (by rw [Text.eol]; omega)

/-- Nodes as a compilation leaves them: all hang on the first one, which nothing follows. -/
structure Rooted (nodes : List SQRexNode) : Prop where
  nonempty : 0 < nodes.length
  ranked : Ranked nodes 0 0 nodes.length
  next : (nodeAt nodes 0).next = -1

section Interface

variable (h : Rooted nodes)
include h

theorem ends_matchRoot (str : ℤ) : Ends (matchnode nodes t bol eol (nodes.length + 1) 0 str (-1)) :=
  runs_matchnode (Nat.le_refl _) 0 str (-1) 0 nodes.length (by decide) h.ranked (Nat.le_succ _)
    (.inl rfl)

private theorem rexMatch_ends {s : Matching} {text : ℤ} (h₀ : t.str ≤ text) (h₁ : text ≤ t.eol) :
    Yields s (rexMatch nodes t text) fun _ _ => True :=
  (yields_textEnd s h₀ h₁).bind fun _ s₁ _ =>
    ((ends_modify _).bind fun _ => (ends_matchRoot h text).bind fun _ => ends_pure _) s₁

/-- The loop over the nodes at the top matches the first one only. -/
theorem yields_topLoop {cur : ℤ} {fuel : ℕ} (hfuel : 2 ≤ fuel) (s : Matching) :
    Yields s (topLoop nodes t bol eol fuel 0 cur) fun res _ => res.1 = none → res.2 = 0 := by
  obtain ⟨fuel, rfl⟩ : ∃ k, fuel = k + 2 := ⟨fuel - 2, by omega⟩
  rw [topLoop, if_pos (by decide)]
  refine (ends_modify _ s).bind fun _ s₁ _ => (ends_matchRoot h cur s₁).bind fun res s₂ _ => ?_
  cases res with
  | none => exact yields_pure fun _ => rfl
  | some cur =>
    change Yields s₂ (topLoop nodes t bol eol (fuel + 1) (nodeAt nodes 0).next cur) _
    rw [h.next, topLoop, if_neg (by decide)]
    exact yields_pure fun hnone => by cases hnone

private theorem ends_searchLoop {text_begin : ℤ} {fuel : ℕ} (hlt : text_begin < eol)
    (hfuel : (eol - text_begin).toNat ≤ fuel) : Ends (searchLoop nodes t bol eol fuel 0 text_begin) := by
  induction fuel generalizing text_begin with
  | zero => omega
  | succ fuel ih =>
    intro s
    have hnonempty := h.nonempty
    refine (yields_topLoop h (by omega) s).bind fun res s₁ hres => ?_
    obtain ⟨res, node⟩ := res
    cases res with
    | some cur => exact yields_pure trivial
    | none =>
      obtain rfl : node = 0 := hres rfl
      change Yields s₁ (if text_begin + 1 ≠ eol then _ else _) _
      split
      · exact ih (by omega) (by omega) s₁
      · exact yields_pure trivial

private theorem rexSearch_ends {s : Matching} {text : ℤ} (h₀ : t.str ≤ text) (h₁ : text ≤ t.eol) :
    Yields s (rexSearch nodes t text) fun _ _ => True := by
  refine (yields_textEnd s h₀ h₁).bind fun text_end s₁ _ => ?_
  rw [searchrange]
  split
  · exact yields_pure trivial
  · exact ends_searchLoop h (by omega) (Nat.le_refl _) s₁

end Interface

/-! ### Compiled expressions -/

theorem Compiled.rooted {pattern : List Char} {first : ℤ} {s : SQRex}
    (h : SQRex.Compiled pattern first s) : Rooted s.nodes := by
  have hroot := h.segment.root
  have hranked := h.segment.ranked 0 (by omega) (by omega)
  exact ⟨by omega, hranked, h.next⟩

/-- What is claimed of a compilation: it ends in its pattern and in its nodes, and the nodes of a
result let matching end. -/
def CompilesSafely (pattern : CString) : Prop :=
  match rexCompile pattern with
  | .ok first s =>
    (0 ≤ first ∧ first < s.nodes.length) ∧
      (∀ i : ℤ, 0 ≤ i → i < s.nodes.length → ∀ j, Refers s.nodes j i →
        0 ≤ j ∧ j < s.nodes.length) ∧
      (∀ i, Acc (Refers s.nodes) i) ∧
      ∀ (t : Text) (m : Matching) (text : ℤ), t.str ≤ text → text ≤ t.eol →
        (Yields m (rexMatch s.nodes t text) fun _ _ => True) ∧
          Yields m (rexSearch s.nodes t text) fun _ _ => True
  | .error (.raised (.error _)) _ => True
  | .error (.raised .outside) _ => False
  | .error .outOfFuel _ => False

/-- Read from left to right, the pattern has no mistake before its last character, and that is a
backslash that begins an escape. -/
def EscapesTerminator (pattern : CString) : Prop := SQRex.scan pattern.chars .list 0 = true

/-- The state where compilation starts -/
def started (pattern : CString) : SQRex where
  pattern := pattern.chars
  p := 0
  nodes := []
  nallocated := pattern.chars.length
  nsubexpr := 0
  escapes := []

private theorem fine_started {pattern : CString} (h : pattern.chars ≠ []) :
    SQRex.Fine pattern.chars (started pattern) where
  compiling :=
    { pattern_eq := rfl
      nonempty := List.length_pos_iff.mpr h
      positive := List.length_pos_iff.mpr h
      allocated := Nat.zero_le _
      groups := fun _ hi₀ hi₁ => absurd hi₁ (not_lt.mpr hi₀) }
  p := Nat.zero_le _
  escapes := List.not_mem_nil

theorem rexCompile_outcome {pattern : CString} (h : pattern.chars ≠ []) :
    Outcome (started pattern) SQRex.compileBody (SQRex.Compiled pattern.chars)
      (SQRex.Fails pattern.chars) :=
  SQRex.outcome_compileBody (fine_started h) rfl rfl

/-- What the compilation reads is what the characters of the pattern are read as. -/
theorem rexCompile_reads (pattern : CString) :
    Outcome (started pattern) SQRex.compileBody
      (fun _ _ => SQRex.scan pattern.chars .list 0 = false)
      (SQRex.Misses pattern.chars (SQRex.scan pattern.chars .list 0)) :=
  SQRex.reads_compileBody
    ⟨rfl, fun hmem => absurd hmem List.not_mem_nil, .inl ⟨Nat.zero_le _, rfl⟩⟩

/-- Where the ranks of all nodes are known, no node leads to itself. -/
theorem acc_refers {nodes : List SQRexNode} {n : ℕ} {ret : ℤ}
    (h : Segment nodes n nodes.length ret) (hn : n = 0) (i : ℤ) : Acc (Refers nodes) i := by
  by_cases hi : 0 ≤ i ∧ i < nodes.length
  · exact (h.ranked i (by omega) hi.2).acc
  · exact ⟨i, fun j hj => absurd hj.1 hi⟩

private theorem compiles_of_compiled {pattern : List Char} {first : ℤ} {s : SQRex}
    (h : SQRex.Compiled pattern first s) :
    (0 ≤ first ∧ first < s.nodes.length) ∧
      (∀ i : ℤ, 0 ≤ i → i < s.nodes.length → ∀ j, Refers s.nodes j i →
        0 ≤ j ∧ j < s.nodes.length) ∧
      (∀ i, Acc (Refers s.nodes) i) ∧
      ∀ (t : Text) (m : Matching) (text : ℤ), t.str ≤ text → text ≤ t.eol →
        (Yields m (rexMatch s.nodes t text) fun _ _ => True) ∧
          Yields m (rexSearch s.nodes t text) fun _ _ => True := by
  have hrooted := Compiled.rooted h
  have hnonempty := hrooted.nonempty
  refine ⟨?_, fun i hi₀ hi₁ j hj => (h.segment.ranked i hi₀ hi₁).refers hj |>.1,
    acc_refers h.segment rfl, fun t m text h₀ h₁ =>
      ⟨rexMatch_ends hrooted h₀ h₁, rexSearch_ends hrooted h₀ h₁⟩⟩
  rw [h.first]
  omega

theorem rexCompile_safe_iff (pattern : CString) :
    CompilesSafely pattern ↔ pattern.chars ≠ [] ∧ ¬EscapesTerminator pattern := by
  by_cases hempty : pattern.chars = []
  · have hrun : rexCompile pattern = .error (.raised .outside)
        { pattern := [], p := 0, nodes := [], nallocated := 0, nsubexpr := 1, escapes := [] } := by
      rw [rexCompile, hempty]
      rfl
    rw [CompilesSafely, hrun]
    exact ⟨False.elim, fun h => h.1 hempty⟩
  · have hout := rexCompile_outcome hempty
    have hreads := rexCompile_reads pattern
    have hsafe : SQRex.scan pattern.chars .list 0 = false → ¬EscapesTerminator pattern := by
      intro h hescapes
      rw [EscapesTerminator, h] at hescapes
      cases hescapes
    rw [CompilesSafely]
    cases hrun : rexCompile pattern with
    | ok first s =>
      have hcompiled := hout.of_ok hrun
      exact ⟨fun _ => ⟨hempty, hsafe (hreads.of_ok hrun)⟩, fun _ => compiles_of_compiled hcompiled⟩
    | error e s =>
      have hfails := hout.of_error hrun
      have hmisses := hreads.of_error hrun
      cases e with
      | outOfFuel => exact hfails.elim
      | raised e =>
        cases e with
        | error message => exact ⟨fun _ => ⟨hempty, hsafe hmisses⟩, fun _ => trivial⟩
        | outside => exact ⟨False.elim, fun h => h.2 (hmisses hfails)⟩

/-- The empty pattern has no room for its first node; behind a backslash at the end the terminator
is escaped, and what follows it is read. -/
theorem rexCompile_unsafe : ¬CompilesSafely ⟨[], by decide⟩ ∧ ¬CompilesSafely ⟨['\\'], by decide⟩ :=
  ⟨fun h => h, fun h => h⟩

end Squirt.Rex
