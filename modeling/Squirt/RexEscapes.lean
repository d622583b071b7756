import Squirt.RexTrees

/-!
# Escapes at the end of a regular expression

What the characters of a pattern are read as, from left to right. It tells whether a pattern ends
with a backslash that begins an escape, and the parsers begin an escape at the last character in
just these patterns.
-/

namespace Squirt.SQRex

open Programs Programs.Program

/-- What a pattern has got to; the next character is the first of a list, of an element, behind a
parenthesis and so on. -/
inductive Place where
  | list
  | element
  | group
  | colon
  | afterAtom
  | brace
  | number (positions : ℕ) (last : Bool)
  | bounded (last : Bool)
  | comma
  | afterCounts
  | ended
  | closed
  | classStart
  | classFirst
  | inClass (first : Option SQRexNodeType)
  | range (type : SQRexNodeType)
  | classEnd

/-- What a character is read as: a mistake, or it leads to another place, or it begins an escape
and the character behind it leads to another place. -/
inductive Reading where
  | mistake
  | on (place : Place) (depth : ℕ)
  | escape (next : Char → Place)

/-- What an escaped character stands for -/
def escapedType (isclass : Bool) (t : Char) : SQRexNodeType :=
  if (controls.lookup t).isSome then .char ((controls.lookup t).getD t)
  else if t ∈ classids then .CCLASS
  else if (t = 'b' ∨ t = 'B') ∧ ¬isclass then .WB
  else .char t

def readCharacter (isclass : Bool) (next : SQRexNodeType → Place) (depth : ℕ) (c : Char) :
    Reading :=
  if c = '\\' then .escape fun t => next (escapedType isclass t)
  else if isprint c then .on (next (.char c)) depth
  else .mistake

def readElement (depth : ℕ) (c : Char) : Reading :=
  if c = '(' then .on .group (depth + 1)
  else if c = '[' then .on .classStart depth
  else if c = '$' ∨ c = '.' then .on .afterAtom depth
  else readCharacter false (fun _ => .afterAtom) depth c

def readList (depth : ℕ) (c : Char) : Reading :=
  if c = '^' then .on .element depth else readElement depth c

def readClosed (depth : ℕ) (c : Char) : Reading :=
  if c = ')' ∧ depth ≠ 0 then .on .afterAtom (depth - 1) else .mistake

def readEnded (depth : ℕ) (c : Char) : Reading :=
  if c = '|' then .on .list depth else readClosed depth c

def readAfterCounts (depth : ℕ) (c : Char) : Reading :=
  if c ≠ '|' ∧ c ≠ ')' ∧ c ≠ '*' ∧ c ≠ '+' ∧ c ≠ NUL then readElement depth c
  else readEnded depth c

def readBounded (last : Bool) (depth : ℕ) (c : Char) : Reading :=
  if c = '}' then .on .afterCounts depth
  else if c = ',' ∧ ¬last then .on .comma depth
  else .mistake

def readClass (first : Option SQRexNodeType) (depth : ℕ) (c : Char) : Reading :=
  if c = ']' then .on .afterAtom depth
  else
    match first with
    | some type =>
      if c = '-' then .on (.range type) depth
      else readCharacter true (fun type => .inClass (some type)) depth c
    | none => readCharacter true (fun type => .inClass (some type)) depth c

def readClassFirst (depth : ℕ) (c : Char) : Reading :=
  if c = ']' then .mistake else readClass none depth c

/-- The end of a range, which `escapechar` reads -/
def readRangeEnd (depth : ℕ) (c : Char) : Reading :=
  if c = '\\' then .escape fun _ => .inClass none
  else if isprint c then .on (.inClass none) depth
  else .mistake

/-- What the next character is read as; `depth` counts the open parentheses. -/
def Place.read : Place → ℕ → Char → Reading
  | .list, depth, c => readList depth c
  | .element, depth, c => readElement depth c
  | .group, depth, c => if c = '?' then .on .colon depth else readList depth c
  | .colon, depth, c => if c = ':' then .on .list depth else .mistake
  | .afterAtom, depth, c =>
    if c = '*' ∨ c = '+' ∨ c = '?' then .on .afterCounts depth
    else if c = '{' then .on .brace depth
    else readAfterCounts depth c
  | .brace, depth, c => if c.isDigit then .on (.number 10 false) depth else .mistake
  | .number positions last, depth, c =>
    if c.isDigit then
      if positions = 1000000000 then .mistake else .on (.number (positions * 10) last) depth
    else readBounded last depth c
  | .bounded last, depth, c => readBounded last depth c
  | .comma, depth, c =>
    if c.isDigit then .on (.number 10 true) depth
    else if c = '}' then .on .afterCounts depth
    else .mistake
  | .afterCounts, depth, c => readAfterCounts depth c
  | .ended, depth, c => readEnded depth c
  | .closed, depth, c => readClosed depth c
  | .classStart, depth, c => if c = '^' then .on .classFirst depth else readClassFirst depth c
  | .classFirst, depth, c => readClassFirst depth c
  | .inClass first, depth, c => readClass first depth c
  | .range type, depth, c =>
    if type.code > schar c ∨ type = .CCLASS then .mistake else readRangeEnd depth c
  | .classEnd, depth, c => if c = ']' then .on .afterAtom depth else .mistake

/-- An escape begins at the last character, and there is no mistake before it. -/
def scan : List Char → Place → ℕ → Bool
  | [], _, _ => false
  | c :: rest, place, depth =>
    match place.read depth c with
    | .mistake => false
    | .on place depth => scan rest place depth
    | .escape next =>
      match rest with
      | [] => true
      | t :: rest => scan rest (next t) depth

section Scan

variable {place place' : Place} {depth depth' : ℕ} {c t : Char} {rest : List Char}
  {next : Char → Place}

private theorem scan_mistake (h : place.read depth c = .mistake) : scan
    (c :: rest) place depth = false := by
  rw [scan, h]

private theorem scan_on (h : place.read depth c = .on place' depth') :
    scan (c :: rest) place depth = scan rest place' depth' := by
  rw [scan, h]

private theorem scan_escape_nil (h : place.read depth c = .escape next) : scan
    [c] place depth = true := by
  rw [scan, h]

private theorem scan_escape_cons (h : place.read depth c = .escape next) :
    scan (c :: t :: rest) place depth = scan rest (next t) depth := by
  rw [scan, h]

private theorem scan_congr (h : place.read depth c = place'.read depth c) :
    scan (c :: rest) place depth = scan (c :: rest) place' depth := by
  rw [scan, scan, h]

/-- The terminator is a mistake everywhere. -/
theorem read_nul (place : Place) (depth : ℕ) : place.read depth NUL = .mistake := by
  have hclosed : readClosed depth NUL = .mistake := if_neg fun h => absurd h.1 (by decide)
  cases place with
  | closed => exact hclosed
  | ended => exact hclosed
  | afterCounts => exact hclosed
  | afterAtom => exact hclosed
  | inClass first => cases first <;> rfl
  | range type => exact ite_self Reading.mistake
  | _ => rfl

end Scan

section Reading

variable {pattern : List Char} {hit : Bool} {place place' : Place} {depth depth' : ℕ}
  {s s' s'' : SQRex} {α β : Type}

/-- The pattern is read at `place`; `hit` is what `scan` says of all of it. The other case is that
the terminator was passed as an escaped character. -/
structure Reads (pattern : List Char) (hit : Bool) (place : Place) (depth : ℕ) (s : SQRex) :
    Prop where
  pattern_eq : s.pattern = pattern
  escapes : pattern.length - 1 ∈ s.escapes → hit = true
  rest : (s.p ≤ pattern.length ∧ scan (pattern.drop s.p) place depth = hit) ∨
    (pattern.length < s.p ∧ hit = true)

/-- The next character is `c`. -/
structure Next (pattern : List Char) (hit : Bool) (place : Place) (depth : ℕ) (c : Char)
    (s : SQRex) : Prop where
  pattern_eq : s.pattern = pattern
  escapes : pattern.length - 1 ∈ s.escapes → hit = true
  scan_eq : scan (pattern.drop s.p) place depth = hit
  next : (s.p < pattern.length ∧ pattern.drop s.p = c :: pattern.drop (s.p + 1)) ∨
    (s.p = pattern.length ∧ c = NUL)

/-- How a compilation fails: a mistake is made only in a pattern that is not hit. -/
def Misses (pattern : List Char) (hit : Bool) (e : Stop RexError) (s : SQRex) : Prop :=
  match e with
  | .raised (.error _) => hit = false
  | .raised .outside => pattern.length - 1 ∈ s.escapes → hit = true
  | .outOfFuel => True

/-- Only nodes are added and changed, and they keep their types. -/
structure Builds (s s' : SQRex) : Prop where
  pattern : s'.pattern = s.pattern
  p : s'.p = s.p
  escapes : s'.escapes = s.escapes
  length : s.nodes.length ≤ s'.nodes.length
  type : ∀ i : ℤ, 0 ≤ i → i < s.nodes.length →
    (nodeAt s'.nodes i).type = (nodeAt s.nodes i).type

theorem Builds.trans (h : Builds s s') (h' : Builds s' s'') : Builds s s'' where
  pattern := h'.pattern.trans h.pattern
  p := h'.p.trans h.p
  escapes := h'.escapes.trans h.escapes
  length := h.length.trans h'.length
  type i hi₀ hi₁ := by
    have hlength := h.length
    rw [h'.type i hi₀ (by omega), h.type i hi₀ hi₁]

theorem Reads.builds (h : Reads pattern hit place depth s) (hs : Builds s s') :
    Reads pattern hit place depth s' := by
  refine ⟨hs.pattern.trans h.pattern_eq, ?_, ?_⟩
  · rw [hs.escapes]
    exact h.escapes
  · rw [hs.p]
    exact h.rest

theorem Next.builds {c : Char} (h : Next pattern hit place depth c s) (hs : Builds s s') :
    Next pattern hit place depth c s' := by
  refine ⟨hs.pattern.trans h.pattern_eq, ?_, ?_, ?_⟩
  · rw [hs.escapes]
    exact h.escapes
  · rw [hs.p]
    exact h.scan_eq
  · rw [hs.p]
    exact h.next

/-! ### The next character -/

section Next

variable {c : Char}

theorem Next.reads (h : Next pattern hit place depth c s) : Reads pattern hit place depth s := by
  refine ⟨h.pattern_eq, h.escapes, .inl ⟨?_, h.scan_eq⟩⟩
  cases h.next with
  | inl h => exact Nat.le_of_lt h.1
  | inr h => exact Nat.le_of_eq h.1

theorem peek_of_drop {rest : List Char} (h : s.pattern.drop s.p = c :: rest) :
    SQRex.peek s = .ok c s := by
  have hlt : s.p < s.pattern.length := by
    refine Nat.lt_of_not_le fun hge => ?_
    rw [List.drop_of_length_le hge] at h
    cases h
  refine (bind_ok rfl).trans ?_
  rw [if_pos hlt, List.getD_eq_getElem?_getD, ← List.head?_drop, h]
  rfl

theorem peek_of_end (h : s.p = s.pattern.length) : SQRex.peek s = .ok NUL s := by
  refine (bind_ok rfl).trans ?_
  rw [if_neg (by omega), if_pos h]
  rfl

theorem Next.peek (h : Next pattern hit place depth c s) : SQRex.peek s = .ok c s := by
  have hpattern := h.pattern_eq
  cases h.next with
  | inl h => exact peek_of_drop (by rw [hpattern]; exact h.2)
  | inr h =>
    rw [h.2]
    exact peek_of_end (by rw [hpattern]; exact h.1)

theorem Next.eq {c' : Char} (h : Next pattern hit place depth c s)
    (h' : Next pattern hit place depth c' s) : c = c' := by
  have hpeek := h.peek.symm.trans h'.peek
  cases hpeek
  rfl

/-- The program goes on with the next character. -/
theorem Reads.peek {f : Char → Compiler β} {Q : β → SQRex → Prop}
    (h : Reads pattern hit place depth s)
    (hf : ∀ c, Next pattern hit place depth c s → Outcome s (f c) Q (Misses pattern hit)) :
    Outcome s (SQRex.peek >>= f) Q (Misses pattern hit) := by
  have hpattern := h.pattern_eq
  cases h.rest with
  | inl hrest =>
    obtain ⟨c, hc⟩ : ∃ c, Next pattern hit place depth c s := by
      obtain hlt | heq := Nat.lt_or_eq_of_le hrest.1
      · exact ⟨_, hpattern, h.escapes, hrest.2, .inl ⟨hlt, List.drop_eq_getElem_cons hlt⟩⟩
      · exact ⟨NUL, hpattern, h.escapes, hrest.2, .inr ⟨heq, rfl⟩⟩
    exact Outcome.afterOk hc.peek (hf c hc)
  | inr hrest =>
    have hout : SQRex.peek s = .error (.raised .outside) s := by
      refine (bind_ok rfl).trans ?_
      rw [hpattern, if_neg (by omega), if_neg (by omega)]
      rfl
    exact Outcome.afterError hout fun _ => hrest.2

theorem Next.mistake (h : Next pattern hit place depth c s)
    (hread : place.read depth c = .mistake) : hit = false := by
  rw [← h.scan_eq]
  cases h.next with
  | inl h =>
    rw [h.2]
    exact scan_mistake hread
  | inr h =>
    rw [h.1, List.drop_length]
    rfl

theorem Next.congr (h : Next pattern hit place depth c s)
    (hread : place.read depth c = place'.read depth c) : Next pattern hit place' depth c s := by
  refine ⟨h.pattern_eq, h.escapes, ?_, h.next⟩
  rw [← h.scan_eq]
  cases h.next with
  | inl h =>
    rw [h.2]
    exact (scan_congr hread).symm
  | inr h =>
    rw [h.1, List.drop_length]
    rfl

theorem Next.on (h : Next pattern hit place depth c s)
    (hread : place.read depth c = .on place' depth') :
    Reads pattern hit place' depth' { s with p := s.p + 1 } := by
  refine ⟨h.pattern_eq, h.escapes, .inl ?_⟩
  rw [← h.scan_eq]
  cases h.next with
  | inl h =>
    rw [h.2]
    exact ⟨h.1, (scan_on hread).symm⟩
  | inr h =>
    rw [h.2, read_nul] at hread
    cases hread

theorem Next.step {y : Compiler β} {Q : β → SQRex → Prop} {E : Stop RexError → SQRex → Prop}
    (h : Next pattern hit place depth c s) (hread : place.read depth c = .on place' depth')
    (hy : ∀ s₁, Reads pattern hit place' depth' s₁ → s₁.nodes = s.nodes → Outcome s₁ y Q E) :
    Outcome s (SQRex.advance >>= fun _ => y) Q E :=
  hy _ (h.on hread) rfl

theorem Next.pass {wrong : Prop} [Decidable wrong] {err : String} {y : Compiler β}
    {Q : β → SQRex → Prop} (h : Next pattern hit place depth c s)
    (hread : wrong → place.read depth c = .mistake)
    (hy : ¬wrong → Outcome s y Q (Misses pattern hit)) :
    Outcome s (errorIf wrong err >>= fun _ => y) Q (Misses pattern hit) := by
  by_cases hwrong : wrong
  · have herr : errorIf wrong err s = .error (.raised (.error err)) s := by
      rw [errorIf, if_pos hwrong]
      rfl
    exact Outcome.afterError herr (h.mistake (hread hwrong))
  · have hok : errorIf wrong err s = .ok () s := by
      rw [errorIf, if_neg hwrong]
      rfl
    exact Outcome.afterOk hok (hy hwrong)

/-- The escaped character is next; it may be the terminator. -/
theorem Next.escape {next : Char → Place} {f : Char → Compiler β} {Q : β → SQRex → Prop}
    (h : Next pattern hit place depth c s) (hread : place.read depth c = .escape next)
    (hf : ∀ t s₁, s₁.nodes = s.nodes → SQRex.peek s₁ = .ok t s₁ →
      Reads pattern hit (next t) depth { s₁ with p := s₁.p + 1 } →
        Outcome s₁ (f t) Q (Misses pattern hit)) :
    Outcome s (SQRex.beginEscape >>= fun _ => SQRex.peek >>= f) Q (Misses pattern hit) := by
  have hlt : s.p < pattern.length ∧ pattern.drop s.p = c :: pattern.drop (s.p + 1) := by
    refine h.next.resolve_right fun hend => ?_
    rw [hend.2, read_nul] at hread
    cases hread
  have hscan := h.scan_eq
  rw [hlt.2] at hscan
  have hbegin : SQRex.beginEscape s =
      .ok ⟨⟩ { s with p := s.p + 1, escapes := s.p :: s.escapes } := rfl
  refine Outcome.afterOk hbegin ?_
  have hpattern := h.pattern_eq
  obtain hinside | hlast := Nat.lt_or_eq_of_le (Nat.succ_le_of_lt hlt.1)
  · have hdrop := List.drop_eq_getElem_cons hinside
    rw [hdrop, scan_escape_cons hread] at hscan
    have hpeek : SQRex.peek { s with p := s.p + 1, escapes := s.p :: s.escapes } =
        .ok pattern[s.p + 1] { s with p := s.p + 1, escapes := s.p :: s.escapes } :=
      peek_of_drop (by rw [hpattern]; exact hdrop)
    refine Outcome.afterOk hpeek (hf _ _ rfl hpeek ⟨hpattern, fun hmem => ?_, .inl ⟨hinside, hscan⟩⟩)
    obtain heq | hmem := List.mem_cons.mp hmem
    · omega
    · exact h.escapes hmem
  · have hend : s.p + 1 = pattern.length := hlast
    have hhit : hit = true := by
      rw [← hscan, hend, List.drop_length, scan_escape_nil hread]
    have hpeek : SQRex.peek { s with p := s.p + 1, escapes := s.p :: s.escapes } =
        .ok NUL { s with p := s.p + 1, escapes := s.p :: s.escapes } :=
      peek_of_end (by rw [hpattern]; exact hend)
    refine Outcome.afterOk hpeek (hf _ _ rfl hpeek ⟨hpattern, fun _ => hhit, .inr ⟨?_, hhit⟩⟩)
    exact Nat.lt_succ_of_le hend.ge

end Next

/-! ### Nodes -/

/-- A node is added, of the type. -/
structure Adds (type : SQRexNodeType) (n : ℤ) (s s' : SQRex) : Prop where
  builds : Builds s s'
  range : 0 ≤ n ∧ n < s'.nodes.length
  type_eq : (nodeAt s'.nodes n).type = type

theorem adds_newnode (type : SQRexNodeType) (h : pattern.length - 1 ∈ s.escapes → hit = true) :
    Outcome s (newnode type) (fun n s' => Adds type n s s') (Misses pattern hit) := by
  unfold newnode
  refine outcome_getBind ?_
  dsimp only
  generalize (if s.nallocated < s.nodes.length + 1 then s.nallocated * 2 else s.nallocated) =
    nallocated
  generalize (if type = .EXPR then s.nsubexpr + 1 else s.nsubexpr) = nsubexpr
  generalize (if type = .EXPR then (s.nsubexpr : ℤ) else -1) = right
  refine Outcome.afterOk rfl ?_
  split
  · exact h
  · refine Outcome.afterOk rfl (outcome_pure ⟨⟨rfl, rfl, rfl, ?_, fun i hi₀ hi₁ => ?_⟩, ⟨?_, ?_⟩, ?_⟩)
    · change s.nodes.length ≤ (s.nodes ++ [_]).length
      rw [List.length_append]
      exact Nat.le_add_right _ _
    · exact congrArg SQRexNode.type (nodeAt_append hi₁ hi₀)
    · exact Int.natCast_nonneg _
    · change (s.nodes.length : ℤ) < ((s.nodes ++ [_]).length : ℕ)
      rw [List.length_append, List.length_singleton]
      omega
    · exact congrArg SQRexNode.type (nodeAt_append_length _)

theorem builds_setNode {n : ℤ} {f : SQRexNode → SQRexNode}
    (hf : ∀ node, (f node).type = node.type) (h : pattern.length - 1 ∈ s.escapes → hit = true) :
    Outcome s (setNode n f) (fun _ s' => Builds s s') (Misses pattern hit) := by
  unfold setNode
  refine outcome_getBind ?_
  split
  · rename_i hn
    refine ⟨rfl, rfl, rfl, (List.length_modify _ _ _).ge, fun i hi₀ hi₁ => ?_⟩
    by_cases heq : i = n
    · rw [heq]
      exact (congrArg SQRexNode.type (nodeAt_modify_self hn.1 hn.2)).trans (hf _)
    · exact congrArg SQRexNode.type (nodeAt_modify_of_ne heq hn.1 hi₀)
  · exact h

private theorem outcome_readType {n : ℤ} {f : SQRexNodeType → Compiler β} {Q : β → SQRex → Prop}
    (h : pattern.length - 1 ∈ s.escapes → hit = true)
    (hf : Outcome s (f (nodeAt s.nodes n).type) Q (Misses pattern hit)) :
    Outcome s (typeOf n >>= f) Q (Misses pattern hit) := by
  by_cases hn : 0 ≤ n ∧ n < s.nodes.length
  · have hok : typeOf n s = .ok (nodeAt s.nodes n).type s := by
      refine (bind_ok rfl).trans ?_
      rw [if_pos hn]
      rfl
    exact Outcome.afterOk hok hf
  · have hout : typeOf n s = .error (.raised .outside) s := by
      refine (bind_ok rfl).trans ?_
      rw [if_neg hn]
      rfl
    exact Outcome.afterError hout h

/-- A new node is made, and what is read stays where it is. -/
theorem Reads.newnode (h : Reads pattern hit place depth s) {type : SQRexNodeType}
    {f : ℤ → Compiler β} {Q : β → SQRex → Prop}
    (hf : ∀ n s₁, Adds type n s s₁ → Reads pattern hit place depth s₁ →
      Outcome s₁ (f n) Q (Misses pattern hit)) :
    Outcome s (SQRex.newnode type >>= f) Q (Misses pattern hit) :=
  (adds_newnode type h.escapes).bind fun n s₁ h₁ => hf n s₁ h₁ (h.builds h₁.builds)

theorem Reads.setNode (h : Reads pattern hit place depth s) {n : ℤ} {g : SQRexNode → SQRexNode}
    (hg : ∀ node, (g node).type = node.type) {y : Compiler β} {Q : β → SQRex → Prop}
    (hy : ∀ s₁, Builds s s₁ → Reads pattern hit place depth s₁ →
      Outcome s₁ y Q (Misses pattern hit)) :
    Outcome s (SQRex.setNode n g >>= fun _ => y) Q (Misses pattern hit) :=
  (builds_setNode hg h.escapes).bind fun _ s₁ h₁ => hy s₁ h₁ (h.builds h₁)

/-! ### Characters and classes -/

/-- The next character is read as a character. -/
theorem reads_charnode {isclass : Bool} {next : SQRexNodeType → Place}
    (h : Reads pattern hit place depth s)
    (hread : ∀ c, Next pattern hit place depth c s →
      place.read depth c = readCharacter isclass next depth c) :
    Outcome s (charnode isclass) (fun n s' =>
      Reads pattern hit (next (nodeAt s'.nodes n).type) depth s' ∧
        0 ≤ n ∧ n < s'.nodes.length) (Misses pattern hit) := by
  refine h.peek fun c hc => ?_
  have hchar := hread c hc
  unfold readCharacter at hchar
  split
  · rename_i hescape
    rw [if_pos hescape] at hchar
    refine hc.escape hchar fun t s₁ hnodes _ h₁ => ?_
    have hleaf : ∀ {type : SQRexNodeType}, type = escapedType isclass t →
        Outcome s₁ (SQRex.advance >>= fun _ => SQRex.newnode type) (fun n s' =>
          Reads pattern hit (next (nodeAt s'.nodes n).type) depth s' ∧
            0 ≤ n ∧ n < s'.nodes.length) (Misses pattern hit) := by
      rintro type rfl
      refine Outcome.afterOk rfl ((adds_newnode _ h₁.escapes).mono fun n s₂ h₂ => ⟨?_, h₂.range⟩)
      rw [h₂.type_eq]
      exact h₁.builds h₂.builds
    split
    · rename_i hcontrol
      exact hleaf (if_pos hcontrol).symm
    · rename_i hcontrol
      split
      · rename_i hclassid
        have htype : escapedType isclass t = .CCLASS := by
          rw [escapedType, if_neg hcontrol, if_pos hclassid]
        rw [htype] at h₁
        refine Outcome.afterOk rfl (h₁.newnode fun n s₂ h₂ hreads₂ => hreads₂.setNode ?_
          fun s₃ h₃ hreads₃ => outcome_pure ⟨?_, ?_⟩)
        · exact fun _ => rfl
        · rw [h₃.type n h₂.range.1 h₂.range.2, h₂.type_eq]
          exact hreads₃
        · have hlength := h₃.length
          have hrange := h₂.range
          omega
      · rename_i hclassid
        split
        · rename_i hboundary
          have htype : escapedType isclass t = .WB := by
            rw [escapedType, if_neg hcontrol, if_neg hclassid, if_pos hboundary]
          rw [htype] at h₁
          have hescapes : pattern.length - 1 ∈ s₁.escapes → hit = true := h₁.escapes
          refine (adds_newnode .WB hescapes).bind fun n s₂ h₂ =>
            (builds_setNode ?_ ?_).bind fun _ s₃ h₃ => ?_
          · exact fun _ => rfl
          · rw [h₂.builds.escapes]
            exact hescapes
          have hbuilds := h₂.builds.trans h₃
          refine Outcome.afterOk rfl (outcome_pure ⟨?_, ?_⟩)
          · change Reads pattern hit (next (nodeAt s₃.nodes n).type) depth { s₃ with p := s₃.p + 1 }
            rw [h₃.type n h₂.range.1 h₂.range.2, h₂.type_eq]
            exact h₁.builds ⟨hbuilds.pattern, congrArg (· + 1) hbuilds.p, hbuilds.escapes,
              hbuilds.length, hbuilds.type⟩
          · have hlength := h₃.length
            have hrange := h₂.range
            change 0 ≤ n ∧ n < s₃.nodes.length
            omega
        · rename_i hboundary
          refine hleaf ?_
          rw [escapedType, if_neg hcontrol, if_neg hclassid, if_neg hboundary]
  · rename_i hescape
    rw [if_neg hescape] at hchar
    refine hc.pass (fun hprint => hchar.trans (if_neg hprint)) fun hprint => ?_
    have hon := hchar.trans (if_pos (not_not.mp hprint))
    refine hc.step hon fun s₁ h₁ hnodes => ?_
    refine (adds_newnode _ h₁.escapes).mono fun n s₂ h₂ => ⟨?_, h₂.range⟩
    rw [h₂.type_eq]
    exact h₁.builds h₂.builds

private theorem reads_escapechar {c : Char} (h : Next pattern hit place depth c s)
    (hread : place.read depth c = readRangeEnd depth c) :
    Outcome s escapechar (fun _ s' => Reads pattern hit (.inClass none) depth s')
      (Misses pattern hit) := by
  unfold readRangeEnd at hread
  refine Outcome.afterOk h.peek ?_
  split
  · rename_i hescape
    rw [if_pos hescape] at hread
    exact h.escape hread fun t s₁ _ _ h₁ => h₁
  · rename_i hescape
    rw [if_neg hescape] at hread
    refine h.pass (fun hprint => hread.trans (if_neg hprint)) fun hprint => ?_
    exact h.on (hread.trans (if_pos (not_not.mp hprint)))

/-- The place in a class, by the node of its last character -/
def placeInClass (nodes : List SQRexNode) (first : ℤ) : Place :=
  .inClass (if first = -1 then none else some (nodeAt nodes first).type)

private theorem reads_classLoop {fuel : ℕ} {first chain : ℤ}
    (h : Reads pattern hit (placeInClass s.nodes first) depth s)
    (hfirst : first ≠ -1 → 0 ≤ first ∧ first < s.nodes.length) :
    Outcome s (classLoop fuel first chain) (fun _ s' => Reads pattern hit .classEnd depth s')
      (Misses pattern hit) := by
  induction fuel generalizing s first chain with
  | zero => trivial
  | succ fuel ih =>
    have hnext : ∀ {s₁ : SQRex} {n chain : ℤ},
        Reads pattern hit (.inClass (some (nodeAt s₁.nodes n).type)) depth s₁ ∧ 0 ≤ n ∧
          n < s₁.nodes.length →
        Outcome s₁ (classLoop fuel n chain) (fun _ s' => Reads pattern hit .classEnd depth s')
          (Misses pattern hit) := by
      intro s₁ n chain h₁
      refine ih ?_ fun _ => h₁.2
      rw [placeInClass, if_neg (by omega)]
      exact h₁.1
    rw [classLoop]
    refine h.peek fun c hc => ?_
    split
    · rename_i hend
      refine outcome_pure (hc.congr ?_).reads
      rw [hend]
      rfl
    · rename_i hend
      split
      · rename_i hrange
        have htype : placeInClass s.nodes first = .inClass (some (nodeAt s.nodes first).type) := by
          rw [placeInClass, if_neg hrange.2]
        rw [htype] at hc
        have hread : (Place.inClass (some (nodeAt s.nodes first).type)).read depth c =
            .on (.range (nodeAt s.nodes first).type) depth := by
          rw [hrange.1]
          rfl
        refine hc.step hread fun s₁ h₁ hnodes => ?_
        rw [errorIf, if_neg hend]
        refine h₁.newnode fun r s₂ h₂ hreads₂ => outcome_readType hreads₂.escapes ?_
        have hsame : (nodeAt s₂.nodes first).type = (nodeAt s.nodes first).type := by
          have hinside := hfirst hrange.2
          rw [h₂.builds.type first hinside.1 (by rw [hnodes]; exact hinside.2), hnodes]
        rw [hsame]
        generalize (nodeAt s.nodes first).type = type at hreads₂
        refine hreads₂.peek fun d hd => hd.pass (fun hwrong => if_pos (.inl hwrong)) fun horder => ?_
        refine hd.pass (fun hwrong => if_pos (.inr hwrong)) fun hclass => ?_
        have hread₂ : (Place.range type).read depth d = readRangeEnd depth d :=
          if_neg fun hwrong => hwrong.elim horder hclass
        refine (builds_setNode ?_ hreads₂.escapes).bind fun _ s₃ h₃ => ?_
        · exact fun _ => rfl
        refine (reads_escapechar (hd.builds h₃) hread₂).bind fun t s₄ h₄ => ?_
        refine h₄.setNode ?_ fun s₅ _ h₅ => h₅.setNode ?_ fun s₆ _ h₆ => ih ?_ ?_
        · exact fun _ => rfl
        · exact fun _ => rfl
        · exact h₆
        · exact fun hne => absurd rfl hne
      · rename_i hrange
        have hread : ∀ {s₁ : SQRex}, Builds s s₁ → ∀ d,
            Next pattern hit (placeInClass s.nodes first) depth d s₁ →
            (placeInClass s.nodes first).read depth d =
              readCharacter true (fun type => .inClass (some type)) depth d := by
          intro s₁ h₁ d hd
          rw [hd.eq (hc.builds h₁)]
          refine (if_neg hend).trans ?_
          by_cases hne : first = -1
          · rw [if_pos hne]
          · rw [if_neg hne]
            exact if_neg fun hminus => hrange ⟨hminus, hne⟩
        split
        · refine h.setNode ?_ fun s₁ h₁ hreads₁ => ?_
          · exact fun _ => rfl
          exact (reads_charnode hreads₁ (hread h₁)).bind fun n s₂ h₂ => hnext h₂
        · exact (reads_charnode h (hread ⟨rfl, rfl, rfl, le_rfl, fun _ _ _ => rfl⟩)).bind
            fun n s₁ h₁ => hnext h₁

private theorem reads_rexClass (h : Reads pattern hit .classStart depth s) :
    Outcome s rexClass (fun _ s' => Reads pattern hit .classEnd depth s')
      (Misses pattern hit) := by
  refine h.peek fun c hc => ?_
  extract_lets rest
  have hrest : ∀ (ret : ℤ) (s₁ : SQRex), Reads pattern hit .classFirst depth s₁ →
      Outcome s₁ (rest ret) (fun _ s' => Reads pattern hit .classEnd depth s')
        (Misses pattern hit) := by
    intro ret s₁ h₁
    refine h₁.peek fun d hd => hd.pass (fun hwrong => if_pos hwrong) fun hempty => ?_
    refine outcome_getBind ?_
    have hloop : Next pattern hit (placeInClass s₁.nodes (-1)) depth d s₁ :=
      hd.congr (if_neg hempty)
    refine (reads_classLoop hloop.reads fun hne => absurd rfl hne).bind fun res s₂ h₂ => ?_
    obtain ⟨first, chain⟩ := res
    dsimp only
    split
    · refine h₂.setNode ?_ fun s₃ _ h₃ => h₃.setNode ?_ fun s₄ _ h₄ => outcome_pure h₄
      · exact fun _ => rfl
      · exact fun _ => rfl
    · refine h₂.setNode ?_ fun s₃ _ h₃ => outcome_pure h₃
      exact fun _ => rfl
  split
  · rename_i hnot
    refine (adds_newnode .NCLASS h.escapes).bind fun ret s₁ h₁ => ?_
    have hread : Place.read .classStart depth c = .on .classFirst depth := if_pos hnot
    refine (hc.builds h₁.builds).step hread fun s₂ h₂ _ => hrest ret s₂ h₂
  · rename_i hnot
    have hfirst : Next pattern hit .classFirst depth c s := hc.congr (if_neg hnot)
    exact hfirst.reads.newnode fun ret s₁ _ h₁ => hrest ret s₁ h₁

/-! ### Counts -/

theorem reads_expect {n : Char} (h : Reads pattern hit place depth s)
    (hon : place.read depth n = .on place' depth')
    (hmistake : ∀ c, c ≠ n → place.read depth c = .mistake) :
    Outcome s (expect n) (fun _ s' => Reads pattern hit place' depth' s') (Misses pattern hit) := by
  refine h.peek fun c hc => hc.pass (hmistake c) fun heq => ?_
  rw [not_not] at heq
  subst heq
  exact hc.on hon

private theorem reads_numberLoop {fuel ret positions : ℕ} {last : Bool}
    (h : Reads pattern hit (.number positions last) depth s) :
    Outcome s (numberLoop fuel ret positions)
      (fun _ s' => Reads pattern hit (.bounded last) depth s') (Misses pattern hit) := by
  induction fuel generalizing s ret positions with
  | zero => trivial
  | succ fuel ih =>
    rw [numberLoop]
    refine h.peek fun c hc => ?_
    split
    · rename_i hdigit
      by_cases hmany : positions = 1000000000
      · have hread : (Place.number positions last).read depth c = .mistake :=
          (if_pos hdigit).trans (if_pos hmany)
        have herr : errorIf (positions = 1000000000) "overflow in numeric constant"
            { s with p := s.p + 1 } = .error (.raised (.error "overflow in numeric constant"))
              { s with p := s.p + 1 } := by
          rw [errorIf, if_pos hmany]
          rfl
        exact Outcome.afterOk rfl (Outcome.afterError herr (hc.mistake hread))
      · have hread : (Place.number positions last).read depth c =
            .on (.number (positions * 10) last) depth :=
          (if_pos hdigit).trans (if_neg hmany)
        refine hc.step hread fun s₁ h₁ _ => ?_
        rw [errorIf, if_neg hmany]
        exact ih h₁
    · rename_i hdigit
      have hbounded : Next pattern hit (.bounded last) depth c s := hc.congr (if_neg hdigit)
      exact outcome_pure hbounded.reads

/-- The first digit is next. -/
theorem reads_parsenumber {c : Char} {last : Bool} (h : Next pattern hit place depth c s)
    (hread : place.read depth c = .on (.number 10 last) depth) :
    Outcome s parsenumber (fun _ s' => Reads pattern hit (.bounded last) depth s')
      (Misses pattern hit) := by
  refine Outcome.afterOk h.peek (h.step hread fun s₁ h₁ _ => outcome_getBind ?_)
  exact reads_numberLoop h₁

/-- The brace that ends counts -/
theorem reads_expect_brace (h : Reads pattern hit (.bounded true) depth s) :
    Outcome s (expect '}') (fun _ s' => Reads pattern hit .afterCounts depth s')
      (Misses pattern hit) := by
  refine reads_expect h rfl fun c hne => ?_
  exact (if_neg hne).trans (if_neg fun hcomma => hcomma.2 rfl)

private theorem reads_counts (h : Reads pattern hit .afterAtom depth s) :
    Outcome s counts (fun _ s' => Reads pattern hit .afterCounts depth s') (Misses pattern hit) := by
  refine h.peek fun c hc => ?_
  split
  · exact hc.on rfl
  · exact hc.on rfl
  · exact hc.on rfl
  · have hbrace : Place.read .afterAtom depth '{' = .on .brace depth := rfl
    refine hc.step hbrace fun s₁ h₁ _ => h₁.peek fun d hd => ?_
    refine hd.pass (fun hdigit => if_neg hdigit) fun hdigit => ?_
    refine (reads_parsenumber hd (if_pos (not_not.mp hdigit))).bind fun p0 s₂ h₂ => ?_
    refine h₂.peek fun e he => ?_
    split
    · exact he.on rfl
    · have hcomma : (Place.bounded false).read depth ',' = .on .comma depth := rfl
      refine he.step hcomma fun s₃ h₃ _ => h₃.peek fun e he => ?_
      split
      · rename_i hdigit₃
        refine (reads_parsenumber he (if_pos hdigit₃)).bind fun p1 s₄ h₄ => ?_
        exact (reads_expect_brace h₄).bind fun _ s₅ h₅ => outcome_pure h₅
      · rename_i hdigit₃
        have hread : Place.read .comma depth e = (Place.bounded true).read depth e := by
          refine (if_neg hdigit₃).trans (if_congr Iff.rfl rfl ?_)
          exact (if_neg fun hcomma => hcomma.2 rfl).symm
        exact (reads_expect_brace (he.congr hread).reads).bind fun _ s₄ h₄ => outcome_pure h₄
    · rename_i hbrace hcomma
      refine he.mistake ((if_neg hbrace).trans (if_neg fun h => hcomma h.1))
  · rename_i hstar hplus hmark hbrace
    refine outcome_pure (hc.congr ?_).reads
    exact (if_neg fun h => h.elim hstar fun h => h.elim hplus hmark).trans (if_neg hbrace)

/-! ### Elements and lists -/

private theorem reads_greedy {ret : ℤ} (h : Reads pattern hit .afterAtom depth s) :
    Outcome s (greedy ret) (fun _ s' => Reads pattern hit .afterCounts depth s')
      (Misses pattern hit) := by
  refine (reads_counts h).bind fun res s₁ h₁ => ?_
  cases res with
  | none => exact outcome_pure h₁
  | some bounds =>
    refine h₁.newnode fun n s₂ _ h₂ => h₂.setNode ?_ fun s₃ _ h₃ => outcome_pure h₃
    exact fun _ => rfl

private theorem reads_atom {list : Compiler ℤ} (h : Reads pattern hit .element depth s)
    (hlist : ∀ s, Reads pattern hit .list (depth + 1) s →
      Outcome s list (fun _ s' => Reads pattern hit .closed (depth + 1) s')
        (Misses pattern hit)) :
    Outcome s (atom list) (fun _ s' => Reads pattern hit .afterAtom depth s')
      (Misses pattern hit) := by
  refine h.peek fun c hc => ?_
  split
  · have hgroup : Place.read .element depth '(' = .on .group (depth + 1) := rfl
    refine hc.step hgroup fun s₁ h₁ _ => h₁.peek fun d hd => ?_
    extract_lets rest
    have hrest : ∀ (expr : ℤ) (s₂ : SQRex), Reads pattern hit .list (depth + 1) s₂ →
        Outcome s₂ (rest expr) (fun _ s' => Reads pattern hit .afterAtom depth s')
          (Misses pattern hit) := by
      intro expr s₂ h₂
      refine (hlist s₂ h₂).bind fun newn s₃ h₃ => h₃.setNode ?_ fun s₄ _ h₄ => ?_
      · exact fun _ => rfl
      · have hclose : Place.read .closed (depth + 1) ')' = .on .afterAtom depth :=
          rfl
        refine (reads_expect h₄ hclose fun c hne => ?_).bind fun _ s₅ h₅ => outcome_pure h₅
        exact if_neg fun h => hne h.1
    split
    · rename_i hmark
      have hcolon : Place.read .group (depth + 1) d = .on .colon (depth + 1) := if_pos hmark
      refine hd.step hcolon fun s₂ h₂ _ => ?_
      refine (reads_expect h₂ rfl fun c hne => if_neg hne).bind fun _ s₃ h₃ => ?_
      exact h₃.newnode fun expr s₄ _ h₄ => hrest expr s₄ h₄
    · rename_i hmark
      have hlist : Next pattern hit .list (depth + 1) d s₁ := hd.congr (if_neg hmark)
      exact hlist.reads.newnode fun expr s₂ _ h₂ => hrest expr s₂ h₂
  · have hclass : Place.read .element depth '[' = .on .classStart depth := rfl
    refine hc.step hclass fun s₁ h₁ _ => (reads_rexClass h₁).bind fun ret s₂ h₂ => ?_
    exact (reads_expect h₂ rfl fun c hne => if_neg hne).bind fun _ s₃ h₃ => outcome_pure h₃
  · have hatom : Place.read .element depth '$' = .on .afterAtom depth := rfl
    refine hc.step hatom fun s₁ h₁ _ => (adds_newnode _ h₁.escapes).mono fun n s₂ h₂ => ?_
    exact h₁.builds h₂.builds
  · have hatom : Place.read .element depth '.' = .on .afterAtom depth := rfl
    refine hc.step hatom fun s₁ h₁ _ => (adds_newnode _ h₁.escapes).mono fun n s₂ h₂ => ?_
    exact h₁.builds h₂.builds
  · rename_i hparen hbracket hdollar hdot
    have hread : ∀ d, Next pattern hit .element depth d s →
        Place.read .element depth d = readCharacter false (fun _ => .afterAtom) depth d := by
      intro d hd
      rw [hd.eq hc]
      exact (if_neg hparen).trans ((if_neg hbracket).trans (if_neg fun h => h.elim hdollar hdot))
    exact (reads_charnode h hread).mono fun n s₁ h₁ => h₁.1

private theorem reads_element_list (fuel : ℕ) :
    (∀ depth s, Reads pattern hit .element depth s →
      Outcome s (element fuel) (fun _ s' => Reads pattern hit .ended depth s')
        (Misses pattern hit)) ∧
    (∀ depth s, Reads pattern hit .list depth s →
      Outcome s (list fuel) (fun _ s' => Reads pattern hit .closed depth s')
        (Misses pattern hit)) := by
  induction fuel with
  | zero => exact ⟨fun _ _ _ => trivial, fun _ _ _ => trivial⟩
  | succ fuel ih =>
    obtain ⟨ihElement, ihList⟩ := ih
    refine ⟨fun depth s h => ?_, fun depth s h => ?_⟩
    · rw [element]
      refine (reads_atom h fun s₁ h₁ => ihList _ s₁ h₁).bind fun ret s₁ h₁ => ?_
      refine (reads_greedy h₁).bind fun ret s₂ h₂ => h₂.peek fun c hc => ?_
      split
      · rename_i hnext
        have helement : Next pattern hit .element depth c s₂ := hc.congr (if_pos hnext)
        refine (ihElement _ s₂ helement.reads).bind fun nnode s₃ h₃ => ?_
        refine h₃.setNode ?_ fun s₄ _ h₄ => outcome_pure h₄
        exact fun _ => rfl
      · rename_i hnext
        have hended : Next pattern hit .ended depth c s₂ := hc.congr (if_neg hnext)
        exact outcome_pure hended.reads
    · rw [list]
      refine h.peek fun c hc => ?_
      extract_lets last rest
      have hrest : ∀ (ret : ℤ) (s₁ : SQRex), Reads pattern hit .element depth s₁ →
          Outcome s₁ (rest ret) (fun _ s' => Reads pattern hit .closed depth s')
            (Misses pattern hit) := by
        intro ret s₁ h₁
        have hend : ∀ (ret : ℤ) (s₂ : SQRex), Reads pattern hit .ended depth s₂ →
            Outcome s₂ (do
              if (← SQRex.peek) = '|' then
                SQRex.advance
                let temp ← SQRex.newnode .OR
                SQRex.setNode temp fun n => { n with left := ret }
                let tright ← list fuel
                SQRex.setNode temp fun n => { n with right := tright }
                return temp
              else return ret) (fun _ s' => Reads pattern hit .closed depth s')
              (Misses pattern hit) := by
          intro ret s₂ h₂
          refine h₂.peek fun d hd => ?_
          split
          · rename_i hbar
            have hread : Place.read .ended depth d = .on .list depth := if_pos hbar
            refine hd.step hread fun s₃ h₃ _ => h₃.newnode fun temp s₄ _ h₄ => ?_
            refine h₄.setNode ?_ fun s₅ _ h₅ => (ihList _ s₅ h₅).bind fun tright s₆ h₆ => ?_
            · exact fun _ => rfl
            · refine h₆.setNode ?_ fun s₇ _ h₇ => outcome_pure h₇
              exact fun _ => rfl
          · rename_i hbar
            have hclosed : Next pattern hit .closed depth d s₂ := hd.congr (if_neg hbar)
            exact outcome_pure hclosed.reads
        refine (ihElement _ s₁ h₁).bind fun e s₂ h₂ => ?_
        split
        · refine h₂.setNode ?_ fun s₃ _ h₃ => hend _ s₃ h₃
          exact fun _ => rfl
        · exact hend _ s₂ h₂
      split
      · rename_i hbol
        have hread : Place.read .list depth c = .on .element depth := if_pos hbol
        refine hc.step hread fun s₁ h₁ _ => ?_
        exact h₁.newnode fun bol s₂ _ h₂ => hrest bol s₂ h₂
      · rename_i hbol
        have helement : Next pattern hit .element depth c s := hc.congr (if_neg hbol)
        exact hrest _ s helement.reads

/-- A compilation that has a result, or finds a mistake, is of a pattern that is not hit. -/
theorem reads_compileBody (h : Reads pattern hit .list 0 s) :
    Outcome s compileBody (fun _ _ => hit = false) (Misses pattern hit) := by
  refine h.newnode fun first s₁ _ h₁ => outcome_getBind ?_
  refine ((reads_element_list _).2 0 s₁ h₁).bind fun res s₂ h₂ => h₂.setNode ?_ fun s₃ _ h₃ => ?_
  · exact fun _ => rfl
  · refine h₃.peek fun c hc => ?_
    have hmistake : hit = false := hc.mistake (if_neg fun h => h.2 rfl)
    exact hc.pass (fun _ => if_neg fun h => h.2 rfl) fun _ => outcome_pure hmistake

end Reading

end Squirt.SQRex
