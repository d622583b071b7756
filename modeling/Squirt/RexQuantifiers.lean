import Squirt.RexCounts

/-!
# Quantified characters

The compilation of a character with a quantifier, from the text of the pattern on, and how many
copies of the character such an expression matches.
-/

namespace Squirt.Rex

open Programs Programs.Program RegularPatterns SQRex

/-! ## Quantifiers and their texts -/

inductive Quantifier
  | star
  | plus
  | optional
  /-- `{n}` -/
  | exactly (n : ℕ)
  /-- `{n,}` -/
  | atLeast (n : ℕ)
  /-- `{n,m}` -/
  | between (n m : ℕ)

namespace Quantifier

def digits (n : ℕ) : List Char := Nat.toDigits 10 n

def text : Quantifier → List Char
  | star => ['*']
  | plus => ['+']
  | optional => ['?']
  | exactly n => '{' :: digits n ++ ['}']
  | atLeast n => '{' :: digits n ++ [',', '}']
  | between n m => '{' :: digits n ++ ',' :: digits m ++ ['}']

/-- The numbers have at most nine digits. -/
def Short : Quantifier → Prop
  | star | plus | optional => True
  | exactly n | atLeast n => n < 10 ^ 9
  | between n m => n < 10 ^ 9 ∧ m < 10 ^ 9

/-- What is stored of a quantifier: numbers are cut to 16 bits. -/
def bounds : Quantifier → ℕ × ℕ
  | star => (0, 0xFFFF)
  | plus => (1, 0xFFFF)
  | optional => (0, 1)
  | exactly n => (ushort n, ushort n)
  | atLeast n => (ushort n, 0xFFFF)
  | between n m => (ushort n, ushort m)

end Quantifier

/-! ## Compilation of one element -/

/-- Where a compilation is: before the rest of the pattern, with some nodes -/
structure Before (rest : List Char) (nodes : List SQRexNode) (s : SQRex) : Prop where
  place : s.p ≤ s.pattern.length
  rest : s.pattern.drop s.p = rest
  nodes : s.nodes = nodes
  room : 0 < s.nallocated ∧ s.nodes.length ≤ s.nallocated

section Steps

variable {rest : List Char} {nodes : List SQRexNode} {s : SQRex} {c d : Char} {m : ℕ}

private theorem Before.peek_cons (h : Before (c :: rest) nodes s) : peek s = .ok c s := by
  have hget : s.pattern[s.p]? = some c := by
    rw [← List.head?_drop, h.rest]
    rfl
  have hlt := (List.getElem?_eq_some_iff.mp hget).1
  refine (bind_ok rfl).trans ((congrFun (if_pos hlt) s).trans ?_)
  rw [List.getD_eq_getElem?_getD, hget]
  rfl

private theorem Before.peek_nil (h : Before [] nodes s) : peek s = .ok NUL s := by
  have hle := List.drop_eq_nil_iff.mp h.rest
  have heq : s.p = s.pattern.length := le_antisymm h.place hle
  refine (bind_ok rfl).trans ?_
  rw [if_neg (by omega), if_pos heq]
  rfl

/-- The program looks at the next character. -/
theorem Before.peeks (h : Before (c :: rest) nodes s) {α : Type} {f : Char → Compiler α}
    {Q : α → SQRex → Prop} (hf : Yields s (f c) Q) : Yields s (peek >>= f) Q := by
  obtain ⟨a, s', hrun, hq⟩ := hf
  exact ⟨a, s', (bind_ok h.peek_cons).trans hrun, hq⟩

theorem Before.peeksEnd (h : Before [] nodes s) {α : Type} {f : Char → Compiler α}
    {Q : α → SQRex → Prop} (hf : Yields s (f NUL) Q) : Yields s (peek >>= f) Q := by
  obtain ⟨a, s', hrun, hq⟩ := hf
  exact ⟨a, s', (bind_ok h.peek_nil).trans hrun, hq⟩

theorem Before.advance (h : Before (c :: rest) nodes s) :
    Yields s advance fun _ => Before rest nodes := by
  have hlt : s.p < s.pattern.length := by
    by_contra hge
    have hnil := List.drop_eq_nil_iff.mpr (not_lt.mp hge)
    rw [h.rest] at hnil
    cases hnil
  refine ⟨⟨⟩, _, rfl, hlt, ?_, h.nodes, h.room⟩
  change s.pattern.drop (s.p + 1) = rest
  rw [← List.tail_drop, h.rest, List.tail_cons]

theorem Before.newnode (h : Before rest nodes s) (type : SQRexNodeType) :
    Yields s (newnode type) fun n s' => n = nodes.length ∧
      Before rest (nodes ++ [⟨type, -1, if type = .EXPR then s.nsubexpr else -1, -1⟩]) s' := by
  obtain ⟨hplace, hrest, hnodes, hroom⟩ := h
  subst hnodes
  have hfits : ¬(if s.nallocated < s.nodes.length + 1 then s.nallocated * 2 else s.nallocated) ≤
      s.nodes.length := by
    split <;> omega
  refine ⟨s.nodes.length, { s with
      nodes := s.nodes ++ [⟨type, -1, if type = .EXPR then s.nsubexpr else -1, -1⟩]
      nsubexpr := if type = .EXPR then s.nsubexpr + 1 else s.nsubexpr
      nallocated :=
        if s.nallocated < s.nodes.length + 1 then s.nallocated * 2 else s.nallocated },
    (bind_ok rfl).trans ((bind_ok rfl).trans ?_), rfl, hplace, hrest, rfl, ?_⟩
  · rw [if_neg hfits]
    rfl
  · simp only [List.length_append, List.length_singleton]
    split <;> omega

theorem Before.setNode (h : Before rest nodes s) {n : ℕ} (hn : n < nodes.length)
    (f : SQRexNode → SQRexNode) :
    Yields s (setNode n f) fun _ => Before rest (nodes.modify n f) := by
  obtain ⟨hplace, hrest, hnodes, hroom⟩ := h
  subst hnodes
  refine ⟨⟨⟩, _, setNode_ok f (by omega), hplace, hrest, ?_, ?_⟩
  · rw [withNode, Int.toNat_natCast]
  · simpa [withNode] using hroom

theorem Before.expect (h : Before (c :: rest) nodes s) :
    Yields s (expect c) fun _ => Before rest nodes := by
  rw [SQRex.expect]
  apply h.peeks
  have hpass : errorIf (c ≠ c) "expected paren" = (pure ⟨⟩ : Compiler Unit) := if_neg (by simp)
  rw [hpass, pure_bind]
  exact h.advance

/-! ### Numbers -/

/-- The rest of a number is read; it may have nine digits in all. -/
theorem Before.numberLoop {ds : List Char} {fuel ret k : ℕ} (hds : ∀ d ∈ ds, d.isDigit = true)
    (hc : c.isDigit = false) (h : Before (ds ++ c :: rest) nodes s) (hfuel : ds.length < fuel)
    (hk : k + ds.length ≤ 9) (hk₀ : 0 < k) :
    Yields s (numberLoop fuel ret (10 ^ k)) fun n s' =>
      n = ds.foldl (fun n d => n * 10 + digitValue d) ret ∧ Before (c :: rest) nodes s' := by
  induction ds generalizing fuel ret k s with
  | nil =>
    obtain ⟨fuel, rfl⟩ : ∃ f, fuel = f + 1 := ⟨fuel - 1, by omega⟩
    rw [SQRex.numberLoop]
    apply h.peeks
    rw [if_neg (by simp [hc])]
    exact yields_pure ⟨rfl, h⟩
  | cons d ds ih =>
    simp only [List.length_cons] at hfuel hk
    obtain ⟨fuel, rfl⟩ : ∃ f, fuel = f + 1 := ⟨fuel - 1, by omega⟩
    rw [SQRex.numberLoop]
    apply h.peeks
    rw [if_pos (hds d List.mem_cons_self)]
    refine h.advance.bind fun _ s₁ h₁ => ?_
    have hsmall : (10 ^ k : ℕ) ≠ 1000000000 := by
      have hlt : (10 : ℕ) ^ k < 10 ^ 9 := Nat.pow_lt_pow_right (by decide) (by omega)
      omega
    have hpass : errorIf ((10 ^ k : ℕ) = 1000000000) "overflow in numeric constant" =
        (pure ⟨⟩ : Compiler Unit) := if_neg hsmall
    rw [hpass, pure_bind, ← pow_succ]
    exact ih (fun d hd => hds d (List.mem_cons_of_mem _ hd)) h₁ (by omega) (by omega) (by omega)

theorem Before.parsenumber (hc : c.isDigit = false) (hn : m < 10 ^ 9)
    (h : Before (Quantifier.digits m ++ c :: rest) nodes s) :
    Yields s parsenumber fun n s' => n = m ∧ Before (c :: rest) nodes s' := by
  have hdigits : ∀ d ∈ Quantifier.digits m, d.isDigit = true := fun d hd =>
    Nat.isDigit_of_mem_toDigits (by decide) le_rfl hd
  have hlength : (Quantifier.digits m).length ≤ 9 :=
    (Nat.length_toDigits_le_iff (by decide) (by decide)).mpr hn
  have hvalue : (Quantifier.digits m).foldl (fun n d => n * 10 + digitValue d) 0 = m := by
    refine Eq.trans ?_ Nat.ofDigitChars_ten_toDigits
    rw [Nat.ofDigitChars_eq_foldl]
    apply List.foldl_ext
    intro n d hd
    rw [digitValue, if_pos (hdigits d hd), Nat.mul_comm]
  have hne : Quantifier.digits m ≠ [] := Nat.toDigits_ne_nil
  generalize Quantifier.digits m = ds at *
  cases ds with
  | nil => exact absurd rfl hne
  | cons d ds =>
    rw [SQRex.parsenumber]
    apply h.peeks
    refine h.advance.bind fun _ s₁ h₁ => ?_
    have hdrop := congrArg List.length h₁.rest
    simp only [List.length_drop, List.length_append, List.length_cons, List.append_eq] at hdrop
    simp only [List.length_cons] at hlength
    have hnumber : Yields s₁ (SQRex.numberLoop (s₁.pattern.length + 1) (digitValue d) (10 ^ 1))
        fun n s' => n = ds.foldl (fun n d => n * 10 + digitValue d) (digitValue d) ∧
          Before (c :: rest) nodes s' :=
      Before.numberLoop (fun d hd => hdigits d (List.mem_cons_of_mem _ hd)) hc h₁ (by omega)
        (by omega) (by decide)
    refine hnumber.mono fun n s₂ hn => ⟨hn.1.trans ?_, hn.2⟩
    rw [← hvalue, List.foldl_cons, Nat.zero_mul, Nat.zero_add]

/-- A number begins with a digit. -/
theorem Before.peeksDigit (h : Before (Quantifier.digits m ++ rest) nodes s) {α : Type}
    {f : Char → Compiler α} {Q : α → SQRex → Prop}
    (hf : ∀ d, d.isDigit = true → Yields s (f d) Q) : Yields s (SQRex.peek >>= f) Q := by
  cases hdigits : Quantifier.digits m with
  | nil => exact absurd hdigits Nat.toDigits_ne_nil
  | cons d ds =>
    rw [hdigits] at h
    have hmem : d ∈ Nat.toDigits 10 m := by
      rw [← Quantifier.digits, hdigits]
      exact List.mem_cons_self
    exact h.peeks (hf d (Nat.isDigit_of_mem_toDigits (by decide) le_rfl hmem))

/-- A quantifier is read to its bounds. -/
theorem Before.counts (q : Quantifier) (hq : q.Short) (h : Before q.text nodes s) :
    Yields s counts fun res s' => res = some q.bounds ∧ Before [] nodes s' := by
  have hpass : ∀ {d : Char}, d.isDigit = true →
      errorIf (¬d.isDigit = true) "number expected" = (pure ⟨⟩ : Compiler Unit) :=
    fun hd => if_neg (not_not.mpr hd)
  rw [SQRex.counts]
  cases q with
  | star | plus | optional =>
    apply h.peeks
    exact h.advance.bind fun _ s₁ h₁ => yields_pure ⟨rfl, h₁⟩
  | exactly n =>
    apply h.peeks
    refine h.advance.bind fun _ s₁ h₁ => h₁.peeksDigit fun d hd => ?_
    rw [hpass hd, pure_bind]
    refine (Before.parsenumber (by decide) hq h₁).bind fun p0 s₂ h₂ => ?_
    obtain ⟨rfl, h₂⟩ := h₂
    apply h₂.peeks
    exact h₂.advance.bind fun _ s₃ h₃ => yields_pure ⟨rfl, h₃⟩
  | atLeast n =>
    apply h.peeks
    refine h.advance.bind fun _ s₁ h₁ => h₁.peeksDigit fun d hd => ?_
    rw [hpass hd, pure_bind]
    refine (Before.parsenumber (by decide) hq h₁).bind fun p0 s₂ h₂ => ?_
    obtain ⟨rfl, h₂⟩ := h₂
    apply h₂.peeks
    refine h₂.advance.bind fun _ s₃ h₃ => ?_
    apply h₃.peeks
    rw [if_neg (by decide)]
    exact h₃.expect.bind fun _ s₄ h₄ => yields_pure ⟨rfl, h₄⟩
  | between n m =>
    have h' : Before ('{' :: (Quantifier.digits n ++ ',' :: (Quantifier.digits m ++ ['}'])))
        nodes s := by
      simpa [Quantifier.text] using h
    apply h'.peeks
    refine h'.advance.bind fun _ s₁ h₁ => h₁.peeksDigit fun d hd => ?_
    rw [hpass hd, pure_bind]
    refine (Before.parsenumber (by decide) hq.1 h₁).bind fun p0 s₂ h₂ => ?_
    obtain ⟨rfl, h₂⟩ := h₂
    apply h₂.peeks
    refine h₂.advance.bind fun _ s₃ h₃ => h₃.peeksDigit fun d hd => ?_
    rw [if_pos hd]
    refine (Before.parsenumber (by decide) hq.2 h₃).bind fun p1 s₄ h₄ => ?_
    obtain ⟨rfl, h₄⟩ := h₄
    exact h₄.expect.bind fun _ s₅ h₅ => yields_pure ⟨rfl, h₅⟩

/-! ### The nodes -/

/-- The character stands for itself in a pattern. -/
def IsLiteral (c : Char) : Prop := isprint c = true ∧ c ∉ ['\\', '(', '[', '$', '.', '^']

theorem IsLiteral.ne (hc : IsLiteral c) :
    c ≠ '\\' ∧ c ≠ '(' ∧ c ≠ '[' ∧ c ≠ '$' ∧ c ≠ '.' ∧ c ≠ '^' := by
  simpa using hc.2

theorem Before.charnode (hc : IsLiteral c) (h : Before (c :: rest) nodes s) :
    Yields s (charnode false) fun n s' => n = nodes.length ∧
      Before rest (nodes ++ [⟨.char c, -1, -1, -1⟩]) s' := by
  have hpass : errorIf (¬isprint c = true) "letter expected" = (pure ⟨⟩ : Compiler Unit) :=
    if_neg (not_not.mpr hc.1)
  rw [SQRex.charnode]
  apply h.peeks
  rw [if_neg hc.ne.1, hpass, pure_bind]
  exact h.advance.bind fun _ s₁ h₁ => h₁.newnode (.char c)

theorem Before.atom {list : Compiler ℤ} (hc : IsLiteral c) (h : Before (c :: rest) nodes s) :
    Yields s (atom list) fun n s' => n = nodes.length ∧
      Before rest (nodes ++ [⟨.char c, -1, -1, -1⟩]) s' := by
  obtain ⟨-, hparen, hclass, heol, hdot, -⟩ := hc.ne
  rw [SQRex.atom]
  apply h.peeks
  split
  · contradiction
  · contradiction
  · contradiction
  · contradiction
  · exact h.charnode hc

theorem modify_concat (node : SQRexNode) (f : SQRexNode → SQRexNode) :
    (nodes ++ [node]).modify nodes.length f = nodes ++ [f node] := by
  rw [List.modify_eq_take_cons_drop (by simp)]
  simp

theorem Before.greedy (q : Quantifier) (hq : q.Short) (h : Before q.text nodes s) (ret : ℤ) :
    Yields s (greedy ret) fun n s' => n = nodes.length ∧
      Before [] (nodes ++ [⟨.GREEDY, ret, packed q.bounds.1 q.bounds.2, -1⟩]) s' := by
  rw [SQRex.greedy]
  refine (Before.counts q hq h).bind fun res s₁ h₁ => ?_
  obtain ⟨rfl, h₁⟩ := h₁
  refine (h₁.newnode .GREEDY).bind fun n s₂ h₂ => ?_
  obtain ⟨rfl, h₂⟩ := h₂
  refine (h₂.setNode (by simp) _).bind fun _ s₃ h₃ => yields_pure ⟨rfl, ?_⟩
  rwa [modify_concat] at h₃

theorem Before.element {fuel : ℕ} (hc : IsLiteral c) (q : Quantifier) (hq : q.Short)
    (h : Before (c :: q.text) nodes s) :
    Yields s (element (fuel + 1)) fun n s' => n = (nodes.length + 1 : ℕ) ∧
      Before [] (nodes ++ [⟨.char c, -1, -1, -1⟩,
        ⟨.GREEDY, nodes.length, packed q.bounds.1 q.bounds.2, -1⟩]) s' := by
  rw [SQRex.element]
  refine (h.atom hc).bind fun n s₁ h₁ => ?_
  obtain ⟨rfl, h₁⟩ := h₁
  refine (h₁.greedy q hq _).bind fun n s₂ h₂ => ?_
  obtain ⟨rfl, h₂⟩ := h₂
  apply h₂.peeksEnd
  rw [if_neg (by decide)]
  exact yields_pure ⟨by simp, by simpa using h₂⟩

theorem Before.list {fuel : ℕ} (hc : IsLiteral c) (q : Quantifier) (hq : q.Short)
    (h : Before (c :: q.text) nodes s) :
    Yields s (list (fuel + 2)) fun n s' => n = (nodes.length + 1 : ℕ) ∧
      Before [] (nodes ++ [⟨.char c, -1, -1, -1⟩,
        ⟨.GREEDY, nodes.length, packed q.bounds.1 q.bounds.2, -1⟩]) s' := by
  rw [SQRex.list]
  apply h.peeks
  rw [if_neg hc.ne.2.2.2.2.2, pure_bind]
  refine (h.element hc q hq).bind fun n s₁ h₁ => ?_
  obtain ⟨rfl, h₁⟩ := h₁
  rw [if_neg (by decide), pure_bind]
  apply h₁.peeksEnd
  rw [if_neg (by decide)]
  exact yields_pure ⟨rfl, h₁⟩

/-- The nodes of a quantified character -/
def quantified (c : Char) (q : Quantifier) (right : ℤ) : List SQRexNode :=
  [⟨.EXPR, 2, right, -1⟩, ⟨.char c, -1, -1, -1⟩,
    ⟨.GREEDY, 1, packed q.bounds.1 q.bounds.2, -1⟩]

theorem Before.compileBody (hc : IsLiteral c) (q : Quantifier) (hq : q.Short)
    (h : Before (c :: q.text) [] s) : Yields s compileBody fun first s' =>
      first = 0 ∧ ∃ right, s'.nodes = quantified c q right := by
  rw [SQRex.compileBody]
  refine (h.newnode .EXPR).bind fun first s₁ h₁ => ?_
  obtain ⟨rfl, h₁⟩ := h₁
  apply yields_getBind
  refine (h₁.list hc q hq).bind fun res s₂ h₂ => ?_
  obtain ⟨rfl, h₂⟩ := h₂
  refine (h₂.setNode (n := 0) (by simp) _).bind fun _ s₃ h₃ => ?_
  have hpass : errorIf (NUL ≠ NUL) "unexpected character" = (pure ⟨⟩ : Compiler Unit) :=
    if_neg (by simp)
  apply h₃.peeksEnd
  rw [hpass, pure_bind]
  refine yields_pure ⟨rfl, if SQRexNodeType.EXPR = .EXPR then s.nsubexpr else -1, ?_⟩
  rw [h₃.nodes, quantified, List.nil_append, List.singleton_append, List.modify_zero_cons]
  simp

end Steps

/-! ## Copies of a character -/

private theorem lowerCount_packed {p0 p1 : ℕ} (h₀ : p0 < 65536) (h₁ : p1 < 65536) (node : SQRexNode)
    (hright : node.right = packed p0 p1) : lowerCount node = p0 ∧ upperCount node = p1 := by
  have hbmod : packed p0 p1 % 4294967296 = (p0 * 65536 + p1 : ℕ) % 4294967296 := Int.bmod_emod
  rw [lowerCount, upperCount, hright]
  generalize packed p0 p1 = right at hbmod
  omega

private theorem bounds_lt (q : Quantifier) : q.bounds.1 < 65536 ∧ q.bounds.2 < 65536 := by
  cases q with
  | star | plus | optional => simp only [Quantifier.bounds]; omega
  | exactly n | atLeast n | between n m => simp only [Quantifier.bounds, ushort]; omega

/-- The pattern of a quantified character repeats the node of the character. -/
theorem standsFor_quantified (c : Char) (q : Quantifier) (right : ℤ) :
    ∃ hi : Option ℕ, hi.getD 0xFFFF = q.bounds.2 ∧
      StandsFor (quantified c q right) false 0
        (.times (.atom ⟨.char c, -1, -1, -1⟩) q.bounds.1 hi) := by
  obtain ⟨h₀, h₁⟩ := bounds_lt q
  have hnode : nodeAt (quantified c q right) 2 =
      ⟨.GREEDY, 1, packed q.bounds.1 q.bounds.2, -1⟩ := rfl
  have hfirst : nodeAt (quantified c q right) 0 = ⟨.EXPR, 2, right, -1⟩ := rfl
  have hright : (nodeAt (quantified c q right) 2).right = packed q.bounds.1 q.bounds.2 := by
    rw [hnode]
  obtain ⟨hlower, hupper⟩ := lowerCount_packed h₀ h₁ _ hright
  have hatom : StandsFor (quantified c q right) false 1 (.atom (nodeAt (quantified c q right) 1)) :=
    .atom (by simp [IsAtom, quantified, nodeAt])
  have hgreedy : StandsFor (quantified c q right) false 2 _ :=
    .greedy (congrArg SQRexNode.type hnode) hatom
  have hlast : StandsFor (quantified c q right) true 2 _ :=
    .last (congrArg SQRexNode.next hnode) hgreedy
  rw [hlower] at hlast
  refine ⟨_, (getD_upperBound _).trans hupper, .group (.inl (congrArg SQRexNode.type hfirst)) ?_⟩
  rw [hfirst]
  exact hlast

private theorem takesSingle_char (hc : IsLiteral c) (nodes : List SQRexNode) :
    TakesSingle nodes ⟨.char c, -1, -1, -1⟩ := by
  refine ⟨by simp, by simp, by simp, fun hnul => ?_⟩
  have hprint := hc.1
  simp only [isprint, Bool.and_eq_true, decide_eq_true_eq] at hprint
  have hcode : schar c = c.toNat := by
    rw [schar, if_pos (by omega), Nat.mod_eq_of_lt (by omega)]
  have hsame : schar NUL = schar c := hnul
  rw [hcode, show schar NUL = 0 from rfl] at hsame
  omega

/-- A text matches a quantified character if it consists of copies of the character, as many as the
bounds of the quantifier allow. -/
theorem rexMatch_quantified {pattern : CString} {c : Char} {q : Quantifier} (hc : IsLiteral c)
    (hq : q.Short) (hpattern : pattern.chars = c :: q.text) :
    ∃ first e, rexCompile pattern = .ok first e ∧ ∀ (t : Text) (m : Matching) (text : ℤ),
      t.str ≤ text → text ≤ t.eol → Yields m (rexMatch e.nodes t text) fun matched _ =>
        (matched = true ↔ (∀ x, text ≤ x → x < t.eol → schar (t.charAt x) = schar c) ∧
          Within q.bounds.1 q.bounds.2 (t.eol - text).toNat) := by
  have hstart : Before (c :: q.text) [] (SQRex.mk pattern.chars 0 [] pattern.chars.length 0 []) :=
    ⟨Nat.zero_le _, hpattern, rfl, by simp [hpattern], Nat.zero_le _⟩
  obtain ⟨first, e, hrun, rfl, right, hnodes⟩ := Before.compileBody hc q hq hstart
  have hcompiles : rexCompile pattern = .ok 0 e := hrun
  have hrooted := Compiled.rooted (compiled_of_ok hcompiles)
  obtain ⟨hi, hhi, hfor⟩ := standsFor_quantified c q right
  have hnext : (nodeAt (quantified c q right) 0).next = -1 := rfl
  rw [← hnodes] at hfor hnext
  refine ⟨0, e, hcompiles, fun t m text h₀ h₁ => ?_⟩
  refine (yields_textEnd m h₀ h₁).bind fun eol s heol => ?_
  obtain rfl := heol.1
  have hends : Ends (do
      let res ← matchnode e.nodes t text t.eol (e.nodes.length + 1) 0 text (-1)
      return decide (res = some t.eol)) :=
    (ends_matchRoot hrooted text).bind fun res => ends_pure _
  have hgives : Gives (do
      let res ← matchnode e.nodes t text t.eol (e.nodes.length + 1) 0 text (-1)
      return decide (res = some t.eol)) fun matched => matched = true ↔
        Repeated e.nodes t text ⟨.char c, -1, -1, -1⟩ q.bounds.1 q.bounds.2 := by
    rw [← hhi]
    refine (gives_matchnode_repetition (takesSingle_char hc e.nodes) h₀ h₁ _ hfor hnext).bind
      fun res hres => gives_pure ?_
    rw [decide_eq_true_iff]
    exact hres
  exact (((ends_modify _).bind fun _ => hends) s).gives (.after fun _ => hgives) |>.mono
    fun _ _ hres => hres.2

/-- The expression `a{2,70000}` -/
def manyLetters : CString := ⟨'a' :: (Quantifier.between 2 70000).text, by decide⟩

/-- The upper number is cut to 4464. -/
theorem rexMatch_quantified_manyLetters :
    ∃ first e, rexCompile manyLetters = .ok first e ∧ ∀ (t : Text) (m : Matching),
      Yields m (rexMatch e.nodes t t.str) fun matched _ =>
        (matched = true ↔ (∀ x, t.str ≤ x → x < t.eol → schar (t.charAt x) = schar 'a') ∧
          Within 2 4464 (t.eol - t.str).toNat) := by
  have hliteral : IsLiteral 'a' := ⟨by decide, by decide⟩
  have hshort : (Quantifier.between 2 70000).Short := by
    rw [Quantifier.Short]
    omega
  have hchars : manyLetters.chars = 'a' :: (Quantifier.between 2 70000).text := rfl
  obtain ⟨first, e, hrun, hmatch⟩ := rexMatch_quantified hliteral hshort hchars
  refine ⟨first, e, hrun, fun t m => hmatch t m t.str le_rfl ?_⟩
  rw [Text.eol]
  omega

end Squirt.Rex
