import Squirt.DefinedTypes

/-!
# The names of collected types

Under which names `CollectDefinedTypes` enters types. The separator between the names is appended
by a caller and again by the call, so that it is doubled from the second name on.
-/

namespace Squirt

variable {hash : String → ℕ}

namespace TypeTables

/-- The names of the enclosing namespaces and classes and the own one, joined by dots -/
def fullName (path : List String) : String := ".".intercalate path

/-- Every type is entered by its full name. -/
def Named (types : TypeTables hash) : Prop :=
  ∀ t key i, Entry types t key i → key = fullName (types.path i)

end TypeTables

namespace SQAstNode

mutual

/-- How many namespaces and classes lie in each other from a node on -/
def nesting : SQAstNode → ℕ
  | node type _ _ _ children =>
    match type with
    | .Document _ | .Namespace _ | .Class _ => nestingChildren children + 1
    | _ => 0

def nestingChildren : List SQAstNode → ℕ
  | [] => 0
  | c :: cs => max (nesting c) (nestingChildren cs)

end

mutual

/-- No document lies in a document. -/
def NoDocument : SQAstNode → Prop
  | node type _ _ _ children =>
    match type with
    | .Document _ => False
    | .Namespace _ | .Class _ => NoDocuments children
    | _ => True

def NoDocuments : List SQAstNode → Prop
  | [] => True
  | c :: cs => NoDocument c ∧ NoDocuments cs

end

end SQAstNode

open SQAstNode

/-- The tables that documents lead to, whether they are collected with success or not -/
inductive TypeTables.Reachable : TypeTables hash → Prop
  | create : Reachable [.create []]
  | collect {types types' : TypeTables hash} {identifier : String} {typetag : SQTypeDesc}
    {opcode : SQCompiler.SQOpcode} {source : Option Expr} {children : List SQAstNode} {ok : Bool}
    (h : Reachable types)
    (hc : (node (.Document identifier) typetag opcode source children).collectDefinedTypes 0 ""
      types = (types', ok)) : Reachable types'

namespace TypeTables

variable {types types' : TypeTables hash} {t u : ℕ} {key identifier childPrefix : String}
  {p : List String}

/-! ## Prefixes -/

/-- The names of a path, a dot behind each -/
def separated (path : List String) : String := if path = [] then "" else fullName path ++ "."

theorem fullName_append (p : List String) (identifier : String) :
    fullName (p ++ [identifier]) = separated p ++ identifier := by
  rw [separated, fullName]
  split_ifs with hp
  · rw [hp, List.nil_append, String.intercalate_singleton, String.empty_append]
  · rw [String.intercalate_append_of_ne_nil hp (List.cons_ne_nil _ _),
      String.intercalate_singleton, fullName]

private theorem separated_append (p : List String) (identifier : String) :
    separated (p ++ [identifier]) = separated p ++ identifier ++ "." := by
  rw [separated, if_neg (List.append_ne_nil_of_right_ne_nil _ (List.cons_ne_nil _ _)),
    fullName_append]

/-- The prefix for what lies in a path: right up to the first name, then too long -/
structure PrefixFor (path : List String) (childPrefix : String) : Prop where
  short : path.length < 2 → childPrefix = separated path
  long : 2 ≤ path.length → (separated path).length < childPrefix.length

theorem PrefixFor.nil : PrefixFor [] "" where
  short _ := rfl
  long h := absurd h (by decide)

theorem PrefixFor.append (h : PrefixFor p childPrefix) (identifier : String) :
    PrefixFor (p ++ [identifier]) (prefixOf childPrefix ++ identifier ++ ".") := by
  have hlen : (p ++ [identifier]).length = p.length + 1 := List.length_append
  have hdot : (".").length = 1 := rfl
  refine ⟨fun hshort => ?_, fun hlong => ?_⟩
  · have hp : p = [] := List.eq_nil_of_length_eq_zero (by omega)
    subst hp
    rw [h.short (by decide)]
    rfl
  · rw [separated_append, String.length_append, String.length_append, String.length_append,
      String.length_append, hdot]
    -- Below the first name the prefix is not empty, and it gets a second dot.
    have hpos : 0 < childPrefix.length := by
      by_cases hp : p.length < 2
      · have hne : p ≠ [] := by
          rintro rfl
          simp at hlong
        rw [h.short hp, separated, if_neg hne, String.length_append, hdot]
        omega
      · have := h.long (by omega)
        omega
    have hle : (separated p).length ≤ childPrefix.length := by
      by_cases hp : p.length < 2
      · rw [h.short hp]
      · exact (h.long (by omega)).le
    rw [prefixOf, if_pos hpos, String.length_append, hdot]
    omega

/-! ## One type -/

/-- The name for a type is the full one just when it lies in at most one other. -/
theorem PrefixFor.name_iff (h : PrefixFor p childPrefix) (identifier : String) :
    childPrefix ++ identifier = fullName (p ++ [identifier]) ↔ p.length < 2 := by
  rw [fullName_append]
  constructor
  · intro heq
    by_contra hlong
    have hlt := h.long (not_lt.mp hlong)
    have hlen := congrArg String.length heq
    rw [String.length_append, String.length_append] at hlen
    omega
  · intro hshort
    rw [h.short hshort]

/-- A wrong name stays where nothing is lost. -/
theorem Named.of_entries (h : Named types') (hk : Kept types types') (hf : Formed types)
    (hentry : ∀ u k i, Entry types u k i → Entry types' u k i) : Named types := by
  intro u k i he
  rw [h u k i (hentry u k i he), hk.path i (hf u k i he)]

private theorem Stored.named_iff (h : Stored types t key p types') (hf : Formed types)
    (habsent : ∀ i, ¬ Entry types t key i) (hn : Named types) :
    Named types' ↔ key = fullName p := by
  constructor
  · intro hn'
    rw [hn' t key types.length ((h.entry _ _ _).mpr (.inl ⟨rfl, rfl, rfl⟩)), h.path_new]
  · rintro rfl u k i he
    obtain ⟨-, rfl, rfl⟩ | ⟨-, hold⟩ := (h.entry u k i).mp he
    · rw [h.path_new]
    · rw [hn u k i hold, h.path_old i (hf u k i hold)]

end TypeTables

namespace SQAstNode

open TypeTables

variable {types types' : TypeTables hash} {t : ℕ} {identifier childPrefix : String}
  {c : SQAstNode} {cs : List SQAstNode}

private theorem nesting_eq (h : definedName c.type = some identifier) :
    c.nesting = nestingChildren c.commonchildren + 1 := by
  obtain ⟨type, typetag, opcode, source, children⟩ := c
  cases type <;> first | rfl | cases h

private theorem nesting_skip (h : definedName c.type = none) : c.nesting = 0 := by
  obtain ⟨type, typetag, opcode, source, children⟩ := c
  cases type <;> first | rfl | cases h

/-- The prefix and the children of a node that is no document -/
theorem NoDocument.child (h : c.NoDocument) (hname : definedName c.type = some identifier)
    (namePrefix : String) : NoDocuments c.commonchildren ∧
      prefixIn namePrefix c.type = prefixOf namePrefix ++ identifier ++ "." := by
  obtain ⟨type, typetag, opcode, source, children⟩ := c
  cases type <;> first | exact h.elim | (cases hname; exact ⟨h, rfl⟩) | cases hname

/-- The names are right as long as no more than two types lie in each other. -/
theorem collectChildren_named (hc : collectChildren t childPrefix cs types = (types', true))
    (ht : t < types.length) (hf : Formed types) (hp : PrefixFor (types.path t) childPrefix)
    (hdocs : NoDocuments cs) (hn : Named types) :
    Named types' ↔ nestingChildren cs ≤ 2 - (types.path t).length := by
  induction cs using children_induction generalizing t childPrefix types types' with
  | nil =>
    cases hc
    exact iff_of_true hn (Nat.zero_le _)
  | cons c cs ihc ih =>
    obtain ⟨hdoc, hdocs⟩ := hdocs
    cases hname : definedName c.type with
    | none =>
      rw [collectChildren_skip hname] at hc
      rw [ih hc ht hf hp hdocs hn, nestingChildren, nesting_skip hname, Nat.zero_max]
    | some identifier =>
      obtain ⟨types₁, types₂, hstored, habsent, hcollect, hrest⟩ := collectChildren_ok hname hc ht
      obtain ⟨hchildren, hpre⟩ := hdoc.child hname childPrefix
      have hlt : types.length < types₁.length := hstored.length ▸ Nat.lt_succ_self _
      have hkept₁ := hstored.kept
      have hkept₂ := collectChildren_kept hcollect hlt
      have ht₁ : t < types₁.length := ht.trans hlt
      have ht₂ : t < types₂.length := ht₁.trans_le hkept₂.length_le
      have hf₁ := hkept₁.formed hf
      have hf₂ := hkept₂.formed hf₁
      have hpath₂ : types₂.path t = types.path t := (hkept₂.path t ht₁).trans (hkept₁.path t ht)
      have hkept₃ := collectChildren_kept hrest ht₂
      have hentries₃ := collectChildren_entries hrest ht₂
      have hnamed₁ : Named types₁ ↔ (types.path t).length < 2 :=
        (hstored.named_iff hf habsent hn).trans (hp.name_iff identifier)
      have hback₂ : Named types₂ → Named types₁ := fun h =>
        h.of_entries hkept₂ hf₁ (collectChildren_entries hcollect hlt)
      have hback₃ : Named types' → Named types₂ := fun h => h.of_entries hkept₃ hf₂ hentries₃
      have hrest_iff : Named types₂ →
          (Named types' ↔ nestingChildren cs ≤ 2 - (types.path t).length) := by
        intro hn₂
        rw [ih hrest ht₂ hf₂ (hpath₂.symm ▸ hp) hdocs hn₂, hpath₂]
      have hchild_iff : Named types₁ →
          (Named types₂ ↔ nestingChildren c.commonchildren ≤ 1 - (types.path t).length) := by
        intro hn₁
        have hlen : (types₁.path types.length).length = (types.path t).length + 1 := by
          rw [hstored.path_new, List.length_append]
          rfl
        have hp₁ : PrefixFor (types₁.path types.length) (prefixIn childPrefix c.type) := by
          rw [hstored.path_new, hpre]
          exact hp.append identifier
        rw [ihc hcollect hlt hf₁ hp₁ hchildren hn₁, hlen]
        omega
      rw [nestingChildren, nesting_eq hname, max_le_iff]
      constructor
      · intro hn'
        have hn₂ := hback₃ hn'
        have hn₁ := hback₂ hn₂
        have hshort := hnamed₁.mp hn₁
        have hchild := (hchild_iff hn₁).mp hn₂
        exact ⟨by omega, (hrest_iff hn₂).mp hn'⟩
      · rintro ⟨hchild, hcs⟩
        have hn₁ := hnamed₁.mpr (by omega)
        have hn₂ := (hchild_iff hn₁).mpr (by omega)
        exact (hrest_iff hn₂).mpr hcs

end SQAstNode

namespace TypeTables

variable {types types' : TypeTables hash} {identifier : String} {typetag : SQTypeDesc}
  {opcode : SQCompiler.SQOpcode} {source : Option Expr} {children : List SQAstNode}

theorem Reachable.formed (h : Reachable types) :
    Formed types ∧ 0 < types.length ∧ types.path 0 = [] := by
  induction h with
  | create => exact ⟨formed_create, Nat.one_pos, rfl⟩
  | collect _ hc ih =>
    obtain ⟨hf, hlt, hpath⟩ := ih
    have hkept := collectChildren_kept hc hlt
    exact ⟨hkept.formed hf, hlt.trans_le hkept.length_le, (hkept.path 0 hlt).trans hpath⟩

/-- After a collection with success every type has its full name just when no more than two types
lie in each other. -/
theorem collect_named_iff (h : Reachable types) (hn : Named types) (hdocs : NoDocuments children)
    (hc : (node (.Document identifier) typetag opcode source children).collectDefinedTypes 0 ""
      types = (types', true)) :
    Named types' ↔ nestingChildren children ≤ 2 := by
  obtain ⟨hf, hlt, hpath⟩ := h.formed
  have hp : PrefixFor (types.path 0) "" := hpath.symm ▸ .nil
  rw [collectChildren_named hc hlt hf hp hdocs hn, hpath]
  rfl

theorem named_create : Named ([.create []] : TypeTables hash) := by
  rintro u k i ⟨table, htable, hholds⟩
  obtain rfl := List.mem_singleton.mp (List.mem_of_getElem? htable)
  exact absurd hholds (TypeTable.not_holds_create k i [])

theorem collect_named_two :
    Named ((documentNode [namespaceNode "A" [namespaceNode "B" []]]).collectDefinedTypes 0 ""
      ([.create []] : TypeTables String.length)).1 := by
  have hok : ((documentNode [namespaceNode "A" [namespaceNode "B" []]]).collectDefinedTypes 0 ""
      ([.create []] : TypeTables String.length)).2 = true := by decide
  have hdocs : NoDocuments [namespaceNode "A" [namespaceNode "B" []]] := by
    simp [NoDocuments, NoDocument, namespaceNode]
  exact (collect_named_iff .create named_create hdocs (Prod.ext rfl hok)).mpr (by decide)

/-- The third of three namespaces in each other gets the name `A..B.C`. -/
theorem collect_three_unnamed :
    ¬ ∀ (hash : String → ℕ) (types types' : TypeTables hash) (identifier : String)
      (children : List SQAstNode), Reachable types → Named types → NoDocuments children →
        (node (.Document identifier) (.known .DYNAMIC) .LINE none children).collectDefinedTypes 0 ""
          types = (types', true) → Named types' := by
  intro hall
  have hok : ((documentNode [namespaceNode "A" [namespaceNode "B" [namespaceNode "C" []]]]
      ).collectDefinedTypes 0 "" ([.create []] : TypeTables String.length)).2 = true := by decide
  have hdocs : NoDocuments [namespaceNode "A" [namespaceNode "B" [namespaceNode "C" []]]] := by
    simp [NoDocuments, NoDocument, namespaceNode]
  have hnamed := hall String.length _ _ "" _ .create named_create hdocs (Prod.ext rfl hok)
  have hnesting := (collectChildren_named (Prod.ext rfl hok) Nat.one_pos formed_create .nil hdocs
    named_create).mp hnamed
  exact absurd hnesting (by decide)

end TypeTables
end Squirt
