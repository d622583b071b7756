import Squirt.SyntaxTrees
import Squirt.TablePresence

/-!
# Collecting the types of documents

`CollectDefinedTypes` enters the namespaces and classes of a document into tables of types, a table
for what is in each of them. A table is its place in the list of all tables.
-/

namespace Squirt

open SQTable (Invariant)

/-- A table of types: full names with the tables of what is in them. `path` is not in the program:
the names of the namespaces and classes that the table is in. -/
structure TypeTable (hash : String → ℕ) where
  slots : SQTable String ℕ
  path : List String
  valid : Invariant hash slots

abbrev TypeTables (hash : String → ℕ) := List (TypeTable hash)

variable {hash : String → ℕ}

namespace TypeTable

def create (path : List String) : TypeTable hash where
  slots := SQTable.create 0
  path := path
  valid := (SQTable.invariant_create hash 0).1

/-- The table that `NewSlot` leaves, with what it returns -/
def newSlot (t : TypeTable hash) (key : String) (val : ℕ) : TypeTable hash × Bool :=
  let res := (SQTable.newSlot hash SQTable.depth t.slots key val).get (by
    obtain ⟨t', b, hnew, -⟩ := t.valid.newSlot_spec key val
    rw [hnew]
    rfl)
  ({ slots := res.1
     path := t.path
     valid := by
      obtain ⟨t', b, hnew, hup⟩ := t.valid.newSlot_spec key val
      have hres : res = (t', b) := Option.get_of_eq_some _ hnew
      rw [hres]
      exact hup.inv }, res.2)

end TypeTable

namespace TypeTables

def path (types : TypeTables hash) (t : ℕ) : List String := ((types[t]?).map TypeTable.path).getD []

/-- The tables with a new one, at the place `types.length` -/
def create (types : TypeTables hash) (path : List String) : TypeTables hash :=
  types ++ [.create path]

/-- `NewSlot` in the table at a place -/
def newSlot (types : TypeTables hash) (t : ℕ) (key : String) (val : ℕ) : TypeTables hash × Bool :=
  match types[t]? with
  | some table => (types.set t (table.newSlot key val).1, (table.newSlot key val).2)
  | none => (types, false)

end TypeTables

namespace SQAstNode

/-- The nodes that `CollectDefinedTypes` looks at, with their `_identifier` -/
def definedName : SQAstNodeType → Option String
  | .Document identifier | .Namespace identifier | .Class identifier => some identifier
  | _ => none

/-- What `CollectDefinedTypes` makes of a name that is not empty -/
def prefixOf (namePrefix : String) : String :=
  if namePrefix.length > 0 then namePrefix ++ "." else namePrefix

mutual

def collectDefinedTypes (pTypeTable : ℕ) (namePrefix : String) :
    SQAstNode → TypeTables hash → TypeTables hash × Bool
  | node type _ _ _ children, types =>
    match type with
    | .Document _ => collectChildren pTypeTable (prefixOf namePrefix) children types
    | .Namespace identifier | .Class identifier =>
      collectChildren pTypeTable (prefixOf namePrefix ++ identifier ++ ".") children types
    | _ => (types, true)

/-- The loop over the children -/
def collectChildren (pTypeTable : ℕ) (childPrefix : String) :
    List SQAstNode → TypeTables hash → TypeTables hash × Bool
  | [], types => (types, true)
  | c :: cs, types =>
    match definedName c.type with
    | none => collectChildren pTypeTable childPrefix cs types
    | some identifier =>
      let val := types.length
      let created := types.create (types.path pTypeTable ++ [identifier])
      match created.newSlot pTypeTable (childPrefix ++ identifier) val with
      | (types, false) => (types, false)
      | (types, true) =>
        match collectDefinedTypes val childPrefix c types with
        | (types, false) => (types, false)
        | (types, true) => collectChildren pTypeTable childPrefix cs types

end

end SQAstNode

/-! ## One new slot -/

namespace TypeTable

variable (t : TypeTable hash) (key : String) (val : ℕ)

theorem newSlot_eq : SQTable.newSlot hash SQTable.depth t.slots key val =
    some ((t.newSlot key val).1.slots, (t.newSlot key val).2) :=
  (Option.some_get _).symm

private theorem newSlot_updated : t.slots.Updated hash (t.newSlot key val).1.slots key val := by
  obtain ⟨t', b, hnew, hup⟩ := t.valid.newSlot_spec key val
  rw [newSlot_eq] at hnew
  cases hnew
  exact hup

theorem absent_of_newSlot {i : ℕ} (h : (t.newSlot key val).2 = true) : ¬ t.slots.Holds key i := by
  rintro ⟨j, hj, -⟩
  have hnew := t.newSlot_eq key val
  rw [SQTable.depth, t.valid.newSlot_present hj] at hnew
  have hfalse := congrArg Prod.snd (Option.some.inj hnew)
  exact absurd (hfalse.trans h) Bool.false_ne_true

theorem not_holds_create (path : List String) :
    ¬ (create path : TypeTable hash).slots.Holds key val :=
  (SQTable.invariant_create hash 0).2 key val

end TypeTable

namespace TypeTables

variable {types types' : TypeTables hash} {t u i : ℕ} {key k : String} {p : List String}

/-- In the table at a place a name has an entry. -/
def Entry (types : TypeTables hash) (t : ℕ) (key : String) (i : ℕ) : Prop :=
  ∃ table, types[t]? = some table ∧ table.slots.Holds key i

/-- Every entry is a table. -/
def Formed (types : TypeTables hash) : Prop := ∀ t key i, Entry types t key i → i < types.length

theorem formed_create : Formed ([.create []] : TypeTables hash) := by
  rintro u k i ⟨table, htable, hholds⟩
  obtain rfl := List.mem_singleton.mp (List.mem_of_getElem? htable)
  exact absurd hholds (TypeTable.not_holds_create k i [])

theorem Entry.lt (h : Entry types t key i) : t < types.length := by
  obtain ⟨table, ht, -⟩ := h
  exact (List.getElem?_eq_some_iff.mp ht).1

theorem getElem?_create (ht : t < types.length) : (types.create p)[t]? = types[t]? :=
  List.getElem?_append_left ht

private theorem entry_create : Entry (types.create p) u k i ↔ Entry types u k i := by
  obtain hu | hu := Nat.lt_or_ge u types.length
  · rw [Entry, getElem?_create hu, Entry]
  refine iff_of_false ?_ fun h => absurd h.lt (not_lt.mpr hu)
  rintro ⟨table, hget, hholds⟩
  rw [create, List.getElem?_append_right hu] at hget
  cases hsub : u - types.length with
  | zero =>
    rw [hsub] at hget
    cases hget
    exact TypeTable.not_holds_create k i p hholds
  | succ n =>
    rw [hsub] at hget
    cases hget

/-- The tables after `NewSlot` of a new table for a type with the path `p` -/
structure Stored (types : TypeTables hash) (t : ℕ) (key : String) (p : List String)
    (types' : TypeTables hash) : Prop where
  length : types'.length = types.length + 1
  path_old : ∀ u < types.length, types'.path u = types.path u
  path_new : types'.path types.length = p
  entry : ∀ u k i, Entry types' u k i ↔
    (u = t ∧ k = key ∧ i = types.length) ∨ (¬ (u = t ∧ k = key) ∧ Entry types u k i)

private theorem path_set {table : TypeTable hash} (ht : types[t]? = some table) (key : String)
    (val u : ℕ) : path (types.set t (table.newSlot key val).1) u = types.path u := by
  have hlt := (List.getElem?_eq_some_iff.mp ht).1
  rw [path, path, List.getElem?_set]
  split_ifs with h
  · rw [← h, ht]
    rfl
  · rfl

private theorem entry_iff {table : TypeTable hash} (ht : types[t]? = some table) :
    Entry types t k i ↔ table.slots.Holds k i := by
  rw [Entry, ht]
  exact ⟨fun ⟨_, heq, h⟩ => Option.some.inj heq ▸ h, fun h => ⟨_, rfl, h⟩⟩

theorem newSlot_stored (ht : t < types.length) (key : String) (p : List String) :
    Stored types t key p ((types.create p).newSlot t key types.length).1 := by
  obtain ⟨table, htable⟩ : ∃ table, types[t]? = some table := ⟨_, List.getElem?_eq_getElem ht⟩
  have hget : (types.create p)[t]? = some table := (getElem?_create ht).trans htable
  have hlength : (types.create p).length = types.length + 1 := List.length_append
  have hnew : ((types.create p).newSlot t key types.length).1 =
      (types.create p).set t (table.newSlot key types.length).1 := by
    rw [newSlot, hget]
  rw [hnew]
  refine ⟨List.length_set.trans hlength, fun u hu => ?_, ?_, fun u k i => ?_⟩
  · rw [path_set hget, path, getElem?_create hu, path]
  · rw [path_set hget, path, create, List.getElem?_concat_length]
    rfl
  · by_cases hut : u = t
    · subst hut
      have hset := List.getElem?_set_self (a := (table.newSlot key types.length).1)
        (List.getElem?_eq_some_iff.mp hget).1
      rw [entry_iff hset, (table.newSlot_updated key types.length).holds, ← entry_iff htable]
      simp
    · rw [Entry, List.getElem?_set_ne (Ne.symm hut), ← Entry, entry_create]
      simp [hut]

theorem absent_of_newSlot (ht : t < types.length) (key : String) (p : List String) (i : ℕ)
    (h : ((types.create p).newSlot t key types.length).2 = true) : ¬ Entry types t key i := by
  rintro ⟨table, htable, hholds⟩
  rw [newSlot, (getElem?_create ht).trans htable] at h
  exact table.absent_of_newSlot key types.length h hholds

theorem Stored.formed (h : Stored types t key p types') (hf : Formed types) : Formed types' := by
  intro u k i hentry
  rw [h.length]
  obtain ⟨-, -, rfl⟩ | ⟨-, hold⟩ := (h.entry u k i).mp hentry
  · exact Nat.lt_succ_self _
  · exact (hf u k i hold).trans (Nat.lt_succ_self _)

/-- What a collection keeps, however it ends -/
structure Kept (types types' : TypeTables hash) : Prop where
  length_le : types.length ≤ types'.length
  path : ∀ u < types.length, types'.path u = types.path u
  formed : Formed types → Formed types'

theorem Kept.refl (types : TypeTables hash) : Kept types types := ⟨le_rfl, fun _ _ => rfl, id⟩

theorem Kept.trans {types₁ types₂ types₃ : TypeTables hash} (h : Kept types₁ types₂)
    (h' : Kept types₂ types₃) : Kept types₁ types₃ where
  length_le := h.length_le.trans h'.length_le
  path u hu := (h'.path u (hu.trans_le h.length_le)).trans (h.path u hu)
  formed hf := h'.formed (h.formed hf)

theorem Stored.kept (h : Stored types t key p types') :
    Kept types types' where
  length_le := by
    rw [h.length]
    exact Nat.le_succ _
  path := h.path_old
  formed := h.formed

end TypeTables

/-! ## The loop over the children -/

namespace SQAstNode

open TypeTables

variable {types types' : TypeTables hash} {t : ℕ} {childPrefix identifier : String} {ok : Bool}
  {c : SQAstNode} {cs : List SQAstNode}

/-- Induction on nodes and what is below them -/
@[elab_as_elim]
theorem children_induction {motive : List SQAstNode → Prop} (nil : motive [])
    (cons : ∀ c cs, motive c.commonchildren → motive cs → motive (c :: cs)) : ∀ cs, motive cs
  | [] => nil
  | node type typetag opcode source children :: cs =>
    cons (node type typetag opcode source children) cs (children_induction nil cons children)
      (children_induction nil cons cs)

/-- `childPrefix` in the call for a node -/
def prefixIn (namePrefix : String) : SQAstNodeType → String
  | .Namespace identifier | .Class identifier => prefixOf namePrefix ++ identifier ++ "."
  | _ => prefixOf namePrefix

private theorem collectDefinedTypes_eq (h : definedName c.type = some identifier) (t : ℕ)
    (namePrefix : String) (types : TypeTables hash) :
    collectDefinedTypes t namePrefix c types =
      collectChildren t (prefixIn namePrefix c.type) c.commonchildren types := by
  obtain ⟨type, typetag, opcode, source, children⟩ := c
  cases type <;> first | rfl | cases h

/-- What happens to a child that is no type -/
theorem collectChildren_skip (h : definedName c.type = none) (t : ℕ) (childPrefix : String)
    (cs : List SQAstNode) (types : TypeTables hash) :
    collectChildren t childPrefix (c :: cs) types = collectChildren t childPrefix cs types := by
  rw [collectChildren, h]

/-- The ways in which the collection of a type and of what follows it ends -/
theorem collectChildren_cons (h : definedName c.type = some identifier)
    (hc : collectChildren t childPrefix (c :: cs) types = (types', ok)) :
    ∃ types₁ fresh, (types.create (types.path t ++ [identifier])).newSlot t
        (childPrefix ++ identifier) types.length = (types₁, fresh) ∧
      ((fresh = false ∧ types' = types₁ ∧ ok = false) ∨
        fresh = true ∧ ∃ types₂ ok₂, collectChildren types.length (prefixIn childPrefix c.type)
            c.commonchildren types₁ = (types₂, ok₂) ∧
          ((ok₂ = false ∧ types' = types₂ ∧ ok = false) ∨
            ok₂ = true ∧ collectChildren t childPrefix cs types₂ = (types', ok))) := by
  rw [collectChildren, h] at hc
  dsimp only at hc
  split at hc
  · next types₁ hnew =>
    cases hc
    exact ⟨_, false, hnew, .inl ⟨rfl, rfl, rfl⟩⟩
  · next types₁ hnew =>
    refine ⟨types₁, true, hnew, .inr ⟨rfl, ?_⟩⟩
    rw [collectDefinedTypes_eq h] at hc
    split at hc
    · next types₂ hcollect =>
      cases hc
      exact ⟨_, false, hcollect, .inl ⟨rfl, rfl, rfl⟩⟩
    · next types₂ hcollect => exact ⟨types₂, true, hcollect, .inr ⟨rfl, hc⟩⟩

theorem collectChildren_kept (hc : collectChildren t childPrefix cs types = (types', ok))
    (ht : t < types.length) : Kept types types' := by
  induction cs using children_induction generalizing t childPrefix types types' ok with
  | nil =>
    cases hc
    exact .refl types
  | cons c cs ihc ih =>
    cases hname : definedName c.type with
    | none => exact ih (collectChildren_skip hname t childPrefix cs types ▸ hc) ht
    | some identifier =>
      obtain ⟨types₁, fresh, hnew, hcase⟩ := collectChildren_cons hname hc
      have hstored := newSlot_stored ht (childPrefix ++ identifier) (types.path t ++ [identifier])
      rw [hnew] at hstored
      obtain ⟨-, rfl, -⟩ | ⟨-, types₂, ok₂, hcollect, hcase⟩ := hcase
      · exact hstored.kept
      have hlt : types.length < types₁.length := hstored.length ▸ Nat.lt_succ_self _
      have hkept := hstored.kept.trans (ihc hcollect hlt)
      obtain ⟨-, rfl, -⟩ | ⟨-, hrest⟩ := hcase
      · exact hkept
      · exact hkept.trans (ih hrest (ht.trans_le hkept.length_le))

/-- In a collection with success a type is new, and so are those in it and after it. -/
theorem collectChildren_ok (hname : definedName c.type = some identifier)
    (hc : collectChildren t childPrefix (c :: cs) types = (types', true)) (ht : t < types.length) :
    ∃ types₁ types₂,
      Stored types t (childPrefix ++ identifier) (types.path t ++ [identifier]) types₁ ∧
      (∀ i, ¬ Entry types t (childPrefix ++ identifier) i) ∧
      collectChildren types.length (prefixIn childPrefix c.type) c.commonchildren types₁ =
        (types₂, true) ∧ collectChildren t childPrefix cs types₂ = (types', true) := by
  obtain ⟨types₁, fresh, hnew, hcase⟩ := collectChildren_cons hname hc
  have hstored := newSlot_stored ht (childPrefix ++ identifier) (types.path t ++ [identifier])
  have habsent := absent_of_newSlot ht (childPrefix ++ identifier) (types.path t ++ [identifier])
  rw [hnew] at hstored habsent
  obtain ⟨-, -, hfalse⟩ | ⟨rfl, types₂, ok₂, hcollect, hcase⟩ := hcase
  · cases hfalse
  obtain ⟨-, -, hfalse⟩ | ⟨rfl, hrest⟩ := hcase
  · cases hfalse
  exact ⟨types₁, types₂, hstored, fun i => habsent i rfl, hcollect, hrest⟩

/-- A collection with success loses no entry. -/
theorem collectChildren_entries (hc : collectChildren t childPrefix cs types = (types', true))
    (ht : t < types.length) : ∀ u k i, Entry types u k i → Entry types' u k i := by
  induction cs using children_induction generalizing t childPrefix types types' with
  | nil =>
    cases hc
    exact fun _ _ _ => id
  | cons c cs ihc ih =>
    cases hname : definedName c.type with
    | none => exact ih (collectChildren_skip hname t childPrefix cs types ▸ hc) ht
    | some identifier =>
      obtain ⟨types₁, types₂, hstored, habsent, hcollect, hrest⟩ := collectChildren_ok hname hc ht
      have hlt : types.length < types₁.length := hstored.length ▸ Nat.lt_succ_self _
      have hkept := hstored.kept.trans (collectChildren_kept hcollect hlt)
      intro u k i he
      refine ih hrest (ht.trans_le hkept.length_le) u k i (ihc hcollect hlt u k i ?_)
      refine (hstored.entry u k i).mpr (.inr ⟨?_, he⟩)
      rintro ⟨rfl, rfl⟩
      exact habsent i he

/-- A namespace with what is in it -/
def namespaceNode (identifier : String) (children : List SQAstNode) : SQAstNode :=
  node (.Namespace identifier) (.known .DYNAMIC) .LINE none children

def documentNode (children : List SQAstNode) : SQAstNode :=
  node (.Document "") (.known .DYNAMIC) .LINE none children

end SQAstNode
end Squirt
