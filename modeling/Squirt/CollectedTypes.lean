import Squirt.DefinedTypes

/-!
# What collections of types lose

Whether the types that are in the tables stay there, whether those of a document get there, and for
what a collection fails. `NewSlot` replaces what it finds, and fails for a new name when the table
has to grow.
-/

namespace Squirt

variable {hash : String → ℕ}

namespace TypeTables

/-- What is reached from the table of the assembly -/
inductive Within (types : TypeTables hash) : ℕ → Prop
  | root : Within types 0
  | member {t i : ℕ} {key : String} (h : Within types t) (he : Entry types t key i) : Within types i

/-- The type with a path is in the tables, and so is what it is in. -/
def Entered (types : TypeTables hash) (path : List String) : Prop :=
  ∃ t key i, Within types t ∧ Entry types t key i ∧ types.path i = path

end TypeTables

namespace SQAstNode

open TypeTables

mutual

/-- The paths of a type and of the types in it, in the order of the loop -/
def typePaths (path : List String) : SQAstNode → List (List String)
  | node type _ _ _ children =>
    match definedName type with
    | none => []
    | some identifier => (path ++ [identifier]) :: childPaths (path ++ [identifier]) children

def childPaths (path : List String) : List SQAstNode → List (List String)
  | [] => []
  | c :: cs => typePaths path c ++ childPaths path cs

end

/-- A type of the document is in the tables already, or comes a second time. -/
def Duplicate (types : TypeTables hash) (children : List SQAstNode) : Prop :=
  ∃ before path after, childPaths [] children = before ++ path :: after ∧
    (Entered types path ∨ path ∈ before)

/-! ## The collection of one document after the other -/

/-- `CollectDefinedTypes` of a document with these children, into the table of the assembly -/
def collectDocument (children : List SQAstNode) (types : TypeTables hash) :
    TypeTables hash × Bool :=
  (documentNode children).collectDefinedTypes 0 "" types

/-- The loop of `sq_compilestatic`, which does not look at what `CollectDefinedTypes` returns -/
def collectAll : List (List SQAstNode) → TypeTables hash → TypeTables hash
  | [], types => types
  | children :: documents, types => collectAll documents (collectDocument children types).1

/-- Nothing is lost by a document: what is in the tables stays there, with success the types of the
document get there, and failure is for a duplicate. -/
structure KeepsTypes (types : TypeTables hash) (children : List SQAstNode) : Prop where
  stays : ∀ path, Entered types path → Entered (collectDocument children types).1 path
  added : (collectDocument children types).2 = true →
    ∀ path ∈ childPaths [] children, Entered (collectDocument children types).1 path
  failure : (collectDocument children types).2 = false → Duplicate types children

/-! ## What goes wrong -/

/-- How the loop over children goes on: every type is new and gets its slot; or so up to one that
replaces a type without members; or up to one that replaces members or gets no slot -/
inductive Course
  | allNew
  | emptyAgain
  | breaks
  deriving DecidableEq

def hasTypes (cs : List SQAstNode) : Bool := cs.any fun c => (definedName c.type).isSome

mutual

/-- For the children of a type, which get a table of four nodes -/
def course : SQAstNode → Course
  | node _ _ _ _ children => courseOf (fun _ => none) 3 children

/-- `entered` says of the names that are in the table whether they have members, and `room` is how
many more slots it has before it grows. -/
def courseOf (entered : String → Option Bool) (room : ℕ) : List SQAstNode → Course
  | [] => .allNew
  | c :: cs =>
    match definedName c.type with
    | none => courseOf entered room cs
    | some identifier =>
      match entered identifier, room with
      | some true, _ => .breaks
      | some false, _ => .emptyAgain
      | none, 0 => .breaks
      | none, room + 1 =>
        match course c with
        | .allNew =>
          courseOf (Function.update entered identifier (some (hasTypes c.commonchildren))) room cs
        | stopped => stopped

end

end SQAstNode

namespace TypeTables

open SQAstNode

def slots (types : TypeTables hash) (t : ℕ) : SQTable String ℕ :=
  ((types[t]?).map TypeTable.slots).getD (.create 0)

/-- Whether a name is in the table of the assembly, and whether it has members -/
def membersOf (types : TypeTables hash) (name : String) : Option Bool :=
  (((types.slots 0).get hash id (some name)).bind id).map fun i => (types.slots i).usednodes != 0

/-- How many more slots the table of the assembly has before it grows -/
def roomOf (types : TypeTables hash) : ℕ :=
  (types.slots 0).numofnodes - 1 - (types.slots 0).usednodes

/-- The document replaces no members, and for each new type its table has a slot left. -/
def Collectable (types : TypeTables hash) (children : List SQAstNode) : Prop :=
  courseOf types.membersOf types.roomOf children ≠ .breaks

instance (types : TypeTables hash) (children : List SQAstNode) :
    Decidable (types.Collectable children) :=
  inferInstanceAs (Decidable (courseOf _ _ _ ≠ .breaks))

/-- Each document is collectable in the tables that those before it leave. -/
def AllCollectable (types : TypeTables hash) : List (List SQAstNode) → Prop
  | [] => True
  | children :: documents => types.Collectable children ∧
    AllCollectable (collectDocument children types).1 documents

instance instDecidableAllCollectable :
    (types : TypeTables hash) → (documents : List (List SQAstNode)) →
      Decidable (types.AllCollectable documents)
  | _, [] => .isTrue trivial
  | types, children :: documents =>
    have := instDecidableAllCollectable (collectDocument children types).1 documents
    inferInstanceAs (Decidable (types.Collectable children ∧
      AllCollectable (collectDocument children types).1 documents))

variable {types types' types₁ : TypeTables hash} {t u i : ℕ} {key k childPrefix : String}
  {p path : List String} {cs : List SQAstNode}

/-! ## Collections with success -/

theorem Within.mono (h : Within types u)
    (hentry : ∀ u k i, Entry types u k i → Entry types' u k i) : Within types' u := by
  induction h with
  | root => exact .root
  | member _ he ih => exact .member ih (hentry _ _ _ he)

theorem Stored.within (h : Stored types t key p types') (habsent : ∀ i, ¬ Entry types t key i)
    (hu : Within types u) : Within types' u := by
  induction hu with
  | root => exact .root
  | member _ he ih =>
    refine .member ih ((h.entry _ _ _).mpr (.inr ⟨?_, he⟩))
    rintro ⟨rfl, rfl⟩
    exact habsent _ he

/-- A new slot adds just the new type. -/
theorem Stored.entered_iff (h : Stored types t key p types') (hf : Formed types)
    (habsent : ∀ i, ¬ Entry types t key i) (ht : Within types t) (path : List String) :
    Entered types' path ↔ Entered types path ∨ path = p := by
  have hwithin : ∀ u, Within types' u → Within types u ∨ u = types.length := by
    intro u hu
    induction hu with
    | root => exact .inl .root
    | member _ he ih =>
      obtain ⟨-, -, rfl⟩ | ⟨-, hold⟩ := (h.entry _ _ _).mp he
      · exact .inr rfl
      · obtain hin | rfl := ih
        · exact .inl (.member hin hold)
        · exact absurd hold.lt (lt_irrefl _)
  constructor
  · rintro ⟨u, k, i, hu, he, rfl⟩
    obtain ⟨-, -, rfl⟩ | ⟨-, hold⟩ := (h.entry _ _ _).mp he
    · exact .inr h.path_new
    · obtain hin | rfl := hwithin u hu
      · exact .inl ⟨u, k, i, hin, hold, (h.path_old i (hf u k i hold)).symm⟩
      · exact absurd hold.lt (lt_irrefl _)
  · rintro (⟨u, k, i, hu, he, rfl⟩ | rfl)
    · refine ⟨u, k, i, h.within habsent hu, (h.entry _ _ _).mpr (.inr ⟨?_, he⟩),
        h.path_old i (hf u k i he)⟩
      rintro ⟨rfl, rfl⟩
      exact habsent i he
    · exact ⟨t, key, types.length, h.within habsent ht, (h.entry _ _ _).mpr (.inl ⟨rfl, rfl, rfl⟩),
        h.path_new⟩

end TypeTables

namespace SQAstNode

open TypeTables

variable {types types' types₁ : TypeTables hash} {t u i : ℕ} {key k childPrefix identifier : String}
  {path : List String} {c : SQAstNode} {cs : List SQAstNode} {ok : Bool}

theorem typePaths_eq (h : definedName c.type = some identifier) (path : List String) :
    typePaths path c = (path ++ [identifier]) :: childPaths (path ++ [identifier])
      c.commonchildren := by
  obtain ⟨type, typetag, opcode, source, children⟩ := c
  rw [typePaths, show definedName type = some identifier from h]
  rfl

theorem typePaths_skip (h : definedName c.type = none) (path : List String) :
    typePaths path c = [] := by
  obtain ⟨type, typetag, opcode, source, children⟩ := c
  rw [typePaths, show definedName type = none from h]

/-- With success just the types of the nodes are added. -/
theorem collectChildren_entered (hc : collectChildren t childPrefix cs types = (types', true))
    (ht : t < types.length) (hf : Formed types) (hin : Within types t) :
    Within types' t ∧
      ∀ path, Entered types' path ↔ Entered types path ∨ path ∈ childPaths (types.path t) cs := by
  induction cs using children_induction generalizing t childPrefix types types' with
  | nil =>
    cases hc
    exact ⟨hin, fun path => by simp [childPaths]⟩
  | cons c cs ihc ih =>
    cases hname : definedName c.type with
    | none =>
      rw [collectChildren_skip hname] at hc
      rw [childPaths, typePaths_skip hname]
      exact ih hc ht hf hin
    | some identifier =>
      obtain ⟨types₁, types₂, hstored, habsent, hcollect, hrest⟩ := collectChildren_ok hname hc ht
      have hlt : types.length < types₁.length := hstored.length ▸ Nat.lt_succ_self _
      have ht₁ := ht.trans hlt
      have hf₁ := hstored.formed hf
      have hin₁ := hstored.within habsent hin
      have hinval : Within types₁ types.length :=
        .member hin₁ ((hstored.entry _ _ _).mpr (.inl ⟨rfl, rfl, rfl⟩))
      have hkept₂ := collectChildren_kept hcollect hlt
      have hin₂ := hin₁.mono (collectChildren_entries hcollect hlt)
      obtain ⟨-, hentered₂⟩ := ihc hcollect hlt hf₁ hinval
      obtain ⟨hin', hentered⟩ := ih hrest (ht₁.trans_le hkept₂.length_le) (hkept₂.formed hf₁) hin₂
      refine ⟨hin', fun path => ?_⟩
      rw [hentered, hentered₂, hstored.entered_iff hf habsent hin, childPaths, typePaths_eq hname,
        hstored.path_new, hkept₂.path t ht₁, hstored.path_old t ht]
      simp only [List.mem_append, List.mem_cons, or_assoc]

end SQAstNode

/-! ## The table that is added to -/

namespace TypeTables

variable {types types' types₁ types₂ : TypeTables hash} {t u i room : ℕ}
  {key k childPrefix identifier : String} {p path : List String} {entered : String → Option Bool}

theorem slots_valid (types : TypeTables hash) (t : ℕ) : SQTable.Invariant hash (types.slots t) := by
  rw [slots]
  cases types[t]? with
  | some table => exact table.valid
  | none => exact (SQTable.invariant_create hash 0).1

theorem entry_iff_slots : Entry types t key i ↔ (types.slots t).Holds key i := by
  rw [Entry, slots]
  cases types[t]? with
  | some table =>
    constructor
    · rintro ⟨table', heq, h⟩
      cases heq
      exact h
    · intro h
      exact ⟨table, rfl, h⟩
  | none =>
    constructor
    · rintro ⟨table', heq, -⟩
      cases heq
    · intro h
      exact absurd h ((SQTable.invariant_create hash 0).2 key i)

theorem entry_congr (h : types'.slots t = types.slots t) :
    Entry types' t key i ↔ Entry types t key i := by
  rw [entry_iff_slots, entry_iff_slots, h]

/-- The table at a place that exists -/
theorem slots_eq {table : TypeTable hash} (h : types[t]? = some table) :
    types.slots t = table.slots := by
  rw [slots, h]
  rfl

theorem slots_newSlot_ne (hu : u < types.length) (hut : u ≠ t) (key : String) (p : List String) :
    ((types.create p).newSlot t key types.length).1.slots u = types.slots u := by
  have hget : ((types.create p).newSlot t key types.length).1[u]? = (types.create p)[u]? := by
    rw [newSlot]
    split
    · exact List.getElem?_set_ne (Ne.symm hut)
    · rfl
  rw [slots, hget, getElem?_create hu, slots]

private theorem slots_newSlot_new (ht : t < types.length) (key : String) (p : List String) :
    ((types.create p).newSlot t key types.length).1.slots types.length = .create 0 := by
  have hget : ((types.create p).newSlot t key types.length).1[types.length]? =
      (types.create p)[types.length]? := by
    rw [newSlot]
    split
    · exact List.getElem?_set_ne ht.ne
    · rfl
  rw [slots, hget, create, List.getElem?_concat_length]
  rfl

theorem slots_newSlot_self (ht : t < types.length) (key : String) (p : List String) :
    ∃ table : TypeTable hash, types.slots t = table.slots ∧
      ((types.create p).newSlot t key types.length).1.slots t =
        (table.newSlot key types.length).1.slots ∧
      ((types.create p).newSlot t key types.length).2 = (table.newSlot key types.length).2 := by
  obtain ⟨table, htable⟩ : ∃ table, types[t]? = some table := ⟨_, List.getElem?_eq_getElem ht⟩
  have hget : (types.create p)[t]? = some table := (getElem?_create ht).trans htable
  refine ⟨table, slots_eq htable, ?_, ?_⟩
  · rw [newSlot, hget]
    exact slots_eq (List.getElem?_set_self (List.getElem?_eq_some_iff.mp hget).1)
  · rw [newSlot, hget]

/-- A new name gets a slot in a table with room. -/
theorem newSlot_room (ht : t < types.length) (hfresh : (types.slots t).Fresh)
    (hroom : (types.slots t).usednodes + 1 < (types.slots t).numofnodes)
    (habsent : ∀ i, ¬ Entry types t key i) (p : List String) :
    ((types.create p).newSlot t key types.length).2 = true ∧
      (((types.create p).newSlot t key types.length).1.slots t).Fresh ∧
      (((types.create p).newSlot t key types.length).1.slots t).numofnodes =
        (types.slots t).numofnodes ∧
      (((types.create p).newSlot t key types.length).1.slots t).usednodes =
        (types.slots t).usednodes + 1 := by
  obtain ⟨table, htable, hslots, hok⟩ := slots_newSlot_self ht key p
  rw [hslots, hok, htable]
  simp only [entry_iff_slots, htable] at habsent
  rw [htable] at hfresh hroom
  have hinv := table.valid
  have habs : ∀ j, table.slots.keyAt j ≠ some key := fun j hj => habsent _ ⟨j, hj, rfl⟩
  obtain ⟨t', hnew, hup, hfresh', hnum, hcard⟩ := hinv.newSlot_fresh hfresh habs
    (by rwa [← hinv.used]) 2 types.length
  have heq := (table.newSlot_eq key types.length).symm.trans hnew
  obtain ⟨hslots', hok'⟩ := Prod.mk.inj (Option.some.inj heq)
  rw [hslots', hok', hup.inv.used, hcard, ← hinv.used]
  exact ⟨rfl, hfresh', hnum, rfl⟩

/-- A name that is there is reported, and its value is replaced. -/
theorem newSlot_again (ht : t < types.length) (hfresh : (types.slots t).Fresh)
    (he : Entry types t key i) (p : List String) :
    ((types.create p).newSlot t key types.length).2 = false ∧
      (((types.create p).newSlot t key types.length).1.slots t).Fresh := by
  obtain ⟨table, htable, hslots, hok⟩ := slots_newSlot_self ht key p
  rw [hslots, hok]
  rw [htable] at hfresh
  rw [entry_iff_slots, htable] at he
  obtain ⟨j, hj, -⟩ := he
  have heq := (table.newSlot_eq key types.length).symm.trans
    (table.valid.newSlot_present hj 2 types.length)
  obtain ⟨hslots', hok'⟩ := Prod.mk.inj (Option.some.inj heq)
  rw [hslots', hok']
  refine ⟨rfl, fun m hm hcase => ?_⟩
  have hlt := table.slots.lt_of_key hj
  have hkey : (table.slots.setVal j types.length).keyAt = table.slots.keyAt := by
    funext m
    simp only [SQTable.keyAt, SQTable.node_setVal hlt]
  have hnext : (table.slots.setVal j types.length).nextAt = table.slots.nextAt := by
    funext m
    simp only [SQTable.nextAt, SQTable.node_setVal hlt]
  rw [hkey]
  rw [hnext] at hcase
  exact hfresh m (by simpa [SQTable.setVal] using hm) hcase

/-- A table without deletions, whose names all begin alike -/
structure Tidy (types : TypeTables hash) (t : ℕ) (childPrefix : String) : Prop where
  fresh : (types.slots t).Fresh
  named : ∀ key i, Entry types t key i →
    ∃ identifier, key = childPrefix ++ identifier ∧ types.path i = types.path t ++ [identifier]

/-- What `entered` and `room` say of the table -/
structure Scope (types : TypeTables hash) (t : ℕ) (childPrefix : String)
    (entered : String → Option Bool) (room : ℕ) : Prop extends Tidy types t childPrefix where
  room_eq : (types.slots t).usednodes + room + 1 = (types.slots t).numofnodes
  known : ∀ identifier, entered identifier = none ↔
    ∀ i, ¬ Entry types t (childPrefix ++ identifier) i
  empty : ∀ identifier i, entered identifier = some false →
    Entry types t (childPrefix ++ identifier) i → ∀ k j, ¬ Entry types i k j

theorem Tidy.congr (h : Tidy types t childPrefix) (hf : Formed types) (ht : t < types.length)
    (hk : Kept types types') (hslots : types'.slots t = types.slots t) :
    Tidy types' t childPrefix where
  fresh := hslots ▸ h.fresh
  named key i he := by
    have hold := (entry_congr hslots).mp he
    obtain ⟨identifier, hkey, hpath⟩ := h.named key i hold
    exact ⟨identifier, hkey, by rw [hk.path i (hf t key i hold), hk.path t ht, hpath]⟩

/-- The names in the table still begin alike with the new one. -/
theorem Tidy.stored (h : Tidy types t childPrefix) (hf : Formed types) (ht : t < types.length)
    (hs : Stored types t (childPrefix ++ identifier) (types.path t ++ [identifier]) types₁)
    (hfresh : (types₁.slots t).Fresh) : Tidy types₁ t childPrefix where
  fresh := hfresh
  named key i he := by
    obtain ⟨-, rfl, rfl⟩ | ⟨-, hold⟩ := (hs.entry _ _ _).mp he
    · exact ⟨identifier, rfl, by rw [hs.path_new, hs.path_old t ht]⟩
    · obtain ⟨name, hkey, hpath⟩ := h.named key i hold
      exact ⟨name, hkey, by rw [hs.path_old i (hf t key i hold), hs.path_old t ht, hpath]⟩

/-- The table for what is in a new type -/
theorem Scope.new (ht : t < types.length) (key : String) (p : List String) (childPrefix : String) :
    Scope ((types.create p).newSlot t key types.length).1 types.length childPrefix
      (fun _ => none) 3 := by
  have hslots := slots_newSlot_new ht key p
  have hnone : ∀ k i, ¬ Entry ((types.create p).newSlot t key types.length).1 types.length k i := by
    intro k i he
    rw [entry_iff_slots, hslots] at he
    exact (SQTable.invariant_create hash 0).2 k i he
  refine ⟨⟨?_, fun k i he => absurd he (hnone k i)⟩, ?_, fun identifier => ?_, nofun⟩
  · rw [hslots]
    exact SQTable.fresh_allocNodes _
  · rw [hslots]
    rfl
  · exact iff_of_true rfl fun i => hnone _ i

end TypeTables

namespace SQAstNode

open TypeTables

variable {types types' types₁ types₂ : TypeTables hash} {t u i room : ℕ}
  {key k childPrefix identifier : String} {path : List String} {c : SQAstNode} {cs : List SQAstNode}
  {ok : Bool} {entered : String → Option Bool}

/-- Other tables than the one that is added to stay as they are. -/
theorem collectChildren_slots (hc : collectChildren t childPrefix cs types = (types', ok))
    (ht : t < types.length) (hu : u < types.length) (hut : u ≠ t) :
    types'.slots u = types.slots u := by
  induction cs using children_induction generalizing t childPrefix types types' ok with
  | nil =>
    cases hc
    rfl
  | cons c cs ihc ih =>
    cases hname : definedName c.type with
    | none => exact ih (collectChildren_skip hname t childPrefix cs types ▸ hc) ht hu hut
    | some identifier =>
      obtain ⟨types₁, fresh, hnew, hcase⟩ := collectChildren_cons hname hc
      have hstored := newSlot_stored ht (childPrefix ++ identifier) (types.path t ++ [identifier])
      have hslots := slots_newSlot_ne hu hut (childPrefix ++ identifier)
        (types.path t ++ [identifier])
      rw [hnew] at hstored hslots
      obtain ⟨-, rfl, -⟩ | ⟨-, types₂, ok₂, hcollect, hcase⟩ := hcase
      · exact hslots
      have hlt : types.length < types₁.length := hstored.length ▸ Nat.lt_succ_self _
      have hslots₂ := (ihc hcollect hlt (hu.trans hlt) hu.ne).trans hslots
      obtain ⟨-, rfl, -⟩ | ⟨-, hrest⟩ := hcase
      · exact hslots₂
      · have hle := (collectChildren_kept hcollect hlt).length_le
        exact (ih hrest ((ht.trans hlt).trans_le hle) ((hu.trans hlt).trans_le hle) hut).trans
          hslots₂

private theorem collectChildren_noTypes (h : hasTypes cs = false) (t : ℕ) (childPrefix : String)
    (types : TypeTables hash) : collectChildren t childPrefix cs types = (types, true) := by
  induction cs with
  | nil => rfl
  | cons c cs ih =>
    rw [hasTypes, List.any_cons, Bool.or_eq_false_iff] at h
    rw [collectChildren_skip (Option.isSome_eq_false_iff.mp h.1 |> Option.isNone_iff_eq_none.mp)]
    exact ih h.2

end SQAstNode

namespace TypeTables

open SQAstNode

variable {types types₁ types₂ : TypeTables hash} {t room : ℕ} {childPrefix identifier : String}
  {ok : Bool} {entered : String → Option Bool}

/-- A new type has got its slot. -/
structure Added (types : TypeTables hash) (t : ℕ) (childPrefix identifier : String)
    (types₁ : TypeTables hash) : Prop where
  stored : Stored types t (childPrefix ++ identifier) (types.path t ++ [identifier]) types₁
  absent : ∀ i, ¬ Entry types t (childPrefix ++ identifier) i
  fresh : (types₁.slots t).Fresh
  numofnodes : (types₁.slots t).numofnodes = (types.slots t).numofnodes
  usednodes : (types₁.slots t).usednodes = (types.slots t).usednodes + 1
  others : ∀ u < types.length, u ≠ t → types₁.slots u = types.slots u

theorem Scope.added (h : Scope types t childPrefix entered (room + 1)) (ht : t < types.length)
    (hent : entered identifier = none) {fresh : Bool}
    (hnew : (types.create (types.path t ++ [identifier])).newSlot t (childPrefix ++ identifier)
      types.length = (types₁, fresh)) :
    fresh = true ∧ Added types t childPrefix identifier types₁ := by
  have habsent := (h.known identifier).mp hent
  have hroom := h.room_eq
  have hslot := newSlot_room ht h.fresh (by omega) habsent (types.path t ++ [identifier])
  have hstored := newSlot_stored ht (childPrefix ++ identifier) (types.path t ++ [identifier])
  have hothers : ∀ u < types.length, u ≠ t → _ := fun u hu hut =>
    slots_newSlot_ne hu hut (childPrefix ++ identifier) (types.path t ++ [identifier])
  simp only [hnew] at hslot hstored hothers
  obtain ⟨htrue, hfresh, hnum, hused⟩ := hslot
  exact ⟨htrue, hstored, habsent, hfresh, hnum, hused, hothers⟩

/-- The table after a new type and what is in it -/
theorem Scope.next (h : Scope types t childPrefix entered (room + 1)) (hf : Formed types)
    (ht : t < types.length) (hadd : Added types t childPrefix identifier types₁)
    {ns : List SQAstNode} {namePrefix : String}
    (hc : collectChildren types.length namePrefix ns types₁ = (types₂, ok)) :
    Scope types₂ t childPrefix (Function.update entered identifier (some (hasTypes ns))) room := by
  have hs := hadd.stored
  have hlt : types.length < types₁.length := hs.length ▸ Nat.lt_succ_self _
  have hslots := collectChildren_slots hc hlt (ht.trans hlt) ht.ne
  have hentry : ∀ k i, Entry types₂ t k i ↔ Entry types₁ t k i := fun k i => entry_congr hslots
  refine ⟨(h.toTidy.stored hf ht hs hadd.fresh).congr (hs.formed hf) (ht.trans hlt)
    (collectChildren_kept hc hlt) hslots, ?_, fun name => ?_, fun name i hempty he => ?_⟩
  · have := h.room_eq
    rw [hslots, hadd.numofnodes, hadd.usednodes]
    omega
  · simp only [hentry]
    by_cases hname : name = identifier
    · subst hname
      rw [Function.update_self]
      refine iff_of_false nofun fun hnone => hnone types.length ?_
      exact (hs.entry _ _ _).mpr (.inl ⟨rfl, rfl, rfl⟩)
    · rw [Function.update_of_ne hname, h.known name]
      refine forall_congr' fun i => not_congr ?_
      rw [hs.entry]
      have hkey : childPrefix ++ name ≠ childPrefix ++ identifier := fun heq =>
        hname ((String.append_right_inj _).mp heq)
      simp [hkey]
  · rw [hentry, hs.entry] at he
    by_cases hname : name = identifier
    · -- Nothing has been collected into the new table.
      subst hname
      rw [Function.update_self] at hempty
      obtain ⟨-, -, rfl⟩ | ⟨hne, -⟩ := he
      · cases (collectChildren_noTypes (Option.some.inj hempty) _ _ _).symm.trans hc
        intro k j hj
        obtain ⟨hself, -⟩ | ⟨-, hold⟩ := (hs.entry _ _ _).mp hj
        · exact ht.ne' hself
        · exact absurd hold.lt (lt_irrefl _)
      · exact absurd ⟨rfl, rfl⟩ hne
    · rw [Function.update_of_ne hname] at hempty
      obtain ⟨-, hkey, -⟩ | ⟨-, hold⟩ := he
      · exact absurd ((String.append_right_inj _).mp hkey) hname
      have hnone := h.empty name i hempty hold
      have hi := hf _ _ _ hold
      have hit : i ≠ t := by
        rintro rfl
        exact hnone _ _ hold
      intro k j hj
      refine hnone k j ((entry_congr ?_).mp hj)
      exact (collectChildren_slots hc hlt (hi.trans hlt) hi.ne).trans (hadd.others i hi hit)

/-- A type without members that comes again leaves everything entered. -/
theorem Stored.again {types' : TypeTables hash} {key : String} {p path : List String} {old : ℕ}
    (h : Stored types t key p types') (hf : Formed types) (hin : Within types t)
    (hold : Entry types t key old) (hpath : types.path old = p)
    (hempty : ∀ k j, ¬ Entry types old k j) (hentered : Entered types path) :
    Entered types' path := by
  have hunique : ∀ i, Entry types t key i → i = old := by
    intro i hi
    rw [entry_iff_slots] at hi hold
    obtain ⟨j, hj, rfl⟩ := hi
    obtain ⟨m, hm, rfl⟩ := hold
    rw [(types.slots_valid t).keys_inj j m key hj hm]
  have hwithin : ∀ u, Within types u → u = old ∨ Within types' u := by
    intro u hu
    induction hu with
    | root => exact .inr .root
    | @member u i k hu he ih =>
      obtain rfl | hin' := ih
      · exact absurd he (hempty k i)
      by_cases hkey : u = t ∧ k = key
      · obtain ⟨rfl, rfl⟩ := hkey
        exact .inl (hunique i he)
      · exact .inr (.member hin' ((h.entry _ _ _).mpr (.inr ⟨hkey, he⟩)))
  obtain ⟨u, k, i, hu, he, rfl⟩ := hentered
  obtain rfl | hin' := hwithin u hu
  · exact absurd he (hempty k i)
  by_cases hkey : u = t ∧ k = key
  · obtain ⟨rfl, rfl⟩ := hkey
    rw [hunique i he, hpath]
    exact ⟨u, k, types.length, hin', (h.entry _ _ _).mpr (.inl ⟨rfl, rfl, rfl⟩), h.path_new⟩
  · exact ⟨u, k, i, hin', (h.entry _ _ _).mpr (.inr ⟨hkey, he⟩), h.path_old i (hf u k i he)⟩

/-- A name whose type has no members is there already. -/
theorem Scope.again (h : Scope types t childPrefix entered room) (hf : Formed types)
    (ht : t < types.length) (hin : Within types t) (hent : entered identifier = some false)
    {fresh : Bool} (hnew : (types.create (types.path t ++ [identifier])).newSlot t
      (childPrefix ++ identifier) types.length = (types₁, fresh)) :
    fresh = false ∧ Tidy types₁ t childPrefix ∧
      (∀ path, Entered types path → Entered types₁ path) ∧
      Entered types (types.path t ++ [identifier]) := by
  obtain ⟨old, hold⟩ : ∃ old, Entry types t (childPrefix ++ identifier) old := by
    by_contra hnone
    have := (h.known identifier).mpr fun i hi => hnone ⟨i, hi⟩
    rw [hent] at this
    cases this
  have hslot := newSlot_again ht h.fresh hold (types.path t ++ [identifier])
  have hstored := newSlot_stored ht (childPrefix ++ identifier) (types.path t ++ [identifier])
  rw [hnew] at hslot hstored
  obtain ⟨hfalse, hfresh⟩ := hslot
  have hpath : types.path old = types.path t ++ [identifier] := by
    obtain ⟨name, hname, hpath⟩ := h.named _ old hold
    rw [hpath, (String.append_right_inj _).mp hname]
  exact ⟨hfalse, h.toTidy.stored hf ht hstored hfresh,
    fun path hentered =>
      hstored.again hf hin hold hpath (h.empty identifier old hent hold) hentered,
    t, _, old, hin, hold, hpath⟩

end TypeTables

namespace SQAstNode

open TypeTables

variable {types types' types₁ types₂ : TypeTables hash} {t room : ℕ} {childPrefix : String}
  {c : SQAstNode} {cs : List SQAstNode} {ok : Bool} {entered : String → Option Bool}

private theorem course_eq (c : SQAstNode) : course c = courseOf (fun _ => none) 3 c.commonchildren
    := by
  obtain ⟨type, typetag, opcode, source, children⟩ := c
  rw [course]
  rfl

/-- What a collection that stops at a type without members leaves, for the types with `paths` -/
structure Stopped (types types' : TypeTables hash) (paths : List (List String)) : Prop where
  stays : ∀ path, Entered types path → Entered types' path
  duplicate : ∃ before path after, paths = before ++ path :: after ∧
    (Entered types path ∨ path ∈ before)

/-- After types that are entered before -/
theorem Stopped.append {paths paths' : List (List String)} (h : Stopped types₁ types' paths')
    (hentered : ∀ path, Entered types₁ path ↔ Entered types path ∨ path ∈ paths)
    (rest : List (List String)) : Stopped types types' (paths ++ (paths' ++ rest)) where
  stays path hpath := h.stays path ((hentered path).mpr (.inl hpath))
  duplicate := by
    obtain ⟨before, path, after, rfl, hdup⟩ := h.duplicate
    refine ⟨paths ++ before, path, after ++ rest, by simp, ?_⟩
    rw [hentered, or_assoc] at hdup
    exact hdup.imp_right fun h => List.mem_append.mpr h

/-- A collection goes on as `courseOf` says. -/
theorem collectChildren_course (h : Scope types t childPrefix entered room) (hf : Formed types)
    (ht : t < types.length) (hin : Within types t)
    (hc : collectChildren t childPrefix cs types = (types', ok)) :
    (courseOf entered room cs = .allNew → ok = true ∧ Tidy types' t childPrefix) ∧
    (courseOf entered room cs = .emptyAgain → ok = false ∧ Tidy types' t childPrefix ∧
      Stopped types types' (childPaths (types.path t) cs)) := by
  induction cs using children_induction generalizing t childPrefix types types' ok entered room with
  | nil =>
    cases hc
    exact ⟨fun _ => ⟨rfl, h.toTidy⟩, fun hcourse => by simp [courseOf] at hcourse⟩
  | cons c cs ihc ih =>
    cases hname : definedName c.type with
    | none =>
      rw [collectChildren_skip hname] at hc
      rw [childPaths, typePaths_skip hname, courseOf, hname]
      exact ih h hf ht hin hc
    | some identifier =>
      obtain ⟨types₁, fresh, hnew, hcase⟩ := collectChildren_cons hname hc
      rw [courseOf, hname, childPaths, typePaths_eq hname]
      dsimp only
      cases hent : entered identifier with
      | some members =>
        cases members with
        | true => exact ⟨nofun, nofun⟩
        | false =>
          refine ⟨nofun, fun _ => ?_⟩
          obtain ⟨rfl, htidy, hstays, hdup⟩ := h.again hf ht hin hent hnew
          obtain ⟨-, rfl, rfl⟩ | ⟨htrue, -⟩ := hcase
          · exact ⟨rfl, htidy, hstays, [], _, _, rfl, .inl hdup⟩
          · cases htrue
      | none =>
        cases room with
        | zero => exact ⟨nofun, nofun⟩
        | succ room =>
          dsimp only
          obtain ⟨rfl, hadd⟩ := h.added ht hent hnew
          obtain ⟨hfalse, -⟩ | ⟨-, types₂, ok₂, hcollect, hcase⟩ := hcase
          · cases hfalse
          have hstored := hadd.stored
          have hlt : types.length < types₁.length := hstored.length ▸ Nat.lt_succ_self _
          have ht₁ := ht.trans hlt
          have hf₁ := hstored.formed hf
          have hin₁ := hstored.within hadd.absent hin
          have hinval : Within types₁ types.length :=
            .member hin₁ ((hstored.entry _ _ _).mpr (.inl ⟨rfl, rfl, rfl⟩))
          have hentered₁ := hstored.entered_iff hf hadd.absent hin
          have hkept₂ := collectChildren_kept hcollect hlt
          have hnewScope := Scope.new ht (childPrefix ++ identifier) (types.path t ++ [identifier])
            (prefixIn childPrefix c.type)
          rw [hnew] at hnewScope
          have hchild := ihc hnewScope hf₁ hlt hinval hcollect
          rw [← course_eq, hstored.path_new] at hchild
          cases hcourse : course c with
          | breaks => exact ⟨nofun, nofun⟩
          | emptyAgain =>
            refine ⟨nofun, fun _ => ?_⟩
            obtain ⟨rfl, -, hstopped⟩ := hchild.2 hcourse
            obtain ⟨-, rfl, rfl⟩ | ⟨hfalse, -⟩ := hcase
            swap
            · cases hfalse
            have htidy₂ := (h.toTidy.stored hf ht hstored hadd.fresh).congr hf₁ ht₁ hkept₂
              (collectChildren_slots hcollect hlt ht₁ ht.ne)
            have hone : ∀ path, Entered types₁ path ↔
                Entered types path ∨ path ∈ [types.path t ++ [identifier]] := by
              simpa using hentered₁
            exact ⟨rfl, htidy₂, hstopped.append hone _⟩
          | allNew =>
            obtain ⟨rfl, -⟩ := hchild.1 hcourse
            obtain ⟨hfalse, -⟩ | ⟨-, hrest⟩ := hcase
            · cases hfalse
            obtain ⟨-, hentered₂⟩ := collectChildren_entered hcollect hlt hf₁ hinval
            have hin₂ := hin₁.mono (collectChildren_entries hcollect hlt)
            have hnext := ih (h.next hf ht hadd hcollect) (hkept₂.formed hf₁)
              (ht₁.trans_le hkept₂.length_le) hin₂ hrest
            rw [hkept₂.path t ht₁, hstored.path_old t ht] at hnext
            refine ⟨hnext.1, fun hagain => ?_⟩
            obtain ⟨hok, htidy, hstopped⟩ := hnext.2 hagain
            have hboth : ∀ path, Entered types₂ path ↔ Entered types path ∨
                path ∈ (types.path t ++ [identifier]) ::
                  childPaths (types.path t ++ [identifier]) c.commonchildren := by
              intro path
              rw [hentered₂, hentered₁, hstored.path_new, List.mem_cons, or_assoc]
            exact ⟨hok, htidy, by simpa using hstopped.append hboth []⟩

end SQAstNode

/-! ## Runs -/

namespace TypeTables

open SQAstNode

variable {types types' : TypeTables hash} {children : List SQAstNode}

/-- What holds between documents while nothing breaks -/
structure Ordered (types : TypeTables hash) : Prop where
  formed : Formed types
  pos : 0 < types.length
  path : types.path 0 = []
  tidy : Tidy types 0 ""

private theorem ordered_create : Ordered ([.create []] : TypeTables hash) where
  formed := formed_create
  pos := Nat.one_pos
  path := rfl
  tidy :=
    { fresh := SQTable.fresh_allocNodes _
      named := fun key i he =>
        absurd (entry_iff_slots.mp he) ((SQTable.invariant_create hash 0).2 key i) }

private theorem usednodes_lt (types : TypeTables hash) (t : ℕ) :
    (types.slots t).usednodes < (types.slots t).numofnodes := by
  have hinv := types.slots_valid t
  have hsub : (types.slots t).liveNodes ⊆
      (Finset.range (types.slots t).numofnodes).erase (types.slots t).firstfree := by
    intro i hi
    rw [SQTable.mem_liveNodes] at hi
    obtain ⟨k, hk⟩ := Option.ne_none_iff_exists'.mp hi
    refine Finset.mem_erase.mpr ⟨?_, Finset.mem_range.mpr (SQTable.lt_of_key _ hk)⟩
    rintro rfl
    exact hi hinv.cursor_key
  have hcard := Finset.card_le_card hsub
  rw [Finset.card_erase_of_mem (Finset.mem_range.mpr hinv.cursor_lt), Finset.card_range] at hcard
  have := hinv.cursor_lt
  rw [hinv.used]
  omega

private theorem membersOf_of_entry {name : String} {i : ℕ} (he : Entry types 0 name i) :
    types.membersOf name = some ((types.slots i).usednodes != 0) := by
  obtain ⟨j, hj, rfl⟩ := entry_iff_slots.mp he
  have hinv := types.slots_valid 0
  obtain ⟨m, hget, hm⟩ | ⟨-, habs⟩ := hinv.get_spec name
  · obtain rfl := hinv.keys_inj j m name hj hm
    simp [membersOf, SQTable.get, hget, SQTable.valAt]
  · exact absurd hj (habs j)

private theorem membersOf_eq_none {name : String} (hnone : ∀ i, ¬ Entry types 0 name i) :
    types.membersOf name = none := by
  obtain ⟨m, -, hm⟩ | ⟨hget, -⟩ := (types.slots_valid 0).get_spec name
  · exact absurd (entry_iff_slots.mpr ⟨m, hm, rfl⟩) (hnone _)
  · simp [membersOf, SQTable.get, hget]

private theorem not_entry_of_usednodes {t : ℕ} (h : (types.slots t).usednodes = 0) (k : String)
    (i : ℕ) :
    ¬ Entry types t k i := by
  intro he
  obtain ⟨j, hj, -⟩ := entry_iff_slots.mp he
  rw [(types.slots_valid t).used, Finset.card_eq_zero] at h
  have hmem : j ∈ (types.slots t).liveNodes := SQTable.mem_liveNodes.mpr (by
    rw [hj]
    nofun)
  rw [h] at hmem
  exact absurd hmem (Finset.notMem_empty j)

/-- The table of the assembly between documents -/
theorem Ordered.scope (h : Ordered types) : Scope types 0 "" types.membersOf types.roomOf where
  toTidy := h.tidy
  room_eq := by
    have := types.usednodes_lt 0
    rw [roomOf]
    omega
  known name := by
    rw [String.empty_append]
    refine ⟨fun hnone i he => ?_, membersOf_eq_none⟩
    rw [membersOf_of_entry he] at hnone
    cases hnone
  empty name i hempty he k j := by
    rw [String.empty_append] at he
    rw [membersOf_of_entry he] at hempty
    exact not_entry_of_usednodes (by simpa using hempty) k j

/-- A document that is collectable loses nothing. -/
theorem Ordered.collect (h : Ordered types) (hc : types.Collectable children) :
    KeepsTypes types children ∧ Ordered (collectDocument children types).1 := by
  rcases hdocument : collectDocument children types with ⟨types', ok⟩
  have hres : collectChildren 0 "" children types = (types', ok) := hdocument
  have hkept := collectChildren_kept hres h.pos
  have hcourse := collectChildren_course h.scope h.formed h.pos .root hres
  rw [h.path] at hcourse
  have hordered : Tidy types' 0 "" → Ordered types' := fun htidy =>
    ⟨hkept.formed h.formed, h.pos.trans_le hkept.length_le, (hkept.path 0 h.pos).trans h.path,
      htidy⟩
  cases hcase : courseOf types.membersOf types.roomOf children with
  | breaks => exact absurd hcase hc
  | allNew =>
    obtain ⟨rfl, htidy⟩ := hcourse.1 hcase
    obtain ⟨-, hentered⟩ := collectChildren_entered hres h.pos h.formed .root
    rw [h.path] at hentered
    refine ⟨⟨fun path hpath => ?_, fun _ path hpath => ?_, fun hfalse => ?_⟩, hordered htidy⟩
    · rw [hdocument]
      exact (hentered path).mpr (.inl hpath)
    · rw [hdocument]
      exact (hentered path).mpr (.inr hpath)
    · rw [hdocument] at hfalse
      cases hfalse
  | emptyAgain =>
    obtain ⟨rfl, htidy, hstopped⟩ := hcourse.2 hcase
    refine ⟨⟨fun path hpath => ?_, fun htrue => ?_, fun _ => hstopped.duplicate⟩, hordered htidy⟩
    · rw [hdocument]
      exact hstopped.stays path hpath
    · rw [hdocument] at htrue
      cases htrue

/-- Whatever is collected, nothing is lost: neither by a document nor by those after it. -/
def LosesNothing (types : TypeTables hash) (documents : List (List SQAstNode)) : Prop :=
  ∀ before children after, documents = before ++ children :: after →
    KeepsTypes (collectAll before types) children ∧
      ∀ path, Entered (collectAll (before ++ [children]) types) path →
        Entered (collectAll documents types) path

private theorem collectAll_append (documents documents' : List (List SQAstNode))
    (types : TypeTables hash) :
    collectAll (documents ++ documents') types =
      collectAll documents' (collectAll documents types) := by
  induction documents generalizing types with
  | nil => rfl
  | cons children documents ih => exact ih _

theorem AllCollectable.append {documents documents' : List (List SQAstNode)}
    (h : types.AllCollectable (documents ++ documents')) :
    types.AllCollectable documents ∧ (collectAll documents types).AllCollectable documents' := by
  induction documents generalizing types with
  | nil => exact ⟨trivial, h⟩
  | cons children documents ih =>
    obtain ⟨hdocuments, hrest⟩ := ih h.2
    exact ⟨⟨h.1, hdocuments⟩, hrest⟩

/-- Over documents that are collectable one after the other everything stays. -/
theorem Ordered.collectAll (h : Ordered types) {documents : List (List SQAstNode)}
    (hc : types.AllCollectable documents) : Ordered (collectAll documents types) ∧
      ∀ path, Entered types path → Entered (collectAll documents types) path := by
  induction documents generalizing types with
  | nil => exact ⟨h, fun _ => id⟩
  | cons children documents ih =>
    obtain ⟨hkeeps, hordered⟩ := h.collect hc.1
    obtain ⟨hordered', hstays⟩ := ih hordered hc.2
    exact ⟨hordered', fun path hpath => hstays path (hkeeps.stays path hpath)⟩

/-- In a run from the empty table in which every document is collectable, nothing is lost. -/
theorem collected_losesNothing (documents : List (List SQAstNode))
    (h : AllCollectable ([.create []] : TypeTables hash) documents) :
    LosesNothing ([.create []] : TypeTables hash) documents := by
  rintro before children after rfl
  obtain ⟨hbefore, hchildren, hafter⟩ := AllCollectable.append h
  obtain ⟨hordered, -⟩ := ordered_create.collectAll hbefore
  obtain ⟨hkeeps, hordered'⟩ := hordered.collect hchildren
  refine ⟨hkeeps, fun path hpath => ?_⟩
  rw [collectAll_append] at hpath ⊢
  exact (hordered'.collectAll hafter).2 path hpath

theorem collected_losesNothing_two :
    LosesNothing ([.create []] : TypeTables String.length)
      [[namespaceNode "A" [namespaceNode "B" []]], [namespaceNode "C" []]] :=
  collected_losesNothing _ (by decide)

/-- The fourth namespace of a document is reported as a duplicate. -/
theorem collected_four_fails :
    ¬ ∀ (hash : String → ℕ) (documents : List (List SQAstNode)),
      LosesNothing ([.create []] : TypeTables hash) documents := by
  intro hall
  have hfails : (collectDocument (["A", "B", "C", "D"].map (namespaceNode · []))
      ([.create []] : TypeTables String.length)).2 = false := by decide
  have hkeeps := hall String.length [["A", "B", "C", "D"].map (namespaceNode · [])] [] _ [] rfl
  obtain ⟨before, path, after, hpaths, hdup⟩ := hkeeps.1.failure hfails
  have hnodup : (before ++ path :: after).Nodup := hpaths ▸ by decide
  obtain ⟨t, key, i, -, hentry, -⟩ | hbefore := hdup
  · obtain ⟨table, htable, hholds⟩ := hentry
    obtain rfl := List.mem_singleton.mp (List.mem_of_getElem? htable)
    exact TypeTable.not_holds_create key i [] hholds
  · exact (List.nodup_append.mp hnodup).2.2 path hbefore path List.mem_cons_self rfl

end TypeTables
end Squirt
