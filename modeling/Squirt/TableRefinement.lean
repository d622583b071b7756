import Squirt.TableIteration

/-!
# `SQTable` refines a finite map

A run works on a store of tables: it starts with one created table, and `clone` adds
one. The specification runs the same operations on finite maps.
-/

namespace Squirt

/-- A table value: a null, some other object, or a weak reference to an object that
may be gone. -/
inductive SQValue (R : Type*)
  | null
  | object (o : R)
  | weakref (obj : Option R)
  deriving DecidableEq

namespace SQValue
variable {R : Type*}

instance : Inhabited (SQValue R) := ⟨.null⟩

def realval : SQValue R → SQValue R
  | .weakref (some o) => .object o
  | .weakref none => .null
  | v => v

end SQValue

namespace SQTable
open LinkPaths

/-- The operations that change a table in place; keys are not null. -/
inductive Mutation (K V : Type*)
  | newSlot (key : K) (val : V)
  | set (key : K) (val : V)
  | remove (key : K)
  | clear

/-- An operation on the table with the given number. -/
inductive Op (K V : Type*)
  | mutate (i : ℕ) (m : Mutation K V)
  | clone (i : ℕ)

variable {K V : Type*} [DecidableEq K]

def Mutation.onMap (m : FinMap K V) : Mutation K V → FinMap K V
  | .newSlot k v => m.insert k v
  | .set k v => if k ∈ m then m.insert k v else m
  | .remove k => m.erase k
  | .clear => ∅

/-- One operation on a store of finite maps. A number without a table does nothing. -/
def specStep (maps : List (FinMap K V)) : Op K V → List (FinMap K V)
  | .mutate i c => match maps[i]? with
    | some m => maps.set i (c.onMap m)
    | none => maps
  | .clone i => match maps[i]? with
    | some m => maps ++ [m]
    | none => maps

def specRun (maps : List (FinMap K V)) (ops : List (Op K V)) :
    List (FinMap K V) :=
  ops.foldl specStep maps

variable [Inhabited V]

/-- `none` is a loop that ran out of steps. -/
def Mutation.onTable (hash : K → ℕ) (t : SQTable K V) : Mutation K V → Option (SQTable K V)
  | .newSlot k v => (SQTable.newSlot hash depth t k v).map Prod.fst
  | .set k v => (t.set hash (some k) v).map Prod.fst
  | .remove k => t.remove hash (some k)
  | .clear => t.clear hash

def step (hash : K → ℕ) (realval : V → V) (tables : List (SQTable K V)) :
    Op K V → Option (List (SQTable K V))
  | .mutate i c => match tables[i]? with
    | some t => (c.onTable hash t).map (tables.set i)
    | none => some tables
  | .clone i => match tables[i]? with
    | some t => (t.clone hash realval).map fun nt => tables ++ [nt]
    | none => some tables

def run (hash : K → ℕ) (realval : V → V) (tables : List (SQTable K V)) (ops : List (Op K V)) :
    Option (List (SQTable K V)) :=
  ops.foldlM (step hash realval) tables

/-- Table number `i` represents map number `i`, for every `i`. -/
structure Simulates (hash : K → ℕ) (tables : List (SQTable K V))
    (maps : List (FinMap K V)) : Prop where
  length : tables.length = maps.length
  inv : ∀ (i : ℕ) (t : SQTable K V) (m : FinMap K V), tables[i]? = some t → maps[i]? = some m →
    Invariant hash t ∧ Represents t m

variable {hash : K → ℕ} {realval : V → V} {tables : List (SQTable K V)}
  {maps : List (FinMap K V)}

theorem Simulates.lookup (h : Simulates hash tables maps) (i : ℕ) :
    (tables[i]? = none ∧ maps[i]? = none) ∨ ∃ t m, tables[i]? = some t ∧ maps[i]? = some m ∧
      Invariant hash t ∧ Represents t m := by
  by_cases hi : i < tables.length
  · have hm : i < maps.length := h.length ▸ hi
    have ht := List.getElem?_eq_getElem hi
    have hm := List.getElem?_eq_getElem hm
    exact .inr ⟨_, _, ht, hm, h.inv i _ _ ht hm⟩
  · exact .inl ⟨List.getElem?_eq_none (not_lt.mp hi),
      List.getElem?_eq_none (h.length ▸ not_lt.mp hi)⟩

theorem Simulates.set (h : Simulates hash tables maps) (i : ℕ) {t : SQTable K V}
    {m : FinMap K V} (ht : Invariant hash t) (hm : Represents t m) :
    Simulates hash (tables.set i t) (maps.set i m) := by
  refine ⟨by simp [h.length], fun j t' m' hj hj' => ?_⟩
  rw [List.getElem?_set] at hj hj'
  by_cases hij : i = j
  · subst hij
    simp only [if_true] at hj hj'
    split_ifs at hj hj'
    exact Option.some.inj hj ▸ Option.some.inj hj' ▸ ⟨ht, hm⟩
  · rw [if_neg hij] at hj hj'
    exact h.inv j t' m' hj hj'

theorem Simulates.append (h : Simulates hash tables maps) {t : SQTable K V}
    {m : FinMap K V} (ht : Invariant hash t) (hm : Represents t m) :
    Simulates hash (tables ++ [t]) (maps ++ [m]) := by
  refine ⟨by simp [h.length], fun j t' m' hj hj' => ?_⟩
  by_cases hlt : j < tables.length
  · rw [List.getElem?_append_left hlt] at hj
    rw [List.getElem?_append_left (h.length ▸ hlt)] at hj'
    exact h.inv j t' m' hj hj'
  · rw [List.getElem?_append_right (not_lt.mp hlt)] at hj
    rw [List.getElem?_append_right (h.length ▸ not_lt.mp hlt), ← h.length] at hj'
    generalize j - tables.length = d at hj hj'
    cases d with
    | zero => exact Option.some.inj hj ▸ Option.some.inj hj' ▸ ⟨ht, hm⟩
    | succ d => simp at hj

private theorem Invariant.onTable_spec {t : SQTable K V} {m : FinMap K V}
    (h : Invariant hash t) (hr : Represents t m) (c : Mutation K V) :
    ∃ t', c.onTable hash t = some t' ∧ Invariant hash t' ∧ Represents t' (c.onMap m) := by
  cases c with
  | newSlot k v =>
    obtain ⟨t', b, hns, hup⟩ := h.newSlot_spec k v
    exact ⟨t', by simp [Mutation.onTable, hns], hup.inv, hup.represents hr⟩
  | set k v =>
    obtain ⟨t', b, hs, hinv, hr'⟩ := h.set_spec hr k v
    exact ⟨t', by simp [Mutation.onTable, hs], hinv, hr'⟩
  | remove k => exact h.remove_spec hr k
  | clear => exact h.clear_spec

variable (realval) in
/-- One operation. -/
theorem Simulates.step (h : Simulates hash tables maps) (op : Op K V) :
    ∃ tables', SQTable.step hash realval tables op = some tables' ∧
      Simulates hash tables' (specStep maps op) := by
  cases op with
  | mutate i c =>
    rcases h.lookup i with ⟨ht, hm⟩ | ⟨t, m, ht, hm, hinv, hr⟩
    · exact ⟨tables, by simp [SQTable.step, ht], by simpa [specStep, hm] using h⟩
    · obtain ⟨t', hop, hinv', hr'⟩ := hinv.onTable_spec hr c
      refine ⟨tables.set i t', by simp [SQTable.step, ht, hop], ?_⟩
      simpa [specStep, hm] using h.set i hinv' hr'
  | clone i =>
    rcases h.lookup i with ⟨ht, hm⟩ | ⟨t, m, ht, hm, hinv, hr⟩
    · exact ⟨tables, by simp [SQTable.step, ht], by simpa [specStep, hm] using h⟩
    · obtain ⟨nt, hclone, hse⟩ := hinv.clone_spec realval
      refine ⟨tables ++ [nt], by simp [SQTable.step, ht, hclone], ?_⟩
      simpa [specStep, hm] using h.append hse.inv (hse.represents hr)

variable (realval) in
/-- Any sequence of operations. -/
theorem Simulates.run (ops : List (Op K V)) : ∀ {tables : List (SQTable K V)}
    {maps : List (FinMap K V)}, Simulates hash tables maps →
      ∃ tables', SQTable.run hash realval tables ops = some tables' ∧
        Simulates hash tables' (specRun maps ops) := by
  induction ops with
  | nil => exact fun h => ⟨_, rfl, h⟩
  | cons op ops ih =>
    intro tables maps h
    obtain ⟨tables₁, hstep, h₁⟩ := h.step realval op
    obtain ⟨tables', hrun, h'⟩ := ih h₁
    exact ⟨tables', by simpa [SQTable.run, List.foldlM_cons, hstep] using hrun, h'⟩

private theorem simulates_create (hash : K → ℕ) (n : ℕ) :
    Simulates hash [(create n : SQTable K V)] [∅] := by
  obtain ⟨hinv, hempty⟩ := invariant_create (V := V) hash n
  refine ⟨rfl, fun i t m ht hm => ?_⟩
  cases i with
  | zero =>
    obtain rfl := Option.some.inj ht
    obtain rfl := Option.some.inj hm
    exact ⟨hinv, fun k v => by simpa using hempty k v⟩
  | succ i => simp at ht

/-- Everything a program can see of a table that stands for the map `m`, and why the
loops over its chains end. -/
structure Behaves (hash : K → ℕ) (realval : V → V) (t : SQTable K V)
    (m : FinMap K V) : Prop where
  get : ∀ k, t.get hash realval (some k) = some ((m.lookup k).map realval)
  countUsed : t.countUsed = m.keys.card
  iterate : ∃ l, t.iterate realval false (t.numofnodes + 1) none = some l ∧
    (l.map Prod.fst).Nodup ∧ ∀ k v, (k, v) ∈ l ↔ ∃ w, m.lookup k = some w ∧ v = realval w
  paths_disjoint : VertexDisjoint t.nextAt
  paths_acyclic : ∀ p, ∃ l, Walk t.nextAt p l ∧ l.Nodup
  home_path : ∀ i k, t.keyAt i = some k → OnPath t.nextAt (t.mainPosition hash (some k)) i
  get_ends : ∀ key, (t._Get hash key).isSome
  newSlot_ends : ∀ k v, (newSlot hash depth t k v).isSome
  rehash_ends : ∀ force, (rehash hash depth t force).isSome

theorem Invariant.behaves {t : SQTable K V} {m : FinMap K V} (h : Invariant hash t)
    (hr : Represents t m) (realval : V → V) : Behaves hash realval t m := by
  refine
    { get := h.toChained.get_eq hr
      countUsed := h.used.trans (hr.card h.keys_inj)
      iterate := ?_
      paths_disjoint := h.disjoint
      paths_acyclic := fun p => ?_
      home_path := h.home_path
      get_ends := h.get_ends
      newSlot_ends := fun k v => ?_
      rehash_ends := fun force => ?_ }
  · obtain ⟨l, hl, hnd, hmem⟩ := h.toChained.iterate_spec realval
    exact ⟨l, hl, hnd, fun k v => by simp only [hmem, hr k]⟩
  · obtain ⟨l, hl⟩ := h.acyclic.exists_walk p
    exact ⟨l, hl, hl.nodup h.acyclic⟩
  · obtain ⟨t', b, hns, _⟩ := h.newSlot_spec k v
    rw [hns]
    rfl
  · obtain ⟨t', hrh, _⟩ := h.rehash_spec force
    rw [hrh]
    rfl

/-- Whatever the hash function and whatever the operations, a table behaves as the
finite map of the same operations. A value comes back through `_realval`. -/
theorem table_refines_map {R : Type*} (hash : K → ℕ) (nInitialSize : ℕ)
    (ops : List (Op K (SQValue R))) :
    ∃ tables, run hash SQValue.realval [create nInitialSize] ops = some tables ∧
      tables.length = (specRun [∅] ops).length ∧
      ∀ (i : ℕ) (t : SQTable K (SQValue R)) (m : FinMap K (SQValue R)),
        tables[i]? = some t → (specRun [∅] ops)[i]? = some m →
        Behaves hash SQValue.realval t m := by
  obtain ⟨tables, hrun, h⟩ :=
    Simulates.run SQValue.realval ops (simulates_create hash nInitialSize)
  refine ⟨tables, hrun, h.length, fun i t m ht hm => ?_⟩
  obtain ⟨hinv, hr⟩ := h.inv i t m ht hm
  exact hinv.behaves hr SQValue.realval

/-- The value last written need not come back as it was: after writing a weak
reference to an object, `Get` answers the object. -/
theorem get_weakref_not_last_written :
    ¬ ∀ (hash : ℕ → ℕ) (ops : List (Op ℕ (SQValue Unit)))
        (tables : List (SQTable ℕ (SQValue Unit))),
      run hash SQValue.realval [create 0] ops = some tables →
      ∀ (i : ℕ) (t : SQTable ℕ (SQValue Unit)) (m : FinMap ℕ (SQValue Unit)),
        tables[i]? = some t → (specRun [∅] ops)[i]? = some m →
        ∀ k, t.get hash SQValue.realval (some k) = some (m.lookup k) := by
  intro hall
  have h := hall id [.mutate 0 (.newSlot 7 (.weakref (some ())))] _ rfl 0 _ _ rfl rfl 7
  simp only [Mutation.onMap, Finmap.lookup_insert] at h
  exact absurd h (by decide)

end SQTable
end Squirt
