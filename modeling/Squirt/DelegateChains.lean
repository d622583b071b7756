import Squirt.SlotOperations
import Squirt.LinkPaths

/-!
# Chains of delegates

The delegates of tables form no cycle, whatever tables, classes and instances are made, cloned and
given delegates. So lookup along the delegates ends.
-/

namespace Squirt

open LinkPaths

/-- A table, or the table of the members of a class -/
inductive TableRef
  | table (r : ℕ)
  | members (c : ℕ)
  deriving DecidableEq

namespace Store

/-- The delegation relation between tables -/
def link (s : Store) : TableRef → Option TableRef
  | .table r => (s.delegate (.table r)).map .table
  | .members c => ((s.memberDelegates[c]?).bind id).map .table

def stackGet (s : Store) (idx : ℤ) : Option SQObject :=
  if 0 ≤ idx then s.vm.slot (idx + s.vm.stackbase - 1) else s.vm.slot (s.vm.top + idx)

def throwerror (s : Store) (err : String) : Store := { s with vm := s.vm.raiseError err }

/-- `v->Pop()` after a delegate has been set -/
def popped (s : Store) : Option (Store × Bool) :=
  (s.vm.pop 1).map fun vm => ({ s with vm := vm }, true)

/-- `sq_setdelegate`; the `Bool` is whether it returns `SQ_OK`. -/
def sq_setdelegate (s : Store) (fuel : ℕ) (idx : ℤ) : Option (Store × Bool) :=
  (s.stackGet idx).bind fun self => (s.vm.slot (s.vm.top - 1)).bind fun mt =>
    match self, mt with
    | .table _, .table r => (s.setDelegate fuel self (some r)).bind fun (s, ok) =>
      if ok then s.popped else some (s.throwerror "delagate cycle", false)
    | .userdata _, .table r => (s.setDelegate fuel self (some r)).bind fun (s, _) => s.popped
    | .table _, .null | .userdata _, .null =>
      (s.setDelegate fuel self none).bind fun (s, _) => s.popped
    | self, _ => some (s.throwerror s!"unexpected type {self.typeName}", false)

/-- The delegates of all objects that have one -/
def delegates (s : Store) : List (Option ℕ) × List (Option ℕ) × List (Option ℕ) :=
  (s.tables.map Table.delegate, s.userdata, s.memberDelegates)

/-- What the operations on delegates lead to; everything else that happens leaves the delegates
alone. -/
inductive Reachable : Store → Prop
  | start {s : Store} (htables : ∀ t ∈ s.tables, t.delegate = none) (huserdata : s.userdata = [])
    (hclasses : s.memberDelegates = []) : Reachable s
  | createTable {s : Store} (h : Reachable s) :
    Reachable { s with tables := s.tables ++ [⟨∅, none⟩] }
  | cloneTable {s s' : Store} {fuel r nt : ℕ} (h : Reachable s)
    (hs : s.cloneTable fuel r = some (nt, s')) : Reachable s'
  | createUserdata {s : Store} (h : Reachable s) :
    Reachable { s with userdata := s.userdata ++ [none] }
  | setdelegate {s s' : Store} {fuel : ℕ} {idx : ℤ} {ok : Bool} (h : Reachable s)
    (hs : s.sq_setdelegate fuel idx = some (s', ok)) : Reachable s'
  | createClass {s s' : Store} {base : Option ℕ} {n : ℕ} (h : Reachable s)
    (hs : s.createClass base = some (n, s')) : Reachable s'
  | finalize {s s' : Store} {fuel r : ℕ} {ok : Bool} (h : Reachable s)
    (hs : (s.setSlots r fun _ => ∅).setDelegate fuel (.table r) none = some (s', ok)) : Reachable s'
  | other {s s' : Store} (h : Reachable s) (hs : s'.delegates = s.delegates) : Reachable s'

variable {s s' : Store}

@[simp] theorem link_table (s : Store) (r : ℕ) :
    s.link (.table r) = (s.delegate (.table r)).map .table := rfl

/-- The tables of members are the first of their chains. -/
theorem acyclic_congr (h : Acyclic s.link)
    (ht : ∀ r, s'.delegate (.table r) = s.delegate (.table r)) : Acyclic s'.link := by
  obtain ⟨rank, hrank⟩ := h
  refine ⟨fun
    | .table r => rank (.table r)
    | .members c => match s'.link (.members c) with
      | some t => rank t + 1
      | none => 0, ?_⟩
  intro x y hxy
  obtain ⟨t, rfl⟩ : ∃ t, y = .table t := by
    cases x with
    | table r =>
      obtain ⟨t, -, ht⟩ := Option.map_eq_some_iff.mp hxy
      exact ⟨t, ht.symm⟩
    | members c =>
      obtain ⟨t, -, ht⟩ := Option.map_eq_some_iff.mp hxy
      exact ⟨t, ht.symm⟩
  cases x with
  | table r =>
    rw [link_table, ht, ← link_table] at hxy
    exact hrank _ _ hxy
  | members c =>
    dsimp only
    rw [hxy]
    exact Nat.lt_succ_self _

theorem delegate_congr (h : s'.tables.map Table.delegate = s.tables.map Table.delegate) (r : ℕ) :
    s'.delegate (.table r) = s.delegate (.table r) := by
  have htable : ∀ s : Store, s.delegate (.table r) =
      ((s.tables.map Table.delegate)[r]?).bind id := by
    intro s
    rw [List.getElem?_map, Option.bind_map]
    rfl
  rw [htable, htable, h]

/-- A new table has no delegate. -/
theorem delegate_append {t : Table} (ht : t.delegate = none) (r : ℕ) :
    ({ s with tables := s.tables ++ [t] } : Store).delegate (.table r) = s.delegate (.table r) := by
  change ((s.tables ++ [t])[r]?).bind Table.delegate = (s.tables[r]?).bind Table.delegate
  obtain hr | hr := Nat.lt_or_ge r s.tables.length
  · rw [List.getElem?_append_left hr]
  · rw [List.getElem?_append_right hr, List.getElem?_eq_none hr]
    cases r - s.tables.length with
    | zero => exact ht
    | succ n => rfl

/-! ## SetDelegate -/

theorem link_putDelegate {r : ℕ} (hr : r < s.tables.length) (mt : Option ℕ) :
    (s.putDelegate (.table r) mt).link =
      Function.update s.link (.table r) (mt.map TableRef.table) := by
  funext x
  rw [Function.update_apply]
  cases x with
  | table r' =>
    have hget : (s.putDelegate (.table r) mt).delegate (.table r') =
        if r' = r then mt else s.delegate (.table r') := by
      change ((s.tables.modify r fun t => { t with delegate := mt })[r']?).bind Table.delegate = _
      rw [List.getElem?_modify]
      split
      · subst r'
        rw [List.getElem?_eq_getElem hr, if_pos rfl]
        rfl
      · rename_i hne
        rw [if_neg (Ne.symm hne), id_map']
        rfl
    rw [link_table, link_table, hget]
    by_cases hrr : r' = r
    · rw [if_pos hrr, if_pos (by rw [hrr])]
    · rw [if_neg hrr, if_neg (fun h => hrr (TableRef.table.inj h))]
  | members c =>
    rw [if_neg nofun]
    rfl

/-- The loop follows the chain: it finds an object that the chain leads to, and no other. -/
theorem closesCycle_eq {r fuel t : ℕ} {cycle : Bool}
    (h : s.closesCycle (.table r) fuel (some t) = some cycle) :
    cycle = true ↔ Relation.TransGen (fun x y => s.link x = some y) (.table t) (.table r) := by
  induction fuel generalizing t with
  | zero => cases h
  | succ fuel ih =>
    unfold closesCycle at h
    split at h
    · rename_i hnone
      cases h
      refine iff_of_false Bool.false_ne_true ?_
      intro hpath
      obtain ⟨x, hx, -⟩ := Relation.TransGen.head'_iff.mp hpath
      rw [link_table, hnone] at hx
      cases hx
    · rename_i d hd
      have hlink : s.link (.table t) = some (.table d) := by
        rw [link_table, hd, Option.map_some]
      split at h
      · rename_i heq
        cases h
        cases heq
        exact iff_of_true rfl (.single hlink)
      · rename_i hne
        rw [ih h]
        constructor
        · exact fun hpath => .head hlink hpath
        · intro hpath
          obtain ⟨x, hx, hrest⟩ := Relation.TransGen.head'_iff.mp hpath
          rw [hlink] at hx
          cases hx
          obtain heq | hpath := Relation.reflTransGen_iff_eq_or_transGen.mp hrest
          · exact absurd (congrArg _ (TableRef.table.inj heq)) hne
          · exact hpath

private theorem closesCycle_userdata {u fuel : ℕ} {mt : Option ℕ} {cycle : Bool}
    (h : s.closesCycle (.userdata u) fuel mt = some cycle) : cycle = false := by
  induction fuel generalizing mt with
  | zero =>
    cases mt with
    | none => exact (Option.some.inj h).symm
    | some t => cases h
  | succ fuel ih =>
    cases mt with
    | none => exact (Option.some.inj h).symm
    | some t =>
      unfold closesCycle at h
      split at h
      · exact (Option.some.inj h).symm
      · rename_i d hd
        rw [if_neg nofun] at h
        exact ih h

/-- How far the loop may go -/
def height (rank : TableRef → ℕ) : Option ℕ → ℕ
  | none => 0
  | some t => rank (.table t) + 1

/-- The ranks drop along the delegates. -/
def Ranked (s : Store) (rank : TableRef → ℕ) : Prop :=
  ∀ x y, s.link x = some y → rank y < rank x

theorem Ranked.height_le {rank : TableRef → ℕ} (h : s.Ranked rank) (t : ℕ) :
    height rank (s.delegate (.table t)) ≤ rank (.table t) := by
  cases hd : s.delegate (.table t) with
  | none => exact Nat.zero_le _
  | some d =>
    apply h
    rw [link_table, hd, Option.map_some]

theorem Ranked.closesCycle {rank : TableRef → ℕ} (h : s.Ranked rank) (self : SQObject) {fuel : ℕ}
    {mt : Option ℕ} (hfuel : height rank mt ≤ fuel) :
    ∃ cycle, s.closesCycle self fuel mt = some cycle := by
  induction fuel generalizing mt with
  | zero =>
    cases mt with
    | none => exact ⟨false, rfl⟩
    | some t => exact absurd hfuel (Nat.not_succ_le_zero _)
  | succ fuel ih =>
    cases mt with
    | none => exact ⟨false, rfl⟩
    | some t =>
      have hle := (h.height_le t).trans (Nat.le_of_succ_le_succ hfuel)
      unfold Store.closesCycle
      cases hd : s.delegate (.table t) with
      | none => exact ⟨false, rfl⟩
      | some d =>
        rw [hd] at hle
        dsimp only
        split
        · exact ⟨true, rfl⟩
        · exact ih hle

/-- `mt` is the table itself or leads to it. -/
def LeadsTo (s : Store) (mt : Option ℕ) (r : ℕ) : Prop :=
  ∃ t, mt = some t ∧ OnPath s.link (.table t) (.table r)

theorem setDelegate_table {r fuel : ℕ} {mt : Option ℕ} {ok : Bool}
    (h : s.setDelegate fuel (.table r) mt = some (s', ok)) :
    ok = true ∧ s' = s.putDelegate (.table r) mt ∧ ¬ s.LeadsTo mt r ∨
      ok = false ∧ s' = s ∧ s.LeadsTo mt r := by
  unfold setDelegate at h
  split at h
  · rename_i hself
    cases h
    obtain ⟨t, ht, heq⟩ := Option.map_eq_some_iff.mp hself
    cases heq
    exact .inr ⟨rfl, rfl, r, ht, .refl⟩
  · rename_i hself
    obtain ⟨cycle, hcycle, heq⟩ := Option.map_eq_some_iff.mp h
    cases mt with
    | none =>
      cases fuel <;> cases hcycle <;> cases heq <;>
        exact .inl ⟨rfl, rfl, by rintro ⟨t, ⟨⟩, -⟩⟩
    | some t =>
      have hcycle := closesCycle_eq hcycle
      have hpath : OnPath s.link (.table t) (.table r) ↔ cycle = true := by
        rw [hcycle, OnPath, Relation.reflTransGen_iff_eq_or_transGen]
        refine ⟨fun hor => hor.resolve_left ?_, .inr⟩
        rintro ⟨⟩
        exact hself rfl
      cases cycle with
      | false =>
        cases heq
        refine .inl ⟨rfl, rfl, ?_⟩
        rintro ⟨t', ⟨⟩, hp⟩
        exact absurd (hpath.mp hp) Bool.false_ne_true
      | true =>
        cases heq
        exact .inr ⟨rfl, rfl, t, rfl, hpath.mpr rfl⟩

theorem acyclic_putDelegate {r : ℕ} {mt : Option ℕ} (h : Acyclic s.link)
    (hno : ¬ s.LeadsTo mt r) : Acyclic (s.putDelegate (.table r) mt).link := by
  by_cases hr : r < s.tables.length
  · rw [link_putDelegate hr]
    cases mt with
    | none => exact h.update_none
    | some t => exact h.update fun hpath => hno ⟨t, rfl, hpath⟩
  · apply acyclic_congr h
    apply delegate_congr
    change (s.tables.modify r fun t => { t with delegate := mt }).map Table.delegate = _
    rw [List.modify_eq_self (Nat.not_lt.mp hr)]

/-- Some table leads back to itself. -/
def Cyclic (s : Store) : Prop := ∃ t, Relation.TransGen (fun x y => s.link x = some y) t t

private theorem not_cyclic (h : Acyclic s.link) : ¬ s.Cyclic := fun ⟨_, ht⟩ => h.not_transGen ht

/-- `SetDelegate` refuses just the assignments that would close a cycle. -/
theorem leadsTo_iff {r : ℕ} (hr : r < s.tables.length) (mt : Option ℕ) (h : Acyclic s.link) :
    s.LeadsTo mt r ↔ (s.putDelegate (.table r) mt).Cyclic := by
  constructor
  · rintro ⟨t, rfl, hpath⟩
    refine ⟨.table r, ?_⟩
    rw [link_putDelegate hr]
    exact hpath.transGen_update
  · intro hcyclic
    by_contra hno
    exact not_cyclic (acyclic_putDelegate h hno) hcyclic

theorem setDelegate_userdata {u fuel : ℕ} {mt : Option ℕ} {ok : Bool}
    (h : s.setDelegate fuel (.userdata u) mt = some (s', ok)) :
    ok = true ∧ s' = s.putDelegate (.userdata u) mt := by
  unfold setDelegate at h
  rw [if_neg (by cases mt <;> nofun)] at h
  obtain ⟨cycle, hcycle, heq⟩ := Option.map_eq_some_iff.mp h
  rw [closesCycle_userdata hcycle] at heq
  cases heq
  exact ⟨rfl, rfl⟩

theorem setDelegate_acyclic {self : SQObject} {fuel : ℕ} {mt : Option ℕ} {ok : Bool}
    (hself : (∃ r, self = .table r) ∨ ∃ u, self = .userdata u)
    (h : s.setDelegate fuel self mt = some (s', ok)) (hs : Acyclic s.link) : Acyclic s'.link := by
  obtain ⟨r, rfl⟩ | ⟨u, rfl⟩ := hself
  · obtain ⟨-, rfl, hno⟩ | ⟨-, rfl, -⟩ := setDelegate_table h
    · exact acyclic_putDelegate hs hno
    · exact hs
  · obtain ⟨-, rfl⟩ := setDelegate_userdata h
    exact hs

private theorem cloneTable_acyclic {fuel r nt : ℕ} (h : s.cloneTable fuel r = some (nt, s'))
    (hs : Acyclic s.link) : Acyclic s'.link := by
  obtain ⟨t, -, h⟩ := Option.bind_eq_some_iff.mp h
  obtain ⟨⟨s₁, ok⟩, hset, heq⟩ := Option.map_eq_some_iff.mp h
  cases heq
  apply setDelegate_acyclic (.inl ⟨_, rfl⟩) hset
  exact acyclic_congr hs (delegate_append rfl)

private theorem popped_acyclic {ok : Bool} (h : s.popped = some (s', ok)) (hs : Acyclic s.link) :
    Acyclic s'.link := by
  obtain ⟨vm, -, heq⟩ := Option.map_eq_some_iff.mp h
  cases heq
  exact hs

private theorem sq_setdelegate_acyclic {fuel : ℕ} {idx : ℤ} {ok : Bool}
    (h : s.sq_setdelegate fuel idx = some (s', ok)) (hs : Acyclic s.link) : Acyclic s'.link := by
  obtain ⟨self, -, h⟩ := Option.bind_eq_some_iff.mp h
  obtain ⟨mt, -, h⟩ := Option.bind_eq_some_iff.mp h
  split at h
  · obtain ⟨⟨s₁, ok₁⟩, hset, h⟩ := Option.bind_eq_some_iff.mp h
    have hs₁ := setDelegate_acyclic (.inl ⟨_, rfl⟩) hset hs
    dsimp only at h
    split at h
    · exact popped_acyclic h hs₁
    · cases h
      exact hs₁
  · obtain ⟨⟨s₁, ok₁⟩, hset, h⟩ := Option.bind_eq_some_iff.mp h
    exact popped_acyclic h (setDelegate_acyclic (.inr ⟨_, rfl⟩) hset hs)
  · obtain ⟨⟨s₁, ok₁⟩, hset, h⟩ := Option.bind_eq_some_iff.mp h
    exact popped_acyclic h (setDelegate_acyclic (.inl ⟨_, rfl⟩) hset hs)
  · obtain ⟨⟨s₁, ok₁⟩, hset, h⟩ := Option.bind_eq_some_iff.mp h
    exact popped_acyclic h (setDelegate_acyclic (.inr ⟨_, rfl⟩) hset hs)
  · cases h
    exact hs

theorem Reachable.acyclic (h : Reachable s) : Acyclic s.link := by
  induction h with
  | @start s htables _ hclasses =>
    refine ⟨fun _ => 0, ?_⟩
    intro x y hxy
    cases x with
    | table r =>
      obtain ⟨d, hd, -⟩ := Option.map_eq_some_iff.mp hxy
      obtain ⟨t, ht, hdelegate⟩ := Option.bind_eq_some_iff.mp hd
      rw [htables t (List.mem_of_getElem? ht)] at hdelegate
      cases hdelegate
    | members c =>
      obtain ⟨d, hd, -⟩ := Option.map_eq_some_iff.mp hxy
      rw [hclasses] at hd
      cases hd
  | createTable _ ih => exact acyclic_congr ih (delegate_append rfl)
  | cloneTable _ hs ih => exact cloneTable_acyclic hs ih
  | createUserdata _ ih => exact acyclic_congr ih fun r => rfl
  | setdelegate _ hs ih => exact sq_setdelegate_acyclic hs ih
  | createClass _ hs ih =>
    obtain ⟨heap, -, heq⟩ := Option.map_eq_some_iff.mp hs
    cases heq
    exact acyclic_congr ih fun r => rfl
  | @finalize s s' fuel r ok _ hs ih =>
    apply setDelegate_acyclic (.inl ⟨_, rfl⟩) hs
    apply acyclic_congr ih
    apply delegate_congr
    apply List.ext_getElem?
    intro n
    unfold setSlots
    rw [List.getElem?_map, List.getElem?_map, List.getElem?_modify]
    cases s.tables[n]? with
    | none => rfl
    | some t => by_cases hr : r = n <;> simp [hr]
  | other _ hs ih =>
    apply acyclic_congr ih
    exact delegate_congr (congrArg Prod.fst hs)

end Store

end Squirt
