import Squirt.TableIteration

/-!
# What `NewSlot` and `Set` report

`NewSlot` says whether it has made the slot and `Set` whether it has found it. The first is wrong
when the array has to grow, the second for the null key.
-/

namespace Squirt.SQTable
open LinkPaths

variable {K V : Type*} [Inhabited V]

/-- A node where the cursor can stop -/
def Open (t : SQTable K V) (i : ℕ) : Prop := t.keyAt i = none ∧ t.nextAt i = none

/-- One more key leaves a node for the cursor: the key has its main position for itself and that
is not the cursor, or there is an open node below the cursor. -/
def HasRoom (hash : K → ℕ) (t : SQTable K V) (k : K) : Prop :=
  (t.keyAt (t.mainPosition hash (some k)) = none ∧ t.mainPosition hash (some k) ≠ t.firstfree) ∨
    ∃ i < t.firstfree, t.Open i

variable [DecidableEq K]

/-- The tables that the operations lead to. `Set` may be asked for the null key; the callers of
`Remove` have found the key with `Get` before. -/
inductive Reachable (hash : K → ℕ) (realval : V → V) : SQTable K V → Prop
  | create (nInitialSize : ℕ) : Reachable hash realval (create nInitialSize)
  | newSlot {t t' : SQTable K V} {k : K} {v : V} {b : Bool} (h : Reachable hash realval t)
    (hs : newSlot hash depth t k v = some (t', b)) : Reachable hash realval t'
  | set {t t' : SQTable K V} {key : Option K} {v : V} {b : Bool} (h : Reachable hash realval t)
    (hs : t.set hash key v = some (t', b)) : Reachable hash realval t'
  | remove {t t' : SQTable K V} {k : K} (h : Reachable hash realval t)
    (hs : t.remove hash (some k) = some t') : Reachable hash realval t'
  | clear {t t' : SQTable K V} (h : Reachable hash realval t) (hs : t.clear hash = some t') :
    Reachable hash realval t'
  | clone {t t' : SQTable K V} (h : Reachable hash realval t)
    (hs : t.clone hash realval = some t') : Reachable hash realval t'

variable {hash : K → ℕ} {realval : V → V} {t t₁ : SQTable K V} {k : K}

/-- The search from the main position of the null key -/
theorem Chained.get_null (h : Chained hash t) :
    (∃ i, t._Get hash none = some (some i) ∧ i < t.numofnodes ∧ OnPath t.nextAt 0 i ∧
      t.keyAt i = none) ∨
    (t._Get hash none = some none ∧ ∀ i, OnPath t.nextAt 0 i → t.keyAt i ≠ none) := by
  have hmain : t.mainPosition hash none = 0 := Nat.zero_and _
  have hm := t.mainPosition_lt hash h.size_pos none
  obtain ⟨l, hl⟩ := h.acyclic.exists_walk (t.mainPosition hash none)
  have hg := getLoop_eq_find none hl _ (h.walk_length_le hm hl)
  cases hf : l.find? (fun j => decide (t.keyAt j = none)) with
  | some i =>
    have hi := List.mem_of_find?_eq_some hf
    refine .inl ⟨i, by rw [_Get, hg, hf], h.walk_lt hm hl i hi, ?_, ?_⟩
    · exact hmain ▸ (hl.mem_iff i).mp hi
    · simpa using List.find?_some hf
  | none =>
    refine .inr ⟨by rw [_Get, hg, hf], fun i hi hnone => ?_⟩
    have hmem := (hl.mem_iff i).mpr (hmain ▸ hi)
    simpa [hnone] using List.find?_eq_none.mp hf i hmem

/-- `Set` ends, whatever the key, and keeps the table in order. -/
theorem Invariant.set_keeps (h : Invariant hash t) {m : FinMap K V} (hr : Represents t m)
    {t' : SQTable K V} {key : Option K} {v : V} {b : Bool} (hs : t.set hash key v = some (t', b)) :
    Invariant hash t' ∧ ∃ m' : FinMap K V, Represents t' m' := by
  cases key with
  | some k =>
    obtain ⟨t₁, b₁, hset, hinv, hr'⟩ := h.set_spec hr k v
    rw [hset] at hs
    cases hs
    exact ⟨hinv, _, hr'⟩
  | none =>
    obtain ⟨i, hg, hi, -, hkey⟩ | ⟨hg, -⟩ := h.get_null
    · rw [set, hg] at hs
      cases hs
      refine ⟨h.setVal hi v, m, fun k w => (hr k w).trans ?_⟩
      -- the value of a node without a key is not read
      simp only [Holds, keyAt, valAt, node_setVal hi]
      refine exists_congr fun j => and_congr_right fun hj => ?_
      rw [if_neg]
      rintro rfl
      exact absurd (hkey.symm.trans hj) (Option.some_ne_none k).symm
    · rw [set, hg] at hs
      cases hs
      exact ⟨h, m, hr⟩

theorem Reachable.invariant (h : Reachable hash realval t) :
    Invariant hash t ∧ ∃ m : FinMap K V, Represents t m := by
  induction h with
  | create n =>
    obtain ⟨hinv, hempty⟩ := invariant_create (V := V) hash n
    refine ⟨hinv, ∅, fun k v => ?_⟩
    simp [hempty]
  | @newSlot t t' k v b _ hs ih =>
    obtain ⟨hinv, m, hr⟩ := ih
    obtain ⟨t₁, b₁, hnew, hup⟩ := hinv.newSlot_spec k v
    rw [hnew] at hs
    cases hs
    exact ⟨hup.inv, _, hup.represents hr⟩
  | set _ hs ih =>
    obtain ⟨hinv, m, hr⟩ := ih
    exact hinv.set_keeps hr hs
  | @remove t t' k _ hs ih =>
    obtain ⟨hinv, m, hr⟩ := ih
    obtain ⟨t₁, hremove, hinv', hr'⟩ := hinv.remove_spec hr k
    rw [hremove] at hs
    cases hs
    exact ⟨hinv', _, hr'⟩
  | clear _ hs ih =>
    obtain ⟨t₁, hclear, hinv', hr'⟩ := ih.1.clear_spec
    rw [hclear] at hs
    cases hs
    exact ⟨hinv', _, hr'⟩
  | clone _ hs ih =>
    obtain ⟨hinv, m, hr⟩ := ih
    obtain ⟨t₁, hclone, hse⟩ := hinv.clone_spec realval
    rw [hclone] at hs
    cases hs
    exact ⟨hse.inv, m, hse.represents hr⟩

/-! ## `NewSlot` -/

omit [DecidableEq K] in
private theorem correctFirstfree_some (t : SQTable K V) (i : ℕ) :
    (∃ ff, t.correctFirstfree i = some ff) ↔ ∃ j ≤ i, t.Open j := by
  have hspec := correctFirstfree_spec t i
  cases hff : t.correctFirstfree i with
  | some ff =>
    rw [hff] at hspec
    obtain ⟨hle, hkey, hnext, -⟩ := hspec
    exact iff_of_true ⟨ff, rfl⟩ ⟨ff, hle, hkey, hnext⟩
  | none =>
    rw [hff] at hspec
    refine iff_of_false nofun ?_
    rintro ⟨j, hj, hkey, hnext⟩
    obtain hne | hne := hspec j hj
    · exact hne hkey
    · exact hne hnext

omit [DecidableEq K] in
/-- With the cursor's node taken, only open nodes below it are left. -/
theorem open_below (hocc : t.keyAt (t.mainPosition hash (some k)) ≠ none)
    (hff : t₁.firstfree = t.firstfree) (hcursor : t₁.keyAt t.firstfree ≠ none)
    (hbelow : ∀ j < t.firstfree, t₁.Open j ↔ t.Open j) :
    (∃ j ≤ t₁.firstfree, t₁.Open j) ↔ t.HasRoom hash k := by
  rw [hff]
  constructor
  · rintro ⟨j, hj, hopen⟩
    obtain hj | rfl := Nat.lt_or_eq_of_le hj
    · exact .inr ⟨j, hj, (hbelow j hj).mp hopen⟩
    · exact absurd hopen.1 hcursor
  · rintro (⟨hnone, -⟩ | ⟨j, hj, hopen⟩)
    · exact absurd hnone hocc
    · exact ⟨j, hj.le, (hbelow j hj).mpr hopen⟩

omit [DecidableEq K] in
private theorem findPrevious_next {mp fuel i prev : ℕ} (h : t.findPrevious mp fuel i = some prev) :
    t.nextAt prev = some mp := by
  induction fuel generalizing i with
  | zero => cases h
  | succ fuel ih =>
    unfold findPrevious at h
    split_ifs at h with hn
    · cases h
      exact hn
    · obtain ⟨j, -, h⟩ := Option.bind_eq_some_iff.mp h
      exact ih h

omit [DecidableEq K] in
/-- The nodes where the cursor can stop after the key has been placed -/
theorem Invariant.placeKey_open (h : Invariant hash t) {mp : ℕ}
    (hplace : t.placeKey hash k = some (t₁, mp)) :
    (∃ j ≤ t₁.firstfree, t₁.Open j) ↔ t.HasRoom hash k := by
  have hc := h.cursor_lt
  have hm := t.mainPosition_lt hash h.size_pos (some k)
  unfold placeKey at hplace
  cases hocc : (t.node (t.mainPosition hash (some k))).key with
  | none =>
    simp only [hocc, Option.some.injEq, Prod.mk.injEq] at hplace
    obtain ⟨rfl, rfl⟩ := hplace
    have hopen : ∀ j, (t.setKey (t.mainPosition hash (some k)) (some k)).Open j ↔
        j ≠ t.mainPosition hash (some k) ∧ t.Open j := by
      intro j
      simp only [Open, keyAt, nextAt, setKey, t.node_setNode hm]
      split_ifs with hj <;> simp [hj]
    simp only [hopen, HasRoom, show t.keyAt (t.mainPosition hash (some k)) = none from hocc,
      true_and]
    constructor
    · rintro ⟨j, hj, hne, hopen⟩
      obtain hj | rfl := Nat.lt_or_eq_of_le hj
      · exact .inr ⟨j, hj, hopen⟩
      · exact .inl hne.symm
    · intro hroom
      by_cases heq : t.mainPosition hash (some k) = t.firstfree
      · obtain ⟨j, hj, hopen⟩ := hroom.resolve_left (absurd heq)
        exact ⟨j, hj.le, heq ▸ hj.ne, hopen⟩
      · exact ⟨t.firstfree, le_rfl, Ne.symm heq, h.cursor_key, h.cursor_next⟩
  | some colliding =>
    have hne : t.mainPosition hash (some k) ≠ t.firstfree := by
      intro heq
      have hkey := h.cursor_key
      rw [keyAt, ← heq, hocc] at hkey
      cases hkey
    simp only [hocc] at hplace
    split_ifs at hplace with hmove
    · -- the colliding key moves to the cursor
      obtain ⟨prev, hprev, heq⟩ := Option.map_eq_some_iff.mp hplace
      cases heq
      have hnext := findPrevious_next hprev
      have hp := t.lt_of_next hnext
      refine open_below (by rw [keyAt, hocc]; exact Option.some_ne_none _) rfl ?_ fun j hj => ?_
      · simp only [keyAt, setNext, numofnodes_setNode, node_setNode, hp, hc, hm, if_neg hne.symm,
          if_true]
        split_ifs with heq
        · rw [← heq, hocc]
          exact Option.some_ne_none _
        · rw [hocc]
          exact Option.some_ne_none _
      · have hjm : j ≠ t.mainPosition hash (some k) := (hj.trans hmove.1).ne
        simp only [Open, keyAt, nextAt, setNext, numofnodes_setNode, node_setNode, hp, hc, hm,
          if_neg hjm, if_neg hj.ne]
        split_ifs with heq
        · subst heq
          rw [show (t.node j).next = some _ from hnext]
          simp
        · rfl
    · -- the new key goes to the cursor
      cases hplace
      refine open_below (by rw [keyAt, hocc]; exact Option.some_ne_none _) rfl ?_ fun j hj => ?_
      · simp [keyAt, setKey, setNext, node_setNode, hc]
      · simp only [Open, keyAt, nextAt, setKey, setNext, numofnodes_setNode, node_setNode, hc, hm,
          if_neg hj.ne]
        split_ifs with heq
        · subst heq
          rw [hocc]
          simp
        · rfl

/-- "returns true if a new slot has been created false if it was already present" -/
def NewSlotReports (hash : K → ℕ) (realval : V → V) (t : SQTable K V) (k : K) (v : V) : Prop :=
  ∃ t' b, newSlot hash depth t k v = some (t', b) ∧
    (b = true ↔ t.get hash realval (some k) = some none)

/-- `NewSlot` reports a new slot unless the array has to grow for it. -/
theorem newSlot_reports_iff (h : Reachable hash realval t) (k : K) (v : V) :
    NewSlotReports hash realval t k v ↔ (∃ i, t.keyAt i = some k) ∨ t.HasRoom hash k := by
  have hinv := h.invariant.1
  rcases hinv.get_spec k with ⟨i, hget, hk⟩ | ⟨hget, habs⟩
  · refine iff_of_true ⟨_, _, hinv.newSlot_present hk 2 v, ?_⟩ (.inl ⟨i, hk⟩)
    simp [get, hget]
  · obtain ⟨t₁, mp, hplace, hp⟩ := hinv.placeKey_spec habs
    have hopen := (correctFirstfree_some t₁ t₁.firstfree).trans (hinv.placeKey_open hplace)
    have hnone : t.get hash realval (some k) = some none := by simp [get, hget]
    cases hff : t₁.correctFirstfree t₁.firstfree with
    | some ff =>
      have hroom : t.HasRoom hash k := hopen.mp ⟨ff, hff⟩
      have hnew := (hp.newSlot_stored hinv hget hplace hff v).1
      exact iff_of_true ⟨_, _, hnew, iff_of_true rfl hnone⟩ (.inr hroom)
    | none =>
      have hroom : ¬ t.HasRoom hash k := by
        intro hroom
        obtain ⟨ff, hsome⟩ := hopen.mpr hroom
        rw [hff] at hsome
        cases hsome
      obtain ⟨t', hnew, -⟩ := hp.newSlot_rehashed hinv hget hplace hff v
      refine iff_of_false ?_ ?_
      · rintro ⟨t'', b, hnew', hreports⟩
        rw [hnew] at hnew'
        cases hnew'
        exact absurd (hreports.mpr hnone) Bool.false_ne_true
      · rintro (⟨i, hi⟩ | h)
        · exact habs i hi
        · exact hroom h

/-- A table of four nodes with the keys 0, 1 and 2 -/
def threeKeys : SQTable ℕ ℕ :=
  ⟨[⟨10, some 0, none⟩, ⟨11, some 1, none⟩, ⟨12, some 2, none⟩, ⟨0, none, none⟩], 3, 3⟩

theorem reachable_threeKeys : Reachable id id threeKeys := by
  have h₁ : Reachable id id (⟨[⟨10, some 0, none⟩, ⟨0, none, none⟩, ⟨0, none, none⟩,
      ⟨0, none, none⟩], 3, 1⟩ : SQTable ℕ ℕ) := .newSlot (k := 0) (v := 10) (.create 0) rfl
  have h₂ : Reachable id id (⟨[⟨10, some 0, none⟩, ⟨11, some 1, none⟩, ⟨0, none, none⟩,
      ⟨0, none, none⟩], 3, 2⟩ : SQTable ℕ ℕ) := .newSlot (k := 1) (v := 11) h₁ rfl
  exact .newSlot (k := 2) (v := 12) h₂ rfl

theorem newSlot_reports_threeKeys : NewSlotReports id id threeKeys 2 5 :=
  (newSlot_reports_iff reachable_threeKeys 2 5).mpr (.inl ⟨2, rfl⟩)

/-- The fourth key of four nodes is new, but `NewSlot` finds it again after `Rehash`. -/
theorem newSlot_fourth_not_new :
    ¬ ∀ (hash : ℕ → ℕ) (realval : ℕ → ℕ) (t : SQTable ℕ ℕ), Reachable hash realval t →
      ∀ k v, NewSlotReports hash realval t k v := by
  intro hall
  obtain ⟨t', b, hnew, hreports⟩ := hall id id threeKeys reachable_threeKeys 3 13
  have hfalse : (newSlot id depth threeKeys 3 13).map Prod.snd = some false := by decide
  rw [hnew] at hfalse
  cases hfalse
  exact absurd (hreports.mpr rfl) Bool.false_ne_true

/-! ## `Set` -/

/-- `SQVM::Set` of a table without a delegate: `FallBackSet` finds no match, and an object that is
not `this` (its `selfidx` is not 0) is not looked up in the root table. The `Bool` is false when
`Raise_IdxError` reports that the index does not exist. -/
def vmSet (hash : K → ℕ) (t root : SQTable K V) (key : Option K) (val : V) (selfidx : ℤ) :
    Option (SQTable K V × SQTable K V × Bool) :=
  (t.set hash key val).bind fun
    | (t, true) => some (t, root, true)
    | (t, false) =>
      if selfidx = 0 then (root.set hash key val).map fun (root, found) => (t, root, found)
      else some (t, root, false)

/-- `Set` and `Get` agree: `Set` finds the key just when `Get` does, and stores what `Get` then
returns; otherwise it leaves the table alone, and the assignment raises an error. -/
structure SetAgrees (hash : K → ℕ) (realval : V → V) (t : SQTable K V) (key : Option K) (v : V) :
    Prop where
  presence : ∃ t' b, t.set hash key v = some (t', b) ∧
    (b = true ↔ ∃ w, t.get hash realval key = some (some w)) ∧
    (b = true → t'.get hash realval key = some (some v)) ∧ (b = false → t' = t)
  missing : t.get hash realval key = some none → ∀ (root : SQTable K V) (selfidx : ℤ),
    selfidx ≠ 0 → t.vmSet hash root key v selfidx = some (t, root, false)

/-- The keys and values with which `Set` does what `Get` says -/
def Settable (realval : V → V) (t : SQTable K V) : Option K → V → Prop
  | some k, v => (∀ i, t.keyAt i ≠ some k) ∨ realval v = v
  | none, _ => ∀ i, OnPath t.nextAt 0 i → t.keyAt i ≠ none

omit [DecidableEq K] in
private theorem settable_present {i : ℕ} (hk : t.keyAt i = some k) (v : V) :
    Settable realval t (some k) v ↔ realval v = v :=
  or_iff_right fun habs => habs i hk

private theorem vmSet_missing {key : Option K} {v : V} (hs : t.set hash key v = some (t, false))
    (root : SQTable K V) {selfidx : ℤ} (hself : selfidx ≠ 0) :
    t.vmSet hash root key v selfidx = some (t, root, false) := by
  rw [vmSet, hs, Option.bind_some]
  exact if_neg hself

/-- What `Set` does not find is missing for `Get` as well. -/
theorem SetAgrees.of_missing {key : Option K} {v : V} (hs : t.set hash key v = some (t, false))
    (hget : t.get hash realval key = some none) : SetAgrees hash realval t key v where
  presence := by
    refine ⟨t, false, hs, iff_of_false Bool.false_ne_true ?_, nofun, fun _ => rfl⟩
    rintro ⟨w, hw⟩
    rw [hget] at hw
    cases hw
  missing _ root _ hself := vmSet_missing hs root hself

/-- `Set` and `Get` agree unless `Set` finds a node without a key for the null key, or stores a
value that `Get` does not return as it is. -/
theorem set_agrees_iff (h : Reachable hash realval t) (key : Option K) (v : V) :
    SetAgrees hash realval t key v ↔ Settable realval t key v := by
  obtain ⟨hinv, m, hr⟩ := h.invariant
  cases key with
  | some k =>
    rcases hinv.get_spec k with ⟨i, hget, hk⟩ | ⟨hget, habs⟩
    · have hset : t.set hash (some k) v = some (t.setVal i v, true) := by simp [set, hget]
      have hfound : t.get hash realval (some k) = some (some (realval (t.valAt i))) := by
        simp [get, hget, valAt]
      have hup := hinv.updated_present hk v
      have hafter : (t.setVal i v).get hash realval (some k) = some (some (realval v)) := by
        rw [hup.inv.toChained.get_eq (hup.represents hr), Finmap.lookup_insert, Option.map_some]
      rw [settable_present hk]
      constructor
      · rintro ⟨⟨t', b, hs, -, hstored, -⟩, -⟩
        rw [hset] at hs
        cases hs
        rw [hafter] at hstored
        exact Option.some.inj (Option.some.inj (hstored rfl))
      · intro hv
        refine ⟨⟨_, true, hset, iff_of_true rfl ⟨_, hfound⟩, fun _ => ?_,
          fun hb => by cases hb⟩, fun hmiss => ?_⟩
        · rw [hafter, hv]
        · rw [hfound] at hmiss
          cases hmiss
    · exact iff_of_true (.of_missing (by simp [set, hget]) (by simp [get, hget])) (.inl habs)
  | none =>
    obtain ⟨i, hget, -, hpath, hk⟩ | ⟨hget, hnone⟩ := hinv.get_null
    · refine iff_of_false ?_ fun hset => hset i hpath hk
      rintro ⟨⟨t', b, hs, hiff, -, -⟩, -⟩
      simp only [set, hget, Option.map_some] at hs
      cases hs
      obtain ⟨w, hw⟩ := hiff.mp rfl
      cases hw
    · exact iff_of_true (.of_missing (by simp [set, hget]) rfl) hnone

theorem set_agrees_threeKeys : SetAgrees id id threeKeys (some 2) 5 :=
  (set_agrees_iff reachable_threeKeys (some 2) 5).mpr (.inr rfl)

/-- In an empty table `Set` finds the null key in a free node. -/
theorem set_null_found :
    ¬ ∀ (hash : ℕ → ℕ) (realval : ℕ → ℕ) (t : SQTable ℕ ℕ), Reachable hash realval t →
      ∀ key v, SetAgrees hash realval t key v := by
  intro hall
  obtain ⟨⟨t', b, hs, hiff, -, -⟩, -⟩ := hall id id (create 0) (.create 0) none 1
  have htrue : ((create 0 : SQTable ℕ ℕ).set id none 1).map Prod.snd = some true := by decide
  rw [hs] at htrue
  cases htrue
  obtain ⟨w, hw⟩ := hiff.mp rfl
  cases hw

end Squirt.SQTable
