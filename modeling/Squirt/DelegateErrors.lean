import Squirt.Candidates
import Squirt.DelegatedLookup

/-!
# Errors of metamethods along the delegates

`Get` and `Set` of a table look for the slot down the chain of delegates. When no table has it, the
metamethods of the tables are called from the end of the chain up. An error that one of them raises
is told apart from a clean failure only at the first table of the chain: below it, what is left of
an inner `Get` or `Set` is that it failed. And an inner `Get` looks into the default delegate of
tables before the metamethods of the tables above it are called.
-/

namespace Squirt

open Traced (Answer ask askOn Hides Harmless PartsHarmlessly ErrorEnds)

/-- A chain of tables, each with the next one as its delegate -/
inductive Store.DelegateChain (s : Store) : List ℕ → Prop
  | last {t : ℕ} (h : s.delegate (.table t) = none) : DelegateChain s [t]
  | cons {t u : ℕ} {ts : List ℕ} (h : s.delegate (.table t) = some u)
    (hchain : DelegateChain s (u :: ts)) : DelegateChain s (t :: u :: ts)

namespace VmOp

variable (rt : Runtime) (key val : SQObject)

/-- A metamethod, and where it does not answer the rest of `Get` or `Set` -/
def candidate (metamethod : VmOp FallBack) (rest : VmOp (Option SQObject)) :
    VmOp (Answer SQObject) := do
  match ← metamethod with
  | .ok dest => pure (.found dest)
  | .error => pure .failed
  | .noMatch =>
    match ← rest with
    | some dest => pure (.found dest)
    | none => pure .passed

/-- What `Get` still tries when no metamethod has answered -/
def getRest (t : ℕ) (selfidx : ℤ) : VmOp (Option SQObject) := do
  match ← invokeDefaultDelegate rt (.table t) key with
  | some dest => pure (some dest)
  | none => getRoot rt key selfidx

/-- What is left of `Get` when no table of the chain has the key -/
def getCandidate (t : ℕ) (selfidx : ℤ) : VmOp (Answer SQObject) :=
  candidate (metaGet rt (.table t) key) (getRest rt key t selfidx)

/-- Of a table below the first one only the metamethod counts, whatever its `Get` goes on to. -/
def getBelow (t : ℕ) : VmOp (Answer SQObject) :=
  candidate (metaGet rt (.table t) key) do
    let _ ← getRest rt key t DONT_FALL_BACK
    pure none

/-- What is left of `Set` when no table of the chain has the key -/
def setCandidate (t : ℕ) (selfidx : ℤ) : VmOp (Answer SQObject) :=
  candidate (metaSet rt (.table t) key val) do
    if ← setRoot rt key val selfidx then pure (some .null) else pure none

def idxError : String := s!"the index '{shorten (printObjVal rt key)}' does not exist"

/-- `Get` of `t₀` with the delegates `ts`: the first table that has the key gives the value; when
none has it, the metamethods are asked from the end of the chain up, until one finds something or
raises an error, which is then the error of `Get`; then `Get` tries what is left. -/
structure GetResolves (s : Store) (t₀ : ℕ) (ts : List ℕ) (selfidx : ℤ)
    (out : Outcome Store MetaCall (Option SQObject)) : Prop where
  found : ∀ upper t lower dest, t₀ :: ts = upper ++ t :: lower →
    (∀ u ∈ upper, s.tableGet u key = none) → s.tableGet t key = some dest →
    out = .done (some dest) s []
  asked : (∀ t ∈ t₀ :: ts, s.tableGet t key = none) →
    out = (ask (getCandidate rt key t₀ selfidx :: ts.map (getBelow rt key)) >>= fun answer =>
      pure answer.get?) s
  errors : ∀ dest s' front call back err, out = .done dest s' (front ++ call :: back) →
    call.failure = some err → err ≠ .null → back = [] ∧ dest = none ∧ s'.vm.lasterror = err

/-- `Set` of `t₀` with the delegates `ts`: the first table that has the key is updated; when none
has it, the metamethods are asked as for `Get`. -/
structure SetResolves (s : Store) (t₀ : ℕ) (ts : List ℕ) (selfidx : ℤ)
    (out : Outcome Store MetaCall Bool) : Prop where
  found : ∀ upper t lower, t₀ :: ts = upper ++ t :: lower →
    (∀ u ∈ upper, s.tableGet u key = none) → (s.tableGet t key).isSome →
    out = .done true (s.setSlots t fun slots => slots.insert key val) []
  asked : (∀ t ∈ t₀ :: ts, s.tableGet t key = none) →
    out = (ask (setCandidate rt key val t₀ selfidx ::
      ts.map (setCandidate rt key val · DONT_FALL_BACK)) >>= fun answer =>
        pure answer.get?.isSome) s
  errors : ∀ ok s' front call back err, out = .done ok s' (front ++ call :: back) →
    call.failure = some err → err ≠ .null → back = [] ∧ ok = false ∧ s'.vm.lasterror = err

/-- When the candidates below a table have passed: if its metamethod raises an error, nothing
answers for the tables above, and the error is the one that `Get` ends with when nothing is found;
if its metamethod passes and the default delegate has the key, there are no metamethods above. -/
def GetHeard (s : Store) (t₀ : ℕ) (ts : List ℕ) (selfidx : ℤ) : Prop :=
  ∀ upper t lower s₁ events, ts = upper ++ t :: lower →
    ask (lower.map (getCandidate rt key · DONT_FALL_BACK)) s = .done .passed s₁ events →
    (∀ s' events', metaGet rt (.table t) key s₁ = .done .error s' events' →
      (∀ u ∈ t₀ :: upper, s'.getMetaMethod (.table u) .get = none) ∧
        s'.tableGet rt.defaultDelegates.table key = none ∧
        (selfidx = 0 → s'.tableGet s'.roottable key = none) ∧
        s'.vm.lasterror = .string (idxError rt key)) ∧
    ∀ s' events', metaGet rt (.table t) key s₁ = .done .noMatch s' events' →
      (s'.tableGet rt.defaultDelegates.table key).isSome →
      ∀ u ∈ t₀ :: upper, s'.getMetaMethod (.table u) .get = none

/-- The same for `Set`, which has no default delegates -/
def SetHeard (s : Store) (t₀ : ℕ) (ts : List ℕ) (selfidx : ℤ) : Prop :=
  ∀ upper t lower s₁ events, ts = upper ++ t :: lower →
    ask (lower.map (setCandidate rt key val · DONT_FALL_BACK)) s = .done .passed s₁ events →
    ∀ s' events', metaSet rt (.table t) key val s₁ = .done .error s' events' →
      (∀ u ∈ t₀ :: upper, s'.getMetaMethod (.table u) .set = none) ∧
        (selfidx = 0 → s'.tableSet rt s'.roottable key val = none) ∧
        s'.vm.lasterror = .string (idxError rt key)

/-- The key is null, and there is a free node for it in the table. -/
def TakesNull (s : Store) (t : ℕ) : Prop :=
  key = .null ∧ t < s.tables.length ∧ rt.nullNode s.tables t = true

instance (s : Store) (t : ℕ) : Decidable (TakesNull rt key s t) :=
  inferInstanceAs (Decidable (_ ∧ _ ∧ _))

/-- Nothing is asked, and the root table takes the key. -/
structure SetSilent (s : Store) (t₀ : ℕ) (ts : List ℕ) (selfidx : ℤ) : Prop where
  noMetaMethod : ∀ t ∈ t₀ :: ts, s.getMetaMethod (.table t) .set = none
  root : selfidx = 0 ∧ TakesNull rt key s s.roottable
  lasterror : ts = [] ∨ s.vm.lasterror = .string (idxError rt key)

variable {rt key val} {s s' : Store}

/-! ## The candidates -/

def raised (rt : Runtime) (key : SQObject) (s : Store) : Store :=
  { s with vm := s.vm.raiseError (idxError rt key) }

theorem raised_eq_iff : raised rt key s = s ↔ s.vm.lasterror = .string (idxError rt key) := by
  constructor
  · intro h
    rw [← h]
    rfl
  · intro h
    unfold raised SQVM.raiseError
    rw [← h]

private theorem tableSet_raised (rt : Runtime) (s : Store) (t : ℕ) :
    (raised rt key s).tableSet rt t key val = none ↔ s.tableSet rt t key val = none := by
  have htables : (raised rt key s).tables = s.tables := rfl
  simp only [Store.tableSet, htables]
  cases s.tables[t]? with
  | none => rfl
  | some table =>
    rw [Option.bind_some, Option.bind_some]
    split_ifs
    · exact iff_of_false nofun nofun
    · rfl
    · exact iff_of_false nofun nofun
    · rfl

/-- A table that has the key takes the value. -/
theorem tableSet_of_get {t : ℕ} (h : (s.tableGet t key).isSome) :
    s.tableSet rt t key val = some (s.setSlots t fun slots => slots.insert key val) := by
  unfold Store.tableGet at h
  split_ifs at h with hnull
  · cases h
  · obtain ⟨dest, h⟩ := Option.isSome_iff_exists.mp h
    obtain ⟨table, htable, hmap⟩ := Option.bind_eq_some_iff.mp h
    obtain ⟨o, hlookup, -⟩ := Option.map_eq_some_iff.mp hmap
    have hmem : key ∈ table.slots := Finmap.lookup_isSome.mp (by rw [hlookup]; rfl)
    rw [Store.tableSet, htable, Option.bind_some, if_neg hnull, if_pos hmem]

variable (rt val) in
/-- Where it has not the key, it takes a value for null only. -/
theorem tableSet_of_none {t : ℕ} (h : s.tableGet t key = none) :
    s.tableSet rt t key val = some s ∧ TakesNull rt key s t ∨
      s.tableSet rt t key val = none ∧ ¬ TakesNull rt key s t := by
  unfold Store.tableSet TakesNull
  cases htable : s.tables[t]? with
  | none =>
    refine .inr ⟨rfl, fun htakes => ?_⟩
    rw [List.getElem?_eq_none_iff] at htable
    omega
  | some table =>
    obtain ⟨hlt, -⟩ := List.getElem?_eq_some_iff.mp htable
    rw [Option.bind_some]
    by_cases hnull : key = .null
    · rw [if_pos hnull]
      cases hfree : rt.nullNode s.tables t with
      | true => exact .inl ⟨rfl, hnull, hlt, rfl⟩
      | false => exact .inr ⟨rfl, fun htakes => nomatch htakes.2.2⟩
    · rw [Store.tableGet, if_neg hnull, htable, Option.bind_some, Option.map_eq_none_iff,
        Finmap.lookup_eq_none] at h
      rw [if_neg hnull, if_neg h]
      exact .inr ⟨rfl, fun htakes => hnull htakes.1⟩

theorem emits_call (mm : SQMetaMethod) (closure : SQObject) (nparams : ℕ) :
    (call rt mm closure nparams).Emits := by
  intro s res s' h
  unfold call at h
  split at h <;> cases h

theorem metaGet_none {self : SQObject} (h : s.getMetaMethod self .get = none) :
    metaGet rt self key s = .done .noMatch s [] := by
  rw [metaGet, getMetaMethod, Traced.bind_read, h]
  rfl

theorem metaGet_silent {self : SQObject} {res : FallBack}
    (h : metaGet rt self key s = .done res s' []) : s.getMetaMethod self .get = none := by
  rw [metaGet, getMetaMethod, Traced.bind_read] at h
  cases hmm : s.getMetaMethod self .get with
  | none => rfl
  | some closure =>
    rw [hmm] at h
    have hemits : (call rt .get closure 2).Emits := emits_call .get closure 2
    exact absurd h (Traced.Emits.bind_right (fun _ => .bind_right (fun _ => .bind_right
      (fun _ => hemits.bind_left _) _) _) _ s res s')

theorem metaSet_none {self : SQObject} (h : s.getMetaMethod self .set = none) :
    metaSet rt self key val s = .done .noMatch s [] := by
  rw [metaSet, getMetaMethod, Traced.bind_read, h]
  rfl

theorem metaSet_silent {self : SQObject} {res : FallBack}
    (h : metaSet rt self key val s = .done res s' []) : s.getMetaMethod self .set = none := by
  rw [metaSet, getMetaMethod, Traced.bind_read] at h
  cases hmm : s.getMetaMethod self .set with
  | none => rfl
  | some closure =>
    rw [hmm] at h
    have hemits : (call rt .set closure 3).Emits := emits_call .set closure 3
    exact absurd h (Traced.Emits.bind_right (fun _ => .bind_right (fun _ => .bind_right
      (fun _ => .bind_right (fun _ => hemits.bind_left _) _) _) _) _ s res s')

/-- Without its metamethod a candidate is its rest. -/
theorem candidate_eq {metamethod : VmOp FallBack} (rest : VmOp (Option SQObject))
    (h : metamethod s = .done .noMatch s []) : candidate metamethod rest s =
      (rest >>= fun dest => match dest with
        | some dest => pure (.found dest)
        | none => pure .passed) s := by
  rw [candidate, Traced.bind_eq h, Traced.after_nil]

/-- A candidate finds nothing in silence when it has no metamethod and its rest finds nothing. -/
theorem candidate_quiet_iff {metamethod : VmOp FallBack} {rest : VmOp (Option SQObject)}
    {absent : Prop} (habsent : absent → metamethod s = .done .noMatch s [])
    (hsilent : ∀ res s', metamethod s = .done res s' [] → absent) {answer : Answer SQObject}
    (hanswer : answer.get? = none) :
    candidate metamethod rest s = .done answer s' [] ↔
      absent ∧ rest s = .done none s' [] ∧ answer = .passed := by
  constructor
  · intro h
    have habs : absent := by
      obtain ⟨res, s₁, events₁, events₂, hres, -, hevents⟩ := Traced.bind_done.mp h
      obtain ⟨rfl, -⟩ := List.append_eq_nil_iff.mp hevents.symm
      exact hsilent res s₁ hres
    rw [candidate_eq rest (habsent habs)] at h
    obtain ⟨dest, s₁, events₁, events₂, hrest, hdest, hevents⟩ := Traced.bind_done.mp h
    obtain ⟨rfl, rfl⟩ := List.append_eq_nil_iff.mp hevents.symm
    cases dest with
    | some dest =>
      cases hdest
      cases hanswer
    | none =>
      cases hdest
      exact ⟨habs, hrest, rfl⟩
  · rintro ⟨habs, hrest, rfl⟩
    rw [candidate_eq rest (habsent habs), Traced.bind_eq hrest, Traced.after_nil]
    rfl

private theorem getRoot_none_iff {selfidx : ℤ} : getRoot rt key selfidx s = .done none s' [] ↔
    (selfidx = 0 → s.tableGet s.roottable key = none) ∧ s' = raised rt key s := by
  rw [getRoot, Traced.bind_read]
  by_cases hself : selfidx = 0
  · rw [if_pos hself]
    cases s.tableGet s.roottable key with
    | some dest => exact iff_of_false nofun fun h => nomatch h.1 hself
    | none =>
      constructor
      · rintro ⟨⟩
        exact ⟨fun _ => rfl, rfl⟩
      · rintro ⟨-, rfl⟩
        rfl
  · rw [if_neg hself]
    constructor
    · rintro ⟨⟩
      exact ⟨fun h => absurd h hself, rfl⟩
    · rintro ⟨-, rfl⟩
      rfl

theorem setRoot_false_iff {selfidx : ℤ} : setRoot rt key val selfidx s = .done false s' [] ↔
    (selfidx = 0 → s.tableSet rt s.roottable key val = none) ∧ s' = raised rt key s := by
  have hraise : (do raiseIdxError rt key; pure false : VmOp Bool) s =
      .done false (raised rt key s) [] := rfl
  by_cases hself : selfidx = 0
  · cases hset : s.tableSet rt s.roottable key val with
    | some s₁ =>
      have hrun : setRoot rt key val selfidx s = .done true s₁ [] := by
        simp only [setRoot, bind, Traced.step, if_pos hself, hset]
        rfl
      rw [hrun]
      constructor
      · rintro ⟨⟩
      · rintro ⟨h, -⟩
        cases h hself
    | none =>
      have hrun : setRoot rt key val selfidx s = .done false (raised rt key s) [] := by
        simp only [setRoot, bind, Traced.step, if_pos hself, hset]
        rfl
      rw [hrun]
      constructor
      · rintro ⟨⟩
        exact ⟨fun _ => rfl, rfl⟩
      · rintro ⟨-, rfl⟩
        rfl
  · have hrun : setRoot rt key val selfidx s = .done false (raised rt key s) [] := by
      simp only [setRoot, bind, Traced.step, if_neg hself]
      rfl
    rw [hrun]
    constructor
    · rintro ⟨⟩
      exact ⟨fun h => absurd h hself, rfl⟩
    · rintro ⟨-, rfl⟩
      rfl

/-- Nothing answers for a table in `Get`. -/
def GetQuiet (rt : Runtime) (key : SQObject) (t : ℕ) (selfidx : ℤ) (s : Store) : Prop :=
  s.getMetaMethod (.table t) .get = none ∧ s.tableGet rt.defaultDelegates.table key = none ∧
    (selfidx = 0 → s.tableGet s.roottable key = none)

/-- Nothing answers for a table in `Set`. -/
def SetQuiet (rt : Runtime) (key val : SQObject) (t : ℕ) (selfidx : ℤ) (s : Store) : Prop :=
  s.getMetaMethod (.table t) .set = none ∧
    (selfidx = 0 → s.tableSet rt s.roottable key val = none)

theorem getRest_none_iff {t : ℕ} {selfidx : ℤ} : getRest rt key t selfidx s = .done none s' [] ↔
    s.tableGet rt.defaultDelegates.table key = none ∧
      (selfidx = 0 → s.tableGet s.roottable key = none) ∧ s' = raised rt key s := by
  rw [getRest, invokeDefaultDelegate, Traced.bind_read]
  change (match s.tableGet rt.defaultDelegates.table key with
    | some dest => pure (some dest)
    | none => getRoot rt key selfidx : VmOp (Option SQObject)) s = _ ↔ _
  cases s.tableGet rt.defaultDelegates.table key with
  | some dest => exact iff_of_false nofun fun h => nomatch h.1
  | none =>
    rw [getRoot_none_iff]
    exact (and_iff_right rfl).symm

/-- The default delegate of tables answers at once. -/
theorem getRest_found {t : ℕ} {selfidx : ℤ} {dest : SQObject}
    (h : s.tableGet rt.defaultDelegates.table key = some dest) :
    getRest rt key t selfidx s = .done (some dest) s [] := by
  rw [getRest, invokeDefaultDelegate, Traced.bind_read]
  change (match s.tableGet rt.defaultDelegates.table key with
    | some dest => pure (some dest)
    | none => getRoot rt key selfidx : VmOp (Option SQObject)) s = _
  rw [h]
  rfl

private theorem setRest_none_iff {selfidx : ℤ} :
    (do if ← setRoot rt key val selfidx then pure (some .null) else pure none :
      VmOp (Option SQObject)) s = .done none s' [] ↔
      (selfidx = 0 → s.tableSet rt s.roottable key val = none) ∧ s' = raised rt key s := by
  rw [← setRoot_false_iff]
  constructor
  · intro h
    obtain ⟨ok, s₁, events₁, events₂, hroot, hok, hevents⟩ := Traced.bind_done.mp h
    obtain ⟨rfl, rfl⟩ := List.append_eq_nil_iff.mp hevents.symm
    cases ok with
    | true => cases hok
    | false =>
      cases hok
      exact hroot
  · intro h
    rw [Traced.bind_eq h]
    rfl

private theorem getCandidate_quiet_iff (t : ℕ) (selfidx : ℤ) (s : Store) (answer : Answer SQObject)
    (s' : Store) (hanswer : answer.get? = none) :
    getCandidate rt key t selfidx s = .done answer s' [] ↔
      GetQuiet rt key t selfidx s ∧ answer = .passed ∧ s' = raised rt key s := by
  rw [getCandidate, candidate_quiet_iff metaGet_none (fun _ _ => metaGet_silent) hanswer,
    getRest_none_iff, GetQuiet]
  tauto

theorem setCandidate_quiet_iff (t : ℕ) (selfidx : ℤ) (s : Store) (answer : Answer SQObject)
    (s' : Store) (hanswer : answer.get? = none) :
    setCandidate rt key val t selfidx s = .done answer s' [] ↔
      SetQuiet rt key val t selfidx s ∧ answer = .passed ∧ s' = raised rt key s := by
  rw [setCandidate, candidate_quiet_iff metaSet_none (fun _ _ => metaSet_silent) hanswer,
    setRest_none_iff, SetQuiet]
  tauto

private theorem setQuiet_raised (t : ℕ) (selfidx : ℤ) (s : Store) :
    SetQuiet rt key val t selfidx (raised rt key s) ↔ SetQuiet rt key val t selfidx s := by
  unfold SetQuiet
  rw [← tableSet_raised rt s]
  rfl

/-- A candidate fails just when its metamethod does. -/
theorem candidate_failed_iff {metamethod : VmOp FallBack} {rest : VmOp (Option SQObject)}
    {events : List MetaCall} : candidate metamethod rest s = .done .failed s' events ↔
      metamethod s = .done .error s' events := by
  constructor
  · intro h
    obtain ⟨res, s₁, events₁, events₂, hres, hk, rfl⟩ := Traced.bind_done.mp h
    cases res with
    | ok dest => cases hk
    | error =>
      cases hk
      rw [List.append_nil]
      exact hres
    | noMatch =>
      obtain ⟨dest, s₂, events₃, events₄, -, hdest, -⟩ := Traced.bind_done.mp hk
      cases dest <;> cases hdest
  · intro h
    rw [candidate, Traced.bind_eq h]
    exact congrArg (Outcome.done _ _) (List.append_nil _)

/-- What its rest finds is hidden when only its metamethod counts. -/
theorem hides_candidate (metamethod : ℕ → VmOp FallBack) (rest : ℕ → VmOp (Option SQObject)) :
    Hides (fun t => candidate (metamethod t) (rest t))
      (fun t => candidate (metamethod t) do let _ ← rest t; pure none) := by
  intro t s
  simp only [candidate, bind]
  cases metamethod t s with
  | done res s₁ events₁ =>
    cases res with
    | ok dest => exact .inl rfl
    | error => exact .inl rfl
    | noMatch =>
      dsimp only
      cases rest t s₁ with
      | done dest s₂ events₂ =>
        cases dest with
        | some dest => exact .inr ⟨dest, s₂, _, rfl, by simp [Traced.after, pure]⟩
        | none => exact .inl (by simp [Traced.after, pure])
      | undefined | diverged | outOfFuel => exact .inl rfl
  | undefined | diverged | outOfFuel => exact .inl rfl

/-! ## The chain -/

/-- A candidate whose failure is forgotten -/
theorem candidate_get? (metamethod : VmOp FallBack) (rest : VmOp (Option SQObject)) :
    (candidate metamethod rest >>= fun answer => pure answer.get?) =
      metamethod >>= fun res => match res with
        | .ok dest => pure (some dest)
        | .error => pure none
        | .noMatch => rest := by
  rw [candidate, Traced.bind_assoc]
  congr 1
  funext res s
  cases res with
  | ok dest => exact Traced.bind_pure
  | error => exact Traced.bind_pure
  | noMatch =>
    have hrest : (fun dest : Option SQObject => (match dest with
        | some dest => pure (.found dest)
        | none => pure .passed : VmOp (Answer SQObject)) >>= fun answer => pure answer.get?) =
        pure := by
      funext dest s
      cases dest with
      | some dest => exact Traced.bind_pure
      | none => exact Traced.bind_pure
    dsimp only
    rw [Traced.bind_assoc, hrest, Traced.bind_pure_right]

/-- `Get` of a table that has not the key -/
theorem get_table {t : ℕ} (hnone : s.tableGet t key = none) (fuel : ℕ) (selfidx : ℤ) :
    get rt (fuel + 1) (.table t) key false selfidx s =
      (fallBackGet rt (fun d => get rt fuel d key false DONT_FALL_BACK) (.table t) key >>=
        fun res => match res with
          | .ok dest => pure (some dest)
          | .error => pure none
          | .noMatch => do
            match ← invokeDefaultDelegate rt (.table t) key with
            | some dest => pure (some dest)
            | none => getRoot rt key selfidx) s := by
  have hslot : getSlot rt (.table t) key s = .done none s [] := by
    change Outcome.done ((s.tableGet t key).map some) s [] = _
    rw [hnone]
    rfl
  rw [get, Traced.bind_eq hslot, Traced.after_nil]
  rfl

theorem fallBackGet_table (get : SQObject → VmOp (Option SQObject)) (t : ℕ) :
    fallBackGet rt get (.table t) key s = (match s.delegate (.table t) with
      | some d => do
        match ← get (.table d) with
        | some dest => pure (.ok dest)
        | none => metaGet rt (.table t) key
      | none => pure .noMatch : VmOp FallBack) s :=
  Traced.bind_read

/-- When no table of the chain has the key, `Get` asks the candidates but loses their errors. -/
theorem get_eq_askOn {t : ℕ} {ts : List ℕ} (h : s.DelegateChain (t :: ts))
    (hnone : ∀ u ∈ t :: ts, s.tableGet u key = none) {fuel : ℕ} (hfuel : ts.length < fuel)
    (selfidx : ℤ) : get rt fuel (.table t) key false selfidx s =
      (askOn (getCandidate rt key t selfidx :: ts.map (getCandidate rt key · DONT_FALL_BACK)) >>= fun answer =>
        pure answer.get?) s := by
  induction ts generalizing t fuel selfidx with
  | nil =>
    obtain ⟨fuel, rfl⟩ := Nat.exists_eq_succ_of_ne_zero (Nat.ne_zero_of_lt hfuel)
    obtain ⟨hlast⟩ | _ := h
    have hmeta : metaGet rt (.table t) key s = .done .noMatch s [] := by
      apply metaGet_none
      change (s.delegate (.table t)).bind _ = none
      rw [hlast]
      rfl
    have hfall : fallBackGet rt (fun d => get rt fuel d key false DONT_FALL_BACK) (.table t) key s =
        metaGet rt (.table t) key s := by
      rw [hmeta, fallBackGet_table, hlast]
      rfl
    rw [get_table (hnone t List.mem_cons_self), Traced.bind_congr_left hfall]
    have hone : askOn [getCandidate rt key t selfidx] s = getCandidate rt key t selfidx s :=
      Traced.bind_pure
    rw [List.map_nil, Traced.bind_congr_left hone, getCandidate, candidate_get?]
    rfl
  | cons u ts ih =>
    obtain ⟨fuel, rfl⟩ := Nat.exists_eq_succ_of_ne_zero (Nat.ne_zero_of_lt hfuel)
    obtain _ | ⟨hdelegate, hchain⟩ := h
    have hinner := ih hchain (fun u hu => hnone u (List.mem_cons_of_mem t hu))
      (Nat.lt_of_succ_lt_succ hfuel) DONT_FALL_BACK
    have hfall : fallBackGet rt (fun d => get rt fuel d key false DONT_FALL_BACK) (.table t) key s =
        (get rt fuel (.table u) key false DONT_FALL_BACK >>= fun dest => match dest with
          | some dest => pure (.ok dest)
          | none => metaGet rt (.table t) key) s := by
      rw [fallBackGet_table, hdelegate]
    rw [get_table (hnone t List.mem_cons_self), Traced.bind_congr_left hfall]
    have hask := Traced.askOn_cons_view Answer.get? (getCandidate rt key t selfidx)
      ((u :: ts).map (getCandidate rt key · DONT_FALL_BACK))
    rw [Traced.bind_assoc, Traced.bind_congr_left hinner, Traced.bind_assoc]
    refine Eq.trans ?_ (congrFun hask s).symm
    apply Traced.bind_congr_iff.mpr
    intro answer s' events _
    cases answer with
    | found dest => exact Traced.bind_pure
    | passed =>
      rw [getCandidate, candidate_get?]
      exact Traced.bind_pure
    | failed =>
      rw [getCandidate, candidate_get?]
      exact Traced.bind_pure

theorem setSlot_table (t : ℕ) : setSlot rt (.table t) key val = .step fun s =>
    match s.tableSet rt t key val with
      | some s => some (some true, s)
      | none => some (none, s) := rfl

theorem set_table {t : ℕ} (hnone : s.tableSet rt t key val = none) (fuel : ℕ) (selfidx : ℤ) :
    set rt (fuel + 1) (.table t) key val selfidx s =
      (fallBackSet rt (fun d => set rt fuel d key val DONT_FALL_BACK) (.table t) key val >>=
        fun res => match res with
          | .ok _ => pure true
          | .error => pure false
          | .noMatch => setRoot rt key val selfidx) s := by
  have hslot : setSlot rt (.table t) key val s = .done none s [] := by
    simp only [setSlot_table, Traced.step, hnone]
  rw [set]
  exact (Traced.bind_eq hslot).trans (Traced.after_nil _)

theorem fallBackSet_table (set : SQObject → VmOp Bool) (t : ℕ) :
    fallBackSet rt set (.table t) key val s = (match s.delegate (.table t) with
      | some d => do
        if ← set (.table d) then pure (.ok .null) else metaSet rt (.table t) key val
      | none => metaSet rt (.table t) key val : VmOp FallBack) s :=
  Traced.bind_read

/-- The rest of `Set` after its candidate has been asked -/
theorem setCandidate_isSome (t : ℕ) (selfidx : ℤ) :
    (setCandidate rt key val t selfidx >>= fun answer => pure answer.get?.isSome) =
      metaSet rt (.table t) key val >>= fun res => match res with
        | .ok _ => pure true
        | .error => pure false
        | .noMatch => setRoot rt key val selfidx := by
  have hmap : (setCandidate rt key val t selfidx >>= fun answer => pure answer.get?.isSome) =
      (setCandidate rt key val t selfidx >>= fun answer => pure answer.get?) >>= fun dest =>
        pure dest.isSome := by
    rw [Traced.bind_assoc]
    congr 1
  have hroot : (fun ok : Bool => (if ok then pure (some .null) else pure none :
      VmOp (Option SQObject)) >>= fun dest => pure dest.isSome) = pure := by
    funext ok s
    cases ok with
    | true => exact Traced.bind_pure
    | false => exact Traced.bind_pure
  rw [hmap, setCandidate, candidate_get?, Traced.bind_assoc]
  congr 1
  funext res
  cases res with
  | ok dest => rfl
  | error => rfl
  | noMatch =>
    dsimp only
    rw [Traced.bind_assoc, hroot, Traced.bind_pure_right]

private theorem set_eq_askOn {t : ℕ} {ts : List ℕ} (h : s.DelegateChain (t :: ts))
    (hnone : ∀ u ∈ t :: ts, s.tableSet rt u key val = none) {fuel : ℕ} (hfuel : ts.length < fuel)
    (selfidx : ℤ) : set rt fuel (.table t) key val selfidx s =
      (askOn (setCandidate rt key val t selfidx :: ts.map (setCandidate rt key val · DONT_FALL_BACK)) >>= fun answer =>
        pure answer.get?.isSome) s := by
  induction ts generalizing t fuel selfidx with
  | nil =>
    obtain ⟨fuel, rfl⟩ := Nat.exists_eq_succ_of_ne_zero (Nat.ne_zero_of_lt hfuel)
    obtain ⟨hlast⟩ | _ := h
    have hfall : fallBackSet rt (fun d => set rt fuel d key val DONT_FALL_BACK) (.table t) key val
        s = metaSet rt (.table t) key val s := by
      rw [fallBackSet_table, hlast]
    have hone : askOn [setCandidate rt key val t selfidx] s = setCandidate rt key val t selfidx s :=
      Traced.bind_pure
    rw [set_table (hnone t List.mem_cons_self), Traced.bind_congr_left hfall]
    rw [List.map_nil, Traced.bind_congr_left hone, setCandidate_isSome]
  | cons u ts ih =>
    obtain ⟨fuel, rfl⟩ := Nat.exists_eq_succ_of_ne_zero (Nat.ne_zero_of_lt hfuel)
    obtain _ | ⟨hdelegate, hchain⟩ := h
    have hinner := ih hchain (fun u hu => hnone u (List.mem_cons_of_mem t hu))
      (Nat.lt_of_succ_lt_succ hfuel) DONT_FALL_BACK
    have hfall : fallBackSet rt (fun d => set rt fuel d key val DONT_FALL_BACK) (.table t) key val
        s = (set rt fuel (.table u) key val DONT_FALL_BACK >>= fun ok =>
          if ok then pure (.ok .null) else metaSet rt (.table t) key val) s := by
      rw [fallBackSet_table, hdelegate]
    have hask := Traced.askOn_cons_view (fun answer => answer.get?.isSome)
      (setCandidate rt key val t selfidx)
      ((u :: ts).map (setCandidate rt key val · DONT_FALL_BACK))
    rw [set_table (hnone t List.mem_cons_self), Traced.bind_congr_left hfall]
    rw [Traced.bind_assoc, Traced.bind_congr_left hinner, Traced.bind_assoc]
    refine Eq.trans ?_ (congrFun hask s).symm
    apply Traced.bind_congr_iff.mpr
    intro answer s' events _
    cases answer with
    | found dest => exact Traced.bind_pure
    | passed =>
      rw [setCandidate_isSome]
      exact Traced.bind_pure
    | failed =>
      rw [setCandidate_isSome]
      exact Traced.bind_pure

/-! ## Where a table has the key -/

/-- The first table of the chain that has the key gives the value. -/
theorem get_found {t₀ t : ℕ} {ts upper lower : List ℕ} (h : s.DelegateChain (t₀ :: ts))
    (hchain : t₀ :: ts = upper ++ t :: lower) (hupper : ∀ u ∈ upper, s.tableGet u key = none)
    {dest : SQObject} (ht : s.tableGet t key = some dest) {fuel : ℕ} (hfuel : ts.length < fuel)
    (selfidx : ℤ) : get rt fuel (.table t₀) key false selfidx s = .done (some dest) s [] := by
  induction upper generalizing t₀ ts fuel selfidx with
  | nil =>
    obtain ⟨fuel, rfl⟩ := Nat.exists_eq_succ_of_ne_zero (Nat.ne_zero_of_lt hfuel)
    obtain ⟨rfl, rfl⟩ := List.cons.inj hchain
    have hslot : getSlot rt (.table t₀) key s = .done (some (some dest)) s [] := by
      change Outcome.done ((s.tableGet t₀ key).map some) s [] = _
      rw [ht]
      rfl
    rw [get, Traced.bind_eq hslot, Traced.after_nil]
    rfl
  | cons u upper ih =>
    obtain ⟨fuel, rfl⟩ := Nat.exists_eq_succ_of_ne_zero (Nat.ne_zero_of_lt hfuel)
    obtain ⟨rfl, rfl⟩ := List.cons.inj hchain
    obtain ⟨hu, hupper⟩ := List.forall_mem_cons.mp hupper
    rw [List.append_eq] at h hfuel
    cases hts : upper ++ t :: lower with
    | nil => exact absurd hts (by simp)
    | cons d ts =>
      rw [hts] at h hfuel
      obtain _ | ⟨hdelegate, htail⟩ := h
      have hinner := ih htail hts.symm hupper (Nat.lt_of_succ_lt_succ hfuel) DONT_FALL_BACK
      rw [get_table hu, Traced.bind_congr_left (fallBackGet_table _ _), hdelegate]
      dsimp only
      rw [Traced.bind_assoc, Traced.bind_eq hinner, Traced.after_nil]
      exact Traced.bind_pure

theorem set_found {t₀ t : ℕ} {ts upper lower : List ℕ} (h : s.DelegateChain (t₀ :: ts))
    (hchain : t₀ :: ts = upper ++ t :: lower) (hupper : ∀ u ∈ upper, s.tableSet rt u key val = none)
    (ht : s.tableSet rt t key val = some s') {fuel : ℕ} (hfuel : ts.length < fuel)
    (selfidx : ℤ) : set rt fuel (.table t₀) key val selfidx s = .done true s' [] := by
  induction upper generalizing t₀ ts fuel selfidx with
  | nil =>
    obtain ⟨fuel, rfl⟩ := Nat.exists_eq_succ_of_ne_zero (Nat.ne_zero_of_lt hfuel)
    obtain ⟨rfl, rfl⟩ := List.cons.inj hchain
    have hslot : setSlot rt (.table t₀) key val s = .done (some true) s' [] := by
      simp only [setSlot_table, Traced.step, ht]
    rw [set, Traced.bind_eq hslot, Traced.after_nil]
    rfl
  | cons u upper ih =>
    obtain ⟨fuel, rfl⟩ := Nat.exists_eq_succ_of_ne_zero (Nat.ne_zero_of_lt hfuel)
    obtain ⟨rfl, rfl⟩ := List.cons.inj hchain
    obtain ⟨hu, hupper⟩ := List.forall_mem_cons.mp hupper
    rw [List.append_eq] at h hfuel
    cases hts : upper ++ t :: lower with
    | nil => exact absurd hts (by simp)
    | cons d ts =>
      rw [hts] at h hfuel
      obtain _ | ⟨hdelegate, htail⟩ := h
      have hinner := ih htail hts.symm hupper (Nat.lt_of_succ_lt_succ hfuel) DONT_FALL_BACK
      rw [set_table hu, Traced.bind_congr_left (fallBackSet_table _ _), hdelegate]
      dsimp only
      rw [Traced.bind_assoc, Traced.bind_eq hinner, Traced.after_nil]
      exact Traced.bind_pure

/-! ## Errors -/

/-- What a call raises: the error that it leaves when it fails, but for null -/
def callError (c : MetaCall) : Option SQObject := c.failure.filter (· ≠ .null)

/-- The call has failed and left the error. -/
theorem errorEnds_call (mm : SQMetaMethod) (closure : SQObject) (nparams : ℕ) :
    ErrorEnds callError (fun err res s => res = none ∧ s.vm.lasterror = err ∧ err ≠ .null)
      (call rt mm closure nparams) := by
  intro s res s' front e back err h herr
  have hone : ∀ c : MetaCall, [c] = front ++ e :: back → c = e ∧ back = [] := by
    intro c hc
    obtain ⟨-, hsingle⟩ | ⟨front, -, hnil⟩ := List.cons_eq_append_iff.mp hc
    · obtain ⟨rfl, rfl⟩ := List.cons.inj hsingle
      exact ⟨rfl, rfl⟩
    · cases (List.append_eq_nil_iff.mp hnil.symm).2
  unfold call at h
  split at h
  · cases h
  · obtain ⟨-, -, hevents⟩ := Outcome.done.inj h
    obtain ⟨rfl, -⟩ := hone _ hevents
    cases herr
  · obtain ⟨rfl, rfl, hevents⟩ := Outcome.done.inj h
    obtain ⟨rfl, rfl⟩ := hone _ hevents
    obtain ⟨hfailure, hnull⟩ := Option.filter_eq_some_iff.mp herr
    exact ⟨rfl, rfl, Option.some.inj hfailure, of_decide_eq_true hnull⟩

private theorem pop_lasterror {vm vm' : SQVM} {n : ℕ} (h : vm.pop n = some vm') :
    vm'.lasterror = vm.lasterror := by
  induction n generalizing vm with
  | zero =>
    cases h
    rfl
  | succ n ih =>
    obtain ⟨vm₁, hslot, hpop⟩ := Option.bind_eq_some_iff.mp h
    rw [ih hpop]
    unfold SQVM.setSlot at hslot
    split at hslot
    · cases hslot
      rfl
    · cases hslot

/-- Arguments that are popped before the call counts as returned -/
theorem pop_leave {α : Type} {n : ℕ} {k : VmOp α} {a : α} {events : List MetaCall}
    (h : (do pop n; leaveMetaMethod; k : VmOp α) s = .done a s' events) :
    ∃ s₁, s₁.vm.lasterror = s.vm.lasterror ∧ k s₁ = .done a s' events := by
  obtain ⟨_, s₁, events₁, events₂, hpop, hrest, rfl⟩ := Traced.bind_done.mp h
  obtain ⟨_, s₂, events₃, events₄, hleave, hk, rfl⟩ := Traced.bind_done.mp hrest
  cases hleave
  unfold pop vmStep Traced.step at hpop
  split at hpop
  · next hstep =>
    obtain ⟨vm, hvm, heq⟩ := Option.map_eq_some_iff.mp hstep
    cases heq
    cases hpop
    have hlast : vm.lasterror = s.vm.lasterror := pop_lasterror hvm
    exact ⟨_, hlast, hk⟩
  · cases hpop

/-- How `metaGet` and `metaSet` end when the call raises an error -/
def MetaFailed (err : SQObject) (res : FallBack) (s : Store) : Prop :=
  res = .error ∧ s.vm.lasterror = err

private theorem errorEnds_metaGet (self : SQObject) :
    ErrorEnds callError MetaFailed (metaGet rt self key) := by
  unfold metaGet
  apply ErrorEnds.bind_right (.read _)
  intro closure
  cases closure with
  | none => exact .pure _
  | some closure =>
    apply ErrorEnds.bind_right (.step _) fun _ => ?_
    apply ErrorEnds.bind_right (.step _) fun _ => ?_
    apply ErrorEnds.bind_right (.modify _) fun _ => ?_
    apply (errorEnds_call _ _ _).bind
    · intro res
      cases res with
      | some dest => exact .bind_right (.step _) fun _ => .bind_right (.modify _) fun _ => .pure _
      | none =>
        apply ErrorEnds.bind_right (.step _) fun _ => .bind_right (.modify _) fun _ => ?_
        apply ErrorEnds.bind_right (.read _)
        intro last
        split <;> exact .pure _
    · rintro err res s b s' events ⟨rfl, hlast, hnull⟩ h
      obtain ⟨s₁, hlast₁, hrest⟩ := pop_leave h
      rw [Traced.bind_read, hlast₁, hlast, if_pos hnull] at hrest
      cases hrest
      exact ⟨rfl, rfl, hlast₁.trans hlast⟩

private theorem errorEnds_metaSet (self : SQObject) :
    ErrorEnds callError MetaFailed (metaSet rt self key val) := by
  unfold metaSet
  apply ErrorEnds.bind_right (.read _)
  intro closure
  cases closure with
  | none => exact .pure _
  | some closure =>
    apply ErrorEnds.bind_right (.step _) fun _ => ?_
    apply ErrorEnds.bind_right (.step _) fun _ => ?_
    apply ErrorEnds.bind_right (.step _) fun _ => ?_
    apply ErrorEnds.bind_right (.modify _) fun _ => ?_
    apply (errorEnds_call _ _ _).bind
    · intro res
      cases res with
      | some dest => exact .bind_right (.step _) fun _ => .bind_right (.modify _) fun _ => .pure _
      | none =>
        apply ErrorEnds.bind_right (.read _)
        intro last
        split
        · exact .bind_right (.step _) fun _ => .bind_right (.modify _) fun _ => .pure _
        · exact .bind_right (.modify _) fun _ => .pure _
    · rintro err res s b s' events ⟨rfl, hlast, hnull⟩ h
      dsimp only at h
      rw [Traced.bind_read, hlast, if_pos hnull] at h
      obtain ⟨s₁, hlast₁, hrest⟩ := pop_leave h
      cases hrest
      exact ⟨rfl, rfl, hlast₁.trans hlast⟩

theorem errorEnds_candidate {metamethod : VmOp FallBack} {rest : VmOp (Option SQObject)}
    (hmeta : ErrorEnds callError MetaFailed metamethod)
    (hrest : ErrorEnds callError (fun _ _ _ => False) rest) :
    ErrorEnds callError (fun err answer s => answer = .failed ∧ s.vm.lasterror = err)
      (candidate metamethod rest) := by
  apply hmeta.bind
  · intro res
    cases res with
    | ok dest => exact .pure _
    | error => exact .pure _
    | noMatch =>
      apply hrest.bind_right
      intro dest
      cases dest with
      | some dest => exact .pure _
      | none => exact .pure _
  · rintro err res s answer s' events ⟨rfl, hlast⟩ h
    cases h
    exact ⟨rfl, rfl, hlast⟩

private theorem errorEnds_getRest (t : ℕ) (selfidx : ℤ) :
    ErrorEnds callError (fun _ _ _ => False) (getRest rt key t selfidx) := by
  apply ErrorEnds.bind_right (.read _)
  intro dest
  cases dest with
  | some dest => exact .pure _
  | none =>
    apply ErrorEnds.bind_right (.read _)
    intro dest
    cases dest with
    | some dest => exact .pure _
    | none => exact .bind_right (.modify _) fun _ => .pure _

private theorem errorEnds_setCandidate (t : ℕ) (selfidx : ℤ) :
    ErrorEnds callError (fun err answer s => answer = .failed ∧ s.vm.lasterror = err)
      (setCandidate rt key val t selfidx) := by
  apply errorEnds_candidate (errorEnds_metaSet _)
  apply ErrorEnds.bind_right
  · apply ErrorEnds.bind_right (.step _)
    intro ok
    cases ok with
    | true => exact .pure _
    | false => exact .bind_right (.modify _) fun _ => .pure _
  · intro ok
    cases ok with
    | true => exact .pure _
    | false => exact .pure _

/-! ## Get and Set -/

/-- The errors of the candidates end the operation. -/
theorem errorEnds_ask {cs : List (VmOp (Answer SQObject))} {α : Type} (view : Answer SQObject → α)
    (hc : ∀ c ∈ cs, ErrorEnds callError
      (fun err answer s => answer = .failed ∧ s.vm.lasterror = err) c) :
    ErrorEnds callError (fun err a s => a = view .failed ∧ s.vm.lasterror = err)
      (ask cs >>= fun answer => pure (view answer)) := by
  apply (ErrorEnds.ask hc).bind fun _ => .pure _
  rintro err answer s a s' events ⟨rfl, hlast⟩ h
  cases h
  exact ⟨rfl, rfl, hlast⟩

theorem callError_eq {call : MetaCall} {err : SQObject} (hfailure : call.failure = some err)
    (hnull : err ≠ .null) : callError call = some err := by
  rw [callError, hfailure, Option.filter_some, decide_eq_true hnull]
  rfl

/-- Candidates below the first pass over a key in silence. -/
theorem askOn_silent_iff {c : ℕ → ℤ → VmOp (Answer SQObject)} {quiet : ℕ → ℤ → Store → Prop}
    (hc : ∀ t selfidx s answer s', answer.get? = none → (c t selfidx s = .done answer s' [] ↔
      quiet t selfidx s ∧ answer = .passed ∧ s' = raised rt key s))
    (hquiet : ∀ t selfidx s, quiet t selfidx (raised rt key s) ↔ quiet t selfidx s)
    (t₀ : ℕ) (selfidx : ℤ) (upper : List ℕ) (s : Store) :
    (∃ answer, answer.get? = none ∧
      askOn (c t₀ selfidx :: upper.map (c · DONT_FALL_BACK)) s = .done answer s []) ↔
      (quiet t₀ selfidx s ∧ ∀ t ∈ upper, quiet t DONT_FALL_BACK s) ∧
        s.vm.lasterror = .string (idxError rt key) := by
  have h := Traced.askOn_quiet_iff (fun p : ℕ × ℤ => hc p.1 p.2) (fun p => hquiet p.1 p.2)
    (fun _ => rfl) (List.cons_ne_nil (t₀, selfidx) (upper.map (·, DONT_FALL_BACK))) s
  rw [List.map_cons, List.map_map, raised_eq_iff, List.forall_mem_cons, List.forall_mem_map] at h
  exact h

/-- A table of the chain that has the key, and before it none that has -/
theorem none_or_first {β : Type} (f : ℕ → Option β) (chain : List ℕ) :
    (∀ t ∈ chain, f t = none) ∨ ∃ upper t lower b, chain = upper ++ t :: lower ∧
      (∀ u ∈ upper, f u = none) ∧ f t = some b := by
  induction chain with
  | nil => exact .inl nofun
  | cons t ts ih =>
    cases ht : f t with
    | some b => exact .inr ⟨[], t, ts, b, rfl, nofun, ht⟩
    | none =>
      obtain hnone | ⟨upper, t', lower, b, rfl, hupper, ht'⟩ := ih
      · exact .inl (List.forall_mem_cons.mpr ⟨ht, hnone⟩)
      · exact .inr ⟨t :: upper, t', lower, b, rfl, List.forall_mem_cons.mpr ⟨ht, hupper⟩, ht'⟩

section

variable {t₀ t : ℕ} {ts upper : List ℕ} {selfidx : ℤ} {fuel : ℕ} {dest : SQObject}
  {answer : Answer SQObject} {events : List MetaCall}

theorem dont_fall_back_ne : DONT_FALL_BACK ≠ 0 := by decide

private theorem getQuiet_all_iff : (GetQuiet rt key t₀ selfidx s ∧
    ∀ t ∈ upper, GetQuiet rt key t DONT_FALL_BACK s) ↔
      (∀ u ∈ t₀ :: upper, s.getMetaMethod (.table u) .get = none) ∧
        s.tableGet rt.defaultDelegates.table key = none ∧
        (selfidx = 0 → s.tableGet s.roottable key = none) := by
  rw [List.forall_mem_cons]
  constructor
  · rintro ⟨⟨hmm, hdel, hroot⟩, hall⟩
    exact ⟨⟨hmm, fun t ht => (hall t ht).1⟩, hdel, hroot⟩
  · rintro ⟨⟨hmm, hall⟩, hdel, hroot⟩
    exact ⟨⟨hmm, hdel, hroot⟩,
      fun t ht => ⟨hall t ht, hdel, fun h => absurd h dont_fall_back_ne⟩⟩

private theorem setQuiet_all_iff : (SetQuiet rt key val t₀ selfidx s ∧
    ∀ t ∈ upper, SetQuiet rt key val t DONT_FALL_BACK s) ↔
      (∀ u ∈ t₀ :: upper, s.getMetaMethod (.table u) .set = none) ∧
        (selfidx = 0 → s.tableSet rt s.roottable key val = none) := by
  rw [List.forall_mem_cons]
  constructor
  · rintro ⟨⟨hmm, hroot⟩, hall⟩
    exact ⟨⟨hmm, fun t ht => (hall t ht).1⟩, hroot⟩
  · rintro ⟨⟨hmm, hall⟩, hroot⟩
    exact ⟨⟨hmm, hroot⟩, fun t ht => ⟨hall t ht, fun h => absurd h dont_fall_back_ne⟩⟩

/-! ### What the default delegate hides -/

private theorem getBelow_silent_iff (hdel : s.tableGet rt.defaultDelegates.table key = some dest) :
    getBelow rt key t s = .done answer s' [] ↔
      s.getMetaMethod (.table t) .get = none ∧ answer = .passed ∧ s' = s := by
  have hrest : (do let _ ← getRest rt key t DONT_FALL_BACK; pure none : VmOp (Option SQObject)) s =
      .done none s [] := by
    rw [Traced.bind_eq (getRest_found hdel)]
    rfl
  have hrun : s.getMetaMethod (.table t) .get = none →
      getBelow rt key t s = .done .passed s [] := by
    intro hmm
    rw [getBelow, candidate_eq _ (metaGet_none hmm), Traced.bind_eq hrest]
    rfl
  constructor
  · intro h
    have hmm : s.getMetaMethod (.table t) .get = none := by
      obtain ⟨res, s₁, events₁, events₂, hres, -, hevents⟩ := Traced.bind_done.mp h
      obtain ⟨rfl, -⟩ := List.append_eq_nil_iff.mp hevents.symm
      exact metaGet_silent hres
    rw [hrun hmm] at h
    cases h
    exact ⟨hmm, rfl, rfl⟩
  · rintro ⟨hmm, rfl, rfl⟩
    exact hrun hmm

private theorem ask_below_silent_iff (hdel : s.tableGet rt.defaultDelegates.table key = some dest) :
    ask (upper.map (getBelow rt key)) s = .done answer s' [] ↔
      (∀ u ∈ upper, s.getMetaMethod (.table u) .get = none) ∧ answer = .passed ∧ s' = s := by
  induction upper generalizing answer s' with
  | nil =>
    constructor
    · rintro ⟨⟩
      exact ⟨nofun, rfl, rfl⟩
    · rintro ⟨-, rfl, rfl⟩
      rfl
  | cons u upper ih =>
    rw [List.forall_mem_cons, List.map_cons, ask]
    constructor
    · intro h
      obtain ⟨below, s₁, events₁, events₂, hbelow, hu, hevents⟩ := Traced.bind_done.mp h
      obtain ⟨rfl, rfl⟩ := List.append_eq_nil_iff.mp hevents.symm
      obtain ⟨hall, rfl, rfl⟩ := ih.mp hbelow
      obtain ⟨hmm, rfl, rfl⟩ := (getBelow_silent_iff hdel).mp hu
      exact ⟨⟨hmm, hall⟩, rfl, rfl⟩
    · rintro ⟨⟨hmm, hall⟩, rfl, rfl⟩
      rw [Traced.bind_eq (ih.mpr ⟨hall, rfl, rfl⟩)]
      exact congrArg (Traced.after []) ((getBelow_silent_iff hdel).mpr ⟨hmm, rfl, rfl⟩)

/-- When the default delegate has the key, it is found again in the end if there is no
metamethod. -/
theorem found_again_iff (hdel : s.tableGet rt.defaultDelegates.table key = some dest) :
    (∃ answer : Answer SQObject, answer.get? = some dest ∧
      ask (getCandidate rt key t₀ selfidx :: upper.map (getBelow rt key)) s = .done answer s []) ↔
      ∀ u ∈ t₀ :: upper, s.getMetaMethod (.table u) .get = none := by
  rw [List.forall_mem_cons, ask]
  constructor
  · rintro ⟨answer, -, h⟩
    obtain ⟨below, s₁, events₁, events₂, hbelow, hfirst, hevents⟩ := Traced.bind_done.mp h
    obtain ⟨rfl, rfl⟩ := List.append_eq_nil_iff.mp hevents.symm
    obtain ⟨hall, rfl, rfl⟩ := (ask_below_silent_iff hdel).mp hbelow
    refine ⟨?_, hall⟩
    obtain ⟨res, s₁, events₁, events₂, hres, -, hevents⟩ := Traced.bind_done.mp hfirst
    obtain ⟨rfl, -⟩ := List.append_eq_nil_iff.mp hevents.symm
    exact metaGet_silent hres
  · rintro ⟨hmm, hall⟩
    refine ⟨.found dest, rfl, ?_⟩
    rw [Traced.bind_eq ((ask_below_silent_iff hdel).mpr ⟨hall, rfl, rfl⟩), Traced.after_nil]
    dsimp only
    rw [getCandidate, candidate_eq _ (metaGet_none hmm), Traced.bind_eq (getRest_found hdel)]
    rfl

/-- A candidate below the first finds what does not count just when its metamethod passes and the
default delegate has the key. -/
theorem hidden_iff : (getCandidate rt key t DONT_FALL_BACK s = .done (.found dest) s' events ∧
    getBelow rt key t s = .done .passed s' events) ↔
      metaGet rt (.table t) key s = .done .noMatch s' events ∧
        s'.tableGet rt.defaultDelegates.table key = some dest := by
  constructor
  · rintro ⟨hcode, hspec⟩
    obtain ⟨res, s₁, events₁, events₂, hres, hcode, rfl⟩ := Traced.bind_done.mp hcode
    rw [getBelow, candidate, Traced.bind_eq hres] at hspec
    cases res with
    | ok found => cases hspec
    | error => cases hspec
    | noMatch =>
      obtain ⟨res, s₂, events₃, events₄, hrest, hcode, rfl⟩ := Traced.bind_done.mp hcode
      cases res with
      | none => cases hcode
      | some found =>
        cases hcode
        cases hdel : s₁.tableGet rt.defaultDelegates.table key with
        | some found' =>
          rw [getRest_found hdel] at hrest
          cases hrest
          rw [List.append_nil, List.append_nil]
          exact ⟨hres, hdel⟩
        | none =>
          rw [getRest_none_iff.mpr ⟨hdel, fun h => absurd h dont_fall_back_ne, rfl⟩] at hrest
          cases hrest
  · rintro ⟨hmeta, hdel⟩
    have hrest : getRest rt key t DONT_FALL_BACK _ = _ := getRest_found hdel
    constructor
    · rw [getCandidate, candidate, Traced.bind_eq hmeta]
      dsimp only
      rw [Traced.bind_eq hrest]
      exact congrArg (Outcome.done _ _) (List.append_nil _)
    · rw [getBelow, candidate, Traced.bind_eq hmeta]
      dsimp only
      rw [Traced.bind_assoc, Traced.bind_eq hrest]
      exact congrArg (Outcome.done _ _) (List.append_nil _)

private theorem getHeard_iff : PartsHarmlessly Answer.get? (getCandidate rt key · DONT_FALL_BACK)
    (getBelow rt key) (getCandidate rt key t₀ selfidx) ts s ↔
      GetHeard rt key s t₀ ts selfidx := by
  have hfailed : ∀ upper s', (∃ answer, answer.get? = none ∧
      askOn (getCandidate rt key t₀ selfidx ::
        List.map (getCandidate rt key · DONT_FALL_BACK) upper) s' = .done answer s' []) ↔ _ :=
    fun upper s' => askOn_silent_iff getCandidate_quiet_iff (fun _ _ _ => Iff.rfl) t₀ selfidx
      upper s'
  simp only [getQuiet_all_iff, and_assoc] at hfailed
  constructor
  · intro h upper t lower s₁ events hsplit hlower
    obtain ⟨herror, hhidden⟩ := h upper t lower s₁ events hsplit hlower
    refine ⟨fun s' events' hmeta => ?_, fun s' events' hmeta hdel => ?_⟩
    · exact (hfailed upper s').mp (herror s' events' (candidate_failed_iff.mpr hmeta))
    · obtain ⟨dest, hdel⟩ := Option.isSome_iff_exists.mp hdel
      obtain ⟨hcode, hspec⟩ := hidden_iff.mpr ⟨hmeta, hdel⟩
      exact (found_again_iff hdel).mp (hhidden dest s' events' hcode hspec)
  · intro h upper t lower s₁ events hsplit hlower
    obtain ⟨herror, hhidden⟩ := h upper t lower s₁ events hsplit hlower
    refine ⟨fun s' events' hcode => ?_, fun dest s' events' hcode hspec => ?_⟩
    · exact (hfailed upper s').mpr (herror s' events' (candidate_failed_iff.mp hcode))
    · obtain ⟨hmeta, hdel⟩ := hidden_iff.mp ⟨hcode, hspec⟩
      exact (found_again_iff hdel).mpr
        (hhidden s' events' hmeta (Option.isSome_iff_exists.mpr ⟨dest, hdel⟩))

private theorem getResolves_iff (h : s.DelegateChain (t₀ :: ts)) (hfuel : ts.length < fuel) :
    GetResolves rt key s t₀ ts selfidx (get rt fuel (.table t₀) key false selfidx s) ↔
      ((∀ t ∈ t₀ :: ts, s.tableGet t key = none) → GetHeard rt key s t₀ ts selfidx) := by
  have hasked : (∀ t ∈ t₀ :: ts, s.tableGet t key = none) →
      (get rt fuel (.table t₀) key false selfidx s =
        (ask (getCandidate rt key t₀ selfidx :: ts.map (getBelow rt key)) >>= fun answer =>
          pure answer.get?) s ↔ GetHeard rt key s t₀ ts selfidx) := by
    intro hnone
    rw [get_eq_askOn h hnone hfuel selfidx, ← getHeard_iff]
    exact Traced.askOn_view_eq_iff (hides_candidate _ _) (fun _ => Iff.rfl) _ ts s
  constructor
  · exact fun hres hnone => (hasked hnone).mp (hres.asked hnone)
  · intro hheard
    refine ⟨fun upper t lower dest hchain hupper ht =>
      get_found h hchain hupper ht hfuel selfidx, fun hnone => (hasked hnone).mpr (hheard hnone),
      ?_⟩
    intro dest s' front call back err hdone hfailure hnull
    obtain hnone | ⟨upper, t, lower, found, hchain, hupper, ht⟩ :=
      none_or_first (s.tableGet · key) (t₀ :: ts)
    · rw [(hasked hnone).mpr (hheard hnone)] at hdone
      refine errorEnds_ask _ ?_ s dest s' front call back err hdone (callError_eq hfailure hnull)
      rw [List.forall_mem_cons, List.forall_mem_map]
      refine ⟨errorEnds_candidate (errorEnds_metaGet _) (errorEnds_getRest _ _), fun t _ => ?_⟩
      exact errorEnds_candidate (errorEnds_metaGet _) ((errorEnds_getRest _ _).bind_right fun _ =>
        .pure _)
    · rw [get_found h hchain hupper ht hfuel selfidx] at hdone
      obtain ⟨-, -, hevents⟩ := Outcome.done.inj hdone
      cases (List.append_eq_nil_iff.mp hevents.symm).2

/-! ### Set, and null -/

private theorem setHeard_iff : PartsHarmlessly (fun answer : Answer SQObject => answer.get?.isSome)
    (setCandidate rt key val · DONT_FALL_BACK) (setCandidate rt key val · DONT_FALL_BACK)
    (setCandidate rt key val t₀ selfidx) ts s ↔ SetHeard rt key val s t₀ ts selfidx := by
  have hfailed : ∀ upper s', (∃ answer, answer.get? = none ∧
      askOn (setCandidate rt key val t₀ selfidx ::
        List.map (setCandidate rt key val · DONT_FALL_BACK) upper) s' = .done answer s' []) ↔ _ :=
    fun upper s' => askOn_silent_iff setCandidate_quiet_iff setQuiet_raised t₀ selfidx upper s'
  simp only [setQuiet_all_iff, and_assoc] at hfailed
  constructor
  · intro h upper t lower s₁ events hsplit hlower s' events' hmeta
    obtain ⟨herror, -⟩ := h upper t lower s₁ events hsplit hlower
    exact (hfailed upper s').mp (herror s' events' (candidate_failed_iff.mpr hmeta))
  · intro h upper t lower s₁ events hsplit hlower
    refine ⟨fun s' events' hcode => ?_, fun dest s' events' hcode hspec => ?_⟩
    · exact (hfailed upper s').mpr
        (h upper t lower s₁ events hsplit hlower s' events' (candidate_failed_iff.mp hcode))
    · rw [hcode] at hspec
      cases hspec

/-- `Set` in the root table finds the key in silence. -/
theorem setRoot_true {s₁ : Store} (h : setRoot rt key val selfidx s = .done true s₁ []) :
    selfidx = 0 ∧ s.tableSet rt s.roottable key val = some s₁ := by
  by_cases hself : selfidx = 0
  · cases hset : s.tableSet rt s.roottable key val with
    | some s₂ =>
      simp only [setRoot, bind, Traced.step, if_pos hself, hset] at h
      cases h
      exact ⟨hself, rfl⟩
    | none =>
      rw [setRoot_false_iff.mpr ⟨fun _ => hset, rfl⟩] at h
      cases h
  · rw [setRoot_false_iff.mpr ⟨fun h => absurd h hself, rfl⟩] at h
    cases h

theorem setCandidate_metaMethod (h : setCandidate rt key val t selfidx s = .done answer s' []) :
    s.getMetaMethod (.table t) .set = none := by
  obtain ⟨res, s₁, events₁, events₂, hres, -, hevents⟩ := Traced.bind_done.mp h
  obtain ⟨rfl, -⟩ := List.append_eq_nil_iff.mp hevents.symm
  exact metaSet_silent hres

private theorem ask_set_silent_iff : ask (upper.map (setCandidate rt key val · DONT_FALL_BACK)) s =
    .done answer s' [] ↔ (∀ u ∈ upper, s.getMetaMethod (.table u) .set = none) ∧
      answer = .passed ∧ s' = if upper = [] then s else raised rt key s := by
  induction upper generalizing answer s' with
  | nil =>
    constructor
    · rintro ⟨⟩
      exact ⟨nofun, rfl, rfl⟩
    · rintro ⟨-, rfl, rfl⟩
      rfl
  | cons u upper ih =>
    have hquiet : ∀ s₁, s₁ = (if upper = [] then s else raised rt key s) →
        s.getMetaMethod (.table u) .set = none →
        setCandidate rt key val u DONT_FALL_BACK s₁ = .done .passed (raised rt key s) [] := by
      intro s₁ hs₁ hmm
      have hmm₁ : s₁.getMetaMethod (.table u) .set = none := by
        rw [hs₁]
        split_ifs
        · exact hmm
        · exact hmm
      have hraised : raised rt key s₁ = raised rt key s := by
        rw [hs₁]
        split_ifs <;> rfl
      rw [← hraised]
      exact (setCandidate_quiet_iff u DONT_FALL_BACK s₁ .passed _ rfl).mpr
        ⟨⟨hmm₁, fun h => absurd h dont_fall_back_ne⟩, rfl, rfl⟩
    rw [List.forall_mem_cons, List.map_cons, ask, if_neg (List.cons_ne_nil u upper)]
    constructor
    · intro h
      obtain ⟨below, s₁, events₁, events₂, hbelow, hu, hevents⟩ := Traced.bind_done.mp h
      obtain ⟨rfl, rfl⟩ := List.append_eq_nil_iff.mp hevents.symm
      obtain ⟨hall, rfl, hs₁⟩ := ih.mp hbelow
      have hmm₁ := setCandidate_metaMethod hu
      have hmm : s.getMetaMethod (.table u) .set = none := by
        rw [hs₁] at hmm₁
        split_ifs at hmm₁
        · exact hmm₁
        · exact hmm₁
      dsimp only at hu
      rw [hquiet s₁ hs₁ hmm] at hu
      cases hu
      exact ⟨⟨hmm, hall⟩, rfl, rfl⟩
    · rintro ⟨⟨hmm, hall⟩, rfl, rfl⟩
      rw [Traced.bind_eq (ih.mpr ⟨hall, rfl, rfl⟩)]
      exact congrArg (Traced.after []) (hquiet _ rfl hmm)

/-- Asking the candidates changes nothing and finds a place just when that is a free node of the
root table for null. -/
theorem setSilent_iff (hkey : key = .null) :
    (∃ answer : Answer SQObject, answer.get?.isSome = true ∧
      ask (setCandidate rt key val t₀ selfidx ::
        ts.map (setCandidate rt key val · DONT_FALL_BACK)) s = .done answer s []) ↔
      SetSilent rt key s t₀ ts selfidx := by
  have hnone : ∀ s : Store, s.tableGet s.roottable key = none := fun s => if_pos hkey
  constructor
  · rintro ⟨answer, hsome, h⟩
    obtain ⟨below, s₁, events₁, events₂, hbelow, hfirst, hevents⟩ := Traced.bind_done.mp h
    obtain ⟨rfl, rfl⟩ := List.append_eq_nil_iff.mp hevents.symm
    obtain ⟨hall, rfl, hs₁⟩ := ask_set_silent_iff.mp hbelow
    dsimp only at hfirst
    have hmm₁ := setCandidate_metaMethod hfirst
    rw [setCandidate, candidate_eq _ (metaSet_none hmm₁)] at hfirst
    obtain ⟨dest, s₂, events₃, events₄, hrest, hdest, hevents⟩ := Traced.bind_done.mp hfirst
    obtain ⟨rfl, rfl⟩ := List.append_eq_nil_iff.mp hevents.symm
    obtain ⟨ok, s₃, events₅, events₆, hroot, hok, hevents⟩ := Traced.bind_done.mp hrest
    obtain ⟨rfl, rfl⟩ := List.append_eq_nil_iff.mp hevents.symm
    cases ok with
    | false =>
      cases hok
      cases hdest
      cases hsome
    | true =>
      cases hok
      cases hdest
      obtain ⟨hself, hset⟩ := setRoot_true hroot
      obtain ⟨htake, htakes⟩ | ⟨hno, -⟩ := tableSet_of_none rt val (hnone s₁)
      · obtain rfl : s₁ = s := Option.some.inj (htake.symm.trans hset)
        refine ⟨List.forall_mem_cons.mpr ⟨hmm₁, hall⟩, ⟨hself, htakes⟩, ?_⟩
        by_cases hts : ts = []
        · exact .inl hts
        · rw [if_neg hts] at hs₁
          exact .inr (raised_eq_iff.mp hs₁.symm)
      · rw [hno] at hset
        cases hset
  · rintro ⟨hmm, ⟨hself, htakes⟩, hlast⟩
    obtain ⟨hmm₀, hall⟩ := List.forall_mem_cons.mp hmm
    have hs₁ : (if ts = [] then s else raised rt key s) = s := by
      split_ifs with hts
      · rfl
      · exact raised_eq_iff.mpr (hlast.resolve_left hts)
    have hset : s.tableSet rt s.roottable key val = some s := by
      obtain ⟨htake, -⟩ | ⟨-, hno⟩ := tableSet_of_none rt val (hnone s)
      · exact htake
      · exact absurd htakes hno
    have hroot : setRoot rt key val selfidx s = .done true s [] := by
      simp only [setRoot, bind, Traced.step, if_pos hself, hset]
      rfl
    refine ⟨.found .null, rfl, ?_⟩
    rw [ask, Traced.bind_eq (ask_set_silent_iff.mpr ⟨hall, rfl, rfl⟩), Traced.after_nil, hs₁]
    dsimp only
    rw [setCandidate, candidate_eq _ (metaSet_none hmm₀), Traced.bind_assoc, Traced.bind_eq hroot]
    rfl

/-- A value for null goes to the first free node there is. -/
theorem set_null (h : s.DelegateChain (t₀ :: ts)) (hnone : ∀ t ∈ t₀ :: ts, s.tableGet t key = none)
    (htakes : ∃ t ∈ t₀ :: ts, TakesNull rt key s t) (hfuel : ts.length < fuel) :
    set rt fuel (.table t₀) key val selfidx s = .done true s [] := by
  obtain hall | ⟨upper, t, lower, s', hchain, hupper, ht⟩ :=
    none_or_first (s.tableSet rt · key val) (t₀ :: ts)
  · obtain ⟨t, ht, htakes⟩ := htakes
    obtain ⟨hset, -⟩ | ⟨-, hno⟩ := tableSet_of_none rt val (hnone t ht)
    · rw [hall t ht] at hset
      cases hset
    · exact absurd htakes hno
  · have hmem : t ∈ t₀ :: ts := by rw [hchain]; simp
    obtain ⟨hset, -⟩ | ⟨hset, -⟩ := tableSet_of_none rt val (hnone t hmem)
    · exact set_found h hchain hupper hset hfuel selfidx
    · rw [ht] at hset
      cases hset

private theorem setResolves_iff (h : s.DelegateChain (t₀ :: ts)) (hfuel : ts.length < fuel) :
    SetResolves rt key val s t₀ ts selfidx (set rt fuel (.table t₀) key val selfidx s) ↔
      ((∀ t ∈ t₀ :: ts, s.tableGet t key = none) →
        if ∃ t ∈ t₀ :: ts, TakesNull rt key s t then SetSilent rt key s t₀ ts selfidx
        else SetHeard rt key val s t₀ ts selfidx) := by
  have hasked : (∀ t ∈ t₀ :: ts, s.tableGet t key = none) →
      (set rt fuel (.table t₀) key val selfidx s =
        (ask (setCandidate rt key val t₀ selfidx ::
          ts.map (setCandidate rt key val · DONT_FALL_BACK)) >>= fun answer =>
            pure answer.get?.isSome) s ↔
        if ∃ t ∈ t₀ :: ts, TakesNull rt key s t then SetSilent rt key s t₀ ts selfidx
        else SetHeard rt key val s t₀ ts selfidx) := by
    intro hnone
    split_ifs with htakes
    · rw [set_null h hnone htakes hfuel, Traced.bind_view, eq_comm, Traced.viewed_eq_done]
      obtain ⟨t, -, hkey, -⟩ := htakes
      exact setSilent_iff hkey
    · have hset : ∀ t ∈ t₀ :: ts, s.tableSet rt t key val = none := by
        intro t ht
        obtain ⟨-, htake⟩ | ⟨hset, -⟩ := tableSet_of_none rt val (hnone t ht)
        · exact absurd ⟨t, ht, htake⟩ htakes
        · exact hset
      rw [set_eq_askOn h hset hfuel selfidx, ← setHeard_iff]
      refine Traced.askOn_view_eq_iff (fun _ _ => .inl rfl) ?_ _ ts s
      exact fun answer => Option.isSome_eq_false_iff.trans Option.isNone_iff_eq_none
  have hfound : ∀ upper t lower, t₀ :: ts = upper ++ t :: lower →
      (∀ u ∈ upper, s.tableGet u key = none) → (s.tableGet t key).isSome →
      set rt fuel (.table t₀) key val selfidx s =
        .done true (s.setSlots t fun slots => slots.insert key val) [] := by
    intro upper t lower hchain hupper ht
    refine set_found h hchain ?_ (tableSet_of_get ht) hfuel selfidx
    intro u hu
    obtain ⟨-, hkey, -⟩ | ⟨hset, -⟩ := tableSet_of_none rt val (hupper u hu)
    · rw [Store.tableGet, if_pos hkey] at ht
      cases ht
    · exact hset
  constructor
  · exact fun hres hnone => (hasked hnone).mp (hres.asked hnone)
  · intro hheard
    refine ⟨hfound, fun hnone => (hasked hnone).mpr (hheard hnone), ?_⟩
    intro ok s' front call back err hdone hfailure hnull
    obtain hnone | ⟨upper, t, lower, found, hchain, hupper, ht⟩ :=
      none_or_first (s.tableGet · key) (t₀ :: ts)
    · rw [(hasked hnone).mpr (hheard hnone)] at hdone
      refine errorEnds_ask (fun answer => answer.get?.isSome) ?_ s ok s' front call back err hdone
        (callError_eq hfailure hnull)
      rw [List.forall_mem_cons, List.forall_mem_map]
      exact ⟨errorEnds_setCandidate _ _, fun t _ => errorEnds_setCandidate _ _⟩
    · rw [hfound upper t lower hchain hupper (Option.isSome_iff_exists.mpr ⟨found, ht⟩)] at hdone
      obtain ⟨-, -, hevents⟩ := Outcome.done.inj hdone
      cases (List.append_eq_nil_iff.mp hevents.symm).2

end

/-- A table 1 with a `_get` of its own, its delegate 2 with one that answers, and the delegate 3 of
that with one that throws -/
def throwingStore : Store :=
  { emptyStore with tables :=
    [⟨∅, none⟩, ⟨∅, some 2⟩, ⟨Finmap.insert (.string "_get") (.closure 2) ∅, some 3⟩,
      ⟨Finmap.insert (.string "_get") (.closure 3) ∅, none⟩] }

/-- Closure 3 throws, the others return 5. -/
def throwingRuntime : Runtime := { nullRuntime with
  call := fun s closure _ _ =>
    if closure = .closure 3 then some ({ s with vm := s.vm.raiseError "boom" }, none)
    else some (s, some (.integer 5)) }

end VmOp

end Squirt
