import Squirt.JitArithmetic

/-!
# Equality

`IsEqual` with its callers `_OP_EQ`, `_OP_NE` and `array_find`, against the equality that they are
to compute. `IsEqual` takes the answer of `_eq` the wrong way round and makes nothing of its
errors, and `array_find` goes on after an error.
-/

namespace Squirt

open SQTable (FinMap)
open Traced (after after_nil bind_eq bind_pure bind_read bind_assoc bind_congr_iff)

namespace VmOp

section Model

variable (rt : Runtime)

/-- `_OP_EQ` -/
def executeEq (o1 o2 : SQObject) : VmOp ArithResult := do
  match ← isEqual rt true o1 o2 with
  | some res => pure (.stored (.ofBool res))
  | none => pure .thrown

/-- `_OP_NE` -/
def executeNe (o1 o2 : SQObject) : VmOp ArithResult := do
  match ← isEqual rt true o1 o2 with
  | some res => pure (.stored (.ofBool !res))
  | none => pure .thrown

/-- The loop of `array_find` from index `n` on, with so many elements to go. The result is none
for an error, and then the index, if any. -/
def findLoop (r : ℕ) (val : SQObject) : ℕ → ℕ → SQObject → VmOp (Option (Option ℕ))
  | 0, _, _ => pure (some none)
  | rest + 1, n, temp => do
    let temp ← .read fun s => (arrayGet s r n).getD temp
    match ← isEqual rt true temp val with
    | some true => pure (some (some n))
    | _ => findLoop r val rest (n + 1) temp

def arraySize (r : ℕ) : VmOp ℕ :=
  .step fun s => (s.vm.arrays[r]?).map fun values => (values.length, s)

def arrayFind (r : ℕ) (val : SQObject) : VmOp (Option (Option ℕ)) := do
  let size ← arraySize r
  findLoop rt r val size 0 .null

/-- Are objects equal without a metamethod? -/
def plainEqual (o1 o2 : SQObject) : Bool :=
  if o1.type = o2.type then o1 = o2
  else match operands rt o1 o2 with
    | .floats f1 f2 => rt.feq f1 f2
    | _ => false

end Model

/-- The `_eq` that decides about two objects: that of the first of two different tables, userdata
or instances -/
def eqMetaMethod (s : Store) (o1 o2 : SQObject) : Option SQObject :=
  if o1.type = o2.type ∧ o1 ≠ o2 then delegated s o1 .eq else none

section Spec

variable (rt : Runtime)

def callEq (closure o1 o2 : SQObject) : VmOp (Option SQObject) := do
  push o1
  push o2
  callMetaMethod rt closure .eq 2

/-- The equality of the language: the boolean that `_eq` returns if there is one, with an error for
none, and else whether the objects are the same or equal numbers. Not in the source. -/
def equality (o1 o2 : SQObject) : VmOp (Option Bool) := do
  match ← .read fun s => eqMetaMethod s o1 o2 with
  | some closure =>
    match ← callEq rt closure o1 o2 with
    | some (.bool b) => pure (some (b ≠ 0))
    | some _ => fail "_eq must return an boolean"
    | none => pure none
  | none => pure (some (plainEqual rt o1 o2))

/-- `==` by the equality -/
def equalEq (o1 o2 : SQObject) : VmOp ArithResult := do
  match ← equality rt o1 o2 with
  | some res => pure (.stored (.ofBool res))
  | none => pure .thrown

/-- `!=` by the equality -/
def equalNe (o1 o2 : SQObject) : VmOp ArithResult := do
  match ← equality rt o1 o2 with
  | some res => pure (.stored (.ofBool !res))
  | none => pure .thrown

/-- `find` by the equality, from an index on -/
def equalFindLoop (r : ℕ) (val : SQObject) : ℕ → ℕ → SQObject → VmOp (Option (Option ℕ))
  | 0, _, _ => pure (some none)
  | rest + 1, n, temp => do
    let temp ← .read fun s => (arrayGet s r n).getD temp
    match ← equality rt temp val with
    | some true => pure (some (some n))
    | some false => equalFindLoop r val rest (n + 1) temp
    | none => pure none

def equalFind (r : ℕ) (val : SQObject) : VmOp (Option (Option ℕ)) := do
  let size ← arraySize r
  equalFindLoop rt r val size 0 .null

end Spec

variable {rt : Runtime} {o1 o2 : SQObject} {s : Store}

/-- What `IsEqual` makes of the answer -/
def answer (rt : Runtime) : Option SQObject → VmOp (Option Bool)
  | some (.bool b) => pure (some (isFalse rt (.bool b)))
  | some _ => fail "_eq must return an boolean"
  | none => pure (some false)

/-- What is to be made of the answer -/
def properAnswer : Option SQObject → VmOp (Option Bool)
  | some (.bool b) => pure (some (b ≠ 0))
  | some _ => fail "_eq must return an boolean"
  | none => pure none

theorem isEqual_of_none (h : eqMetaMethod s o1 o2 = none) :
    isEqual rt true o1 o2 s = .done (some (plainEqual rt o1 o2)) s [] := by
  unfold isEqual plainEqual
  by_cases htype : o1.type = o2.type
  · rw [if_pos htype, if_pos htype]
    by_cases hsame : o1 = o2
    · rw [if_pos hsame, decide_eq_true hsame]
      rfl
    · rw [eqMetaMethod, if_pos ⟨htype, hsame⟩] at h
      rw [if_neg hsame, if_pos rfl, decide_eq_false hsame, bind_eq (delegatedMetaMethod_eq _ _ _), h]
      rfl
  · rw [if_neg htype, if_neg htype]
    cases operands rt o1 o2 <;> rfl

theorem isEqual_of_some {closure : SQObject} (h : eqMetaMethod s o1 o2 = some closure) :
    isEqual rt true o1 o2 s = (callEq rt closure o1 o2 >>= answer rt) s := by
  unfold eqMetaMethod at h
  split_ifs at h with hdiff
  unfold isEqual
  rw [if_pos hdiff.1, if_neg hdiff.2, if_pos rfl, bind_eq (delegatedMetaMethod_eq _ _ _), h,
    after_nil]
  simp only [callEq, bind_assoc]
  congr

theorem equality_of_none (h : eqMetaMethod s o1 o2 = none) :
    equality rt o1 o2 s = .done (some (plainEqual rt o1 o2)) s [] := by
  unfold equality
  rw [bind_read, h]
  rfl

theorem equality_of_some {closure : SQObject} (h : eqMetaMethod s o1 o2 = some closure) :
    equality rt o1 o2 s = (callEq rt closure o1 o2 >>= properAnswer) s := by
  unfold equality
  rw [bind_read, h]
  rfl

/-- The call of `_eq` returns a boolean, or it fails. -/
def EqAnswers (rt : Runtime) (s : Store) (o1 o2 : SQObject) : Prop :=
  ∃ closure res s' events, eqMetaMethod s o1 o2 = some closure ∧
    callEq rt closure o1 o2 s = .done res s' events ∧ ∀ v, res = some v → ∃ b, v = .bool b

/-- The call of `_eq` returns anything, or it fails. -/
def EqReturns (rt : Runtime) (s : Store) (o1 o2 : SQObject) : Prop :=
  ∃ closure res s' events, eqMetaMethod s o1 o2 = some closure ∧
    callEq rt closure o1 o2 s = .done res s' events

private theorem answer_eq_iff {res : Option SQObject} {s : Store} :
    answer rt res s = properAnswer res s ↔ ¬∀ v, res = some v → ∃ b, v = .bool b := by
  cases res with
  | none => exact iff_of_false nofun (not_not.mpr nofun)
  | some v =>
    by_cases hbool : ∃ b, v = .bool b
    · obtain ⟨b, rfl⟩ := hbool
      refine iff_of_false (fun h => ?_) (not_not.mpr ?_)
      · have hres : some (decide (b = 0)) = some (decide (b ≠ 0)) := (Outcome.done.inj h).1
        by_cases hb : b = 0 <;> simp [hb] at hres
      · rintro _ ⟨⟩
        exact ⟨b, rfl⟩
    · refine iff_of_true ?_ fun h => hbool (h v rfl)
      have hnot : ∀ b, v = .bool b → False := fun b hb => hbool ⟨b, hb⟩
      rw [answer, properAnswer]
      · exact hnot
      · exact hnot

/-- `IsEqual` is the equality unless there is an `_eq` that answers. -/
theorem isEqual_eq_iff : isEqual rt true o1 o2 s = equality rt o1 o2 s ↔ ¬EqAnswers rt s o1 o2 := by
  cases h : eqMetaMethod s o1 o2 with
  | none =>
    refine iff_of_true ((isEqual_of_none h).trans (equality_of_none h).symm) ?_
    rintro ⟨closure, -, -, -, hsome, -⟩
    rw [h] at hsome
    cases hsome
  | some closure =>
    rw [isEqual_of_some h, equality_of_some h, bind_congr_iff]
    simp only [answer_eq_iff]
    constructor
    · rintro hall ⟨closure', res, s', events, hsome, hcall, hbool⟩
      obtain rfl : closure = closure' := Option.some.inj (h.symm.trans hsome)
      exact hall res s' events hcall hbool
    · exact fun hnot res s' events hcall hbool => hnot ⟨closure, res, s', events, h, hcall, hbool⟩

private theorem executeEq_eq (h : isEqual rt true o1 o2 s = equality rt o1 o2 s) :
    executeEq rt o1 o2 s = equalEq rt o1 o2 s := by
  simp only [executeEq, equalEq, bind, h]

private theorem executeNe_eq (h : isEqual rt true o1 o2 s = equality rt o1 o2 s) :
    executeNe rt o1 o2 s = equalNe rt o1 o2 s := by
  simp only [executeNe, equalNe, bind, h]

section Find

variable {r : ℕ} {val : SQObject}

/-- The index that is found is none of those before. -/
theorem findLoop_le {rest n m : ℕ} {temp : SQObject} {res : Option (Option ℕ)} {s s' : Store}
    {events : List MetaCall} (h : findLoop rt r val rest n temp s = .done res s' events) :
    res ≠ none ∧ (res = some (some m) → n ≤ m) := by
  induction rest generalizing n temp s s' events with
  | zero =>
    cases h
    exact ⟨nofun, nofun⟩
  | succ rest ih =>
    unfold findLoop at h
    rw [bind_read] at h
    obtain ⟨b, s₁, events₁, events₂, -, hrest, -⟩ := Traced.bind_done.mp h
    split at hrest
    · cases hrest
      refine ⟨nofun, ?_⟩
      rintro ⟨⟩
      exact le_rfl
    · exact (ih hrest).imp_right fun hle hres => Nat.le_of_succ_le (hle hres)

private theorem equalFindLoop_le {rest n m : ℕ} {temp : SQObject} {s s' : Store}
    {events : List MetaCall}
    (h : equalFindLoop rt r val rest n temp s = .done (some (some m)) s' events) : n ≤ m := by
  induction rest generalizing n temp s s' events with
  | zero => cases h
  | succ rest ih =>
    unfold equalFindLoop at h
    rw [bind_read] at h
    obtain ⟨b, s₁, events₁, events₂, -, hrest, -⟩ := Traced.bind_done.mp h
    split at hrest
    · cases hrest
      exact le_rfl
    · exact Nat.le_of_succ_le (ih hrest)
    · cases hrest

/-- An element that is told from the value without a metamethod -/
def Differs (rt : Runtime) (s : Store) (o1 o2 : SQObject) : Prop :=
  eqMetaMethod s o1 o2 = none ∧ plainEqual rt o1 o2 = false

/-- What the loop does next -/
def findNext (rt : Runtime) (r : ℕ) (val : SQObject) (rest n : ℕ) (temp : SQObject) :
    Option Bool → VmOp (Option (Option ℕ))
  | some true => pure (some (some n))
  | _ => findLoop rt r val rest (n + 1) temp

def equalFindNext (rt : Runtime) (r : ℕ) (val : SQObject) (rest n : ℕ) (temp : SQObject) :
    Option Bool → VmOp (Option (Option ℕ))
  | some true => pure (some (some n))
  | some false => equalFindLoop rt r val rest (n + 1) temp
  | none => pure none

/-- The loop goes on after an answer that has become false or an error, and so it differs from one
that stops. -/
theorem findNext_ne {rest n : ℕ} {temp : SQObject} {b : Option Bool} (hb : b ≠ some true)
    {res : Option (Option ℕ)} (hres : res = none ∨ res = some (some n)) {s s' : Store} :
    findNext rt r val rest n temp b s ≠ .done res s' [] := by
  intro h
  have hloop : findLoop rt r val rest (n + 1) temp s = .done res s' [] := by
    obtain _ | _ | _ := b
    · exact h
    · exact h
    · exact absurd rfl hb
  obtain ⟨hsome, hle⟩ := findLoop_le (m := n) hloop
  obtain rfl | rfl := hres
  · exact hsome rfl
  · exact absurd (hle rfl) (by omega)

private theorem answer_bool (b : ℤ) : answer rt (some (.bool b)) = pure (some (decide (b = 0)))
    := rfl

private theorem properAnswer_bool (b : ℤ) :
    properAnswer (some (.bool b)) = pure (some (decide (b ≠ 0))) := rfl

/-- An `_eq` that returns makes the loop go wrong. -/
theorem find_returns {rest n : ℕ} {temp closure : SQObject}
    (h : eqMetaMethod s temp val = some closure) :
    (isEqual rt true temp val >>= findNext rt r val rest n temp) s =
      (equality rt temp val >>= equalFindNext rt r val rest n temp) s ↔
        ¬EqReturns rt s temp val := by
  have hcode : (isEqual rt true temp val >>= findNext rt r val rest n temp) s =
      (callEq rt closure temp val >>= fun res =>
        answer rt res >>= findNext rt r val rest n temp) s := by
    rw [← bind_assoc]
    simp only [bind, isEqual_of_some h]
  have hspec : (equality rt temp val >>= equalFindNext rt r val rest n temp) s =
      (callEq rt closure temp val >>= fun res =>
        properAnswer res >>= equalFindNext rt r val rest n temp) s := by
    rw [← bind_assoc]
    simp only [bind, equality_of_some h]
  rw [hcode, hspec, bind_congr_iff]
  constructor
  · rintro heq ⟨closure', res, s', events, hsome, hcall⟩
    obtain rfl : closure = closure' := Option.some.inj (h.symm.trans hsome)
    have hnext := heq res s' events hcall
    cases res with
    | none => exact findNext_ne (by decide) (.inl rfl) ((after_nil _).symm.trans hnext)
    | some v =>
      by_cases hbool : ∃ b, v = .bool b
      · obtain ⟨b, rfl⟩ := hbool
        rw [answer_bool, properAnswer_bool, bind_pure, bind_pure] at hnext
        by_cases hb : b = 0
        · simp only [hb, decide_true, ne_eq, not_true, decide_false] at hnext
          exact absurd (equalFindLoop_le hnext.symm) (by omega)
        · simp only [hb, decide_false, ne_eq, not_false_eq_true, decide_true] at hnext
          exact findNext_ne (by decide) (.inr rfl) hnext
      · have hnot : ∀ b, v = .bool b → False := fun b hb => hbool ⟨b, hb⟩
        rw [answer, properAnswer] at hnext
        · exact findNext_ne (by decide) (.inl rfl) ((after_nil _).symm.trans hnext)
        · exact hnot
        · exact hnot
  · exact fun hnot res s' events hcall => absurd ⟨closure, res, s', events, h, hcall⟩ hnot

/-- The loop does what it should from index `n` on, if and only if no `_eq` returns for the first
element that is not told from the value without one. -/
theorem findLoop_eq_iff {values : List SQObject} (hvalues : s.vm.arrays[r]? = some values)
    {rest n : ℕ} (hlen : n + rest = values.length) (temp : SQObject) :
    findLoop rt r val rest n temp s = equalFindLoop rt r val rest n temp s ↔
      ∀ k x, n ≤ k → values[k]? = some x →
        (∀ j y, n ≤ j → j < k → values[j]? = some y → Differs rt s (s.realval y) val) →
          ¬EqReturns rt s (s.realval x) val := by
  induction rest generalizing n temp with
  | zero =>
    refine iff_of_true rfl fun k x hk hx => ?_
    have hlt := (List.getElem?_eq_some_iff.mp hx).1
    omega
  | succ rest ih =>
    obtain ⟨x, hx⟩ : ∃ x, values[n]? = some x := ⟨_, List.getElem?_eq_getElem (by omega)⟩
    have hget : (arrayGet s r n).getD temp = s.realval x := by
      simp [arrayGet, hvalues, hx]
    have hcode : findLoop rt r val (rest + 1) n temp s =
        (isEqual rt true (s.realval x) val >>= findNext rt r val rest n (s.realval x)) s := by
      rw [findLoop, bind_read, hget]
      rfl
    have hspec : equalFindLoop rt r val (rest + 1) n temp s =
        (equality rt (s.realval x) val >>= equalFindNext rt r val rest n (s.realval x)) s := by
      rw [equalFindLoop, bind_read, hget]
      rfl
    rw [hcode, hspec]
    -- the element at `n` is the first one
    have hhere : (∀ k x, n ≤ k → values[k]? = some x →
        (∀ j y, n ≤ j → j < k → values[j]? = some y → Differs rt s (s.realval y) val) →
          ¬EqReturns rt s (s.realval x) val) → ¬EqReturns rt s (s.realval x) val :=
      fun h => h n x le_rfl hx fun j y hj hjn => absurd hjn (by omega)
    have hbeyond : ¬Differs rt s (s.realval x) val → ¬EqReturns rt s (s.realval x) val →
        ∀ k x, n ≤ k → values[k]? = some x →
          (∀ j y, n ≤ j → j < k → values[j]? = some y → Differs rt s (s.realval y) val) →
            ¬EqReturns rt s (s.realval x) val := by
      intro hdiffers hreturns k x' hk hx' hbefore
      obtain rfl | hlt := hk.eq_or_lt
      · obtain rfl := Option.some.inj (hx.symm.trans hx')
        exact hreturns
      · exact absurd (hbefore n x le_rfl hlt hx) hdiffers
    cases h : eqMetaMethod s (s.realval x) val with
    | some closure =>
      rw [find_returns h]
      refine ⟨hbeyond fun hdiffers => ?_, hhere⟩
      rw [hdiffers.1] at h
      cases h
    | none =>
      have hnone : ¬EqReturns rt s (s.realval x) val := by
        rintro ⟨closure, -, -, -, hsome, -⟩
        rw [h] at hsome
        cases hsome
      rw [bind_eq (isEqual_of_none h), bind_eq (equality_of_none h), after_nil, after_nil]
      cases hplain : plainEqual rt (s.realval x) val with
      | true =>
        refine iff_of_true rfl (hbeyond (fun hdiffers => ?_) hnone)
        rw [hdiffers.2] at hplain
        cases hplain
      | false =>
        refine (ih (by omega) (s.realval x)).trans ⟨fun hall => ?_, fun hall => ?_⟩
        · intro k x' hk hx' hbefore
          obtain rfl | hlt := hk.eq_or_lt
          · obtain rfl := Option.some.inj (hx.symm.trans hx')
            exact hnone
          · exact hall k x' hlt hx' fun j y hj => hbefore j y (by omega)
        · intro k x' hk hx' hbefore
          refine hall k x' (by omega) hx' fun j y hj hjk hy => ?_
          obtain rfl | hlt := hj.eq_or_lt
          · obtain rfl := Option.some.inj (hx.symm.trans hy)
            exact ⟨h, hplain⟩
          · exact hbefore j y hlt hjk hy

/-- No `_eq` returns for the first element of the array that is not told from the value without
one. -/
def FindsPlainly (rt : Runtime) (s : Store) (r : ℕ) (val : SQObject) : Prop :=
  ∀ values, s.vm.arrays[r]? = some values → ∀ (k : ℕ) x, values[k]? = some x →
    (∀ (j : ℕ) y, j < k → values[j]? = some y → Differs rt s (s.realval y) val) →
      ¬EqReturns rt s (s.realval x) val

private theorem arrayFind_eq_iff :
    arrayFind rt r val s = equalFind rt r val s ↔ FindsPlainly rt s r val := by
  unfold arrayFind equalFind FindsPlainly
  rw [bind_congr_iff]
  cases hvalues : s.vm.arrays[r]? with
  | none =>
    refine iff_of_true (fun size s' events h => ?_) nofun
    simp [arraySize, Traced.step, hvalues] at h
  | some values =>
    have hsize : arraySize r s = .done values.length s [] := by
      simp [arraySize, Traced.step, hvalues]
    rw [hsize]
    have hloop := @findLoop_eq_iff rt s r val values hvalues values.length 0 (Nat.zero_add _) .null
    simp only [Nat.zero_le, true_imp_iff] at hloop
    constructor
    · rintro h _ ⟨⟩
      exact hloop.mp (h _ _ _ rfl)
    · rintro h _ _ _ ⟨⟩
      exact hloop.mpr (h _ rfl)

end Find

/-- `IsEqual`, `==`, `!=` and `find` are those of the equality. -/
structure ImplementsEquality (rt : Runtime) (o1 o2 : SQObject) (r : ℕ) (s : Store) : Prop where
  isEqual : isEqual rt true o1 o2 s = equality rt o1 o2 s
  eq : executeEq rt o1 o2 s = equalEq rt o1 o2 s
  ne : executeNe rt o1 o2 s = equalNe rt o1 o2 s
  find : arrayFind rt r o2 s = equalFind rt r o2 s

/-- The equality is implemented for two objects and an array that the second one is looked for in,
if and only if no `_eq` answers for the two, and none returns for the first element of the array
that takes one. -/
theorem implementsEquality_iff (rt : Runtime) (o1 o2 : SQObject) (r : ℕ) (s : Store) :
    ImplementsEquality rt o1 o2 r s ↔ ¬EqAnswers rt s o1 o2 ∧ FindsPlainly rt s r o2 := by
  constructor
  · intro h
    exact ⟨isEqual_eq_iff.mp h.isEqual, arrayFind_eq_iff.mp h.find⟩
  · rintro ⟨hanswers, hfinds⟩
    have hequal := isEqual_eq_iff.mpr hanswers
    exact ⟨hequal, executeEq_eq hequal, executeNe_eq hequal, arrayFind_eq_iff.mpr hfinds⟩

/-- Two tables with a delegate whose `_eq` is a native closure, in a store of their own -/
def delegatingTables : Store :=
  { emptyStore with
    tables := [⟨∅, none⟩, ⟨(∅ : FinMap SQObject SQObject).insert (.string "_eq") (.nativeclosure 0),
      none⟩, ⟨∅, some 1⟩, ⟨∅, some 1⟩] }

/-- An `_eq` that returns true for them -/
theorem not_implementsEquality : ¬ ∀ (rt : Runtime) (o1 o2 : SQObject) (r : ℕ) (s : Store),
    ImplementsEquality rt o1 o2 r s := by
  intro h
  have hequal := (h { nullRuntime with call := fun s _ _ _ => some (s, some (.bool 1)) }
    (.table 2) (.table 3) 0 delegatingTables).isEqual
  have hmeta : eqMetaMethod delegatingTables (.table 2) (.table 3) = some (.nativeclosure 0) := by
    have hget : delegatingTables.tableGet 1 (.string "_eq") = some (.nativeclosure 0) := by
      have hne : SQObject.string "_eq" ≠ .null := by decide
      have hlookup : ((∅ : FinMap SQObject SQObject).insert (.string "_eq")
          (.nativeclosure 0)).lookup (.string "_eq") = some (.nativeclosure 0) :=
        Finmap.lookup_insert ∅
      rw [Store.tableGet, if_neg hne]
      exact congrArg (Option.map _) hlookup
    exact hget
  refine isEqual_eq_iff.mp hequal ⟨_, some (.bool 1), _, _, hmeta, rfl, ?_⟩
  rintro _ ⟨⟩
  exact ⟨1, rfl⟩

end VmOp

end Squirt
