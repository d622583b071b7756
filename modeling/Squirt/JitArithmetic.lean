import Squirt.MetaOperations

/-!
# The arithmetic helpers of the JIT

`SQ_LLVM_ADD` and its siblings against the cases of `Execute` for the same opcodes. The helpers go
on after an `ARITH_OP` that has failed, and they divide integers without looking at the divisor.
-/

namespace Squirt

namespace VmOp

/-- What becomes of the destination -/
inductive ArithResult
  | stored (dst : SQObject)
  | kept
  | thrown
  deriving DecidableEq

section Model

variable (rt : Runtime)

/-- `_GUARD(...)` -/
def guarded : Option SQObject → VmOp ArithResult
  | some dst => pure (.stored dst)
  | none => pure .thrown

/-- A result that is not looked at -/
def unguarded : Option SQObject → VmOp ArithResult
  | some dst => pure (.stored dst)
  | none => pure .kept

def arith (op : ArithOp) (o1 o2 : SQObject) : VmOp ArithResult :=
  match operands rt o1 o2 with
  | .integers i1 i2 => integerResult (op.ofIntegers i1 i2) >>= unguarded
  | .floats f1 f2 => pure (.stored (.float (op.ofFloats rt f1 f2)))
  | .others => arithOp rt op o1 o2 >>= guarded

def arithNozero (op : ArithOp) (o1 o2 : SQObject) (err : String) : VmOp ArithResult :=
  match operands rt o1 o2 with
  | .integers i1 i2 =>
    if i2 = 0 then do
      raiseError err
      pure .thrown
    else integerResult (op.ofIntegers i1 i2) >>= unguarded
  | .floats f1 f2 => pure (.stored (.float (op.ofFloats rt f1 f2)))
  | .others => arithOp rt op o1 o2 >>= guarded

/-- The cases of `Execute` for `_OP_ADD` to `_OP_MOD` -/
def executeArith (op : ArithOp) (o1 o2 : SQObject) : VmOp ArithResult :=
  match op with
  | .add => arith rt .add o1 o2
  | .sub => arith rt .sub o1 o2
  | .mul => arith rt .mul o1 o2
  | .div => arithNozero rt .div o1 o2 "division by zero"
  | .mod => arithOp rt .mod o1 o2 >>= unguarded

/-- A helper, which fails never -/
def helper (op : ArithOp) (o1 o2 : SQObject) : VmOp ArithResult :=
  match operands rt o1 o2 with
  | .integers i1 i2 => integerResult (op.ofIntegers i1 i2) >>= unguarded
  | .floats f1 f2 => pure (.stored (.float (op.ofFloats rt f1 f2)))
  | .others => arithOp rt op o1 o2 >>= unguarded

def SQ_LLVM_ADD := helper rt .add
def SQ_LLVM_SUB := helper rt .sub
def SQ_LLVM_MUL := helper rt .mul
def SQ_LLVM_DIV := helper rt .div
def SQ_LLVM_MOD := helper rt .mod

def helperOf : ArithOp → SQObject → SQObject → VmOp ArithResult
  | .add => SQ_LLVM_ADD rt
  | .sub => SQ_LLVM_SUB rt
  | .mul => SQ_LLVM_MUL rt
  | .div => SQ_LLVM_DIV rt
  | .mod => SQ_LLVM_MOD rt

end Model

variable {rt : Runtime} {op : ArithOp} {o o1 o2 : SQObject} {s : Store}

/-- The metamethod that an operation calls for its operand -/
def delegated (s : Store) (o : SQObject) (mm : SQMetaMethod) : Option SQObject :=
  if s.hasDelegate o then s.getMetaMethod o mm else none

/-- The program returns none. -/
def Fails {α : Type} (m : VmOp (Option α)) (s : Store) : Prop :=
  ∃ s' events, m s = .done none s' events

/-- The operand has a `_tostring`, and it fails. -/
def ToStringFails (rt : Runtime) (o : SQObject) (s : Store) : Prop :=
  ∃ closure, delegated s o .tostring = some closure ∧
    Fails (do push o; callMetaMethod rt closure .tostring 1) s

/-- The first operand has no metamethod for the operator, or it fails. -/
def MetaFails (rt : Runtime) (op : ArithOp) (o1 o2 : SQObject) (s : Store) : Prop :=
  ∀ closure, delegated s o1 op.mm = some closure →
    Fails (do push o1; push o2; callMetaMethod rt closure op.mm 2) s

/-- What operands that are not both numbers fail for: with `+` and a string the `_tostring` of
either operand, else the metamethod of the first one -/
def OthersFail (rt : Runtime) (op : ArithOp) (o1 o2 : SQObject) (s : Store) : Prop :=
  if op = .add ∧ (o1.type = 0x10 ∨ o2.type = 0x10) then
    ToStringFails rt o1 s ∨
      ∃ a s' events, toStr rt o1 s = .done (some a) s' events ∧ ToStringFails rt o2 s'
  else MetaFails rt op o1 o2 s

/-- Integers with a divisor that is zero, or operands that are not both numbers and fail; a
failure of `%` is not looked at anywhere. -/
def Refused (rt : Runtime) (op : ArithOp) (o1 o2 : SQObject) (s : Store) : Prop :=
  match operands rt o1 o2 with
  | .integers _ i2 => (op = .div ∨ op = .mod) ∧ i2 = 0
  | .floats _ _ => False
  | .others => op ≠ .mod ∧ OthersFail rt op o1 o2 s

theorem delegatedMetaMethod_eq (o : SQObject) (mm : SQMetaMethod) (s : Store) :
    delegatedMetaMethod o mm s = .done (delegated s o mm) s [] := by
  unfold delegated
  cases h : s.hasDelegate o <;>
    simp [delegatedMetaMethod, bind, Traced.read, h, Traced.after, getMetaMethod, pure]

/-- After a metamethod has been looked up -/
theorem fails_delegated {α : Type} {mm : SQMetaMethod} {k : Option SQObject → VmOp (Option α)} :
    Fails (delegatedMetaMethod o mm >>= k) s ↔ Fails (k (delegated s o mm)) s := by
  constructor
  · rintro ⟨s', events, h⟩
    obtain ⟨closure, s₁, events₁, events₂, hm, hk, -⟩ := Traced.bind_done.mp h
    rw [delegatedMetaMethod_eq] at hm
    cases hm
    exact ⟨s', events₂, hk⟩
  · rintro ⟨s', events, h⟩
    exact ⟨s', events, Traced.bind_done.mpr
      ⟨_, s, [], events, delegatedMetaMethod_eq o mm s, h, rfl⟩⟩

theorem fails_bind {α β : Type} {m : VmOp α} {k : α → VmOp (Option β)} :
    Fails (m >>= k) s ↔ ∃ a s' events, m s = .done a s' events ∧ Fails (k a) s' := by
  constructor
  · rintro ⟨s', events, h⟩
    obtain ⟨a, s₁, events₁, events₂, hm, hk, -⟩ := Traced.bind_done.mp h
    exact ⟨a, s₁, events₁, hm, s', events₂, hk⟩
  · rintro ⟨a, s₁, events₁, hm, s', events₂, hk⟩
    exact ⟨s', _, Traced.bind_done.mpr ⟨a, s₁, events₁, events₂, hm, hk, rfl⟩⟩

theorem not_fails_pure {α : Type} (a : α) : ¬ Fails (pure (some a) : VmOp (Option α)) s := by
  rintro ⟨s', events, h⟩
  cases h

theorem fails_none {α : Type} : Fails (pure none : VmOp (Option α)) s := ⟨s, [], rfl⟩

private theorem fails_fail {α : Type} (message : String) : Fails (fail message : VmOp (Option α)) s
    :=
  ⟨_, _, rfl⟩

/-- What follows fails after a failure and only then. -/
theorem fails_bind_iff {α β : Type} {m : VmOp (Option α)} {k : Option α → VmOp (Option β)}
    (hsome : ∀ a s', ¬ Fails (k (some a)) s') (hnone : ∀ s', Fails (k none) s') :
    Fails (m >>= k) s ↔ Fails m s := by
  rw [fails_bind]
  constructor
  · rintro ⟨a, s', events, hm, hk⟩
    cases a with
    | none => exact ⟨s', events, hm⟩
    | some a => exact absurd hk (hsome a s')
  · rintro ⟨s', events, hm⟩
    exact ⟨none, s', events, hm, hnone s'⟩

private theorem fails_tostringCall {closure : SQObject} : Fails (do
    push o
    match ← callMetaMethod rt closure .tostring 1 with
    | some (.string s) => pure (some s)
    | some _ => pure (some (toStr.printed rt o))
    | none => pure none) s ↔
    Fails (do push o; callMetaMethod rt closure .tostring 1) s := by
  rw [fails_bind, fails_bind]
  apply exists_congr
  intro u
  apply exists_congr
  intro s'
  apply exists_congr
  intro events
  rw [fails_bind_iff]
  · intro res s'
    split
    · exact not_fails_pure _
    · exact not_fails_pure _
    · rename_i h
      cases h
  · exact fun s' => fails_none

theorem fails_toStr : Fails (toStr rt o) s ↔ ToStringFails rt o s := by
  have hnone : delegated s o .tostring = none → ¬ ToStringFails rt o s := by
    rintro hnone ⟨closure, hsome, -⟩
    rw [hnone] at hsome
    cases hsome
  unfold toStr
  split
  · exact iff_of_false (not_fails_pure _) (hnone rfl)
  · exact iff_of_false (not_fails_pure _) (hnone rfl)
  · exact iff_of_false (not_fails_pure _) (hnone rfl)
  · exact iff_of_false (not_fails_pure _) (hnone rfl)
  · rw [fails_delegated]
    cases hclosure : delegated s o .tostring with
    | none => exact iff_of_false (not_fails_pure _) (hnone hclosure)
    | some closure =>
      refine fails_tostringCall.trans ⟨fun h => ⟨closure, hclosure, h⟩, ?_⟩
      rintro ⟨closure', hclosure', h⟩
      rw [hclosure] at hclosure'
      cases hclosure'
      exact h

private theorem fails_secondToStr {a : String} : Fails (do
    match ← toStr rt o2 with
    | none => pure none
    | some b => pure (some (SQObject.string (a ++ b)))) s ↔ ToStringFails rt o2 s := by
  rw [← fails_toStr]
  exact fails_bind_iff (fun b s' => not_fails_pure _) fun s' => fails_none

private theorem fails_stringCat : Fails (stringCat rt o1 o2) s ↔ ToStringFails rt o1 s ∨
    ∃ a s' events, toStr rt o1 s = .done (some a) s' events ∧ ToStringFails rt o2 s' := by
  unfold stringCat
  rw [fails_bind]
  constructor
  · rintro ⟨a, s', events, hfirst, h⟩
    cases a with
    | none => exact .inl (fails_toStr.mp ⟨s', events, hfirst⟩)
    | some a => exact .inr ⟨a, s', events, hfirst, fails_secondToStr.mp h⟩
  · rintro (h | ⟨a, s', events, hfirst, h⟩)
    · obtain ⟨s', events, hfirst⟩ := fails_toStr.mpr h
      exact ⟨none, s', events, hfirst, fails_none⟩
    · exact ⟨some a, s', events, hfirst, fails_secondToStr.mpr h⟩

private theorem fails_arithMetaMethod :
    Fails (arithMetaMethod rt op o1 o2) s ↔ MetaFails rt op o1 o2 s := by
  unfold arithMetaMethod MetaFails
  rw [fails_delegated]
  cases delegated s o1 op.mm with
  | none => exact iff_of_true (fails_fail _) nofun
  | some closure =>
    constructor
    · rintro h _ ⟨⟩
      exact h
    · exact fun h => h closure rfl

private theorem fails_arithOp (hothers : operands rt o1 o2 = .others) :
    Fails (arithOp rt op o1 o2) s ↔ OthersFail rt op o1 o2 s := by
  unfold arithOp OthersFail
  rw [hothers]
  dsimp only
  split
  · exact fails_stringCat
  · exact fails_arithMetaMethod

/-- Looking at a failure makes a difference just when there is one. -/
theorem unguarded_eq_guarded {m : VmOp (Option SQObject)} :
    (m >>= unguarded) s = (m >>= guarded) s ↔ ¬ Fails m s := by
  unfold Fails
  simp only [bind]
  cases m s with
  | done res s' events =>
    cases res with
    | some dst => exact iff_of_true rfl (by rintro ⟨s₁, events₁, ⟨⟩⟩)
    | none => exact iff_of_false nofun (not_not.mpr ⟨s', events, rfl⟩)
  | undefined => exact iff_of_true rfl (by rintro ⟨s₁, events₁, ⟨⟩⟩)
  | diverged => exact iff_of_true rfl (by rintro ⟨s₁, events₁, ⟨⟩⟩)
  | outOfFuel => exact iff_of_true rfl (by rintro ⟨s₁, events₁, ⟨⟩⟩)

private theorem helperOf_eq (op : ArithOp) : helperOf rt op = helper rt op := by
  cases op <;> rfl

/-- The division of integers by zero is undefined. -/
theorem integerResult_zero (hop : op = .div ∨ op = .mod) (i1 : ℤ)
    {k : Option SQObject → VmOp ArithResult} :
    (integerResult (op.ofIntegers i1 0) >>= k) s = .undefined s := by
  obtain rfl | rfl := hop <;>
    simp [integerResult, ArithOp.ofIntegers, bind, Traced.step]

private theorem agrees_integers {i1 i2 : ℤ} (hoperands : operands rt o1 o2 = .integers i1 i2) :
    (integerResult (op.ofIntegers i1 i2) >>= unguarded) s = executeArith rt op o1 o2 s ↔
      ¬ ((op = .div ∨ op = .mod) ∧ i2 = 0) := by
  have hsame : ∀ op, (op ≠ .div ∧ op ≠ .mod) → executeArith rt op o1 o2 s =
      (integerResult (op.ofIntegers i1 i2) >>= unguarded) s := by
    rintro op ⟨hdiv, hmod⟩
    cases op with
    | add | sub | mul => simp only [executeArith, arith, hoperands]
    | div => exact absurd rfl hdiv
    | mod => exact absurd rfl hmod
  by_cases hop : op = .div ∨ op = .mod
  · by_cases hzero : i2 = 0
    · subst hzero
      rw [integerResult_zero hop]
      refine iff_of_false ?_ (not_not.mpr ⟨hop, rfl⟩)
      obtain rfl | rfl := hop
      · simp only [executeArith, arithNozero, hoperands, if_true]
        nofun
      · simp only [executeArith, arithOp, hoperands, if_true]
        nofun
    · refine iff_of_true ?_ fun h => hzero h.2
      obtain rfl | rfl := hop
      · simp only [executeArith, arithNozero, hoperands, if_neg hzero]
      · simp only [executeArith, arithOp, hoperands, if_neg hzero]
  · exact iff_of_true (hsame op (not_or.mp hop)).symm fun h => hop h.1

/-- A helper does what the interpreter does if and only if the operands are not refused. -/
theorem helper_agrees_iff (rt : Runtime) (op : ArithOp) (o1 o2 : SQObject) (s : Store) :
    helperOf rt op o1 o2 s = executeArith rt op o1 o2 s ↔ ¬ Refused rt op o1 o2 s := by
  rw [helperOf_eq]
  unfold helper Refused
  cases hoperands : operands rt o1 o2 with
  | integers i1 i2 => exact agrees_integers hoperands
  | floats f1 f2 =>
    refine iff_of_true ?_ id
    cases op with
    | add | sub | mul => simp only [executeArith, arith, hoperands]
    | div => simp only [executeArith, arithNozero, hoperands]
    | mod =>
      simp only [executeArith, arithOp, hoperands]
      rfl
  | others =>
    rw [← fails_arithOp hoperands]
    cases op with
    | add | sub | mul =>
      simp only [executeArith, arith, hoperands, unguarded_eq_guarded, ne_eq, reduceCtorEq,
        not_false_eq_true, true_and]
    | div =>
      simp only [executeArith, arithNozero, hoperands, unguarded_eq_guarded, ne_eq, reduceCtorEq,
        not_false_eq_true, true_and]
    | mod => exact iff_of_true rfl fun h => h.1 rfl

/-- `null + null` raises an error in the interpreter. -/
theorem add_null_null : ¬ ∀ (rt : Runtime) (op : ArithOp) (o1 o2 : SQObject) (s : Store),
    helperOf rt op o1 o2 s = executeArith rt op o1 o2 s := by
  intro h
  cases h nullRuntime .add .null .null emptyStore

end VmOp

end Squirt
