import Squirt.JitArithmetic

/-!
# The ways to arithmetic

The instructions of `Execute` that do arithmetic, on registers, locals and slots, against
`ARITH_OP`. A result is written through a reference here: `Call` of a class stores the new instance
before its constructor has run, and `DerefInc` stores the sum before it is put in the slot.
-/

namespace Squirt

open Traced (bind_eq bind_pure bind_read bind_congr_iff after_nil)

namespace Store

variable (s : Store)

/-- `CreateClassInstance`: the instance and the constructor, null if there is none -/
def createClassInstance (r : ℕ) : Option ((SQObject × SQObject) × Store) :=
  (s.heap.classes[r]?).bind fun c =>
    (if c.constructoridx = -1 then some .null else c.methods[c.constructoridx.toNat]?).bind
      fun constr => (s.heap.createInstance r).map fun heap =>
        ((.instance_ s.heap.instances.length, constr), { s with heap := heap })

end Store

namespace VmOp

/-- What a function does that returns a `bool` and stores through a reference -/
inductive RefResult
  | returned (dst : SQObject)
  /-- false, with what has been stored if anything -/
  | failed (written : Option SQObject)
  deriving DecidableEq

/-- What an instruction stores in its target and in the local variable it is about -/
structure Effect where
  target : Option SQObject
  var : Option SQObject
  thrown : Bool
  deriving DecidableEq

namespace Effect

def store (dst : SQObject) : Effect := ⟨some dst, none, false⟩
def nothing : Effect := ⟨none, none, false⟩
def throw : Effect := ⟨none, none, true⟩

end Effect

section Model

variable (rt : Runtime)

/-- What a function that does not store until it succeeds does through a reference -/
def RefResult.ofOption : Option SQObject → RefResult
  | some dst => .returned dst
  | none => .failed none

/-- `Call` with `outres`, of a closure with so many arguments on top of the stack -/
def callInto (mm : SQMetaMethod) (closure : SQObject) (nparams : ℕ) : VmOp RefResult :=
  match closure with
  | .clazz r => do
    let (outres, constr) ← .step fun s => s.createClassInstance r
    if constr = .null then pure (.returned outres)
    else do
      vmStep fun vm => vm.setSlot (vm.top - nparams) outres
      match ← call rt mm constr nparams with
      | some _ => pure (.returned outres)
      | none => pure (.failed (some outres))
  | closure => do
    let res ← call rt mm closure nparams
    pure (.ofOption res)

def callMetaMethodInto (closure : SQObject) (mm : SQMetaMethod) (nparams : ℕ) : VmOp RefResult := do
  enterMetaMethod
  let res ← callInto rt mm closure nparams
  leaveMetaMethod
  pop nparams
  pure res

/-- `Raise_Error` and `return false` -/
def failInto (message : String) : VmOp RefResult := do
  raiseError message
  pure (.failed none)

def arithMetaMethodInto (op : ArithOp) (o1 o2 : SQObject) : VmOp RefResult := do
  match ← delegatedMetaMethod o1 op.mm with
  | some closure =>
    push o1
    push o2
    callMetaMethodInto rt closure op.mm 2
  | none => failInto s!"arith op {op.char} on between '{o1.typeName}' and '{o2.typeName}'"

/-- `trg = res` for a result of integers that is defined -/
def integerInto (res : Option ℤ) : VmOp RefResult :=
  .step fun s => res.map fun i => (.returned (.integer i), s)

/-- `ARITH_OP` with `trg` -/
def arithOpInto (op : ArithOp) (o1 o2 : SQObject) : VmOp RefResult :=
  match operands rt o1 o2 with
  | .integers i1 i2 =>
    match op with
    | .div => if i2 = 0 then failInto "division by zero" else integerInto (op.ofIntegers i1 i2)
    | .mod => if i2 = 0 then failInto "modulo by zero" else integerInto (op.ofIntegers i1 i2)
    | op => integerInto (op.ofIntegers i1 i2)
  | .floats f1 f2 => pure (.returned (.float (op.ofFloats rt f1 f2)))
  | .others =>
    if op = .add ∧ (o1.type = 0x10 ∨ o2.type = 0x10) then do
      let res ← stringCat rt o1 o2
      pure (.ofOption res)
    else arithMetaMethodInto rt op o1 o2

/-- `_GUARD(...)` with the target as reference -/
def guardInto : RefResult → Effect
  | .returned dst => .store dst
  | .failed written => ⟨written, none, true⟩

/-- The same without `_GUARD` -/
def ignoreInto : RefResult → Effect
  | .returned dst => .store dst
  | .failed written => ⟨written, none, false⟩

/-- `_GUARD(...)` with a local variable as reference -/
def guardVar : RefResult → Effect
  | .returned dst => ⟨none, some dst, false⟩
  | .failed written => ⟨none, written, true⟩

/-- `_ARITH_(op,trg,o1,o2)`, and how `trg` is given to `ARITH_OP` -/
def arithEffect (store : RefResult → Effect) (op : ArithOp) (o1 o2 : SQObject) : VmOp Effect :=
  match operands rt o1 o2 with
  | .integers i1 i2 => do
    let res ← integerInto (op.ofIntegers i1 i2)
    pure (store res)
  | .floats f1 f2 => pure (store (.returned (.float (op.ofFloats rt f1 f2))))
  | .others => do
    let res ← arithOpInto rt op o1 o2
    pure (store res)

/-- `_ARITH_NOZERO(op,trg,o1,o2,err)` -/
def arithNozeroEffect (op : ArithOp) (o1 o2 : SQObject) (err : String) : VmOp Effect :=
  match operands rt o1 o2 with
  | .integers i1 i2 =>
    if i2 = 0 then do
      raiseError err
      pure .throw
    else do
      let res ← integerInto (op.ofIntegers i1 i2)
      pure (guardInto res)
  | .floats f1 f2 => pure (.store (.float (op.ofFloats rt f1 f2)))
  | .others => do
    let res ← arithOpInto rt op o1 o2
    pure (guardInto res)

/-- `DerefInc`; the fuel is for `Get` and `Set`. -/
def derefInc (fuel : ℕ) (op : ArithOp) (self key incr : SQObject) (postfix_ : Bool) (selfidx : ℤ) :
    VmOp Effect := do
  match ← get rt fuel self key false selfidx with
  | none => pure .throw
  | some tmp =>
    match ← arithOpInto rt op tmp incr with
    | .failed written => pure ⟨written, none, true⟩
    | .returned target =>
      if ← set rt fuel self key target selfidx then
        pure (.store (if postfix_ then tmp else target))
      else pure ⟨some target, none, true⟩

end Model

/-- The arithmetic instructions with the objects in their registers -/
inductive ArithInstr
  /-- `_OP_ADD` to `_OP_MOD` -/
  | binary (op : ArithOp) (o1 o2 : SQObject)
  | incl (a : SQObject) (sarg3 : ℤ)
  | pincl (a : SQObject) (sarg3 : ℤ)
  | compArith (op : ArithOp) (self key incr : SQObject) (selfidx : ℤ)
  | inc (self key : SQObject) (sarg3 selfidx : ℤ)
  | pinc (self key : SQObject) (sarg3 selfidx : ℤ)

namespace ArithInstr

variable (rt : Runtime)

/-- The cases of `Execute` -/
def execute (fuel : ℕ) : ArithInstr → VmOp Effect
  | binary .div o1 o2 => arithNozeroEffect rt .div o1 o2 "division by zero"
  | binary .mod o1 o2 => do
    let res ← arithOpInto rt .mod o1 o2
    pure (ignoreInto res)
  | binary op o1 o2 => arithEffect rt guardInto op o1 o2
  | incl (.integer i) sarg3 => pure ⟨none, some (.integer (Int.bmod (i + sarg3) (2 ^ 64))), false⟩
  | incl a sarg3 => arithEffect rt guardVar .add a (.integer sarg3)
  | pincl (.integer i) sarg3 =>
    pure ⟨some (.integer i), some (.integer (Int.bmod (i + sarg3) (2 ^ 64))), false⟩
  | pincl a sarg3 => do
    -- `PLOCAL_INC`, which gives a variable of its own to `ARITH_OP`
    match ← arithOpInto rt .add a (.integer sarg3) with
    | .returned trg => pure ⟨some a, some trg, false⟩
    | .failed _ => pure .throw
  | compArith op self key incr selfidx => derefInc rt fuel op self key incr false selfidx
  | inc self key sarg3 selfidx => derefInc rt fuel .add self key (.integer sarg3) false selfidx
  | pinc self key sarg3 selfidx => derefInc rt fuel .add self key (.integer sarg3) true selfidx

/-- What `ARITH_OP` reports, with nothing stored after an error -/
def agreed (store : SQObject → Effect) : RefResult → Effect
  | .returned dst => store dst
  | .failed _ => .throw

/-- An increment of a slot that stores nothing until it has succeeded -/
def agreedSlot (fuel : ℕ) (op : ArithOp) (self key incr : SQObject) (postfix_ : Bool)
    (selfidx : ℤ) : VmOp Effect := do
  match ← get rt fuel self key false selfidx with
  | none => pure .throw
  | some tmp =>
    match ← arithOpInto rt op tmp incr with
    | .failed _ => pure .throw
    | .returned target =>
      if ← set rt fuel self key target selfidx then
        pure (.store (if postfix_ then tmp else target))
      else pure .throw

/-- The instruction as `ARITH_OP` has it: the value that it computes goes to the target, the local
variable or the slot, and an error that it reports is thrown with all of them as they were. Not in
the source. -/
def reference (fuel : ℕ) : ArithInstr → VmOp Effect
  | binary op o1 o2 => do
    let res ← arithOpInto rt op o1 o2
    pure (agreed .store res)
  | incl a sarg3 => do
    let res ← arithOpInto rt .add a (.integer sarg3)
    pure (agreed (fun dst => ⟨none, some dst, false⟩) res)
  | pincl a sarg3 => do
    let res ← arithOpInto rt .add a (.integer sarg3)
    pure (agreed (fun dst => ⟨some a, some dst, false⟩) res)
  | compArith op self key incr selfidx => agreedSlot rt fuel op self key incr false selfidx
  | inc self key sarg3 selfidx => agreedSlot rt fuel .add self key (.integer sarg3) false selfidx
  | pinc self key sarg3 selfidx => agreedSlot rt fuel .add self key (.integer sarg3) true selfidx

end ArithInstr

variable {rt : Runtime} {op : ArithOp} {o1 o2 : SQObject} {s : Store}

/-- `ARITH_OP` reports an error. -/
def ArithFails (rt : Runtime) (op : ArithOp) (o1 o2 : SQObject) (s : Store) : Prop :=
  ∃ written s' events, arithOpInto rt op o1 o2 s = .done (.failed written) s' events

/-- `ARITH_OP` reports an error and has stored something. -/
def ArithSpoils (rt : Runtime) (op : ArithOp) (o1 o2 : SQObject) (s : Store) : Prop :=
  ∃ dst s' events, arithOpInto rt op o1 o2 s = .done (.failed (some dst)) s' events

/-- The slot is read, and then `ARITH_OP` reports an error and has stored something, or it computes
a value that `Set` does not take. -/
def SlotSpoils (rt : Runtime) (fuel : ℕ) (op : ArithOp) (self key incr : SQObject) (selfidx : ℤ)
    (s : Store) : Prop :=
  ∃ tmp s₁ events₁, get rt fuel self key false selfidx s = .done (some tmp) s₁ events₁ ∧
    (ArithSpoils rt op tmp incr s₁ ∨ ∃ target s₂ events₂ s₃ events₃,
      arithOpInto rt op tmp incr s₁ = .done (.returned target) s₂ events₂ ∧
        set rt fuel self key target selfidx s₂ = .done false s₃ events₃)

/-- What becomes of `ARITH_OP` -/
def landing (rt : Runtime) (store : RefResult → Effect) (op : ArithOp) (o1 o2 : SQObject) :
    VmOp Effect := do
  let res ← arithOpInto rt op o1 o2
  pure (store res)

/-- On integers only a divisor of 0 is an error. -/
theorem arithFails_integers {i1 i2 : ℤ} : ArithFails rt op (.integer i1) (.integer i2) s ↔
    (op = .div ∨ op = .mod) ∧ i2 = 0 := by
  have hinto : ∀ res : Option ℤ, ¬∃ written s' events,
      integerInto res s = .done (.failed written) s' events := by
    rintro (_ | i) ⟨written, s', events, h⟩ <;> cases h
  unfold ArithFails
  cases op with
  | add | sub | mul => exact iff_of_false (hinto _) (by simp)
  | div =>
    by_cases hzero : i2 = 0
    · subst hzero
      exact iff_of_true ⟨_, _, _, rfl⟩ ⟨.inl rfl, rfl⟩
    · have harith : arithOpInto rt .div (.integer i1) (.integer i2) =
          integerInto (ArithOp.div.ofIntegers i1 i2) := if_neg hzero
      rw [harith]
      exact iff_of_false (hinto _) fun h => hzero h.2
  | mod =>
    by_cases hzero : i2 = 0
    · subst hzero
      exact iff_of_true ⟨_, _, _, rfl⟩ ⟨.inr rfl, rfl⟩
    · have harith : arithOpInto rt .mod (.integer i1) (.integer i2) =
          integerInto (ArithOp.mod.ofIntegers i1 i2) := if_neg hzero
      rw [harith]
      exact iff_of_false (hinto _) fun h => hzero h.2

/-- `Call` stores and fails for a class only. -/
theorem callInto_spoils {mm : SQMetaMethod} {closure dst : SQObject} {nparams : ℕ} {s' : Store}
    {events : List MetaCall}
    (h : callInto rt mm closure nparams s = .done (.failed (some dst)) s' events) :
    ∃ r, closure = .clazz r := by
  unfold callInto at h
  split at h
  · exact ⟨_, rfl⟩
  · obtain ⟨res, s₁, events₁, events₂, -, hpure, -⟩ := Traced.bind_done.mp h
    cases res with
    | none => cases hpure
    | some v => cases hpure

private theorem callMetaMethodInto_spoils {mm : SQMetaMethod} {closure dst : SQObject} {nparams : ℕ}
    {s' : Store} {events : List MetaCall}
    (h : callMetaMethodInto rt closure mm nparams s = .done (.failed (some dst)) s' events) :
    ∃ r, closure = .clazz r := by
  unfold callMetaMethodInto at h
  obtain ⟨_, s₁, _, _, -, h, -⟩ := Traced.bind_done.mp h
  obtain ⟨res, s₂, _, _, hcall, h, -⟩ := Traced.bind_done.mp h
  obtain ⟨_, s₃, _, _, -, h, -⟩ := Traced.bind_done.mp h
  obtain ⟨_, s₄, _, _, -, h, -⟩ := Traced.bind_done.mp h
  cases h
  exact callInto_spoils hcall

/-- Only a class as a metamethod makes `ARITH_OP` store something and fail. -/
theorem ArithSpoils.clazz (h : ArithSpoils rt op o1 o2 s) :
    ∃ r, delegated s o1 op.mm = some (.clazz r) := by
  obtain ⟨dst, s', events, h⟩ := h
  have hinto : ∀ res : Option ℤ, integerInto res s ≠ .done (.failed (some dst)) s' events := by
    rintro (_ | i) <;> nofun
  have hfail : ∀ message, failInto message s ≠ .done (.failed (some dst)) s' events := nofun
  unfold arithOpInto at h
  cases hoperands : operands rt o1 o2 with
  | integers i1 i2 =>
    rw [hoperands] at h
    cases op with
    | add | sub | mul => exact absurd h (hinto _)
    | div | mod =>
      dsimp only at h
      split_ifs at h
      · exact absurd h (hfail _)
      · exact absurd h (hinto _)
  | floats f1 f2 =>
    rw [hoperands] at h
    cases h
  | others =>
    rw [hoperands] at h
    dsimp only at h
    split_ifs at h
    · obtain ⟨res, s₁, _, _, -, hpure, -⟩ := Traced.bind_done.mp h
      cases res with
      | none => cases hpure
      | some v => cases hpure
    · unfold arithMetaMethodInto at h
      rw [bind_eq (delegatedMetaMethod_eq _ _ _), after_nil] at h
      cases hclosure : delegated s o1 op.mm with
      | none =>
        rw [hclosure] at h
        cases h
      | some closure =>
        rw [hclosure] at h
        obtain ⟨_, s₁, _, _, -, h, -⟩ := Traced.bind_done.mp h
        obtain ⟨_, s₂, _, _, -, h, -⟩ := Traced.bind_done.mp h
        obtain ⟨r, rfl⟩ := callMetaMethodInto_spoils h
        exact ⟨r, rfl⟩

/-- Storing through a reference and throwing is right unless something is stored before an error. -/
theorem landing_guarded {store : RefResult → Effect} {store' : SQObject → Effect}
    (hreturned : ∀ dst, store (.returned dst) = store' dst)
    (hclean : store (.failed none) = .throw) (hspoilt : ∀ dst, store (.failed (some dst)) ≠ .throw) :
    landing rt store op o1 o2 s = landing rt (ArithInstr.agreed store') op o1 o2 s ↔
      ¬ArithSpoils rt op o1 o2 s := by
  unfold landing
  rw [bind_congr_iff]
  constructor
  · rintro h ⟨dst, s', events, hm⟩
    exact hspoilt dst (Outcome.done.inj (h _ _ _ hm)).1
  · intro h res s' events hm
    cases res with
    | returned dst => rw [hreturned, ArithInstr.agreed]
    | failed written =>
      cases written with
      | none => rw [hclean, ArithInstr.agreed]
      | some dst => exact absurd ⟨dst, s', events, hm⟩ h

/-- Going on after `ARITH_OP` is right unless it reports an error. -/
theorem landing_ignored : landing rt ignoreInto op o1 o2 s =
    landing rt (ArithInstr.agreed .store) op o1 o2 s ↔ ¬ArithFails rt op o1 o2 s := by
  unfold landing
  rw [bind_congr_iff]
  constructor
  · rintro h ⟨written, s', events, hm⟩
    cases h _ _ _ hm
  · intro h res s' events hm
    cases res with
    | returned dst => rfl
    | failed written => exact absurd ⟨written, s', events, hm⟩ h

/-- The macro computes what `ARITH_OP` does, where that has no divisor to look at. -/
theorem arithEffect_eq (store : RefResult → Effect) (hdiv : op ≠ .div) (hmod : op ≠ .mod) :
    arithEffect rt store op o1 o2 = landing rt store op o1 o2 := by
  unfold arithEffect landing
  cases hoperands : operands rt o1 o2 with
  | integers i1 i2 =>
    have hinto : arithOpInto rt op o1 o2 = integerInto (op.ofIntegers i1 i2) := by
      unfold arithOpInto
      rw [hoperands]
      cases op with
      | div => exact absurd rfl hdiv
      | mod => exact absurd rfl hmod
      | add | sub | mul => rfl
    rw [hinto]
  | floats f1 f2 =>
    have hinto : arithOpInto rt op o1 o2 = pure (.returned (.float (op.ofFloats rt f1 f2))) := by
      unfold arithOpInto
      rw [hoperands]
    rw [hinto]
    rfl
  | others => rfl

private theorem arithNozeroEffect_eq : arithNozeroEffect rt .div o1 o2 "division by zero" =
    landing rt guardInto .div o1 o2 := by
  unfold arithNozeroEffect landing
  cases hoperands : operands rt o1 o2 with
  | integers i1 i2 =>
    have hinto : arithOpInto rt .div o1 o2 = if i2 = 0 then failInto "division by zero" else
        integerInto (ArithOp.div.ofIntegers i1 i2) := by
      unfold arithOpInto
      rw [hoperands]
    rw [hinto]
    by_cases hzero : i2 = 0
    · simp only [if_pos hzero]
      rfl
    · simp only [if_neg hzero]
  | floats f1 f2 =>
    have hinto : arithOpInto rt .div o1 o2 =
        pure (.returned (.float (ArithOp.div.ofFloats rt f1 f2))) := by
      unfold arithOpInto
      rw [hoperands]
    rw [hinto]
    rfl
  | others => rfl

/-- An increment of a slot -/
theorem derefInc_eq_iff {fuel : ℕ} {self key incr : SQObject} {postfix_ : Bool} {selfidx : ℤ} :
    derefInc rt fuel op self key incr postfix_ selfidx s =
      ArithInstr.agreedSlot rt fuel op self key incr postfix_ selfidx s ↔
        ¬SlotSpoils rt fuel op self key incr selfidx s := by
  unfold derefInc ArithInstr.agreedSlot
  rw [bind_congr_iff]
  constructor
  · rintro h ⟨tmp, s₁, events₁, hget, hspoils | ⟨target, s₂, events₂, s₃, events₃, harith, hset⟩⟩
    · obtain ⟨dst, s₂, events₂, harith⟩ := hspoils
      have heq := bind_congr_iff.mp (h _ _ _ hget) _ _ _ harith
      cases heq
    · have heq := bind_congr_iff.mp (h _ _ _ hget) _ _ _ harith
      have heq' := bind_congr_iff.mp heq _ _ _ hset
      cases heq'
  · intro h tmp s₁ events₁ hget
    cases tmp with
    | none => rfl
    | some tmp =>
      refine bind_congr_iff.mpr fun res s₂ events₂ harith => ?_
      cases res with
      | failed written =>
        cases written with
        | none => rfl
        | some dst => exact absurd ⟨tmp, s₁, events₁, hget, .inl ⟨dst, s₂, events₂, harith⟩⟩ h
      | returned target =>
        refine bind_congr_iff.mpr fun ok s₃ events₃ hset => ?_
        cases ok with
        | true => rfl
        | false =>
          exact absurd ⟨tmp, s₁, events₁, hget,
            .inr ⟨target, s₂, events₂, s₃, events₃, harith, hset⟩⟩ h

namespace ArithInstr

/-- The operands for which an instruction is right: nothing is stored before an error, and `%`
reports none. -/
def Agrees (rt : Runtime) (fuel : ℕ) (s : Store) : ArithInstr → Prop
  | binary .mod o1 o2 => ¬ArithFails rt .mod o1 o2 s
  | binary op o1 o2 => ¬ArithSpoils rt op o1 o2 s
  | incl a sarg3 => ¬ArithSpoils rt .add a (.integer sarg3) s
  | pincl _ _ => True
  | compArith op self key incr selfidx => ¬SlotSpoils rt fuel op self key incr selfidx s
  | inc self key sarg3 selfidx => ¬SlotSpoils rt fuel .add self key (.integer sarg3) selfidx s
  | pinc self key sarg3 selfidx => ¬SlotSpoils rt fuel .add self key (.integer sarg3) selfidx s

/-- An arithmetic instruction does what `ARITH_OP` says, if and only if nothing is stored before an
error and, for `%`, there is none. -/
theorem execute_eq_iff (rt : Runtime) (fuel : ℕ) (instr : ArithInstr) (s : Store) :
    instr.execute rt fuel s = instr.reference rt fuel s ↔ instr.Agrees rt fuel s := by
  have hguard : ∀ op o1 o2, landing rt guardInto op o1 o2 s =
      landing rt (agreed .store) op o1 o2 s ↔ ¬ArithSpoils rt op o1 o2 s :=
    fun _ _ _ => landing_guarded (fun _ => rfl) rfl nofun
  have hinteger : ∀ i sarg3 : ℤ, arithOpInto rt .add (.integer i) (.integer sarg3) s =
      .done (.returned (.integer (Int.bmod (i + sarg3) (2 ^ 64)))) s [] := fun _ _ => rfl
  cases instr with
  | binary op o1 o2 =>
    cases op with
    | add | sub | mul =>
      refine Iff.trans ?_ (hguard _ o1 o2)
      rw [← arithEffect_eq guardInto (by decide) (by decide)]
      rfl
    | div =>
      refine Iff.trans ?_ (hguard .div o1 o2)
      rw [← arithNozeroEffect_eq]
      rfl
    | mod => exact landing_ignored
  | incl a sarg3 =>
    by_cases hint : ∃ i, a = .integer i
    · obtain ⟨i, rfl⟩ := hint
      refine iff_of_true rfl ?_
      rintro ⟨dst, s', events, h⟩
      rw [hinteger] at h
      cases h
    · have hnot : ∀ i, a = .integer i → False := fun i hi => hint ⟨i, hi⟩
      rw [execute, arithEffect_eq guardVar (by decide) (by decide)]
      · exact landing_guarded (fun _ => rfl) rfl nofun
      · exact hnot
  | pincl a sarg3 =>
    refine iff_of_true ?_ trivial
    by_cases hint : ∃ i, a = .integer i
    · obtain ⟨i, rfl⟩ := hint
      rfl
    · have hnot : ∀ i, a = .integer i → False := fun i hi => hint ⟨i, hi⟩
      rw [execute]
      · refine bind_congr_iff.mpr fun res s' events _ => ?_
        cases res with
        | returned trg => rfl
        | failed written => rfl
      · exact hnot
  | compArith op self key incr selfidx => exact derefInc_eq_iff
  | inc self key sarg3 selfidx => exact derefInc_eq_iff
  | pinc self key sarg3 selfidx => exact derefInc_eq_iff

/-- `1 % 0` -/
theorem execute_ne_reference : ¬ ∀ (rt : Runtime) (fuel : ℕ) (instr : ArithInstr) (s : Store),
    instr.execute rt fuel s = instr.reference rt fuel s := by
  intro h
  cases h nullRuntime 0 (.binary .mod (.integer 1) (.integer 0)) emptyStore

end ArithInstr

end VmOp

end Squirt
