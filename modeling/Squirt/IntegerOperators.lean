import Squirt.JitArithmetic
import Squirt.MachineIntegers

/-!
# Operators on machine integers

What `Execute` does for `/`, `%`, `<<`, `>>`, `>>>` and the unary minus of integers, on a machine
with integers of 32 or of 64 bits. Only the divisor 0 is looked at.
-/

namespace Squirt

open MachineIntegers

/-- `SQInteger`, without and with `_SQ64` -/
inductive IntegerSize
  | bits32
  | bits64
  deriving DecidableEq

namespace IntegerSize

def bits : IntegerSize → ℕ
  | bits32 => 32
  | bits64 => 64

private theorem bits_pos (size : IntegerSize) : 0 < size.bits := by
  cases size with
  | bits32 => exact Nat.succ_pos _
  | bits64 => exact Nat.succ_pos _

end IntegerSize

/-- What an instruction does with its target; `kept` is an error that is not looked at, and
`undefined` an operation of the machine whose preconditions do not hold. -/
inductive IntegerResult (w : ℕ)
  | stored (res : BitVec w)
  | thrown (message : String)
  | kept (message : String)
  | undefined

namespace IntegerResult

variable {w : ℕ}

/-- `trg = res` -/
def ofOption : Option (BitVec w) → IntegerResult w
  | some res => stored res
  | none => undefined

/-- The instruction throws, or it stores a value whose computation is defined. -/
def Defined (res : IntegerResult w) : Prop := (∃ v, res = stored v) ∨ ∃ message, res = thrown message

theorem defined_ofOption {res : Option (BitVec w)} : (ofOption res).Defined ↔ res.isSome := by
  cases res with
  | none => exact iff_of_false (by rintro (⟨v, ⟨⟩⟩ | ⟨message, ⟨⟩⟩)) (by simp)
  | some v => exact iff_of_true (.inl ⟨v, rfl⟩) rfl

private theorem defined_thrown {message : String} : (thrown message : IntegerResult w).Defined :=
  .inr ⟨message, rfl⟩

private theorem not_defined_kept {message : String} : ¬(kept message : IntegerResult w).Defined
    := by
  rintro (⟨v, ⟨⟩⟩ | ⟨message, ⟨⟩⟩)

end IntegerResult

/-- The operators with an instruction for two integers; those of `x.y /= z` and `x.y %= z` get to
`ARITH_OP` by `DerefInc`. -/
inductive IntegerOp
  | div | mod | compoundDiv | compoundMod | shiftl | shiftr | ushiftr | neg
  deriving DecidableEq

namespace IntegerOp

variable {w : ℕ}

/-- `case OT_INTEGER` of `ARITH_OP` for `/` -/
def arithDiv (i1 i2 : BitVec w) : IntegerResult w :=
  if i2 = 0 then .thrown "division by zero" else .ofOption (quotient i1 i2)

/-- `case OT_INTEGER` of `ARITH_OP` for `%` -/
def arithMod (i1 i2 : BitVec w) : IntegerResult w :=
  if i2 = 0 then .thrown "modulo by zero" else .ofOption (remainder i1 i2)

/-- A result of false that is not looked at -/
def ignore : IntegerResult w → IntegerResult w
  | .thrown message => .kept message
  | res => res

/-- What `Execute` does on integers; the unary minus has only the first one. -/
def execute (op : IntegerOp) (i1 i2 : BitVec w) : IntegerResult w :=
  match op with
  -- `_ARITH_NOZERO`
  | div => if i2 = 0 then .thrown "division by zero" else .ofOption (quotient i1 i2)
  -- `ARITH_OP` without `_GUARD`
  | mod => ignore (arithMod i1 i2)
  | compoundDiv => arithDiv i1 i2
  | compoundMod => arithMod i1 i2
  -- `BW_OP`
  | shiftl => .ofOption (shift (i1 <<< ·) i2)
  | shiftr => .ofOption (shift i1.sshiftRight i2)
  | ushiftr => .ofOption (shift (i1 >>> ·) i2)
  -- `NEG_OP`
  | neg => .ofOption (negation i1)

/-- The operands that an operator is right for: no least integer by -1 and no negation of it, no
shift by an amount out of range, and no `%` by 0 outside of an assignment. -/
def Safe (op : IntegerOp) (i1 i2 : BitVec w) : Prop :=
  match op with
  | div | compoundDiv | compoundMod => ¬(i1 = BitVec.intMin w ∧ i2 = -1)
  | mod => i2 ≠ 0 ∧ ¬(i1 = BitVec.intMin w ∧ i2 = -1)
  | shiftl | shiftr | ushiftr => 0 ≤ i2.toInt ∧ i2.toInt < w
  | neg => i1 ≠ BitVec.intMin w

/-- With a check for a divisor of 0, the only quotient left out is that by -1. -/
theorem defined_checked (hw : 0 < w) {i1 i2 : BitVec w} {message : String}
    {res : Option (BitVec w)}
    (hres : res.isSome ↔ i2 ≠ 0 ∧ ¬(i1 = BitVec.intMin w ∧ i2 = -1)) :
    (if i2 = 0 then .thrown message else .ofOption res : IntegerResult w).Defined ↔
      ¬(i1 = BitVec.intMin w ∧ i2 = -1) := by
  split_ifs with hzero
  · refine iff_of_true IntegerResult.defined_thrown fun h => ?_
    exact neg_one_ne_zero hw (h.2.symm.trans hzero)
  · rw [IntegerResult.defined_ofOption, hres]
    exact and_iff_right hzero

/-- A check that is not looked at leaves out the divisor 0, too. -/
theorem defined_ignored (hw : 0 < w) (i1 i2 : BitVec w) :
    (ignore (arithMod i1 i2)).Defined ↔ i2 ≠ 0 ∧ ¬(i1 = BitVec.intMin w ∧ i2 = -1) := by
  unfold arithMod
  split_ifs with hzero
  · exact iff_of_false IntegerResult.not_defined_kept fun h => h.1 hzero
  · rw [← remainder_isSome hw, ← IntegerResult.defined_ofOption]
    cases remainder i1 i2 <;> rfl

/-- An operator on machine integers throws or computes a value by an operation that is defined, if
and only if the operands are ones that it is right for. -/
theorem execute_defined_iff (size : IntegerSize) (op : IntegerOp) (i1 i2 : BitVec size.bits) :
    (op.execute i1 i2).Defined ↔ op.Safe i1 i2 := by
  have hw := size.bits_pos
  cases op with
  | div | compoundDiv => exact defined_checked hw (quotient_isSome hw i1 i2)
  | mod => exact defined_ignored hw i1 i2
  | compoundMod => exact defined_checked hw (remainder_isSome hw i1 i2)
  | shiftl | shiftr | ushiftr => exact IntegerResult.defined_ofOption.trans shift_isSome
  | neg => exact IntegerResult.defined_ofOption.trans (negation_isSome hw i1)

/-- The least integer divided by -1 -/
theorem execute_not_defined : ¬ ∀ (size : IntegerSize) (op : IntegerOp) (i1 i2 : BitVec size.bits),
    (op.execute i1 i2).Defined := by
  intro h
  have hw : 0 < 64 := by decide
  have hdefined : (if (-1 : BitVec 64) = 0 then .thrown "division by zero" else
      .ofOption (quotient (BitVec.intMin 64) (-1)) : IntegerResult 64).Defined :=
    h .bits64 .div (BitVec.intMin 64) (-1)
  exact (defined_checked hw (quotient_isSome hw _ _)).mp hdefined ⟨rfl, rfl⟩

end IntegerOp

section Interpreter

open VmOp

/-- The same in the interpreter, where the target is on the stack and errors are in the VM. -/
def IntegerResult.run : IntegerResult 64 → VmOp ArithResult
  | .stored res => pure (.stored (.integer res.toInt))
  | .thrown message => do
    raiseError message
    pure .thrown
  | .kept message => do
    raiseError message
    pure .kept
  | .undefined => .step fun _ => none

variable {rt : Runtime} {s : Store} (i1 i2 : BitVec 64)

/-- The quotients that the interpreter's model leaves out are the undefined ones. -/
theorem undefined_iff : (i2.toInt = 0 ∨ i1.toInt = -2 ^ 63 ∧ i2.toInt = -1) ↔
    quotient i1 i2 = none := by
  have hw : 0 < 64 := by decide
  rw [← Option.not_isSome_iff_eq_none, quotient_isSome hw, eq_intMin_iff hw,
    ← BitVec.toInt_inj (y := -1), toInt_neg_one hw, toInt_eq_zero_iff]
  tauto

private theorem ofIntegers_div :
    ArithOp.div.ofIntegers i1.toInt i2.toInt = (quotient i1 i2).map BitVec.toInt := by
  unfold ArithOp.ofIntegers
  split_ifs with h
  · rw [(undefined_iff i1 i2).mp h]
    rfl
  · have hsome := mt (undefined_iff i1 i2).mpr h
    unfold quotient at hsome ⊢
    split_ifs at hsome ⊢ with hzero
    · exact absurd rfl hsome
    · unfold exact at hsome ⊢
      split_ifs at hsome ⊢ with hfits
      · rw [Option.map_some, BitVec.toInt_ofInt]
        exact congrArg some hfits.symm
      · exact absurd rfl hsome

private theorem ofIntegers_mod :
    ArithOp.mod.ofIntegers i1.toInt i2.toInt = (remainder i1 i2).map BitVec.toInt := by
  unfold ArithOp.ofIntegers remainder
  split_ifs with h
  · rw [(undefined_iff i1 i2).mp h]
    rfl
  · obtain ⟨q, hq⟩ := Option.ne_none_iff_exists'.mp (mt (undefined_iff i1 i2).mpr h)
    rw [hq, Option.map_some, Option.map_some, BitVec.toInt_ofInt]
    exact congrArg some (fits_tmod i1 i2).symm

/-- After a divisor that is not 0 -/
theorem run_ofOption (res : Option (BitVec 64)) :
    (IntegerResult.ofOption res).run s =
      (integerResult (res.map BitVec.toInt) >>= unguarded) s := by
  cases res <;> rfl

theorem operands_integers : operands rt (.integer i1.toInt) (.integer i2.toInt) =
    .integers i1.toInt i2.toInt := rfl

theorem executeArith_div : executeArith rt .div (.integer i1.toInt) (.integer i2.toInt) s =
    (IntegerOp.div.execute i1 i2).run s := by
  simp only [executeArith, arithNozero, operands_integers, IntegerOp.execute, toInt_eq_zero_iff]
  split_ifs with hzero
  · rfl
  · rw [ofIntegers_div, run_ofOption]

theorem executeArith_mod : executeArith rt .mod (.integer i1.toInt) (.integer i2.toInt) s =
    (IntegerOp.mod.execute i1 i2).run s := by
  simp only [executeArith, arithOp, operands_integers, IntegerOp.execute, IntegerOp.arithMod,
    toInt_eq_zero_iff]
  split_ifs with hzero
  · rfl
  · rw [ofIntegers_mod]
    cases remainder i1 i2 <;> rfl

theorem negOp_integer (trg : SQObject) (h : i1 ≠ BitVec.intMin 64) :
    (negOp rt trg (.integer i1.toInt) >>= guarded) s = (IntegerOp.neg.execute i1 i2).run s := by
  have hfits : Fits 64 (-i1.toInt) := (fits_neg_iff (by decide) i1).mpr h
  have hneg : negation i1 = some (BitVec.ofInt 64 (-i1.toInt)) := if_pos hfits
  simp only [IntegerOp.execute, hneg, IntegerResult.ofOption, IntegerResult.run,
    BitVec.toInt_ofInt]
  rfl

end Interpreter

end Squirt
