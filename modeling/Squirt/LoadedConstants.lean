import Squirt.LiteralOperands

/-!
# Loading an integer constant

`EmitLoadConstInt` puts a value into the operand of `_OP_LOADINT` or among the literals, and
`Execute` reads it from there, also where the optimizer has merged the instruction with the one
before it or after it.
-/

namespace Squirt.Literals

open Programs Program SQCompiler

/-- Without `_SQ64` an `SQInteger` has 32 bits, and with it 64. -/
inductive Build
  | sq32
  | sq64

def Build.width : Build → ℕ
  | sq32 => 32
  | sq64 => 64

/-- An object of a register; `none` is null. -/
abbrev SQObject := Option Literal

def integerObject {w : ℕ} (v : BitVec w) : SQObject := some ⟨.integer, v.toNat⟩

/-- `(SQInt32)` -/
def sqInt32 (a : ℤ) : ℤ := (BitVec.ofInt 32 a).toInt

section Emit

variable (H : Hashes) (b : Build)

/-- The instruction that `EmitLoadConstInt` adds -/
def loadConstInt (value : BitVec b.width) (target : ℤ) : PoolProgram SQInstruction :=
  if value &&& ~~~(BitVec.ofNat b.width 0xFFFFFFFF) = 0 then
    pure (.ofArgs none .LOADINT target (sqInt32 value.toInt) 0 0)
  else do
    let k ← getConstant H (some ⟨.integer, value.toNat⟩)
    pure (.ofArgs none .LOAD target (sqInt32 k) 0 0)

/-- The target of `EmitLoadConstInt`: a new one if there is none yet -/
def loadTarget (fs : SQFuncState) (target : ℤ) : SQFuncState × ℤ :=
  if target < 0 then (fs.pushTarget none, (fs.pushTarget none).topTarget) else (fs, target)

end Emit

section Execute

/-- The registers, and everything else -/
structure State (W : Type) where
  stk : ℤ → SQObject
  world : W

variable {W : Type}

/-- `STK(r) = o` -/
def State.store (st : State W) (r : BitVec 8) (o : SQObject) : State W :=
  { st with stk := Function.update st.stk r.toNat o }

/-- `Get`, `IsEqual` and `Append` of the machine, and its other instructions; `none` throws. -/
structure Operations (W : Type) where
  get : State W → SQObject → SQObject → ℤ → Option (SQObject × State W)
  isEqual : State W → SQObject → SQObject → Option (Bool × State W)
  append : State W → SQObject → SQObject → State W
  others : SQInstruction → State W → Option (State W)

variable (ops : Operations W) (b : Build) (literals : List SQObject)

/-- `ci->_literals[k]` -/
def literal (k : ℤ) : Option SQObject := if 0 ≤ k then literals[k.toNat]? else none

/-- The integer of `_OP_LOADINT` and of `AAT_INT`: with `_SQ64` the operand is read unsigned. -/
def operandInt : (b : Build) → ℤ → BitVec b.width
  | .sq32, arg1 => BitVec.ofInt 32 arg1
  | .sq64, arg1 => (BitVec.ofInt 32 arg1).setWidth 64

/-- `_OP_PREPCALL` and `_OP_PREPCALLK` -/
def prepCall (i : SQInstruction) (key : SQObject) (st : State W) : Option (State W) := do
  let (o, st) ← ops.get st (st.stk i.arg2.toNat) key i.arg2.toNat
  some ((st.store i.arg3 (st.stk i.arg2.toNat)).store i.arg0 o)

/-- `_OP_EQ` and `_OP_NE` -/
def compareWith (i : SQInstruction) (o : SQObject) (st : State W) : Option (State W) := do
  let (res, st) ← ops.isEqual st (st.stk i.arg2.toNat) o
  let res := if i.op = .NE then !res else res
  some (st.store i.arg0 (some ⟨.bool, res.toNat⟩))

/-- `_OP_GET` and `_OP_GETK` of the object in a register -/
def getFrom (i : SQInstruction) (r : ℤ) (key : SQObject) (st : State W) : Option (State W) := do
  let (o, st) ← ops.get st (st.stk r) key r
  some (st.store i.arg0 o)

/-- The `val` of `_OP_APPENDARRAY` -/
def appendedValue (i : SQInstruction) (st : State W) : Option SQObject :=
  if i.arg2 = 0 then some (st.stk i.arg1)
  else if i.arg2 = 1 then literal literals i.arg1
  else if i.arg2 = 2 then some (integerObject (operandInt b i.arg1))
  else if i.arg2 = 3 then some (some ⟨.float, (BitVec.ofInt 32 i.arg1).toNat⟩)
  else if i.arg2 = 4 then some (some ⟨.bool, (BitVec.ofInt b.width i.arg1).toNat⟩)
  else none

/-- `Execute` of one instruction, as far as literals and integer constants go -/
def execute (i : SQInstruction) (st : State W) : Option (State W) :=
  match i.op with
  | .LOAD => do
    let o ← literal literals i.arg1
    some (st.store i.arg0 o)
  | .LOADINT => some (st.store i.arg0 (integerObject (operandInt b i.arg1)))
  | .DLOAD => do
    let o ← literal literals i.arg1
    let o' ← literal literals i.arg3.toNat
    some ((st.store i.arg0 o).store i.arg2 o')
  | .PREPCALL => prepCall ops i (st.stk i.arg1) st
  | .PREPCALLK => do
    let key ← literal literals i.arg1
    prepCall ops i key st
  | .GET => getFrom ops i i.arg1 (st.stk i.arg2.toNat) st
  | .GETK => do
    let key ← literal literals i.arg1
    getFrom ops i i.arg2.toNat key st
  | .MOVE => some (st.store i.arg0 (st.stk i.arg1))
  | .EQ | .NE =>
    if i.arg3 = 0 then compareWith ops i (st.stk i.arg1) st
    else do
      let o ← literal literals i.arg1
      compareWith ops i o st
  | .APPENDARRAY => do
    let val ← appendedValue b literals i st
    some (ops.append st (st.stk i.arg0.toNat) val)
  | _ => ops.others i st

/-- The instruction after a load of `o` into `r`, with `o` itself for the operand `r` that the
optimizer looks at; where it has none, `o` is stored first. -/
def executeWith (o : SQObject) (r : BitVec 8) (i : SQInstruction) (st : State W) :
    Option (State W) :=
  match i.op with
  | .PREPCALL => prepCall ops i o st
  | .GET => getFrom ops i (BitVec.ofInt 8 i.arg1).toNat o st
  | .MOVE => some (st.store i.arg0 o)
  | .EQ | .NE => compareWith ops i o st
  | .APPENDARRAY => some (ops.append st (st.stk i.arg0.toNat) o)
  | _ => execute ops b literals i (st.store r o)

/-- The operand that the optimizer looks at -/
def mergedOperand (i : SQInstruction) : ℤ :=
  match i.op with
  | .GET => i.arg2.toNat
  | _ => i.arg1

/-- With the value of its operand the instruction is the one the compiler has emitted. -/
theorem execute_eq_executeWith (i : SQInstruction) (r : BitVec 8) (st : State W)
    (hop : i.op = .PREPCALL ∨ i.op = .GET ∧ 0 ≤ i.arg1 ∧ i.arg1 < 256 ∨ i.op = .MOVE ∨
      (i.op = .EQ ∨ i.op = .NE) ∧ i.arg3 = 0 ∨ i.op = .APPENDARRAY ∧ i.arg2 = 0) :
    execute ops b literals i st =
      executeWith ops b literals (st.stk (mergedOperand i)) r i st := by
  rcases hop with hop | ⟨hop, hlow, hhigh⟩ | hop | ⟨hop | hop, h3⟩ | ⟨hop, h2⟩
  · simp only [execute, executeWith, mergedOperand, hop]
  · have hsmall : ((BitVec.ofInt 8 i.arg1).toNat : ℤ) = i.arg1 := by
      rw [BitVec.toNat_ofInt]
      omega
    simp only [execute, executeWith, mergedOperand, hop, hsmall]
  · simp only [execute, executeWith, mergedOperand, hop]
  · simp only [execute, executeWith, mergedOperand, hop, h3, if_true]
  · simp only [execute, executeWith, mergedOperand, hop, h3, if_true]
  · simp only [execute, executeWith, mergedOperand, hop, appendedValue, h2, if_true]
    rfl

end Execute

/-- An instruction that loads `v` -/
inductive Loads {b : Build} (literals : List SQObject) (v : BitVec b.width) :
    SQInstruction → Prop
  | int {i : SQInstruction} (hop : i.op = .LOADINT) (harg : operandInt b i.arg1 = v) :
    Loads literals v i
  | pooled {i : SQInstruction} (hop : i.op = .LOAD) (hpos : 0 ≤ i.arg1)
    (harg : literal literals i.arg1 = some (integerObject v)) : Loads literals v i

section Loads

variable {W : Type} {ops : Operations W} {b : Build} {literals : List SQObject} {v : BitVec b.width}
  {i : SQInstruction}

theorem Loads.execute (h : Loads literals v i) (st : State W) :
    execute ops b literals i st = some (st.store i.arg0 (integerObject v)) := by
  cases h with
  | int hop harg => simp only [Literals.execute, hop, harg]
  | pooled hop hpos harg =>
    simp only [Literals.execute, hop, harg]
    rfl

/-- What the optimizer leaves of a load before `j` -/
def Carries (ops : Operations W) (literals : List SQObject) (v : BitVec b.width)
    (i j : SQInstruction) : Fused → Prop
  | .keep i' _ => i' = i
  | .merge m _ => ∀ st, Literals.execute ops b literals m st =
      executeWith ops b literals (integerObject v) i.arg0 j st

/-- What the optimizer leaves of a load after `pi` -/
def CarriesAfter (ops : Operations W) (b : Build) (literals : List SQObject)
    (pi i : SQInstruction) : Fused → Prop
  | .keep pi' i' => pi' = pi ∧ i' = i
  | .merge m _ => ∀ st, Literals.execute ops b literals m st =
      (Literals.execute ops b literals pi st).bind (Literals.execute ops b literals i)

theorem Loads.op (h : Loads literals v i) : i.op = .LOADINT ∨ i.op = .LOAD := by
  cases h with
  | int hop => exact .inl hop
  | pooled hop => exact .inr hop

/-- The literal of a load that was merged -/
theorem Loads.literal_eq (h : Loads literals v i) (hop : i.op = .LOAD) :
    literal literals i.arg1 = some (integerObject v) := by
  cases h with
  | int hop' =>
    rw [hop] at hop'
    cases hop'
  | pooled _ _ harg => exact harg

/-- `_OP_MOVE` gives the load another target. -/
theorem Loads.move (h : Loads literals v i) (arg0 : BitVec 8) :
    Loads literals v { i with arg0 } := by
  cases h with
  | int hop harg => exact .int hop harg
  | pooled hop hpos harg => exact .pooled hop hpos harg

theorem Loads.carries (h : Loads literals v i) (fs : SQFuncState) (j : SQInstruction)
    (hj : j.op = .LOAD → 0 ≤ j.arg1) : Carries ops literals v i j (fs.fuse i j) := by
  unfold SQFuncState.fuse
  split
  case h_1 hop =>
    split_ifs with hpi
    · rcases h.op with hi | hi <;> simp [hi] at hpi
    · rfl
    · rfl
  case h_2 hop | h_3 hop | h_4 hop => split_ifs <;> rfl
  case h_5 hop =>
    split_ifs with hpi hpi'
    · rcases h.op with hi | hi <;> simp [hi] at hpi
    · rcases h.op with hi | hi <;> simp [hi] at hpi'
    · rfl
  case h_6 hop =>
    split_ifs with hpi
    · intro st
      simp only [Literals.execute, executeWith, hop, h.literal_eq hpi.1]
      rfl
    · rfl
  case h_7 hop =>
    split_ifs with hpi
    · intro st
      simp only [Literals.execute, executeWith, hop, h.literal_eq hpi.1]
      rfl
    · rfl
  case h_8 hop =>
    cases h with
    | int hi harg =>
      simp only [hi, appendArrayType]
      split_ifs
      · intro st
        simp only [Literals.execute, executeWith, hop, appendedValue, harg]
        rfl
      · rfl
    | pooled hi hpos harg =>
      simp only [hi, appendArrayType]
      split_ifs
      · intro st
        simp only [Literals.execute, executeWith, hop, appendedValue, harg]
        rfl
      · rfl
  case h_9 hop =>
    split_ifs with hpi hpi'
    · intro st
      rw [(h.move j.arg0).execute]
      simp only [executeWith, hop]
    · rcases h.op with hi | hi <;> simp [hi] at hpi'
    · rfl
  case h_10 hop =>
    split_ifs with hpi
    · intro st
      have hpos := hj hop
      have hsmall : ((BitVec.ofInt 8 j.arg1).toNat : ℤ) = j.arg1 := by
        rw [BitVec.toNat_ofInt]
        omega
      simp only [Literals.execute, executeWith, hop, h.literal_eq hpi.1, hsmall]
      rfl
    · rfl
  case h_11 hop | h_12 hop =>
    split_ifs with hpi
    · intro st
      simp only [Literals.execute, executeWith, hop, h.literal_eq hpi.1,
        if_neg (show ¬ (255 : BitVec 8) = 0 by decide), Option.bind_eq_bind, Option.bind_some,
        compareWith]
    · rfl
  case h_13 hop =>
    split_ifs with hpi
    · rcases h.op with hi | hi <;> simp [hi] at hpi
    · rfl
  case h_14 hop =>
    split_ifs with hpi
    · rcases h.op with hi | hi <;> simp [hi] at hpi
    · rfl
  case h_15 => rfl

theorem Loads.carriesAfter (h : Loads literals v i) (fs : SQFuncState) (pi : SQInstruction) :
    CarriesAfter ops b literals pi i (fs.fuse pi i) := by
  cases h with
  | int hop =>
    simp only [SQFuncState.fuse, hop]
    exact ⟨rfl, rfl⟩
  | pooled hop hpos harg =>
    simp only [SQFuncState.fuse, hop]
    split_ifs with hpi
    · intro st
      have hsmall : ((BitVec.ofInt 8 i.arg1).toNat : ℤ) = i.arg1 := by
        rw [BitVec.toNat_ofInt]
        omega
      simp only [Literals.execute, hop, hpi.1, hsmall]
      cases literal literals pi.arg1 with
      | none => rfl
      | some o => simp only [Option.bind_eq_bind, Option.bind_some, Literals.execute, hop]
    · exact ⟨rfl, rfl⟩

end Loads

section Emission

variable {H : Hashes} {b : Build} {v : BitVec b.width}

private theorem operandInt_sqInt32 (hmask : v &&& ~~~(BitVec.ofNat b.width 0xFFFFFFFF) = 0) :
    operandInt b (sqInt32 v.toInt) = v := by
  cases b with
  | sq32 =>
    change BitVec 32 at v
    change BitVec.ofInt 32 (BitVec.ofInt 32 v.toInt).toInt = v
    rw [BitVec.ofInt_toInt, BitVec.ofInt_toInt]
  | sq64 =>
    change BitVec 64 at v
    change (BitVec.ofInt 32 (BitVec.ofInt 32 v.toInt).toInt).setWidth 64 = v
    have hbits : ∀ i ≥ 32, v.toNat.testBit i = false := by
      intro i hi
      by_contra hbit
      have hbit : v.getLsbD i = true := by
        rw [BitVec.getLsbD]
        simpa using hbit
      have hlt : i < 64 := BitVec.lt_of_getLsbD hbit
      have hzero : (v &&& ~~~(BitVec.ofNat 64 0xFFFFFFFF)).getLsbD i = false := by
        rw [show v &&& ~~~(BitVec.ofNat 64 0xFFFFFFFF) = 0 from hmask]
        simp
      have hmaskbit : (BitVec.ofNat 64 0xFFFFFFFF).getLsbD i = false := by
        rw [BitVec.getLsbD_ofNat, show (0xFFFFFFFF : ℕ) = 2 ^ 32 - 1 by rfl,
          Nat.testBit_two_pow_sub_one]
        simp [hi]
      rw [BitVec.getLsbD_and, BitVec.getLsbD_not, hbit, hmaskbit, decide_eq_true hlt] at hzero
      cases hzero
    have hsmall : v.toNat < 2 ^ 32 := Nat.lt_pow_two_of_testBit _ hbits
    rw [BitVec.ofInt_toInt]
    apply BitVec.eq_of_toNat_eq
    rw [BitVec.toNat_setWidth, BitVec.toNat_ofInt, BitVec.toInt_eq_toNat_cond]
    split_ifs <;> omega

/-- The instruction that is added loads the value, and the literals grow. -/
theorem loads_loadConstInt {s s₁ : Pool} {cs : List Literal} (hheld : s.Holds H cs)
    (hbound : (cs.length : ℤ) ≤ MAX_LITERALS) {target : ℤ} {i : SQInstruction}
    (hrun : loadConstInt H b v target s = .ok i s₁) :
    ∃ cs₁, s₁.Holds H cs₁ ∧ cs <+: cs₁ ∧ (cs₁.length : ℤ) ≤ MAX_LITERALS ∧
      Loads (cs₁.map some) v i := by
  rw [loadConstInt] at hrun
  split_ifs at hrun with hmask
  · cases hrun
    exact ⟨cs, hheld, List.prefix_rfl, hbound, .int rfl (operandInt_sqInt32 hmask)⟩
  · obtain ⟨k, s', hconst, hrun⟩ := exists_of_bind_ok hrun
    cases hrun
    obtain ⟨cs₁, hheld₁, hpre₁, hbound₁, n, rfl, hplace⟩ := hheld.of_getConstant hconst
    have hlt := (List.getElem?_eq_some_iff.mp hplace).1
    have hle := hbound₁ hbound
    have harg : sqInt32 n = n := by
      rw [sqInt32, BitVec.toInt_ofInt]
      rw [MAX_LITERALS] at hle
      exact Int.bmod_eq_of_le (by omega) (by omega)
    have hliteral : literal (cs₁.map some) (sqInt32 n) = some (integerObject v) := by
      rw [harg, literal, if_pos (Int.natCast_nonneg n), Int.toNat_natCast, List.getElem?_map,
        hplace]
      rfl
    exact ⟨cs₁, hheld₁, hpre₁, hle, .pooled rfl (harg.symm ▸ Int.natCast_nonneg n) hliteral⟩

/-- The instruction stores `v` in its target, and so does what the optimizer makes of it and the
instruction after it or before it. The operand of a `_OP_LOAD` is the index of a literal. -/
structure Survives {W : Type} (ops : Operations W) (literals : List SQObject) (v : BitVec b.width)
    (i : SQInstruction) : Prop where
  stores : ∀ st, execute ops b literals i st = some (st.store i.arg0 (integerObject v))
  carries : ∀ (fs : SQFuncState) (j : SQInstruction), (j.op = .LOAD → 0 ≤ j.arg1) →
    Carries ops literals v i j (fs.fuse i j)
  carriesAfter : ∀ (fs : SQFuncState) (pi : SQInstruction),
    CarriesAfter ops b literals pi i (fs.fuse pi i)

end Emission

end Squirt.Literals
